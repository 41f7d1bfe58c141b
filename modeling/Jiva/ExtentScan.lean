import Mathlib.Data.Finset.Card
import Mathlib.Data.Finset.Range
import Jiva.Preload
import Jiva.Image

/-!
# The extent scan of a chain that stands still

`preload` goes through the files from the base up. When it meets a sector again it notes the higher
file, and the lower file joins a run that becomes a hole when the run ends. `Still` is what holds
before each sector, for any answers of the extent query : the table names the highest file seen so
far, everything in the pending run has been seen in the file at hand, and every hole that was sent
is covered (`Covered`) : there is a file above it with the sector, and no flag from the punched file
up to that one.

Nothing of this depends on what the files are, so the query is a parameter. A backing file, whose
descriptor is `0`, has no extents.
-/

namespace Jiva

open Layered Function

/-- A file above `f` has the sector, and no flag stands from `f` up to it. -/
def DiffDisk.Covered (d : DiffDisk) (obs : ℕ → ℕ → Bool) (f s : ℕ) : Prop :=
  ∃ j, f < j ∧ j ≤ d.target ∧ obs j s = true ∧ ∀ u, f ≤ u → u ≤ j → d.flagged u = false

/-- A hole of whole sectors of one file, all of them covered. -/
def DiffDisk.CoveredHole (d : DiffDisk) (obs : ℕ → ℕ → Bool) (h : Hole) : Prop :=
  ∃ f lo len, 0 < f ∧ f < d.target ∧ lo + len ≤ d.locationLen ∧
    h = ⟨d.file f, lo * defaultSectorSize, len * defaultSectorSize⟩ ∧ ∀ s, lo ≤ s → s < lo + len →
      d.Covered obs f s

/-! ## Known sectors -/

/-- Number of entries of the table that are not `0`. -/
def known (n : ℕ) (l : ℕ → ℕ) : ℕ :=
  ((Finset.range n).filter fun s => l s ≠ 0).card

theorem known_congr {n : ℕ} {l l' : ℕ → ℕ} (h : ∀ s, s < n → l' s = l s) :
    known n l' = known n l := by
  unfold known
  congr 1
  exact Finset.filter_congr fun s hs => by rw [h s (Finset.mem_range.1 hs)]

theorem known_update_known {n s x : ℕ} {l : ℕ → ℕ} (hl : l s ≠ 0) (hx : x ≠ 0) :
    known n (update l s x) = known n l := by
  unfold known
  congr 1
  refine Finset.filter_congr fun t _ => ?_
  rcases eq_or_ne t s with rfl | hne
  · rw [update_self]
    exact ⟨fun _ => hl, fun _ => hx⟩
  · rw [update_of_ne hne]

theorem known_update_unknown {n s x : ℕ} {l : ℕ → ℕ} (hs : s < n) (hl : l s = 0) (hx : x ≠ 0) :
    known n (update l s x) = known n l + 1 := by
  unfold known
  rw [← Finset.card_insert_of_notMem (a := s) (by simp [hl])]
  congr 1
  ext t
  rw [Finset.mem_insert, Finset.mem_filter, Finset.mem_filter, Finset.mem_range]
  rcases eq_or_ne t s with rfl | hne
  · simp [hs, hx]
  · simp [hne]

/-! ## Whole scans -/

/-- Invariant rule of `preload` : `A i` after file `i`, and `B i s` before sector `s` of it. -/
theorem Scan.all_ind {A : ℕ → Scan → Prop} {B : ℕ → ℕ → Scan → Prop} (punch : Bool)
    (obs : ℕ → ℕ → Bool) (d : DiffDisk) (h0 : A 0 (Scan.start d))
    (hbegin : ∀ i sc, i < d.target → A i sc →
      sc.d.locationLen = d.locationLen ∧ B (i + 1) 0 (sc.beginFile (i + 1)))
    (hsector : ∀ i s sc, 0 < i → i ≤ d.target → s < d.locationLen → B i s sc →
      B i (s + 1) (sc.sector punch (obs i s)))
    (hend : ∀ i sc, 0 < i → i ≤ d.target → B i d.locationLen sc → A i (sc.endFile punch)) :
    A d.target (Scan.all punch obs d) := by
  refine Transition.foldl_range_rec (P := A) _ _ h0 d.target fun i sc hi hA => ?_
  obtain ⟨hlen, hB⟩ := hbegin i sc hi hA
  refine hend (i + 1) _ (Nat.succ_pos i) hi ?_
  rw [hlen]
  exact Transition.foldl_range_rec (P := B (i + 1)) _ _ hB d.locationLen fun s sc hs hB =>
    hsector (i + 1) s sc (Nat.succ_pos i) hi hs hB

/-- The chain of a scan does not change. -/
structure Scan.SameChain (d : DiffDisk) (sc : Scan) : Prop where
  files : sc.d.files = d.files
  locationLen : sc.d.locationLen = d.locationLen
  userCreatedSnap : sc.d.userCreatedSnap = d.userCreatedSnap
  snapIndx : sc.d.snapIndx = d.snapIndx

theorem Scan.SameChain.sector {d : DiffDisk} {sc : Scan} (h : sc.SameChain d) (punch seen : Bool) :
    (sc.sector punch seen).SameChain d := by
  obtain ⟨h1, h2, h3, h4⟩ := h
  unfold Scan.sector Scan.emit Scan.flush
  cases seen
  · exact ⟨h1, h2, h3, h4⟩
  · simp only
    split_ifs <;> exact ⟨h1, h2, h3, h4⟩

theorem Scan.all_sameChain (punch : Bool) (obs : ℕ → ℕ → Bool) (d : DiffDisk) :
    (Scan.all punch obs d).SameChain d := by
  refine Scan.all_ind (A := fun _ sc => sc.SameChain d) (B := fun _ _ sc => sc.SameChain d)
    punch obs d ⟨rfl, rfl, rfl, rfl⟩ (fun i sc _ h => ⟨h.locationLen, h.1, h.2, h.3, h.4⟩)
    (fun i s sc _ _ _ h => h.sector punch _) fun i sc _ _ h => ?_
  exact ⟨h.1, h.2, h.3, h.4⟩

/-- The scan enters files of the chain into the table. -/
theorem Scan.all_location_le (punch : Bool) (obs : ℕ → ℕ → Bool) {d : DiffDisk}
    (h : ∀ s, d.location s ≤ d.target) (s : ℕ) :
    (Scan.all punch obs d).d.location s ≤ d.target := by
  have hinv : (Scan.all punch obs d).SameChain d ∧ ∀ s,
      (Scan.all punch obs d).d.location s ≤ d.target := by
    refine Scan.all_ind (A := fun _ sc => sc.SameChain d ∧ ∀ s, sc.d.location s ≤ d.target)
      (B := fun i _ sc => sc.i = i ∧ sc.SameChain d ∧ ∀ s, sc.d.location s ≤ d.target)
      punch obs d ⟨⟨rfl, rfl, rfl, rfl⟩, h⟩
      (fun i sc _ hA => ⟨hA.1.locationLen, rfl, ⟨hA.1.1, hA.1.2, hA.1.3, hA.1.4⟩, hA.2⟩)
      (fun i s sc _ hi _ hB => ?_) fun i sc _ _ hB => ⟨⟨hB.2.1.1, hB.2.1.2, hB.2.1.3, hB.2.1.4⟩,
        hB.2.2⟩
    obtain ⟨hsi, hsame, hle⟩ := hB
    cases hseen : obs i s with
    | false => exact ⟨hsi, hsame.sector punch false, hle⟩
    | true =>
      have hentry : ∀ t, (sc.sector punch true).d.location t =
          update sc.d.location sc.s (u16 sc.i) t := by
        intro t
        unfold Scan.sector Scan.emit Scan.flush
        simp only [if_true]
        split_ifs <;> rfl
      have hsi' : (sc.sector punch true).i = sc.i := by
        unfold Scan.sector Scan.emit Scan.flush
        simp only [if_true]
        split_ifs <;> rfl
      refine ⟨hsi'.trans hsi, hsame.sector punch true, fun t => ?_⟩
      rw [hentry]
      rcases eq_or_ne t sc.s with rfl | hne
      · rw [update_self, hsi]
        exact (Nat.mod_le _ _).trans hi
      · rw [update_of_ne hne]
        exact hle t
  exact hinv.2 s

theorem Scan.sector_location (sc : Scan) (punch seen : Bool) (t : ℕ) :
    (sc.sector punch seen).d.location t =
      if t = sc.s ∧ seen = true then u16 sc.i else sc.d.location t := by
  have hup : update sc.d.location sc.s (u16 sc.i) t =
      if t = sc.s then u16 sc.i else sc.d.location t :=
    update_apply _ _ _ _
  unfold Scan.sector Scan.emit Scan.flush
  cases seen
  · simp
  · simp only [and_true]
    split_ifs at hup ⊢ <;> exact hup

theorem Scan.sector_i (sc : Scan) (punch seen : Bool) : (sc.sector punch seen).i = sc.i := by
  unfold Scan.sector Scan.emit Scan.flush
  cases seen
  · rfl
  · simp only
    split_ifs <;> rfl

theorem Scan.sector_table (sc : Scan) (punch : Bool) :
    (sc.sector punch true).d.location = update sc.d.location sc.s (u16 sc.i) := by
  unfold Scan.sector Scan.emit Scan.flush
  simp only [if_true]
  split_ifs <;> rfl

theorem Scan.sector_used (sc : Scan) (punch seen : Bool) :
    (sc.sector punch seen).d.usedLogicalBlocks =
      sc.d.usedLogicalBlocks + if seen = true ∧ sc.d.location sc.s = 0 then 1 else 0 := by
  unfold Scan.sector Scan.emit Scan.flush
  cases seen
  · simp
  · simp only [if_true, true_and]
    split_ifs <;> simp_all

theorem Scan.sector_user (sc : Scan) (punch seen : Bool) :
    (sc.sector punch seen).userCreatedSnapIndx = sc.userCreatedSnapIndx := by
  unfold Scan.sector Scan.emit Scan.flush
  cases seen
  · rfl
  · simp only [if_true]
    split_ifs <;> rfl

/-- The scan before sector `s` of file `i`. -/
structure Scan.Still (d : DiffDisk) (obs : ℕ → ℕ → Bool) (i s : ℕ) (sc : Scan) : Prop where
  same : sc.SameChain d
  at_i : sc.i = i
  at_s : sc.s = s
  table : ∀ t, t < d.locationLen →
    sc.d.location t = if t < s then top obs i t else top obs (i - 1) t
  outside : ∀ t, d.locationLen ≤ t → sc.d.location t = d.location t
  user : ∀ x, x ≤ i → d.flagged x = true → x ≤ sc.userCreatedSnapIndx
  run : sc.run.file ≠ 0 → 0 < sc.run.fileIndx ∧ sc.run.fileIndx < i ∧
    sc.run.file = d.file sc.run.fileIndx ∧ sc.run.lOffset + sc.run.length ≤ d.locationLen ∧
    ∀ t, sc.run.lOffset ≤ t → t < sc.run.lOffset + sc.run.length → obs i t = true
  sent : ∀ h ∈ sc.sent, d.CoveredHole obs h
  used : sc.d.usedLogicalBlocks = d.usedLogicalBlocks + known d.locationLen sc.d.location

namespace Scan.Still

variable {d : DiffDisk} {obs : ℕ → ℕ → Bool} {i s : ℕ} {sc : Scan}

section

variable (h : Still d obs i s sc)
include h

/-- The pending run makes a covered hole. -/
theorem holes (hi : i ≤ d.target) {hole : Hole} {punch : Bool}
    (hh : hole ∈ sc.run.holes sc.userCreatedSnapIndx punch) : d.CoveredHole obs hole := by
  unfold HoleRun.holes at hh
  split_ifs at hh with hs
  · obtain ⟨h0, huser, -⟩ := hs
    obtain ⟨hpos, hlt, hfile, hin, hrun⟩ := h.run h0
    rw [List.mem_singleton.1 hh, hfile]
    refine ⟨_, _, _, hpos, by omega, hin, rfl, fun t h1 h2 => ⟨i, hlt, hi, hrun t h1 h2,
      fun u hfu hui => ?_⟩⟩
    by_contra hflag
    have := h.user u hui (by simpa using hflag)
    omega
  · cases hh

theorem sent_flush (hi : i ≤ d.target) (punch : Bool) :
    ∀ hole ∈ (sc.flush punch).sent, d.CoveredHole obs hole := by
  intro hole hh
  rcases List.mem_append.1 hh with hh | hh
  · exact h.sent hole hh
  · exact h.holes hi hh

/-- The logical blocks count the known sectors. -/
theorem used_sector (hu16 : u16 i ≠ 0) (hs : s < d.locationLen)
    (punch seen : Bool) : (sc.sector punch seen).d.usedLogicalBlocks =
      d.usedLogicalBlocks + known d.locationLen (sc.sector punch seen).d.location := by
  obtain rfl := h.at_i
  obtain rfl := h.at_s
  rw [sector_used]
  cases seen with
  | false => exact (Int.add_zero _).trans h.used
  | true =>
    rw [sector_table, h.used]
    by_cases h0 : sc.d.location sc.s = 0
    · rw [if_pos ⟨rfl, h0⟩, known_update_unknown hs h0 hu16]
      push_cast
      omega
    · rw [if_neg fun hc => h0 hc.2, known_update_known h0 hu16, Int.add_zero]

theorem sent_sector (hi : i ≤ d.target) (punch seen : Bool) :
    ∀ hole ∈ (sc.sector punch seen).sent, d.CoveredHole obs hole := by
  have hflush := h.sent_flush hi punch
  cases seen with
  | false => exact h.sent
  | true =>
    unfold Scan.sector Scan.emit
    simp only [if_true]
    split_ifs
    · exact hflush
    · exact h.sent
    · exact h.sent

/-- The pending run after a sector. -/
theorem run_sector (hs : s < d.locationLen) (hlt : sc.d.location s < i)
    (punch : Bool) :
    (sc.sector punch (obs i s)).run.file ≠ 0 →
      0 < (sc.sector punch (obs i s)).run.fileIndx ∧ (sc.sector punch (obs i s)).run.fileIndx < i ∧
      (sc.sector punch (obs i s)).run.file = d.file (sc.sector punch (obs i s)).run.fileIndx ∧
      (sc.sector punch (obs i s)).run.lOffset + (sc.sector punch (obs i s)).run.length ≤
        d.locationLen ∧
      ∀ t, (sc.sector punch (obs i s)).run.lOffset ≤ t →
        t < (sc.sector punch (obs i s)).run.lOffset + (sc.sector punch (obs i s)).run.length →
        obs i t = true := by
  obtain rfl := h.at_s
  cases hseen : obs i sc.s with
  | false => exact h.run
  | true =>
    unfold Scan.sector Scan.emit
    simp only [if_true]
    split_ifs with h0 hnew
    · -- a new run, of this sector only
      intro _
      refine ⟨Nat.pos_of_ne_zero h0, hlt, ?_, hs, fun t h1 h2 => ?_⟩
      · show sc.d.file _ = d.file _
        unfold DiffDisk.file
        rw [h.same.files]
      · obtain rfl : t = sc.s := by
          simp only at h1 h2
          omega
        exact hseen
    · -- the run goes on
      intro hf
      obtain ⟨hpos, hidx, hfile, -, hrun⟩ := h.run hf
      obtain ⟨-, hend⟩ := not_or.1 hnew
      rw [not_not] at hend
      refine ⟨hpos, hidx, hfile, by simp only; omega, fun t h1 h2 => ?_⟩
      simp only at h1 h2
      rcases Nat.lt_or_ge t (sc.run.lOffset + sc.run.length) with hold | hnew'
      · exact hrun t h1 hold
      · obtain rfl : t = sc.s := by omega
        exact hseen
    · exact h.run

theorem sector (hd : d.files.length ≤ 65536) (hi0 : 0 < i) (hit : i ≤ d.target)
    (hs : s < d.locationLen) (punch : Bool) :
    Still d obs i (s + 1) (sc.sector punch (obs i s)) := by
  have hlen : d.target < d.files.length := by
    unfold DiffDisk.target at *
    omega
  have hu16 : u16 i = i := u16_of_lt (by omega)
  have hused := h.used_sector (by omega) hs punch (obs i s)
  have hloc : sc.d.location s = top obs (i - 1) s := by
    have := h.table s hs
    rwa [if_neg (lt_irrefl s)] at this
  have hlt : sc.d.location s < i := by
    have := top_le obs (i - 1) s
    omega
  refine ⟨h.same.sector _ _, (sc.sector_i _ _).trans h.at_i, congrArg (· + 1) h.at_s,
    fun t ht => ?_, fun t ht => ?_, ?_, ?_, ?_, hused⟩
  · have htab := h.table t ht
    have hstep : top obs i t = if obs i t then i else top obs (i - 1) t := by
      obtain ⟨k, rfl⟩ : ∃ k, i = k + 1 := ⟨i - 1, by omega⟩
      rfl
    rw [Scan.sector_location, h.at_i, h.at_s, hu16]
    rcases eq_or_ne t s with rfl | hne
    · rw [if_neg (lt_irrefl _)] at htab
      rw [htab, if_pos (Nat.lt_succ_self _), hstep]
      exact if_congr (by simp) rfl rfl
    · rw [if_neg fun h => hne h.1, htab]
      exact if_congr (by omega) rfl rfl
  · rw [Scan.sector_location, h.at_s, if_neg (by omega)]
    exact h.outside t ht
  · rw [Scan.sector_user]
    exact h.user
  · exact h.run_sector hs hlt punch
  · exact h.sent_sector hit punch _

end

theorem endFile (h : Still d obs i d.locationLen sc) (hit : i ≤ d.target) (punch : Bool) :
    Still d obs i d.locationLen (sc.endFile punch) where
  same := ⟨h.same.1, h.same.2, h.same.3, h.same.4⟩
  at_i := h.at_i
  at_s := h.at_s
  table := h.table
  outside := h.outside
  user := h.user
  run hf := absurd rfl hf
  sent := h.sent_flush hit punch
  used := h.used

theorem beginFile (h : Still d obs i d.locationLen sc) (hrun : sc.run.file = 0)
    (hi : i + 1 < 65536) : Still d obs (i + 1) 0 (sc.beginFile (i + 1)) where
  same := ⟨h.same.1, h.same.2, h.same.3, h.same.4⟩
  at_i := rfl
  at_s := rfl
  table t ht := by
    rw [if_neg (Nat.not_lt_zero t)]
    exact (h.table t ht).trans (if_pos ht)
  outside := h.outside
  user x hx hflag := by
    have huser := h.user
    simp only [Scan.beginFile]
    rw [h.same.userCreatedSnap, u16_of_lt hi]
    split_ifs with hf
    · exact hx
    · refine huser x (Nat.le_of_lt_succ (lt_of_le_of_ne hx fun heq => hf ?_)) hflag
      rw [heq] at hflag
      exact hflag
  run hf := absurd hrun hf
  sent := h.sent
  used := h.used

/-- Before the first file. -/
theorem start (obs : ℕ → ℕ → Bool) (h0 : ∀ s, d.location s = 0) :
    Still d obs 0 d.locationLen { Scan.start d with s := d.locationLen } := by
  refine ⟨⟨rfl, rfl, rfl, rfl⟩, rfl, rfl, fun t ht => (h0 t).trans (if_pos ht).symm,
    fun _ _ => rfl, fun x hx _ => hx, fun hf => absurd rfl hf, nofun, ?_⟩
  have hknown : known d.locationLen d.location = 0 := by
    unfold known
    rw [Finset.card_eq_zero, Finset.filter_eq_empty_iff]
    exact fun s _ => not_not.2 (h0 s)
  simp [Scan.start, hknown]

/-- The answers for sectors that are still to come do not matter. -/
theorem mono {obs' : ℕ → ℕ → Bool} (h : Still d obs i s sc) (hi : 0 < i)
    (hle : ∀ j t, obs j t = true → obs' j t = true)
    (heq : ∀ j t, j < i ∨ j = i ∧ t < s → obs' j t = obs j t) : Still d obs' i s sc where
  same := h.same
  at_i := h.at_i
  at_s := h.at_s
  table t ht := by
    rw [h.table t ht]
    split_ifs with hts
    · refine (top_congr fun j _ hj => heq j t ?_).symm
      omega
    · refine (top_congr fun j _ hj => heq j t ?_).symm
      omega
  outside := h.outside
  user := h.user
  run hf := by
    obtain ⟨h1, h2, h3, h4, h5⟩ := h.run hf
    exact ⟨h1, h2, h3, h4, fun t ht hlt => hle i t (h5 t ht hlt)⟩
  sent hole hh := by
    obtain ⟨f, lo, len, hpos, hf, hlen, heq, hall⟩ := h.sent hole hh
    refine ⟨f, lo, len, hpos, hf, hlen, heq, fun t h1 h2 => ?_⟩
    obtain ⟨j, hfj, hjt, hj, hflag⟩ := hall t h1 h2
    exact ⟨j, hfj, hjt, hle j t hj, hflag⟩
  used := h.used

end Scan.Still

/-- The scan of all files : the table names the highest file with an extent, the logical blocks have
grown by the number of sectors that have one, and every hole that was sent is covered. -/
theorem Scan.all_spec {d : DiffDisk} (hd : d.files.length ≤ 65536) (h0 : ∀ s, d.location s = 0)
    (punch : Bool) (obs : ℕ → ℕ → Bool) :
    (Scan.all punch obs d).SameChain d ∧
    (∀ s, s < d.locationLen → (Scan.all punch obs d).d.location s = top obs d.target s) ∧
    (∀ s, d.locationLen ≤ s → (Scan.all punch obs d).d.location s = 0) ∧
    (Scan.all punch obs d).d.usedLogicalBlocks =
      d.usedLogicalBlocks + known d.locationLen (top obs d.target) ∧
    ∀ h ∈ (Scan.all punch obs d).sent, d.CoveredHole obs h := by
  have hmain := Scan.all_ind punch obs d
    (A := fun i sc => sc.run.file = 0 ∧ Still d obs i d.locationLen { sc with s := d.locationLen })
    (B := fun i s sc => Still d obs i s sc) ?_ ?_ ?_ ?_
  · obtain ⟨-, h⟩ := hmain
    have htable : ∀ s, s < d.locationLen →
        (Scan.all punch obs d).d.location s = top obs d.target s :=
      fun s hs => (h.table s hs).trans (if_pos hs)
    exact ⟨⟨h.same.1, h.same.2, h.same.3, h.same.4⟩, htable,
      fun s hs => (h.outside s hs).trans (h0 s), known_congr htable ▸ h.used, h.sent⟩
  · exact ⟨rfl, Still.start obs h0⟩
  · rintro i sc hi ⟨hrun, h⟩
    exact ⟨h.same.locationLen, h.beginFile hrun (by unfold DiffDisk.target at hi; omega)⟩
  · intro i s sc hi0 hit hs hB
    exact hB.sector hd hi0 hit hs punch
  · intro i sc hi0 hit hB
    have hend := hB.endFile hit punch
    exact ⟨rfl, hend.at_s ▸ hend⟩

end Jiva
