import Jiva.ExtentScan
import Jiva.Holes

/-!
# The extent scan sends off safe holes and finds the highest files

`ScanOk` is what holds of a scan at every point, while the volume beside it goes on
changing : its chain is the lower part of the volume's, it has met every user-created flag
up to the file it is at, and its pending run and the holes it has sent are safe. A step of
the scan keeps it (`ScanOk.sector`, `ScanOk.endFile`), and so does everything the volume
does that keeps safe holes safe (`ScanOk.mono`).

For a scan of a volume that stands still, the table ends up naming the highest file with
an extent, and a covered hole is a safe one (`scanAll_spec`).
-/

namespace Jiva

open Layered

variable {v : Volume} {V : Viewers}

/-- The scan `sc` beside the volume `v`. A viewer below the top of the scanned chain has its
flag at its own index or at the next one, as `createDisk` leaves it. -/
structure ScanOk (v : Volume) (V : Viewers) (sc : Scan) : Prop where
  files_le : sc.d.files.length ≤ v.files.length
  file : ∀ i, i < sc.d.files.length → sc.d.file i = v.file i
  flags : ∀ u, V u → u < sc.d.target → sc.d.flagged u = true ∨ sc.d.flagged (u + 1) = true
  user : ∀ x, x ≤ sc.i → sc.d.flagged x = true → x ≤ sc.userCreatedSnapIndx
  upto : ∀ s, sc.d.location s ≤ sc.i
  below : ∀ s, 0 < sc.i → sc.s ≤ s → sc.d.location s < sc.i
  runFile : sc.run.file ≠ 0 →
    sc.run.fileIndx < sc.d.files.length ∧ sc.run.file = sc.d.file sc.run.fileIndx
  runOk : sc.run.file ≠ 0 → sc.userCreatedSnapIndx < sc.run.fileIndx →
    ∀ s, sc.run.lOffset ≤ s → s < sc.run.lOffset + sc.run.length →
      v.HoleOk V sc.run.fileIndx s
  sent : ∀ h ∈ sc.sent, v.SafeHole V h

namespace ScanOk

variable {v v' : Volume} {V V' : Viewers} {sc : Scan}

section

variable (h : ScanOk v V sc)
include h

/-- What the volume does beside the scan, as long as safe holes stay safe. -/
theorem mono (hfile : ∀ i, i < v.files.length → v'.file i = v.file i)
    (hlen : v.files.length ≤ v'.files.length) (hV : ∀ u, V' u → u < sc.d.target → V u)
    (hok : ∀ f s, v.HoleOk V f s → v'.HoleOk V' f s) : ScanOk v' V' sc where
  files_le := h.files_le.trans hlen
  file i hi := by rw [h.file i hi, hfile i (hi.trans_le h.files_le)]
  flags u hu hut := h.flags u (hV u hu hut) hut
  user := h.user
  upto := h.upto
  below := h.below
  runFile := h.runFile
  runOk h0 hi s h1 h2 := hok _ _ (h.runOk h0 hi s h1 h2)
  sent h' hh := (h.sent h' hh).mono hok hfile hlen

theorem safeHole_run {hole : Hole} {punch : Bool}
    (hh : hole ∈ sc.run.holes sc.userCreatedSnapIndx punch) : v.SafeHole V hole := by
  unfold HoleRun.holes at hh
  split_ifs at hh with hs
  · obtain ⟨h0, hi, -⟩ := hs
    obtain ⟨hlt, hf⟩ := h.runFile h0
    rw [List.mem_singleton.1 hh]
    exact ⟨_, _, _, by rw [hf, h.file _ hlt], hlt.trans_le h.files_le, h.runOk h0 hi⟩
  · simp at hh

theorem flush (punch : Bool) : ScanOk v V (sc.flush punch) where
  files_le := h.files_le
  file := h.file
  flags := h.flags
  user := h.user
  upto := h.upto
  below := h.below
  runFile := h.runFile
  runOk := h.runOk
  sent hole hh := by
    rcases List.mem_append.1 hh with hh | hh
    · exact h.sent hole hh
    · exact h.safeHole_run hh

/-- A sector found in the file at hand, and before that in the file at `f` : if no flag stands
between them, every viewer that sees `f` sees the file at hand. -/
theorem holeOk (hi : sc.i < sc.d.files.length) {f : ℕ} (hf0 : 0 < f) (hfi : f < sc.i)
    (hu : sc.userCreatedSnapIndx < f) {s : ℕ} (hext : v.hasExtent sc.i s = true) :
    v.HoleOk V f s := by
  have hle := h.files_le
  have hsv : sc.d.target = sc.d.files.length - 1 := rfl
  have htv : v.target = v.files.length - 1 := rfl
  refine ⟨hf0, by omega, fun _ u hVu hfu hut => ⟨sc.i, hfi, ?_, hext⟩⟩
  by_contra hlt
  rcases h.flags u hVu (by omega) with hx | hx
  · have := h.user u (by omega) hx
    omega
  · have := h.user (u + 1) (by omega) hx
    omega

theorem emit (hc : v.ChainOk) (hpos : 0 < sc.i) (hi : sc.i < sc.d.files.length)
    (hext : v.hasExtent sc.i sc.s = true) (punch : Bool) :
    ScanOk v V { sc.emit punch with s := sc.s + 1 } := by
  have hlt := h.below sc.s hpos le_rfl
  have hle := h.files_le
  have hu16 : u16 sc.i = sc.i := u16_of_lt (by have := hc.le_u16; omega)
  have hloc : ∀ {l : ℕ → ℕ}, l = sc.d.location → (∀ s, Function.update l sc.s (u16 sc.i) s ≤ sc.i) ∧
      (∀ s, 0 < sc.i → sc.s + 1 ≤ s → Function.update l sc.s (u16 sc.i) s < sc.i) := by
    rintro l rfl
    refine ⟨fun s => ?_, fun s _ hs => ?_⟩
    · rcases eq_or_ne s sc.s with rfl | hne
      · rw [Function.update_self, hu16]
      · rw [Function.update_of_ne hne]
        exact h.upto s
    · rw [Function.update_of_ne (by omega)]
      exact h.below s hpos (by omega)
  unfold Scan.emit
  simp only
  split_ifs with h0 hnew
  · -- a new run
    refine ⟨h.files_le, h.file, h.flags, h.user, (hloc rfl).1, (hloc rfl).2, fun _ => ?_,
      fun _ hus s h1 h2 => ?_, (h.flush punch).sent⟩
    · exact ⟨hlt.trans hi, rfl⟩
    · obtain rfl : s = sc.s := by
        simp only at h1 h2
        omega
      exact h.holeOk hi (Nat.pos_of_ne_zero h0) hlt hus hext
  · -- the run goes on
    obtain ⟨hfile, hend⟩ := not_or.1 hnew
    rw [not_not] at hfile hend
    refine ⟨h.files_le, h.file, h.flags, h.user, (hloc rfl).1, (hloc rfl).2, h.runFile,
      fun hf hus s h1 h2 => ?_, h.sent⟩
    simp only at h1 h2 hf hus ⊢
    rcases Nat.lt_or_ge s (sc.run.lOffset + sc.run.length) with hold | hnew'
    · exact h.runOk hf hus s h1 hold
    · obtain rfl : s = sc.s := by omega
      obtain ⟨hfl, hff⟩ := h.runFile hf
      have hidx : sc.run.fileIndx = sc.d.location sc.s := by
        refine hc.file_inj (by omega) (by omega) ?_
        rw [← h.file _ hfl, ← h.file _ (by omega), ← hff, hfile]
      rw [hidx] at hus ⊢
      exact h.holeOk hi (Nat.pos_of_ne_zero h0) hlt hus hext
  · -- a sector that is new
    exact ⟨h.files_le, h.file, h.flags, h.user, (hloc rfl).1, (hloc rfl).2, h.runFile,
      h.runOk, h.sent⟩

/-- One sector of the scan. What was seen is still there when the sector is noted. -/
theorem sector (hc : v.ChainOk) (hpos : 0 < sc.i)
    (hi : sc.i < sc.d.files.length) {seen : Bool}
    (hseen : seen = true → v.hasExtent sc.i sc.s = true) (punch : Bool) :
    ScanOk v V (sc.sector punch seen) := by
  unfold Scan.sector
  cases seen with
  | true => exact h.emit hc hpos hi (hseen rfl) punch
  | false =>
    exact ⟨h.files_le, h.file, h.flags, h.user, h.upto,
      fun s h0 hs => h.below s h0 (Nat.le_of_succ_le hs), h.runFile, h.runOk, h.sent⟩

theorem endFile (punch : Bool) : ScanOk v V (sc.endFile punch) :=
  ⟨h.files_le, h.file, h.flags, h.user, h.upto, h.below, fun h0 => absurd rfl h0,
    fun h0 => absurd rfl h0, (h.flush punch).sent⟩

theorem beginFile (hrun : sc.run.file = 0)
    (hi : sc.d.flagged (sc.i + 1) = true → sc.i + 1 < 65536) :
    ScanOk v V (sc.beginFile (sc.i + 1)) := by
  refine ⟨h.files_le, h.file, h.flags, fun x hx hfx => ?_, fun s => ?_, fun s _ _ => ?_,
    fun h0 => absurd hrun h0, fun h0 => absurd hrun h0, h.sent⟩
  · simp only [Scan.beginFile] at hx ⊢
    rcases Nat.lt_or_ge sc.i x with hlt | hge
    · obtain rfl : x = sc.i + 1 := by omega
      rw [if_pos (show sc.d.userCreatedSnap.getD (sc.i + 1) false = true from hfx),
        u16_of_lt (hi hfx)]
    · have := h.user x hge hfx
      split_ifs with hf
      · rw [u16_of_lt (hi hf)]
        omega
      · exact this
  · exact (h.upto s).trans (Nat.le_succ _)
  · exact Nat.lt_succ_of_le (h.upto s)

end

end ScanOk

/-! ## Whole scans -/

/-- A covered hole is safe for viewers that have a flag. -/
theorem DiffDisk.CoveredHole.safeHole {obs : ℕ → ℕ → Bool} {hole : Hole}
    (hobs : ∀ i s, obs i s = true → v.hasExtent i s = true)
    (hflags : ∀ u, V u → u < v.target → v.flagged u = true ∨ v.flagged (u + 1) = true)
    (h : v.CoveredHole obs hole) : v.SafeHole V hole := by
  obtain ⟨f, lo, len, hpos, hlt, -, rfl, hall⟩ := h
  have htl : v.target < v.files.length := by
    unfold DiffDisk.target at *
    omega
  refine ⟨f, lo, len, rfl, by omega, fun s h1 h2 => ⟨hpos, hlt, fun _ u hu hfu hut => ?_⟩⟩
  obtain ⟨j, hfj, hjt, hj, hnone⟩ := hall s h1 h2
  refine ⟨j, hfj, ?_, hobs j s hj⟩
  by_contra huj
  rcases hflags u hu (by omega) with hx | hx
  · rw [hnone u hfu (by omega)] at hx
    cases hx
  · rw [hnone (u + 1) (by omega) (by omega)] at hx
    cases hx

/-- `preload` of an empty table : the table names the highest file with an extent, and the
holes that were sent off are safe. -/
theorem scanAll_spec (hc : v.ChainOk) (h0 : ∀ s, v.location s = 0)
    (hflags : ∀ u, V u → u < v.target → v.flagged u = true ∨ v.flagged (u + 1) = true)
    (punch : Bool) : (Scan.all punch v.hasExtent v.toDiffDisk).SameChain v.toDiffDisk ∧
    (∀ s, s < v.locationLen →
      (Scan.all punch v.hasExtent v.toDiffDisk).d.location s = v.topFile v.target s) ∧
    ∀ h ∈ (Scan.all punch v.hasExtent v.toDiffDisk).sent, v.SafeHole V h := by
  obtain ⟨hsame, htable, -, -, hsent⟩ := Scan.all_spec hc.le_u16 h0 punch v.hasExtent
  exact ⟨hsame, htable, fun h hh => (hsent h hh).safeHole (fun _ _ => id) hflags⟩

namespace Volume

theorem HoleOk.congr {v' : Volume} (ht : v'.target = v.target)
    (hext : ∀ i s, v'.hasExtent i s = v.hasExtent i s) {f s : ℕ} (h : v.HoleOk V f s) :
    v'.HoleOk V f s := by
  refine ⟨h.pos, by rw [ht]; exact h.lt, fun he u hu hfu hut => ?_⟩
  rw [hext] at he
  rw [ht] at hut
  obtain ⟨j, hfj, hju, hj⟩ := h.hidden he u hu hfu hut
  exact ⟨j, hfj, hju, by rwa [hext]⟩

theorem safeHole_openLiveChain {flags : List Bool} {h : Hole}
    (hs : (v.openLiveChain flags).SafeHole V h) : v.SafeHole V h := by
  obtain ⟨f, lo, len, rfl, hf, hall⟩ := hs
  refine ⟨f, lo, len, rfl, hf, fun s h1 h2 => ?_⟩
  obtain ⟨hpos, hlt, hhidden⟩ := hall s h1 h2
  exact ⟨hpos, hlt, hhidden⟩

/-- Reopening a chain : the files and their extents are the same, the table names the highest
file with an extent, and the holes that were sent off are safe. -/
theorem preload_spec (hc : v.ChainOk) (flags : List Bool)
    (hflags : ∀ u, V u → u < v.target → flags.getD u false = true) :
    (v.openLiveChain flags).SameChain (v.openLiveChain flags).preload ∧
    (∀ s, s < v.locationLen → (v.openLiveChain flags).preload.location s = v.topFile v.target s) ∧
    ∃ hs, (v.openLiveChain flags).preload.holeCreatorChan = v.holeCreatorChan ++ hs ∧ ∀ h ∈ hs,
    v.SafeHole V h := by
  have hc' : (v.openLiveChain flags).ChainOk := hc.of_files rfl rfl fun _ _ _ => rfl
  obtain ⟨hsame, htable, hsent⟩ := scanAll_spec (v := v.openLiveChain flags) (V := V) hc'
    (fun _ => rfl) (fun u hu hut => .inl (hflags u hu hut)) v.shouldPunchHoles
  exact ⟨⟨hsame.files, hsame.locationLen, hsame.userCreatedSnap, hsame.snapIndx, rfl⟩, htable, _,
    rfl, fun h hh => safeHole_openLiveChain (hsent h hh)⟩

theorem SameChain.hasExtent {v' : Volume} (h : v.SameChain v') (hs : v'.store = v.store)
    (i s : ℕ) : v'.hasExtent i s = v.hasExtent i s := by
  unfold Volume.hasExtent
  rw [h.file, hs]

section Reopen

variable {v : Volume}

theorem openLiveChain_chainOk (hc : v.ChainOk) (flags : List Bool) :
    (v.openLiveChain flags).ChainOk :=
  hc.of_files rfl rfl fun _ _ _ => rfl

theorem preload_sameChain (hc : v.ChainOk) (flags : List Bool) :
    (v.openLiveChain flags).SameChain (v.openLiveChain flags).preload :=
  (preload_spec (V := fun _ => False) hc flags nofun).1

theorem preload_chainOk (hc : v.ChainOk) (flags : List Bool) :
    (v.openLiveChain flags).preload.ChainOk :=
  hc.of_files (preload_sameChain hc flags).files (preload_sameChain hc flags).locationLen
    fun _ _ _ => rfl

theorem preload_image (hc : v.ChainOk) (flags : List Bool) :
    (v.openLiveChain flags).preload.image = v.image := by
  have hsame := preload_sameChain hc flags
  have htarget : (v.openLiveChain flags).preload.target = v.target := hsame.target
  unfold image
  rw [htarget]
  exact imageAt_congr (fun i _ => hsame.file i) fun _ _ => rfl

/-- The table of a reopened chain is correct. -/
theorem preload_locationOk (hc : v.ChainOk) (flags : List Bool) :
    (v.openLiveChain flags).preload.LocationOk := by
  obtain ⟨hsame, htable, -⟩ := preload_spec (V := fun _ => False) hc flags nofun
  have htarget : (v.openLiveChain flags).preload.target = v.target := hsame.target
  have htop : ∀ s, (v.openLiveChain flags).preload.topFile v.target s = v.topFile v.target s :=
    fun s => top_congr fun i _ _ => hsame.hasExtent rfl i s
  intro s hs
  have hs : s < v.locationLen := hsame.locationLen ▸ hs
  unfold owner
  rw [htarget, htop, htable s hs]
  omega

end Reopen

end Volume

end Jiva
