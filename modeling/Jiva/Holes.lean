import Jiva.Effects

/-!
# Holes that nobody sees

A volume is looked at through the files up to certain indices : the active layer, and the
snapshots that must not change. `Viewers` is the set of these indices. A hole at a sector
of a file is safe (`HoleOk`) if every viewer at or above the file sees another file there,
or the file has nothing there to lose.

A safe hole can be punched at any later time : filling in the table, writes, snapshots and
other safe holes leave it safe, and punching it changes the image of no viewer
(`imageAt_punch`).
-/

namespace Jiva

open Layered

/-- The indices through which a volume is looked at. -/
abbrev Viewers := ℕ → Prop

namespace Volume

/-- A hole at sector `s` of the file at index `f` changes no viewer's image. -/
structure HoleOk (v : Volume) (V : Viewers) (f s : ℕ) : Prop where
  pos : 0 < f
  lt : f < v.target
  hidden : v.hasExtent f s = true → ∀ u, V u → f ≤ u → u ≤ v.target →
    ∃ j, f < j ∧ j ≤ u ∧ v.hasExtent j s = true

/-- A hole of whole sectors of one file of the chain, all of them safe. -/
def SafeHole (v : Volume) (V : Viewers) (h : Hole) : Prop :=
  ∃ f lo len, h = ⟨v.file f, lo * defaultSectorSize, len * defaultSectorSize⟩ ∧
    f < v.files.length ∧ ∀ s, lo ≤ s → s < lo + len → v.HoleOk V f s

/-- Every waiting hole is safe. -/
def QueueOk (v : Volume) (V : Viewers) : Prop :=
  ∀ h ∈ v.holeCreatorChan, v.SafeHole V h

section Stable

variable {v v' : Volume} {V V' : Viewers}

theorem SafeHole.mono {h : Hole} (hs : v.SafeHole V h)
    (hok : ∀ f s, v.HoleOk V f s → v'.HoleOk V' f s)
    (hfile : ∀ i, i < v.files.length → v'.file i = v.file i)
    (hlen : v.files.length ≤ v'.files.length) : v'.SafeHole V' h := by
  obtain ⟨f, lo, len, rfl, hf, hall⟩ := hs
  exact ⟨f, lo, len, by rw [hfile f hf], by omega, fun s hlo hhi => hok f s (hall s hlo hhi)⟩

theorem HoleOk.fills {f s : ℕ} (h : v.HoleOk V f s) (hf : v.Fills v') : v'.HoleOk V f s := by
  obtain ⟨l, rfl, -⟩ := hf
  exact ⟨h.pos, h.lt, h.hidden⟩

theorem SafeHole.fills {h : Hole} (hs : v.SafeHole V h) (hf : v.Fills v') : v'.SafeHole V h :=
  hs.mono (fun _ _ hok => hok.fills hf) (fun i _ => hf.sameChain.file i)
    (by rw [hf.sameChain.files])

theorem QueueOk.fills (h : v.QueueOk V) (hf : v.Fills v') : v'.QueueOk V := by
  intro hole hh
  rw [hf.chan] at hh
  exact (h hole hh).fills hf

/-- A write only adds extents, and only to the active layer. -/
theorem HoleOk.write {f s k n : ℕ} (h : v.HoleOk V f s) (he : FullEffect v v' k n) :
    v'.HoleOk V f s := by
  have hlt := h.lt
  refine ⟨h.pos, by rwa [he.same.target], fun hext u hu hfu hut => ?_⟩
  rw [he.same.target] at hut
  rw [he.hasExtent f s hlt.le, decide_eq_false (by omega), Bool.or_false] at hext
  obtain ⟨j, hfj, hju, hj⟩ := h.hidden hext u hu hfu hut
  exact ⟨j, hfj, hju, by rw [he.hasExtent j s (by omega), hj, Bool.true_or]⟩

theorem SafeHole.write {h : Hole} {k n : ℕ} (hs : v.SafeHole V h) (he : FullEffect v v' k n) :
    v'.SafeHole V h :=
  hs.mono (fun _ _ hok => hok.write he) (fun i _ => he.same.file i) (by rw [he.same.files])

/-- A snapshot adds an empty file. The image it freezes was looked at before. -/
theorem HoleOk.appendHead {f s g : ℕ} {userCreated : Bool} (h : v.HoleOk V f s)
    (hg : g ∉ v.files) (hpos : 0 < v.files.length) (hhead : V v.target)
    (hV : ∀ u, V' u → u ≤ v.target → V u) : (v.appendHead g userCreated).HoleOk V' f s := by
  have hlt := h.lt
  have htarget : v.target < v.files.length := by
    unfold DiffDisk.target
    omega
  rw [← Nat.add_one_le_iff] at hlt
  refine ⟨h.pos, by rw [appendHead_target _ _ _ hpos]; omega, fun hext u hu hfu hut => ?_⟩
  rw [appendHead_target _ _ _ hpos] at hut
  rw [appendHead_hasExtent_of_lt hg (by omega)] at hext
  -- the new active layer is looked at through the old one
  obtain ⟨j, hfj, hju, hj⟩ : ∃ j, f < j ∧ j ≤ min u v.target ∧ v.hasExtent j s = true := by
    rcases Nat.lt_or_ge v.target u with hlt' | hge
    · obtain ⟨j, h1, h2, h3⟩ := h.hidden hext v.target hhead (by omega) le_rfl
      exact ⟨j, h1, by omega, h3⟩
    · obtain ⟨j, h1, h2, h3⟩ := h.hidden hext u (hV u hu hge) hfu hge
      exact ⟨j, h1, by omega, h3⟩
  exact ⟨j, hfj, by omega, by rwa [appendHead_hasExtent_of_lt hg (by omega)]⟩

end Stable

section Punch

variable {v v' : Volume} {V : Viewers} {f lo len : ℕ}

theorem PunchEffect.hasExtent_hole
    (h : PunchEffect v v' (fun i => i = f) (lo * defaultSectorSize) (len * defaultSectorSize))
    {i : ℕ} (hi : i < v.files.length) (s : ℕ) :
    v'.hasExtent i s = (v.hasExtent i s && !decide (i = f ∧ lo ≤ s ∧ s < lo + len)) := by
  rw [h.hasExtent hi, SparseFile.inside_aligned]
  simp

/-- A safe hole that is punched leaves the other safe holes safe. -/
theorem HoleOk.punch {g t : ℕ} (htl : v.target < v.files.length) (hg : v.HoleOk V g t)
    (hall : ∀ s, lo ≤ s → s < lo + len → v.HoleOk V f s)
    (he : PunchEffect v v' (fun i => i = f) (lo * defaultSectorSize)
      (len * defaultSectorSize)) : v'.HoleOk V g t := by
  have hlt := hg.lt
  refine ⟨hg.pos, by rwa [he.same.target], fun hext u hu hgu hut => ?_⟩
  rw [he.same.target] at hut
  obtain ⟨j, hgj, hju, hj⟩ :=
    hg.hidden (he.hasExtent_le (by omega) hext) u hu hgu hut
  by_cases hpunched : j = f ∧ lo ≤ t ∧ t < lo + len
  · -- the file that hid the sector is the punched one, and something hides that one
    obtain ⟨rfl, h1, h2⟩ := hpunched
    obtain ⟨j', hjj', hju', hj'⟩ := (hall t h1 h2).hidden hj u hu hju hut
    refine ⟨j', by omega, hju', ?_⟩
    rw [he.hasExtent_hole (by omega), hj', decide_eq_false (by omega)]
    rfl
  · refine ⟨j, hgj, hju, ?_⟩
    rw [he.hasExtent_hole (by omega), hj, decide_eq_false hpunched]
    rfl

theorem topFile_punch (htl : v.target < v.files.length) {u : ℕ} (hu : V u) (hut : u ≤ v.target)
    (hall : ∀ s, lo ≤ s → s < lo + len → v.HoleOk V f s)
    (he : PunchEffect v v' (fun i => i = f) (lo * defaultSectorSize)
      (len * defaultSectorSize)) (s : ℕ) : v'.topFile u s = v.topFile u s := by
  refine top_punch (fun i _ hiu hi => he.hasExtent_le (by omega) hi) fun i _ hiu hi hi' => ?_
  rw [he.hasExtent_hole (by omega), hi] at hi'
  obtain ⟨rfl, h1, h2⟩ : i = f ∧ lo ≤ s ∧ s < lo + len := by simpa using hi'
  exact (hall s h1 h2).hidden hi u hu hiu hut

/-- Punching a safe hole changes no viewer's image. -/
theorem imageAt_punch (htl : v.target < v.files.length) {u : ℕ} (hu : V u) (hut : u ≤ v.target)
    (hall : ∀ s, lo ≤ s → s < lo + len → v.HoleOk V f s)
    (he : PunchEffect v v' (fun i => i = f) (lo * defaultSectorSize)
      (len * defaultSectorSize)) : v'.imageAt u = v.imageAt u := by
  funext b
  unfold imageAt
  rw [topFile_punch htl hu hut hall he, he.same.file]
  split_ifs with h0
  · rfl
  · have hle := v.topFile_le u (b / defaultSectorSize)
    rw [he.data (by omega), if_neg]
    rintro ⟨hf, hb1, hb2⟩
    -- the punched file is not the one that is seen
    have hs : lo ≤ b / defaultSectorSize ∧ b / defaultSectorSize < lo + len := by
      rw [defaultSectorSize_eq] at *
      omega
    have hext := holds_top v.hasExtent u (b / defaultSectorSize) h0
    rw [show top v.hasExtent u (b / defaultSectorSize) = f from hf] at hext
    obtain ⟨j, hfj, hju, hj⟩ := (hall _ hs.1 hs.2).hidden hext u hu (hf ▸ hle) hut
    have := le_top v.hasExtent hju hj (by omega)
    unfold topFile at hf
    omega

end Punch

/-- What the worker does to a volume whose waiting holes are safe. -/
structure HoleStep (v v' : Volume) (V : Viewers) : Prop where
  same : v.SameChain v'
  location : v'.location = v.location
  chainOk : v'.ChainOk
  queueOk : v'.QueueOk V
  imageAt : ∀ u, V u → u ≤ v.target → v'.imageAt u = v.imageAt u
  topFile : ∀ u s, V u → u ≤ v.target → v'.topFile u s = v.topFile u s
  hasExtent_le : ∀ i s, i < v.files.length → v'.hasExtent i s = true → v.hasExtent i s = true
  holeOk : ∀ g t, v.HoleOk V g t → v'.HoleOk V g t
  lost : ∀ i s, i < v.files.length → v.hasExtent i s = true → v'.hasExtent i s = false →
    v.HoleOk V i s

/-- The worker takes a safe hole : the other ones stay safe and no viewer's image changes. -/
theorem QueueOk.createHole {v v' : Volume} {V : Viewers} {k : ℕ} (hc : v.ChainOk)
    (hq : v.QueueOk V) (h : v.createHole k = some v') : HoleStep v v' V := by
  obtain ⟨hole, hmem, hchan, heff⟩ := createHole_effect hc.nodup h
  obtain ⟨f, lo, len, rfl, hf, hall⟩ := hq hole hmem
  have he := heff f hf rfl
  have hok : ∀ g t, v.HoleOk V g t → v'.HoleOk V g t := fun g t hg => hg.punch hc.target_lt hall he
  refine ⟨he.same, he.location, he.chainOk hc, fun h hh => ?_,
    fun u hu hut => imageAt_punch hc.target_lt hu hut hall he,
    fun u s hu hut => topFile_punch hc.target_lt hu hut hall he s,
    fun i s hi hext => he.hasExtent_le hi hext, hok, fun i s hi hext hext' => ?_⟩
  · rw [hchan] at hh
    exact (hq h (List.mem_of_mem_eraseIdx hh)).mono hok (fun i _ => he.same.file i)
      (by rw [he.same.files])
  · rw [he.hasExtent_hole hi, hext] at hext'
    obtain ⟨rfl, h1, h2⟩ : i = f ∧ lo ≤ s ∧ s < lo + len := by simpa using hext'
    exact hall s h1 h2

/-- A write sends off safe holes, if every viewer below the active layer is at or below the
latest user-created snapshot and the write has no `CrossFlush`, or if the active layer is the
only viewer. -/
theorem QueueOk.write {v v' : Volume} {V : Viewers} {k n : ℕ} (hc : v.ChainOk)
    (hl : v.LocationLe) (hin : k + n ≤ v.locationLen) (hq : v.QueueOk V)
    (hV : ∀ u, V u → u < v.target → u ≤ v.snapIndx ∧ ¬v.CrossFlush k n)
    (he : FullEffect v v' k n) : v'.QueueOk V := by
  intro h hh
  obtain ⟨hs, heq, hall⟩ := he.holes
  rw [heq] at hh
  rcases List.mem_append.1 hh with hh | hh
  · exact (hq h hh).write he
  · obtain ⟨i, lo, len, hw⟩ := hall h hh
    obtain ⟨hi0, hit⟩ := writeHole_index_lt hc hl hin hw
    have htl := hc.target_lt
    refine ⟨i, lo, len, by rw [hw.eq, he.same.file], by rw [he.same.files]; omega,
      fun s hlo hhi => ⟨hi0, by rwa [he.same.target], fun _ u hu hiu hut => ?_⟩⟩
    rw [he.same.target] at hut
    have h1 := hw.start_le
    have h2 := hw.le_end
    rcases hut.lt_or_eq with hlt | rfl
    · obtain ⟨hus, hx⟩ := hV u hu hlt
      have := hw.above hx
      omega
    · refine ⟨v.target, hit, le_rfl, ?_⟩
      rw [he.hasExtent _ _ le_rfl, decide_eq_true (by omega), Bool.or_true]

end Volume

end Jiva
