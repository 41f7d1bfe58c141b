import Jiva.ScanInv

/-!
# What `preload` makes of a chain

A chain may have a backing file at index `1`, which is not a file of the replica. Its descriptor is
`0`, and `findExtents` reports nothing for it. So the table stays `0` where only the backing file
has data, and `lookup` finds the backing file there when it gets to index `1`.

`preload_invisible` is what a preloaded chain has : the table, the number of logical blocks, and
holes that cover nothing anybody sees, so that it does not matter which of them are punched, and
when.
-/

namespace Jiva

open Layered

namespace Volume

theorem hasExtent_of_findExtents {v : Volume} {backing : Bool} {i s : ℕ}
    (h : v.findExtents backing i s = true) : v.hasExtent i s = true :=
  (Bool.and_eq_true_iff.1 h).1

/-- Punch the holes one after the other. A call that fails changes nothing. -/
def punchAll (v : Volume) (hs : List Hole) : Volume :=
  hs.foldl (fun v h => (v.fallocatePunch h.f h.offset h.len).toOption.getD v) v

/-- `x` is `v` with some holes that no viewer sees : the holes `hs` are still safe, and the viewers
see what they saw. -/
structure Punched (v x : Volume) (V : Viewers) (hs : List Hole) : Prop where
  same : v.SameChain x
  safe : ∀ h ∈ hs, x.SafeHole V h
  imageAt : ∀ u, V u → u ≤ v.target → x.imageAt u = v.imageAt u

theorem Punched.punch {v x : Volume} {V : Viewers} {hs : List Hole} (hn : v.files.Nodup)
    (h : Punched v x V hs) {hole : Hole} (hh : hole ∈ hs) :
    Punched v ((x.fallocatePunch hole.f hole.offset hole.len).toOption.getD x) V hs := by
  obtain ⟨f, lo, len, rfl, hf, hall⟩ := h.safe hole hh
  unfold fallocatePunch
  split_ifs
  · exact h
  · have he := punchEffect_setInode (h.same.files ▸ hn) hf (lo * defaultSectorSize)
      (len * defaultSectorSize)
    have hxl : x.target < x.files.length := by
      unfold DiffDisk.target
      omega
    refine ⟨h.same.trans he.same, fun g hg => ?_, fun u hu hut => ?_⟩
    · exact (h.safe g hg).mono (fun _ _ hok => hok.punch hxl hall he) (fun i _ => he.same.file i)
        (he.same.files ▸ le_rfl)
    · rw [← h.imageAt u hu hut]
      exact imageAt_punch hxl hu (h.same.target ▸ hut) hall he

theorem Punched.punchAll {v x : Volume} {V : Viewers} {hs ps : List Hole} (hn : v.files.Nodup)
    (h : Punched v x V hs) (hps : ∀ h ∈ ps, h ∈ hs) : Punched v (x.punchAll ps) V hs := by
  induction ps generalizing x with
  | nil => exact h
  | cons p ps ih =>
    exact ih (h.punch hn (hps p List.mem_cons_self)) fun q hq => hps q (List.mem_cons_of_mem p hq)

/-- `preload` of an empty table, of a chain with any extents and any flags. The table names the
highest file with an extent. The number of logical blocks grows by the number of sectors that have
one. Each hole that was sent off is in a file below another one with an extent there, with no flag
from the lower to the higher one. Any of the holes can be punched : the live image and the images at
the flagged indices stay what they are. -/
theorem preload_invisible {v : Volume} (hu16 : v.files.length ≤ 65536) (hn : v.files.Nodup)
    (h0 : ∀ s, v.location s = 0) (backing : Bool) :
    (∀ s, s < v.locationLen →
      (v.preloadFiles backing).location s = top (v.findExtents backing) v.target s) ∧
    (v.preloadFiles backing).usedLogicalBlocks = v.usedLogicalBlocks +
      ((Finset.range v.locationLen).filter fun s =>
        ∃ i < v.files.length, 0 < i ∧ v.findExtents backing i s = true).card ∧
    ∃ hs, (v.preloadFiles backing).holeCreatorChan = v.holeCreatorChan ++ hs ∧
      (∀ h ∈ hs, ∃ f lo len, 0 < f ∧ h = ⟨v.file f, lo * defaultSectorSize,
        len * defaultSectorSize⟩ ∧ ∀ s, lo ≤ s → s < lo + len → ∃ j, f < j ∧ j ≤ v.target ∧
        v.findExtents backing j s = true ∧
          ∀ u, f ≤ u → u < j → v.flagged u = false) ∧
      ∀ ps, (∀ h ∈ ps, h ∈ hs) →
        ((v.preloadFiles backing).punchAll ps).image = v.image ∧
        ∀ u, u ≤ v.target → v.flagged u = true →
          ((v.preloadFiles backing).punchAll ps).imageAt u = v.imageAt u := by
  obtain ⟨hsame, htable, -, hused, hsent⟩ :=
    Scan.all_spec hu16 h0 v.shouldPunchHoles (v.findExtents backing)
  have hchain : v.SameChain (v.preloadFiles backing) :=
    ⟨hsame.files, hsame.locationLen, hsame.userCreatedSnap, hsame.snapIndx, rfl⟩
  refine ⟨htable, ?_, _, rfl, fun h hh => ?_, fun ps hps => ?_⟩
  · have hknown : known v.locationLen (top (v.findExtents backing) v.target) =
        ((Finset.range v.locationLen).filter fun s =>
          ∃ i < v.files.length, 0 < i ∧ v.findExtents backing i s = true).card := by
      unfold known
      congr 1
      refine Finset.filter_congr fun s _ => top_ne_zero_iff.trans ?_
      unfold DiffDisk.target
      exact ⟨fun ⟨i, h1, h2, h3⟩ => ⟨i, by omega, h1, h3⟩,
        fun ⟨i, h1, h2, h3⟩ => ⟨i, h2, by omega, h3⟩⟩
    rw [← hknown]
    exact hused
  · obtain ⟨f, lo, len, hpos, -, -, heq, hall⟩ := hsent h hh
    refine ⟨f, lo, len, hpos, heq, fun s h1 h2 => ?_⟩
    obtain ⟨j, hfj, hjt, hj, hnone⟩ := hall s h1 h2
    exact ⟨j, hfj, hjt, hj, fun u hfu huj => hnone u hfu huj.le⟩
  · have hext : ∀ i s, (v.preloadFiles backing).hasExtent i s = v.hasExtent i s :=
      fun i s => hchain.hasExtent rfl i s
    have himage : ∀ u, (v.preloadFiles backing).imageAt u = v.imageAt u := fun u =>
      imageAt_congr (fun i _ => hchain.file i) fun _ _ => rfl
    have hstart : Punched v (v.preloadFiles backing) (fun u => u = v.target ∨ v.flagged u = true)
        (Scan.all v.shouldPunchHoles (v.findExtents backing) v.toDiffDisk).sent := by
      refine ⟨hchain, fun h hh => ?_, fun u _ _ => himage u⟩
      have hsafe : v.SafeHole (fun u => u = v.target ∨ v.flagged u = true) h :=
        (hsent h hh).safeHole (fun _ _ => hasExtent_of_findExtents) fun u hu hut =>
          Or.inl (hu.resolve_left hut.ne)
      exact hsafe.mono (fun _ _ hok => hok.congr hchain.target hext) (fun i _ => hchain.file i)
        (hchain.files ▸ le_rfl)
    have hdone := hstart.punchAll hn hps
    refine ⟨?_, fun u hut hu => hdone.imageAt u (.inr hu) hut⟩
    unfold image
    rw [hdone.same.target]
    exact hdone.imageAt v.target (.inl rfl) le_rfl

/-- A sector that a snapshot and the active layer both have. -/
theorem preload_invisible_two :
    let v : Volume := { Volume.new 1 1 with
      files := [0, 1, 2]
      store := fun _ => (SparseFile.empty 4096).writeAt [7] 0
      userCreatedSnap := [false, false, false]
      shouldPunchHoles := true }
    (v.preloadFiles false).location 0 = 2 ∧
      (v.preloadFiles false).holeCreatorChan = [⟨1, 0, 4096⟩] ∧
      ((v.preloadFiles false).punchAll [⟨1, 0, 4096⟩]).image = v.image := by
  intro v
  obtain ⟨htable, -, hs, hchan, -, hpunch⟩ :=
    preload_invisible (v := v) (by decide) (by decide) (fun _ => rfl) false
  have hqueue : (v.preloadFiles false).holeCreatorChan = [⟨1, 0, 4096⟩] := by decide +kernel
  refine ⟨htable 0 Nat.one_pos, hqueue, (hpunch _ fun h hh => ?_).1⟩
  obtain rfl : [⟨1, 0, 4096⟩] = hs := hqueue.symm.trans hchan
  exact hh

end Volume

end Jiva
