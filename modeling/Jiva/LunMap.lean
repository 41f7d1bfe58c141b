import Jiva.ScanInv

/-!
# Merging the LUN map

The merge loop of `UpdateLUNMap` keeps the higher of the two entries of every sector, and
sends off as holes the sectors for which the scan found a file below the one in the live
table (`mergeLoop_inv`).
-/

namespace Jiva

namespace Volume

/-- The scanned file is hidden by the entry of the live table. -/
def Outdated (v : Volume) (d : DiffDisk) (f s : ℕ) : Prop :=
  s < d.locationLen ∧ d.location s = f ∧ 0 < f ∧ f < v.location s

/-- What is known after `k` passes of the merge loop. -/
structure MergeInv (v : Volume) (d : DiffDisk) (snapIndx k : ℕ) (st : MergeState) : Prop where
  location : ∀ t, st.location t =
    if t < k then max (v.location t) (d.location t) else v.location t
  run : st.run.fileIndx ≠ 0 → st.run.file = d.file st.run.fileIndx ∧ 0 < st.run.length ∧
    ∀ s, st.run.lOffset ≤ s → s < st.run.lOffset + st.run.length →
      v.Outdated d st.run.fileIndx s
  sent : ∀ h ∈ st.sent, ∃ f lo len,
    h = ⟨d.file f, lo * defaultSectorSize, len * defaultSectorSize⟩ ∧ snapIndx < f ∧ 0 < len ∧
    ∀ s, lo ≤ s → s < lo + len → v.Outdated d f s

section

variable {v : Volume} {d : DiffDisk} {snapIndx k : ℕ} {st : MergeState}

theorem MergeInv.flush (h : MergeInv v d snapIndx k st) (punch : Bool) :
    MergeInv v d snapIndx k (st.flush snapIndx punch) := by
  refine ⟨h.location, h.run, fun hole hh => ?_⟩
  rcases List.mem_append.1 hh with hh | hh
  · exact h.sent hole hh
  · unfold HoleRun.holes at hh
    split_ifs at hh with hs
    · obtain ⟨hf, hlen, hall⟩ := h.run (by omega)
      rw [List.mem_singleton.1 hh]
      exact ⟨st.run.fileIndx, st.run.lOffset, st.run.length, by rw [hf], hs.2.1, hlen, hall⟩
    · simp at hh

/-- One pass of the merge loop. -/
theorem MergeInv.sector (h : MergeInv v d snapIndx k st) (hk : k < d.locationLen) (punch : Bool) :
    MergeInv v d snapIndx (k + 1) (MergeState.sector d snapIndx punch st k) := by
  have hst : st.location k = v.location k := by rw [h.location, if_neg (by omega)]
  have hkeep : d.location k ≤ v.location k → ∀ t, st.location t =
      if t < k + 1 then max (v.location t) (d.location t) else v.location t := by
    intro hle t
    rw [h.location]
    rcases eq_or_ne t k with rfl | hne
    · rw [if_neg (by omega), if_pos (by omega)]
      omega
    · exact if_congr (by omega) rfl rfl
  have hrun := h.run
  unfold MergeState.sector
  simp only [hst]
  split_ifs with h0 hv hlt hnew
  · exact ⟨hkeep (by omega), h.run, h.sent⟩
  · exact ⟨hkeep (by omega), h.run, h.sent⟩
  · -- a new run
    refine ⟨hkeep hlt.le, fun _ => ⟨rfl, Nat.one_pos, fun s h1 h2 => ?_⟩, (h.flush punch).sent⟩
    obtain rfl : s = k := by
      simp only at h1 h2
      omega
    exact ⟨hk, rfl, Nat.pos_of_ne_zero h0, hlt⟩
  · -- the run goes on
    obtain ⟨hidx, hend⟩ := not_or.1 hnew
    rw [not_not] at hidx hend
    refine ⟨hkeep hlt.le, fun hi => ⟨(hrun hi).1, Nat.succ_pos _, fun s h1 h2 => ?_⟩, h.sent⟩
    simp only at h1 h2 ⊢
    rcases Nat.lt_or_ge s (st.run.lOffset + st.run.length) with hold | hge
    · exact (hrun hi).2.2 s h1 hold
    · obtain rfl : s = k := by omega
      rw [hidx]
      exact ⟨hk, rfl, Nat.pos_of_ne_zero h0, hlt⟩
  · refine ⟨fun t => ?_, fun hi => absurd rfl hi, (h.flush punch).sent⟩
    show Function.update st.location k (d.location k) t = _
    rcases eq_or_ne t k with rfl | hne
    · rw [Function.update_self, if_pos (by omega)]
      omega
    · rw [Function.update_of_ne hne, h.location]
      exact if_congr (by omega) rfl rfl

theorem mergeLoop_inv (v : Volume) (d : DiffDisk) :
    MergeInv v d (u16 (DiffDisk.lastUserCreated d.userCreatedSnap 0)) d.locationLen
      (mergeLoop v d) := by
  refine MergeInv.flush ?_ _
  refine Transition.foldl_range_rec
    (P := MergeInv v d (u16 (DiffDisk.lastUserCreated d.userCreatedSnap 0))) _ _ ?_ d.locationLen
    fun k st hk h => h.sector hk _
  exact ⟨fun t => by rw [if_neg (by omega)], fun h => absurd rfl h, by simp⟩

end

end Volume

end Jiva
