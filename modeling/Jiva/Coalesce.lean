import Jiva.Holes
import Jiva.Layers

/-!
# Coalescing a snapshot and taking it out of the chain

To delete a snapshot, its allocated sectors are first copied over its parent
(`coalesceSector`, sector by sector) and then `RemoveDiffDisk` takes its file out of the
chain (`removeDisk`) : the waiting holes are thrown away, and the table entries at or above
its index move down by one.

What makes the removal unseen is that wherever the snapshot is the file that is seen, its
parent holds the same bytes (`Merged`). Then every file that was seen is seen at its new
index, and the image stays as it was (`removeDisk_image`).
-/

namespace Jiva

open Layered

/-- One sector of a coalescing : an allocated sector of `src` replaces the sector of the
file. -/
def SparseFile.copySector (file src : SparseFile) (s : ℕ) : SparseFile where
  size := file.size
  alloc t := file.alloc t || (decide (t = s) && src.alloc s)
  data b := if b / defaultSectorSize = s ∧ src.alloc s = true then src.data b else file.data b
  hole_zero b h := by
    obtain ⟨ha, hs⟩ := Bool.or_eq_false_iff.1 h
    rw [if_neg, file.hole_zero b ha]
    rintro ⟨rfl, hsrc⟩
    simp [hsrc] at hs

namespace Volume

/-- Copy sector `s` of the file at index `k` over its parent's. -/
def coalesceSector (v : Volume) (k s : ℕ) : Volume :=
  v.setInode (v.file (k - 1))
    ((v.store (v.file (k - 1))).copySector (v.store (v.file k)) s)

/-- What `RemoveDiffDisk` does to the volume : the waiting holes are thrown away, and the file at
index `k` is taken out. -/
def removeDisk (v : Volume) (k : ℕ) : Volume :=
  { v.holeDrainer with toDiffDisk := v.toDiffDisk.removeIndex k }

/-- Where sector `s` is seen in the file at index `k`, its parent has the same bytes. -/
structure Merged (v : Volume) (k s : ℕ) : Prop where
  held : v.topFile v.target s = k → v.hasExtent (k - 1) s = true
  data : v.topFile v.target s = k → ∀ b, b / defaultSectorSize = s →
    (v.store (v.file (k - 1))).data b = (v.store (v.file k)).data b

/-- The snapshot at index `k` is already coalesced : wherever it has an extent, its parent has the
same bytes. -/
def Coalesced (v : Volume) (k : ℕ) : Prop :=
  ∀ s, s < v.locationLen → v.hasExtent k s = true → v.hasExtent (k - 1) s = true ∧
    ∀ b, b < (s + 1) * defaultSectorSize → s * defaultSectorSize ≤ b →
      (v.store (v.file (k - 1))).data b = (v.store (v.file k)).data b

instance (v : Volume) (k : ℕ) : Decidable (v.Coalesced k) := by
  unfold Coalesced
  infer_instance

section Remove

variable {v : Volume} {k : ℕ}

theorem Coalesced.merged {k s : ℕ} (h : v.Coalesced k) (hk : 0 < k) (hs : s < v.locationLen) :
    v.Merged k s := by
  have hext : v.topFile v.target s = k → v.hasExtent k s = true := fun heq => by
    have := holds_top v.hasExtent v.target s (by unfold topFile at heq; omega)
    unfold topFile at heq
    rwa [heq] at this
  refine ⟨fun heq => (h s hs (hext heq)).1, fun heq b hb => (h s hs (hext heq)).2 b ?_ ?_⟩
  all_goals
    rw [defaultSectorSize_eq] at hb ⊢
    omega

theorem removeDisk_target (v : Volume) (hk : k < v.files.length) :
    (v.removeDisk k).target = v.target - 1 := by
  simp [removeDisk, DiffDisk.removeIndex, DiffDisk.target, List.length_eraseIdx_of_lt hk]

theorem removeDisk_file (v : Volume) (k i : ℕ) :
    (v.removeDisk k).file i = if i < k then v.file i else v.file (i + 1) := by
  show (v.files.eraseIdx k).getD i 0 = _
  unfold DiffDisk.file
  simp only [List.getD_eq_getElem?_getD, List.getElem?_eraseIdx]
  split_ifs <;> rfl

theorem removeDisk_hasExtent (v : Volume) (k : ℕ) :
    (v.removeDisk k).hasExtent = remove v.hasExtent k := by
  funext i s
  show (v.store ((v.removeDisk k).file i)).alloc s = _
  rw [removeDisk_file]
  unfold remove hasExtent
  split_ifs <;> rfl

/-- The files that are seen keep their place among the others. -/
theorem removeDisk_topFile (hk : 2 ≤ k) (hkt : k < v.target) {s : ℕ} (hm : v.Merged k s) :
    (v.removeDisk k).topFile (v.removeDisk k).target s =
      if k ≤ v.topFile v.target s then v.topFile v.target s - 1 else v.topFile v.target s := by
  have htl : v.target = v.files.length - 1 := rfl
  have hsucc : v.target - 1 + 1 = v.target := by omega
  have h := top_remove_of_le (P := v.hasExtent) (k := k) (u := v.target - 1) (s := s) hk (by omega)
    (by rw [hsucc]; exact hm.held)
  rw [hsucc] at h
  unfold topFile
  rw [removeDisk_target _ (by omega), removeDisk_hasExtent]
  exact h

theorem removeDisk_owner (hk : 2 ≤ k) (hkt : k < v.target) {s : ℕ} (hm : v.Merged k s) :
    (v.removeDisk k).owner s = if k ≤ v.owner s then v.owner s - 1 else v.owner s := by
  unfold owner
  rw [removeDisk_topFile hk hkt hm]
  split_ifs <;> omega

/-- Taking out a merged file does not change the image. -/
theorem removeDisk_image (hk : 2 ≤ k) (hkt : k < v.target) {b : ℕ}
    (hm : v.Merged k (b / defaultSectorSize)) : (v.removeDisk k).image b = v.image b := by
  have htop := removeDisk_topFile hk hkt hm
  unfold image imageAt
  rcases Nat.lt_trichotomy (v.topFile v.target (b / defaultSectorSize)) k with h | h | h
  · rw [if_neg (Nat.not_le.2 h)] at htop
    rw [htop, removeDisk_file, if_pos h]
    rfl
  · rw [h, if_pos le_rfl] at htop
    rw [htop, h, removeDisk_file, if_neg (show k - 1 ≠ 0 by omega),
      if_pos (show k - 1 < k by omega), if_neg (show k ≠ 0 by omega)]
    exact hm.data h b rfl
  · generalize v.topFile v.target (b / defaultSectorSize) = t at h htop ⊢
    rw [if_pos h.le] at htop
    rw [htop, removeDisk_file, if_neg (show t - 1 ≠ 0 by omega),
      if_neg (show ¬t - 1 < k by omega), if_neg (show t ≠ 0 by omega),
      Nat.sub_add_cancel (by omega)]
    rfl

theorem removeDisk_chainOk (hc : v.ChainOk) (hk : 2 ≤ k) (hkt : k < v.target) :
    (v.removeDisk k).ChainOk := by
  have htl := hc.target_lt
  have hlen : (v.removeDisk k).files.length = v.files.length - 1 :=
    List.length_eraseIdx_of_lt (by omega)
  have hle := hc.le_u16
  refine ⟨by omega, by omega, ?_, hc.nodup.eraseIdx k, fun i hi hil => ?_⟩
  · rw [removeDisk_file, if_pos (by omega), hc.nil_file]
  · rw [removeDisk_file]
    show (v.store _).size = v.size
    split_ifs
    · exact hc.file_size i hi (by omega)
    · exact hc.file_size (i + 1) (by omega) (by omega)

theorem removeDisk_location (hc : v.ChainOk) (hkt : k < v.target) {s : ℕ}
    (hs : s < v.locationLen) : (v.removeDisk k).location s =
      if k ≤ v.location s then v.location s - 1 else v.location s := by
  show (if s < v.locationLen ∧ u16 k ≤ v.location s then _ else _) = _
  rw [u16_of_lt (hkt.trans hc.target_lt_u16)]
  exact if_congr (and_iff_right hs) rfl rfl

theorem removeDisk_locationOk (hc : v.ChainOk) (hl : v.LocationOk) (hk : 2 ≤ k) (hkt : k < v.target)
    (hm : ∀ s, s < v.locationLen → v.Merged k s) : (v.removeDisk k).LocationOk := by
  intro s hs
  rw [removeDisk_location hc hkt hs, removeDisk_owner hk hkt (hm s hs)]
  rcases hl s hs with h | h
  · left
    rw [if_neg (by omega), h]
  · right
    rw [h]

end Remove

/-! ## One sector -/

section Sector

variable {v : Volume} {k : ℕ}

theorem coalesceSector_store (hn : v.files.Nodup) (hkl : k < v.files.length) {i : ℕ}
    (hi : i < v.files.length) (s : ℕ) :
    (v.coalesceSector k s).store (v.file i) = if i = k - 1 then
      (v.store (v.file (k - 1))).copySector (v.store (v.file k)) s else v.store (v.file i) := by
  show Function.update v.store (v.file (k - 1)) _ (v.file i) = _
  split_ifs with h
  · rw [h, Function.update_self]
  · exact Function.update_of_ne (fun hf => h (file_inj hn hi (by omega) hf)) _ _

theorem coalesceSector_hasExtent (hn : v.files.Nodup) (hkl : k < v.files.length)
    {i : ℕ} (hi : i < v.files.length) (s t : ℕ) :
    (v.coalesceSector k s).hasExtent i t =
      (v.hasExtent i t || (decide (i = k - 1 ∧ t = s) && v.hasExtent k s)) := by
  show ((v.coalesceSector k s).store (v.file i)).alloc t = _
  rw [coalesceSector_store hn hkl hi]
  by_cases h : i = k - 1
  · subst h
    rw [if_pos rfl]
    simp [SparseFile.copySector, hasExtent]
  · rw [if_neg h]
    simp [h, hasExtent]

theorem coalesceSector_chainOk (hc : v.ChainOk) (hkt : k < v.target) (s : ℕ) :
    (v.coalesceSector k s).ChainOk := by
  refine hc.of_files rfl rfl fun i _ hi => ?_
  rw [coalesceSector_store hc.nodup (hkt.trans hc.target_lt) hi]
  split_ifs with h
  · rw [h]
    rfl
  · rfl

/-- The copied sector is hidden by the file it was copied from, or above what is seen. -/
theorem coalesceSector_topFileAt (hn : v.files.Nodup) (hk : 2 ≤ k) (hkl : k < v.files.length)
    {u : ℕ} (hu : u < v.files.length) (hne : u ≠ k - 1) (s t : ℕ) :
    (v.coalesceSector k s).topFile u t = v.topFile u t := by
  have hle := v.topFile_le u t
  refine top_eq hle (fun h0 => ?_) fun i hi hit => ?_
  · have hext : v.hasExtent (v.topFile u t) t = true := holds_top _ _ _ h0
    rw [coalesceSector_hasExtent hn hkl (by omega), hext, Bool.true_or]
  · rw [coalesceSector_hasExtent hn hkl (by omega), not_holds_of_top_lt hi hit, Bool.false_or]
    by_contra hnot
    obtain ⟨rfl, rfl, hext⟩ : i = k - 1 ∧ t = s ∧ v.hasExtent k s = true := by simpa using hnot
    have := le_top v.hasExtent (show k ≤ u by omega) hext (by omega)
    unfold topFile at hi
    omega

theorem coalesceSector_topFile (hc : v.ChainOk) (hk : 2 ≤ k) (hkt : k < v.target) (s t : ℕ) :
    (v.coalesceSector k s).topFile v.target t = v.topFile v.target t :=
  coalesceSector_topFileAt hc.nodup hk (hkt.trans hc.target_lt) hc.target_lt (by omega) s t

/-- Only the image at the parent changes. -/
theorem coalesceSector_imageAt (hn : v.files.Nodup) (hk : 2 ≤ k) (hkl : k < v.files.length) {u : ℕ}
    (hu : u < v.files.length) (hne : u ≠ k - 1) (s : ℕ) :
    (v.coalesceSector k s).imageAt u = v.imageAt u := by
  funext b
  have htop := coalesceSector_topFileAt hn hk hkl hu hne s (b / defaultSectorSize)
  have hle := v.topFile_le u (b / defaultSectorSize)
  show (if (v.coalesceSector k s).topFile u (b / defaultSectorSize) = 0 then 0 else
    ((v.coalesceSector k s).store (v.file
      ((v.coalesceSector k s).topFile u (b / defaultSectorSize)))).data b) = _
  unfold imageAt
  rw [htop, coalesceSector_store hn hkl (by omega)]
  by_cases h : v.topFile u (b / defaultSectorSize) = k - 1
  · rw [h, if_pos rfl]
    have hnot : ¬(b / defaultSectorSize = s ∧ (v.store (v.file k)).alloc s = true) := by
      rintro ⟨rfl, hext⟩
      have := le_top v.hasExtent (show k ≤ u by omega) hext (by omega)
      unfold topFile at h
      omega
    simp only [SparseFile.copySector, if_neg hnot]
  · rw [if_neg h]

theorem coalesceSector_image (hc : v.ChainOk) (hk : 2 ≤ k) (hkt : k < v.target) (s : ℕ) :
    (v.coalesceSector k s).image = v.image :=
  coalesceSector_imageAt hc.nodup hk (hkt.trans hc.target_lt) hc.target_lt (by omega) s

theorem coalesceSector_locationOk (hc : v.ChainOk) (hl : v.LocationOk) (hk : 2 ≤ k)
    (hkt : k < v.target) (s : ℕ) : (v.coalesceSector k s).LocationOk := by
  intro t ht
  show v.location t = 0 ∨ v.location t = max 1 ((v.coalesceSector k s).topFile v.target t)
  rw [coalesceSector_topFile hc hk hkt]
  exact hl t ht

theorem HoleOk.coalesceSector {f t : ℕ} (hc : v.ChainOk) (hk : 2 ≤ k) (hkt : k < v.target) (s : ℕ)
    (h : v.HoleOk (fun u => u = v.target) f t) :
    (v.coalesceSector k s).HoleOk (fun u => u = v.target) f t := by
  have htl := hc.target_lt
  have hlt := h.lt
  refine ⟨h.pos, hlt, fun hext u hu _ _ => ?_⟩
  obtain rfl : u = v.target := hu
  rw [coalesceSector_hasExtent hc.nodup (hkt.trans htl) (by omega)] at hext
  rcases Bool.or_eq_true_iff.1 hext with hext | hnew
  · obtain ⟨j, hfj, hju, hj⟩ := h.hidden hext _ rfl hlt.le le_rfl
    exact ⟨j, hfj, hju, by rw [coalesceSector_hasExtent hc.nodup (hkt.trans htl) (by omega), hj,
      Bool.true_or]⟩
  · obtain ⟨⟨rfl, rfl⟩, hk'⟩ : (f = k - 1 ∧ t = s) ∧ v.hasExtent k s = true := by
      simpa [and_assoc] using hnew
    exact ⟨k, by omega, hkt.le, by
      rw [coalesceSector_hasExtent hc.nodup (hkt.trans htl) (by omega), hk', Bool.true_or]⟩

end Sector

end Volume

end Jiva
