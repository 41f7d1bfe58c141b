import Jiva.Coalesce
import Jiva.Persistence
import Jiva.Chain
import Jiva.ReplicaIo

/-!
# Removing a coalesced snapshot

Once every allocated sector of a snapshot has been copied over its parent (`CopiedOver`),
`RemoveDiffDisk` takes the snapshot out of the live chain. The image at the parent becomes the image
at the snapshot, and the other images stay (`images_removeDisk`). The entries of the table above the
removed file move down by one (`removeDisk_table`).
-/

namespace Jiva

open Faults Layered

variable {z : ℕ}

namespace Volume

variable {v : Volume} {k : ℕ}
variable {s u : ℕ}

/-- Every allocated sector of the file at index `k` has been copied over its parent. -/
def CopiedOver (v : Volume) (k : ℕ) : Prop :=
  ∀ s, s * defaultSectorSize < (v.store (v.file k)).size → v.hasExtent k s = true →
    v.hasExtent (k - 1) s = true ∧
    ∀ b, b / defaultSectorSize = s → (v.store (v.file (k - 1))).data b = (v.store (v.file k)).data b

/-- The indices of the files fit in the table, every file has size `z`, and the table names files of
the volume.
-/
structure Shaped (v : Volume) (z : ℕ) : Prop where
  two_le : 2 ≤ v.files.length
  le_u16 : v.files.length ≤ 65536
  size : ∀ i, 0 < i → i < v.files.length → (v.store (v.file i)).size = z
  locationLe : v.LocationLe

/-- A coalesced sector has been copied. -/
theorem coalesceSector_copied (hne : v.file k ≠ v.file (k - 1)) (hext : v.hasExtent k s = true) :
    (v.coalesceSector k s).hasExtent (k - 1) s = true ∧ ∀ b, b / defaultSectorSize = s →
      ((v.coalesceSector k s).store (v.file (k - 1))).data b =
        ((v.coalesceSector k s).store (v.file k)).data b := by
  have hself : (v.coalesceSector k s).store (v.file (k - 1)) =
      (v.store (v.file (k - 1))).copySector (v.store (v.file k)) s := Function.update_self ..
  have hother : (v.coalesceSector k s).store (v.file k) = v.store (v.file k) :=
    Function.update_of_ne hne ..
  constructor
  · show ((v.coalesceSector k s).store (v.file (k - 1))).alloc s = true
    rw [hself]
    unfold hasExtent at hext
    simp [SparseFile.copySector, hext]
  · intro b hb
    rw [hself, hother]
    exact if_pos ⟨hb, hext⟩

/-! ## Images -/

theorem hasExtent_of_topFile (hk : 0 < k) (htop : v.topFile u s = k) : v.hasExtent k s = true := by
  have := holds_top v.hasExtent u s (by unfold topFile at htop; omega)
  unfold topFile at htop
  rwa [htop] at this

theorem removeDisk_topFile_at (h : v.CopiedOver k) (hk : 2 ≤ k) (hu : k ≤ u + 1)
    (hs : s * defaultSectorSize < (v.store (v.file k)).size) : (v.removeDisk k).topFile u s =
      if k ≤ v.topFile (u + 1) s then v.topFile (u + 1) s - 1 else v.topFile (u + 1) s := by
  unfold topFile
  rw [removeDisk_hasExtent]
  exact top_remove_of_le hk hu fun htop => (h s hs (hasExtent_of_topFile (by omega) htop)).1

/-- From the parent on, the images are the former ones one index above. -/
theorem removeDisk_imageAt (h : v.CopiedOver k) (hk : 2 ≤ k) {b : ℕ} (hu : k ≤ u + 1)
    (hb : b < (v.store (v.file k)).size) : (v.removeDisk k).imageAt u b = v.imageAt (u + 1) b := by
  have hs : b / defaultSectorSize * defaultSectorSize < (v.store (v.file k)).size :=
    (Nat.div_mul_le_self ..).trans_lt hb
  have htop := removeDisk_topFile_at h hk hu hs
  unfold imageAt
  rcases Nat.lt_trichotomy (v.topFile (u + 1) (b / defaultSectorSize)) k with hlt | heq | hgt
  · rw [if_neg (Nat.not_le.2 hlt)] at htop
    rw [htop, removeDisk_file, if_pos hlt]
    rfl
  · have hext := hasExtent_of_topFile (by omega) heq
    rw [heq, if_pos le_rfl] at htop
    rw [htop, heq, removeDisk_file, if_neg (show k - 1 ≠ 0 by omega),
      if_pos (show k - 1 < k by omega), if_neg (show k ≠ 0 by omega)]
    exact (h _ hs hext).2 b rfl
  · generalize v.topFile (u + 1) (b / defaultSectorSize) = t at hgt htop ⊢
    rw [if_pos hgt.le] at htop
    rw [htop, removeDisk_file, if_neg (show t - 1 ≠ 0 by omega),
      if_neg (show ¬t - 1 < k by omega), if_neg (show t ≠ 0 by omega),
      Nat.sub_add_cancel (by omega)]
    rfl

/-- Below the parent, the images stay. -/
theorem removeDisk_imageAt_of_lt (hu : u < k) : (v.removeDisk k).imageAt u = v.imageAt u :=
  imageAt_congr (fun i hi => by rw [removeDisk_file, if_pos (by omega)]) fun _ _ => rfl

/-! ## The table -/

section Table

variable {z : ℕ} (hv : v.Shaped z) (hkt : k < v.target)
include hv hkt

/-- The entries of the table at or above `k` move down by one. -/
theorem removeDisk_table (hs : s < v.locationLen) : (v.removeDisk k).location s =
    if k ≤ v.location s then v.location s - 1 else v.location s := by
  have htarget : v.target = v.files.length - 1 := rfl
  have := hv.le_u16
  show (if s < v.locationLen ∧ u16 k ≤ v.location s then _ else _) = _
  rw [u16_of_lt (by omega)]
  exact if_congr (and_iff_right hs) rfl rfl

theorem removeDisk_shaped (hpos : 0 < k) : (v.removeDisk k).Shaped z := by
  have htarget : v.target = v.files.length - 1 := rfl
  have hlen : (v.removeDisk k).files.length = v.files.length - 1 :=
    List.length_eraseIdx_of_lt (by omega)
  have hle := hv.le_u16
  refine ⟨by omega, by omega, fun i hi hil => ?_, fun s hs => ?_⟩
  · rw [removeDisk_file]
    show (v.store _).size = z
    split_ifs
    · exact hv.size i hi (by omega)
    · exact hv.size (i + 1) (by omega) (by omega)
  · have := hv.locationLe s hs
    rw [removeDisk_table hv hkt hs, removeDisk_target _ (by omega)]
    split_ifs <;> omega

end Table

end Volume

namespace Replica

/-- `findDisk` : the index of the file of a disk of the live chain. -/
def findDisk (r : Replica) (n : DiskName) : ℕ :=
  r.activeDiskData.idxOf n + 1

/-- The images after the file of `n` was taken out of the volume and `n` out of the live chain,
where `p` was below it. -/
theorem images_removeDisk {r t : Replica} {n p : DiskName} {ls us : List DiskName}
    (hvol : t.vol = r.vol.removeDisk (r.findDisk n))
    (hbefore : r.activeDiskData = ls ++ p :: n :: us) (hafter : t.activeDiskData = ls ++ p :: us)
    (hlower : p ∉ ls) (hplace : r.findDisk n = ls.length + 2) (hc : r.vol.CopiedOver (r.findDisk n))
    (hz : (r.vol.store (r.vol.file (r.findDisk n))).size = z) :
    (∀ m, m ≠ n → m ≠ p → ∀ b, b < z → t.imageOf m b = r.imageOf m b) ∧
      ∀ b, b < z → t.imageOf p b = r.imageOf n b := by
  have hk : 2 ≤ r.findDisk n := by rw [hplace]; omega
  subst hz
  constructor
  · intro m hmn hmp b hb
    unfold imageOf
    rw [hvol]
    by_cases hm : m ∈ ls
    · have hlt := List.idxOf_lt_length_of_mem hm
      rw [hafter, hbefore, List.idxOf_append_of_mem hm, List.idxOf_append_of_mem hm,
        Volume.removeDisk_imageAt_of_lt (by rw [hplace]; omega)]
    · rw [hafter, hbefore, List.idxOf_append_of_notMem hm, List.idxOf_append_of_notMem hm,
        List.idxOf_cons_ne _ (Ne.symm hmp), List.idxOf_cons_ne _ (Ne.symm hmp),
        List.idxOf_cons_ne _ (Ne.symm hmn),
        Volume.removeDisk_imageAt hc hk (by rw [hplace]; omega) hb]
      rfl
  · intro b hb
    unfold imageOf
    have hpi : t.activeDiskData.idxOf p = ls.length := by
      rw [hafter, List.idxOf_append_of_notMem hlower, List.idxOf_cons_self, Nat.add_zero]
    have hni : r.activeDiskData.idxOf n = ls.length + 1 := by
      have := hplace
      unfold findDisk at this
      omega
    rw [hvol, hpi, hni, Volume.removeDisk_imageAt hc hk (by rw [hplace]) hb]

end Replica

end Jiva
