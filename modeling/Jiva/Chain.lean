import Jiva.Coalesce
import Jiva.Links
import Jiva.ReplicaSpec

/-!
# The images of a chain of disks

`Dir.image` is what the images of a list of disks show. `imageOf` is the image of a disk of an open
replica, read through the files of its volume.
-/

namespace Jiva

open Faults Layered

namespace Dir

/-- The parent of a disk, by its metadata. -/
def next (dir : Dir) (n : DiskName) : Option (Option DiskName) :=
  (dir.diskMeta n).map Disk.parent

/-- Every disk of a chain has its metadata. -/
theorem isSome_of_follows {dir : Dir} {o : Option DiskName} {ns : List DiskName} {n : DiskName}
    (hf : Links.Follows dir.next o ns) (hn : n ∈ ns) : (dir.diskMeta n).isSome := by
  rw [← hf.isSome n hn, next, Option.isSome_map]

/-- The inode of an image. -/
def ino (dir : Dir) (n : DiskName) : ℕ :=
  (dir.img n).getD 0

/-- The images of the disks `ns`, from the top down, as a volume. -/
def view (dir : Dir) (ns : List DiskName) : Volume where
  location _ := 0
  locationLen := 0
  usedLogicalBlocks := 0
  usedBlocks := 0
  files := 0 :: ns.reverse.map dir.ino
  userCreatedSnap := []
  snapIndx := 0
  store := dir.store
  holeCreatorChan := []
  shouldPunchHoles := true

/-- What the images of the disks `ns` show. -/
def image (dir : Dir) (ns : List DiskName) : ℕ → Byte :=
  (dir.view ns).image

/-! ## Images -/

section Image

variable {dir dir' : Dir} {ns ms : List DiskName}

/-- A view depends on its files. -/
theorem image_of_files {v : Volume} (hfiles : v.files = (dir.view ns).files)
    (hstore : v.store = dir.store) : v.image = dir.image ns := by
  have htarget : v.target = (dir.view ns).target := by
    unfold DiffDisk.target
    rw [hfiles]
  unfold image Volume.image
  rw [htarget]
  refine Volume.imageAt_congr (fun i _ => ?_) fun _ _ => by rw [hstore]; rfl
  unfold DiffDisk.file
  rw [hfiles]

end Image

end Dir

namespace Replica

/-- The image of a disk of the live chain. -/
def imageOf (r : Replica) (n : DiskName) : ℕ → Byte :=
  r.vol.imageAt (r.activeDiskData.idxOf n + 1)

end Replica

end Jiva
