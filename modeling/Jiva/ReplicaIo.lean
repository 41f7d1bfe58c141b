import Jiva.Coalesce
import Jiva.FullWrite
import Jiva.ReplicaRuns

/-!
# An open replica that serves requests

Reads, writes and discards reach the volume of an open replica between the operations on its chain.
Holes that a write sends off wait in a queue, from which the worker takes them one by one, and
`RemoveDiffDisk` empties the queue first. To remove a snapshot, its allocated sectors are copied
over its parent by another process, which writes to the file of the parent.

Whatever the device does, `ReadAt` only looks sectors up, and `WriteAt` looks sectors up and writes
whole ones. What these keep, every request keeps (`readAt_rec`, `writeAt_rec`). Requests do not
change the chain, so the replica stays coherent (`readAt_coherent`, `writeAt_coherent`,
`unmap_coherent`).
-/

namespace Jiva

open Faults Links

/-! ## Requests on a volume -/

namespace Volume

theorem unmapLoop_sameChain (offset len : ℕ) : ∀ (is : List ℕ) (v : Volume),
    v.SameChain (unmapLoop offset len is v).1
  | [], v => .refl v
  | i :: is, v => by
    unfold unmapLoop fallocatePunch
    split_ifs
    · exact unmapLoop_sameChain offset len is v
    · exact .refl v
    · have hpunch : v.SameChain
          (v.setInode (v.file i) ((v.store (v.file i)).punchHole offset len)) :=
        ⟨rfl, rfl, rfl, rfl, rfl⟩
      exact hpunch.trans (unmapLoop_sameChain offset len is _)

theorem unmap_sameChain (v : Volume) (offset len : ℕ) : v.SameChain (v.unmap offset len).1 := by
  have h := unmapLoop_sameChain offset len (List.range v.files.length) v
  unfold unmap
  generalize unmapLoop offset len (List.range v.files.length) v = l at h ⊢
  obtain ⟨w, e | e⟩ := l <;> exact h

end Volume

/-! ## Requests on a replica -/

namespace Replica

/-- The replica after a request that left its volume as `v`. -/
def withVol (v : Volume) (r : Replica) : Replica :=
  { r with
    volume := v.toDiffDisk
    dir := { r.dir with store := v.store } }

/-- `r.info.Dirty = true`. -/
def setDirty (r : Replica) : Replica :=
  { r with info := { r.info with dirty := true } }

/-- `increaseRevisionCounter`, where the write of its file does not fail. -/
def increaseRevisionCounter (r : Replica) : Replica :=
  { r with dir := { r.dir with revisionCounter := r.dir.revisionCounter + 1 } }

/-- `WriteAt` : the replica, the holes that are sent off, the byte count and the error. -/
def writeAt (dev : Dev) (buf : List Byte) (offset : ℕ) (r : Replica) :
    Replica × List Hole × ℕ × Option String :=
  if r.readOnly then (r, [], 0, some "Can not write on read-only replica")
  else
    let w := r.vol.writeAt dev buf offset
    let t := (r.setDirty).withVol w.v
    match w.err with
    | some e => (t, w.v.holeCreatorChan, w.n, some e)
    | none =>
      match r.mode with
      | .rw => (t.increaseRevisionCounter, w.v.holeCreatorChan, w.n, none)
      | .wo => (t, w.v.holeCreatorChan, w.n, none)
      | m => (t, w.v.holeCreatorChan, w.n, some ("write happening on invalid rep state " ++ m.text))

/-- `ReadAt` : the replica, the buffer, the byte count and the error. -/
def readAt (dev : Dev) (buf : List Byte) (offset : ℕ) (r : Replica) :
    Replica × List Byte × ℕ × Option String :=
  let res := r.vol.readAt dev buf offset
  (r.withVol res.v, res.buf, res.n, res.err)

/-- `Unmap`. -/
def unmap (offset len : ℕ) (r : Replica) : Replica × ℤ × Option String :=
  if r.readOnly then (r, -1, some "Can not sync on read-only replica")
  else
    let u := r.vol.unmap offset len
    match u.2.2 with
    | some e => ((r.setDirty).withVol u.1, u.2.1, some e)
    | none => ((r.setDirty).withVol u.1, 0, none)

section Coherent

variable {r : Replica} {bs ss gone : List DiskName} {k : ℕ}

theorem Coherent.setDirty (h : r.Coherent bs k ss gone) : r.setDirty.Coherent bs k ss gone := by
  obtain ⟨i, hi, ha⟩ := h.volumeMeta
  exact { h with
    volumeMeta :=
    ⟨i, hi, ⟨ha.size, ha.head, ha.rebuilding, ha.sectorSize, ha.cloneStatus, ha.checkpoint⟩⟩ }

theorem Coherent.withVol {v : Volume} (h : r.Coherent bs k ss gone) (hs : r.vol.SameChain v) :
    (r.withVol v).Coherent bs k ss gone :=
  { h with
    files := (congrArg List.length hs.files).trans h.files
    flags := (congrArg List.length hs.userCreatedSnap).trans h.flags
    tidy := h.tidy.of_metas rfl rfl }

section

variable (h : r.Coherent bs k ss gone)
include h

theorem Coherent.increaseRevisionCounter :
    r.increaseRevisionCounter.Coherent bs k ss gone :=
  { h with tidy := h.tidy.of_metas rfl rfl }

theorem writeAt_coherent (dev : Dev) (buf : List Byte) (offset : ℕ) :
    (r.writeAt dev buf offset).1.Coherent bs k ss gone := by
  have hw : (r.setDirty.withVol (r.vol.writeAt dev buf offset).v).Coherent bs k ss gone :=
    h.setDirty.withVol (Volume.writeAt_sameChain dev r.vol buf offset)
  unfold writeAt
  dsimp only
  split_ifs
  · exact h
  · split
    · exact hw
    · split
      · exact hw.increaseRevisionCounter
      · exact hw
      · exact hw

theorem readAt_coherent (dev : Dev) (buf : List Byte) (offset : ℕ) :
    (r.readAt dev buf offset).1.Coherent bs k ss gone :=
  h.withVol (Volume.readAt_sameChain dev r.vol buf offset)

theorem unmap_coherent (offset len : ℕ) :
    (r.unmap offset len).1.Coherent bs k ss gone := by
  have hu : (r.setDirty.withVol (r.vol.unmap offset len).1).Coherent bs k ss gone :=
    h.setDirty.withVol (Volume.unmap_sameChain r.vol offset len)
  unfold unmap
  dsimp only
  split_ifs
  · exact h
  · split <;> exact hu

end

end Coherent

end Replica

/-! ## Runs -/

/-- An open replica without a backing file, and the holes that wait for the worker. -/
structure Running where
  replica : Replica
  holes : List Hole

namespace Running

/-- What happens to an open replica. `coalesce` copies one sector of the file at index `i` over the
file below, and `punch` is the worker. -/
inductive Op
  | manage (op : ReplicaOp)
  | writeAt (dev : Dev) (buf : List Byte) (offset : ℕ)
  | readAt (dev : Dev) (buf : List Byte) (offset : ℕ)
  | unmap (offset len : ℕ)
  | coalesce (i s : ℕ)
  | punch

/-- `RemoveDiffDisk` empties the queue. -/
def holesAfter (holes : List Hole) : ReplicaOp → List Hole
  | .removeDiffDisk _ => []
  | _ => holes

/-- One step. Operations on the chain return without an error, and writes are inside the volume, as
the controller checks. -/
def step (s : Running) : Op → Option Running
  | .manage op =>
    match Serving.step ⟨s.replica, none⟩ op with
    | some ⟨r, none⟩ => some ⟨r, holesAfter s.holes op⟩
    | _ => none
  | .writeAt dev buf offset =>
    if offset + buf.length ≤ s.replica.info.size then
      let w := s.replica.writeAt dev buf offset
      some ⟨w.1, s.holes ++ w.2.1⟩
    else none
  | .readAt dev buf offset => some { s with replica := (s.replica.readAt dev buf offset).1 }
  | .unmap offset len => some { s with replica := (s.replica.unmap offset len).1 }
  | .coalesce i t =>
    if 2 ≤ i ∧ i < s.replica.volume.target then
      some { s with replica := s.replica.withVol (s.replica.vol.coalesceSector i t) }
    else none
  | .punch =>
    match s.holes with
    | [] => none
    | h :: hs =>
      match s.replica.vol.fallocatePunch h.f h.offset h.len with
      | .ok v => some ⟨s.replica.withVol v, hs⟩
      | .error _ => none

/-- A replica as `construct` opens it in an empty directory. -/
def IsNew (s : Running) : Prop :=
  Serving.IsNew ⟨s.replica, none⟩ ∧ s.holes = []

/-- A new replica of one sector, with a limit of ten disks. -/
def fresh : Running :=
  ⟨Serving.fresh.replica, []⟩

theorem fresh_isNew : fresh.IsNew :=
  ⟨Serving.fresh_isNew, rfl⟩

end Running

end Jiva
