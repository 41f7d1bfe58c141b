import Jiva.FlatDisk

/-!
# The hole creator, the extent scan and the LUN map

The part of `replica/backup.go` and `replica/server.go` that works behind the writes.

`CreateHoles` takes holes from the channel and punches them. The worker may be at any hole
that was sent, so `createHole` takes any of them, not only the first.

`preload` fills a location table from the extents of the files, from the base up, and sends
off as holes the sectors it finds again in a higher file. It works on a diff-disk of its
own while the volume may go on changing, so it is written as a `Scan` that is told, sector
by sector, what the extent query returned.

`UpdateLUNMap` takes a copy of the diff-disk under the lock, lets `preload` fill the copy's
table without the lock, and merges it into the live table under the lock again
(`mergeLUNMap`).
-/

namespace Jiva

/-! ## User-created flags -/

/-- The user-created flag of a diff-disk at index `i`. -/
def DiffDisk.flagged (d : DiffDisk) (i : ℕ) : Bool :=
  d.userCreatedSnap.getD i false

/-- The latest flag is the default if there is no flag, and else the highest flag. -/
theorem DiffDisk.lastUserCreated_spec (flags : List Bool) (cur : ℕ) :
    ((∀ i, flags.getD i false = false) ∧ DiffDisk.lastUserCreated flags cur = cur) ∨
    (flags.getD (DiffDisk.lastUserCreated flags cur) false = true ∧
      ∀ i, flags.getD i false = true → i ≤ DiffDisk.lastUserCreated flags cur) := by
  have hlt : ∀ i, flags.getD i false = true → i < flags.length := by
    intro i hi
    by_contra hge
    rw [List.getD_eq_default _ _ (by omega)] at hi
    cases hi
  have hmain := Transition.foldl_range_rec
    (P := fun n acc => ((∀ i, i < n → flags.getD i false = false) ∧ acc = cur) ∨
      (flags.getD acc false = true ∧ ∀ i, i < n → flags.getD i false = true → i ≤ acc))
    (fun acc i => if flags.getD i false then i else acc) cur (.inl ⟨by simp, rfl⟩)
    flags.length ?_
  · rcases hmain with ⟨hnone, heq⟩ | ⟨hflag, hmax⟩
    · refine .inl ⟨fun i => ?_, heq⟩
      by_contra hi
      have hi : flags.getD i false = true := by simpa using hi
      rw [hnone i (hlt i hi)] at hi
      cases hi
    · exact .inr ⟨hflag, fun i hi => hmax i (hlt i hi) hi⟩
  · intro k acc _ hP
    split_ifs with hk
    · exact .inr ⟨hk, fun i hi _ => by omega⟩
    · have hk' : flags.getD k false = false := by simpa using hk
      rcases hP with ⟨hnone, heq⟩ | ⟨hflag, hmax⟩
      · refine .inl ⟨fun i hi => ?_, heq⟩
        rcases eq_or_ne i k with rfl | hne
        · exact hk'
        · exact hnone i (by omega)
      · refine .inr ⟨hflag, fun i hi hif => ?_⟩
        rcases eq_or_ne i k with rfl | hne
        · rw [hk'] at hif
          cases hif
        · exact hmax i (by omega) hif

/-! ## The worker -/

namespace Volume

/-- `CreateHoles` : take the `k`-th waiting hole and punch it. -/
def createHole (v : Volume) (k : ℕ) : Option Volume :=
  match v.holeCreatorChan[k]? with
  | none => none
  | some h =>
    match { v with holeCreatorChan := v.holeCreatorChan.eraseIdx k }.fallocatePunch
        h.f h.offset h.len with
    | .ok v => some v
    | .error _ => none

/-- The holes `hs` join the ones that wait. -/
def sendHoles (v : Volume) (hs : List Hole) : Volume :=
  { v with holeCreatorChan := v.holeCreatorChan ++ hs }

/-- `holeDrainer` : the waiting holes are thrown away. -/
def holeDrainer (v : Volume) : Volume :=
  { v with holeCreatorChan := [] }

end Volume

/-! ## The extent scan -/

/-- A run of sectors of one file that waits to be sent off as a hole. -/
structure HoleRun where
  file : ℕ
  fileIndx : ℕ
  length : ℕ
  lOffset : ℕ

/-- The holes that sending off a run makes : one, if the file of the run is above the latest
user-created snapshot seen. -/
def HoleRun.holes (r : HoleRun) (snapIndx : ℕ) (punch : Bool) : List Hole :=
  if r.file ≠ 0 ∧ snapIndx < r.fileIndx ∧ punch then
    [⟨r.file, r.lOffset * defaultSectorSize, r.length * defaultSectorSize⟩]
  else []

/-- The variables of `preload`, at sector `s` of the file at index `i`. `sent` collects the
holes that were sent off. -/
structure Scan where
  d : DiffDisk
  i : ℕ
  s : ℕ
  userCreatedSnapIndx : ℕ
  run : HoleRun
  sent : List Hole

namespace Scan

/-- Send off the pending run. -/
def flush (sc : Scan) (punch : Bool) : Scan :=
  let holes := sc.run.holes sc.userCreatedSnapIndx punch
  { sc with
    d := { sc.d with
      usedBlocks := sc.d.usedBlocks - if holes = [] then 0 else sc.run.length }
    sent := sc.sent ++ holes }

/-- The body of the inner loop of `preload`, for a sector that has an extent. -/
def emit (sc : Scan) (punch : Bool) : Scan :=
  let loc := sc.d.location sc.s
  let sc' : Scan :=
    if loc ≠ 0 then
      if sc.d.file loc ≠ sc.run.file ∨ sc.s ≠ sc.run.lOffset + sc.run.length then
        { sc.flush punch with run := ⟨sc.d.file loc, loc, 1, sc.s⟩ }
      else { sc with run := { sc.run with length := sc.run.length + 1 } }
    else { sc with d := { sc.d with usedLogicalBlocks := sc.d.usedLogicalBlocks + 1 } }
  { sc' with
    d := { sc'.d with
      location := Function.update sc'.d.location sc.s (u16 sc.i)
      usedBlocks := sc'.d.usedBlocks + 1 } }

/-- One sector of the file : `seen` says whether the generator emits it. -/
def sector (sc : Scan) (punch seen : Bool) : Scan :=
  let sc' := if seen then sc.emit punch else sc
  { sc' with s := sc.s + 1 }

/-- The start of the outer loop of `preload`, for the file at index `i`. -/
def beginFile (sc : Scan) (i : ℕ) : Scan :=
  { sc with
    i := i
    s := 0
    userCreatedSnapIndx :=
      if sc.d.userCreatedSnap.getD i false then u16 i else sc.userCreatedSnapIndx }

/-- The end of the outer loop of `preload`. The run is closed, its length and offset stay. -/
def endFile (sc : Scan) (punch : Bool) : Scan :=
  let sc := sc.flush punch
  { sc with run := { sc.run with file := 0, fileIndx := 0 } }

/-- `preload` before its first file. -/
def start (d : DiffDisk) : Scan :=
  ⟨d, 0, 0, 0, ⟨0, 0, 0, 0⟩, []⟩

/-- One file of `preload`. -/
def file (sc : Scan) (punch : Bool) (obs : ℕ → ℕ → Bool) (i : ℕ) : Scan :=
  ((List.range sc.d.locationLen).foldl (fun sc s => sc.sector punch (obs i s))
    (sc.beginFile i)).endFile punch

/-- All files of `preload`, where `obs i s` says whether the file at index `i` has an extent
for sector `s`. -/
def all (punch : Bool) (obs : ℕ → ℕ → Bool) (d : DiffDisk) : Scan :=
  (List.range d.target).foldl (fun sc k => sc.file punch obs (k + 1)) (start d)

/-- A step of a scan that runs beside the volume : the next sector, or the end of the file
and the start of the next one. -/
def next (sc : Scan) (punch seen : Bool) : Scan :=
  if sc.s < sc.d.locationLen then sc.sector punch seen
  else (sc.endFile punch).beginFile (sc.i + 1)

end Scan

namespace Volume

/-- `preload` of the volume's own table. -/
def preload (v : Volume) : Volume :=
  let sc := Scan.all v.shouldPunchHoles v.hasExtent v.toDiffDisk
  { v with toDiffDisk := sc.d, holeCreatorChan := v.holeCreatorChan ++ sc.sent }

/-- The sectors that `findExtents` sends for the file at index `i`. A backing file has the
descriptor `0`. -/
def findExtents (v : Volume) (backing : Bool) (i s : ℕ) : Bool :=
  v.hasExtent i s && !(backing && i == 1)

/-- `preload`, for a chain that may have a backing file. -/
def preloadFiles (v : Volume) (backing : Bool) : Volume :=
  let sc := Scan.all v.shouldPunchHoles (v.findExtents backing) v.toDiffDisk
  { v with toDiffDisk := sc.d, holeCreatorChan := v.holeCreatorChan ++ sc.sent }

/-- What `construct` makes of the files of a chain, whose disks have the given flags : an
empty table, the flags and the latest user-created index. -/
def openLiveChain (v : Volume) (flags : List Bool) : Volume :=
  { v with
    location := fun _ => 0
    usedLogicalBlocks := 0
    usedBlocks := v.files.length + 1
    userCreatedSnap := flags
    snapIndx := DiffDisk.lastUserCreated flags 0 }

/-! ## The LUN map -/

/-- The diff-disk `UpdateLUNMap` copies in its first critical section. -/
def copyForLUNMap (v : Volume) : DiffDisk :=
  { v.toDiffDisk with location := fun _ => 0, usedBlocks := 0, usedLogicalBlocks := 0 }

/-- The variables of the merge loop. -/
structure MergeState where
  location : ℕ → ℕ
  run : HoleRun
  extraUsedBlocks : ℤ
  extraLogicalBlocks : ℤ
  sent : List Hole

/-- Send off the pending run of the merge loop. -/
def MergeState.flush (st : MergeState) (snapIndx : ℕ) (punch : Bool) : MergeState :=
  let holes := st.run.holes snapIndx punch
  { st with
    extraUsedBlocks := st.extraUsedBlocks - if holes = [] then 0 else st.run.length
    sent := st.sent ++ holes }

/-- One pass of the merge loop, for the table entry `fileIndx` of the copy at sector `s`. -/
def MergeState.sector (d : DiffDisk) (snapIndx : ℕ) (punch : Bool) (st : MergeState) (s : ℕ) :
    MergeState :=
  let fileIndx := d.location s
  if fileIndx = 0 then
    if st.location s ≠ 0 then
      { st with
        extraUsedBlocks := st.extraUsedBlocks + 1
        extraLogicalBlocks := st.extraLogicalBlocks + 1 }
    else st
  else if fileIndx < st.location s then
    let st' : MergeState :=
      if st.run.fileIndx ≠ fileIndx ∨ s ≠ st.run.lOffset + st.run.length then
        { st.flush snapIndx punch with run := ⟨d.file fileIndx, fileIndx, 1, s⟩ }
      else { st with run := { st.run with length := st.run.length + 1 } }
    { st' with extraUsedBlocks := st'.extraUsedBlocks + 1 }
  else
    { st.flush snapIndx punch with
      location := Function.update st.location s fileIndx
      run := ⟨0, 0, 0, 0⟩ }

/-- The merge loop of `UpdateLUNMap`, with the last run sent off after it. -/
def mergeLoop (v : Volume) (d : DiffDisk) : MergeState :=
  let snapIndx := u16 (DiffDisk.lastUserCreated d.userCreatedSnap 0)
  ((List.range d.locationLen).foldl
    (MergeState.sector d snapIndx v.shouldPunchHoles) ⟨v.location, ⟨0, 0, 0, 0⟩, 0, 0, []⟩).flush
      snapIndx v.shouldPunchHoles

/-- The second critical section of `UpdateLUNMap` : merge the table of the scanned copy into
the live one. -/
def mergeLUNMap (v : Volume) (d : DiffDisk) : Volume :=
  let st := mergeLoop v d
  { v with
    location := st.location
    usedLogicalBlocks := d.usedLogicalBlocks + st.extraLogicalBlocks
    usedBlocks := d.usedBlocks + st.extraUsedBlocks + (v.files.length - 1) + 2
    holeCreatorChan := v.holeCreatorChan ++ st.sent }

end Volume

end Jiva
