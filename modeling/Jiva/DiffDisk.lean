import Jiva.SparseFile

/-!
# The differencing disk

`DiffDisk` is `diffDisk` of `replica/diff_disk.go` : the open files of the live chain in
grandparent, parent, child order, with the location table that names, sector by sector,
the file that holds the data. Index `0` of `files` is the nil file, the last index is the
active write layer, and a table entry `0` says that the location is not known yet.

A `Volume` is a diff-disk together with what it works on : the inodes of the files, the
channel of holes that wait to be punched (`HoleCreatorChan`), and the process-wide switch
`ShouldPunchHoles`. A file handle is the number of its inode, and `0` is the nil file.

Every call to the device can fail. `Dev` says which calls do : a failed write or read
reports how many bytes it moved, and a failed extent query only its error.
-/

namespace Jiva

/-- `uint16` conversion of an index. -/
def u16 (n : ℕ) : ℕ :=
  n % 65536

theorem u16_of_lt {n : ℕ} (h : n < 65536) : u16 n = n :=
  Nat.mod_eq_of_lt h

/-- `diffDisk` of `replica/diff_disk.go`. Its sector size is always `defaultSectorSize`. -/
structure DiffDisk where
  location : ℕ → ℕ
  locationLen : ℕ
  usedLogicalBlocks : ℤ
  usedBlocks : ℤ
  files : List ℕ
  userCreatedSnap : List Bool
  snapIndx : ℕ

/-- `Hole` of `replica/backup.go` : the arguments of one `fallocate`. -/
structure Hole where
  f : ℕ
  offset : ℕ
  len : ℕ
  deriving DecidableEq, Repr

/-- A diff-disk with the inodes it works on and the globals of the hole creator. -/
structure Volume extends DiffDisk where
  store : ℕ → SparseFile
  holeCreatorChan : List Hole
  shouldPunchHoles : Bool

/-- The calls of one operation that fail. Writes and reads are named by inode and byte
offset, extent queries by inode and sector. -/
structure Dev where
  writeErr : ℕ → ℕ → Option (ℕ × String)
  readErr : ℕ → ℕ → Option (ℕ × String)
  fiemapErr : ℕ → ℕ → Option String

/-- A device on which nothing fails. -/
def Dev.ok : Dev :=
  ⟨fun _ _ => none, fun _ _ => none, fun _ _ => none⟩

/-- `file.ReadAt` : the bytes read, and the error. A read past the end of the file is cut
short and reports `EOF`. -/
def readFile (dev : Dev) (store : ℕ → SparseFile) (f off len : ℕ) :
    List Byte × Option String :=
  match dev.readErr f off with
  | some (n, e) => (bytesFrom (store f).data off (min n len), some e)
  | none =>
    if off + len ≤ (store f).size then (bytesFrom (store f).data off len, none)
    else (bytesFrom (store f).data off (min len ((store f).size - off)), some "EOF")

/-- `file.WriteAt` : the inodes, the bytes written, and the error. -/
def writeFile (dev : Dev) (store : ℕ → SparseFile) (f : ℕ) (buf : List Byte) (off : ℕ) :
    (ℕ → SparseFile) × ℕ × Option String :=
  match dev.writeErr f off with
  | some (n, e) =>
    (Function.update store f ((store f).writeAt (buf.take n) off), min n buf.length, some e)
  | none => (Function.update store f ((store f).writeAt buf off), buf.length, none)

namespace DiffDisk

/-- The inode of the file at index `i`. -/
def file (d : DiffDisk) (i : ℕ) : ℕ :=
  d.files.getD i 0

/-- Index of the active write layer. -/
def target (d : DiffDisk) : ℕ :=
  d.files.length - 1

/-- `location[s] = i`. -/
def setLocation (d : DiffDisk) (s i : ℕ) : DiffDisk :=
  { d with location := Function.update d.location s i }

/-- The latest user-created index of a list of flags, or `cur` if there is none. -/
def lastUserCreated (flags : List Bool) (cur : ℕ) : ℕ :=
  (List.range flags.length).foldl (fun acc i => if flags.getD i false then i else acc) cur

/-- `RemoveIndex` : drop the file at `index`, and move the table entries above it down. -/
def removeIndex (d : DiffDisk) (index : ℕ) : DiffDisk :=
  let flags := d.userCreatedSnap.eraseIdx index
  { d with
    location := fun s =>
      if s < d.locationLen ∧ u16 index ≤ d.location s then d.location s - 1 else d.location s
    files := d.files.eraseIdx index
    userCreatedSnap := flags
    snapIndx := lastUserCreated flags d.snapIndx }

end DiffDisk

namespace Volume

/-- The inode table after a change to inode `f`. -/
def setInode (v : Volume) (f : ℕ) (file : SparseFile) : Volume :=
  { v with store := Function.update v.store f file }

/-- `location[s] = i` on the diff-disk of the volume. -/
def setLocation (v : Volume) (s i : ℕ) : Volume :=
  { v with toDiffDisk := v.toDiffDisk.setLocation s i }

/-- `Fiemap` on one sector of the file at index `i` returns an extent. -/
def hasExtent (v : Volume) (i s : ℕ) : Bool :=
  (v.store (v.file i)).alloc s

/-! ## Reading -/

/-- The loop of `lookup` over the files, from index `i` down. At index `1` the extent is
not queried, because that file may be a base image. -/
def probe (dev : Dev) (v : Volume) (sector : ℕ) : ℕ → Except String ℕ
  | 0 => .ok v.target
  | 1 => .ok 1
  | i + 2 =>
    match dev.fiemapErr (v.file (i + 2)) sector with
    | some e => .error e
    | none => if v.hasExtent (i + 2) sector then .ok (i + 2) else probe dev v sector (i + 1)

/-- `lookup` : the index of the file that holds `sector`, noted in the table when it was
not known. -/
def lookup (dev : Dev) (v : Volume) (sector : ℕ) : Volume × Except String ℕ :=
  if v.locationLen ≤ sector then (v, .ok (u16 v.target))
  else if v.files.length = 2 then (v, .ok 1)
  else if v.location sector = 0 then
    match probe dev v sector v.target with
    | .ok i => (v.setLocation sector (u16 i), .ok (u16 i))
    | .error e => (v, .error e)
  else (v, .ok (v.location sector))

/-- `read` : fill `sectors` sectors of the buffer, from `startSector` of it, out of one
file. -/
def read (dev : Dev) (v : Volume) (target : ℕ) (buf : List Byte)
    (offset startSector sectors : ℕ) : List Byte × ℕ × Option String :=
  let bufStart := startSector * defaultSectorSize
  let bufEnd := sectors * defaultSectorSize
  let r := readFile dev v.store (v.file target) (offset + bufStart) bufEnd
  (splice buf bufStart r.1, r.1.length, r.2)

/-- The variables of the loop of `fullReadAt`. -/
structure ReadState where
  v : Volume
  buf : List Byte
  count : ℕ
  target : ℕ
  readSectors : ℕ

/-- What a read returns : the volume with the entries `lookup` filled in, the buffer, the
byte count and the error. -/
structure ReadResult where
  v : Volume
  buf : List Byte
  n : ℕ
  err : Option String

/-- Read the pending run of sectors, which ends before sector `i` of the request. -/
def readRun (dev : Dev) (offset i : ℕ) (st : ReadState) : List Byte × ℕ × Option String :=
  if st.target = 0 then (st.buf, st.readSectors * defaultSectorSize, none)
  else st.v.read dev st.target st.buf offset (i - st.readSectors) st.readSectors

/-- The loop of `fullReadAt`, with `m` sectors of the request to go, and the read of the
last run after it. -/
def fullReadLoop (dev : Dev) (offset sectors : ℕ) : ℕ → ReadState → ReadResult
  | 0, st =>
    let r := readRun dev offset sectors st
    ⟨st.v, r.1, st.count + r.2.1, r.2.2⟩
  | m + 1, st =>
    let i := sectors - (m + 1)
    match lookup dev st.v (offset / defaultSectorSize + i) with
    | (v, .error e) => ⟨v, st.buf, st.count, some e⟩
    | (v, .ok newTarget) =>
      if newTarget = st.target then
        fullReadLoop dev offset sectors m { st with v := v, readSectors := st.readSectors + 1 }
      else
        let r := readRun dev offset i { st with v := v }
        match r.2.2 with
        | some e => ⟨v, r.1, st.count + r.2.1, some e⟩
        | none => fullReadLoop dev offset sectors m ⟨v, r.1, st.count + r.2.1, newTarget, 1⟩

/-- `fullReadAt` : a read of whole sectors, one file at a time. -/
def fullReadAt (dev : Dev) (v : Volume) (buf : List Byte) (offset : ℕ) : ReadResult :=
  if buf.length % defaultSectorSize ≠ 0 ∨ offset % defaultSectorSize ≠ 0 then
    ⟨v, buf, 0, some s!"Read not a multiple of {defaultSectorSize}"⟩
  else if buf.length = 0 then ⟨v, buf, 0, none⟩
  else
    match lookup dev v (offset / defaultSectorSize) with
    | (v, .error e) => ⟨v, buf, 0, some e⟩
    | (v, .ok target) =>
      let sectors := buf.length / defaultSectorSize
      fullReadLoop dev offset sectors (sectors - 1) ⟨v, buf, 0, target, 1⟩

/-- A buffer of one zeroed sector. -/
def zeroSector : List Byte :=
  List.replicate defaultSectorSize 0

/-- `if err != nil { return 0, err }` after a partial read, for the caller's buffer `buf`. -/
def ReadResult.andThen (r : ReadResult) (buf : List Byte) (next : Volume → ReadResult) :
    ReadResult :=
  match r.err with
  | some e => ⟨r.v, buf, 0, some e⟩
  | none => next r.v

/-- The last sector of an unaligned `ReadAt`, of which `endOffset` bytes are wanted. -/
def readEnd (dev : Dev) (readBuf buf : List Byte) (offset endOffset : ℕ) (v : Volume) :
    ReadResult :=
  if 0 < endOffset then
    let l := v.fullReadAt dev readBuf (offset + buf.length - endOffset)
    l.andThen buf fun v =>
      ⟨v, splice buf (buf.length - endOffset) (l.buf.take endOffset), buf.length, none⟩
  else ⟨v, buf, buf.length, none⟩

/-- An unaligned `ReadAt` after its first sector, of which `startCut` bytes were wanted. -/
def readRest (dev : Dev) (readBuf buf : List Byte) (offset startCut endOffset : ℕ) (v : Volume) :
    ReadResult :=
  if buf.length ≤ startCut then ⟨v, buf, buf.length, none⟩
  else
    let m := v.fullReadAt dev ((buf.drop startCut).take (buf.length - endOffset - startCut))
      (offset + startCut)
    m.andThen (splice buf startCut m.buf)
      (readEnd dev readBuf (splice buf startCut m.buf) offset endOffset)

/-- `ReadAt` : the first and last sector of an unaligned request are read whole and copied
in part. -/
def readAt (dev : Dev) (v : Volume) (buf : List Byte) (offset : ℕ) : ReadResult :=
  let startOffset := offset % defaultSectorSize
  let startCut := defaultSectorSize - startOffset
  let endOffset := (buf.length + offset) % defaultSectorSize
  if buf.length = 0 then ⟨v, buf, 0, none⟩
  else if startOffset = 0 ∧ endOffset = 0 then v.fullReadAt dev buf offset
  else
    let r := v.fullReadAt dev zeroSector (offset - startOffset)
    r.andThen buf (readRest dev r.buf (splice buf 0 ((r.buf.drop startOffset).take buf.length))
      offset startCut endOffset)

/-! ## Writing -/

/-- `sendToCreateHole`. -/
def sendToCreateHole (v : Volume) (f offset len : ℕ) : Volume :=
  { v with holeCreatorChan := v.holeCreatorChan ++ [⟨f, offset, len⟩] }

/-- The variables of the loop of `fullWriteAt`. The pending run is `length` sectors from
`lOffset`, all of them in `file`, at index `fileIndx`. -/
structure MarkState where
  v : Volume
  length : ℕ
  lOffset : ℕ
  file : ℕ
  fileIndx : ℕ

/-- Send the pending run to the hole creator as a hole in `holeFile`, if the file of the
run is above the latest user-created snapshot. -/
def MarkState.punchRun (st : MarkState) (holeFile : ℕ) : Volume :=
  if st.file ≠ 0 ∧ st.v.snapIndx < st.fileIndx ∧ st.v.shouldPunchHoles then
    { st.v with usedBlocks := st.v.usedBlocks - st.length }.sendToCreateHole holeFile
      (st.lOffset * defaultSectorSize) (st.length * defaultSectorSize)
  else st.v

/-- A sector held by another file : extend the pending run, or send it off and start a new
one. The run that is sent off inside the loop is sent as a hole in `files[val]`, the file
of the sector at hand. -/
def MarkState.overwrite (st : MarkState) (s val : ℕ) : MarkState :=
  let st' : MarkState :=
    if val ≠ st.fileIndx ∨ s ≠ st.lOffset + st.length then
      ⟨st.punchRun (st.v.file val), 1, s, st.v.file val, val⟩
    else { st with length := st.length + 1 }
  { st' with v := { st'.v with usedBlocks := st'.v.usedBlocks + 1 } }

/-- One pass of the loop of `fullWriteAt`, for sector `s`. -/
def markSector (target : ℕ) (st : MarkState) (s : ℕ) : MarkState :=
  let val := st.v.location s
  let st' : MarkState :=
    if val = 0 then
      { st with v := { st.v with
          usedLogicalBlocks := st.v.usedLogicalBlocks + 1
          usedBlocks := st.v.usedBlocks + 1 } }
    else if val ≠ u16 target then st.overwrite s val
    else st
  { st' with v := st'.v.setLocation s (u16 target) }

/-- The loop of `fullWriteAt` over `sectors` sectors from `startSector`. -/
def markLoop (v : Volume) (startSector sectors : ℕ) : MarkState :=
  (List.range sectors).foldl (fun st i => markSector v.target st (startSector + i))
    ⟨v, 0, 0, 0, 0⟩

/-- What a write returns : the volume, the byte count and the error. -/
structure WriteResult where
  v : Volume
  n : ℕ
  err : Option String

/-- `fullWriteAt` : a write of whole sectors to the active layer. The sectors are marked
as written whether or not the write failed. -/
def fullWriteAt (dev : Dev) (v : Volume) (buf : List Byte) (offset : ℕ) : WriteResult :=
  if buf.length % defaultSectorSize ≠ 0 ∨ offset % defaultSectorSize ≠ 0 then
    ⟨v, 0, some (s!"Write len({buf.length}), offset {offset} " ++
      s!"not a multiple of {defaultSectorSize}")⟩
  else
    let w := writeFile dev v.store (v.file v.target) buf offset
    let st := markLoop { v with store := w.1 } (offset / defaultSectorSize)
      (buf.length / defaultSectorSize)
    ⟨st.punchRun st.file, w.2.1, w.2.2⟩

/-- `readModifyWrite` : a write inside one sector. -/
def readModifyWrite (dev : Dev) (v : Volume) (buf : List Byte) (offset : ℕ) : WriteResult :=
  if buf.length = 0 then ⟨v, 0, none⟩
  else
    let readOffset := offset / defaultSectorSize * defaultSectorSize
    let r := v.fullReadAt dev zeroSector readOffset
    match r.err with
    | some e => ⟨r.v, 0, some e⟩
    | none => r.v.fullWriteAt dev (splice r.buf (offset % defaultSectorSize) buf) readOffset

/-- `if err != nil { return 0, err }` after a partial write. -/
def WriteResult.andThen (w : WriteResult) (next : Volume → WriteResult) : WriteResult :=
  match w.err with
  | some e => ⟨w.v, 0, some e⟩
  | none => next w.v

/-- `WriteAt` : the unaligned first and last sector are read, modified and written, and
the sectors between them are written whole. -/
def writeAt (dev : Dev) (v : Volume) (buf : List Byte) (offset : ℕ) : WriteResult :=
  let startOffset := offset % defaultSectorSize
  let startCut := defaultSectorSize - startOffset
  let endOffset := (buf.length + offset) % defaultSectorSize
  if buf.length = 0 then ⟨v, 0, none⟩
  else if startOffset = 0 ∧ endOffset = 0 then v.fullWriteAt dev buf offset
  else if buf.length ≤ startCut then v.readModifyWrite dev buf offset
  else
    (v.readModifyWrite dev (buf.take startCut) offset).andThen fun v =>
      (v.fullWriteAt dev ((buf.drop startCut).take (buf.length - endOffset - startCut))
        (offset + startCut)).andThen fun v =>
          (v.readModifyWrite dev (buf.drop (buf.length - endOffset))
            (offset + buf.length - endOffset)).andThen fun v => ⟨v, buf.length, none⟩

/-! ## Discarding -/

/-- `fallocate` of a hole in one inode. Linux rejects an empty range. -/
def fallocatePunch (v : Volume) (f offset len : ℕ) : Except String Volume :=
  if len = 0 then .error "invalid argument"
  else .ok (v.setInode f ((v.store f).punchHole offset len))

/-- The loop of `Unmap` over the files of the given indices. -/
def unmapLoop (offset len : ℕ) : List ℕ → Volume → Volume × Option String
  | [], v => (v, none)
  | i :: is, v =>
    if i ≤ v.snapIndx ∨ v.file i = 0 then unmapLoop offset len is v
    else
      match v.fallocatePunch (v.file i) offset len with
      | .error e => (v, some e)
      | .ok v => unmapLoop offset len is v

/-- `Unmap` : punch the range out of every file above the latest user-created snapshot.
The location table is left as it is. -/
def unmap (v : Volume) (offset len : ℕ) : Volume × ℤ × Option String :=
  match unmapLoop offset len (List.range v.files.length) v with
  | (v, some e) => (v, -1, some e)
  | (v, none) => (v, 0, none)

/-! ## A new active layer -/

/-- What `createNewHead` and `createDisk` do to the volume : an empty file of the size of the
volume becomes the active layer, and the flag of the snapshot is appended to
`UserCreatedSnap`. -/
def appendHead (v : Volume) (f : ℕ) (userCreated : Bool) : Volume :=
  let files := v.files ++ [f]
  { v with
    store := Function.update v.store f (SparseFile.empty (v.locationLen * defaultSectorSize))
    usedBlocks := v.usedBlocks + 1
    files := files
    snapIndx := if userCreated then files.length - 2 else v.snapIndx
    userCreatedSnap := v.userCreatedSnap ++ [userCreated] }

/-- The volume of a new replica : one empty file of `sectors` sectors. -/
def new (sectors f : ℕ) : Volume where
  location _ := 0
  locationLen := sectors
  usedLogicalBlocks := 0
  usedBlocks := 1
  files := [0, f]
  userCreatedSnap := [false, false]
  snapIndx := 0
  store _ := SparseFile.empty (sectors * defaultSectorSize)
  holeCreatorChan := []
  shouldPunchHoles := true

end Volume

end Jiva
