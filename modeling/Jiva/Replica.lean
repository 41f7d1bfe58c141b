import Jiva.Faults
import Jiva.Preload

/-!
# The directory of a replica and the operations on its chain

`Dir` is the directory of a replica : image files, which are names linked to inodes, one
metadata file for each disk, and `volume.meta`. A metadata file is only ever replaced as a
whole, by renaming a temporary file over it, so a name is mapped to its content and linking
copies it. Temporary files are never read and are left out.

`Replica` is the open replica of `replica/replica.go`. The entries of `activeDiskData` are the
records of `diskData`, so the names are kept, and the nil entry at index `0` is left out.

Every call to the file system has a `Site`. The operations are computations in `Faults.Act`,
so that every call can fail and the process can stop after every call. A panic on a nil
pointer and `logrus.Fatalf` stop the process.
-/

namespace Jiva

open Faults Function

/-- The file name of a disk : `volume-head-%03d.img` or `volume-snap-%s.img`, or the path of a
backing file. -/
inductive DiskName
  | head (n : ℕ)
  | snap (name : String)
  | file (path : String)
  deriving DecidableEq, Repr

/-- The name as a text. -/
def DiskName.text : DiskName → String
  | .head n => "volume-head-" ++ "".pushn '0' (3 - (toString n).length) ++ toString n ++ ".img"
  | .snap name => "volume-snap-" ++ name ++ ".img"
  | .file path => path

/-- `disk` : the metadata of one disk. No parent is the empty name. -/
structure Disk where
  name : DiskName
  parent : Option DiskName
  removed : Bool
  userCreated : Bool
  created : String
  revisionCounter : ℤ
  deriving DecidableEq, Repr

/-- `Info` : the content of `volume.meta`, as far as the operations on the chain read it. No
checkpoint is the empty name. -/
structure Info where
  size : ℕ
  head : Option DiskName
  dirty : Bool
  rebuilding : Bool
  parent : Option DiskName
  sectorSize : ℕ
  cloneStatus : String
  checkpoint : Option DiskName
  revisionCounter : ℤ
  deriving DecidableEq, Repr

/-- `types.Mode` of a replica. -/
inductive Mode
  | init
  | rw
  | wo
  | closed
  deriving DecidableEq, Repr

/-- The mode as a text. -/
def Mode.text : Mode → String
  | .init => "INIT"
  | .rw => "RW"
  | .wo => "WO"
  | .closed => "CLOSED"

/-- The directory of a replica. `diskMeta` and `volumeMeta` are what the metadata files say. Where
they say nothing, `torn` tells whether there is a file all the same, which can not be decoded ; the
one of `none` is `volume.meta`. `revisionCounter` is the content of `revision.counter`, and inodes
from `nextIno` on are unused. -/
structure Dir where
  img : DiskName → Option ℕ
  diskMeta : DiskName → Option Disk
  volumeMeta : Option Info
  torn : Option DiskName → Bool
  revisionCounter : ℤ
  store : ℕ → SparseFile
  nextIno : ℕ

/-- The metadata file of a disk, if there is one, and what it says. -/
def Dir.metaFile (dir : Dir) (n : DiskName) : Option (Option Disk) :=
  match dir.diskMeta n with
  | some d => some (some d)
  | none => if dir.torn (some n) then some none else none

/-- `Replica`. -/
structure Replica where
  dir : Dir
  volume : DiffDisk
  info : Info
  diskData : DiskName → Option Disk
  diskChildrenMap : Option DiskName → List DiskName
  activeDiskData : List DiskName
  readOnly : Bool
  mode : Mode
  maxChainLen : ℕ

/-! ## Sites -/

/-- A disk has an image and a metadata file, and changes to them are followed by `SyncDir`. -/
inductive Part
  | img
  | diskMeta
  | sync
  deriving DecidableEq, Repr

/-- The calls of `encodeToFile` whose errors are returned. Closing the temporary file counts as
opening it. -/
inductive EncodePart
  | openTmp
  | rename
  | sync
  deriving DecidableEq, Repr

/-- What a removal of a disk is for. -/
inductive Rm
  | staleHead
  | newHead
  | newSnap
  | oldHead
  | disk
  deriving DecidableEq, Repr

/-- What is encoded. -/
inductive Enc
  | newHead
  | newSnap
  | volume
  | oldVolume
  | child
  | parent
  | reread (n : DiskName)
  | reopened
  | removed
  | resized
  | rebuilding
  | checkpoint
  | cloneStatus
  | closed
  deriving DecidableEq, Repr

/-- What is looked up. -/
inductive Stat
  | staleHead
  | diskSize
  | snapImg
  | snapMeta
  | revertTo
  | removedImg
  | removedMeta
  deriving DecidableEq, Repr

/-- The calls of the operations. `encoder` is `Encode`, whose error `encodeToFile` overlooks. -/
inductive Site
  | syncDir
  | stat (q : Stat)
  | openFile
  | openChain (n : DiskName)
  | truncate
  | resize (n : DiskName)
  | link (p : Part)
  | rm (w : Rm) (p : Part)
  | encode (w : Enc) (p : EncodePart)
  | encoder (w : Enc)
  deriving DecidableEq, Repr

/-- A computation on a replica. -/
abbrev ReplicaAct (ε α : Type) : Type :=
  Act Replica Site ε α

/-- The error of a call that failed. -/
def ioError : String :=
  "input/output error"

/-- `truncate` of a file to `size` bytes. -/
def SparseFile.truncate (f : SparseFile) (size : ℕ) : SparseFile where
  size := size
  alloc s := f.alloc s && decide (s * defaultSectorSize < size)
  data b := if b < size then f.data b else 0
  hole_zero b h := by
    split_ifs with hb
    · rcases Bool.and_eq_false_iff.1 h with h | h
      · exact f.hole_zero b h
      · rw [decide_eq_false_iff_not, defaultSectorSize_eq] at h
        omega
    · rfl

theorem SparseFile.truncate_truncate (f : SparseFile) (size : ℕ) :
    (f.truncate size).truncate size = f.truncate size := by
  have halloc : ∀ s, ((f.alloc s && decide (s * defaultSectorSize < size)) &&
      decide (s * defaultSectorSize < size)) =
        (f.alloc s && decide (s * defaultSectorSize < size)) :=
    fun s => by rw [Bool.and_assoc, Bool.and_self]
  have hdata : ∀ b, (if b < size then if b < size then f.data b else 0 else 0) =
      if b < size then f.data b else 0 := fun b => by split_ifs <;> rfl
  simp only [SparseFile.truncate, halloc, hdata]

namespace Replica

/-! ## The directory -/

def setImg (n : DiskName) (i : Option ℕ) (r : Replica) : Replica :=
  { r with dir := { r.dir with img := update r.dir.img n i } }

def setMeta (n : DiskName) (d : Option Disk) (r : Replica) : Replica :=
  { r with dir := { r.dir with diskMeta := update r.dir.diskMeta n d } }

/-- The metadata file of the disk is removed. -/
def clearMeta (n : DiskName) (r : Replica) : Replica :=
  { r with dir := { r.dir with
      diskMeta := update r.dir.diskMeta n none
      torn := update r.dir.torn (some n) false } }

/-- The metadata file is replaced by one that is cut short. -/
def tear (file : Option DiskName) (r : Replica) : Replica :=
  { r with dir := { r.dir with
      diskMeta := file.elim r.dir.diskMeta fun n => update r.dir.diskMeta n none
      volumeMeta := file.elim none fun _ => r.dir.volumeMeta
      torn := update r.dir.torn file true } }

/-- The disk gets a metadata file that says `d`. -/
def putMeta (n : DiskName) : Option Disk → Replica → Replica
  | some d => setMeta n (some d)
  | none => tear (some n)

def setVolumeMeta (info : Info) (r : Replica) : Replica :=
  { r with dir := { r.dir with volumeMeta := some info } }

def setInode (f : ℕ) (file : SparseFile) (r : Replica) : Replica :=
  { r with dir := { r.dir with store := update r.dir.store f file } }

/-- Create the image of `n` if there is none. -/
def createImg (n : DiskName) (r : Replica) : Replica :=
  match r.dir.img n with
  | some _ => r
  | none => { r with dir := { r.dir with
      img := update r.dir.img n (some r.dir.nextIno)
      store := update r.dir.store r.dir.nextIno (SparseFile.empty 0)
      nextIno := r.dir.nextIno + 1 } }

/-- The inode of an image. -/
def ino (r : Replica) (n : DiskName) : ℕ :=
  (r.dir.img n).getD 0

/-- `openFile` with `O_TRUNC`. -/
def openTrunc (n : DiskName) (r : Replica) : Replica :=
  let r := r.createImg n
  r.setInode (r.ino n) (SparseFile.empty 0)

/-- `truncate` of the inode `f`. -/
def truncate (f size : ℕ) (r : Replica) : Replica :=
  r.setInode f ((r.dir.store f).truncate size)

/-- `getDiskSize` : the allocated bytes of an image, `-1` if there is none. -/
def getDiskSize (r : Replica) (n : DiskName) : ℤ :=
  match r.dir.img n with
  | none => -1
  | some i =>
    let f := r.dir.store i
    ((List.range (f.size / defaultSectorSize + 1)).countP f.alloc * defaultSectorSize : ℕ)

/-- `GetRevisionCounter`. -/
def getRevisionCounter (r : Replica) : ℤ :=
  r.dir.revisionCounter

/-- The volume of the replica, on the inodes of its directory. -/
def vol (r : Replica) : Volume :=
  { toDiffDisk := r.volume, store := r.dir.store, holeCreatorChan := [], shouldPunchHoles := true }

/-! ## Records of disks -/

def setDisk (n : DiskName) (d : Option Disk) (r : Replica) : Replica :=
  { r with diskData := update r.diskData n d }

def addChildDisk (parent : Option DiskName) (child : DiskName) (r : Replica) : Replica :=
  { r with diskChildrenMap :=
      update r.diskChildrenMap parent ((r.diskChildrenMap parent).insert child) }

def rmChildDisk (parent : Option DiskName) (child : DiskName) (r : Replica) : Replica :=
  { r with diskChildrenMap :=
      update r.diskChildrenMap parent ((r.diskChildrenMap parent).filter (· ≠ child)) }

def updateChildDisk (oldName : DiskName) (newName : Option DiskName) (r : Replica) : Replica :=
  let parent := (r.diskData oldName).bind Disk.parent
  let r := r.rmChildDisk parent oldName
  match newName with
  | none => r
  | some n => r.addChildDisk parent n

/-! ## Files -/

/-- `encodeToFile` : a temporary file is written and renamed over the file, which is what
`replace` does. The error of `Encode` is not looked at : `err` is tested in place of `lastErr`. -/
def encodeToFile (w : Enc) (file : Option DiskName) (replace : Replica → Replica) :
    ReplicaAct String Unit := do
  let r ← Act.get
  if r.readOnly then pure ()
  else do
    Act.call (.encode w .openTmp) ioError id
    let whole ← Act.query (.encoder w) false fun _ => true
    Act.call (.encode w .rename) ioError (if whole then replace else tear file)
    Act.call (.encode w .sync) ioError id

/-- `encodeToFile` of the metadata of a disk. -/
def encodeDisk (w : Enc) (n : DiskName) (d : Disk) : ReplicaAct String Unit :=
  encodeToFile w (some n) (setMeta n (some d))

/-- `encodeToFile` of `volume.meta`. -/
def encodeInfo (w : Enc) (info : Info) : ReplicaAct String Unit :=
  encodeToFile w none (setVolumeMeta info)

/-- `rmDisk`. A file that is not there is no error. -/
def rmDisk (w : Rm) : Option DiskName → ReplicaAct String Unit
  | none => pure ()
  | some n => do
    Act.call (.rm w .img) ioError (setImg n none)
    Act.call (.rm w .diskMeta) ioError (clearMeta n)
    Act.call (.rm w .sync) ioError id

/-- `os.Link` of an image. -/
def linkImg (oldname newname : DiskName) : ReplicaAct String Unit := do
  let r ← Act.get
  match r.dir.img oldname, r.dir.img newname with
  | none, _ => Act.throw "no such file or directory"
  | some _, some _ => Act.throw "file exists"
  | some i, none => Act.call (.link .img) ioError (setImg newname (some i))

/-- `os.Link` of a metadata file. -/
def linkMeta (oldname newname : DiskName) : ReplicaAct String Unit := do
  let r ← Act.get
  match r.dir.metaFile oldname, r.dir.metaFile newname with
  | none, _ => Act.throw "no such file or directory"
  | some _, some _ => Act.throw "file exists"
  | some d, none => Act.call (.link .diskMeta) ioError (putMeta newname d)

/-- `linkDisk`. There is a new name whenever there is an old one. -/
def linkDisk : Option DiskName → Option DiskName → ReplicaAct String Unit
  | some oldname, some newname => do
    let taken ← Act.query (.stat .snapImg) false fun r => (r.dir.img newname).isSome
    if taken then Act.throw ("Old file :" ++ newname.text ++ " already exists")
    else do
      let taken ← Act.query (.stat .snapMeta) false fun r => (r.dir.metaFile newname).isSome
      if taken then Act.throw ("Old file :" ++ newname.text ++ ".meta already exists")
      else do
        linkImg oldname newname
        linkMeta oldname newname
        Act.call (.link .sync) ioError id
  | _, _ => pure ()

/-! ## A new head -/

/-- `nextFile` for heads. -/
def nextFile : Option DiskName → Except String DiskName
  | none => .ok (.head 0)
  | some (.head n) => .ok (.head (n + 1))
  | some (.snap name) => .error ("Invalid name " ++ (DiskName.snap name).text ++
      " does not match pattern: volume-head-(\\d+).img")
  | some (.file path) => .error ("Invalid name " ++ path ++
      " does not match pattern: volume-head-(\\d+).img")

/-- An empty leftover of the new head is removed, and one with data is an error. -/
def rmStaleHead (n : DiskName) : ReplicaAct String Unit := do
  let found ← Act.query (.stat .staleHead) false fun r => (r.dir.img n).isSome
  if found then do
    let size ← Act.query (.stat .diskSize) (-1) fun r => r.getDiskSize n
    if 0 < size then
      Act.throw ("Can't remove head file " ++ n.text ++ " as it contains some data")
    else
      (rmDisk .staleHead (some n)).handle fun e =>
        Act.throw ("Failed to remove disk, err: " ++ e)
  else pure ()

/-- The image of the new head : `openFile`, then `truncate` to the size of the volume. -/
def openHead (n : DiskName) : ReplicaAct String ℕ := do
  Act.call .openFile ioError (openTrunc n)
  let r ← Act.get
  Act.call .truncate ioError (truncate (r.ino n) r.info.size)
  pure (r.ino n)

/-- `createNewHead`. An error comes with the name of the disk that is returned, which is empty
unless the metadata could not be encoded. -/
def createNewHead (oldHead parent : Option DiskName) (created : String) :
    ReplicaAct (Option DiskName × String) (ℕ × Disk) :=
  match nextFile oldHead with
  | .error e => Act.throw (none, e)
  | .ok newHeadName => do
    (rmStaleHead newHeadName).handle fun e => Act.throw (none, e)
    let f ← (openHead newHeadName).handle fun e => Act.throw (none, e)
    let r ← Act.get
    let newDisk : Disk := ⟨newHeadName, parent, false, false, created, r.getRevisionCounter⟩
    (encodeDisk .newHead newHeadName newDisk).handle fun e => Act.throw (some newHeadName, e)
    pure (f, newDisk)

/-! ## Snapshots -/

/-- The record of the old head becomes that of the snapshot. It is one record, which stays
at the old name until that is deleted. -/
def renameDisk (oldHead newSnapName : DiskName) (d : Disk) (r : Replica) : Replica :=
  { r with
    diskData := update (update r.diskData oldHead (some d)) newSnapName (some d)
    activeDiskData := r.activeDiskData.dropLast ++ [newSnapName] }

/-- The file `f` of the new head becomes the active layer. -/
def appendHead (f : ℕ) (newHead : DiskName) (userCreated : Bool) (r : Replica) : Replica :=
  let files := r.volume.files ++ [f]
  { r with
    volume := { r.volume with
      files := files
      snapIndx := if userCreated then files.length - 2 else r.volume.snapIndx
      userCreatedSnap := r.volume.userCreatedSnap ++ [userCreated] }
    activeDiskData := r.activeDiskData ++ [newHead] }

/-- The part of `createDisk` that turns the old head into the snapshot. -/
def recordSnap (oldHead newSnapName newHead : DiskName) (userCreated : Bool) (created : String) :
    ReplicaAct String Unit := do
  Act.modify (addChildDisk (some newSnapName) newHead)
  let r ← Act.get
  match r.diskData oldHead with
  | none => Act.fatal
  | some d => do
    let d := { d with
      name := newSnapName
      userCreated := userCreated
      created := created
      revisionCounter := r.getRevisionCounter }
    Act.modify (renameDisk oldHead newSnapName d)
    encodeDisk .newSnap newSnapName d
    Act.modify fun r =>
      { r with volume := { r.volume with usedBlocks := r.volume.usedBlocks + 1 } }
    Act.modify (updateChildDisk oldHead (some newSnapName))

/-- The record of the old head, if there is one, becomes that of the snapshot. -/
def recordOldHead (newHead : DiskName) (userCreated : Bool) (created : String) :
    Option DiskName → Option DiskName → ReplicaAct String Unit
  | some oldHead, some newSnapName => do
    recordSnap oldHead newSnapName newHead userCreated created
    Act.modify (setDisk oldHead none)
  | _, _ => pure ()

/-- `createDisk` once the new head is there, up to the deferred function. -/
def commitHead (oldHead newSnapName : Option DiskName) (f : ℕ) (newHeadDisk : Disk)
    (userCreated : Bool) (created : String) : ReplicaAct String Unit := do
  linkDisk oldHead newSnapName
  Act.modify (setDisk newHeadDisk.name (some newHeadDisk))
  recordOldHead newHeadDisk.name userCreated created oldHead newSnapName
  Act.modify (appendHead f newHeadDisk.name userCreated)
  let r ← Act.get
  let info := { r.info with
    head := some newHeadDisk.name
    dirty := true
    parent := newSnapName
    revisionCounter := newHeadDisk.revisionCounter }
  encodeInfo .volume info
  Act.modify fun r => { r with info := info }

/-- `createDisk`. -/
def createDisk (name : String) (userCreated : Bool) (created : String) :
    ReplicaAct String Unit := do
  Act.call .syncDir ioError id
  let r ← Act.get
  if r.readOnly then Act.throw "Can not create disk on read-only replica"
  else if r.maxChainLen < r.activeDiskData.length + 2 then
    Act.throw s!"Too many active disks: {r.activeDiskData.length + 2}"
  else do
    let oldHead := r.info.head
    let newSnapName := oldHead.map fun _ => DiskName.snap name
    let h ← (createNewHead oldHead newSnapName created).handle fun e => do
      (rmDisk .newHead e.1).attempt
      Act.throw e.2
    (commitHead oldHead newSnapName h.1 h.2 userCreated created).onError do
      (rmDisk .newHead (some h.2.name)).attempt
      (rmDisk .newSnap newSnapName).attempt
    (rmDisk .oldHead oldHead).attempt

/-! ## Opening -/

/-- `readDiskData` : a record whose counter was never set gets the present one. -/
def readDiskData (n : DiskName) (d : Disk) : ReplicaAct String Unit := do
  let r ← Act.get
  let stale := d.revisionCounter ≤ 1
  let data := { d with
    name := n
    revisionCounter := if stale then r.getRevisionCounter else d.revisionCounter }
  Act.modify (setDisk n (some data))
  (if stale then encodeDisk (.reread n) n data else pure () : ReplicaAct String Unit)
  match d.parent with
  | none => pure ()
  | some p => Act.modify (addChildDisk (some p) n)

/-- The loop of `readMetadata` over the metadata of the chain, from the head. -/
def readChain : ℕ → DiskName → ReplicaAct String Unit
  | 0, _ => Act.throw "out of fuel"
  | fuel + 1, n => do
    let r ← Act.get
    match r.dir.diskMeta n with
    | none => if r.dir.torn (some n) then Act.throw "unexpected EOF" else pure ()
    | some d => do
      readDiskData n d
      match d.parent with
      | none => pure ()
      | some p => readChain fuel p

/-- `readMetadata` : whether there is a disk. -/
def readMetadata (fuel : ℕ) : ReplicaAct String Bool := do
  let r ← Act.get
  match r.dir.volumeMeta with
  | none => if r.dir.torn none then Act.throw "unexpected EOF" else pure false
  | some info => do
    Act.modify fun r => { r with info := info }
    match info.head with
    | none => Act.throw "r.info.Head is nil"
    | some h => do
      readChain fuel h
      pure (r.dir.diskMeta h).isSome

/-- `Chain` : the disks from `n` down to the base. -/
def chain (diskData : DiskName → Option Disk) : ℕ → DiskName → Except String (List DiskName)
  | 0, _ => .error "out of fuel"
  | fuel + 1, n =>
    match diskData n with
    | none => .error ("Failed to find metadata for " ++ n.text)
    | some d =>
      match d.parent with
      | none => .ok [n]
      | some p =>
        match chain diskData fuel p with
        | .ok ns => .ok (n :: ns)
        | .error e => .error e

/-- `Chain` of the open replica. -/
def liveChain (r : Replica) (fuel : ℕ) : Except String (List DiskName) :=
  match r.info.head with
  | none => .ok []
  | some h => chain r.diskData fuel h

/-- Open the images of the chain. An image that is missing is created. -/
def openImgs : List DiskName → ReplicaAct String Unit
  | [] => pure ()
  | n :: ns => do
    Act.call (.openChain n) ioError (createImg n)
    openImgs ns

/-- Whether a disk is user-created. -/
def isUserCreated (r : Replica) (n : DiskName) : Bool :=
  ((r.diskData n).map Disk.userCreated).getD false

/-- The volume of the opened images, from the base up. -/
def assemble (ns : List DiskName) (r : Replica) : Replica :=
  let r := { r with volume := { r.volume with files := 0 :: ns.map r.ino } }
  { r with
    volume := (r.vol.openLiveChain (false :: ns.map r.isUserCreated)).toDiffDisk
    activeDiskData := ns }

/-- `openLiveChain`. -/
def openLiveChain (fuel : ℕ) : ReplicaAct String Unit := do
  let r ← Act.get
  match r.info.head with
  | none => pure ()
  | some h =>
    match chain r.diskData fuel h with
    | .error e => Act.throw e
    | .ok ns =>
      if r.maxChainLen < ns.length then Act.throw s!"Live chain is too long: {ns.length}"
      else do
        openImgs ns.reverse
        Act.modify (assemble ns.reverse)

/-- The replica `construct` starts from. -/
def blank (size sectorSize : ℕ) (r : Replica) : Replica :=
  { r with
    volume := ⟨fun _ => 0, 0, 0, 1, [0], [false], 0⟩
    info := ⟨size, none, false, false, none, sectorSize, "", none, 0⟩
    diskData := fun _ => none
    diskChildrenMap := fun _ => []
    activeDiskData := []
    readOnly := false
    mode := .init }

/-- The table of the size of the volume. -/
def allocLocation (size : ℕ) (r : Replica) : Replica :=
  { r with volume := { r.volume with
      locationLen := r.info.size / defaultSectorSize +
        if size % defaultSectorSize = 0 then 0 else 1 } }

/-- `BackingFile` : the name and the descriptor of a file below the chain. -/
structure BackingFile where
  path : String
  disk : ℕ
  deriving DecidableEq, Repr

/-- `insertBackingFile`. The record is that of a disk without a parent. -/
def insertBackingFile (backing : Option BackingFile) (r : Replica) : Replica :=
  match backing with
  | none => r
  | some b => { r with
      activeDiskData := .file b.path :: r.activeDiskData
      volume := { r.volume with
        files := 0 :: b.disk :: r.volume.files.tail
        userCreatedSnap := false :: false :: r.volume.userCreatedSnap.tail }
      diskData := update r.diskData (.file b.path)
        (some ⟨.file b.path, none, false, false, "", 0⟩) }

/-- The scan of the extents. `findExtents` reports nothing for a backing file. -/
def preloadLunMap (backing : Option BackingFile) (r : Replica) : Replica :=
  { r with volume := (r.vol.preloadFiles backing.isSome).toDiffDisk }

/-- `construct`, with a backing file or without one. `fuel` bounds the walks along the chain. -/
def constructWith (backing : Option BackingFile) (preload : Bool) (size sectorSize fuel : ℕ)
    (created : String) : ReplicaAct String Unit :=
  if size % sectorSize ≠ 0 then
    Act.throw s!"Size {size} not a multiple of sector size {sectorSize}"
  else do
    Act.modify (blank size sectorSize)
    let found ← readMetadata fuel
    Act.modify (allocLocation size)
    (if found then openLiveChain fuel
      else if size = 0 then Act.throw "file does not exist"
      else createDisk "000" false created : ReplicaAct String Unit)
    Act.modify fun r => { r with info := { r.info with
      parent := (r.info.head.bind r.diskData).bind Disk.parent } }
    Act.modify (insertBackingFile backing)
    (if preload then Act.modify (preloadLunMap backing) else pure () : ReplicaAct String Unit)
    let r ← Act.get
    encodeInfo .reopened { r.info with dirty := true }

/-- `construct`. -/
def construct (preload : Bool) (size sectorSize fuel : ℕ) (created : String) :
    ReplicaAct String Unit :=
  constructWith none preload size sectorSize fuel created

/-- `Reload`. If it fails, the replica stays as it was. -/
def reloadWith (backing : Option BackingFile) (preload : Bool) (fuel : ℕ) (created : String) :
    ReplicaAct String Unit := do
  let old ← Act.get
  (constructWith backing preload old.info.size old.info.sectorSize fuel created).onError
    (Act.modify fun r => { old with dir := r.dir })
  Act.modify fun r => { r with
    mode := old.mode
    info := { r.info with dirty := old.info.dirty } }

/-! ## Reverting -/

/-- `revertDisk`. -/
def revertDiskWith (backing : Option BackingFile) (parent : DiskName)
    (created : String) (fuel : ℕ) : ReplicaAct String Unit := do
  let found ← Act.query (.stat .revertTo) false fun r => (r.dir.img parent).isSome
  if found then do
    let r ← Act.get
    let oldHead := r.info.head
    let h ← (createNewHead oldHead (some parent) created).handle fun e => Act.throw e.2
    let info := { r.info with
      head := some h.2.name
      dirty := true
      parent := h.2.parent }
    (encodeInfo .volume info).onError (encodeInfo .oldVolume r.info).attempt
    rmDisk .oldHead oldHead
    reloadWith backing true fuel created
  else Act.throw "no such file or directory"

/-! ## Removing a disk -/

/-- `updateParentDisk` for a removed parent. -/
def updateParentDisk (name oldParent : DiskName) : ReplicaAct String Unit := do
  let r ← Act.get
  match r.diskData name, r.diskData oldParent with
  | some child, some old => do
    let child := { child with parent := old.parent }
    Act.modify (setDisk name (some child))
    encodeDisk .child child.name child
  | _, _ => Act.fatal

/-- `updateParentRevisionCounter`. -/
def updateParentRevisionCounter (name : DiskName) : ReplicaAct String Unit := do
  let r ← Act.get
  match r.diskData name with
  | none => Act.fatal
  | some d =>
    match d.parent with
    | none => pure ()
    | some parentName =>
      match r.diskData parentName with
      | none => Act.fatal
      | some parent => do
        let parent := { parent with revisionCounter := d.revisionCounter }
        Act.modify (setDisk parentName (some parent))
        encodeDisk .parent parent.name parent

/-- Take the disk at place `i` of the live chain out of the volume. In the files of the volume,
the nil file comes first. -/
def removeActive (i : ℕ) (r : Replica) : Replica :=
  { r with
    volume := r.volume.removeIndex (i + 1)
    info := if r.activeDiskData.length = i + 2 then
        { r.info with parent := (r.info.head.bind r.diskData).bind Disk.parent }
      else r.info
    activeDiskData := r.activeDiskData.eraseIdx i }

/-- `removeDiskNode`. -/
def removeDiskNode (name : DiskName) : ReplicaAct String Unit := do
  let r ← Act.get
  match r.diskData name with
  | none => pure ()
  | some _ =>
    match r.diskChildrenMap (some name) with
    | [] => do
      Act.modify (updateChildDisk name none)
      Act.modify (setDisk name none)
    | [child] => do
      Act.modify (updateChildDisk name (some child))
      (updateParentDisk child name).handle fun _ => Act.fatal
      (updateParentRevisionCounter name).handle fun _ => Act.fatal
      Act.modify (setDisk name none)
      let i := r.activeDiskData.idxOf name
      if i < r.activeDiskData.length then Act.modify (removeActive i) else pure ()
    | children => Act.throw ("Cannot remove snapshot " ++ name.text ++ " with " ++
        toString children.length ++ " children")

/-- `RemoveDiffDisk`. The waiting holes, which it throws away first, are left out. -/
def removeDiffDisk (name : DiskName) : ReplicaAct String Unit := do
  let r ← Act.get
  if r.mode ≠ .rw then Act.throw ("Can not delete snapshot, replica mode: " ++ r.mode.text)
  else if r.info.head = some name then
    Act.throw "Can not delete the active differencing disk"
  else if r.info.parent = some name then
    Act.throw ("Can't delete latest snapshot: " ++ name.text)
  else do
    removeDiskNode name
    rmDisk .disk (some name)

/-! ## Marking a disk for removal -/

/-- `markDiskAsRemoved`. -/
def markDiskAsRemoved (name : DiskName) : ReplicaAct String Unit := do
  let r ← Act.get
  match r.diskData name with
  | none => Act.throw ("Cannot find disk " ++ name.text)
  | some disk => do
    let found ← Act.query (.stat .removedImg) false fun r => (r.dir.img name).isSome
    if found then do
      let found ← Act.query (.stat .removedMeta) false fun r => (r.dir.metaFile name).isSome
      if found then do
        let disk := { disk with removed := true }
        Act.modify (setDisk name (some disk))
        encodeDisk .removed name disk
      else Act.throw ("Cannot find disk metafile " ++ name.text ++ ".meta")
    else Act.throw ("Cannot find disk file " ++ name.text)

/-- `PrepareRemoveAction`. -/
inductive PrepareRemoveAction
  | coalesce (source : DiskName) (target : Option DiskName)
  | remove (source : DiskName)
  deriving DecidableEq, Repr

/-- `processPrepareRemoveDisks`. -/
def processPrepareRemoveDisks (r : Replica) :
    List DiskName → Except String (List PrepareRemoveAction)
  | [] => .ok []
  | disk :: disks =>
    match r.diskData disk with
    | none => .error ("Wrong disk " ++ disk.text ++ " doesn't exist")
    | some d =>
      match processPrepareRemoveDisks r disks with
      | .error e => .error e
      | .ok actions => .ok (.coalesce disk d.parent :: .remove disk :: actions)

/-- `PrepareRemoveDisk` once the disk is found. -/
def prepareRemoveFound (disk : DiskName) (data : Disk) :
    ReplicaAct String (List PrepareRemoveAction) := do
  let r ← Act.get
  if r.info.head = some disk then Act.throw "Can not delete the active differencing disk"
  else if r.info.parent = some disk then Act.throw ("Can't delete latest snapshot: " ++ disk.text)
  else
    match data.parent with
    | none => Act.throw ("Can't delete base snapshot: " ++ disk.text)
    | some parent => do
      (markDiskAsRemoved disk).handle fun e =>
        Act.throw ("Fail to mark disk " ++ disk.text ++ " as removed: " ++ e)
      let r ← Act.get
      match r.diskData parent with
      | none => Act.throw ("Can not find snapshot " ++ disk.text ++ "'s parent " ++ parent.text)
      | some _ =>
        match processPrepareRemoveDisks r [disk] with
        | .error e => Act.throw e
        | .ok actions => pure actions

/-- `PrepareRemoveDisk`. The name is that of a disk or of a snapshot. -/
def prepareRemoveDisk (name : DiskName) : ReplicaAct String (List PrepareRemoveAction) := do
  let r ← Act.get
  if r.mode ≠ .rw then Act.throw ("Can not prepare remove disk, replica mode: " ++ r.mode.text)
  else
    match r.diskData name with
    | some data => prepareRemoveFound name data
    | none =>
      match r.diskData (.snap name.text) with
      | some data => prepareRemoveFound (.snap name.text) data
      | none => pure []

/-! ## The size and the flags of `volume.meta` -/

/-- The argument of `Resize` : a text, with the number of bytes that `RAMInBytes` reads from it, or
a number of bytes. -/
inductive NewSize
  | text (bytes : ℤ)
  | bytes (n : ℤ)
  deriving DecidableEq, Repr

/-- The number of bytes. The test for zero is no test : it compares an `int64` in an interface with
an `int`. -/
def NewSize.toBytes : NewSize → ℤ
  | .text n => n
  | .bytes n => n

/-- The loop of `Resize` over the images of the chain. -/
def truncateChain (size : ℕ) : List DiskName → ReplicaAct String Unit
  | [] => pure ()
  | n :: ns => do
    let r ← Act.get
    match r.dir.img n with
    | none => Act.throw "no such file or directory"
    | some i => do
      Act.call (.resize n) ioError (truncate i size)
      truncateChain size ns

/-- The table grows with the volume. -/
def growLocation (size : ℕ) (r : Replica) : Replica :=
  { r with
    volume := { r.volume with
      location := fun s => if s < r.volume.locationLen then r.volume.location s else 0
      locationLen := r.volume.locationLen + (size - r.info.size) / 4096 }
    info := { r.info with size := size } }

/-- `Resize` to a number of bytes. -/
def resizeTo (chain : List DiskName) (sizeInBytes : ℤ) : ReplicaAct String Unit := do
  let r ← Act.get
  if sizeInBytes < r.info.size then
    Act.throw s!"Previous size {r.info.size} is greater than {sizeInBytes}"
  else do
    truncateChain sizeInBytes.toNat chain
    Act.modify (growLocation sizeInBytes.toNat)
    let r ← Act.get
    encodeInfo .resized r.info

/-- `Resize`. -/
def resize (obj : NewSize) (fuel : ℕ) : ReplicaAct String Unit := do
  let r ← Act.get
  match r.liveChain fuel with
  | .error e => Act.throw e
  | .ok chain => resizeTo chain obj.toBytes

/-- `writeVolumeMetaData`. -/
def writeVolumeMetaData (w : Enc) (dirty rebuilding : Bool) : ReplicaAct String Unit := do
  let r ← Act.get
  encodeInfo w { r.info with dirty := dirty, rebuilding := rebuilding }

/-- `SetRebuilding`. -/
def setRebuilding (rebuilding : Bool) : ReplicaAct String Unit := do
  writeVolumeMetaData .rebuilding true rebuilding
  Act.modify fun r => { r with info := { r.info with rebuilding := rebuilding } }

/-- `SetCheckpoint`. -/
def setCheckpoint (snapshotName : Option DiskName) : ReplicaAct String Unit := do
  Act.modify fun r => { r with info := { r.info with checkpoint := snapshotName } }
  let r ← Act.get
  encodeInfo .checkpoint r.info

/-- `SetCloneStatus`. -/
def setCloneStatus (status : String) : ReplicaAct String Unit := do
  Act.modify fun r => { r with info := { r.info with cloneStatus := status } }
  let r ← Act.get
  encodeInfo .cloneStatus r.info

/-- `SetReplicaMode`. -/
def setReplicaMode (mode : String) : ReplicaAct String Unit :=
  if mode = "RW" then Act.modify fun r => { r with mode := .rw }
  else if mode = "WO" then Act.modify fun r => { r with mode := .wo }
  else Act.throw ("invalid mode string " ++ mode)

/-- `Close`. -/
def close : ReplicaAct String Unit := do
  Act.modify fun r => { r with mode := .closed }
  let r ← Act.get
  writeVolumeMetaData .closed false r.info.rebuilding

/-! ## A new replica -/

/-- A process whose directory is empty. -/
def empty (maxChainLen : ℕ) : Replica where
  dir := ⟨fun _ => none, fun _ => none, none, fun _ => false, 1, fun _ => SparseFile.empty 0, 1⟩
  volume := ⟨fun _ => 0, 0, 0, 1, [0], [false], 0⟩
  info := ⟨0, none, false, false, none, 0, "", none, 0⟩
  diskData _ := none
  diskChildrenMap _ := []
  activeDiskData := []
  readOnly := false
  mode := .init
  maxChainLen := maxChainLen

/-- A new replica, as `construct` makes it in an empty directory. -/
def new (size sectorSize maxChainLen : ℕ) (created : String) : Replica :=
  (construct true size sectorSize 1 created .calm (empty maxChainLen)).2

end Replica

end Jiva
