import Mathlib.Data.List.AList
import Mathlib.Data.List.Infix
import Jiva.Hoare
import Jiva.Replica

/-!
# The replicator of the controller

`World` is the controller with everything around it : its state, the replica processes as far as
the controller can see them (`Node`), and a tape. The tape says how each call outside ends, one
moment for each call. A call that reports no error was applied, and a call that reports an error
may have been applied or not. Iteration over a map takes a moment too, which says in which
order the keys come.

The rest is `controller/replicator.go` and `controller/multi_writer_at.go` : the backends by
address, the tables of readers and writers that are built from them, and the calls that fan out.
-/

namespace Jiva

open Hoare

/-- The address of a replica, such as `tcp://10.0.0.1:9502`. -/
abbrev Address : Type :=
  String

/-- A map with addresses as keys. -/
abbrev AddressMap (β : Type) : Type :=
  AList fun _ : Address => β

/-- `types.Mode`, as the controller uses it. -/
inductive BackendMode
  | wo
  | rw
  | err
  deriving DecidableEq, Repr

/-- Whether a backend in this mode gets requests. -/
def BackendMode.live : BackendMode → Bool
  | .err => false
  | _ => true

/-- Whether a backend in this mode is read from. -/
def BackendMode.readable : BackendMode → Bool
  | .rw => true
  | _ => false

/-- `types.Replica`. -/
structure ReplicaEntry where
  address : Address
  mode : BackendMode
  deriving DecidableEq, Repr

/-- `types.RegReplica`. The time the replica is up is only printed. -/
structure RegReplica where
  address : Address
  uuid : String
  revCount : ℤ
  repType : String
  repState : String
  deriving DecidableEq, Repr

/-! ## Replicas -/

/-- A write request. -/
structure Write where
  off : ℤ
  data : List Byte
  deriving DecidableEq, Repr

/-- What the controller can see of a replica process. Below the head its chain consists of
snapshots, and so does what it keeps as the checkpoint. `below` has the chain below each snapshot
that is in its directory, whether it is in the chain of the head or was left behind by `Revert`. -/
structure Node where
  head : ℕ
  snaps : List String
  below : String → Option (List String)
  size : ℤ
  sectorSize : ℤ
  revisionCounter : ℤ
  checkpoint : Option String
  mode : BackendMode
  image : ℤ → Byte
  snapImage : String → ℤ → Byte
  writes : List Write

namespace Node

/-- The chain, from the head down. -/
def chain (n : Node) : List DiskName :=
  .head n.head :: n.snaps.map .snap

/-- `WriteAt`. The counter goes up in mode `RW` only. -/
def writeAt (w : Write) (n : Node) : Node :=
  { n with
    image := fun b =>
      if w.off ≤ b ∧ b < w.off + w.data.length then w.data.getD (b - w.off).toNat 0 else n.image b
    revisionCounter := if n.mode = .rw then n.revisionCounter + 1 else n.revisionCounter
    writes := n.writes ++ [w] }

/-- There is no snapshot `name` in the directory. -/
def lacks (name : String) (n : Node) : Bool :=
  (n.below name).isNone

/-- `Snapshot`. The name must be new. -/
def snapshot (name : String) (n : Node) : Node :=
  if n.lacks name then
    { n with
      head := n.head + 1
      snaps := name :: n.snaps
      below := Function.update n.below name (some n.snaps)
      snapImage := Function.update n.snapImage name n.image }
  else n

/-- `Revert`. The snapshot must be there. -/
def revert (name : String) (n : Node) : Node :=
  match n.below name with
  | none => n
  | some snaps =>
    { n with
      head := n.head + 1
      snaps := name :: snaps
      image := n.snapImage name }

def resize (size : ℤ) (n : Node) : Node :=
  { n with size := size }

def setCheckpoint (s : Option String) (n : Node) : Node :=
  { n with checkpoint := s }

def setReplicaMode (mode : BackendMode) (n : Node) : Node :=
  { n with mode := mode }

def setRevisionCounter (counter : ℤ) (n : Node) : Node :=
  { n with revisionCounter := counter }

theorem snaps_snapshot {name : String} {n : Node} (h : n.lacks name = true) :
    (n.snapshot name).snaps = name :: n.snaps := by
  rw [snapshot, if_pos h]

@[simp] theorem size_snapshot (name : String) (n : Node) : (n.snapshot name).size = n.size := by
  unfold snapshot
  split <;> rfl

@[simp] theorem checkpoint_snapshot (name : String) (n : Node) :
    (n.snapshot name).checkpoint = n.checkpoint := by
  unfold snapshot
  split <;> rfl

@[simp] theorem checkpoint_revert (name : String) (n : Node) :
    (n.revert name).checkpoint = n.checkpoint := by
  unfold revert
  split <;> rfl

@[simp] theorem size_revert (name : String) (n : Node) : (n.revert name).size = n.size := by
  unfold revert
  split <;> rfl

end Node

/-! ## Calls -/

/-- How a call ends : it is applied, it is applied but reports an error, or it only reports an
error. -/
inductive Reply
  | ok
  | lost (e : String)
  | refused (e : String)
  deriving DecidableEq, Repr

/-- The error that the caller gets. -/
def Reply.err : Reply → Option String
  | .ok => none
  | .lost e => some e
  | .refused e => some e

/-- Whether the call was applied. -/
def Reply.applied : Reply → Bool
  | .ok => true
  | .lost _ => true
  | .refused _ => false

/-- What the outside does at one call. `value` is a number that a replica reports and that is not
part of `Node`, and `cloned` is whether a clone that the controller waits for is a success. -/
structure Moment where
  reply : Reply
  order : List Address → List Address
  order_perm : ∀ as, (order as).Perm as
  value : ℤ
  cloned : Bool

/-- A moment of success, in the order of the list. -/
def Moment.calm : Moment :=
  ⟨.ok, id, fun _ => .refl _, 1, true⟩

/-- A moment with the reply `r`. -/
def Moment.of (r : Reply) : Moment :=
  { Moment.calm with reply := r }

/-! ## State -/

/-- A connection to a replica, `remote.Remote`. -/
structure Remote where
  name : Address
  deriving DecidableEq, Repr

/-- `backendWrapper`. -/
structure BackendWrapper where
  backend : Remote
  mode : BackendMode
  deriving DecidableEq, Repr

/-- `MultiWriterAt`. -/
structure MultiWriterAt where
  writers : List Remote
  updaters : List Remote
  deriving DecidableEq, Repr

/-- `replicator`. An index that is not in a table gives the empty address. -/
structure Replicator where
  backendsAvailable : Bool
  backends : AddressMap BackendWrapper
  quorumBackends : AddressMap BackendWrapper
  writerIndex : ℕ → Address
  updaterIndex : ℕ → Address
  readerIndex : ℕ → Address
  readers : List Remote
  writer : Option MultiWriterAt
  next : ℕ

/-- `&replicator{}`. -/
def Replicator.new : Replicator :=
  ⟨false, ∅, ∅, fun _ => "", fun _ => "", fun _ => "", [], none, 0⟩

/-- `Controller`. The state of the frontend is whether it is up, and `exited` is set when the
process ends itself. -/
structure Controller where
  name : String
  size : ℤ
  sectorSize : ℤ
  replicas : List ReplicaEntry
  replicationFactor : ℕ
  rwReplicaCount : ℕ
  quorumReplicas : List ReplicaEntry
  quorumReplicaCount : ℕ
  backend : Replicator
  frontendUp : Bool
  registeredReplicas : AddressMap RegReplica
  registeredQuorumReplicas : AddressMap RegReplica
  maxRevReplica : Address
  startSignalled : Bool
  readOnly : Bool
  isSnapDeletionInProgress : Bool
  checkpoint : Option String
  exited : Bool

/-- The controller, the replicas and the tape. `signals` are the states of the controller in which
a start signal was sent, to its `maxRevReplica`. -/
structure World where
  c : Controller
  nodes : Address → Node
  tape : ℕ → Moment
  signals : List Controller

/-- A computation of the controller. -/
abbrev Ctl (α : Type) : Type :=
  StateM World α

/-- An error value. `backend` is a `BackendError`. -/
inductive Err
  | msg (text : String)
  | backend (errors : List (Address × String))
  deriving DecidableEq, Repr

namespace World

/-- Take the next moment from the tape. -/
def advance (w : World) : World :=
  { w with tape := fun n => w.tape (n + 1) }

/-- The same world before another tape. -/
def onTape (w : World) (tape : ℕ → Moment) : World :=
  { w with tape := tape }

def setNode (a : Address) (f : Node → Node) (w : World) : World :=
  { w with nodes := Function.update w.nodes a (f (w.nodes a)) }

def setC (f : Controller → Controller) (w : World) : World :=
  { w with c := f w.c }

def setBackend (f : Replicator → Replicator) (w : World) : World :=
  w.setC fun c => { c with backend := f c.backend }

end World

def moment : Ctl Moment := do
  let w ← get
  set w.advance
  pure (w.tape 0)

/-- A call that changes the replica at `a`. -/
def request (a : Address) (f : Node → Node) : Ctl (Option String) := do
  let m ← moment
  modify fun w => if m.reply.applied then w.setNode a f else w
  pure m.reply.err

/-- A call that changes the replica at `a` if the replica `admits` it. -/
def requestIf (a : Address) (admits : Node → Bool) (f : Node → Node) : Ctl (Option String) := do
  let m ← moment
  let w ← get
  if admits (w.nodes a) then do
    modify fun w => if m.reply.applied then w.setNode a f else w
    pure m.reply.err
  else pure (some (m.reply.err.getD "refused"))

/-- A call that changes nothing. -/
def ask : Ctl (Option String) := do
  let m ← moment
  pure m.reply.err

/-- A call that reads from the replica at `a`. -/
def query {β : Type} (a : Address) (f : Node → β) : Ctl (Except String β) := do
  let m ← moment
  let w ← get
  match m.reply.err with
  | some e => pure (.error e)
  | none => pure (.ok (f (w.nodes a)))

/-- The keys of a map in the order of an iteration. -/
def iterate (as : List Address) : Ctl (List Address) := do
  let m ← moment
  pure (m.order as)

/-- The errors among the replies of the replicas `as`. -/
def errorsOf (as : List Address) (es : List (Option String)) : List (Address × String) :=
  (as.zip es).filterMap fun p => p.2.map fun e => (p.1, e)

namespace Replicator

/-! ## Tables -/

/-- The tables of `buildReadWriters` so far. -/
structure Tables where
  writers : List Remote
  writerIndex : ℕ → Address
  readers : List Remote
  readerIndex : ℕ → Address

/-- One round of the first loop of `buildReadWriters`. -/
def addBackendTo (r : Replicator) (t : Tables) (a : Address) : Tables :=
  match r.backends.lookup a with
  | none => t
  | some b =>
    let t := if b.mode ≠ .err then { t with
        writerIndex := Function.update t.writerIndex t.writers.length a
        writers := t.writers ++ [b.backend] }
      else t
    if b.mode = .rw then { t with
        readerIndex := Function.update t.readerIndex t.readers.length a
        readers := t.readers ++ [b.backend] }
      else t

/-- One round of the second loop of `buildReadWriters`. -/
def addUpdaterTo (r : Replicator) (t : List Remote × (ℕ → Address)) (a : Address) :
    List Remote × (ℕ → Address) :=
  match r.quorumBackends.lookup a with
  | none => t
  | some b =>
    if b.mode ≠ .err then (t.1 ++ [b.backend], Function.update t.2 t.1.length a) else t

/-- `buildReadWriters`, with the keys in the order of the iterations. -/
def build (r : Replicator) (order quorumOrder : List Address) : Replicator :=
  let t := order.foldl r.addBackendTo ⟨[], fun _ => "", [], fun _ => ""⟩
  let u := quorumOrder.foldl r.addUpdaterTo ([], fun _ => "")
  { r with
    backendsAvailable := decide (0 < t.readers.length)
    writerIndex := t.writerIndex
    updaterIndex := u.2
    readerIndex := t.readerIndex
    readers := t.readers
    writer := some ⟨t.writers, u.1⟩ }

end Replicator

def buildReadWriters : Ctl Unit := do
  let w ← get
  let order ← iterate w.c.backend.backends.keys
  let quorumOrder ← iterate w.c.backend.quorumBackends.keys
  modify fun w => w.setBackend fun r => r.build order quorumOrder

def addQuorumBackend (a : Address) (b : Remote) : Ctl Unit := do
  let w ← get
  if (w.c.backend.quorumBackends.lookup a).isSome then pure ()
  else do
    modify fun w => w.setBackend fun r =>
      { r with quorumBackends := r.quorumBackends.insert a ⟨b, .wo⟩ }
    buildReadWriters

def addBackend (a : Address) (b : Remote) : Ctl Unit := do
  let w ← get
  if (w.c.backend.backends.lookup a).isSome then pure ()
  else do
    modify fun w => w.setBackend fun r => { r with backends := r.backends.insert a ⟨b, .wo⟩ }
    buildReadWriters

/-- `RemoveBackend`. A quorum backend is closed, but stays in the map. -/
def removeBackend (a : Address) : Ctl Unit := do
  let w ← get
  if (w.c.backend.backends.lookup a).isSome ∨ (w.c.backend.quorumBackends.lookup a).isSome then do
    modify fun w => w.setBackend fun r => { r with backends := r.backends.erase a }
    buildReadWriters
  else pure ()

/-- `SetMode`. It does not look at the quorum backends. -/
def setMode (a : Address) (mode : BackendMode) : Ctl Unit := do
  let w ← get
  match w.c.backend.backends.lookup a with
  | none => pure ()
  | some b => do
    modify fun w => w.setBackend fun r =>
      { r with backends := r.backends.insert a { b with mode := mode } }
    buildReadWriters

/-! ## I/O -/

/-- `MultiWriterError` : the errors by index. -/
structure MultiWriterError where
  replicaErrors : List (Option String)
  quorumErrors : List (Option String)
  deriving DecidableEq, Repr

/-- The number of replies with an error. -/
def errCount (es : List (Option String)) : ℕ :=
  es.countP Option.isSome

/-- More than half of `n` are left when `e` have failed. -/
def Majority (n e : ℕ) : Prop :=
  n / 2 < n - e

instance (n e : ℕ) : Decidable (Majority n e) :=
  inferInstanceAs (Decidable (_ < _))

namespace MultiWriterAt

/-- `MultiWriterAt.WriteAt`. The quorum replicas are only told that there was a write. -/
def writeAt (m : MultiWriterAt) (wr : Write) : Ctl (ℕ × Option MultiWriterError) := do
  let replicaErrs ← each (fun w => request w.name (Node.writeAt wr)) m.writers
  let quorumErrs ← each (fun w => request w.name (Node.writeAt ⟨0, []⟩)) m.updaters
  let errors : MultiWriterError :=
    if 0 < errCount replicaErrs then ⟨replicaErrs, []⟩ else ⟨[], quorumErrs⟩
  if 0 < errCount replicaErrs ∨ 0 < errCount quorumErrs then
    if Majority m.writers.length (errCount replicaErrs) ∧
        Majority (m.writers.length + m.updaters.length)
          (errCount replicaErrs + errCount quorumErrs) then
      pure (wr.data.length, some errors)
    else pure (0, some errors)
  else pure (wr.data.length, none)

/-- `MultiWriterAt.Sync` and `MultiWriterAt.Unmap`, which differ in the request they send. What a
discard does to the data is not part of `Node`. -/
def toAll (m : MultiWriterAt) (f : Node → Node) : Ctl (ℤ × Option MultiWriterError) := do
  let replicaErrs ← each (fun w => request w.name f) m.writers
  if 0 < errCount replicaErrs then
    if Majority m.writers.length (errCount replicaErrs) then pure (0, some ⟨replicaErrs, []⟩)
    else pure (-1, some ⟨replicaErrs, []⟩)
  else pure (0, none)

def sync (m : MultiWriterAt) : Ctl (ℤ × Option MultiWriterError) :=
  m.toAll id

def unmap (m : MultiWriterAt) : Ctl (ℤ × Option MultiWriterError) :=
  m.toAll id

end MultiWriterAt

/-- `ErrNoBackend`. -/
def errNoBackend : Err :=
  .msg "No backend available"

namespace Replicator

/-- The errors of the writers by address. -/
def backendError (r : Replicator) (e : MultiWriterError) : Err :=
  .backend (errorsOf ((List.range e.replicaErrors.length).map r.writerIndex) e.replicaErrors)

/-- The writers, none if the tables were never built. -/
def writers (r : Replicator) : MultiWriterAt :=
  r.writer.getD ⟨[], []⟩

/-- `replicator.WriteAt`. -/
def writeAt (wr : Write) : Ctl (ℕ × Option Err) := do
  let w ← get
  let r := w.c.backend
  if r.backendsAvailable = false then pure (0, some errNoBackend)
  else do
    let res ← r.writers.writeAt wr
    pure (res.1, res.2.map r.backendError)

/-- `replicator.Sync` and `replicator.Unmap`. -/
def toAll (f : MultiWriterAt → Ctl (ℤ × Option MultiWriterError)) : Ctl (ℤ × Option Err) := do
  let w ← get
  let r := w.c.backend
  if r.backendsAvailable = false then pure (-1, some errNoBackend)
  else do
    let res ← f r.writers
    pure (res.1, res.2.map r.backendError)

def sync : Ctl (ℤ × Option Err) :=
  toAll MultiWriterAt.sync

def unmap : Ctl (ℤ × Option Err) :=
  toAll MultiWriterAt.unmap

/-- The bytes of a read. -/
def readBytes (off : ℤ) (len : ℕ) (n : Node) : List Byte :=
  (List.range len).map fun i => n.image (off + i)

/-- The loop of `replicator.ReadAt` : the reader at `index` is tried, and after an error the next
one, at most `k` in all. The errors so far come along. -/
def readLoop (r : Replicator) (off : ℤ) (len : ℕ) :
    ℕ → ℕ → List (Address × String) → Ctl (List Byte × List (Address × String))
  | 0, _, errs => pure ([], errs)
  | k + 1, index, errs => do
    let reader := r.readers.getD index ⟨""⟩
    let res ← query reader.name (readBytes off len)
    match res with
    | .ok bytes => pure (bytes, errs)
    | .error e =>
      readLoop r off len k ((index + 1) % r.readers.length) (errs ++ [(r.readerIndex index, e)])

/-- `replicator.ReadAt` : the bytes, none if no reader returned any, and the error. -/
def readAt (off : ℤ) (len : ℕ) : Ctl (List Byte × Option Err) := do
  let w ← get
  let r := w.c.backend
  if r.backendsAvailable = false then pure ([], some errNoBackend)
  else do
    let index := (r.next + 1) % r.readers.length
    modify fun w => w.setBackend fun r => { r with next := index }
    let res ← readLoop r off len r.readers.length index []
    if res.2 = [] then pure (res.1, none) else pure (res.1, some (.backend res.2))

/-! ## Requests to all backends -/

/-- The backends in one of the modes `p`, in the order `order`. -/
def addresses (r : Replicator) (p : BackendMode → Bool) (order : List Address) : List Address :=
  order.filter fun a => ((r.backends.lookup a).map fun b => p b.mode).getD false

/-- Send a request to every backend that is not in mode `ERR`. -/
def fanOut (admits : Node → Bool) (f : Node → Node) : Ctl (Option Err) := do
  let w ← get
  let order ← iterate w.c.backend.backends.keys
  let as := w.c.backend.addresses BackendMode.live order
  let es ← each (fun a => requestIf a admits f) as
  let errs := errorsOf as es
  if errs = [] then pure none else pure (some (.backend errs))

/-- `replicator.Snapshot`. -/
def snapshot (name : String) : Ctl (Option Err) :=
  fanOut (Node.lacks name) (Node.snapshot name)

/-- `replicator.Resize`. -/
def resize (size : ℤ) : Ctl (Option Err) :=
  fanOut (fun _ => true) (Node.resize size)

/-- The backends a loop visits that ends at the first one that is not in mode `RW`. -/
def leadingRW (r : Replicator) (order : List Address) : List Address :=
  order.takeWhile fun a => ((r.backends.lookup a).map fun b => decide (b.mode = .rw)).getD false

/-- The latest snapshot of all `chains`, which are given without their heads, if they agree. -/
def commonSnapshot : List (List String) → Option String → Except String (Option String)
  | [], snapName => .ok snapName
  | [] :: _, _ => .error "No snapshot present in one of the replicas"
  | (s :: _) :: chains, none => commonSnapshot chains (some s)
  | (s :: _) :: chains, some s' =>
    if s' = s then commonSnapshot chains (some s')
    else .error "Latest Snapshot differs at replicas"

/-- `GetLatestSnapshot`. The chains are compared in the order of another iteration. -/
def getLatestSnapshot : Ctl (Except Err (Option String)) := do
  let w ← get
  let r := w.c.backend
  let order ← iterate r.backends.keys
  let as := r.leadingRW order
  let res ← each (fun a => query a Node.snaps) as
  let errs := errorsOf as (res.map fun x => match x with | .error e => some e | .ok _ => none)
  if errs ≠ [] then pure (.error (.backend errs))
  else if as.length ≠ r.backends.keys.length then
    pure (.error (.msg "Not able to fetch chain from all replicas"))
  else do
    let order ← iterate as
    let chains := order.filterMap fun a => ((as.zip res).find? (·.1 = a)).bind fun p => p.2.toOption
    match commonSnapshot chains none with
    | .ok s => pure (.ok s)
    | .error e => pure (.error (.msg e))

/-- `replicator.SetCheckpoint`. -/
def setCheckpoint (s : Option String) : Ctl (Option Err) := do
  let w ← get
  let r := w.c.backend
  let order ← iterate r.backends.keys
  let as := r.leadingRW order
  let es ← each (fun a => request a (Node.setCheckpoint s)) as
  let errs := errorsOf as es
  if errs ≠ [] then pure (some (.backend errs))
  else if as.length ≠ r.backends.keys.length then
    pure (some (.msg "Not able to set checkpoint at all the replicas"))
  else pure none

/-- The loop of `RemainSnapshots` : the least number that is reported, none if there is none. -/
def leastRemain : List Address → Ctl (Option ℤ)
  | [] => pure none
  | _ :: as => do
    let m ← moment
    let rest ← leastRemain as
    match m.reply.err, rest with
    | some _, rest => pure rest
    | none, none => pure (some m.value)
    | none, some v => pure (some (min m.value v))

/-- `RemainSnapshots`. Errors are ignored as long as one replica answers. -/
def remainSnapshots : Ctl (Except String ℤ) := do
  let w ← get
  let r := w.c.backend
  if r.backends.keys = [] then pure (.ok 1)
  else do
    let order ← iterate r.backends.keys
    let least ← leastRemain (r.addresses BackendMode.live order)
    match least with
    | none => pure (.error "Cannot get valid result for remain snapshot")
    | some v => pure (.ok v)

/-! ## Requests to one backend -/

/-- The error of a request to a backend that is not there. -/
def cannotFind (a : Address) : String :=
  "Cannot find backend " ++ a

/-- A request to the backend at `a`. -/
def toOne (a : Address) (f : Node → Node) : Ctl (Option String) := do
  let w ← get
  match w.c.backend.backends.lookup a with
  | none => pure (some (cannotFind a))
  | some b => request b.backend.name f

/-- `replicator.SetReplicaMode`. -/
def setReplicaMode (a : Address) (mode : BackendMode) : Ctl (Option String) :=
  toOne a (Node.setReplicaMode mode)

/-- `replicator.SetRevisionCounter`. -/
def setRevisionCounter (a : Address) (counter : ℤ) : Ctl (Option String) :=
  toOne a (Node.setRevisionCounter counter)

/-- `replicator.SetQuorumRevisionCounter`. -/
def setQuorumRevisionCounter (a : Address) (counter : ℤ) : Ctl (Option String) := do
  let w ← get
  match w.c.backend.quorumBackends.lookup a with
  | none => pure (some (cannotFind a))
  | some b => request b.backend.name (Node.setRevisionCounter counter)

/-- `replicator.SetRebuilding`. The flag is not part of `Node`. -/
def setRebuilding (a : Address) : Ctl (Option String) := do
  let w ← get
  match w.c.backend.backends.lookup a, w.c.backend.quorumBackends.lookup a with
  | none, none => pure (some (cannotFind a))
  | _, _ => ask

/-- `replicator.GetRevisionCounter`. -/
def getRevisionCounter (a : Address) : Ctl (ℤ × Option String) := do
  let w ← get
  match w.c.backend.backends.lookup a with
  | none => pure (-1, some (cannotFind a))
  | some b => do
    let counter ← query b.backend.name Node.revisionCounter
    match counter with
    | .error e => pure (0, some e)
    | .ok counter => pure (counter, none)

/-- `GetCloneStatus`, asked until the status is neither empty nor `inProgress` : whether it is not
`error`. -/
def getCloneStatus (a : Address) : Ctl (Except String Bool) := do
  let w ← get
  match w.c.backend.backends.lookup a with
  | none => pure (.error (cannotFind a))
  | some _ => do
    let m ← moment
    match m.reply.err with
    | some e => pure (.error e)
    | none => pure (.ok m.cloned)

end Replicator

end Jiva
