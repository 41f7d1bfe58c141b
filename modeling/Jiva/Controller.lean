import Jiva.Replicator

/-!
# The controller

The operations of `controller/control.go`, `rebuild.go` and `revert.go`, each as what it does while
it holds the lock. `addReplica`, `addQuorumReplica` and `Revert` let the lock go in between, and are
cut there into two parts.

Log lines and sleeps are left out, and so are the signals to add, whose result nobody looks at.
-/

namespace Jiva

open Hoare

/-- A sum, as the `int64` it is stored in. -/
def int64Of (x : ℤ) : ℤ :=
  Int.bmod x (2 ^ 64)

/-- `math.MaxInt64`. -/
def maxInt64 : ℤ :=
  2 ^ 63 - 1

/-- The address of a registered replica. -/
def tcp (regrep : Address) : Address :=
  "tcp://" ++ regrep ++ ":9502"

namespace Controller

/-- `NewController`. -/
def new (name : String) (rf : ℕ) : Controller where
  name := name
  size := 0
  sectorSize := 0
  replicas := []
  replicationFactor := rf
  rwReplicaCount := 0
  quorumReplicas := []
  quorumReplicaCount := 0
  backend := Replicator.new
  frontendUp := false
  registeredReplicas := ∅
  registeredQuorumReplicas := ∅
  maxRevReplica := ""
  startSignalled := false
  readOnly := true
  isSnapDeletionInProgress := false
  checkpoint := none
  exited := false

/-! ## Status -/

/-- The number of replicas in mode `RW`. -/
def countRW (rs : List ReplicaEntry) : ℕ :=
  rs.countP (·.mode = .rw)

/-- `UpdateVolStatus`. -/
def withVolStatus (c : Controller) : Controller :=
  let rwReplicaCount := countRW c.replicas + countRW c.quorumReplicas
  { c with
    readOnly := !decide ((c.replicationFactor + c.quorumReplicaCount) / 2 + 1 ≤ rwReplicaCount)
    rwReplicaCount := rwReplicaCount }

def updateVolStatus : Ctl Unit :=
  modify fun w => w.setC withVolStatus

/-- `UpdateCheckpoint`. -/
def updateCheckpoint : Ctl Unit := do
  let w ← get
  if countRW w.c.replicas = w.c.replicationFactor then do
    let latestSnapshot ← Replicator.getLatestSnapshot
    match latestSnapshot with
    | .error _ => modify fun w => w.setC fun c => { c with checkpoint := none }
    | .ok s => do
      let err ← Replicator.setCheckpoint s
      modify fun w => w.setC fun c => { c with checkpoint := if err = none then s else none }
  else modify fun w => w.setC fun c => { c with checkpoint := none }

def hasReplica (c : Controller) (a : Address) : Bool :=
  c.replicas.any (·.address = a) || c.quorumReplicas.any (·.address = a)

def hasWOReplica (c : Controller) : Option Address :=
  (c.replicas.find? (·.mode = .wo)).map ReplicaEntry.address

/-- `getRWReplica` : the last one in the list. -/
def getRWReplica (c : Controller) : Option Address :=
  (c.replicas.reverse.find? (·.mode = .rw)).map ReplicaEntry.address

/-! ## Modes -/

/-- The entries at `a` that are not in mode `ERR` get the mode `mode`. -/
def setEntries (a : Address) (mode : BackendMode) (rs : List ReplicaEntry) : List ReplicaEntry :=
  rs.map fun r => if r.address = a ∧ r.mode ≠ .err then { r with mode := mode } else r

/-- The entries at `a` whose mode can be set. -/
def settable (a : Address) (rs : List ReplicaEntry) : List ReplicaEntry :=
  rs.filter fun r => r.address = a ∧ r.mode ≠ .err

/-- `setReplicaModeNoLock`. Two entries at one address end the process. -/
def setReplicaModeNoLock (a : Address) (mode : BackendMode) : Ctl Unit := do
  let w ← get
  modify fun w => w.setC fun c => { c with replicas := setEntries a mode c.replicas }
  List.forM (settable a w.c.replicas) fun _ => setMode a mode
  modify fun w => w.setC fun c => { c with quorumReplicas := setEntries a mode c.quorumReplicas }
  List.forM (settable a w.c.quorumReplicas) fun _ => setMode a mode
  let found := w.c.replicas.countP (·.address = a) + w.c.quorumReplicas.countP (·.address = a)
  modify fun w => w.setC fun c => { c with exited := c.exited || decide (1 < found) }

/-- `SetReplicaMode`. -/
def setReplicaMode (a : Address) (mode : BackendMode) : Ctl (Option Err) :=
  match mode with
  | .wo => pure (some (.msg "Can not set to mode WO"))
  | mode => do
    setReplicaModeNoLock a mode
    pure none

/-! ## Removal -/

/-- `Shutdown` of the frontend. A failure ends the process. -/
def frontendShutdown : Ctl Unit := do
  let err ← ask
  modify fun w => w.setC fun c => { c with
    frontendUp := false
    exited := c.exited || err.isSome }

/-- Without its last replica the frontend is shut down, and a new leader can be elected. -/
def leaveLast : Ctl Unit := do
  let w ← get
  if w.c.replicas.length = 1 ∧ w.c.frontendUp = true then do
    modify fun w => w.setC fun c => { c with startSignalled := false, maxRevReplica := "" }
    frontendShutdown
  else pure ()

/-- The registration of the replica at `a` is dropped. -/
def unregister (a : Address) (m : AddressMap RegReplica) : AddressMap RegReplica :=
  match m.keys.find? fun k => a = tcp k with
  | none => m
  | some k => m.erase k

/-- The first loop of `RemoveReplicaNoLock`. -/
def removeData (a : Address) : Ctl Unit := do
  let w ← get
  if w.c.replicas.any (·.address = a) then do
    leaveLast
    modify fun w => w.setC fun c => { c with
      registeredReplicas := unregister a c.registeredReplicas
      replicas := c.replicas.eraseP (·.address = a) }
    removeBackend a
  else pure ()

/-- The second loop of `RemoveReplicaNoLock`. -/
def removeQuorum (a : Address) : Ctl Unit := do
  let w ← get
  if w.c.quorumReplicas.any (·.address = a) then do
    modify fun w => w.setC fun c => { c with
      registeredQuorumReplicas := unregister a c.registeredQuorumReplicas
      quorumReplicas := c.quorumReplicas.eraseP (·.address = a) }
    removeBackend a
  else pure ()

/-- `RemoveReplicaNoLock`, which returns no error. -/
def removeReplicaNoLock (a : Address) : Ctl Unit := do
  let w ← get
  if w.c.hasReplica a then do
    removeData a
    removeQuorum a
    updateVolStatus
    updateCheckpoint
  else pure ()

def removeReplica (a : Address) : Ctl Unit :=
  removeReplicaNoLock a

/-- `monitoring`, from where it has received the value of its channel. -/
def monitoring (a : Address) : Bool → Ctl Unit
  | true => do
    setReplicaModeNoLock a .err
    removeReplicaNoLock a
  | false => removeReplicaNoLock a

/-! ## Addition -/

/-- The revision count of the replica in mode `WO`, as it was registered if it was. -/
def woRevisionCount (woReplica : Address) : Ctl (ℤ × Option String) := do
  let w ← get
  match w.c.registeredReplicas.lookup woReplica with
  | some r => pure (r.revCount, none)
  | none => Replicator.getRevisionCounter woReplica

/-- `hasGreaterRevisionCount`. -/
def hasGreaterRevisionCount (woReplica newReplica : Address) : Ctl (Except String Bool) := do
  let woRevCnt ← woRevisionCount woReplica
  match woRevCnt.2 with
  | some e => pure (.error e)
  | none => do
    let newRevCnt ← query newReplica Node.revisionCounter
    match newRevCnt with
    | .error e => pure (.error e)
    | .ok newRevCnt => pure (.ok (decide (woRevCnt.1 < newRevCnt)))

/-- The end of `canAdd`. -/
def checkSnapDeletion : Ctl (Option Err) := do
  let w ← get
  if w.c.isSnapDeletionInProgress then pure (some (.msg "snapshot deletion is in progress"))
  else pure none

/-- `canAdd` : the error, none if the replica at `a` can be added. A replica with a greater revision
count takes over from the one in mode `WO`, which is removed. -/
def canAdd (a : Address) : Ctl (Option Err) := do
  let w ← get
  if w.c.hasReplica a then pure (some (.msg ("replica: " ++ a ++ " is already added")))
  else
    match w.c.hasWOReplica with
    | none => checkSnapDeletion
    | some woReplica => do
      let greater ← hasGreaterRevisionCount woReplica a
      match greater with
      | .error e => pure (some (.msg e))
      | .ok true => do
        removeReplicaNoLock woReplica
        checkSnapDeletion
      | .ok false =>
        pure (some (.msg
          ("can only have one WO replica at a time, found WO Replica: " ++ woReplica)))

/-- `verifyReplicationFactor`. The environment variable it reads is the one that
`replicationFactor` was set from. -/
def verifyReplicationFactor (c : Controller) : Option String :=
  if c.replicationFactor = 0 then some "REPLICATION_FACTOR not set"
  else if c.replicationFactor = c.replicas.length then
    some ("replication factor: " ++ toString c.replicationFactor ++ ", added replicas: " ++
      toString c.replicas.length)
  else none

/-- The snapshot of `addReplicaNoLock`, with the name `uuid`, on all backends and on the new one. -/
def snapshotToAdd (a : Address) (uuid : String) : Ctl (Option Err) := do
  let remain ← Replicator.remainSnapshots
  match remain with
  | .error e => pure (some (.msg e))
  | .ok remain =>
    if remain ≤ 0 then
      pure (some (.msg ("Too many snapshots created, remaining snapshots are: " ++
        toString remain ++ " ")))
    else do
      let err ← Replicator.snapshot uuid
      match err with
      | some err => pure (some err)
      | none => do
        let err ← requestIf a (Node.lacks uuid) (Node.snapshot uuid)
        pure (err.map .msg)

/-- The error of a request to set the mode. -/
def failedSetMode (a : Address) (e : String) : Err :=
  .msg ("Fail to set replica mode for " ++ a ++ ": " ++ e)

/-- The end of `addReplicaNoLock`, from `SetReplicaMode` on. -/
def attach (a : Address) : Ctl (Option Err) := do
  let err ← request a (Node.setReplicaMode .wo)
  match err with
  | some e => pure (some (failedSetMode a e))
  | none => do
    modify fun w => w.setC fun c => { c with replicas := c.replicas ++ [⟨a, .wo⟩] }
    addBackend a ⟨a⟩
    pure none

/-- `addReplicaNoLock`, with the name of the snapshot if one is to be taken. -/
def addReplicaNoLock (a : Address) (uuid : Option String) : Ctl (Option Err) := do
  let err ← canAdd a
  match err with
  | some err => pure (some err)
  | none =>
    match uuid with
    | none => attach a
    | some uuid => do
      let err ← snapshotToAdd a uuid
      match err with
      | some err => pure (some err)
      | none => attach a

/-- `addReplica` up to where it lets the lock go. -/
def addReplicaBegin (a : Address) : Ctl (Option Err) := do
  let err ← canAdd a
  match err with
  | some err => pure (some err)
  | none => do
    let w ← get
    match w.c.verifyReplicationFactor with
    | some e => pure (some (.msg ("can't add " ++ a ++ ", error: " ++ e)))
    | none => pure none

/-- `addReplica` from where it takes the lock again. -/
def addReplicaCommit (a : Address) (uuid : String) : Ctl (Option Err) := do
  let err ← addReplicaNoLock a (some uuid)
  match err with
  | some err => pure (some err)
  | none => do
    updateVolStatus
    updateCheckpoint
    pure none

/-- `addQuorumReplicaNoLock`. It is never asked for a snapshot. -/
def addQuorumReplicaNoLock (a : Address) : Ctl (Option Err) := do
  let err ← canAdd a
  match err with
  | some err => pure (some err)
  | none => do
    modify fun w => w.setC fun c => { c with
      quorumReplicas := c.quorumReplicas ++ [⟨a, .wo⟩]
      quorumReplicaCount := c.quorumReplicaCount + 1 }
    addQuorumBackend a ⟨a⟩
    pure none

/-- The error for a revision counter that could not be read. -/
def failedRevisionCounter (rwReplica : Address) (res : ℤ × Option String) : Err :=
  .msg ("Failed to get revision counter of RW Replica " ++ rwReplica ++ ": counter " ++
    toString res.1 ++ ", err " ++ res.2.getD "<nil>")

/-- The error of a request to set the revision counter. -/
def failedSetCounter (a : Address) (e : String) : Err :=
  .msg ("Fail to set revision counter for " ++ a ++ ": " ++ e)

/-- The revision counter of an `RW` replica goes to the quorum replica. -/
def copyRevisionCounter (a rwReplica : Address) : Ctl (Option Err) := do
  let res ← Replicator.getRevisionCounter rwReplica
  if res.2.isSome ∨ res.1 = -1 then pure (some (failedRevisionCounter rwReplica res))
  else do
    let err ← Replicator.setQuorumRevisionCounter a res.1
    pure (err.map (failedSetCounter a))

/-- `addQuorumReplica` from where the replica has been added. -/
def initQuorumReplica (a : Address) : Ctl (Option Err) := do
  let err ← Replicator.setRebuilding a
  match err with
  | some _ => pure (some (.msg "Failed to set rebuild : true"))
  | none => do
    let w ← get
    match w.c.getRWReplica with
    | none => pure (some (.msg "Cannot find any healthy replica"))
    | some rwReplica => do
      let err ← copyRevisionCounter a rwReplica
      match err with
      | some err => pure (some err)
      | none => do
        let err ← Replicator.setRebuilding a
        match err with
        | some _ => pure (some (.msg "Failed to set rebuild : true"))
        | none => do
          updateVolStatus
          updateCheckpoint
          pure none

/-- `addQuorumReplica` up to where it lets the lock go. -/
def addQuorumReplicaBegin (a : Address) : Ctl (Option Err) :=
  canAdd a

/-- `addQuorumReplica` from where it takes the lock again. -/
def addQuorumReplicaCommit (a : Address) : Ctl (Option Err) := do
  let err ← addQuorumReplicaNoLock a
  match err with
  | some err => pure (some err)
  | none => initQuorumReplica a

/-! ## Rebuild -/

/-- `getCurrentAndRWReplica`. -/
def getCurrentAndRWReplica (c : Controller) (a : Address) :
    Except String (ReplicaEntry × ReplicaEntry) :=
  match c.replicas.find? (·.address = a), c.replicas.find? (·.mode = .rw) with
  | none, _ => .error ("Cannot find replica " ++ a)
  | some _, none => .error "Cannot find any healthy replica"
  | some current, some rwReplica => .ok (current, rwReplica)

/-- The index at which `VerifyRebuildReplica` stops : the one of the checkpoint, and the last one if
there is none. -/
def stopIndex (rwChain : List DiskName) (woCheckpoint : Option DiskName) : ℕ :=
  match rwChain.findIdx? fun d => some d = woCheckpoint with
  | some indx => indx
  | none => rwChain.length - 1

/-- The part of a chain that `VerifyRebuildReplica` compares. -/
def compared (indx : ℕ) (chain : List DiskName) : List DiskName :=
  (chain.take (indx + 1)).drop 1

/-- Whether the chains pass. The chain of the replica in mode `WO` may be too short for the slice,
which fails as well. -/
def verifyChains (a rwReplica : Address) (rwChain chain : List DiskName)
    (woCheckpoint : Option DiskName) : Option String :=
  if woCheckpoint.any fun d => decide (d ∉ rwChain) then
    some "WO replica's checkpoint not present in rwReplica chain"
  else
    let indx := stopIndex rwChain woCheckpoint
    if chain.length < indx + 1 then some "slice bounds out of range"
    else if compared indx rwChain ≠ compared indx chain then
      some ("Replica " ++ a ++ "'s chain not equal to RW replica " ++ rwReplica ++ "'s chain")
    else none

/-- The end of `VerifyRebuildReplica`, after the chains have passed. -/
def promote (a rwReplica : Address) : Ctl (Option Err) := do
  let res ← Replicator.getRevisionCounter rwReplica
  if res.2.isSome ∨ res.1 = -1 then pure (some (failedRevisionCounter rwReplica res))
  else do
    let err ← Replicator.setReplicaMode a .rw
    match err with
    | some e => pure (some (failedSetMode a e))
    | none => do
      let err ← Replicator.setRevisionCounter a res.1
      match err with
      | some e => pure (some (failedSetCounter a e))
      | none => do
        setReplicaModeNoLock a .rw
        modify fun w => w.setC fun c =>
          { c with quorumReplicaCount := max c.quorumReplicaCount c.quorumReplicas.length }
        updateVolStatus
        updateCheckpoint
        pure none

/-- `getReplicaChain`. -/
def getReplicaChain (a : Address) : Ctl (Except String (List DiskName)) :=
  query a Node.chain

/-- `getReplicaCheckpoint`. -/
def getReplicaCheckpoint (a : Address) : Ctl (Except String (Option DiskName)) :=
  query a fun n => n.checkpoint.map .snap

/-- `VerifyRebuildReplica` for a replica in mode `WO`. -/
def verifyRebuildWO (a rwReplica : Address) : Ctl (Option Err) := do
  let rwChain ← getReplicaChain rwReplica
  match rwChain with
  | .error e => pure (some (.msg e))
  | .ok rwChain => do
    let chain ← getReplicaChain a
    match chain with
    | .error e => pure (some (.msg e))
    | .ok chain => do
      let woCheckpoint ← getReplicaCheckpoint a
      match woCheckpoint with
      | .error e => pure (some (.msg e))
      | .ok woCheckpoint =>
        match verifyChains a rwReplica rwChain chain woCheckpoint with
        | some e => pure (some (.msg e))
        | none => promote a rwReplica

/-- `VerifyRebuildReplica`. -/
def verifyRebuildReplica (a : Address) : Ctl (Option Err) := do
  let w ← get
  match w.c.getCurrentAndRWReplica a with
  | .error e => pure (some (.msg e))
  | .ok (replica, rwReplica) =>
    match replica.mode with
    | .rw => pure none
    | .err => pure (some (.msg ("Invalid mode ERR for replica " ++ a ++ " to check")))
    | .wo => verifyRebuildWO a rwReplica.address

/-! ## Registration -/

/-- `signalReplica`. -/
def signalReplica : Ctl (Option String) := do
  modify fun w => { w with signals := w.signals ++ [w.c] }
  let err ← ask
  match err with
  | some e => do
    modify fun w => w.setC fun c => { c with
      registeredReplicas := c.registeredReplicas.erase c.maxRevReplica
      maxRevReplica := ""
      startSignalled := false }
    pure (some e)
  | none => do
    modify fun w => w.setC fun c => { c with startSignalled := true }
    pure none

/-- The probes of `VerifyReplicaAlive`, at most `n`. -/
def probe : ℕ → Ctl Bool
  | 0 => pure false
  | n + 1 => do
    let err ← ask
    match err with
    | none => pure true
    | some _ => probe n

/-- `VerifyReplicaAlive`. -/
def verifyReplicaAlive : Ctl Bool :=
  probe 3

/-- A registration replaces the one of the same replica at another address. -/
def dedupe (register : RegReplica) (m : AddressMap RegReplica) : AddressMap RegReplica :=
  (m.keys.filter fun k => k ≠ register.address ∧
    (m.lookup k).any fun r => decide (r.uuid = register.uuid)).foldl (fun m k => m.erase k) m

/-- The registration is kept. -/
def record (register : RegReplica) (c : Controller) : Controller :=
  { c with registeredReplicas :=
      (dedupe register c.registeredReplicas).insert register.address register }

/-- The revision count of a registered replica, `0` if it is not registered. -/
def revCountOf (m : AddressMap RegReplica) (a : Address) : ℤ :=
  ((m.lookup a).map RegReplica.revCount).getD 0

/-- The loop that chooses a leader, over the keys in the order `order`. -/
def elect (register : RegReplica) (m : AddressMap RegReplica) (maxRev : Address)
    (order : List Address) : Address :=
  order.foldl (fun maxRev replica =>
    if revCountOf m maxRev < revCountOf m replica then register.address else maxRev) maxRev

/-- There are enough registrations to start. -/
def enoughRegistered (c : Controller) : Bool :=
  decide (c.replicationFactor / 2 + 1 ≤ c.registeredReplicas.keys.length) &&
    decide ((c.quorumReplicaCount + c.replicationFactor) / 2 + 1 ≤
      c.registeredReplicas.keys.length + c.registeredQuorumReplicas.keys.length)

/-- The end of `registerReplica`. -/
def chooseLeader (register : RegReplica) : Ctl (Option String) := do
  if register.repState = "rebuilding" then pure none
  else do
    let w ← get
    let order ← iterate w.c.registeredReplicas.keys
    modify fun w => w.setC fun c => { c with
      maxRevReplica := elect register c.registeredReplicas
        (if c.maxRevReplica = "" then register.address else c.maxRevReplica) order }
    let w ← get
    if w.c.enoughRegistered then signalReplica else pure none

/-- `registerReplica` for a data replica that has been recorded, when a leader was signalled. -/
def registerAgain (register : RegReplica) : Ctl (Option String) := do
  let w ← get
  if register.address = w.c.maxRevReplica then do
    let err ← signalReplica
    match err with
    | some e => pure (some e)
    | none => chooseLeader register
  else do
    let alive ← verifyReplicaAlive
    if alive then pure none
    else do
      modify fun w => w.setC fun c => { c with
        registeredReplicas := c.registeredReplicas.erase c.maxRevReplica
        maxRevReplica := ""
        startSignalled := false }
      chooseLeader register

/-- `registerReplica` for a data replica. -/
def registerData (register : RegReplica) : Ctl (Option String) := do
  modify fun w => w.setC (record register)
  let w ← get
  if 0 < w.c.replicas.length then pure none
  else if w.c.startSignalled then registerAgain register
  else chooseLeader register

/-- `registerReplica`. -/
def registerReplica (register : RegReplica) : Ctl (Option String) := do
  let w ← get
  if register.uuid = "" then pure none
  else if (w.c.registeredReplicas.lookup register.address).isNone ∧
      (w.c.registeredQuorumReplicas.lookup register.address).isSome then pure none
  else if register.repType = "quorum" then do
    modify fun w => w.setC fun c => { c with
      registeredQuorumReplicas := c.registeredQuorumReplicas.insert register.address register }
    pure none
  else registerData register

/-! ## I/O -/

/-- `handleErrorNoLock`. -/
def handleErrorNoLock (err : Option Err) : Ctl (Option Err) :=
  match err with
  | some (.backend (e :: errors)) => do
    let order ← iterate ((e :: errors).map Prod.fst).dedup
    List.forM order fun a => setReplicaModeNoLock a .err
    let w ← get
    if w.c.replicas.any (·.mode = .rw) then pure none
    else pure (some (.backend (e :: errors)))
  | err => pure err

/-- The replicas with an error are removed. -/
def removeFailed (err : Err) : Ctl Unit :=
  match err with
  | .backend errors => do
    let order ← iterate (errors.map Prod.fst).dedup
    List.forM order removeReplicaNoLock
  | .msg _ => pure ()

/-- What the calls for I/O do with an error of the backend. -/
def handleIOError (err : Err) : Ctl (Option Err) := do
  let errh ← handleErrorNoLock (some err)
  removeFailed err
  pure errh

/-- `off + len` is not beyond the end, as the code computes it. -/
def inBounds (c : Controller) (off : ℤ) (len : ℕ) : Bool :=
  decide (0 ≤ off) && decide (int64Of (off + len) ≤ c.size)

/-- The error of a read or a write beyond the end. -/
def beyondEnd (what : String) (off : ℤ) (len : ℕ) (c : Controller) : Err :=
  .msg ("EOF: " ++ what ++ " of " ++ toString len ++ " bytes at offset " ++ toString off ++
    " is beyond volume size " ++ toString c.size)

/-- The error of a volume that is read only. -/
def errReadOnly : Err :=
  .msg "Mode: ReadOnly"

/-- `Controller.WriteAt`. -/
def writeAt (wr : Write) : Ctl (ℕ × Option Err) := do
  let w ← get
  if w.c.readOnly then pure (0, some errReadOnly)
  else if w.c.inBounds wr.off wr.data.length = false then
    pure (0, some (beyondEnd "Write" wr.off wr.data.length w.c))
  else do
    let res ← Replicator.writeAt wr
    match res.2 with
    | none => pure (res.1, none)
    | some err => do
      let errh ← handleIOError err
      pure (res.1, errh)

/-- `Controller.Sync` and `Controller.Unmap`, which differ in the text `failed`. -/
def flush (f : Ctl (ℤ × Option Err)) (failed : String) : Ctl (ℤ × Option Err) := do
  let w ← get
  if w.c.readOnly then pure (-1, some errReadOnly)
  else do
    let res ← f
    match res.2 with
    | none => pure (0, none)
    | some err => do
      let errh ← handleIOError err
      if res.1 = -1 then pure (-1, some (.msg failed)) else pure (0, errh)

def sync : Ctl (ℤ × Option Err) :=
  flush Replicator.sync "Sync Failed"

def unmap : Ctl (ℤ × Option Err) :=
  flush Replicator.unmap "Unmap Failed"

/-- Why `ReadAt` does not ask the backends. -/
def cannotRead (c : Controller) (off : ℤ) (len : ℕ) : Option Err :=
  if c.inBounds off len = false then some (beyondEnd "Read" off len c)
  else
    match c.replicas with
    | [] => some (.msg "No backends available")
    | [r] => if r.mode = .wo then some (.msg "only WO replica available") else none
    | _ => none

/-- `Controller.ReadAt`. -/
def readAt (off : ℤ) (len : ℕ) : Ctl (List Byte × Option Err) := do
  let w ← get
  match w.c.cannotRead off len with
  | some err => pure ([], some err)
  | none => do
    let res ← Replicator.readAt off len
    match res.2 with
    | none => pure (res.1, none)
    | some err => do
      let errh ← handleIOError err
      pure (res.1, errh)

/-! ## Snapshots and size -/

/-- `IsSnapShotExist`. -/
def isSnapShotExist (snapName : String) (a : Address) : Ctl (Except String Bool) := do
  let chain ← getReplicaChain a
  match chain with
  | .error e => pure (.error ("Failed to get replica chain, error: " ++ e))
  | .ok chain => pure (.ok (decide (DiskName.snap snapName ∈ chain)))

/-- `Controller.Snapshot` from where it has found that there is room for a snapshot, up to where it
sends the request. -/
def checkNew (name : String) : Ctl (Except Err String) := do
  let w ← get
  match w.c.getRWReplica with
  | none => pure (.error (.msg "Cannot find any healthy replica"))
  | some replica => do
    let ok ← isSnapShotExist name replica
    match ok with
    | .error e => pure (.error (.msg ("Failed to create snapshot, error: " ++ e)))
    | .ok true => pure (.error (.msg ("Snapshot: " ++ name ++ " already exists")))
    | .ok false => pure (.ok name)

/-- `Controller.Snapshot` up to where it sends the request : the name of the snapshot to take, which
is `uuid` if `name` is empty. -/
def snapshotName (name uuid : String) : Ctl (Except Err String) := do
  let w ← get
  if w.c.rwReplicaCount ≠ w.c.replicationFactor then
    pure (.error (.msg ("RWReplicaCount(" ++ toString w.c.rwReplicaCount ++
      ") != ReplicationFactor(" ++ toString w.c.replicationFactor ++ ")")))
  else do
    let remain ← Replicator.remainSnapshots
    match remain with
    | .error e => pure (.error (.msg e))
    | .ok remain =>
      if remain ≤ 0 then
        pure (.error (.msg ("Too many snapshots created, remaining snapshots are: " ++
          toString remain)))
      else checkNew (if name = "" then uuid else name)

/-- `Controller.Snapshot`. -/
def snapshot (name uuid : String) : Ctl (Option Err) := do
  let res ← snapshotName name uuid
  match res with
  | .error err => pure (some err)
  | .ok name => do
    let err ← Replicator.snapshot name
    handleErrorNoLock err

/-- The frontend gets the new size. -/
def resizeFrontend (sizeInBytes : ℤ) : Ctl (Option Err) := do
  let w ← get
  if w.c.frontendUp = false then
    pure (some (.msg "Failed to resize from frontend, err: Volume is not up"))
  else do
    let err ← ask
    match err with
    | some e => pure (some (.msg ("Failed to resize from frontend, err: " ++ e)))
    | none => do
      modify fun w => w.setC fun c => { c with size := sizeInBytes }
      pure none

/-- `Controller.Resize` of the volume `name`, for a text that stands for `sizeInBytes`. What the
backends say is left out of the error. -/
def resize (name : String) (sizeInBytes : Except String ℤ) : Ctl (Option Err) := do
  let w ← get
  if name ≠ w.c.name then pure (some (.msg "Volume name didn't match"))
  else
    match sizeInBytes with
    | .error e => pure (some (.msg e))
    | .ok sizeInBytes =>
      if sizeInBytes < w.c.size then
        pure (some (.msg "Size can only be increased, not reduced"))
      else if sizeInBytes = w.c.size then
        pure (some (.msg "Volume size same as size mentioned"))
      else do
        let err ← Replicator.resize sizeInBytes
        let err ← handleErrorNoLock err
        match err with
        | some _ => pure (some (.msg "Failed to resize replica"))
        | none => resizeFrontend sizeInBytes

/-! ## Start, revert and shutdown -/

/-- `reset`. -/
def reset (c : Controller) : Controller :=
  { c with replicas := [], quorumReplicas := [], backend := Replicator.new }

/-- `startFrontend`. A failure ends the process. -/
def startFrontend : Ctl Unit := do
  let w ← get
  if 0 < w.c.replicas.length then do
    let err ← ask
    modify fun w => w.setC fun c => { c with
      frontendUp := true
      exited := c.exited || err.isSome }
  else pure ()

/-- `rmReplicaFromRegisteredReplicas`. -/
def rmReplicaFromRegisteredReplicas (a : Address) : Ctl Unit :=
  modify fun w => w.setC fun c => { c with
    registeredReplicas := c.registeredReplicas.erase a
    startSignalled := false
    maxRevReplica := "" }

/-- Leave `addReplicaDuringStartNoLock` with an error before the replica is added. -/
def failStart (a : Address) (err : Err) : Ctl (Option Err) := do
  rmReplicaFromRegisteredReplicas a
  pure (some err)

/-- Leave `addReplicaDuringStartNoLock` with an error after the replica was added. -/
def undoStart (a : Address) (err : Err) : Ctl (Option Err) := do
  removeReplicaNoLock a
  pure (some err)

/-- The end of `addReplicaDuringStartNoLock`, after the replica was added. -/
def finishStart (a : Address) : Ctl (Option Err) := do
  let status ← Replicator.getCloneStatus a
  match status with
  | .error e => undoStart a (.msg e)
  | .ok false => undoStart a (.msg ("Replica clone status returned error " ++ a))
  | .ok true => do
    let err ← Replicator.setReplicaMode a .rw
    match err with
    | some e => undoStart a (failedSetMode a e)
    | none => do
      setReplicaModeNoLock a .rw
      pure none

/-- The first replica of `Start` gives the volume its size. -/
def takeSize (newSize newSectorSize : ℤ) (c : Controller) : Controller :=
  if c.size = maxInt64 then { c with size := newSize, sectorSize := newSectorSize } else c

/-- `addReplicaDuringStartNoLock` for a backend of which the sizes are known. -/
def addSized (a : Address) (newSize newSectorSize : ℤ) : Ctl (Option Err) := do
  modify fun w => w.setC (takeSize newSize newSectorSize)
  let w ← get
  if w.c.size ≠ newSize then
    failStart a (.msg ("Backend sizes do not match " ++ toString w.c.size ++ " != " ++
      toString newSize))
  else if w.c.sectorSize ≠ newSectorSize then
    failStart a (.msg ("Backend sizes do not match " ++ toString w.c.sectorSize ++ " != " ++
      toString newSectorSize))
  else do
    let err ← addReplicaNoLock a none
    match err with
    | some err => failStart a err
    | none => finishStart a

/-- `addReplicaDuringStartNoLock`. -/
def addReplicaDuringStartNoLock (a : Address) : Ctl (Option Err) := do
  let err ← ask
  match err with
  | some e => failStart a (.msg e)
  | none => do
    let newSize ← query a Node.size
    match newSize with
    | .error e => failStart a (.msg e)
    | .ok newSize => do
      let newSectorSize ← query a Node.sectorSize
      match newSectorSize with
      | .error e => failStart a (.msg e)
      | .ok newSectorSize => addSized a newSize newSectorSize

/-- The first loop of `Start`, up to the first error. -/
def addAllDuringStart : List Address → Ctl (Option Err)
  | [] => pure none
  | a :: as => do
    let err ← addReplicaDuringStartNoLock a
    match err with
    | some err => pure (some err)
    | none => addAllDuringStart as

/-- The second loop of `Start` : the revision counters, up to the first error. -/
def revisionCounters : List Address → Ctl (Except String (List (Address × ℤ)))
  | [] => pure (.ok [])
  | a :: as => do
    let res ← Replicator.getRevisionCounter a
    match res.2 with
    | some e => pure (.error e)
    | none => do
      let rest ← revisionCounters as
      match rest with
      | .error e => pure (.error e)
      | .ok rest => pure (.ok ((a, res.1) :: rest))

/-- The greatest of the counters, at least `0`. -/
def expectedRevision (counters : List (Address × ℤ)) : ℤ :=
  counters.foldl (fun m p => max m p.2) 0

/-- The replicas whose counter is not the greatest. -/
def conflicting (counters : List (Address × ℤ)) : List Address :=
  (counters.filter fun p => p.2 ≠ expectedRevision counters).map Prod.fst

/-- `Start` from where the replicas have been added. -/
def checkRevisions : Ctl (Option Err) := do
  let w ← get
  let counters ← revisionCounters (w.c.replicas.map ReplicaEntry.address)
  match counters with
  | .error e => pure (some (.msg e))
  | .ok counters => do
    let order ← iterate (conflicting counters)
    List.forM order fun a => setReplicaModeNoLock a .err
    updateVolStatus
    updateCheckpoint
    pure none

/-- `Start` from where the controller has been reset. -/
def startAll (as : List Address) : Ctl (Option Err) := do
  let err ← addAllDuringStart as
  match err with
  | some err => pure (some err)
  | none => checkRevisions

/-- `Start`. The frontend is started on every way out after the reset. -/
def start (as : List Address) : Ctl (Option Err) := do
  let w ← get
  match as with
  | [] => pure none
  | a :: _ =>
    if 0 < w.c.replicas.length then pure none
    else if a ≠ tcp w.c.maxRevReplica then
      pure (some (.msg ("Signalled replica to start: " ++ w.c.maxRevReplica ++
        ", received start from " ++ a)))
    else do
      modify fun w => w.setC fun c => { c.reset with size := maxInt64 }
      let err ← startAll as
      startFrontend
      pure err

/-- The replicas that `Revert` talks to, or why it does not. -/
def clientsAndSnapshot (c : Controller) : Option (List Address) :=
  if c.replicas.any (·.mode = .rw) && !c.replicas.any (·.mode = .wo) then
    some ((c.replicas.filter (·.mode = .rw)).map ReplicaEntry.address)
  else none

/-- `shutdownFrontend`. -/
def shutdownFrontend : Ctl Unit :=
  frontendShutdown

/-- `Revert` up to where it takes the lock : it asks every replica, and shuts the frontend down. -/
def revertBegin : Ctl (Option (List Address)) := do
  let w ← get
  match w.c.clientsAndSnapshot with
  | none => pure none
  | some clients => do
    let errs ← each (fun _ => ask) clients
    if 0 < errCount errs then pure none
    else do
      shutdownFrontend
      pure (some clients)

/-- One round of the loop of `Revert` : whether it was a success. -/
def revertOne (name : String) (a : Address) : Ctl Bool := do
  let err ← requestIf a (fun n => !n.lacks name) (Node.revert name)
  match err with
  | some _ => do
    setReplicaModeNoLock a .err
    pure false
  | none => pure true

/-- `Revert` from where it takes the lock. -/
def revertCommit (clients : List Address) (name : String) : Ctl (Option Err) := do
  let order ← iterate clients
  let results ← each (revertOne name) order
  if results.any id then do
    startFrontend
    pure none
  else pure (some (.msg ("Fail to revert to volume-snap-" ++ name ++ ".img on all replicas")))

/-- `shutdownBackend`. The connections are closed. -/
def shutdownBackend : Ctl Unit :=
  modify fun w => w.setC reset

end Controller

end Jiva
