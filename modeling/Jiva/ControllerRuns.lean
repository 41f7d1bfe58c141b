import Jiva.Runs
import Jiva.Operations

/-!
# Runs of the controller

`System` is the controller in its world, with the operations that have let the lock go and are to
take it again. A step is what is done under one hold of the lock. Its label is the operation
together with a tape, so a run takes any interleaving and any failures. A step that is not possible,
such as one after the process has ended, is `none`.

`step_reach` says what each step does : it keeps the invariant, by changes within the scope of its
operation.
-/

namespace Jiva

open Hoare Controller Relation

/-- The controller in its world, and the operations that are between two holds of the lock. -/
structure System where
  world : World
  adds : List Address
  quorumAdds : List Address
  reverts : List (List Address × String)

/-- What is done under one hold of the lock, or by a replica on its own. `addFail` and `quorumFail`
are for a connection that cannot be made. -/
inductive Op
  | register (register : RegReplica)
  | start (addresses : List Address)
  | addBegin (a : Address)
  | addFail (a : Address)
  | addCommit (a : Address) (uuid : String)
  | quorumBegin (a : Address)
  | quorumFail (a : Address)
  | quorumCommit (a : Address)
  | verifyRebuild (a : Address)
  | setReplicaMode (a : Address) (mode : BackendMode)
  | removeReplica (a : Address)
  | monitoring (a : Address) (err : Bool)
  | writeAt (wr : Write)
  | readAt (off : ℤ) (len : ℕ)
  | sync
  | unmap
  | snapshot (name uuid : String)
  | resize (name : String) (sizeInBytes : Except String ℤ)
  | revertBegin (name : String)
  | revertCommit (clients : List Address) (name : String)
  | shutdownFrontend
  | shutdownBackend
  | snapDeletion (inProgress : Bool)
  | restart
  | node (a : Address) (n : Node)

/-- What is not an operation of the process. -/
def Op.outside : Op → Bool
  | .restart => true
  | .node _ _ => true
  | _ => false

namespace System

/-- A new process, with the replicas `nodes`. -/
def new (name : String) (rf : ℕ) (nodes : Address → Node) : System where
  world := ⟨Controller.new name rf, nodes, fun _ => .calm, []⟩
  adds := []
  quorumAdds := []
  reverts := []

/-- Run `x` with the tape `tape`. -/
def exec {α : Type} (s : System) (tape : ℕ → Moment) (x : Ctl α) : α × System :=
  let res := x.run (s.world.onTape tape)
  (res.1, { s with world := res.2 })

/-- The process is started again. -/
def restarted (s : System) : System :=
  ⟨{ s.world with c := Controller.new s.world.c.name s.world.c.replicationFactor }, [], [], []⟩

/-- One step. After the process has ended, it can only be started again. -/
def step (s : System) (l : Op × (ℕ → Moment)) : Option System :=
  let run {α : Type} (x : Ctl α) : Option System := some (s.exec l.2 x).2
  if s.world.c.exited = true ∧ l.1.outside = false then none
  else
    match l.1 with
    | .register register => run (registerReplica register)
    | .start addresses => run (Controller.start addresses)
    | .addBegin a =>
      let res := s.exec l.2 (addReplicaBegin a)
      if res.1 = none then some { res.2 with adds := a :: s.adds } else some res.2
    | .addFail a =>
      if a ∈ s.adds then some { (s.exec l.2 (pure ())).2 with adds := s.adds.erase a } else none
    | .addCommit a uuid =>
      if a ∈ s.adds then
        some { (s.exec l.2 (addReplicaCommit a uuid)).2 with adds := s.adds.erase a }
      else none
    | .quorumBegin a =>
      let res := s.exec l.2 (addQuorumReplicaBegin a)
      if res.1 = none then some { res.2 with quorumAdds := a :: s.quorumAdds } else some res.2
    | .quorumFail a =>
      if a ∈ s.quorumAdds then
        some { (s.exec l.2 (pure ())).2 with quorumAdds := s.quorumAdds.erase a }
      else none
    | .quorumCommit a =>
      if a ∈ s.quorumAdds then
        some { (s.exec l.2 (addQuorumReplicaCommit a)).2 with quorumAdds := s.quorumAdds.erase a }
      else none
    | .verifyRebuild a => run (verifyRebuildReplica a)
    | .setReplicaMode a mode => run (Controller.setReplicaMode a mode)
    | .removeReplica a => run (Controller.removeReplica a)
    | .monitoring a err => run (Controller.monitoring a err)
    | .writeAt wr => run (Controller.writeAt wr)
    | .readAt off len => run (Controller.readAt off len)
    | .sync => run Controller.sync
    | .unmap => run Controller.unmap
    | .snapshot name uuid => run (Controller.snapshot name uuid)
    | .resize name sizeInBytes => run (Controller.resize name sizeInBytes)
    | .revertBegin name =>
      let res := s.exec l.2 Controller.revertBegin
      match res.1 with
      | some clients => some { res.2 with reverts := (clients, name) :: s.reverts }
      | none => some res.2
    | .revertCommit clients name =>
      if (clients, name) ∈ s.reverts then
        some { (s.exec l.2 (Controller.revertCommit clients name)).2 with
          reverts := s.reverts.erase (clients, name) }
      else none
    | .shutdownFrontend => run Controller.shutdownFrontend
    | .shutdownBackend => run Controller.shutdownBackend
    | .snapDeletion inProgress =>
      run (modify fun w => w.setC fun c => { c with isSnapDeletionInProgress := inProgress })
    | .restart => some s.restarted
    | .node a n => some { s with world := s.world.setNode a fun _ => n }

end System

/-! ## What a step does -/

/-- What is done to the world, without the result. -/
def Op.act : Op → Ctl Unit
  | .register r => discard (registerReplica r)
  | .start addresses => discard (Controller.start addresses)
  | .addBegin a => discard (addReplicaBegin a)
  | .addFail _ => pure ()
  | .addCommit a uuid => discard (addReplicaCommit a uuid)
  | .quorumBegin a => discard (addQuorumReplicaBegin a)
  | .quorumFail _ => pure ()
  | .quorumCommit a => discard (addQuorumReplicaCommit a)
  | .verifyRebuild a => discard (verifyRebuildReplica a)
  | .setReplicaMode a mode => discard (Controller.setReplicaMode a mode)
  | .removeReplica a => Controller.removeReplica a
  | .monitoring a err => Controller.monitoring a err
  | .writeAt wr => discard (Controller.writeAt wr)
  | .readAt off len => discard (Controller.readAt off len)
  | .sync => discard Controller.sync
  | .unmap => discard Controller.unmap
  | .snapshot name uuid => discard (Controller.snapshot name uuid)
  | .resize name sizeInBytes => discard (Controller.resize name sizeInBytes)
  | .revertBegin _ => discard Controller.revertBegin
  | .revertCommit clients name => discard (Controller.revertCommit clients name)
  | .shutdownFrontend => Controller.shutdownFrontend
  | .shutdownBackend => Controller.shutdownBackend
  | .snapDeletion inProgress =>
    modify fun w => w.setC fun c => { c with isSnapDeletionInProgress := inProgress }
  | .restart => pure ()
  | .node _ _ => pure ()

/-- The scope of an operation. -/
def Op.scope : Op → Scope
  | .register _ => { signals := True }
  | .start addresses =>
    { drops := True
      adds := fun a => a ∈ addresses
      sets := fun a m => a ∈ addresses ∧ m = .rw
      resets := True
      resizes := True }
  | .addCommit a uuid =>
    { drops := True, adds := fun x => x = a, sends := fun _ f => f = Node.snapshot uuid }
  | .quorumCommit a => { drops := True, addsQuorum := fun x => x = a }
  | .verifyRebuild a => { sets := fun x m => x = a ∧ m = .rw, updates := True }
  | .setReplicaMode a mode => { drops := True, sets := fun x m => x = a ∧ m = mode }
  | .writeAt _ => { drops := True, sends := fun _ f => ∃ wr, f = Node.writeAt wr }
  | .snapshot _ _ => { drops := True, sends := fun _ f => ∃ n, f = Node.snapshot n }
  | .resize _ _ => { drops := True, sends := fun _ f => ∃ n, f = Node.resize n, resizes := True }
  | .revertCommit _ name => { drops := True, sends := fun _ f => f = Node.revert name }
  | .shutdownBackend => { resets := True }
  | .addFail _ => .still
  | .quorumFail _ => .still
  | .revertBegin _ => .still
  | .shutdownFrontend => .still
  | .snapDeletion _ => .still
  | _ => { drops := True }

theorem safe_discard {S : Scope} {α : Type} {x : Ctl α} (h : Safe S x) : Safe S (discard x) :=
  fun w hw => h w hw

/-- Every operation stays within its scope. -/
theorem safe_act (op : Op) : Safe op.scope op.act := by
  cases op with
  | register r => exact safe_discard (safe_registerReplica (S := (Op.register r).scope) trivial r)
  | start as =>
    exact safe_discard (safe_start (S := (Op.start as).scope)
      ⟨trivial, fun _ => id, fun _ ha => And.intro ha rfl, trivial, trivial⟩)
  | addBegin a => exact safe_discard (safe_addReplicaBegin (S := (Op.addBegin a).scope) trivial a)
  | addFail a => exact Keeps.pure ()
  | addCommit a uuid =>
    exact safe_discard
      (safe_addReplicaCommit (S := (Op.addCommit a uuid).scope) trivial rfl fun _ => rfl)
  | quorumBegin a => exact safe_discard (safe_canAdd (S := (Op.quorumBegin a).scope) trivial a)
  | quorumFail a => exact Keeps.pure ()
  | quorumCommit a =>
    exact safe_discard (safe_addQuorumReplicaCommit (S := (Op.quorumCommit a).scope) trivial rfl)
  | verifyRebuild a =>
    exact safe_discard (safe_verifyRebuildReplica (S := (Op.verifyRebuild a).scope)
      (And.intro rfl rfl) (.inl trivial))
  | setReplicaMode a m =>
    exact safe_discard (safe_setReplicaMode (S := (Op.setReplicaMode a m).scope) a m
      (.inr (And.intro rfl rfl)))
  | removeReplica a =>
    exact safe_removeReplicaNoLock (S := (Op.removeReplica a).scope) trivial a
  | monitoring a err => exact safe_monitoring (S := (Op.monitoring a err).scope) trivial a err
  | writeAt wr =>
    exact safe_discard (safe_writeAt (S := (Op.writeAt wr).scope) trivial
      (fun _ wr => Exists.intro wr rfl) wr)
  | readAt off len =>
    exact safe_discard (safe_readAt (S := (Op.readAt off len).scope) trivial off len)
  | sync => exact safe_discard (safe_sync (S := Op.sync.scope) trivial)
  | unmap => exact safe_discard (safe_unmap (S := Op.unmap.scope) trivial)
  | snapshot name uuid =>
    exact safe_discard (safe_snapshot (S := (Op.snapshot name uuid).scope) trivial
      fun n _ => Exists.intro n rfl)
  | resize name bytes =>
    exact safe_discard (safe_resize (S := (Op.resize name bytes).scope) trivial trivial
      (fun n _ => Exists.intro n rfl) name bytes)
  | revertBegin name => exact safe_discard (safe_revertBegin (S := (Op.revertBegin name).scope))
  | revertCommit clients name =>
    exact safe_discard (safe_revertCommit (S := (Op.revertCommit clients name).scope) trivial
      (fun _ => rfl) clients)
  | shutdownFrontend => exact safe_frontendShutdown
  | shutdownBackend => exact safe_shutdownBackend (S := Op.shutdownBackend.scope) trivial
  | snapDeletion b => exact safe_setC fun _ => .calm rfl rfl rfl rfl
  | restart => exact Keeps.pure ()
  | node a n => exact Keeps.pure ()

namespace System

/-- The world after a step under the lock. -/
theorem world_of_step {s s' : System} {op : Op} {tape : ℕ → Moment}
    (h : step s (op, tape) = some s') (hop : op.outside = false) :
    s'.world = (op.act.run (s.world.onTape tape)).2 := by
  unfold step at h
  split at h
  · simp at h
  cases op with
  | addBegin | quorumBegin | revertBegin =>
    dsimp only at h
    split at h <;> obtain rfl := Option.some.inj h <;> rfl
  | addFail | addCommit | quorumFail | quorumCommit | revertCommit =>
    dsimp only at h
    split at h
    · obtain rfl := Option.some.inj h
      rfl
    · simp at h
  | restart | node => simp [Op.outside] at hop
  | _ =>
    obtain rfl := Option.some.inj h
    rfl

/-- Every step under the lock keeps the invariant, by changes within its scope. -/
theorem step_reach {s s' : System} {op : Op} {tape : ℕ → Moment} (hs : Mirrored s.world.c)
    (h : step s (op, tape) = some s') (hop : op.outside = false) :
    Mirrored s'.world.c ∧ Reach op.scope s.world s'.world := by
  have hstep : Change op.scope s.world (s.world.onTape tape) :=
    .edit rfl (.inr ⟨rfl, .same rfl rfl rfl⟩) rfl (.inr ⟨rfl, rfl⟩) (.inr ⟨rfl, rfl, rfl, rfl⟩)
      (fun _ => ⟨⟨_, rfl⟩, rfl⟩) .same
  have hact := safe_act op (s.world.onTape tape) hs
  rw [world_of_step h hop]
  exact ⟨hact.1, ReflTransGen.head hstep hact.2⟩

theorem step_restart (s : System) (tape : ℕ → Moment) :
    step s (.restart, tape) = some s.restarted := by
  simp [step, Op.outside]

theorem step_node (s : System) (a : Address) (n : Node) (tape : ℕ → Moment) :
    step s (.node a n, tape) = some { s with world := s.world.setNode a fun _ => n } := by
  simp [step, Op.outside]

/-- Induction along a run : the steps under the lock, a restart, and a change of a replica on its
own. -/
theorem run_induction {good : System → Op × (ℕ → Moment) → Prop} {I : System → Prop}
    (hin : ∀ s op tape s', Mirrored s.world.c → I s → good s (op, tape) → op.outside = false →
      step s (op, tape) = some s' → I s')
    (hrestart : ∀ s, I s → I s.restarted) (hnode : ∀ s a n tape, I s → good s (.node a n, tape) →
      I { s with world := s.world.setNode a fun _ => n })
    {s₀ s : System} {ls : List (Op × (ℕ → Moment))} (hmir : Mirrored s₀.world.c) (h0 : I s₀)
    (hgood : Transition.Along step good s₀ ls) (h : Transition.run step s₀ ls = some s) :
    Mirrored s.world.c ∧ I s := by
  refine Transition.inv_of_run (I := fun s => Mirrored s.world.c ∧ I s) ?_ ⟨hmir, h0⟩ hgood h
  rintro s ⟨op, tape⟩ s' ⟨hs, hI⟩ hg hstep
  cases op with
  | restart =>
    rw [step_restart] at hstep
    obtain rfl := Option.some.inj hstep
    exact ⟨mirrored_new _ _, hrestart s hI⟩
  | node a n =>
    rw [step_node] at hstep
    obtain rfl := Option.some.inj hstep
    exact ⟨hs, hnode s a n tape hI hg⟩
  | _ => exact ⟨(step_reach hs hstep rfl).1, hin _ _ _ _ hs hI hg rfl hstep⟩

/-- The invariant holds in every state that is reached. -/
theorem mirrored_of_run {name : String} {rf : ℕ} {nodes : Address → Node}
    {ls : List (Op × (ℕ → Moment))} {s : System}
    (h : Transition.run step (new name rf nodes) ls = some s) : Mirrored s.world.c :=
  (run_induction (I := fun _ => True) (fun _ _ _ _ _ _ _ _ _ => trivial) (fun _ _ => trivial)
    (fun _ _ _ _ _ _ => trivial) (mirrored_new name rf) trivial (Transition.along_true _ _ _) h).1

/-- Steps without a failure. -/
def calmly (ops : List Op) : List (Op × (ℕ → Moment)) :=
  ops.map fun op => (op, fun _ => .calm)

end System

/-- A tape on which the call with the number `k` is refused. -/
def refuseAt (k : ℕ) : ℕ → Moment := fun n =>
  if n = k then .of (.refused "refused") else .calm

/-- A replica without data. -/
def Node.blank : Node where
  head := 0
  snaps := []
  below := fun _ => none
  size := 4096
  sectorSize := 512
  revisionCounter := 1
  checkpoint := none
  mode := .rw
  image := fun _ => 0
  snapImage := fun _ _ => 0
  writes := []

end Jiva
