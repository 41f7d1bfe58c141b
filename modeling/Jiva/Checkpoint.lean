import Mathlib.Data.List.Sort
import Jiva.Lineage
import Jiva.Requests

/-!
# The checkpoint of a replica

The controller sets the checkpoint of every replica to their latest common snapshot. Others then
rely on it : `InternalSnapshotCleaner` of each replica removes snapshots below it only, a rebuild
copies what is above it, and `VerifyRebuildReplica` wants to find it in the chain of the source.

`Deployment` is the controller with its replicas and their cleaners. The cleaner works in four steps
that other operations come between : it picks a snapshot, marks it (`PrepareRemoveDisk`), copies it
over its parent (`Coalesce`) and removes it (`RemoveDiffDisk`). What a replica has below each of its
snapshots is a forest (`Lineage`), and what the cleaner is about to remove is below the checkpoint
(`Housed`). A later checkpoint is further up, so the snapshot is still below it when it goes.

`Revert` puts the head on any snapshot and keeps the checkpoint. If the snapshot is below the
checkpoint, the checkpoint is no longer in the chain (`revertBelow_strays`). It is in the chain in
every run in which `Revert` does not go below it (`checkpoint_in_chain`).
-/

namespace Jiva

open Hoare Controller Relation Lineage Function Transition

variable {disks : String → DiskInfo} {d : Option String} {a : Address} {name : String}
    {n : Node} {w : World}

/-! ## Planning a rebuild -/

/-- The part of a chain above the checkpoint. -/
def aboveCheckpoint (checkpoint : Option String) (chain : List DiskName) : List DiskName :=
  match checkpoint with
  | none => chain
  | some c => chain.takeWhile fun d => decide (d ≠ .snap c)

/-- `isRevisionCountAndChainSame` : whether nothing has to be copied, and what else is. -/
def isRevisionCountAndChainSame (rwReplica curReplica : Node) :
    Except String (Bool × List DiskName) :=
  if curReplica.checkpoint.any fun c => decide (DiskName.snap c ∉ rwReplica.chain) then
    .error "Current replica's checkpoint not present in rwReplica chain"
  else
    let rwChain := aboveCheckpoint curReplica.checkpoint rwReplica.chain
    let curChain := aboveCheckpoint curReplica.checkpoint curReplica.chain
    .ok (decide (rwReplica.revisionCounter = curReplica.revisionCounter ∧
      rwChain.drop 1 = curChain.drop 1), rwChain.drop 1)

/-! ## Removing snapshots -/

/-- What `ListDisks` says about a snapshot. The size is a text there, which may not be a number. -/
structure DiskInfo where
  userCreated : Bool
  removed : Bool
  size : Option ℤ

/-- A snapshot of a user that is not removed. -/
def DiskInfo.wanted (d : DiskInfo) : Bool :=
  d.userCreated && !d.removed

namespace Node

/-- The parent of a snapshot. -/
def parent (n : Node) (d : String) : Option String :=
  (n.below d).bind List.head?

/-- `GetDeleteCandidateChain`. The chain from the base up to the head is cut off at the checkpoint,
which is not the head, and its base is left out. -/
def getDeleteCandidateChain (disks : String → DiskInfo) (checkpoint : Option String) (n : Node) :
    List String :=
  let replicaChain := n.snaps.reverse
  match checkpoint with
  | none => []
  | some c =>
    if n.chain.length ≤ 3 ∨ c ∉ replicaChain ∨ replicaChain.idxOf c ≤ 1 then []
    else
      let snapshots := ((replicaChain.take (replicaChain.idxOf c)).drop 1).filter fun d =>
        !(disks d).wanted && !(n.parent d).any fun p => (disks p).wanted
      match snapshots.mapM fun d => (disks d).size.map fun size => (d, size) with
      | none => []
      | some snapList => (snapList.insertionSort fun x y => x.2 ≤ y.2).map Prod.fst

/-- Whether `PrepareRemoveDisk` accepts the snapshot. -/
def removable (d : String) (n : Node) : Bool :=
  decide (n.mode = .rw) && !n.lacks d && decide (n.snaps.head? ≠ some d) &&
    decide (n.below d ≠ some [])

/-- `RemoveDiffDisk`. A snapshot with more than one child is refused as well, which is left to the
reply. -/
def removeDiffDisk (d : String) (n : Node) : Node :=
  if n.mode = .rw ∧ n.snaps.head? ≠ some d then
    { n with snaps := without d n.snaps, below := erase d n.below }
  else n

end Node

/-- `SnapshotRetentionCount`. -/
def snapshotRetentionCount : ℕ :=
  10

/-- The snapshot that `InternalSnapshotCleaner` picks. The controller and the replica must have the
same checkpoint. -/
def pick (disks : String → DiskInfo) (checkpoint : Option String) (n : Node) : Option String :=
  if checkpoint = n.checkpoint then
    let sortedSnapshotList := n.getDeleteCandidateChain disks checkpoint
    if sortedSnapshotList.length < snapshotRetentionCount then none else sortedSnapshotList.head?
  else none

namespace Controller

/-- The loop of `DeleteSnapshot` : every replica marks the snapshot, up to the first error. -/
def prepareRemoveSnapshot : List Address → Ctl (Option Err)
  | [] => pure none
  | _ :: as => do
    let err ← ask
    match err with
    | some e => pure (some (.msg e))
    | none => prepareRemoveSnapshot as

/-- `DeleteSnapshot` of the server, which takes the lock. -/
def deleteSnapshot (name : String) : Ctl (Option Err) := do
  let w ← get
  if countRW w.c.replicas ≠ w.c.replicationFactor then
    pure (some (.msg ("Can't delete snapshot, rwReplicaCount:" ++ toString (countRW w.c.replicas) ++
      " != ReplicationFactor:" ++ toString w.c.replicationFactor)))
  else
    match w.c.checkpoint with
    | none => pure (some (.msg "Can't delete snapshot, checkpoint not set at controller"))
    | some c =>
      if name.toList <:+: (DiskName.snap c).text.toList then
        pure (some (.msg "Can't delete snapshot, snapshotName same as checkpoint"))
      else prepareRemoveSnapshot (w.c.replicas.map ReplicaEntry.address)

end Controller

/-! ## The system -/

/-- Where the cleaner of a replica is. -/
inductive Cleaning
  | idle
  | picked (d : String)
  | coalescing (d : String)
  | removing (d : String)

/-- The snapshot that the cleaner is about to remove. -/
def Cleaning.disk : Cleaning → Option String
  | .idle => none
  | .picked d => some d
  | .coalescing d => some d
  | .removing d => some d

/-- The controller with its replicas, and their cleaners. -/
structure Deployment where
  system : System
  cleaning : Address → Cleaning

/-- A step of the controller, of the cleaner of a replica, or a reload of a replica. -/
inductive DeploymentOp
  | controller (op : Op) (tape : ℕ → Moment)
  | deleteSnapshot (name : String) (tape : ℕ → Moment)
  | pick (a : Address) (disks : String → DiskInfo)
  | prepareRemoveDisk (a : Address) (reply : Reply)
  | coalesce (a : Address) (reply : Reply)
  | removeDiffDisk (a : Address) (reply : Reply)
  | reload (a : Address) (restarted : Bool)

namespace Deployment

/-- A new controller with the replicas `nodes`. -/
def new (name : String) (rf : ℕ) (nodes : Address → Node) : Deployment :=
  ⟨System.new name rf nodes, fun _ => .idle⟩

/-- The replica at `a`. -/
def node (s : Deployment) (a : Address) : Node :=
  s.system.world.nodes a

def setCleaning (a : Address) (x : Cleaning) (s : Deployment) : Deployment :=
  { s with cleaning := update s.cleaning a x }

def setNode (a : Address) (f : Node → Node) (s : Deployment) : Deployment :=
  { s with system := { s.system with world := s.system.world.setNode a f } }

/-- One step. A replica changes by requests and by its cleaner only. An error of the cleaner ends
its round, and a reload finds in the files what was there. -/
def step (s : Deployment) : DeploymentOp → Option Deployment
  | .controller (.node _ _) _ => none
  | .controller op tape => (s.system.step (op, tape)).map fun t => { s with system := t }
  | .deleteSnapshot name tape =>
    if s.system.world.c.exited then none
    else some { s with system := (s.system.exec tape (deleteSnapshot name)).2 }
  | .pick a disks =>
    match s.cleaning a with
    | .idle =>
      match Jiva.pick disks s.system.world.c.checkpoint (s.node a) with
      | none => some s
      | some d => some (s.setCleaning a (.picked d))
    | _ => none
  | .prepareRemoveDisk a reply =>
    match s.cleaning a with
    | .picked d =>
      if (s.node a).removable d ∧ reply.err = none then some (s.setCleaning a (.coalescing d))
      else some (s.setCleaning a .idle)
    | _ => none
  | .coalesce a reply =>
    match s.cleaning a with
    | .coalescing d =>
      if reply.err = none then some (s.setCleaning a (.removing d))
      else some (s.setCleaning a .idle)
    | _ => none
  | .removeDiffDisk a reply =>
    match s.cleaning a with
    | .removing d =>
      if reply.applied then some ((s.setNode a (Node.removeDiffDisk d)).setCleaning a .idle)
      else some (s.setCleaning a .idle)
    | _ => none
  | .reload a restarted => some (if restarted then s.setCleaning a .idle else s)

end Deployment

/-! ## One replica -/

/-- What a replica has is a forest, with its checkpoint in its chain, and `d` is below the
checkpoint. -/
structure Housed (d : Option String) (n : Node) : Prop where
  forest : Forest n.below
  linked : Linked n.below n.snaps
  anchored : ∀ c ∈ n.checkpoint, c ∈ n.snaps
  under : ∀ x ∈ d, ∃ c ∈ n.checkpoint, Under n.below x c

/-- The chain that `Revert` would give the replica has the checkpoint in it. -/
def Permits (name : String) (n : Node) : Prop :=
  ∀ c ∈ n.checkpoint, ∀ rest ∈ n.below name, c ∈ name :: rest

instance (name : String) (n : Node) : Decidable (Permits name n) := by
  unfold Permits
  infer_instance

namespace Housed

variable {d : Option String} {n n' : Node} {name : String}

/-- Nothing is being removed any more. -/
theorem idle (h : Housed d n) : Housed none n :=
  ⟨h.forest, h.linked, h.anchored, nofun⟩

theorem of_same (h : Housed d n) (hsnaps : n'.snaps = n.snaps) (hbelow : n'.below = n.below)
    (hcheck : n'.checkpoint = n.checkpoint) : Housed d n' := by
  refine ⟨?_, ?_, ?_, ?_⟩
  · exact hbelow ▸ h.forest
  · rw [hbelow, hsnaps]
    exact h.linked
  · rw [hcheck, hsnaps]
    exact h.anchored
  · rw [hcheck, hbelow]
    exact h.under

/-- The checkpoint moves up to the latest snapshot. -/
theorem of_latest (h : Housed d n) (hsnaps : n'.snaps = n.snaps) (hbelow : n'.below = n.below)
    (hcheck : n'.checkpoint = n.snaps.head?) : Housed d n' := by
  refine ⟨hbelow ▸ h.forest, ?_, ?_, fun x hx => ?_⟩
  · rw [hbelow, hsnaps]
    exact h.linked
  · rw [hcheck, hsnaps]
    exact fun c hc => List.mem_of_head? hc
  · obtain ⟨c, hc, hunder⟩ := h.under x hx
    have hmem := h.anchored c hc
    have hlinked := h.linked
    rw [hbelow, hcheck]
    cases hn : n.snaps with
    | nil => simp [hn] at hmem
    | cons t l =>
      rw [hn] at hmem hlinked
      exact ⟨t, rfl, hunder.head hlinked hmem⟩

theorem quiet {f : Node → Node} (h : Housed d n) (hf : Quiet f) (hcheck : Anchors n (f n)) :
    Housed d (f n) :=
  hcheck.elim (h.of_same (hf.snaps n) (hf.below n)) (h.of_latest (hf.snaps n) (hf.below n))

theorem snapshot (h : Housed d n) : Housed d (n.snapshot name) := by
  unfold Node.snapshot
  split_ifs with hlacks
  · have hnone : n.below name = none := Option.isNone_iff_eq_none.1 hlacks
    refine ⟨h.forest.add hnone h.linked, h.linked.cons hnone, fun c hc => ?_, fun x hx => ?_⟩
    · exact List.mem_cons_of_mem _ (h.anchored c hc)
    · obtain ⟨c, hc, hunder⟩ := h.under x hx
      exact ⟨c, hc, hunder.add _ hnone⟩
  · exact h

theorem revert (h : Housed d n) (hpermits : Permits name n) : Housed d (n.revert name) := by
  unfold Node.revert
  split
  · exact h
  · rename_i rest hrest
    exact ⟨h.forest, ⟨hrest, h.forest.linked _ _ hrest⟩, fun c hc => hpermits c hc rest hrest,
      h.under⟩

/-- What the cleaner removes is not the checkpoint. -/
theorem removeDiffDisk {x : String} (h : Housed (some x) n) : Housed none (n.removeDiffDisk x) := by
  unfold Node.removeDiffDisk
  split_ifs
  · refine ⟨h.forest.erase, h.linked.erase, fun c hc => ?_, nofun⟩
    obtain ⟨c', hc', hunder⟩ := h.under x rfl
    obtain rfl : c = c' := Option.some.inj (hc.symm.trans hc')
    exact mem_without.2 ⟨h.anchored c hc, (hunder.ne h.forest).symm⟩
  · exact h.idle

end Housed

theorem Permits.revert (h : Permits name n) : Permits name (n.revert name) := by
  unfold Node.revert
  split
  · exact h
  · exact h

/-! ## Candidates -/

theorem mem_of_mapM {α β : Type} {f : α → Option β} :
    ∀ {as : List α} {bs : List β}, as.mapM f = some bs → ∀ b ∈ bs, ∃ a ∈ as, f a = some b
  | [], bs, h => by
    obtain rfl : [] = bs := by simpa using h
    exact fun b hb => (List.not_mem_nil hb).elim
  | a :: as, bs, h => by
    simp only [List.mapM_cons, Option.bind_eq_bind, Option.bind_eq_some_iff, Option.pure_def,
      Option.some.injEq] at h
    obtain ⟨b, hb, cs, hcs, rfl⟩ := h
    intro x hx
    rcases List.mem_cons.1 hx with rfl | hx
    · exact ⟨a, by simp, hb⟩
    · obtain ⟨y, hy, hxy⟩ := mem_of_mapM hcs x hx
      exact ⟨y, by simp [hy], hxy⟩

/-- A candidate comes before the checkpoint, counted from the base. -/
theorem mem_of_candidate {c d : String} (h : d ∈ n.getDeleteCandidateChain disks (some c)) :
    c ∈ n.snaps.reverse ∧ d ∈ n.snaps.reverse.take (n.snaps.reverse.idxOf c) := by
  unfold Node.getDeleteCandidateChain at h
  dsimp only at h
  split_ifs at h with hskip
  · simp at h
  refine ⟨by_contra fun hc => hskip (.inr (.inl hc)), ?_⟩
  split at h
  · simp at h
  · rename_i snapList hmap
    obtain ⟨⟨x, size⟩, hx, rfl⟩ := List.mem_map.1 h
    have hx' : (x, size) ∈ snapList := (List.perm_insertionSort _ snapList).mem_iff.1 hx
    obtain ⟨y, hy, hxy⟩ := mem_of_mapM hmap _ hx'
    obtain ⟨z, -, hz⟩ := Option.map_eq_some_iff.1 hxy
    obtain rfl : y = x := congrArg Prod.fst hz
    exact List.mem_of_mem_drop (List.mem_of_mem_filter hy)

theorem Housed.candidate {c d : String} (h : Housed none n)
    (hd : d ∈ n.getDeleteCandidateChain disks (some c)) : Under n.below d c := by
  obtain ⟨hc, hd⟩ := mem_of_candidate hd
  obtain ⟨pre, post, hsplit, hpre⟩ := List.eq_append_cons_of_mem hc
  have hidx : n.snaps.reverse.idxOf c = pre.length := by
    rw [hsplit, List.idxOf_append_of_notMem hpre, List.idxOf_cons_self, Nat.add_zero]
  rw [hidx, hsplit, List.take_left] at hd
  have hsnaps : n.snaps = post.reverse ++ c :: pre.reverse := by
    rw [← List.reverse_reverse n.snaps, hsplit]
    simp
  exact ⟨pre.reverse, Linked.of_append (hsnaps ▸ h.linked), List.mem_reverse.2 hd⟩

/-- What the cleaner picks is below the checkpoint. -/
theorem Housed.pick {checkpoint : Option String} {d : String}
    (h : Housed none n) (hd : pick disks checkpoint n = some d) : Housed (some d) n := by
  unfold Jiva.pick at hd
  dsimp only at hd
  split_ifs at hd with hcheck
  have hmem := List.mem_of_head? hd
  cases checkpoint with
  | none => simp [Node.getDeleteCandidateChain] at hmem
  | some c =>
    refine ⟨h.forest, h.linked, h.anchored, fun x hx => ?_⟩
    obtain rfl := Option.mem_some_iff.1 hx
    exact ⟨c, hcheck.symm, h.candidate hmem⟩

/-! ## Runs -/

/-- `Revert` does not go below the checkpoint of a replica. -/
def Op.Sparing (op : Op) (w : World) : Prop :=
  match op with
  | .revertCommit clients name => ∀ a ∈ clients, Permits name (w.nodes a)
  | _ => True

instance (op : Op) (w : World) : Decidable (op.Sparing w) := by
  apply @Op.casesOn (Decidable <| ·.Sparing w) op <;> intros <;> unfold Op.Sparing <;>
    infer_instance

/-- The condition on a step. -/
def DeploymentOp.Sparing (s : Deployment) : DeploymentOp → Prop
  | .controller op _ => op.Sparing s.system.world
  | _ => True

instance (s : Deployment) (op : DeploymentOp) : Decidable (op.Sparing s) := by
  cases op <;> unfold DeploymentOp.Sparing <;> infer_instance

theorem housed_of_reach {S : Scope} {w' : World} (hS : ∀ f, S.sends a f → ∀ n, Housed d n →
      Housed d (f n))
    (h : Reach S w w') (ha : Housed d (w.nodes a)) : Housed d (w'.nodes a) :=
  node_of_reach (fun _ n hf hcheck hn => hf.elim (fun hq => hn.quiet hq hcheck)
    fun hs => hS _ hs n hn) h ha

/-- The replica is housed, and as long as it may still be asked to revert it permits that. -/
structure Reverting (clients : List Address) (name : String) (a : Address) (d : Option String)
    (w : World) : Prop where
  mirrored : Mirrored w.c
  housed : Housed d (w.nodes a)
  permits : a ∈ clients → Permits name (w.nodes a)

theorem revertOne_reverting {clients : List Address} {x : Address} (hx : x ∈ clients) :
    Triple (Reverting clients name a d) (revertOne name x) fun _ => Reverting clients name a d := by
  refine .fix fun w hw => .bind (requestIf_spec _ _ x w) fun err =>
    .fix fun w₁ h₁ => ?_
  have hw₁ : Reverting clients name a d w₁ := by
    refine ⟨h₁.c ▸ hw.mirrored, ?_, fun ha => ?_⟩
    · rcases eq_or_ne a x with rfl | hne
      · rcases h₁.node a with hsame | hreverted
        · exact hsame ▸ hw.housed
        · exact hreverted ▸ hw.housed.revert (hw.permits hx)
      · exact h₁.other a (by simpa using hne) ▸ hw.housed
    · rcases h₁.node a with hsame | hreverted
      · exact hsame ▸ hw.permits ha
      · exact hreverted ▸ (hw.permits ha).revert
  cases err with
  | none => exact .pure fun s hs => hs ▸ hw₁
  | some e =>
    refine .bind (Triple.result w₁) fun _ => .pure fun w₂ h₂ => ?_
    have hset := setReplicaModeNoLock_edited hw₁.mirrored x (m := .err) (by decide)
    rw [h₂] at hset
    refine ⟨hset.mirrored, ?_, ?_⟩
    · exact hset.side.1 ▸ hw₁.housed
    · exact hset.side.1 ▸ hw₁.permits

theorem revertCommit_housed (hw : Mirrored w.c)
    {clients : List Address} (h : Housed d (w.nodes a))
    (hpermits : a ∈ clients → Permits name (w.nodes a)) :
    Triple (fun s => s = w) (Controller.revertCommit clients name) fun _ s =>
    Housed d (s.nodes a) := by
  refine .bind (iterate_spec clients w) fun order => .fix ?_
  rintro _ ⟨horder, rfl⟩
  have heach := Triple.each (I := fun _ => Reverting clients name a d) []
    fun x (hx : x ∈ order) _ => revertOne_reverting (horder.mem_iff.1 hx)
  refine .bind (heach.pre ?_) fun results => .ite (fun _ => ?_) fun _ => ?_
  · rintro _ rfl
    exact ⟨hw, h, hpermits⟩
  · refine .bind (Q := fun _ s => Housed d (s.nodes a)) (fun s hs => ?_) fun _ => .pure fun _ => id
    have hstart := safe_startFrontend (S := .still) s hs.mirrored
    exact housed_of_reach (fun _ h => False.elim h) hstart.2 hs.housed
  · exact .pure fun s hs => hs.housed

/-- A step under the lock of the controller. -/
theorem act_housed (hw : Mirrored w.c) {op : Op} (hop : op.Sparing w) (h : Housed d (w.nodes a)) :
    Housed d ((op.act.run w).2.nodes a) := by
  have hreach := (safe_act op w hw).2
  cases op with
  | addCommit x uuid =>
    refine housed_of_reach ?_ hreach h
    rintro f rfl n hn
    exact hn.snapshot
  | snapshot name uuid =>
    refine housed_of_reach ?_ hreach h
    rintro f ⟨k, rfl⟩ n hn
    exact hn.snapshot
  | writeAt wr =>
    refine housed_of_reach ?_ hreach h
    rintro f ⟨wr, rfl⟩ n hn
    exact hn.of_same rfl rfl rfl
  | resize name bytes =>
    refine housed_of_reach ?_ hreach h
    rintro f ⟨k, rfl⟩ n hn
    exact hn.of_same rfl rfl rfl
  | revertCommit clients name => exact revertCommit_housed hw h (hop a) w rfl
  | _ => exact housed_of_reach (fun _ h => False.elim h) hreach h

theorem safe_deleteSnapshot {S : Scope} (name : String) : Safe S (deleteSnapshot name) := by
  have hloop : ∀ as, Safe S (prepareRemoveSnapshot as) := by
    intro as
    induction as with
    | nil => exact .pure _
    | cons a as ih =>
      refine .bind safe_ask fun err => ?_
      cases err with
      | some e => exact .pure _
      | none => exact ih
  refine .get fun w => .ite (fun _ => .pure _) fun _ => ?_
  split
  · exact .pure _
  · exact .ite (fun _ => .pure _) fun _ => hloop _

namespace Deployment

/-- The invariant. -/
structure Sound (s : Deployment) : Prop where
  mirrored : Mirrored s.system.world.c
  housed : ∀ a, Housed (s.cleaning a).disk (s.node a)

variable {s s' : Deployment} {a : Address}

theorem sound_new {rf : ℕ} {nodes : Address → Node}
    (h : ∀ a, Housed none (nodes a)) : (new name rf nodes).Sound :=
  ⟨mirrored_new name rf, h⟩

theorem Sound.setCleaning (h : s.Sound) {x : Cleaning} (hx : Housed x.disk (s.node a)) :
    (s.setCleaning a x).Sound := by
  refine ⟨h.mirrored, fun b => ?_⟩
  rcases eq_or_ne b a with rfl | hne
  · simpa [Deployment.setCleaning, node] using hx
  · simpa [Deployment.setCleaning, node, update_of_ne hne] using h.housed b

/-- The cleaner goes on with the same snapshot. -/
theorem Sound.goOn (h : s.Sound) {x : Cleaning} (hx : x.disk = (s.cleaning a).disk) :
    (s.setCleaning a x).Sound :=
  h.setCleaning (hx ▸ h.housed a)

/-- The cleaner gives up. -/
theorem Sound.giveUp (h : s.Sound) : (s.setCleaning a .idle).Sound :=
  h.setCleaning (h.housed a).idle

theorem Sound.removeDiffDisk (h : s.Sound) {d : String} (hd : (s.cleaning a).disk = some d) :
    ((s.setNode a (Node.removeDiffDisk d)).setCleaning a .idle).Sound := by
  refine ⟨h.mirrored, fun b => ?_⟩
  have hb := h.housed b
  rcases eq_or_ne b a with rfl | hne
  · rw [hd] at hb
    simpa [Deployment.setCleaning, node, Deployment.setNode, World.setNode, Cleaning.disk] using
      hb.removeDiffDisk
  · simpa [Deployment.setCleaning, node, Deployment.setNode, World.setNode,
      update_of_ne hne] using hb

theorem sound_of_controller {op : Op} {tape : ℕ → Moment} (h : s.Sound)
    (hop : op.Sparing s.system.world) (hstep : s.step (.controller op tape) = some s') :
    s'.Sound := by
  cases op with
  | node a n => simp [step] at hstep
  | restart =>
    obtain ⟨t, ht, rfl⟩ := Option.map_eq_some_iff.1 hstep
    rw [System.step_restart] at ht
    obtain rfl := Option.some.inj ht
    exact ⟨mirrored_new _ _, h.housed⟩
  | _ =>
    obtain ⟨t, ht, rfl⟩ := Option.map_eq_some_iff.1 hstep
    refine ⟨(System.step_reach h.mirrored ht rfl).1, fun a => ?_⟩
    rw [node, System.world_of_step ht rfl]
    exact act_housed (w := s.system.world.onTape tape) h.mirrored hop (h.housed a)

/-- Every step that spares the checkpoints keeps the invariant. -/
theorem sound_of_step {op : DeploymentOp} (h : s.Sound) (hop : op.Sparing s)
    (hstep : s.step op = some s') : s'.Sound := by
  cases op with
  | controller op tape => exact sound_of_controller h hop hstep
  | deleteSnapshot name tape =>
    dsimp only [step] at hstep
    split_ifs at hstep
    obtain rfl := Option.some.inj hstep
    have hsafe := safe_deleteSnapshot (S := .still) name (s.system.world.onTape tape) h.mirrored
    refine ⟨hsafe.1, fun a => ?_⟩
    exact housed_of_reach (w := s.system.world.onTape tape)
      (fun _ h => False.elim h) hsafe.2 (h.housed a)
  | pick a disks =>
    dsimp only [step] at hstep
    split at hstep
    · rename_i hidle
      have ha := h.housed a
      rw [hidle] at ha
      split at hstep <;> obtain rfl := Option.some.inj hstep
      · exact h
      · rename_i d hd
        exact h.setCleaning (ha.pick hd)
    · simp at hstep
  | prepareRemoveDisk a reply | coalesce a reply =>
    dsimp only [step] at hstep
    split at hstep
    · rename_i d hd
      split_ifs at hstep <;> obtain rfl := Option.some.inj hstep
      · exact h.goOn (by rw [hd]; rfl)
      · exact h.giveUp
    · simp at hstep
  | removeDiffDisk a reply =>
    dsimp only [step] at hstep
    split at hstep
    · rename_i d hd
      split_ifs at hstep <;> obtain rfl := Option.some.inj hstep
      · exact h.removeDiffDisk (by rw [hd]; rfl)
      · exact h.giveUp
    · simp at hstep
  | reload a restarted =>
    obtain rfl := Option.some.inj hstep
    cases restarted with
    | false => exact h
    | true => exact h.giveUp

end Deployment

theorem stopIndex_lt {chain : List DiskName} (h : chain ≠ []) (checkpoint : Option DiskName) :
    stopIndex chain checkpoint < chain.length := by
  unfold stopIndex
  split
  · rename_i indx hindx
    exact (List.findIdx?_eq_some_iff_getElem.1 hindx).1
  · have := List.length_pos_iff.2 h
    omega

/-- The checkpoint is not missed. -/
theorem not_missing {n' : Node} (hsnaps : n'.snaps = n.snaps)
    (h : ∀ c ∈ n.checkpoint, c ∈ n.snaps) :
    (n.checkpoint.any fun c => decide (DiskName.snap c ∉ n'.chain)) = false := by
  cases hc : n.checkpoint with
  | none => rfl
  | some c =>
    have hmem : DiskName.snap c ∈ n'.chain :=
      List.mem_cons_of_mem _ (List.mem_map_of_mem (hsnaps ▸ h c hc))
    simp [hmem]

/-- A rebuild from a replica with the same snapshots passes if the checkpoint is one of them. -/
theorem verifyChains_same {b : Address} {n' : Node} (hsnaps : n'.snaps = n.snaps)
    (h : ∀ c ∈ n.checkpoint, c ∈ n.snaps) :
    verifyChains a b n'.chain n.chain (n.checkpoint.map .snap) = none := by
  have hmissing := not_missing hsnaps h
  have hlength : n.chain.length = n'.chain.length := by simp [Node.chain, hsnaps]
  have hlt : stopIndex n'.chain (n.checkpoint.map .snap) < n'.chain.length :=
    stopIndex_lt (List.cons_ne_nil _ _) _
  unfold verifyChains
  rw [Option.any_map, if_neg, if_neg, if_neg]
  · simp [compared, Node.chain, hsnaps]
  · omega
  · simpa [Function.comp_def] using hmissing

/-- In a run in which `Revert` does not go below the checkpoint of a replica, the checkpoint of each
replica is in its chain, and a replica with the same snapshots does not miss it. -/
theorem checkpoint_in_chain (name : String) (rf : ℕ) (nodes : Address → Node)
    (hnodes : ∀ a, Housed none (nodes a)) (ls : List DeploymentOp) (s : Deployment)
    (hspare : Transition.Along Deployment.step (fun s op => op.Sparing s)
      (Deployment.new name rf nodes) ls)
    (h : run Deployment.step (Deployment.new name rf nodes) ls = some s) (a : Address) :
    (∀ c ∈ (s.node a).checkpoint, .snap c ∈ (s.node a).chain) ∧
      ∀ b, (s.node b).snaps = (s.node a).snaps →
        (∃ plan, isRevisionCountAndChainSame (s.node b) (s.node a) = .ok plan) ∧
          verifyChains a b (s.node b).chain (s.node a).chain ((s.node a).checkpoint.map .snap) =
            none := by
  have hsound : s.Sound :=
    inv_of_run (I := Deployment.Sound) (fun _ _ _ hs hg => Deployment.sound_of_step hs hg)
      (Deployment.sound_new hnodes) hspare h
  have hmem := (hsound.housed a).anchored
  refine ⟨fun c hc => List.mem_cons_of_mem _ (List.mem_map_of_mem (hmem c hc)), fun b hsnaps => ?_⟩
  refine ⟨⟨_, if_neg ?_⟩, verifyChains_same hsnaps hmem⟩
  rw [not_missing hsnaps hmem]
  exact Bool.false_ne_true

/-- Steps of the controller without a failure. -/
def Deployment.calmly (ops : List Op) : List DeploymentOp :=
  ops.map fun op => .controller op fun _ => .calm

/-- A replica leaves and comes back, which takes the snapshot `uuid`. -/
def comeBack (uuid : String) : List Op :=
  [.removeReplica "tcp://b:9502", .addBegin "tcp://b:9502", .addCommit "tcp://b:9502" uuid,
    .verifyRebuild "tcp://b:9502"]

/-- `Revert` on both replicas. -/
def revertBoth (name : String) : List Op :=
  [.revertBegin name, .revertCommit ["tcp://a:9502", "tcp://b:9502"] name]

/-- Snapshots are taken, the checkpoint moves up, the cleaner of one replica removes the snapshot
that comes after the base, and `Revert` goes to the checkpoint. -/
def cleanAndRevert : List DeploymentOp :=
  Deployment.calmly (rebuildOne ++ ["2", "3", "4", "5", "6", "7", "8", "9", "10", "11", "12"].map
      (fun n => .snapshot n "") ++ comeBack "13") ++
    [.deleteSnapshot "2" fun _ => .calm, .pick "tcp://a:9502" fun _ => ⟨true, true, some 4096⟩,
      .prepareRemoveDisk "tcp://a:9502" .ok, .coalesce "tcp://a:9502" .ok,
      .removeDiffDisk "tcp://a:9502" .ok] ++
    Deployment.calmly (revertBoth "13") ++ [.reload "tcp://a:9502" true]

theorem housed_blank : Housed none .blank :=
  ⟨forest_empty, trivial, nofun, nofun⟩

theorem checkpoint_in_chain_cleanAndRevert : ∃ s,
    run Deployment.step (Deployment.new "vol" 2 fun _ => .blank) cleanAndRevert = some s ∧
      (s.node "tcp://a:9502").snaps = ["13", "12", "11", "10", "9", "8", "7", "6", "5",
        "4", "3", "s1"] ∧
      (s.node "tcp://a:9502").checkpoint = some "13" ∧
      .snap "13" ∈ (s.node "tcp://a:9502").chain :=
  exists_of_any (p := fun s => (s.node "tcp://a:9502").snaps =
      ["13", "12", "11", "10", "9", "8", "7", "6", "5", "4", "3", "s1"] ∧
    (s.node "tcp://a:9502").checkpoint = some "13") (by decide +kernel) fun s hs h => ⟨h.1, h.2,
      (checkpoint_in_chain _ _ _ (fun _ => housed_blank) _ s (along_of_check (by decide +kernel)) hs
        _).1 "13" h.2⟩

/-- `Revert` goes to the snapshot below the checkpoint. -/
def revertBelow : List DeploymentOp :=
  Deployment.calmly (rebuildOne ++ [.snapshot "x" ""] ++ comeBack "y" ++ revertBoth "x")

/-- Both replicas have the same snapshots and a checkpoint that is not one of them, and each is
rejected when it is rebuilt from the other. -/
theorem revertBelow_strays : ∃ s,
    run Deployment.step (Deployment.new "vol" 2 fun _ => .blank) revertBelow = some s ∧
      (s.node "tcp://a:9502").snaps = ["x", "s1"] ∧ (s.node "tcp://b:9502").snaps = ["x", "s1"] ∧
      (s.node "tcp://a:9502").checkpoint = some "y" ∧ .snap "y" ∉ (s.node "tcp://a:9502").chain ∧
      isRevisionCountAndChainSame (s.node "tcp://b:9502") (s.node "tcp://a:9502") =
        .error "Current replica's checkpoint not present in rwReplica chain" ∧
      verifyChains "tcp://a:9502" "tcp://b:9502" (s.node "tcp://b:9502").chain
          (s.node "tcp://a:9502").chain ((s.node "tcp://a:9502").checkpoint.map .snap) =
        some "WO replica's checkpoint not present in rwReplica chain" := by
  refine exists_of_any (p := fun s => (s.node "tcp://a:9502").snaps = ["x", "s1"] ∧
    (s.node "tcp://b:9502").snaps = ["x", "s1"] ∧ (s.node "tcp://a:9502").checkpoint = some "y")
    (by decide +kernel) ?_
  rintro s - ⟨ha, hb, hcheck⟩
  refine ⟨ha, hb, hcheck, ?_, ?_, ?_⟩
  · simp [Node.chain, ha]
  · simp [isRevisionCountAndChainSame, Node.chain, hb, hcheck]
  · simp [verifyChains, Node.chain, hb, hcheck]

end Jiva
