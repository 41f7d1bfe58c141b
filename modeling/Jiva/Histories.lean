import Jiva.LatestSnapshot
import Jiva.WriteQuorum

/-!
# What the history of a volume tells

The theorems look back along a run of the controller, in which requests are lost or fail after they
were applied, replicas join, leave and are rebuilt, and the process is started again. The mode of a
data replica comes from an operation that names the replica, and the replica has been in that mode
since (`mode_since`). Each replica has got the writes of the clients in their order and none of them
twice (`writes_once`).
-/

namespace Jiva

open Hoare Controller Transition

variable {name : String} {rf : ℕ} {nodes : Address → Node} {a : Address} {m : BackendMode}
    {w : World} {s s' : System}
  {ls : List (Op × (ℕ → Moment))} {l : Op × (ℕ → Moment)} {op : Op}

/-! ## Modes -/

/-- The operations that may bring the data replica `a` to mode `m`. -/
def Op.brings (a : Address) (m : BackendMode) : Op → Prop
  | .start addresses => a ∈ addresses
  | .addCommit b _ => a = b ∧ m = .wo
  | .verifyRebuild b => a = b ∧ m = .rw
  | .setReplicaMode b mode => a = b ∧ m = .rw ∧ mode = .rw
  | _ => False

theorem Op.brings_of_scope (h : m = .rw ∧ op.scope.sets a .rw ∨ m = .wo ∧ op.scope.adds a) :
    op.brings a m := by
  rcases h with ⟨rfl, h⟩ | ⟨rfl, h⟩
  · cases op with
    | start => exact h.1
    | verifyRebuild b => exact ⟨h.1, rfl⟩
    | setReplicaMode b mode => exact ⟨h.1, rfl, h.2.symm⟩
    | _ => exact h.elim
  · cases op with
    | start => exact h
    | addCommit b uuid => exact ⟨h, rfl⟩
    | _ => exact h.elim

namespace System

theorem mode_of_step (hs : Mirrored s.world.c) (hm : m ≠ .err) (hstep : step s l = some s')
    (ha : ⟨a, m⟩ ∈ s'.world.c.replicas) : ⟨a, m⟩ ∈ s.world.c.replicas ∨ l.1.brings a m := by
  obtain ⟨op, tape⟩ := l
  cases op with
  | restart =>
    rw [step_restart] at hstep
    obtain rfl := Option.some.inj hstep
    exact absurd ha List.not_mem_nil
  | node b n =>
    rw [step_node] at hstep
    obtain rfl := Option.some.inj hstep
    exact .inl ha
  | _ =>
    have hmodes := modesFrom_of_reach (step_reach hs hstep rfl).2
    refine Or.imp_right Op.brings_of_scope ?_
    cases m with
    | rw => exact (hmodes.rw a ha).imp_right fun h => .inl ⟨rfl, h⟩
    | wo => exact (hmodes.wo a ha).imp_right fun h => .inr ⟨rfl, h⟩
    | err => exact (hm rfl).elim

/-- A data replica is in mode `RW` or `WO` since an operation that names it, without a break. -/
theorem mode_since (hm : m ≠ .err) (h : run step (new name rf nodes) ls = some s)
    (ha : ⟨a, m⟩ ∈ s.world.c.replicas) :
    HeldSince step (fun l => l.1.brings a m) (fun u => ⟨a, m⟩ ∈ u.world.c.replicas)
      (new name rf nodes) ls :=
  since_of_run (P := fun u => ⟨a, m⟩ ∈ u.world.c.replicas) List.not_mem_nil
    (fun _ _ _ _ hrun hstep => mode_of_step (mirrored_of_run hrun) hm hstep) h ha

/-- The second replica is in mode `RW` since it was verified. -/
theorem mode_since_rebuildOne : ∃ s,
    run step (new "vol" 2 fun _ => .blank) (calmly rebuildOne) = some s ∧
    HeldSince step (fun l => l.1.brings "tcp://b:9502" .rw) (fun u => ⟨"tcp://b:9502", .rw⟩ ∈
      u.world.c.replicas) (new "vol" 2 fun _ => .blank) (calmly rebuildOne) :=
  exists_of_any (p := fun s => ⟨"tcp://b:9502", .rw⟩ ∈ s.world.c.replicas)
    (by decide +kernel) fun _ hs h =>
    mode_since nofun hs h

end System

/-! ## Writes -/

/-- The writes that a replica has got, without the empty ones by which the quorum replicas count. -/
def Node.log (n : Node) : List Write :=
  n.writes.filter (· ≠ ⟨0, []⟩)

/-- The writes that the controller gets, in order. -/
def clientWrites (ls : List (Op × (ℕ → Moment))) : List Write :=
  ls.filterMap fun l => match l.1 with
    | .writeAt wr => some wr
    | _ => none

theorem writes_sent_once {wr : Write} {as : List Address} (hnd : as.Nodup) (w : World)
    (a : Address) :
    ((sent (Node.writeAt wr) as w).nodes a).writes.Sublist ((w.nodes a).writes ++ [wr]) := by
  by_cases ha : a ∈ as
  · obtain ⟨i, hi⟩ := List.mem_iff_getElem?.1 ha
    rw [sent_nodes _ w hnd hi]
    split
    · exact List.Sublist.refl _
    · exact List.sublist_append_left _ _
  · rw [sent_nodes_of_not_mem _ w ha]
    exact List.sublist_append_left _ _

/-- A write is put at the end of the log of a replica, or is not. -/
theorem log_writeAt (hw : Mirrored w.c) (wr : Write) (a : Address) :
    (((Controller.writeAt wr).run w).2.nodes a).log.Sublist ((w.nodes a).log ++ [wr]) := by
  by_cases hsent : w.c.readOnly = false ∧ w.c.inBounds wr.off wr.data.length = true ∧
    countRW w.c.replicas ≠ 0
  · obtain ⟨k, hk⟩ :=
      writes_sent ⟨0, []⟩ a (updaterNames w.c) (sent (Node.writeAt wr) (writerNames w.c) w)
    unfold Node.log
    rw [(writeAt_sent hw hsent.1 hsent.2.1 hsent.2.2 w rfl).1 a, afterWrite, hk, List.filter_append,
      List.filter_replicate_of_neg (by simp), List.append_nil]
    refine ((writes_sent_once (nodup_writerNames hw) w a).filter _).trans ?_
    rw [List.filter_append]
    exact List.Sublist.append_left List.filter_sublist _
  · rw [(writeAt_unsent hw hsent w rfl).2]
    exact List.sublist_append_left _ _

/-- Nothing else that is sent to a replica is a write. -/
theorem writes_of_scope (hop : ∀ wr, op ≠ .writeAt wr) {f : Node → Node}
    (h : Quiet f ∨ op.scope.sends a f) (n : Node) : (f n).writes = n.writes := by
  have hsnap : ∀ uuid, (n.snapshot uuid).writes = n.writes := fun uuid => by
    unfold Node.snapshot
    split <;> rfl
  rcases h with h | h
  · exact h.writes n
  · cases op with
    | writeAt wr => exact (hop wr rfl).elim
    | addCommit b uuid => exact h ▸ hsnap uuid
    | snapshot =>
      obtain ⟨uuid, rfl⟩ := h
      exact hsnap uuid
    | resize =>
      obtain ⟨z, rfl⟩ := h
      rfl
    | revertCommit clients x =>
      subst h
      unfold Node.revert
      split <;> rfl
    | _ => exact h.elim

namespace System

theorem log_step (hs : Mirrored s.world.c) (hnode : ∀ n, l.1 ≠ .node a n)
    (hstep : step s l = some s') :
    (s'.world.nodes a).log.Sublist ((s.world.nodes a).log ++ clientWrites [l]) := by
  obtain ⟨op, tape⟩ := l
  by_cases hwrite : ∃ wr, op = .writeAt wr
  · obtain ⟨wr, rfl⟩ := hwrite
    rw [world_of_step hstep rfl]
    exact log_writeAt (w := s.world.onTape tape) hs wr a
  · have hsame : (s'.world.nodes a).writes = (s.world.nodes a).writes := by
      cases op with
      | restart =>
        rw [step_restart] at hstep
        obtain rfl := Option.some.inj hstep
        rfl
      | node b n =>
        rw [step_node] at hstep
        obtain rfl := Option.some.inj hstep
        have hne : a ≠ b := fun hab => hnode n (by rw [hab])
        simp [World.setNode, Function.update_of_ne hne]
      | _ =>
        have hno := fun wr h => hwrite ⟨wr, h⟩
        exact nodes_of_reach (fun _ _ hf => writes_of_scope hno hf) (step_reach hs hstep rfl).2 a
    unfold Node.log
    rw [hsame]
    exact List.sublist_append_left _ _

/-- The log of a replica that is not changed from outside is a sublist of what it was at first and
the writes of the run. -/
theorem writes_once (hnode : ∀ l ∈ ls, ∀ n, l.1 ≠ .node a n)
    (h : run step (new name rf nodes) ls = some s) :
    (s.world.nodes a).log.Sublist ((nodes a).log ++ clientWrites ls) := by
  refine run_rec (P := fun ls s => (∀ l ∈ ls, ∀ n, l.1 ≠ .node a n) →
    (s.world.nodes a).log.Sublist ((nodes a).log ++ clientWrites ls))
    (fun _ => List.sublist_append_left _ _) (fun ls s l s' hrun ih _ hstep hnode => ?_) ls s
    (along_true ..) h hnode
  have happend : clientWrites (ls ++ [l]) = clientWrites ls ++ clientWrites [l] :=
    List.filterMap_append
  refine (log_step (mirrored_of_run hrun) (hnode l (by simp)) hstep).trans ?_
  rw [happend, ← List.append_assoc]
  exact (ih fun x hx => hnode x (by simp [hx])).append_right _

/-- The second replica gets one write and refuses the next one. -/
def refuseSecond : List (Op × (ℕ → Moment)) :=
  calmly (rebuildOne ++ [.writeAt ⟨0, [7]⟩]) ++ [(.writeAt ⟨1, [8]⟩, refuseAt 0)]

theorem writes_once_refuseSecond :
    ∃ s, run step (new "vol" 2 fun _ => .blank) refuseSecond = some s ∧
    (s.world.nodes "tcp://b:9502").log = [⟨0, [7]⟩] ∧
    (s.world.nodes "tcp://b:9502").log.Sublist (clientWrites refuseSecond) := by
  have hnode : ∀ l ∈ refuseSecond, ∀ n, l.1 ≠ .node "tcp://b:9502" n := by
    simp [refuseSecond, calmly, rebuildOne]
  exact exists_of_any (p := fun s => (s.world.nodes "tcp://b:9502").log = [⟨0, [7]⟩])
    (by decide +kernel) fun _ hs h => ⟨h, writes_once hnode hs⟩

end System

end Jiva
