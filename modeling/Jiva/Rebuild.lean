import Jiva.Election

/-!
# Interrupted rebuilds

A replica process runs `AddReplica` from its start. It clears the mark of a rebuild that failed
(`checkAndResetFailedRebuild`), registers with the controller until the volume is up, and is then
added and rebuilt : the mark `Rebuilding` is written to `volume.meta` before the rebuild and cleared
after it. The process can end at any of these calls and be started again (`Process.step`). The calls
to the controller other than `Register` succeed or fail as the environment has it, and the
controller serves them as operations of its own, in any order (`Cluster`).

The mark is to keep a half rebuilt replica from being told to start. But it is cleared before the
replica registers : whatever the state of its last rebuild, it is registered as settled, and can be
chosen. `rebuilt_leader` is what holds when such a replica finds a leader that stays ahead of it.
`halfRebuilt_elected` is a run in which it registers first.
-/

namespace Jiva

open Hoare Controller Relation Function Transition

/-! ## Replica processes -/

/-- The marks in `volume.meta`. -/
structure Marks where
  dirty : Bool
  rebuilding : Bool
  deriving DecidableEq, Repr

/-- `State` of a replica that has been created. -/
inductive State
  | closed
  | opened
  | dirty
  | rebuilding
  deriving DecidableEq, Repr

/-- The text of a state in a registration. -/
def State.text : State → String
  | .closed => "closed"
  | .opened => "open"
  | .dirty => "dirty"
  | .rebuilding => "rebuilding"

/-- The call of `AddReplica` that comes next. -/
inductive Stage
  | down
  | checking
  | resetting
  | closing
  | creating
  | registering
  | starting
  | adding
  | marking
  | syncing
  | reloading
  | verifying
  | clearing
  | done
  deriving DecidableEq, Repr

/-- A replica process. `disk` is what `volume.meta` has, `memory` what an open replica has of it.
`revCount` was read when the replica was created for `Register`. `rebuilt` is that the last rebuild
of the replica, if there was one, has been completed. -/
structure Process where
  uuid : String
  disk : Marks
  memory : Option Marks
  revCount : ℤ
  stage : Stage
  rebuilt : Bool
  deriving DecidableEq, Repr

namespace Process

/-- A replica that has been created and closed. -/
def new (uuid : String) : Process where
  uuid := uuid
  disk := ⟨false, false⟩
  memory := none
  revCount := 0
  stage := .down
  rebuilt := true

/-- `Server.Status`. -/
def status (p : Process) : State :=
  match p.memory with
  | none => .closed
  | some info => if info.rebuilding then .rebuilding else if info.dirty then .dirty else .opened

/-- `Server.PrevStatus`. -/
def prevStatus (p : Process) : State :=
  if p.disk.rebuilding then .rebuilding else if p.disk.dirty then .dirty else .closed

/-- `Server.Open`. -/
def openReplica (p : Process) : Process :=
  { p with memory := some p.disk, disk := { p.disk with dirty := true } }

/-- `Server.Close`. -/
def close (p : Process) : Process :=
  match p.memory with
  | none => p
  | some info => { p with disk := ⟨false, info.rebuilding⟩, memory := none }

/-- `Server.Reload`. The old replica is closed after the new one has been opened. -/
def reload (p : Process) : Process :=
  match p.memory with
  | none => p
  | some info => { p with memory := some p.disk, disk := ⟨false, info.rebuilding⟩ }

/-- `Server.SetRebuilding`. -/
def setRebuilding (rebuilding : Bool) (p : Process) : Option Process :=
  match p.memory with
  | none => none
  | some info =>
    if rebuilding = true ∧ p.status ≠ .opened ∧ p.status ≠ .dirty ∨
        rebuilding = false ∧ p.status ≠ .rebuilding then none
    else some { p with
      disk := ⟨true, rebuilding⟩, memory := some { info with rebuilding := rebuilding } }

/-- The process ends with an error, after it has closed the replica. -/
def exit (p : Process) : Process :=
  { p.close with stage := .down }

/-- The process ends at once. -/
def crash (p : Process) : Process :=
  { p with memory := none, stage := .down }

/-- A call with the effect `f`, and the stage after it. -/
def call (p : Process) (r : Reply) (f : Process → Process) (stage : Stage) : Process :=
  let p' := if r.applied then f p else p
  if r.err = none then { p' with stage := stage } else p'.exit

/-- The call that comes next returns. `counter` is the revision counter on disk. -/
def next (p : Process) (counter : ℤ) (r : Reply) : Option Process :=
  match p.stage with
  | .down => none
  | .checking =>
    if p.status = .closed ∧ p.disk.rebuilding = true then some (p.call r openReplica .resetting)
    else some { p with stage := .creating }
  | .resetting =>
    match p.setRebuilding false with
    | none => some p.exit
    | some p' => some (p.call r (fun _ => p') .closing)
  | .closing => some (p.call r close .creating)
  | .creating => some (p.call r (fun p => { p with revCount := counter }) .registering)
  | .registering => none
  | .starting => some (p.call r openReplica .done)
  | .adding => some (p.call r openReplica .marking)
  | .marking =>
    match p.setRebuilding true with
    | none => some p.exit
    | some p' => some (p.call r (fun _ => { p' with rebuilt := false }) .syncing)
  | .syncing => some (p.call r id .reloading)
  | .reloading => some (p.call r reload .verifying)
  | .verifying => some (p.call r id .clearing)
  | .clearing =>
    match p.setRebuilding false with
    | none => some p.exit
    | some p' => some (p.call r (fun _ => { p' with rebuilt := true }) .done)
  | .done => none

end Process

/-- What a replica process does. It goes on from its registration when the volume has replicas
(`join`) or when it was told to start (`start`). `again` is when the connection to the controller is
lost. -/
inductive Event
  | launch
  | next (r : Reply)
  | join
  | start
  | again
  | crash
  deriving DecidableEq, Repr

/-- One step of a replica process. -/
def Process.step (p : Process) (counter : ℤ) : Event → Option Process
  | .launch => if p.stage = .down then some { p with stage := .checking } else none
  | .next r => p.next counter r
  | .join => if p.stage = .registering then some { p with stage := .adding } else none
  | .start => if p.stage = .registering then some { p with stage := .starting } else none
  | .again => if p.stage = .done then some { p.close with stage := .checking } else none
  | .crash => some p.crash

namespace Process

variable {p p' : Process}

@[simp] theorem rebuilt_close (p : Process) : p.close.rebuilt = p.rebuilt := by
  unfold close
  split <;> rfl

@[simp] theorem rebuilt_exit (p : Process) : p.exit.rebuilt = p.rebuilt :=
  rebuilt_close p

@[simp] theorem rebuilt_reload (p : Process) : p.reload.rebuilt = p.rebuilt := by
  unfold reload
  split <;> rfl

theorem rebuilt_setRebuilding {b : Bool} (h : p.setRebuilding b = some p') :
    p'.rebuilt = p.rebuilt := by
  unfold setRebuilding at h
  split at h
  · exact nomatch h
  · split at h
    · exact nomatch h
    · rw [← Option.some.inj h]

theorem rebuilt_call (hp : p.rebuilt = true) (r : Reply) {f : Process → Process}
    (hf : (f p).rebuilt = true) (stage : Stage) : (p.call r f stage).rebuilt = true := by
  unfold call
  split <;> split <;> simp [hp, hf]

/-- Only the call that marks the replica begins a rebuild. -/
theorem rebuilt_next {counter : ℤ} {r : Reply} (hp : p.rebuilt = true)
    (hstage : p.stage ≠ .marking) (h : p.next counter r = some p') : p'.rebuilt = true := by
  have hset : ∀ {q : Process} {b : Bool}, p.setRebuilding b = some q → q.rebuilt = true :=
    fun hq => (rebuilt_setRebuilding hq).trans hp
  unfold next at h
  cases hs : p.stage with
  | down | registering | done =>
    rw [hs] at h
    exact nomatch h
  | marking => exact (hstage hs).elim
  | checking =>
    rw [hs] at h
    dsimp only at h
    split at h <;> obtain rfl := Option.some.inj h
    · exact rebuilt_call hp r hp _
    · exact hp
  | resetting | clearing =>
    rw [hs] at h
    dsimp only at h
    split at h <;> obtain rfl := Option.some.inj h
    · rw [rebuilt_exit, hp]
    · exact rebuilt_call hp r (by first | rfl | exact hset ‹_›) _
  | closing | creating | starting | adding | syncing | reloading | verifying =>
    rw [hs] at h
    obtain rfl := Option.some.inj h
    exact rebuilt_call hp r (by simp [hp, openReplica]) _

theorem rebuilt_step {counter : ℤ} {e : Event} (hp : p.rebuilt = true)
    (hmark : ∀ r, e = .next r → p.stage ≠ .marking) (h : p.step counter e = some p') :
    p'.rebuilt = true := by
  cases e with
  | next r => exact rebuilt_next hp (hmark r rfl) h
  | crash =>
    obtain rfl := Option.some.inj h
    exact hp
  | _ =>
    simp only [step] at h
    split at h
    · obtain rfl := Option.some.inj h
      simp [hp]
    · exact nomatch h

end Process

/-! ## The cluster -/

/-- The controller and the replica processes. `told` has the replicas that were told to start, and
whether the last rebuild of each was complete then. -/
structure Cluster where
  system : System
  process : Address → Process
  told : List (Address × Bool)

/-- What happens in a cluster. -/
inductive ClusterOp
  | controller (op : Op)
  | register (a : Address)
  | replica (a : Address) (e : Event)

/-- The registration of a data replica comes from its process. -/
def Op.fromOutside : Op → Bool
  | .register r => r.repType = "quorum"
  | _ => true

namespace Cluster

/-- A new controller, and replicas that have not been started. -/
def new (name : String) (rf : ℕ) (nodes : Address → Node) (uuid : Address → String) : Cluster where
  system := System.new name rf nodes
  process := fun a => .new (uuid a)
  told := []

/-- What the process at `a` registers with. -/
def registration (s : Cluster) (a : Address) : RegReplica where
  address := a
  uuid := (s.process a).uuid
  revCount := (s.process a).revCount
  repType := "Backend"
  repState := (s.process a).prevStatus.text

/-- The replicas that were told to start on the way to `t`. -/
def signalled (s : Cluster) (t : System) : List (Address × Bool) :=
  (t.world.signals.drop s.system.world.signals.length).map fun c =>
    (c.maxRevReplica, (s.process c.maxRevReplica).rebuilt)

/-- One step of the cluster. -/
def step (s : Cluster) (l : ClusterOp × (ℕ → Moment)) : Option Cluster :=
  match l.1 with
  | .controller op =>
    if op.fromOutside then (System.step s.system (op, l.2)).map fun t => { s with system := t }
    else none
  | .register a =>
    if (s.process a).stage = .registering then
      (System.step s.system (.register (s.registration a), l.2)).map fun t =>
        { s with system := t, told := s.told ++ s.signalled t }
    else none
  | .replica a e =>
    ((s.process a).step (s.system.world.nodes (tcp a)).revisionCounter e).map fun p =>
      { s with process := update s.process a p }

end Cluster

/-! ## Who is told to start -/

section Told

variable {ok : Address → Prop} {register : RegReplica}
variable {c : Controller} {w w₀ : World}

/-- Of the replicas that were told to start since `w₀`, all are in `ok`. -/
def Told (ok : Address → Prop) (w₀ w : World) : Prop :=
  ∃ cs, w.signals = w₀.signals ++ cs ∧ ∀ c ∈ cs, ok c.maxRevReplica

theorem told_of_signals (h : w.signals = w₀.signals) : Told ok w₀ w :=
  ⟨[], by rw [h, List.append_nil], fun _ hc => (List.not_mem_nil hc).elim⟩

/-- The leader that waits to be told to start is in `ok`. -/
def Waits (ok : Address → Prop) (c : Controller) : Prop :=
  c.startSignalled = false → c.maxRevReplica ≠ "" → ok c.maxRevReplica

theorem waits_of_signalled (h : c.startSignalled = true) : Waits ok c :=
  fun hs => absurd (h.symm.trans hs) (by decide)

theorem waits_of_none (h : c.maxRevReplica = "") : Waits ok c :=
  fun _ hne => (hne h).elim

theorem Waits.withdraws {c' : Controller} (h : Waits ok c) (hreg : Withdraws c c') :
    Waits ok c' := by
  intro hs hne
  obtain ⟨hs₀, hleader⟩ := (hreg.leader hs).resolve_left hne
  rw [hleader] at hne ⊢
  exact h hs₀ hne

/-- Whatever the order of the keys, the leader that is chosen is in `ok`. -/
def Chooses (ok : Address → Prop) (register : RegReplica) (c : Controller) : Prop :=
  ∀ order, order.Perm c.registeredReplicas.keys → ok (elect register c.registeredReplicas
    (if c.maxRevReplica = "" then register.address else c.maxRevReplica) order)

/-- A replica in `ok` registers, and so is the leader if there is one. -/
theorem chooses_of_ok (hreg : ok register.address)
    (hleader : c.maxRevReplica ≠ "" → ok c.maxRevReplica) : Chooses ok register c := by
  intro order _
  by_cases hnone : c.maxRevReplica = ""
  · rw [if_pos hnone, elect_self]
    exact hreg
  · rw [if_neg hnone, elect_eq]
    split
    · exact hreg
    · exact hleader hnone

/-- The leader stays if no revision count is greater than its own. -/
theorem chooses_of_le (hne : c.maxRevReplica ≠ "") (hleader : ok c.maxRevReplica)
    (hle : ∀ k ∈ c.registeredReplicas.keys, revCountOf c.registeredReplicas k ≤
      revCountOf c.registeredReplicas c.maxRevReplica) : Chooses ok register c := by
  intro order horder
  rw [if_neg hne, elect_eq, if_neg]
  · exact hleader
  · rintro ⟨k, hk, hlt⟩
    exact Int.not_le.2 hlt (hle k (horder.mem_iff.1 hk))

/-- The replica that registers is not chosen : replicas are attached, or the leader that was told to
start is another one and answers, or a leader waits that is another one, and no registered replica
is ahead of it. -/
def Outranked (register : RegReplica) (w : World) : Prop :=
  w.c.replicas ≠ [] ∨
    (w.c.startSignalled = true ∧ register.address ≠ w.c.maxRevReplica ∧
      (verifyReplicaAlive.run (w.setC (record register))).1 = true) ∨
    (w.c.startSignalled = false ∧ w.c.maxRevReplica ≠ "" ∧
      ∀ k ∈ (record register w.c).registeredReplicas.keys,
        revCountOf (record register w.c).registeredReplicas k ≤
          revCountOf (record register w.c).registeredReplicas w.c.maxRevReplica)

instance (register : RegReplica) (w : World) : Decidable (Outranked register w) :=
  inferInstanceAs (Decidable (_ ∨ _ ∨ _))

/-- A data replica that registers is in `ok`, or it is not chosen. -/
theorem registerReplica_told (hwaits : Waits ok w₀.c)
    (hreg : Records register w₀.c → ok register.address ∨ Outranked register w₀) :
    Triple (fun s => s = w₀) (registerReplica register) fun _ s => Told ok w₀ s ∧ Waits ok s.c := by
  have hchoice : ∀ {c : Controller}, Waits ok c → Chooses ok register c →
      Choice (fun c => ok c.maxRevReplica) (Waits ok) register c := fun hw hc =>
    ⟨fun _ => hw, fun _ order hperm => ⟨fun _ _ => hc order hperm, fun _ => hc order hperm⟩⟩
  refine registerReplica_since (S := fun c => ok c.maxRevReplica)
    (fun c _ => ⟨waits_of_none rfl, waits_of_signalled rfl⟩) hwaits hwaits fun hrec =>
    ⟨fun _ => hwaits,
      fun hnil hs => hchoice hwaits ?_, fun hnil hs haddr => ?_, fun hnil hs hne hdead => ?_⟩
  · rcases hreg hrec with hok | hne | ⟨hs', -⟩ | ⟨-, hne, hle⟩
    · exact chooses_of_ok hok fun hne => hwaits hs hne
    · exact (hne hnil).elim
    · exact (Bool.false_ne_true (hs.symm.trans hs')).elim
    · exact chooses_of_le hne (hwaits hs hne) hle
  · rcases hreg hrec with hok | hne | ⟨-, hne, -⟩ | ⟨hs', -⟩
    · exact ⟨haddr ▸ hok, hchoice (waits_of_signalled rfl) (chooses_of_ok hok fun _ => haddr ▸ hok)⟩
    · exact (hne hnil).elim
    · exact (hne haddr).elim
    · exact (Bool.false_ne_true (hs'.symm.trans hs)).elim
  · refine hchoice (waits_of_none rfl) (chooses_of_ok ?_ fun hne => (hne rfl).elim)
    rcases hreg hrec with hok | hne | ⟨-, -, halive⟩ | ⟨hs', -⟩
    · exact hok
    · exact (hne hnil).elim
    · exact (Bool.false_ne_true (hdead.symm.trans halive)).elim
    · exact (Bool.false_ne_true (hs'.symm.trans hs)).elim

end Told

/-! ## Runs of the cluster -/

namespace Cluster

/-- The last rebuild of the replica at `a` was completed. -/
def Rebuilt (s : Cluster) (a : Address) : Prop :=
  (s.process a).rebuilt = true

/-- A replica whose last rebuild was interrupted is not chosen when it registers, and the leader
that waits to be told to start is not rebuilt. -/
def Guarded (s : Cluster) (l : ClusterOp × (ℕ → Moment)) : Prop :=
  match l.1 with
  | .register a => (s.process a).rebuilt = false → Records (s.registration a) s.system.world.c →
      Outranked (s.registration a) (s.system.world.onTape l.2)
  | .replica a (.next _) => (s.process a).stage = .marking →
      s.system.world.c.startSignalled = false → s.system.world.c.maxRevReplica ≠ a
  | _ => True

instance (s : Cluster) (l : ClusterOp × (ℕ → Moment)) : Decidable (s.Guarded l) := by
  rcases l with ⟨op | a | ⟨a, e⟩, tape⟩
  · unfold Guarded
    infer_instance
  · unfold Guarded
    infer_instance
  · cases e <;> unfold Guarded <;> infer_instance

/-- The invariant of the cluster. -/
structure Guards (s : Cluster) : Prop where
  mirrored : Mirrored s.system.world.c
  waits : Waits s.Rebuilt s.system.world.c
  told : ∀ p ∈ s.told, p.2 = true

/-- A step of the controller, in which every data replica that registers is in `ok` or is not
chosen. -/
theorem waits_of_step {ok : Address → Prop} {s s' : System} {op : Op} {tape : ℕ → Moment}
    (hs : Mirrored s.world.c) (hwaits : Waits ok s.world.c)
    (hreg : ∀ r, op = .register r → Records r s.world.c →
      ok r.address ∨ Outranked r (s.world.onTape tape))
      (hstep : System.step s (op, tape) = some s') :
    Mirrored s'.world.c ∧ Waits ok s'.world.c ∧ Told ok s.world s'.world := by
  cases op with
  | restart =>
    rw [System.step_restart] at hstep
    obtain rfl := Option.some.inj hstep
    exact ⟨mirrored_new _ _, waits_of_none rfl, told_of_signals rfl⟩
  | node a n =>
    rw [System.step_node] at hstep
    obtain rfl := Option.some.inj hstep
    exact ⟨hs, hwaits, told_of_signals rfl⟩
  | register r =>
    have hwaits' : Waits ok (s.world.onTape tape).c := hwaits
    have h := registerReplica_told hwaits' (hreg r rfl) _ rfl
    have hmir := (System.step_reach hs hstep rfl).1
    rw [System.world_of_step hstep rfl] at hmir ⊢
    exact ⟨hmir, h.2, h.1⟩
  | _ =>
    obtain ⟨hmir, hreach⟩ := System.step_reach hs hstep rfl
    exact ⟨hmir, hwaits.withdraws (withdraws_of_reach id hreach),
      told_of_signals (signals_of_reach id hreach)⟩

theorem guards_of_step {s s' : Cluster} {l : ClusterOp × (ℕ → Moment)} (h : s.Guards)
    (hg : s.Guarded l) (hstep : s.step l = some s') : s'.Guards := by
  obtain ⟨op, tape⟩ := l
  cases op with
  | controller op =>
    simp only [step] at hstep
    split at hstep
    · rename_i hout
      obtain ⟨t, ht, rfl⟩ := Option.map_eq_some_iff.1 hstep
      have hquorum : ∀ r, op = .register r → Records r s.system.world.c →
          s.Rebuilt r.address ∨ Outranked r (s.system.world.onTape tape) := by
        rintro r rfl hrec
        exact (hrec.2.2 (of_decide_eq_true hout)).elim
      obtain ⟨hmir, hwaits, -⟩ := waits_of_step h.mirrored h.waits hquorum ht
      exact ⟨hmir, hwaits, h.told⟩
    · exact nomatch hstep
  | register a =>
    simp only [step] at hstep
    split at hstep
    · obtain ⟨t, ht, rfl⟩ := Option.map_eq_some_iff.1 hstep
      have hreg : ∀ r, Op.register (s.registration a) = .register r → Records r s.system.world.c →
          s.Rebuilt r.address ∨ Outranked r (s.system.world.onTape tape) := by
        rintro _ ⟨⟩ hrec
        cases hrebuilt : (s.process a).rebuilt with
        | true => exact .inl hrebuilt
        | false => exact .inr (hg hrebuilt hrec)
      obtain ⟨hmir, hwaits, cs, hsignals, hcs⟩ := waits_of_step h.mirrored h.waits hreg ht
      refine ⟨hmir, hwaits, fun p hp => ?_⟩
      rcases List.mem_append.1 hp with hp | hp
      · exact h.told p hp
      · rw [signalled, hsignals, List.drop_left] at hp
        obtain ⟨c, hc, rfl⟩ := List.mem_map.1 hp
        exact hcs c hc
    · exact nomatch hstep
  | replica a e =>
    obtain ⟨p, hp, rfl⟩ := Option.map_eq_some_iff.1 hstep
    refine ⟨h.mirrored, fun hs hne => ?_, h.told⟩
    have hleader := h.waits hs hne
    change (update s.process a p s.system.world.c.maxRevReplica).rebuilt = true
    rcases eq_or_ne s.system.world.c.maxRevReplica a with heq | hne'
    · rw [heq, update_self]
      rw [heq] at hleader
      refine Process.rebuilt_step hleader ?_ hp
      rintro r rfl hmark
      exact hg hmark hs heq
    · rw [update_of_ne hne']
      exact hleader

theorem new_guards (name : String) (rf : ℕ) (nodes : Address → Node) (uuid : Address → String) :
    (new name rf nodes uuid).Guards :=
  ⟨mirrored_new name rf, waits_of_none rfl, fun _ hp => (List.not_mem_nil hp).elim⟩

end Cluster

/-- In a run in which no replica is chosen by its registration after a rebuild of it was
interrupted, and no leader that waits is rebuilt, only replicas whose last rebuild was completed are
told to start. -/
theorem rebuilt_leader (name : String) (rf : ℕ) (nodes : Address → Node) (uuid : Address → String)
    (ls : List (ClusterOp × (ℕ → Moment))) (s : Cluster)
    (hguard : Transition.Along Cluster.step Cluster.Guarded (Cluster.new name rf nodes uuid) ls)
    (h : run Cluster.step (Cluster.new name rf nodes uuid) ls = some s) (a : Address)
    (rebuilt : Bool) (ha : (a, rebuilt) ∈ s.told) : rebuilt = true :=
  (inv_of_run (fun _ _ _ => Cluster.guards_of_step) (Cluster.new_guards name rf nodes uuid)
    hguard h).told (a, rebuilt) ha

/-- The process at `a` is started, and goes on through `n` calls. -/
def Cluster.boot (a : Address) (n : ℕ) : List ClusterOp :=
  .replica a .launch :: List.replicate n (.replica a (.next .ok))

/-- The first of two replicas is told to start. The second one is added, and its process ends in the
middle of the rebuild. -/
def Cluster.interrupt : List ClusterOp :=
  boot "a" 2 ++ boot "b" 2 ++ [.register "a", .register "b", .replica "a" .start,
    .controller (.start ["tcp://a:9502"]), .replica "a" (.next .ok), .replica "b" .join,
    .controller (.addBegin "tcp://b:9502"), .controller (.addCommit "tcp://b:9502" "s1"),
    .replica "b" (.next .ok), .replica "b" (.next .ok), .replica "b" .crash]

/-- Steps without a failure of the controller's calls. -/
def Cluster.calmly (ops : List ClusterOp) : List (ClusterOp × (ℕ → Moment)) :=
  ops.map fun op => (op, fun _ => .calm)

/-- The process is started again and registers while the other replica is attached. -/
theorem rebuilt_leader_interrupt : ∃ s,
    run Cluster.step (Cluster.new "vol" 2 (fun _ => .blank) id)
      (Cluster.calmly (Cluster.interrupt ++ Cluster.boot "b" 4 ++ [.register "b"])) = some s ∧
    (s.process "b").rebuilt = false ∧ s.told = [("a", true)] ∧
      ∀ a rebuilt, (a, rebuilt) ∈ s.told → rebuilt = true :=
  exists_of_any (p := fun s => (s.process "b").rebuilt = false ∧ s.told = [("a", true)])
    (by decide +kernel) fun s hs h => ⟨h.1, h.2,
      rebuilt_leader _ _ _ _ _ s (along_of_check (by decide +kernel)) hs⟩

/-- The controller is started again as well, and the replica that is half rebuilt registers
first. -/
def Cluster.registerFirst : List ClusterOp :=
  interrupt ++ [.controller .restart] ++ boot "b" 4 ++ [.register "b", .replica "a" .crash] ++
    boot "a" 2 ++ [.register "a"]

/-- The replica that is half rebuilt is told to start. -/
theorem halfRebuilt_elected : ∃ s,
    run Cluster.step (Cluster.new "vol" 2 (fun _ => .blank) id)
      (Cluster.calmly Cluster.registerFirst) = some s ∧ ("b", false) ∈ s.told :=
  exists_of_any (by decide +kernel) fun _ _ => id

end Jiva
