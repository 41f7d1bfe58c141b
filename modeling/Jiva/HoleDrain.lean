import Jiva.Runs

/-!
# The handshake that empties the queue of holes

`holeDrainer` sets `DrainOps` to `DrainStart`, sends an empty hole as a marker and waits until
`DrainOps` is `DrainDone`. The worker, `CreateHoles`, looks at `DrainOps` after each hole it
receives. If it finds `DrainStart`, it throws the hole and everything else in the queue away and
sets `DrainDone`. A marker it finds otherwise is skipped.

The steps of both interleave, and so do those of the writers while no drain is on : the callers of
`holeDrainer` hold the lock of the replica. A marker can arrive after the drain that it announces.
Then it stays in the queue.

When `holeDrainer` returns, there are only markers in the queue, and the worker holds a marker or
nothing (`Clean`). What is punched from then on was sent from then on (`begun_sublist`), nothing of
it is lost unless there is another drain (`begun_eq`), and the worker alone brings every drain to
its end (`drain_completes`).
-/

namespace Jiva

open Transition

namespace HoleDrain

/-- `types.HoleChannelOps`. It is not set before the first drain. -/
inductive HoleChannelOps
  | unset
  | drainStart
  | drainDone
  deriving DecidableEq, Repr

/-- Where the worker is : at the receive, before the test of `DrainOps`, in `drainHoleCreatorChan`,
after it, or at the call of `fallocate`. After five failed calls the process ends. -/
inductive Worker (H : Type)
  | idle
  | got (x : Option H)
  | draining
  | drained
  | punching (h : H)
  | exited

/-- Where `holeDrainer` is : not called, before it sends the marker, or in its loop. -/
inductive Drainer
  | out
  | started
  | waiting
  deriving DecidableEq, Repr

/-- The globals, the worker and the drainer. No hole in the queue is the marker. -/
structure State (H : Type) where
  drainOps : HoleChannelOps
  holeCreatorChan : List (Option H)
  worker : Worker H
  retryCount : ℕ
  drainer : Drainer

/-- The steps of the writers, of the drainer and of the worker. -/
inductive Op (H : Type)
  | sendToCreateHole (h : H)
  | setStart
  | sendMarker
  | leave
  | receive
  | obey
  | skip
  | punch
  | drop
  | stopDropping
  | setDone
  | fallocate
  | fail

variable {H : Type}

/-- The steps of the worker. -/
def Op.OfWorker : Op H → Prop
  | .sendToCreateHole _ | .setStart | .sendMarker | .leave => False
  | _ => True

namespace State

variable {s s' : State H} {cap : ℕ} {op : Op H}

/-- Before anything is sent. -/
def init : State H :=
  ⟨.unset, [], .idle, 0, .out⟩

/-- One step. The queue has room for `cap` holes. Nothing happens once the process has ended. -/
def step (cap : ℕ) (s : State H) (op : Op H) : Option (State H) :=
  match op, s.worker with
  | _, .exited => none
  | .sendToCreateHole h, _ =>
    if s.drainer = .out ∧ s.holeCreatorChan.length < cap then
      some { s with holeCreatorChan := s.holeCreatorChan ++ [some h] }
    else none
  | .setStart, _ =>
    if s.drainer = .out then some { s with drainOps := .drainStart, drainer := .started } else none
  | .sendMarker, _ =>
    if s.drainer = .started ∧ s.holeCreatorChan.length < cap then
      some { s with holeCreatorChan := s.holeCreatorChan ++ [none], drainer := .waiting }
    else none
  | .leave, _ =>
    if s.drainer = .waiting ∧ s.drainOps = .drainDone then some { s with drainer := .out } else none
  | .receive, .idle =>
    match s.holeCreatorChan with
    | [] => none
    | x :: q => some { s with holeCreatorChan := q, worker := .got x }
  | .obey, .got _ => if s.drainOps = .drainStart then some { s with worker := .draining } else none
  | .skip, .got none => if s.drainOps = .drainStart then none else some { s with worker := .idle }
  | .punch, .got (some h) => if s.drainOps = .drainStart then none else some { s with
      worker := .punching h }
  | .drop, .draining =>
    match s.holeCreatorChan with
    | [] => none
    | _ :: q => some { s with holeCreatorChan := q }
  | .stopDropping, .draining =>
    match s.holeCreatorChan with
    | [] => some { s with worker := .drained }
    | _ :: _ => none
  | .setDone, .drained => some { s with drainOps := .drainDone, worker := .idle }
  | .fallocate, .punching _ => some { s with worker := .idle, retryCount := 0 }
  | .fail, .punching h =>
    some { s with
      retryCount := s.retryCount + 1, worker :=
      if s.retryCount + 1 = 5 then .exited else .punching h }
  | _, _ => none

/-- The hole in the hands of the worker, before it begins to punch it. -/
def held (s : State H) : Option H :=
  match s.worker with
  | .got x => x
  | _ => none

/-- The hole that the worker begins to punch with this step. -/
def begins (s : State H) : Op H → Option H
  | .punch => s.held
  | _ => none

/-- The holes that are punched in a run, in order. -/
def begun (cap : ℕ) : State H → List (Op H) → List H
  | _, [] => []
  | s, op :: ops =>
    match s.step cap op with
    | none => []
    | some s' => (s.begins op).toList ++ begun cap s' ops

/-- The hole that is sent with this step. -/
def sends : Op H → Option H
  | .sendToCreateHole h => some h
  | _ => none

/-- The holes that are sent in a run, in order. -/
def sent (ops : List (Op H)) : List H :=
  ops.filterMap sends

/-- The holes that are sent and neither punched nor thrown away. -/
def pending (s : State H) : List H :=
  s.held.toList ++ s.holeCreatorChan.filterMap id

/-- There are only markers in the queue, and the worker has nothing to punch. -/
structure Clean (s : State H) : Prop where
  queue : ∀ x ∈ s.holeCreatorChan, x = none
  worker : s.worker = .idle ∨ s.worker = .got none

/-- What holds at any time. The drainer sees `DrainDone` in a clean state only, and while it waits
for it, the worker is busy with the drain or will find a marker. -/
structure Inv (s : State H) : Prop where
  unset : s.drainOps = .unset → s.drainer = .out
  called : s.drainOps = .drainStart → s.drainer ≠ .out
  dropping : s.worker = .draining ∨ s.worker = .drained → s.drainOps = .drainStart
  dropped : s.worker = .drained → ∀ x ∈ s.holeCreatorChan, x = none
  clean : s.drainOps = .drainDone → s.drainer ≠ .out → s.Clean
  awake : s.drainer = .waiting → s.drainOps = .drainStart → none ∈ s.holeCreatorChan ∨
    (∃ x, s.worker = .got x) ∨ s.worker = .draining ∨ s.worker = .drained

theorem Clean.pending (h : s.Clean) : s.pending = [] := by
  have hq : s.holeCreatorChan.filterMap id = [] := by
    rw [List.filterMap_eq_nil_iff]
    exact h.queue
  unfold State.pending held
  rw [hq]
  rcases h.worker with hw | hw <;> rw [hw] <;> rfl

theorem init_inv : (init : State H).Inv := by
  refine ⟨fun _ => rfl, nofun, ?_, nofun, nofun, nofun⟩
  rintro (h | h) <;> cases h

/-! ## What a step does -/

/-- The steps that are possible in a state, with what they need and what they change. -/
inductive Steps (cap : ℕ) (s : State H) : Op H → State H → Prop
  | sendToCreateHole (h : H) (hout : s.drainer = .out) :
      Steps cap s (.sendToCreateHole h) { s with holeCreatorChan := s.holeCreatorChan ++ [some h] }
  | setStart (hout : s.drainer = .out) :
      Steps cap s .setStart { s with drainOps := .drainStart, drainer := .started }
  | sendMarker (hd : s.drainer = .started) :
      Steps cap s .sendMarker { s with
        holeCreatorChan := s.holeCreatorChan ++ [none], drainer := .waiting }
  | leave (hd : s.drainer = .waiting) (hf : s.drainOps = .drainDone) : Steps cap s .leave { s with
      drainer := .out }
  | receive (x : Option H) (q : List (Option H)) (hw : s.worker = .idle)
      (hq : s.holeCreatorChan = x :: q) : Steps cap s .receive { s with
        holeCreatorChan := q, worker := .got x }
  | obey (x : Option H) (hw : s.worker = .got x) (hf : s.drainOps = .drainStart) :
      Steps cap s .obey { s with worker := .draining }
  | skip (hw : s.worker = .got none) (hf : s.drainOps ≠ .drainStart) : Steps cap s .skip { s with
      worker := .idle }
  | punch (h : H) (hw : s.worker = .got (some h)) (hf : s.drainOps ≠ .drainStart) :
      Steps cap s .punch { s with worker := .punching h }
  | drop (x : Option H) (q : List (Option H)) (hw : s.worker = .draining)
      (hq : s.holeCreatorChan = x :: q) : Steps cap s .drop { s with holeCreatorChan := q }
  | stopDropping (hw : s.worker = .draining) (hq : s.holeCreatorChan = []) :
      Steps cap s .stopDropping { s with worker := .drained }
  | setDone (hw : s.worker = .drained) : Steps cap s .setDone { s with
      drainOps := .drainDone, worker := .idle }
  | fallocate (h : H) (hw : s.worker = .punching h) :
      Steps cap s .fallocate { s with worker := .idle, retryCount := 0 }
  | fail (h : H) (hw : s.worker = .punching h) : Steps cap s .fail { s with
      retryCount := s.retryCount + 1
      worker := if s.retryCount + 1 = 5 then .exited else .punching h }

theorem steps_of_step (h : s.step cap op = some s') : Steps cap s op s' := by
  unfold step at h
  split at h
  · cases h
  · split_ifs at h with hc
    cases h
    exact .sendToCreateHole _ hc.1
  · split_ifs at h with hc
    cases h
    exact .setStart hc
  · split_ifs at h with hc
    cases h
    exact .sendMarker hc.1
  · split_ifs at h with hc
    cases h
    exact .leave hc.1 hc.2
  · next hw =>
    split at h
    · cases h
    · next x q hq =>
      cases h
      exact .receive x q hw hq
  · next x hw =>
    split_ifs at h with hc
    cases h
    exact .obey x hw hc
  · next hw =>
    split_ifs at h with hc
    cases h
    exact .skip hw hc
  · next x hw =>
    split_ifs at h with hc
    cases h
    exact .punch x hw hc
  · next hw =>
    split at h
    · cases h
    · next x q hq =>
      cases h
      exact .drop x q hw hq
  · next hw =>
    split at h
    · next hq =>
      cases h
      exact .stopDropping hw hq
    · cases h
  · next hw =>
    cases h
    exact .setDone hw
  · next x hw =>
    cases h
    exact .fallocate x hw
  · next x hw =>
    cases h
    exact .fail x hw
  · cases h

/-! ## The invariant -/

theorem inv_step (h : s.Inv) (hs : Steps cap s op s') : s'.Inv := by
  cases hs with
  | sendToCreateHole x hout =>
    refine ⟨h.unset, h.called, h.dropping, fun hw => ?_, fun _ hd => absurd hout hd, fun hd => ?_⟩
    · exact absurd hout (h.called (h.dropping (.inr hw)))
    · cases hout.symm.trans hd
  | setStart hout =>
    refine ⟨nofun, fun _ => nofun, fun _ => rfl, h.dropped, nofun, nofun⟩
  | sendMarker hd =>
    have hne : s.drainer ≠ .out := by rw [hd]; nofun
    have hnone : ∀ x ∈ s.holeCreatorChan ++ [none], (∀ y ∈ s.holeCreatorChan, y = none) →
        x = none := by
      intro x hx hall
      rcases List.mem_append.1 hx with hx | hx
      · exact hall x hx
      · exact List.mem_singleton.1 hx
    refine ⟨fun hf => absurd (h.unset hf) hne, fun _ => nofun, h.dropping,
      fun hw x hx => hnone x hx (h.dropped hw), fun hf _ => ?_, fun _ _ => ?_⟩
    · have hc := h.clean hf hne
      exact ⟨fun x hx => hnone x hx hc.queue, hc.worker⟩
    · exact .inl (List.mem_append_right _ (List.mem_singleton_self _))
  | leave hd hf =>
    refine ⟨fun _ => rfl, fun hf' => (nomatch hf.symm.trans hf'), h.dropping, h.dropped,
      fun _ hne => absurd rfl hne, nofun⟩
  | receive x q hw hq =>
    refine ⟨h.unset, h.called, fun hw' => ?_, nofun, fun hf hd => ?_,
      fun _ _ => .inr (.inl ⟨x, rfl⟩)⟩
    · rcases hw' with hw' | hw' <;> cases hw'
    · have hc := h.clean hf hd
      have hall := hc.queue
      rw [hq] at hall
      refine ⟨fun y hy => hall y (List.mem_cons_of_mem _ hy), .inr ?_⟩
      rw [hall x List.mem_cons_self]
  | obey x hw hf =>
    refine ⟨h.unset, h.called, fun _ => hf, nofun, fun hf' => (nomatch hf.symm.trans hf'),
      fun _ _ => ?_⟩
    exact .inr (.inr (.inl rfl))
  | skip hw hf =>
    refine ⟨h.unset, h.called, fun hw' => ?_, nofun, fun hf' hd => ⟨(h.clean hf' hd).queue,
      .inl rfl⟩, fun _ hf' => absurd hf' hf⟩
    rcases hw' with hw' | hw' <;> cases hw'
  | punch x hw hf =>
    refine ⟨h.unset, h.called, fun hw' => ?_, nofun, fun hf' hd => ?_, fun _ hf' => absurd hf' hf⟩
    · rcases hw' with hw' | hw' <;> cases hw'
    · rcases (h.clean hf' hd).worker with hw' | hw' <;> cases hw.symm.trans hw'
  | drop x q hw hq =>
    have hf := h.dropping (.inl hw)
    refine ⟨h.unset, h.called, fun _ => hf, fun hw' => (nomatch hw.symm.trans hw'),
      fun hf' => (nomatch hf.symm.trans hf'), fun _ _ => ?_⟩
    exact .inr (.inr (.inl hw))
  | stopDropping hw hq =>
    have hf := h.dropping (.inl hw)
    refine ⟨h.unset, h.called, fun _ => hf, fun _ x hx => ?_,
      fun hf' => (nomatch hf.symm.trans hf'), fun _ _ => ?_⟩
    · change x ∈ s.holeCreatorChan at hx
      rw [hq] at hx
      cases hx
    · exact .inr (.inr (.inr rfl))
  | setDone hw =>
    refine ⟨nofun, nofun, fun hw' => ?_, nofun, fun _ _ => ⟨h.dropped hw, .inl rfl⟩, nofun⟩
    rcases hw' with hw' | hw' <;> cases hw'
  | fallocate x hw =>
    refine ⟨h.unset, h.called, fun hw' => ?_, nofun, fun hf hd => ⟨(h.clean hf hd).queue, .inl rfl⟩,
      fun hd hf => ?_⟩
    · rcases hw' with hw' | hw' <;> cases hw'
    · rcases h.awake hd hf with hm | ⟨y, hw'⟩ | hw' | hw'
      · exact .inl hm
      all_goals cases hw.symm.trans hw'
  | fail x hw =>
    have hne : ∀ w : Worker H, w = .draining ∨ w = .drained ∨ w = .idle ∨ (∃ y, w = .got y) →
        (if s.retryCount + 1 = 5 then .exited else .punching x : Worker H) ≠ w := by
      rintro w hw'
      split_ifs <;> rcases hw' with rfl | rfl | rfl | ⟨y, rfl⟩ <;> nofun
    refine ⟨h.unset, h.called, fun hw' => ?_, fun hw' => absurd hw' (hne _ (by simp)),
      fun hf hd => ?_, fun hd hf => ?_⟩
    · rcases hw' with hw' | hw'
      · exact absurd hw' (hne _ (by simp))
      · exact absurd hw' (hne _ (by simp))
    · rcases (h.clean hf hd).worker with hw' | hw' <;> cases hw.symm.trans hw'
    · rcases h.awake hd hf with hm | ⟨y, hw'⟩ | hw' | hw'
      · exact .inl hm
      all_goals cases hw.symm.trans hw'

theorem inv_run {ops : List (Op H)} (h : s.Inv) (hrun : run (step cap) s ops = some s') : s'.Inv :=
  inv_of_run (I := Inv) (fun _ _ _ ht _ hstep => inv_step ht (steps_of_step hstep)) h
    (along_true (step cap) s ops) hrun

/-! ## What is punched was sent -/

/-- A step adds what is sent to the pending holes, and takes away what is punched. Unless a drain is
on, nothing else changes. -/
theorem pending_step (h : s.Inv) (hs : Steps cap s op s') :
    ((s.begins op).toList ++ s'.pending).Sublist (s.pending ++ (sends op).toList) ∧
    (s.drainOps ≠ .drainStart →
      (s.begins op).toList ++ s'.pending = s.pending ++ (sends op).toList) := by
  have heq : ∀ {l m : List H}, l = m → l.Sublist m ∧ (s.drainOps ≠ .drainStart → l = m) :=
    fun h => ⟨h ▸ List.Sublist.refl _, fun _ => h⟩
  cases hs with
  | sendToCreateHole | setStart | sendMarker | leave =>
    refine heq ?_
    simp [pending, held, sends, begins]
  | receive x q hw hq =>
    refine heq ?_
    cases x <;> simp [pending, held, sends, begins, hw, hq]
  | obey x hw hf =>
    refine ⟨?_, fun hne => absurd hf hne⟩
    simp [pending, held, sends, begins, hw]
  | skip hw | punch x hw | stopDropping hw | setDone hw | fallocate x hw =>
    refine heq ?_
    simp [pending, held, sends, begins, hw]
  | drop x q hw hq =>
    refine ⟨?_, fun hne => absurd (h.dropping (.inl hw)) hne⟩
    cases x <;> simp [pending, held, sends, begins, hw, hq]
  | fail x hw =>
    refine heq ?_
    simp only [pending, held, sends, begins, hw]
    split_ifs <;> simp

theorem sent_cons (op : Op H) (ops : List (Op H)) :
    sent (op :: ops) = (sends op).toList ++ sent ops := by
  unfold sent
  rw [List.filterMap_cons]
  cases sends op <;> rfl

/-- What is punched in a run was pending before or is sent in it. -/
theorem begun_sublist : ∀ {ops : List (Op H)} {s s' : State H}, s.Inv →
    run (step cap) s ops = some s' → (begun cap s ops ++ s'.pending).Sublist (s.pending ++ sent ops)
  | [], s, s', _, hrun => by
    obtain rfl : s = s' := by simpa using hrun
    simp [begun, sent]
  | op :: ops, s, s', h, hrun => by
    obtain ⟨u, hu, hrun⟩ := Option.bind_eq_some_iff.1 hrun
    have hsteps := steps_of_step hu
    have hone := (pending_step h hsteps).1
    have hrest := begun_sublist (inv_step h hsteps) hrun
    unfold begun
    rw [hu, sent_cons]
    dsimp only
    rw [List.append_assoc, ← List.append_assoc s.pending]
    refine (hrest.append_left _).trans ?_
    rw [← List.append_assoc]
    exact hone.append_right _

/-- Only `holeDrainer` sets `DrainStart`. -/
theorem drainOps_step (hs : Steps cap s op s') (hop : op ≠ .setStart)
    (hf : s.drainOps ≠ .drainStart) : s'.drainOps ≠ .drainStart := by
  cases hs with
  | setStart => exact absurd rfl hop
  | setDone => nofun
  | _ => exact hf

/-- Without another drain no hole is lost. -/
theorem begun_eq : ∀ {ops : List (Op H)} {s s' : State H}, s.Inv → s.drainOps ≠ .drainStart →
    (∀ op ∈ ops, op ≠ .setStart) → run (step cap) s ops = some s' →
    begun cap s ops ++ s'.pending = s.pending ++ sent ops
  | [], s, s', _, _, _, hrun => by
    obtain rfl : s = s' := by simpa using hrun
    simp [begun, sent]
  | op :: ops, s, s', h, hf, hops, hrun => by
    obtain ⟨u, hu, hrun⟩ := Option.bind_eq_some_iff.1 hrun
    have hsteps := steps_of_step hu
    have hop := hops op List.mem_cons_self
    have hone := (pending_step h hsteps).2 hf
    have hrest := begun_eq (inv_step h hsteps) (drainOps_step hsteps hop hf)
      (fun op hmem => hops op (List.mem_cons_of_mem _ hmem)) hrun
    unfold begun
    rw [hu, sent_cons]
    dsimp only
    rw [List.append_assoc, hrest, ← List.append_assoc, hone, List.append_assoc]

/-! ## A drain comes to its end -/

/-- The worker alone can bring the drain to its end. -/
def Completes (cap : ℕ) (s : State H) : Prop :=
  ∃ ops s', (∀ op ∈ ops, op.OfWorker) ∧ run (step cap) s ops = some s' ∧ s'.drainOps = .drainDone ∧
    s'.drainer = s.drainer

theorem Completes.cons {u : State H} (hstep : s.step cap op = some u) (hop : op.OfWorker)
    (hd : u.drainer = s.drainer) (h : u.Completes cap) : s.Completes cap := by
  obtain ⟨ops, s', hops, hrun, hf, hd'⟩ := h
  refine ⟨op :: ops, s', List.forall_mem_cons.2 ⟨hop, hops⟩, ?_, hf, hd'.trans hd⟩
  rw [run_cons, hstep]
  exact hrun

section Completes

variable {cap : ℕ} {s : State H}

theorem completes_drained (hw : s.worker = .drained) : s.Completes cap := by
  refine ⟨[.setDone],
    { s with drainOps := .drainDone, worker := .idle }, by simp [Op.OfWorker], ?_, rfl, rfl⟩
  simp [run, step, hw]

/-- The worker throws away what is left and says so. -/
theorem completes_draining : ∀ (q : List (Option H)) {s : State H}, s.holeCreatorChan = q →
    s.worker = .draining → s.Completes cap
  | [], s, hq, hw => by
    have hstep : s.step cap .stopDropping = some { s with worker := .drained } := by
      simp [step, hw, hq]
    exact .cons hstep trivial rfl (completes_drained rfl)
  | x :: q, s, hq, hw => by
    have hstep : s.step cap .drop = some { s with holeCreatorChan := q } := by
      simp [step, hw, hq]
    exact .cons hstep trivial rfl (completes_draining q rfl hw)

theorem completes_got {x : Option H} (hf : s.drainOps = .drainStart) (hw : s.worker = .got x) :
    s.Completes cap := by
  have hstep : s.step cap .obey = some { s with worker := .draining } := by
    simp [step, hw, hf]
  exact .cons hstep trivial rfl (completes_draining s.holeCreatorChan rfl rfl)

theorem completes_idle (hf : s.drainOps = .drainStart) (hw : s.worker = .idle)
    (hm : none ∈ s.holeCreatorChan) : s.Completes cap := by
  cases hq : s.holeCreatorChan with
  | nil =>
    rw [hq] at hm
    cases hm
  | cons x q =>
    have hstep : s.step cap .receive = some { s with holeCreatorChan := q, worker := .got x } := by
      simp [step, hw, hq]
    exact .cons hstep trivial rfl (completes_got hf rfl)

/-- Whatever the worker is at while the drainer waits, it can bring the drain to its end. -/
theorem drain_completes (h : s.Inv) (hd : s.drainer = .waiting) (hw : s.worker ≠ .exited) :
    s.Completes cap := by
  cases hf : s.drainOps with
  | drainDone => exact ⟨[], s, nofun, rfl, hf, rfl⟩
  | unset => cases (h.unset hf).symm.trans hd
  | drainStart =>
    cases hc : s.worker with
    | got x => exact completes_got hf hc
    | draining => exact completes_draining s.holeCreatorChan rfl hc
    | drained => exact completes_drained hc
    | exited => exact absurd hc hw
    | idle =>
      rcases h.awake hd hf with hm | ⟨x, hx⟩ | hx | hx
      · exact completes_idle hf hc hm
      all_goals cases hc.symm.trans hx
    | punching x =>
      rcases h.awake hd hf with hm | ⟨y, hx⟩ | hx | hx
      · have hstep : s.step cap .fallocate = some { s with worker := .idle, retryCount := 0 } := by
          simp [step, hc]
        exact .cons hstep trivial rfl (completes_idle hf rfl hm)
      all_goals cases hc.symm.trans hx

end Completes

/-! ## After a drain -/

/-- What is true from the return of `holeDrainer` on : the worker is not at a punch. What it punches
later was sent later, in order and without a loss up to the next drain, and the next drain can come
to its end. -/
structure Drained (cap : ℕ) (s : State H) : Prop where
  idle : ∀ h, s.worker ≠ .punching h
  later : ∀ ops s', run (step cap) s ops = some s' → (begun cap s ops).Sublist (sent ops)
  kept : ∀ ops s', run (step cap) s ops = some s' → (∀ op ∈ ops, op ≠ .setStart) →
    begun cap s ops ++ s'.pending = sent ops
  again : ∀ ops s', run (step cap) s ops = some s' → s'.drainer = .waiting → s'.worker ≠ .exited →
    s'.Completes cap

/-- Each time `holeDrainer` returns, the queue is drained. -/
theorem holeDrainer_drained {cap : ℕ} {s : State H} {ops : List (Op H)}
    (hrun : run (step cap) init (ops ++ [.leave]) = some s) : s.Drained cap := by
  have hinv := inv_run init_inv hrun
  rw [run_append] at hrun
  obtain ⟨u, hu, hleave⟩ := Option.bind_eq_some_iff.1 hrun
  have hsteps : Steps cap u .leave s := by
    obtain ⟨w, hw, hnil⟩ := Option.bind_eq_some_iff.1 hleave
    obtain rfl : w = s := by simpa using hnil
    exact steps_of_step hw
  have hu' := inv_run init_inv hu
  cases hsteps with
  | leave hd hf =>
    have hclean := hu'.clean hf (by rw [hd]; nofun)
    have hpend : State.pending { u with drainer := .out } = [] := hclean.pending
    refine ⟨fun x hx => ?_, fun ops s' hr => ?_, fun ops s' hr hno => ?_,
      fun ops s' hr hd' hw => ?_⟩
    · rcases hclean.worker with hw | hw <;> cases hw.symm.trans hx
    · have hsub := begun_sublist hinv hr
      rw [hpend, List.nil_append] at hsub
      exact (List.sublist_append_left _ _).trans hsub
    · have heq := begun_eq hinv (by rw [hf]; nofun) hno hr
      rwa [hpend, List.nil_append] at heq
    · exact drain_completes (inv_run hinv hr) hd' hw

/-- The worker obeys before the marker is sent, so the marker stays behind. -/
def lateMarker : List (Op ℕ) :=
  [.sendToCreateHole 1, .sendToCreateHole 2, .receive, .setStart, .obey, .drop, .stopDropping,
    .setDone, .sendMarker]

theorem holeDrainer_drained_lateMarker :
    ∃ s, run (step 1000000) init (lateMarker ++ [.leave]) = some s ∧
    s.holeCreatorChan = [none] ∧ s.Drained 1000000 :=
  have hrun : run (step 1000000) init (lateMarker ++ [.leave]) =
      some ⟨.drainDone, [none], .idle, 0, .out⟩ := rfl
  ⟨_, hrun, rfl, holeDrainer_drained hrun⟩

end State

end HoleDrain

end Jiva
