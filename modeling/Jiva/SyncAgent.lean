import Jiva.Runs
import Mathlib.Logic.Function.Iterate
import Mathlib.Tactic.Ring

/-!
# The ports of the sync agent

The agent of `sync/agent/process.go` starts a process for each request. A request without a source
file asks for a listener, and `CreateProcess` takes a port for it from the range `startPort` to
`endPort`. `currentPort` goes round this range, and `processesByPort` has the ports that are taken.
A port is taken under the lock, together with the id of the process, and it is given back under the
lock by the goroutine that ran `launch`, after `launch` has returned.

`launch` is three steps : the command is started, or it cannot be started, and a command that was
started exits. A process is running until its goroutine has given the port back (`Running`), and it
listens while its command runs (`Listening`).

The cursor visits every port of the range once in as many steps as the range has ports
(`exists_advance`). So `nextPort` finds a port if there is one that is not taken (`nextPort_spec`),
and the ports taken are those of the running processes that asked for one (`Inv`).
-/

namespace Jiva

open Function Transition

namespace SyncAgent

/-! ## A cursor that goes round a range -/

/-- One step of the cursor. -/
def advance (lo hi x : ℤ) : ℤ :=
  if x + 1 > hi then lo else x + 1

section Cursor

variable {lo hi x : ℤ}

theorem advance_mem (h : lo ≤ x ∧ x ≤ hi) : lo ≤ advance lo hi x ∧ advance lo hi x ≤ hi := by
  unfold advance
  split_ifs <;> omega

theorem iterate_advance_mem (h : lo ≤ x ∧ x ≤ hi) :
    ∀ k : ℕ, lo ≤ (advance lo hi)^[k] x ∧ (advance lo hi)^[k] x ≤ hi
  | 0 => h
  | k + 1 => by
    rw [Function.iterate_succ_apply']
    exact advance_mem (iterate_advance_mem h k)

/-- As long as the cursor does not pass the end of the range, it counts. -/
theorem iterate_advance_add : ∀ {k : ℕ} {x : ℤ}, x + k ≤ hi → (advance lo hi)^[k] x = x + k
  | 0, x, _ => by simp
  | k + 1, x, h => by
    push_cast at h
    have hstep : advance lo hi x = x + 1 := by
      unfold advance
      rw [if_neg (by omega)]
    rw [Function.iterate_succ_apply, hstep, iterate_advance_add (by omega)]
    push_cast
    ring

/-- The cursor comes to every port of the range before it has gone round. -/
theorem exists_advance (h : lo ≤ x ∧ x ≤ hi) {q : ℤ} (hq : lo ≤ q ∧ q ≤ hi) :
    ∃ k : ℕ, k < (hi - lo + 1).toNat ∧ (advance lo hi)^[k] x = q := by
  by_cases hle : x ≤ q
  · refine ⟨(q - x).toNat, by omega, ?_⟩
    rw [iterate_advance_add (by omega)]
    omega
  · -- up to the end of the range, then one step to its start, then on to the port
    have hend : (advance lo hi)^[(hi - x).toNat] x = hi := by
      rw [iterate_advance_add (by omega)]
      omega
    have hstart : advance lo hi hi = lo := by
      unfold advance
      rw [if_pos (by omega)]
    refine ⟨(q - lo).toNat + ((hi - x).toNat + 1), by omega, ?_⟩
    rw [Function.iterate_add_apply, Function.iterate_succ_apply', hend, hstart,
      iterate_advance_add (by omega)]
    omega

end Cursor

/-! ## The agent -/

/-- What the agent can run. -/
inductive ProcessType
  | sync
  | fold
  | backup
  | rmbackup
  | restore
  | inspectbackup
  | listbackup
  | unknown
  deriving DecidableEq, Repr

/-- Where the goroutine of a process is : it has not started the command, the command runs, `launch`
has returned, or the port is given back. -/
inductive Phase
  | created
  | started
  | exited
  | finished
  deriving DecidableEq, Repr

/-- A process. `gotNextPort` is the local variable of `CreateProcess`. -/
structure Process where
  processType : ProcessType
  srcFile : String
  port : ℤ
  gotNextPort : Bool
  phase : Phase
  deriving DecidableEq, Repr

/-- The goroutine of the process has not given the port back. -/
def Process.Running (p : Process) : Prop :=
  p.gotNextPort = true ∧ p.phase ≠ .finished

/-- The command of the process listens on the port : it is a `ssync` that was started with
`-daemon`. -/
def Process.Listening (p : Process) : Prop :=
  p.processType = .sync ∧ p.srcFile = "" ∧ p.phase = .started

structure Server where
  processCounter : ℕ
  currentPort : ℤ
  startPort : ℤ
  endPort : ℤ
  processes : ℕ → Option Process
  processesByPort : ℤ → Option ℕ

/-- `NewServer`. -/
def newServer (start stop : ℤ) : Server :=
  ⟨0, start, start, stop, fun _ => none, fun _ => none⟩

namespace Server

/-- The loop of `nextPort`. -/
def nextPortLoop : ℕ → Server → Except String ℤ × Server
  | 0, s => (.error "Out of ports", s)
  | n + 1, s =>
    let port := s.currentPort
    let s := { s with currentPort := advance s.startPort s.endPort port }
    if (s.processesByPort port).isSome then nextPortLoop n s else (.ok port, s)

/-- `nextPort`. -/
def nextPort (s : Server) : Except String ℤ × Server :=
  nextPortLoop (s.endPort - s.startPort + 1).toNat s

/-- The process is entered under the next id. -/
def register (p : Process) (s : Server) : Server :=
  let id := s.processCounter + 1
  { s with
    processCounter := id
    processes := update s.processes id (some p)
    processesByPort :=
      if p.gotNextPort then update s.processesByPort p.port (some id) else s.processesByPort }

theorem register_processes (p : Process) (s : Server) (i : ℕ) :
    (s.register p).processes i = if i = s.processCounter + 1 then some p else s.processes i :=
  update_apply ..

/-- `CreateProcess`, up to the start of the goroutine. -/
def createProcess (processType : ProcessType) (srcFile : String) (port : ℤ) (s : Server) :
    Except String ℕ × Server :=
  if srcFile = "" then
    match s.nextPort with
    | (.error e, s) => (.error e, s)
    | (.ok port, s) => (.ok (s.processCounter + 1), s.register ⟨processType, srcFile, port,
        true, .created⟩)
  else (.ok (s.processCounter + 1), s.register ⟨processType, srcFile, port, false, .created⟩)

/-- The goroutine of the process goes on. -/
def setPhase (id : ℕ) (p : Process) (phase : Phase) (s : Server) : Server :=
  { s with processes := update s.processes id (some { p with phase := phase }) }

theorem setPhase_processes (id : ℕ) (p : Process) (phase : Phase) (s : Server) (i : ℕ) :
    (s.setPhase id p phase).processes i = if i = id then some { p with
      phase := phase } else s.processes i :=
  update_apply ..

/-- The port of the process is given back. -/
def release (p : Process) (s : Server) : Server :=
  if p.gotNextPort then { s with processesByPort := update s.processesByPort p.port none } else s

/-- What happens to the agent : a request, or a step of the goroutine of a process. `exit` is the
return of `launch`, with a command that was started or without one. -/
inductive Op
  | createProcess (processType : ProcessType) (srcFile : String) (port : ℤ)
  | start (id : ℕ)
  | exit (id : ℕ)
  | finish (id : ℕ)

/-- One step. -/
def step (s : Server) : Op → Option Server
  | .createProcess processType srcFile port => some (s.createProcess processType srcFile port).2
  | .start id =>
    match s.processes id with
    | some p =>
      if p.phase = .created ∧ p.processType ≠ .unknown then
        some (s.setPhase id p .started)
      else none
    | none => none
  | .exit id =>
    match s.processes id with
    | some p =>
      if p.phase = .created ∨ p.phase = .started then some (s.setPhase id p .exited) else none
    | none => none
  | .finish id =>
    match s.processes id with
    | some p => if p.phase = .exited then some ((s.setPhase id p .finished).release p) else none
    | none => none

/-! ## The search for a port -/

/-- The loop stops at the first port that is not taken, or it has seen `n` taken ports. -/
theorem nextPortLoop_spec : ∀ (n : ℕ) (s : Server),
    (∃ k < n, s.nextPortLoop n = (.ok ((advance s.startPort s.endPort)^[k] s.currentPort),
        { s with currentPort := (advance s.startPort s.endPort)^[k + 1] s.currentPort }) ∧
      s.processesByPort ((advance s.startPort s.endPort)^[k] s.currentPort) = none) ∨
    (s.nextPortLoop n = (.error "Out of ports",
        { s with currentPort := (advance s.startPort s.endPort)^[n] s.currentPort }) ∧
      ∀ k < n, (s.processesByPort ((advance s.startPort s.endPort)^[k] s.currentPort)).isSome)
  | 0, s => .inr ⟨rfl, fun k hk => absurd hk (Nat.not_lt_zero k)⟩
  | n + 1, s => by
    unfold nextPortLoop
    dsimp only
    cases hport : s.processesByPort s.currentPort with
    | none => exact .inl ⟨0, Nat.succ_pos n, rfl, hport⟩
    | some id =>
      rw [if_pos Option.isSome_some]
      rcases nextPortLoop_spec n { s with
        currentPort := advance s.startPort s.endPort s.currentPort } with
        ⟨k, hk, hres, hfree⟩ | ⟨hres, htaken⟩
      · exact .inl ⟨k + 1, Nat.succ_lt_succ hk, hres, hfree⟩
      · refine .inr ⟨hres, fun k hk => ?_⟩
        cases k with
        | zero => exact hport ▸ rfl
        | succ k => exact htaken k (Nat.lt_of_succ_lt_succ hk)

/-- `nextPort` returns a port of the range that is not taken, and fails only if all ports of the
range are taken. It changes nothing but the cursor, which stays in the range. -/
theorem nextPort_spec {s : Server} (h : s.startPort ≤ s.currentPort ∧ s.currentPort ≤ s.endPort) :
    ∃ cur, (s.startPort ≤ cur ∧ cur ≤ s.endPort) ∧ s.nextPort.2 = { s with currentPort := cur } ∧
      ((∃ port, s.nextPort.1 = .ok port ∧ (s.startPort ≤ port ∧ port ≤ s.endPort) ∧
        s.processesByPort port = none) ∨ (s.nextPort.1 = .error "Out of ports" ∧
          ∀ port, s.startPort ≤ port ∧ port ≤ s.endPort → (s.processesByPort port).isSome)) := by
  unfold nextPort
  rcases nextPortLoop_spec (s.endPort - s.startPort + 1).toNat s with ⟨k, -, hres, hfree⟩ |
    ⟨hres, htaken⟩
  · rw [hres]
    exact ⟨_, iterate_advance_mem h (k + 1), rfl, .inl ⟨_, rfl, iterate_advance_mem h k, hfree⟩⟩
  · rw [hres]
    refine ⟨_, iterate_advance_mem h _, rfl, .inr ⟨rfl, fun port hport => ?_⟩⟩
    obtain ⟨k, hk, rfl⟩ := exists_advance h hport
    exact htaken k hk

/-! ## Ports are taken by the running processes -/

/-- The cursor is in the range from `lo` to `hi`, and the ports that are taken are those of the
running processes. -/
structure Inv (lo hi : ℤ) (s : Server) : Prop where
  range : s.startPort = lo ∧ s.endPort = hi
  cursor : s.startPort ≤ s.currentPort ∧ s.currentPort ≤ s.endPort
  fresh : ∀ id, s.processCounter < id → s.processes id = none
  taken : ∀ port id, s.processesByPort port = some id ↔ ∃ p, s.processes id = some p ∧
    p.Running ∧ p.port = port
  source : ∀ id p, s.processes id = some p → (p.gotNextPort = true ↔ p.srcFile = "")

section Inv

variable {s t : Server} {lo hi : ℤ}

theorem newServer_inv (h : lo ≤ hi) : (newServer lo hi).Inv lo hi where
  range := ⟨rfl, rfl⟩
  cursor := ⟨le_rfl, h⟩
  fresh _ _ := rfl
  taken _ _ := ⟨nofun, fun ⟨_, hp, _⟩ => nomatch hp⟩
  source _ _ hp := nomatch hp

theorem Inv.setCursor (h : s.Inv lo hi) {cur : ℤ} (hcur : s.startPort ≤ cur ∧ cur ≤ s.endPort) :
    Inv lo hi { s with currentPort := cur } :=
  { h with cursor := hcur }

/-- A new process has a port that was not taken, or none at all. -/
theorem Inv.register (h : s.Inv lo hi) {p : Process} (hphase : p.phase = .created)
    (hsrc : p.gotNextPort = true ↔ p.srcFile = "")
    (hfree : p.gotNextPort = true → s.processesByPort p.port = none) :
    (s.register p).Inv lo hi where
  range := h.range
  cursor := h.cursor
  fresh id hid := by
    have hid : s.processCounter + 1 < id := hid
    rw [register_processes, if_neg (by omega)]
    exact h.fresh id (by omega)
  taken port id := by
    have hnone := h.fresh (s.processCounter + 1) (Nat.lt_succ_self _)
    have hold : ∀ port, s.processesByPort port ≠ some (s.processCounter + 1) := fun port hport => by
      obtain ⟨q, hq, -⟩ := (h.taken port _).1 hport
      rw [hnone] at hq
      cases hq
    rw [register_processes]
    show (if p.gotNextPort then update s.processesByPort p.port (some (s.processCounter + 1))
      else s.processesByPort) port = some id ↔ _
    by_cases hid : id = s.processCounter + 1
    · subst hid
      rw [if_pos rfl]
      constructor
      · intro hport
        split_ifs at hport with hgot
        · by_cases hp : port = p.port
          · exact ⟨p, rfl, ⟨hgot, by rw [hphase]; decide⟩, hp.symm⟩
          · rw [update_of_ne hp] at hport
            exact absurd hport (hold port)
        · exact absurd hport (hold port)
      · rintro ⟨q, hq, hrun, rfl⟩
        cases hq
        rw [if_pos hrun.1, update_self]
    · rw [if_neg hid, ← h.taken port id]
      split_ifs with hgot
      · by_cases hp : port = p.port
        · subst hp
          rw [update_self, hfree hgot]
          exact ⟨fun he => absurd (Option.some.inj he).symm hid, nofun⟩
        · rw [update_of_ne hp]
      · rfl
  source id q hq := by
    rw [register_processes] at hq
    split_ifs at hq
    · cases hq
      exact hsrc
    · exact h.source id q hq

theorem Inv.createProcess (h : s.Inv lo hi) (processType : ProcessType)
    (srcFile : String) (port : ℤ) : (s.createProcess processType srcFile port).2.Inv lo hi := by
  unfold Server.createProcess
  split_ifs with hsrc
  · obtain ⟨cur, hcur, hstate, hres⟩ := nextPort_spec h.cursor
    rcases hn : s.nextPort with ⟨res, t⟩
    rw [hn] at hstate hres
    dsimp only at hstate hres
    subst hstate
    rcases hres with ⟨q, rfl, -, hfree⟩ | ⟨rfl, -⟩
    · exact (h.setCursor hcur).register rfl ⟨fun _ => hsrc, fun _ => rfl⟩ fun _ => hfree
    · exact h.setCursor hcur
  · exact h.register rfl ⟨nofun, fun he => absurd he hsrc⟩ nofun

/-- A goroutine goes on and keeps the port. -/
theorem Inv.setPhase (h : s.Inv lo hi) {id : ℕ} {p : Process} (hp : s.processes id = some p)
    (hold : p.phase ≠ .finished) {phase : Phase} (hnew : phase ≠ .finished) :
    (s.setPhase id p phase).Inv lo hi where
  range := h.range
  cursor := h.cursor
  fresh i hi := by
    have hne : i ≠ id := fun he => by
      have := h.fresh i hi
      rw [he, hp] at this
      cases this
    rw [setPhase_processes, if_neg hne]
    exact h.fresh i hi
  taken port i := by
    refine (h.taken port i).trans ?_
    rw [setPhase_processes]
    by_cases hi : i = id
    · subst hi
      rw [if_pos rfl, hp]
      constructor
      · rintro ⟨q, hq, hrun, rfl⟩
        cases hq
        exact ⟨_, rfl, ⟨hrun.1, hnew⟩, rfl⟩
      · rintro ⟨q, hq, hrun, rfl⟩
        cases hq
        exact ⟨p, rfl, ⟨hrun.1, hold⟩, rfl⟩
    · rw [if_neg hi]
  source i q hq := by
    rw [setPhase_processes] at hq
    split_ifs at hq
    · cases hq
      exact h.source id p hp
    · exact h.source i q hq

/-- A goroutine gives its port back. -/
theorem Inv.finish (h : s.Inv lo hi) {id : ℕ} {p : Process} (hp : s.processes id = some p)
    (hphase : p.phase = .exited) : ((s.setPhase id p .finished).release p).Inv lo hi := by
  -- nobody else has the port, so what `release` takes away is the entry of this process
  have hmine : ∀ port i, s.processesByPort port = some i →
      (i = id ↔ p.gotNextPort = true ∧ port = p.port) := by
    intro port i hport
    constructor
    · rintro rfl
      obtain ⟨q, hq, hrun, rfl⟩ := (h.taken port i).1 hport
      cases hp.symm.trans hq
      exact ⟨hrun.1, rfl⟩
    · rintro ⟨hgot, rfl⟩
      have := (h.taken p.port id).2 ⟨p, hp, ⟨hgot, by rw [hphase]; decide⟩, rfl⟩
      exact Option.some.inj (hport.symm.trans this)
  have hby : ∀ port, ((s.setPhase id p .finished).release p).processesByPort port =
      if p.gotNextPort = true ∧ port = p.port then none else s.processesByPort port := by
    intro port
    unfold release
    by_cases hgot : p.gotNextPort = true
    · rw [if_pos hgot]
      by_cases hport : port = p.port
      · rw [if_pos ⟨hgot, hport⟩, hport]
        exact update_self ..
      · rw [if_neg fun hc => hport hc.2]
        exact update_of_ne hport _ _
    · rw [if_neg hgot, if_neg fun hc => hgot hc.1]
      rfl
  have hproc : ∀ i, ((s.setPhase id p .finished).release p).processes i =
      if i = id then some { p with phase := .finished } else s.processes i := by
    intro i
    rw [← setPhase_processes]
    unfold release
    split_ifs
    · rfl
    · rfl
  have hrest : ∃ ps qs, (s.setPhase id p .finished).release p =
      { s with processes := ps, processesByPort := qs } := by
    unfold release
    split_ifs
    · exact ⟨_, _, rfl⟩
    · exact ⟨_, _, rfl⟩
  obtain ⟨ps, qs, ht⟩ := hrest
  rw [ht] at hby hproc ⊢
  refine ⟨h.range, h.cursor, fun i hi => ?_, fun port i => ?_, fun i q hq => ?_⟩
  · have hnone := h.fresh i hi
    rw [hproc, if_neg, hnone]
    rintro rfl
    rw [hp] at hnone
    cases hnone
  · rw [hby, hproc]
    constructor
    · intro hport
      split_ifs at hport with hc
      have hne : ¬ i = id := fun he => hc ((hmine port i hport).1 he)
      rw [if_neg hne]
      exact (h.taken port i).1 hport
    · rintro ⟨q, hq, hrun, rfl⟩
      split_ifs at hq with hi
      · cases hq
        exact absurd rfl hrun.2
      · have hport := (h.taken q.port i).2 ⟨q, hq, hrun, rfl⟩
        rw [if_neg fun hc => hi ((hmine _ i hport).2 hc)]
        exact hport
  · rw [hproc] at hq
    split_ifs at hq with hi
    · cases hq
      exact h.source id p hp
    · exact h.source i q hq

theorem step_inv {op : Op} (h : s.Inv lo hi) (hstep : s.step op = some t) : t.Inv lo hi := by
  unfold step at hstep
  split at hstep
  · cases hstep
    exact h.createProcess _ _ _
  · split at hstep
    · next p hp =>
      split_ifs at hstep with hphase
      cases hstep
      exact h.setPhase hp (by rw [hphase.1]; decide) (by decide)
    · cases hstep
  · split at hstep
    · next p hp =>
      split_ifs at hstep with hphase
      cases hstep
      exact h.setPhase hp (by rcases hphase with he | he <;> rw [he] <;> decide) (by decide)
    · cases hstep
  · split at hstep
    · next p hp =>
      split_ifs at hstep with hphase
      cases hstep
      exact h.finish hp hphase
    · cases hstep

theorem Inv.unique (h : s.Inv lo hi) {i j : ℕ} {p q : Process} (hp : s.processes i = some p)
    (hq : s.processes j = some q) (hrp : p.Running) (hrq : q.Running) (hport : p.port = q.port) :
    i = j := by
  have hi := (h.taken p.port i).2 ⟨p, hp, hrp, rfl⟩
  have hj := (h.taken p.port j).2 ⟨q, hq, hrq, hport.symm⟩
  exact Option.some.inj (hi.symm.trans hj)

theorem Inv.running_of_listening (h : s.Inv lo hi) {i : ℕ} {p : Process}
    (hp : s.processes i = some p) (hl : p.Listening) : p.Running :=
  ⟨(h.source i p hp).2 hl.2.1, by rw [hl.2.2]; decide⟩

end Inv

/-- No running process has the port. -/
def Free (s : Server) (port : ℤ) : Prop :=
  ∀ id p, s.processes id = some p → p.Running → p.port ≠ port

theorem Inv.free_iff {s : Server} {lo hi : ℤ} (h : s.Inv lo hi) (port : ℤ) :
    s.Free port ↔ s.processesByPort port = none := by
  constructor
  · intro hfree
    cases hport : s.processesByPort port with
    | none => rfl
    | some id =>
      obtain ⟨p, hp, hrun, he⟩ := (h.taken port id).1 hport
      exact absurd he (hfree id p hp hrun)
  · intro hnone id p hp hrun he
    have := (h.taken port id).2 ⟨p, hp, hrun, he⟩
    rw [hnone] at this
    cases this

/-- Requests come and processes end in any order. The cursor stays in the range. `nextPort` returns
a port of the range that no running process has if there is one, and fails only if all are taken. A
listener is running, and no two running processes have the same port. -/
theorem ports_in_turn {lo hi : ℤ} (hrange : lo ≤ hi) {s : Server} {ops : List Op}
    (hrun : run step (newServer lo hi) ops = some s) :
    (lo ≤ s.currentPort ∧ s.currentPort ≤ hi) ∧
    (∀ port, s.nextPort.1 = .ok port → (lo ≤ port ∧ port ≤ hi) ∧ s.Free port) ∧
    ((∃ port, (lo ≤ port ∧ port ≤ hi) ∧ s.Free port) → ∃ port, s.nextPort.1 = .ok port) ∧
    (∀ e, s.nextPort.1 = .error e → ∀ port, lo ≤ port ∧ port ≤ hi → ¬s.Free port) ∧
    (∀ i p, s.processes i = some p → p.Listening → p.Running) ∧
    ∀ i j p q, s.processes i = some p → s.processes j = some q → p.Running → q.Running →
      p.port = q.port → i = j := by
  have h : s.Inv lo hi :=
    inv_of_run (fun _ _ _ hI _ hstep => step_inv hI hstep) (newServer_inv hrange)
    (along_true step _ ops) hrun
  obtain ⟨cur, -, -, hres⟩ := nextPort_spec h.cursor
  have hcursor := h.cursor
  obtain ⟨hlo, hhi⟩ := h.range
  rw [hlo, hhi] at hres hcursor
  refine ⟨hcursor, fun port hport => ?_, fun ⟨port, hin, hfree⟩ => ?_,
    fun e he port hin hfree => ?_, fun i p => h.running_of_listening, fun i j p q => h.unique⟩
  · rcases hres with ⟨q, hq, hin, hnone⟩ | ⟨herr, -⟩
    · obtain rfl := Except.ok.inj (hport.symm.trans hq)
      exact ⟨hin, (h.free_iff port).2 hnone⟩
    · rw [hport] at herr
      cases herr
  · rcases hres with ⟨q, hq, -⟩ | ⟨-, htaken⟩
    · exact ⟨q, hq⟩
    · have := htaken port hin
      rw [(h.free_iff port).1 hfree] at this
      cases this
  · rcases hres with ⟨q, hq, -⟩ | ⟨-, htaken⟩
    · rw [he] at hq
      cases hq
    · have := htaken port hin
      rw [(h.free_iff port).1 hfree] at this
      cases this

/-- Three listeners take all ports, and a fourth request fails. A client takes none. When the second
listener has ended, its port is found again. -/
theorem ports_in_turn_full :
    ∃ s t, run step (newServer 9700 9702) [.createProcess .sync "" 0, .createProcess .sync "" 0,
        .start 2, .createProcess .sync "" 0, .createProcess .sync "" 0,
        .createProcess .sync "f" 9701] = some s ∧
      run step s [.start 1, .exit 2, .finish 2] = some t ∧
      (∀ port, 9700 ≤ port ∧ port ≤ 9702 → ¬s.Free port) ∧ t.nextPort.1 = .ok 9701 ∧
      t.Free 9701 := by
  have heval : (run step (newServer 9700 9702) [.createProcess .sync "" 0,
      .createProcess .sync "" 0, .start 2, .createProcess .sync "" 0, .createProcess .sync "" 0,
      .createProcess .sync "f" 9701]).bind (fun s =>
      (run step s [.start 1, .exit 2, .finish 2]).map fun t =>
        (s.nextPort.1.toOption, t.nextPort.1.toOption)) = some (none, some 9701) := by
    decide +kernel
  obtain ⟨s, hs, heval⟩ := Option.bind_eq_some_iff.1 heval
  obtain ⟨t, ht, heval⟩ := Option.map_eq_some_iff.1 heval
  simp only [Prod.mk.injEq] at heval
  obtain ⟨hfull, hfound⟩ := heval
  have hnext : t.nextPort.1 = .ok 9701 := by
    cases hres : t.nextPort.1 with
    | error e =>
      rw [hres] at hfound
      cases hfound
    | ok port =>
      rw [hres] at hfound
      exact congrArg _ (Option.some.inj hfound)
  have hrun : run step (newServer 9700 9702) ([.createProcess .sync "" 0, .createProcess .sync "" 0,
      .start 2, .createProcess .sync "" 0, .createProcess .sync "" 0,
      .createProcess .sync "f" 9701] ++ [.start 1, .exit 2, .finish 2]) = some t := by
    rw [run_append, hs]
    exact ht
  refine ⟨s, t, hs, ht, ?_, hnext, ((ports_in_turn (by decide) hrun).2.1 9701 hnext).2⟩
  cases hres : s.nextPort.1 with
  | error e => exact (ports_in_turn (by decide) hs).2.2.2.1 e hres
  | ok port =>
    rw [hres] at hfull
    cases hfull

end Server

end SyncAgent

end Jiva
