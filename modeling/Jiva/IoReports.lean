import Mathlib.Data.List.Rotate
import Jiva.WriteQuorum

/-!
# What a read and a write report

A write is sent to every replica that is not in mode `ERR`, and the count of a write that some
replicas have failed is a test of a majority : the whole length, or none. The error is dropped by
another test, that a replica in mode `RW` is left. `writeAt_honest_iff` says that the report of a
write is honest exactly if these two do not come apart, and `twoWriters_short` is a write to two
replicas that fails on one of them : the count is `0`, and there is no error.

A read tries one reader after the other. `readAtLog` is `readAt` with a record of the attempts, and
`readAt_served` says what a caller may rely on : the attempts are on replicas in mode `RW` only,
each at most once and in turn, the read fails only if all of them fail, and those that have failed
are removed.
-/

namespace Jiva

open Hoare Controller Relation Transition

variable {w w' : World} {a : Address} {bytes : List Byte} {e : ReplicaEntry}
    {c : Controller} {off : ℤ}
  {len : ℕ}

/-! ## Writes -/

/-- The replicas whose write has failed, none if the write is not sent. -/
def failedWriters (wr : Write) (w : World) : List Address :=
  if w.c.readOnly = false ∧ w.c.inBounds wr.off wr.data.length = true ∧
      countRW w.c.replicas ≠ 0 then
    failing (writerNames w.c) w
  else []

/-- The report `res` of the write `wr` is honest : without an error all of it is written, to every
replica that is left and not in mode `ERR`, a short count comes with an error, and the replicas that
have failed are gone. -/
structure HonestWrite (wr : Write) (w : World) (res : (ℕ × Option Err) × World) : Prop where
  done : res.1.2 = none → res.1.1 = wr.data.length ∧
    ∀ e ∈ res.2.c.replicas, e.mode ≠ .err →
      Node.Got wr (w.nodes e.address) (res.2.nodes e.address)
  short : res.1.1 < wr.data.length → res.1.2 ≠ none
  gone : ∀ e ∈ res.2.c.replicas, e.address ∉ failedWriters wr w

/-- The write is sent, there is no majority for it, and a replica in mode `RW` has not failed. -/
def LosesError (wr : Write) (w : World) : Prop :=
  w.c.readOnly = false ∧ w.c.inBounds wr.off wr.data.length = true ∧ wr.data ≠ [] ∧
    0 < failures w ∧ ¬Answered wr w ∧
      ∃ e ∈ w.c.replicas, e.mode = .rw ∧ e.address ∉ failing (writerNames w.c) w

instance (wr : Write) (w : World) : Decidable (LosesError wr w) := by
  unfold LosesError
  infer_instance

theorem countRW_ne_zero {rs : List ReplicaEntry} (he : e ∈ rs) (hm : e.mode = .rw) :
    countRW rs ≠ 0 :=
  Nat.pos_iff_ne_zero.1 (List.countP_pos_iff.2 ⟨e, he, by simpa using hm⟩)

/-- In every state that a run reaches, for every write and every pattern of failures : the report is
honest exactly if no error is lost. -/
theorem writeAt_honest_iff (name : String) (rf : ℕ) (nodes : Address → Node)
    (ls : List (Op × (ℕ → Moment))) (s : System)
    (h : run System.step (System.new name rf nodes) ls = some s) (wr : Write) (tape : ℕ → Moment) :
    HonestWrite wr (s.world.onTape tape) ((Controller.writeAt wr).run (s.world.onTape tape)) ↔
      ¬LosesError wr (s.world.onTape tape) := by
  have hw : Mirrored (s.world.onTape tape).c := System.mirrored_of_run h
  generalize s.world.onTape tape = w at hw ⊢
  by_cases hsent : w.c.readOnly = false ∧ w.c.inBounds wr.off wr.data.length = true ∧
      countRW w.c.replicas ≠ 0
  · obtain ⟨hwrites, hleft, hn, herr⟩ := writeAt_sent hw hsent.1 hsent.2.1 hsent.2.2 w rfl
    generalize (Controller.writeAt wr).run w = res at hwrites hleft hn herr ⊢
    constructor
    · rintro hhon ⟨-, -, hdata, hpos, hans, hrw⟩
      rw [if_pos (.inl hpos), if_neg hans] at hn
      rw [if_pos hpos] at herr
      have hlen := List.length_pos_iff.2 hdata
      exact hhon.short (by omega) (herr.2 hrw)
    · intro hnot
      have hdone : res.1.2 = none → res.1.1 = wr.data.length := by
        intro hnone
        have hcase := herr.1 hnone
        by_cases hpos : 0 < failures w
        · rw [if_pos hpos] at hcase
          by_contra hne
          refine hnot ⟨hsent.1, hsent.2.1, fun hd => hne ?_, hpos, fun hans => hne ?_, hcase⟩
          · rw [hn, hd]
            split_ifs <;> rfl
          · rw [hn, if_pos hans, ite_self]
        · rw [if_neg hpos] at hcase
          rw [hn, if_neg (by omega)]
      refine ⟨fun hnone => ⟨hdone hnone, fun e he hm => ?_⟩, fun hlt hnone => ?_, fun e he => ?_⟩
      · have := got_of_not_failing hw wr ((hleft e he).2 hm) hm (hleft e he).1
        rwa [Node.Got, ← hwrites] at this
      · exact absurd (hdone hnone) hlt.ne
      · rw [failedWriters, if_pos hsent]
        exact (hleft e he).1
  · have herr := writeAt_refused hw hsent w rfl
    refine iff_of_true ⟨fun hnone => (herr hnone).elim, fun _ => herr, fun e _ => ?_⟩ ?_
    · rw [failedWriters, if_neg hsent]
      exact List.not_mem_nil
    · rintro ⟨hro, hin, -, -, -, e, he, hm, -⟩
      exact hsent ⟨hro, hin, countRW_ne_zero he hm⟩

/-- The write fails on one of three replicas, and the other two are a majority. -/
theorem writeAt_honest_iff_twoOfThree : ∃ s tape,
    run System.step (System.new "vol" 3 fun _ => .blank)
      (System.calmly rebuildThird) = some s ∧
    failures (s.world.onTape tape) = 1 ∧
    HonestWrite ⟨0, [1]⟩ (s.world.onTape tape)
      ((Controller.writeAt ⟨0, [1]⟩).run (s.world.onTape tape)) := by
  have hrun : (run System.step (System.new "vol" 3 fun _ => .blank)
      (System.calmly rebuildThird)).map (fun s =>
        let tape := refusing (writerNames s.world.c) ["tcp://b:9502"] false
        decide (failures (s.world.onTape tape) = 1 ∧
          ¬LosesError ⟨0, [1]⟩ (s.world.onTape tape))) = some true := by
    decide +kernel
  obtain ⟨s, hs, hst⟩ := Option.map_eq_some_iff.1 hrun
  obtain ⟨hone, hkept⟩ := of_decide_eq_true hst
  exact ⟨s, _, hs, hone, (writeAt_honest_iff _ _ _ _ s hs _ _).2 hkept⟩

/-- The write fails on one of two replicas in mode `RW`. It is reported with the count `0` and no
error. -/
theorem twoWriters_short : ∃ s tape,
    run System.step (System.new "vol" 2 fun _ => .blank) (System.calmly rebuildOne) =
      some s ∧
    ((Controller.writeAt ⟨0, [1]⟩).run (s.world.onTape tape)).1 = (0, none) ∧
    ¬HonestWrite ⟨0, [1]⟩ (s.world.onTape tape)
      ((Controller.writeAt ⟨0, [1]⟩).run (s.world.onTape tape)) := by
  have hrun : (run System.step (System.new "vol" 2 fun _ => .blank)
      (System.calmly rebuildOne)).map (fun s =>
        let tape := refusing (writerNames s.world.c) ["tcp://b:9502"] false
        decide (((Controller.writeAt ⟨0, [1]⟩).run (s.world.onTape tape)).1 = (0, none))) =
          some true := by
    decide +kernel
  obtain ⟨s, hs, hst⟩ := Option.map_eq_some_iff.1 hrun
  have hres := of_decide_eq_true hst
  refine ⟨s, _, hs, hres, fun hhon => ?_⟩
  exact hhon.short (by rw [hres]; decide) (by rw [hres])

/-! ## Reads -/

/-- The loop of `replicator.ReadAt` as in `readLoop`, with a record of the attempts. -/
def Replicator.readLoopLog (r : Replicator) (off : ℤ) (len : ℕ) :
    ℕ → ℕ → List (Address × String) →
      Ctl (List (Address × Except String (List Byte)) × List Byte × List (Address × String))
  | 0, _, errs => pure ([], [], errs)
  | k + 1, index, errs => do
    let reader := r.readers.getD index ⟨""⟩
    let res ← query reader.name (readBytes off len)
    match res with
    | .ok bytes => pure ([(reader.name, .ok bytes)], bytes, errs)
    | .error e => do
      let rest ← readLoopLog r off len k ((index + 1) % r.readers.length)
        (errs ++ [(r.readerIndex index, e)])
      pure ((reader.name, .error e) :: rest.1, rest.2)

/-- `replicator.ReadAt` with a record of the attempts. -/
def Replicator.readAtLog (off : ℤ) (len : ℕ) :
    Ctl (List (Address × Except String (List Byte)) × List Byte × Option Err) := do
  let w ← get
  let r := w.c.backend
  if r.backendsAvailable = false then pure ([], [], some errNoBackend)
  else do
    let index := (r.next + 1) % r.readers.length
    modify fun w => w.setBackend fun r => { r with next := index }
    let res ← readLoopLog r off len r.readers.length index []
    if res.2.2 = [] then pure (res.1, res.2.1, none)
    else pure (res.1, res.2.1, some (.backend res.2.2))

/-- `Controller.ReadAt` with a record of the attempts. -/
def Controller.readAtLog (off : ℤ) (len : ℕ) :
    Ctl (List (Address × Except String (List Byte)) × List Byte × Option Err) := do
  let w ← get
  match w.c.cannotRead off len with
  | some err => pure ([], [], some err)
  | none => do
    let res ← Replicator.readAtLog off len
    match res.2.2 with
    | none => pure (res.1, res.2.1, none)
    | some err => do
      let errh ← handleIOError err
      pure (res.1, res.2.1, errh)

/-- The computation `y` is `x` without its record. -/
def Erases {γ α : Type} (x : Ctl (γ × α)) (y : Ctl α) : Prop :=
  ∀ w, y.run w = ((x.run w).1.2, (x.run w).2)

namespace Erases

variable {γ δ α β : Type}

theorem pure (c : γ) (a : α) : Erases (Pure.pure (c, a)) (Pure.pure a) :=
  fun _ => rfl

/-- The same computation before both. -/
theorem after (x : Ctl β) {f : β → Ctl (γ × α)} {g : β → Ctl α} (h : ∀ b, Erases (f b) (g b)) :
    Erases (x >>= f) (x >>= g) :=
  fun _ => h _ _

theorem bind {x : Ctl (δ × β)} {y : Ctl β} (hx : Erases x y) {f : δ × β → Ctl (γ × α)}
    {g : β → Ctl α} (h : ∀ d b, Erases (f (d, b)) (g b)) : Erases (x >>= f) (y >>= g) := by
  intro w
  rw [StateT.run_bind, StateT.run_bind, hx w]
  exact h _ _ _

theorem ite {c : Prop} [Decidable c] {x x' : Ctl (γ × α)} {y y' : Ctl α} (h : Erases x y)
    (h' : Erases x' y') : Erases (if c then x else x') (if c then y else y') := by
  split_ifs
  · exact h
  · exact h'

end Erases

theorem readLoopLog_erases (r : Replicator) (off : ℤ) (len : ℕ) :
    ∀ (k index : ℕ) (errs : List (Address × String)),
      Erases (r.readLoopLog off len k index errs) (r.readLoop off len k index errs)
  | 0, _, _ => .pure _ _
  | k + 1, index, errs => by
    refine .after _ fun res => ?_
    cases res with
    | ok bytes => exact .pure _ _
    | error e => exact .bind (readLoopLog_erases r off len k _ _) fun _ _ => .pure _ _

/-- The record is all that is added to `readAt`. -/
theorem readAtLog_erases (off : ℤ) (len : ℕ) :
    Erases (Controller.readAtLog off len) (Controller.readAt off len) := by
  refine .after _ fun w => ?_
  cases w.c.cannotRead off len with
  | some err => exact .pure _ _
  | none =>
    refine .bind (.after _ fun w => .ite (.pure _ _) (.after _ fun _ => .bind
      (readLoopLog_erases _ off len _ _ _) fun _ _ => .ite (.pure _ _) (.pure _ _))) fun _ res => ?_
    obtain ⟨bytes, err⟩ := res
    cases err with
    | none => exact .pure _ _
    | some err => exact .after _ fun _ => .pure _ _

/-- The readers from the one at `index` on, `k` of them, in turn. -/
def turns (names : List Address) (k index : ℕ) : List Address :=
  (List.range k).map fun i => names.getD ((index + i) % names.length) ""

theorem turns_succ (names : List Address) (k : ℕ) {index : ℕ} (h : index < names.length) :
    turns names (k + 1) index =
      names.getD index "" :: turns names k ((index + 1) % names.length) := by
  rw [turns, List.range_succ_eq_map, List.map_cons, List.map_map, Nat.add_zero, Nat.mod_eq_of_lt h]
  refine congrArg _ (List.map_congr_left fun i _ => ?_)
  rw [Function.comp_apply, Nat.mod_add_mod, Nat.succ_eq_one_add, Nat.add_assoc]

theorem turns_eq_rotate (names : List Address) (index : ℕ) :
    turns names names.length index = names.rotate index := by
  refine List.ext_getElem (by simp [turns]) fun i h _ => ?_
  have hi : i < names.length := by simpa [turns] using h
  rw [List.getElem_rotate]
  simp [turns, Nat.add_comm index, Nat.mod_lt _ (Nat.zero_lt_of_lt hi)]

/-- An attempt that fails. -/
def failedAttempt (p : Address × String) : Address × Except String (List Byte) :=
  (p.1, .error p.2)

/-- What the loop of a read gives, from the readers in the order `turn` : those that fail, and then
one that does not unless all do. -/
structure Attempted (off : ℤ) (len : ℕ) (turn : List Address) (errs : List (Address × String))
    (w : World) (res : List (Address × Except String (List Byte)) × List Byte ×
      List (Address × String)) (w' : World) : Prop where
  c : w'.c = w.c
  nodes : w'.nodes = w.nodes
  order : List.IsPrefix (res.1.map Prod.fst) turn
  ended : ∃ fails : List (Address × String), res.2.2 = errs ++ fails ∧
    ((res.1 = fails.map failedAttempt ∧ fails.length = turn.length) ∨
      ∃ a, res.1 = fails.map failedAttempt ++ [(a, .ok res.2.1)] ∧
        res.2.1 = Replicator.readBytes off len (w.nodes a))

theorem readLoopLog_spec {r : Replicator} {names : List Address}
    (hfit : Fits names r.readers r.readerIndex) (off : ℤ) (len : ℕ) :
    ∀ (k : ℕ) {index : ℕ} (errs : List (Address × String)) (w : World), index < names.length →
      Attempted off len (turns names k index) errs w
        ((r.readLoopLog off len k index errs).run w).1
          ((r.readLoopLog off len k index errs).run w).2
  | 0, _, errs, w, _ => ⟨rfl, rfl, List.prefix_refl _, [], (List.append_nil _).symm,
    .inl ⟨rfl, rfl⟩⟩
  | k + 1, index, errs, w, hlt => by
    have hlen : r.readers.length = names.length := by rw [hfit.1, List.length_map]
    have hreader : r.readers.getD index ⟨""⟩ = ⟨names.getD index ""⟩ := by
      rw [hfit.1]
      simp [hlt]
    have hindex : r.readerIndex index = names.getD index "" :=
      hfit.2 _ _ (by simp [hlt])
    unfold Replicator.readLoopLog
    dsimp only
    rw [hreader, hindex, hlen, run_bind (query_run _ _ w), turns_succ _ _ hlt]
    generalize names.getD index "" = a
    cases herr : (w.tape 0).reply.err with
    | none =>
      exact ⟨rfl, rfl, List.prefix_iff_eq_append.2 rfl, [], by simp; rfl, .inr ⟨a, rfl, rfl⟩⟩
    | some e =>
      have ih := readLoopLog_spec hfit off len k (errs ++ [(a, e)]) w.advance
        (Nat.mod_lt (index + 1) (Nat.zero_lt_of_lt hlt))
      dsimp only
      rw [StateT.run_bind]
      generalize (r.readLoopLog off len k _ _).run w.advance = res at ih ⊢
      obtain ⟨fails, herrs, hend⟩ := ih.ended
      refine ⟨ih.c, ih.nodes, (List.prefix_cons_inj _).2 ih.order, (a, e) :: fails, ?_, ?_⟩
      · exact herrs.trans (List.append_assoc ..)
      · rcases hend with ⟨hlog, hall⟩ | ⟨x, hlog, hbytes⟩
        · exact .inl ⟨congrArg (List.cons _) hlog, by simpa using hall⟩
        · exact .inr ⟨x, congrArg (List.cons _) hlog, hbytes⟩

/-- The readers, in the order of the table. -/
def readerNames (c : Controller) : List Address :=
  c.backend.readers.map Remote.name

/-- What a caller may rely on, of a read with the attempts `log` and the result `res`. -/
structure ReadServed (off : ℤ) (len : ℕ) (w : World)
    (log : List (Address × Except String (List Byte))) (res : List Byte × Option Err)
    (w' : World) : Prop where
  readable : ∀ p ∈ log, ⟨p.1, .rw⟩ ∈ w.c.replicas
  once : (log.map Prod.fst).Nodup
  inTurn : List.IsPrefix (log.map Prod.fst) ((readerNames w.c).rotate (w.c.backend.next + 1))
  moves : (∃ a bytes, log = [(a, .ok bytes)]) → readerNames w'.c = readerNames w.c ∧
    w'.c.backend.next = (w.c.backend.next + 1) % (readerNames w.c).length
  served : res.2 = none ↔ ∃ a bytes, (a, .ok bytes) ∈ log
  bytes : ∀ a bytes, (a, .ok bytes) ∈ log →
    res.1 = bytes ∧ bytes = Replicator.readBytes off len (w.nodes a)
  removed : ∀ a e, (a, .error e) ∈ log → ∀ r ∈ w'.c.replicas, r.address ≠ a
  failed : res.2 ≠ none → ¬(0 ≤ off ∧ off + len ≤ w.c.size) ∨ (∀ r ∈ w.c.replicas, r.mode ≠ .rw) ∨
    ∀ r ∈ w.c.replicas, r.mode = .rw → ∃ e, (r.address, .error e) ∈ log

section

variable {c : Controller} (h : Mirrored c)

include h

theorem fits_readerNames : Fits (readerNames c) c.backend.readers c.backend.readerIndex := by
  obtain ⟨order, -, -, ⟨hrd, hindex⟩, -⟩ := h.built
  have hnames : readerNames c = c.backend.addresses BackendMode.readable order := by
    rw [readerNames, hrd, List.map_map, Function.comp_def, List.map_id']
  rw [hnames]
  exact ⟨hrd, hindex⟩

theorem mem_readerNames : a ∈ readerNames c ↔ ⟨a, .rw⟩ ∈ c.replicas := by
  rw [h.reflects.entries, readerNames, List.mem_map]
  constructor
  · rintro ⟨b, hb, rfl⟩
    obtain ⟨a, w, hw, hm, rfl⟩ := (h.reflects.readers.mem_iff b).1 hb
    rw [h.named a w hw]
    exact ⟨w, hw, hm⟩
  · rintro ⟨w, hw, hm⟩
    exact ⟨w.backend, (h.reflects.readers.mem_iff _).2 ⟨a, w, hw, hm, rfl⟩, by rw [h.named a w hw]⟩

theorem nodup_readerNames : (readerNames c).Nodup := by
  have hfit := (fits_readerNames h).1
  have := h.reflects.readers.nodup
  rw [hfit] at this
  exact this.of_map _

theorem exists_readerName (hrw : countRW c.replicas ≠ 0) : ∃ a, a ∈ readerNames c := by
  obtain ⟨⟨a, m⟩, hr, hm⟩ := List.countP_pos_iff.1 (Nat.pos_iff_ne_zero.2 hrw)
  obtain rfl : m = .rw := by simpa using hm
  exact ⟨a, (mem_readerNames h).2 hr⟩

end

/-- The controller after the replicator has moved on to the next reader. -/
def nextTurn (c : Controller) : Controller :=
  { c with backend := { c.backend with next := (c.backend.next + 1) % c.backend.readers.length } }

theorem Mirrored.nextTurn (h : Mirrored c) : Mirrored (nextTurn c) :=
  ⟨h.toMatches, h.built⟩

/-- What the replicator gives : the attempts in turn, and an error if one of them fails. -/
structure ReadBy (off : ℤ) (len : ℕ) (w : World) (fails : List (Address × String))
    (res : List (Address × Except String (List Byte)) × List Byte × Option Err) (w' : World) :
    Prop where
  c : w'.c = nextTurn w.c
  nodes : w'.nodes = w.nodes
  inTurn : List.IsPrefix (res.1.map Prod.fst) ((readerNames w.c).rotate (w.c.backend.next + 1))
  err : res.2.2 = if fails = [] then none else some (.backend fails)
  ended : (res.1 = fails.map failedAttempt ∧ fails.length = (readerNames w.c).length) ∨
    ∃ a, res.1 = fails.map failedAttempt ++ [(a, .ok res.2.1)] ∧
      res.2.1 = Replicator.readBytes off len (w.nodes a)

theorem replicatorReadAtLog_spec (hw : Mirrored w.c) (off : ℤ) (len : ℕ)
    (hrw : countRW w.c.replicas ≠ 0) :
    Triple (fun s => s = w) (Replicator.readAtLog off len) fun res s =>
      ∃ fails, ReadBy off len w fails res s := by
  have havail := (available_iff hw).2 hrw
  have hlen : w.c.backend.readers.length = (readerNames w.c).length := by simp [readerNames]
  have hpos : 0 < (readerNames w.c).length := by
    rw [← hlen]
    exact List.length_pos_iff.2 (hw.reflects.available.1 havail)
  refine .get ?_
  rintro w rfl
  refine .ite (fun hno => (Bool.false_ne_true (hno.symm.trans havail)).elim) fun _ => ?_
  refine .modify_bind (.bind (Triple.result { w with c := nextTurn w.c }) fun res =>
    .fix fun w' h' => ?_)
  · have hloop := readLoopLog_spec (fits_readerNames hw) off len w.c.backend.readers.length []
      { w with c := nextTurn w.c } (Nat.mod_lt (w.c.backend.next + 1) hpos)
    rw [← hlen, h', hlen, turns_eq_rotate, List.rotate_mod] at hloop
    obtain ⟨fails, herrs, hend⟩ := hloop.ended
    rw [List.nil_append] at herrs
    rw [List.length_rotate] at hend
    have hby : ∀ err, (err = if fails = [] then none else some (.backend fails)) →
        ReadBy off len w fails (res.1, res.2.1, err) w' :=
      fun err herr => ⟨hloop.c, hloop.nodes, hloop.order, herr, hend⟩
    refine .ite (fun hnil => .pure ?_) fun hcons => .pure ?_
    · rintro s rfl
      exact ⟨fails, hby _ (by rw [if_pos (herrs.symm.trans hnil)])⟩
    · rintro s rfl
      exact ⟨fails, hby _ (by rw [herrs] at hcons ⊢; rw [if_neg hcons])⟩

namespace ReadBy

variable {off : ℤ} {len : ℕ} {w w' : World} {fails : List (Address × String)}
  {res : List (Address × Except String (List Byte)) × List Byte × Option Err}

theorem mem_error (h : ReadBy off len w fails res w') {e : String} :
    (a, .error e) ∈ res.1 ↔ (a, e) ∈ fails := by
  have hfails : (a, Except.error e) ∈ fails.map failedAttempt ↔ (a, e) ∈ fails := by
    rw [List.mem_map]
    constructor
    · rintro ⟨⟨x, e'⟩, hp, hx⟩
      obtain ⟨rfl, he⟩ := Prod.mk.inj hx
      rwa [← Except.error.inj he]
    · exact fun hp => ⟨_, hp, rfl⟩
  rcases h.ended with ⟨hlog, -⟩ | ⟨x, hlog, -⟩
  · rw [hlog, hfails]
  · rw [hlog, List.mem_append, hfails, List.mem_singleton]
    simp

theorem mem_ok (h : ReadBy off len w fails res w') (hmem : (a, .ok bytes) ∈ res.1) :
    res.1 = fails.map failedAttempt ++ [(a, .ok bytes)] ∧ res.2.1 = bytes ∧
      bytes = Replicator.readBytes off len (w.nodes a) := by
  have hnot : (a, Except.ok bytes) ∉ fails.map failedAttempt := by
    rw [List.mem_map]
    rintro ⟨p, -, hp⟩
    exact nomatch (Prod.mk.inj hp).2
  rcases h.ended with ⟨hlog, -⟩ | ⟨x, hlog, hbytes⟩
  · exact (hnot (hlog ▸ hmem)).elim
  · rw [hlog, List.mem_append, List.mem_singleton] at hmem
    obtain ⟨rfl, hb⟩ := Prod.mk.inj (hmem.resolve_left hnot)
    obtain rfl := Except.ok.inj hb
    exact ⟨hlog, rfl, hbytes⟩

/-- All readers have failed, or the last attempt has not. -/
theorem all_failed (h : ReadBy off len w fails res w') (hno : ¬∃ a bytes, (a, .ok bytes) ∈ res.1)
    (ha : a ∈ readerNames w.c) : ∃ e, (a, e) ∈ fails := by
  rcases h.ended with ⟨hlog, hlen⟩ | ⟨x, hlog, -⟩
  · have hfst : res.1.map Prod.fst = fails.map Prod.fst := by
      rw [hlog, List.map_map]
      rfl
    have hall := h.inTurn.eq_of_length (by rw [hfst, List.length_map, hlen, List.length_rotate])
    rw [hfst] at hall
    obtain ⟨⟨x, e⟩, hmem, rfl⟩ := List.mem_map.1 (hall ▸ List.mem_rotate.2 ha)
    exact ⟨e, hmem⟩
  · exact (hno ⟨x, res.2.1, by simp [hlog]⟩).elim

/-- The reader that does not fail is in mode `RW`, and was not tried before. -/
theorem last (hw : Mirrored w.c) (h : ReadBy off len w fails res w')
    (hmem : (a, .ok bytes) ∈ res.1) : ⟨a, .rw⟩ ∈ w.c.replicas ∧ a ∉ fails.map Prod.fst := by
  have hnodup := h.inTurn.sublist.nodup (List.nodup_rotate.2 (nodup_readerNames hw))
  have hturn := h.inTurn.subset (List.mem_map_of_mem hmem)
  refine ⟨(mem_readerNames hw).1 (List.mem_rotate.1 hturn), fun ha => ?_⟩
  rw [(h.mem_ok hmem).1, List.map_append, List.map_map] at hnodup
  exact (List.nodup_append.1 hnodup).2.2 a ha a (by simp) rfl

end ReadBy

theorem outOfBounds_of_inBounds (h : c.inBounds off len = false) :
    ¬(0 ≤ off ∧ off + len ≤ c.size) := by
  rintro ⟨hoff, hend⟩
  have hwrap : int64Of (off + len) ≤ off + len := by
    simp only [int64Of, Int.bmod]
    omega
  simp [inBounds, hoff] at h
  omega

/-- Why a read is not sent to the replicas. -/
theorem of_cannotRead {err : Err} (h : c.cannotRead off len = some err) :
    ¬(0 ≤ off ∧ off + len ≤ c.size) ∨ ∀ r ∈ c.replicas, r.mode ≠ .rw := by
  unfold cannotRead at h
  split at h
  · exact .inl (outOfBounds_of_inBounds ‹_›)
  · refine .inr ?_
    split at h
    · simp [*]
    · split at h
      · simp [*]
      · exact nomatch h
    · exact nomatch h

/-- A read that is not sent to the replicas. -/
theorem ReadServed.not_sent {err : Err}
    (h : ¬(0 ≤ off ∧ off + len ≤ w.c.size) ∨ ∀ r ∈ w.c.replicas, r.mode ≠ .rw) :
    ReadServed off len w [] (bytes, some err) w' where
  readable := nofun
  once := List.nodup_nil
  inTurn := List.nil_prefix
  moves := nofun
  served := iff_of_false nofun (by simp)
  bytes := nofun
  removed := nofun
  failed := fun _ => h.imp_right .inl

theorem ReadBy.served {w'' : World} {fails : List (Address × String)}
    {res : List (Address × Except String (List Byte)) × List Byte × Option Err} {errh : Option Err}
    (hw : Mirrored w.c) (h : ReadBy off len w fails res w')
    (hmoves : fails = [] → w'' = w') (herr : errh = none ↔ ∃ a bytes, (a, .ok bytes) ∈ res.1)
    (hgone : ∀ r ∈ w''.c.replicas, r.address ∉ fails.map Prod.fst) :
    ReadServed off len w res.1 (res.2.1, errh) w'' := by
  have hnames : ∀ p ∈ res.1, p.1 ∈ readerNames w.c := fun p hp =>
    List.mem_rotate.1 (h.inTurn.subset (List.mem_map_of_mem hp))
  refine ⟨fun p hp => (mem_readerNames hw).1 (hnames p hp), ?_, h.inTurn, ?_, herr, ?_, ?_, ?_⟩
  · exact h.inTurn.sublist.nodup (List.nodup_rotate.2 (nodup_readerNames hw))
  · rintro ⟨a, bytes, hlog⟩
    have hnil : fails = [] := by
      have hmem : (a, Except.ok bytes) ∈ res.1 := by simp [hlog]
      obtain ⟨hlog', -⟩ := h.mem_ok hmem
      rw [hlog] at hlog'
      simpa using congrArg List.length hlog'
    rw [hmoves hnil, h.c]
    exact ⟨rfl, by simp [nextTurn, readerNames]⟩
  · intro a bytes hmem
    exact (h.mem_ok hmem).2
  · rintro a e hmem r hr rfl
    exact hgone r hr (List.mem_map_of_mem (h.mem_error.1 hmem))
  · intro hne
    refine .inr (.inr fun r hr hm => ?_)
    obtain ⟨a, m⟩ := r
    obtain rfl : m = .rw := hm
    obtain ⟨e, he⟩ := h.all_failed (fun hok => hne (herr.2 hok)) ((mem_readerNames hw).2 hr)
    exact ⟨e, h.mem_error.2 he⟩

/-- In every state that a run reaches, for every range and every pattern of failures : a read is
served as its caller may rely on. -/
theorem readAt_served (name : String) (rf : ℕ) (nodes : Address → Node)
    (ls : List (Op × (ℕ → Moment))) (s : System)
    (h : run System.step (System.new name rf nodes) ls = some s) (off : ℤ) (len : ℕ)
    (tape : ℕ → Moment) :
    let w := s.world.onTape tape
    let res := (Controller.readAtLog off len).run w
    (Controller.readAt off len).run w = (res.1.2, res.2) ∧
      ReadServed off len w res.1.1 res.1.2 res.2 := by
  refine ⟨readAtLog_erases off len _, ?_⟩
  have hw : Mirrored (s.world.onTape tape).c := System.mirrored_of_run h
  generalize s.world.onTape tape = w at hw ⊢
  suffices hspec : Triple (fun s => s = w) (Controller.readAtLog off len) fun res s =>
      ReadServed off len w res.1 res.2 s from hspec w rfl
  refine .get ?_
  rintro w rfl
  cases hcannot : w.c.cannotRead off len with
  | some err =>
    exact .pure fun _ _ => .not_sent (of_cannotRead hcannot)
  | none =>
    by_cases hrw : countRW w.c.replicas = 0
    · have hno : ∀ r ∈ w.c.replicas, r.mode ≠ .rw := fun r hr hm => countRW_ne_zero hr hm hrw
      have havail := unavailable hw hrw
      refine .bind (Q := fun res _ => res = ([], [], some errNoBackend)) (.get ?_)
        fun res => .fix fun w₁ h₁ => ?_
      · rintro w rfl
        exact .ite (fun _ => .pure fun _ _ => rfl) fun hne => (hne havail).elim
      · subst h₁
        exact .bind (Q := fun errh _ => errh = some errNoBackend) (fun _ _ => rfl) fun errh =>
          .pure fun s herr => by subst herr; exact .not_sent (.inr hno)
    refine .bind (replicatorReadAtLog_spec hw off len hrw) fun res => .fix ?_
    rintro w₁ ⟨fails, hby⟩
    have herr := hby.err
    by_cases hnil : fails = []
    · rw [if_pos hnil] at herr
      rw [herr]
      refine .pure ?_
      rintro s rfl
      change ReadServed off len w res.1 (res.2.1, none) s
      refine hby.served hw (fun _ => rfl) (iff_of_true rfl ?_) (by simp [hnil])
      by_contra hno
      obtain ⟨a, ha⟩ := exists_readerName hw hrw
      obtain ⟨e, he⟩ := hby.all_failed hno ha
      simp [hnil] at he
    · rw [if_neg hnil] at herr
      rw [herr]
      have hmir : Mirrored w₁.c := hby.c ▸ hw.nextTurn
      refine .bind (handleIOError_dropped hmir _) fun errh => .pure ?_
      rintro s ⟨w₂, h₂, h₃⟩
      change ReadServed off len w res.1 (res.2.1, errh) s
      refine hby.served hw (fun h => (hnil h).elim) ?_ fun r hr => ((h₃.replicas r).1 hr).2
      have hfails : failedReplicas (some (.backend fails)) = fails.map Prod.fst := rfl
      have hreplicas : w₁.c.replicas = w.c.replicas := by rw [hby.c]; rfl
      rw [h₂.dropped (by simpa [hfails] using hnil)]
      constructor
      · rintro ⟨a, ha⟩
        obtain ⟨hmem, hnot⟩ := h₂.live a .rw ha (by decide)
        by_contra hno
        obtain ⟨e, he⟩ := hby.all_failed hno ((mem_readerNames hw).2 (hreplicas ▸ hmem))
        exact hnot (List.mem_map_of_mem he)
      · rintro ⟨a, bytes, hmem⟩
        obtain ⟨ha, hnot⟩ := hby.last hw hmem
        exact ⟨a, h₂.kept a .rw (hreplicas ▸ ha) hnot⟩

/-- The first of two readers fails, and the second serves the read. -/
theorem readAt_served_secondReader : ∃ s,
    run System.step (System.new "vol" 2 fun _ => .blank) (System.calmly rebuildOne) =
      some s ∧
    let w := s.world.onTape (refuseAt 0)
    let res := (Controller.readAtLog 0 1).run w
    res.1.1.length = 2 ∧ res.1.2 = ([0], none) ∧ (Controller.readAt 0 1).run w = (res.1.2, res.2) ∧
      ReadServed 0 1 w res.1.1 res.1.2 res.2 :=
  exists_of_any (p := fun s =>
      let res := (Controller.readAtLog 0 1).run (s.world.onTape (refuseAt 0))
      res.1.1.length = 2 ∧ res.1.2 = ([0], none)) (by decide +kernel) fun s hs h =>
    ⟨h.1, h.2, readAt_served _ _ _ _ s hs 0 1 (refuseAt 0)⟩

end Jiva
