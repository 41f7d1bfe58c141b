import Mathlib.Data.List.Dedup
import Jiva.ReplicaTable

/-!
# Requests to several replicas

A request that is sent to several replicas takes one moment of the tape for each. `sent` is the
world after it. `Fanned` is what the callers of the replicator rely on : a replica that is not named
in the error has applied the request.

The error handler then sets the replicas that are named to mode `ERR` (`Demoted`), so that those
which are left have all applied the request.
-/

namespace Jiva

open Hoare Controller Relation

variable {w w' : World} {as : List Address} {a : Address}

/-- A call without an error was applied. -/
theorem Reply.applied_of_err {r : Reply} (h : r.err = none) : r.applied = true := by
  cases r with
  | ok => rfl
  | lost e => simp [Reply.err] at h
  | refused e => simp [Reply.err] at h

/-! ## The loop -/

/-- The world after the request `f` was sent to the replicas `as`. -/
def sent (f : Node → Node) : List Address → World → World
  | [], w => w
  | a :: as, w => sent f as
      (if (w.tape 0).reply.applied then w.advance.setNode a f else w.advance)

theorem each_request {α : Type} (f : Node → Node) (g : α → Address) : ∀ (xs : List α) (w : World),
    (each (fun x => request (g x) f) xs).run w =
      ((List.range xs.length).map fun i => (w.tape i).reply.err, sent f (xs.map g) w)
  | [], w => rfl
  | x :: xs, w => by
    have hrun : (request (g x) f).run w = ((w.tape 0).reply.err,
        if (w.tape 0).reply.applied then w.advance.setNode (g x) f else w.advance) :=
      rfl
    rw [each, run_bind hrun, run_bind (each_request f g xs _), List.length_cons,
      List.range_succ_eq_map, List.map_cons, List.map_map, List.map_cons, sent]
    split <;> rfl

section

variable (f : Node → Node)

@[simp] theorem sent_c : ∀ (as : List Address) (w : World), (sent f as w).c = w.c
  | [], _ => rfl
  | a :: as, w => by
    rw [sent, sent_c as]
    split <;> rfl

theorem sent_tape :
    ∀ (as : List Address) (w : World) (n : ℕ), (sent f as w).tape n = w.tape (n + as.length)
  | [], _, _ => rfl
  | a :: as, w, n => by
    rw [sent, sent_tape as, List.length_cons, ← Nat.add_assoc]
    split <;> rfl

/-- Only the replicas that a request is sent to can change. -/
theorem sent_nodes_of_not_mem : ∀ {as : List Address} (w : World), a ∉ as →
    (sent f as w).nodes a = w.nodes a
  | [], _, _ => rfl
  | b :: as, w, h => by
    rw [List.mem_cons, not_or] at h
    rw [sent, sent_nodes_of_not_mem _ h.2]
    split
    · exact Function.update_of_ne h.1 _ _
    · rfl

/-- Each replica changes if its request was applied. -/
theorem sent_nodes : ∀ {as : List Address} (w : World) {i : ℕ}, as.Nodup →
    as[i]? = some a →
    (sent f as w).nodes a = if (w.tape i).reply.applied then f (w.nodes a) else w.nodes a
  | [], _, _, _, hi => by simp at hi
  | b :: as, w, 0, hnd, hi => by
    obtain rfl : b = a := by simpa using hi
    rw [sent, sent_nodes_of_not_mem _ _ (List.nodup_cons.1 hnd).1]
    split
    · exact Function.update_self ..
    · rfl
  | b :: as, w, i + 1, hnd, hi => by
    rw [List.nodup_cons] at hnd
    have hi' : as[i]? = some a := by simpa using hi
    have hne : a ≠ b := fun h => hnd.1 (h ▸ List.mem_of_getElem? hi')
    rw [sent, sent_nodes _ hnd.2 hi']
    split
    · simp [World.setNode, World.advance, Function.update_of_ne hne]
    · rfl

end

/-! ## Calls to one replica -/

/-- What a request leaves of a replica. -/
def Reply.leaves (r : Reply) (f : Node → Node) (n : Node) : Node :=
  if r.applied then f n else n

/-- The world after a request to the replica at `a`. -/
def World.requested (a : Address) (f : Node → Node) (w : World) : World :=
  if (w.tape 0).reply.applied then w.advance.setNode a f else w.advance

theorem requested_c (a : Address) (f : Node → Node) (w : World) : (w.requested a f).c = w.c := by
  unfold World.requested
  split_ifs <;> rfl

theorem requested_tape (a : Address) (f : Node → Node) (w : World) (n : ℕ) :
    (w.requested a f).tape n = w.tape (n + 1) := by
  unfold World.requested
  split_ifs <;> rfl

theorem requested_node (a : Address) (f : Node → Node) (w : World) :
    (w.requested a f).nodes a = (w.tape 0).reply.leaves f (w.nodes a) := by
  unfold World.requested Reply.leaves
  split_ifs
  · exact Function.update_self ..
  · rfl

section

variable {m : BackendMode} (hw : Mirrored w.c) (ha : ⟨a, m⟩ ∈ w.c.replicas)

include hw ha

theorem lookup_of_mem : w.c.backend.backends.lookup a = some (wrap a m) := by
  rw [hw.mirror, (mem_iff_modeOf hw.nodup_replicas _ _).1 ha]
  rfl

theorem toOne_run (f : Node → Node) :
    (Replicator.toOne a f).run w = ((w.tape 0).reply.err, w.requested a f) := by
  unfold Replicator.toOne
  rw [run_bind (x := get) (s := w) rfl, lookup_of_mem hw ha]
  rfl

theorem getRevisionCounter_run :
    (Replicator.getRevisionCounter a).run w = (match (w.tape 0).reply.err with
        | some e => (0, some e)
        | none => ((w.nodes a).revisionCounter, none), w.advance) := by
  unfold Replicator.getRevisionCounter
  rw [run_bind (x := get) (s := w) rfl, lookup_of_mem hw ha]
  dsimp only [wrap]
  rw [run_bind (query_run a _ w)]
  cases (w.tape 0).reply.err with
  | some e => rfl
  | none => rfl

end

/-! ## Requests to all backends -/

/-- The replicas that an error names. -/
def Err.addresses : Err → List Address
  | .msg _ => []
  | .backend errors => errors.map Prod.fst

/-- The replicas that a result names. -/
def failedReplicas (err : Option Err) : List Address :=
  (err.map Err.addresses).getD []

/-- The backends that get requests are the data replicas that are not in mode `ERR`. -/
theorem mem_addresses_live {c : Controller} (h : Mirrored c) {order : List Address}
    (horder : order.Perm c.backend.backends.keys) (a : Address) :
    a ∈ c.backend.addresses BackendMode.live order ↔ ∃ m, m ≠ .err ∧ ⟨a, m⟩ ∈ c.replicas := by
  rw [Replicator.mem_addresses horder]
  constructor
  · rintro ⟨b, hb, hlive⟩
    refine ⟨b.mode, fun he => ?_, (h.reflects.entries a b.mode).2 ⟨b, hb, rfl⟩⟩
    simp [he, BackendMode.live] at hlive
  · rintro ⟨m, hm, hmem⟩
    obtain ⟨b, hb, rfl⟩ := (h.reflects.entries a m).1 hmem
    refine ⟨b, hb, ?_⟩
    cases hbm : b.mode <;> simp_all [BackendMode.live]

/-- The error with which the replica at `a` answers a request, the reply being at place `i` of the
tape. -/
def answer (admits : Node → Bool) (w : World) (i : ℕ) (a : Address) : Option String :=
  if admits (w.nodes a) then (w.tape i).reply.err else some ((w.tape i).reply.err.getD "refused")

/-- Whether that replica applies the request. -/
def takes (admits : Node → Bool) (w : World) (i : ℕ) (a : Address) : Bool :=
  admits (w.nodes a) && (w.tape i).reply.applied

theorem takes_of_answer {admits : Node → Bool} {i : ℕ} (h : answer admits w i a = none) :
    admits (w.nodes a) = true ∧ takes admits w i a = true := by
  unfold answer at h
  split_ifs at h with hadmits
  exact ⟨hadmits, by rw [takes, hadmits, Reply.applied_of_err h, Bool.and_self]⟩

/-- The request `f` was sent to the replicas `as`, with the replies `es`. -/
structure Requested (admits : Node → Bool) (f : Node → Node) (as : List Address)
    (es : List (Option String)) (w w' : World) : Prop where
  c : w'.c = w.c
  signals : w'.signals = w.signals
  tape : ∀ n, w'.tape n = w.tape (n + as.length)
  length : es.length = as.length
  other : ∀ a, a ∉ as → w'.nodes a = w.nodes a
  answered : ∀ (i : ℕ) a, as[i]? = some a → es[i]? = some (answer admits w i a)
  taken : ∀ (i : ℕ) a, as[i]? = some a →
    w'.nodes a = if takes admits w i a then f (w.nodes a) else w.nodes a

theorem requestIf_spec (admits : Node → Bool) (f : Node → Node) (a : Address) (w : World) :
    Triple (fun s => s = w) (requestIf a admits f) fun err => Requested admits f [a] [err] w := by
  have hrun : (requestIf a admits f).run w = (answer admits w 0 a,
      if takes admits w 0 a then w.advance.setNode a f else w.advance) := by
    show (if admits (w.nodes a) then _ else _ : Ctl (Option String)).run w.advance = _
    unfold answer takes
    split
    · rename_i hadmits
      rw [hadmits, Bool.true_and]
      rfl
    · rename_i hadmits
      rw [Bool.not_eq_true] at hadmits
      rw [hadmits]
      rfl
  rintro s rfl
  rw [hrun]
  have hnode : ∀ x, (if takes admits s 0 a then s.advance.setNode a f else s.advance).nodes x =
      if x = a ∧ takes admits s 0 a = true then f (s.nodes a) else s.nodes x := fun x => by
    split_ifs with htakes hx hx
    · exact (Function.update_apply ..).trans (if_pos hx.1)
    · exact (Function.update_apply ..).trans (if_neg fun h => hx ⟨h, htakes⟩)
    · exact (htakes hx.2).elim
    · rfl
  have hplace : ∀ (i : ℕ) x, [a][i]? = some x → i = 0 ∧ x = a := fun i x hi => by
    obtain rfl := List.mem_singleton.1 (List.mem_of_getElem? hi)
    exact ⟨by simpa using (List.getElem?_eq_some_iff.1 hi).1, rfl⟩
  refine ⟨?_, ?_, fun n => ?_, rfl, fun x hx => ?_, fun i x hi => ?_, fun i x hi => ?_⟩
  · split <;> rfl
  · split <;> rfl
  · split <;> rfl
  · exact (hnode x).trans (if_neg fun h : x = a ∧ _ => hx (h.1 ▸ List.mem_singleton_self x))
  · obtain ⟨rfl, rfl⟩ := hplace i x hi
    rfl
  · obtain ⟨rfl, rfl⟩ := hplace i x hi
    rw [hnode]
    simp only [true_and]

theorem Requested.cons {admits : Node → Bool} {f : Node → Node} {err : Option String}
    {es : List (Option String)} {w₁ w₂ : World} (h : Requested admits f [a] [err] w w₁)
    (h' : Requested admits f as es w₁ w₂) (ha : a ∉ as) :
    Requested admits f (a :: as) (err :: es) w w₂ := by
  have hfirst : ∀ x, x ≠ a → w₁.nodes x = w.nodes x := fun x hx => h.other x (by simpa using hx)
  have htape : ∀ i, w₁.tape i = w.tape (i + 1) := h.tape
  have hrest : ∀ i x, as[i]? = some x →
      answer admits w₁ i x = answer admits w (i + 1) x ∧
      takes admits w₁ i x = takes admits w (i + 1) x ∧ w₁.nodes x = w.nodes x := fun i x hi => by
    have hx := hfirst x fun heq => ha (heq ▸ List.mem_of_getElem? hi)
    exact ⟨by rw [answer, answer, htape, hx], by rw [takes, takes, htape, hx], hx⟩
  refine ⟨h'.c.trans h.c, h'.signals.trans h.signals, fun n => ?_, by simp [h'.length],
    fun x hx => ?_, fun i x hi => ?_, fun i x hi => ?_⟩
  · rw [h'.tape, htape, List.length_cons, Nat.add_assoc]
  · rw [List.mem_cons, not_or] at hx
    exact (h'.other x hx.2).trans (hfirst x hx.1)
  · cases i with
    | zero =>
      obtain rfl : a = x := by simpa using hi
      exact h.answered 0 a rfl
    | succ i =>
      have hi' : as[i]? = some x := by simpa using hi
      rw [List.getElem?_cons_succ, h'.answered i x hi', (hrest i x hi').1]
  · cases i with
    | zero =>
      obtain rfl : a = x := by simpa using hi
      rw [h'.other a ha]
      exact h.taken 0 a rfl
    | succ i =>
      have hi' : as[i]? = some x := by simpa using hi
      rw [h'.taken i x hi', (hrest i x hi').2.1, (hrest i x hi').2.2]

theorem Requested.node {admits : Node → Bool} {f : Node → Node} {es : List (Option String)}
    (h : Requested admits f as es w w') (a : Address) :
    w'.nodes a = w.nodes a ∨ w'.nodes a = f (w.nodes a) := by
  by_cases ha : a ∈ as
  · obtain ⟨i, hi⟩ := List.mem_iff_getElem?.1 ha
    rw [h.taken i a hi]
    split
    · exact .inr rfl
    · exact .inl rfl
  · exact .inl (h.other a ha)

theorem each_requestIf (admits : Node → Bool) (f : Node → Node) :
    ∀ (as : List Address) (w : World), as.Nodup →
      Triple (fun s => s = w) (each (fun a => requestIf a admits f) as)
        fun es => Requested admits f as es w
  | [], w, _ => by
    rintro s rfl
    exact ⟨rfl, rfl, fun _ => rfl, rfl, fun _ _ => rfl, fun i a hi => by simp at hi,
      fun i a hi => by simp at hi⟩
  | a :: as, w, hnodup => by
    rw [List.nodup_cons] at hnodup
    refine .bind (requestIf_spec admits f a w) fun err => .fix fun w₁ h₁ => ?_
    refine .bind (each_requestIf admits f as w₁ hnodup.2) fun es => .pure ?_
    exact fun w₂ h₂ => h₁.cons h₂ hnodup.1

/-- The backends that get a request of the replicator, in the order in which the loop visits
them. -/
def asked (w : World) : List Address :=
  w.c.backend.addresses BackendMode.live ((w.tape 0).order w.c.backend.backends.keys)

/-- The backends that answer with an error. The moments of the requests come after that of the
loop. -/
def refusers (admits : Node → Bool) (w : World) : List Address :=
  (asked w).filter fun a => (answer admits w ((asked w).idxOf a + 1) a).isSome

theorem nodup_asked (w : World) : (asked w).Nodup :=
  (((w.tape 0).order_perm _).nodup_iff.2 w.c.backend.backends.nodupKeys).filter _

theorem mem_asked (hw : Mirrored w.c) : a ∈ asked w ↔ ∃ m, m ≠ .err ∧ ⟨a, m⟩ ∈ w.c.replicas :=
  mem_addresses_live hw ((w.tape 0).order_perm _) a

theorem idxOf_asked {i : ℕ} (hi : (asked w)[i]? = some a) : (asked w).idxOf a = i := by
  obtain ⟨hlt, rfl⟩ := List.getElem?_eq_some_iff.1 hi
  exact (nodup_asked w).idxOf_getElem i hlt

theorem mem_refusers {admits : Node → Bool} {i : ℕ} (hi : (asked w)[i]? = some a) :
    a ∈ refusers admits w ↔ answer admits w (i + 1) a ≠ none := by
  rw [refusers, List.mem_filter, idxOf_asked hi, Option.isSome_iff_ne_none]
  exact and_iff_right (List.mem_of_getElem? hi)

theorem errorsOf_sublist : ∀ (as : List Address) (es : List (Option String)),
    ((errorsOf as es).map Prod.fst).Sublist as
  | [], _ => by simp [errorsOf]
  | _ :: _, [] => by simp [errorsOf]
  | a :: as, none :: es => (errorsOf_sublist as es).cons a
  | a :: as, some _ :: es => (errorsOf_sublist as es).cons_cons a

/-- The request `f` was sent to every data replica that is not in mode `ERR`, with the result
`err`. -/
structure Fanned (admits : Node → Bool) (f : Node → Node) (err : Option Err) (w w' : World) :
    Prop where
  c : w'.c = w.c
  signals : w'.signals = w.signals
  tape : ∀ n, w'.tape n = w.tape (n + (asked w).length + 1)
  failed : (failedReplicas err).Perm (refusers admits w)
  ok : refusers admits w = [] → err = none
  other : ∀ a, a ∉ asked w → w'.nodes a = w.nodes a
  taken : ∀ (i : ℕ) a, (asked w)[i]? = some a →
    w'.nodes a = if takes admits w (i + 1) a then f (w.nodes a) else w.nodes a

theorem fanOut_spec (admits : Node → Bool) (f : Node → Node) (w : World) :
    Triple (fun s => s = w) (Replicator.fanOut admits f) fun err => Fanned admits f err w := by
  refine .get fun s hs => ?_
  subst hs
  refine .bind (Q := fun order t => order = (s.tape 0).order s.c.backend.backends.keys ∧
    t = s.advance) ?_ fun order => .fix ?_
  · rintro t rfl
    exact ⟨rfl, rfl⟩
  rintro w₁ ⟨rfl, rfl⟩
  refine .bind (each_requestIf admits f (asked s) s.advance (nodup_asked s)) fun es =>
    .fix ?_
  intro w₂ h₂
  have hfailed : ((errorsOf (asked s) es).map Prod.fst).Perm (refusers admits s) := by
    refine (List.perm_ext_iff_of_nodup ((errorsOf_sublist _ _).nodup (nodup_asked s))
      ((nodup_asked s).filter _)).2 fun a => ?_
    constructor
    · intro ha
      obtain ⟨⟨_, e⟩, he, rfl⟩ := List.mem_map.1 ha
      obtain ⟨i, hi, hes⟩ := mem_errorsOf.1 he
      rw [h₂.answered i _ hi, Option.some.injEq] at hes
      exact (mem_refusers hi).2 (ne_of_eq_of_ne hes nofun)
    · intro ha
      obtain ⟨i, hi⟩ := List.mem_iff_getElem?.1 (List.mem_of_mem_filter ha)
      obtain ⟨e, he⟩ := Option.ne_none_iff_exists'.1 ((mem_refusers hi).1 ha)
      refine List.mem_map.2 ⟨(a, e), mem_errorsOf.2 ⟨i, hi, ?_⟩, rfl⟩
      rw [h₂.answered i a hi]
      exact congrArg some he
  have htape : ∀ n, w₂.tape n = s.tape (n + (asked s).length + 1) := h₂.tape
  refine .ite (fun hnone => .pure ?_) fun hsome => .pure ?_
  · rintro _ rfl
    refine ⟨h₂.c, h₂.signals, htape, ?_, fun _ => rfl, h₂.other, h₂.taken⟩
    have hnil : errorsOf (asked s) es = [] := hnone
    rwa [hnil] at hfailed
  · rintro _ rfl
    refine ⟨h₂.c, h₂.signals, htape, hfailed, fun hnil => (hsome ?_).elim, h₂.other, h₂.taken⟩
    rw [hnil] at hfailed
    exact List.map_eq_nil_iff.1 hfailed.eq_nil

namespace Fanned

variable {admits : Node → Bool} {f : Node → Node} {err : Option Err}

/-- A replica that is not named in the error has applied the request. -/
theorem applied (hw : Mirrored w.c) (h : Fanned admits f err w w') (a : Address) (m : BackendMode)
    (ha : ⟨a, m⟩ ∈ w.c.replicas) (hm : m ≠ .err) (hfree : a ∉ failedReplicas err) :
    admits (w.nodes a) = true ∧ w'.nodes a = f (w.nodes a) := by
  obtain ⟨i, hi⟩ := List.mem_iff_getElem?.1 ((mem_asked hw).2 ⟨m, hm, ha⟩)
  rw [h.failed.mem_iff, mem_refusers hi, not_not] at hfree
  obtain ⟨hadmits, htakes⟩ := takes_of_answer hfree
  exact ⟨hadmits, by rw [h.taken i a hi, if_pos htakes]⟩

end Fanned

/-! ## The error handler -/

/-- The replicas `as` were set to mode `ERR`. -/
structure Demoted (as : List Address) (w w' : World) : Prop where
  mirrored : Mirrored w'.c
  side : Aside w w'
  live : ∀ a m, ⟨a, m⟩ ∈ w'.c.replicas → m ≠ .err → ⟨a, m⟩ ∈ w.c.replicas ∧ a ∉ as
  kept : ∀ a m, ⟨a, m⟩ ∈ w.c.replicas → a ∉ as → ⟨a, m⟩ ∈ w'.c.replicas
  size : w'.c.size = w.c.size ∧ w'.c.sectorSize = w.c.sectorSize
  frontendUp : w'.c.frontendUp = w.c.frontendUp

theorem Demoted.nil (hw : Mirrored w'.c) (hside : Aside w w') (hc : w'.c = w.c) :
    Demoted [] w w' :=
  ⟨hw, hside, fun _ _ h _ => ⟨hc ▸ h, List.not_mem_nil⟩, fun _ _ h _ => hc ▸ h, by simp [hc],
    by rw [hc]⟩

theorem Demoted.setErr (h : Demoted as w w') (a : Address) :
    Demoted (a :: as) w ((setReplicaModeNoLock a .err).run w').2 := by
  have he := setReplicaModeNoLock_edited h.mirrored a (m := .err) (by decide)
  obtain ⟨-, -, r, hr⟩ := setReplicaModeNoLock_spec w' h.mirrored a (m := .err) (by decide) w' rfl
  refine ⟨he.mirrored, ⟨he.side.1.trans h.side.1, he.side.2.trans h.side.2⟩, fun x m hx hm => ?_,
    fun x m hx has => ?_, ⟨he.size.1.trans h.size.1, he.size.2.trans h.size.2⟩, ?_⟩
  · rw [he.replicas] at hx
    rcases mem_setEntries hx with ⟨hr, hxa⟩ | ⟨hxm, -⟩
    · obtain ⟨hmem, has⟩ := h.live x m hr hm
      exact ⟨hmem, List.mem_cons.not.2 (not_or.2 ⟨fun h => hm (hxa h), has⟩)⟩
    · exact (hm (ReplicaEntry.mk.inj hxm).2).elim
  · rw [List.mem_cons, not_or] at has
    rw [he.replicas]
    exact mem_setEntries_of_ne (h.kept x m hx has.2) has.1
  · rw [hr]
    exact h.frontendUp

theorem forM_setErr (w : World) : ∀ (as done : List Address),
    Triple (Demoted done w) (List.forM as fun a => setReplicaModeNoLock a .err)
      fun _ => Demoted (as.reverse ++ done) w
  | [], done => .pure fun _ => id
  | a :: as, done => by
    refine .bind (Q := fun _ => Demoted (a :: done) w) (fun s hs => hs.setErr a) fun _ => ?_
    refine (forM_setErr w as (a :: done)).post fun _ s hs => ?_
    simpa using hs

theorem Demoted.congr {bs : List Address} (h : Demoted as w w')
    (hiff : ∀ a, a ∈ bs ↔ a ∈ as) : Demoted bs w w' :=
  ⟨h.mirrored, h.side, fun a m ha hm => (h.live a m ha hm).imp_right (hiff a).not.2,
    fun a m ha has => h.kept a m ha ((hiff a).not.1 has), h.size, h.frontendUp⟩

/-- What `handleErrorNoLock` does : the replicas that the error names are set to mode `ERR`, and the
error is dropped if a replica in mode `RW` is left. -/
structure Handled (err err' : Option Err) (w w' : World) : Prop
    extends Demoted (failedReplicas err) w w' where
  dropped : failedReplicas err ≠ [] → (err' = none ↔ ∃ a, ⟨a, .rw⟩ ∈ w'.c.replicas)
  passed : failedReplicas err = [] → err' = err

theorem any_rw {rs : List ReplicaEntry} : rs.any (·.mode = .rw) = true ↔ ∃ a, ⟨a, .rw⟩ ∈ rs := by
  simp only [List.any_eq_true, decide_eq_true_eq]
  constructor
  · rintro ⟨⟨a, m⟩, hr, rfl⟩
    exact ⟨a, hr⟩
  · rintro ⟨a, ha⟩
    exact ⟨⟨a, .rw⟩, ha, rfl⟩

theorem handleErrorNoLock_spec (hw : Mirrored w.c) (err : Option Err) :
    Triple (fun s => s = w) (handleErrorNoLock err) fun err' => Handled err err' w := by
  unfold handleErrorNoLock
  split
  case h_1 e errors =>
    refine .bind (Q := fun order s =>
      order.Perm ((e :: errors).map Prod.fst).dedup ∧ Demoted [] w s) ?_ fun order =>
        .fix fun w₁ h₁ => ?_
    · rintro s rfl
      exact ⟨(s.tape 0).order_perm _, .nil hw ⟨rfl, rfl⟩ rfl⟩
    refine .bind (Q := fun _ => Demoted (failedReplicas (some (.backend (e :: errors)))) w) ?_
      fun _ => .get fun s hs => .ite (fun hany => ?_) fun hany => ?_
    · refine (forM_setErr w order []).consequence ?_ fun _ s hs => hs.congr fun a => ?_
      · rintro s rfl
        exact h₁.2
      · rw [List.append_nil, List.mem_reverse, h₁.1.mem_iff, List.mem_dedup]
        rfl
    · refine .pure ?_
      rintro s rfl
      exact ⟨hs, fun _ => iff_of_true rfl (any_rw.1 hany), fun h => nomatch h⟩
    · refine .pure ?_
      rintro s rfl
      exact ⟨hs, fun _ => iff_of_false nofun fun hrw => hany (any_rw.2 hrw), fun h => nomatch h⟩
  case h_2 hnot =>
    have hnil : failedReplicas err = [] := by
      cases err with
      | none => rfl
      | some e =>
        cases e with
        | msg text => rfl
        | backend errors =>
          cases errors with
          | nil => rfl
          | cons e errors => exact (hnot e errors rfl).elim
    refine .pure ?_
    rintro s rfl
    exact ⟨hnil ▸ .nil hw ⟨rfl, rfl⟩ rfl, fun h => (h hnil).elim, fun _ => rfl⟩

/-! ## Moments -/

theorem setMode_tape {b : BackendWrapper} (h : w.c.backend.backends.lookup a = some b)
    (m : BackendMode) (n : ℕ) : ((setMode a m).run w).2.tape n = w.tape (n + 2) := by
  unfold setMode
  rw [run_bind (x := get) (s := w) rfl, h]
  rfl

/-- The tables are built once for a replica whose mode is set. -/
theorem setReplicaModeNoLock_tape {m : BackendMode} (hw : Mirrored w.c) (ha : ⟨a, m⟩ ∈ w.c.replicas)
    (hm : m ≠ .err) (m' : BackendMode) (n : ℕ) :
    ((setReplicaModeNoLock a m').run w).2.tape n = w.tape (n + 2) := by
  have hmode := (mem_iff_modeOf hw.nodup_replicas a m).1 ha
  have hdata : settable a w.c.replicas = [⟨a, m⟩] := by
    rw [settable_eq hw.nodup_replicas, hmode]
    simp [Option.filter, hm]
  have hquorum : settable a w.c.quorumReplicas = [] := by
    refine List.filter_eq_nil_iff.2 fun e he hdec => ?_
    obtain rfl : e.address = a := (of_decide_eq_true hdec).1
    rw [hw.modeOf_none_of_quorum (List.mem_map_of_mem he)] at hmode
    cases hmode
  have hlookup : w.c.backend.backends.lookup a = some (wrap a m) := by
    rw [hw.mirror a, hmode]
    rfl
  show ((do
      modify fun w => w.setC fun c => { c with replicas := setEntries a m' c.replicas }
      List.forM (settable a w.c.replicas) fun _ => setMode a m'
      modify fun w => w.setC fun c => { c with quorumReplicas := setEntries a m' c.quorumReplicas }
      List.forM (settable a w.c.quorumReplicas) fun _ => setMode a m'
      modify _ : Ctl Unit).run w).2.tape n = _
  rw [hdata, hquorum]
  exact setMode_tape (w := w.setC _) hlookup m' n

theorem forM_setErr_tape : ∀ {as : List Address} {w : World}, Mirrored w.c → as.Nodup →
    (∀ a ∈ as, ∃ m, m ≠ .err ∧ ⟨a, m⟩ ∈ w.c.replicas) → ∀ n,
      ((List.forM as fun a => setReplicaModeNoLock a .err).run w).2.tape n =
        w.tape (n + 2 * as.length)
  | [], _, _, _, _, _ => rfl
  | a :: as, w, hw, hnodup, hlive, n => by
    rw [List.nodup_cons] at hnodup
    obtain ⟨m, hm, ha⟩ := hlive a List.mem_cons_self
    have he := setReplicaModeNoLock_edited hw a (m := .err) (by decide)
    have hrest : ∀ x ∈ as, ∃ m, m ≠ .err ∧
        ⟨x, m⟩ ∈ ((setReplicaModeNoLock a .err).run w).2.c.replicas := fun x hx => by
      obtain ⟨m, hm, hmem⟩ := hlive x (List.mem_cons_of_mem a hx)
      rw [he.replicas]
      exact ⟨m, hm, mem_setEntries_of_ne hmem fun h => hnodup.1 (h ▸ hx)⟩
    refine (forM_setErr_tape he.mirrored hnodup.2 hrest n).trans ?_
    rw [setReplicaModeNoLock_tape hw ha hm, List.length_cons, Nat.mul_succ, Nat.add_assoc]

/-- The handler takes a moment for its loop, and two for each replica that it sets to mode `ERR`. -/
theorem handleErrorNoLock_tape (hw : Mirrored w.c) {err : Option Err}
    (hnodup : (failedReplicas err).Nodup)
    (hlive : ∀ a ∈ failedReplicas err, ∃ m, m ≠ .err ∧ ⟨a, m⟩ ∈ w.c.replicas) (n : ℕ) :
    ((handleErrorNoLock err).run w).2.tape n =
      w.tape (n + if failedReplicas err = [] then 0 else 2 * (failedReplicas err).length + 1) := by
  match err with
  | none => rfl
  | some (.msg _) => rfl
  | some (.backend []) => rfl
  | some (.backend (e :: errors)) =>
    have hdedup : ((e :: errors).map Prod.fst).dedup = (e :: errors).map Prod.fst := hnodup.dedup
    have hperm := (w.tape 0).order_perm ((e :: errors).map Prod.fst)
    have hloop := forM_setErr_tape (w := w.advance) hw (hperm.nodup_iff.2 hnodup)
      (fun a ha => hlive a (hperm.mem_iff.1 ha)) n
    have hrun : ((handleErrorNoLock (some (.backend (e :: errors)))).run w).2 =
        ((List.forM ((w.tape 0).order ((e :: errors).map Prod.fst)) fun a =>
          setReplicaModeNoLock a .err).run w.advance).2 := by
      rw [← hdedup]
      show ((if _ then pure none else pure _ : Ctl (Option Err)).run _).2 = _
      split <;> rfl
    rw [hrun, hloop, hperm.length_eq]
    rfl

end Jiva
