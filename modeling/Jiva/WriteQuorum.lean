import Jiva.Requests

/-!
# How many replicas an acknowledged write has reached

A write goes to every replica that is not in mode `ERR`, and is acknowledged if more than half of
these have answered and a replica in mode `RW` is left. The replicas in mode `WO` count among them,
and `ReadOnly` is looked at only as it was at the last update of the status.

`acknowledged_iff` says exactly when a majority of the replication factor is reached in spite of all
failures : the replicas in mode `RW`, less those that may fail without the write failing, have to be
enough. `oneOfThree_acknowledged` is a write that reaches one of three replicas.
-/

namespace Jiva

open Hoare Controller Relation

variable {w : World} {a : Address} {wr : Write} {m n : ℕ}

/-! ## Counting -/

/-- A predicate that implies one of two others is met no more often than both together. -/
theorem countP_le_add {α : Type} {p q r : α → Bool} : ∀ {l : List α},
    (∀ x ∈ l, p x = true → q x = true ∨ r x = true) → l.countP p ≤ l.countP q + l.countP r
  | [], _ => by simp
  | x :: l, h => by
    have ih := countP_le_add (l := l) fun y hy => h y (List.mem_cons_of_mem _ hy)
    have hx := h x List.mem_cons_self
    simp only [List.countP_cons]
    cases hp : p x <;> cases hq : q x <;> cases hr : r x <;> simp_all <;> omega

/-- Two predicates that exclude each other are met no more often than one that both imply. -/
theorem countP_add_le {α : Type} {p q r : α → Bool} : ∀ {l : List α},
    (∀ x ∈ l, (q x = true → p x = true) ∧ (r x = true → p x = true) ∧
      ¬(q x = true ∧ r x = true)) → l.countP q + l.countP r ≤ l.countP p
  | [], _ => by simp
  | x :: l, h => by
    have ih := countP_add_le (l := l) fun y hy => h y (List.mem_cons_of_mem _ hy)
    have hx := h x List.mem_cons_self
    simp only [List.countP_cons]
    cases hp : p x <;> cases hq : q x <;> cases hr : r x <;> simp_all <;> omega

/-- The number of entries with an address in `as`. -/
theorem countP_mem_le {rs : List ReplicaEntry} (h : (rs.map ReplicaEntry.address).Nodup)
    (p : ReplicaEntry → Bool) (as : List Address) :
    rs.countP (fun r => p r && decide (r.address ∈ as)) ≤ as.length := by
  rw [List.countP_eq_length_filter, ← List.length_map (f := ReplicaEntry.address)]
  refine (List.subperm_of_subset ((List.filter_sublist.map _).nodup h) fun a ha => ?_).length_le
  obtain ⟨r, hr, rfl⟩ := List.mem_map.1 ha
  have hmem := (List.mem_filter.1 hr).2
  rw [Bool.and_eq_true, decide_eq_true_eq] at hmem
  exact hmem.2

theorem length_le_countP_mem {rs : List ReplicaEntry} (p : ReplicaEntry → Bool) {as : List Address}
    (hnd : as.Nodup) (h : ∀ a ∈ as, ∃ r ∈ rs, p r = true ∧ r.address = a) :
    as.length ≤ rs.countP fun r => p r && decide (r.address ∈ as) := by
  rw [List.countP_eq_length_filter, ← List.length_map (f := ReplicaEntry.address)]
  refine (List.subperm_of_subset hnd fun a ha => ?_).length_le
  obtain ⟨r, hr, hp, rfl⟩ := h a ha
  exact List.mem_map_of_mem (List.mem_filter.2 ⟨hr, by simp [hp, ha]⟩)

/-! ## Replies -/

/-- The replies to the replicas with the numbers from `0` to `n - 1`. -/
def replies (w : World) (n : ℕ) : List (Option String) :=
  (List.range n).map fun i => (w.tape i).reply.err

/-- Those of `as` whose requests have an error. -/
def failing (as : List Address) (w : World) : List Address :=
  (errorsOf as (replies w as.length)).map Prod.fst

theorem length_errorsOf : ∀ (as : List Address) (es : List (Option String)),
    as.length = es.length → (errorsOf as es).length = errCount es
  | [], [], _ => rfl
  | a :: as, e :: es, h => by
    have ih := length_errorsOf as es (by simpa using h)
    cases e with
    | none => simpa [errorsOf, errCount] using ih
    | some e => simpa [errorsOf, errCount] using ih

theorem length_failing (as : List Address) (w : World) :
    (failing as w).length = errCount (replies w as.length) := by
  rw [failing, List.length_map, length_errorsOf as _ (by simp [replies])]

theorem mem_failing {as : List Address} :
    a ∈ failing as w ↔ ∃ i : ℕ, as[i]? = some a ∧ (w.tape i).reply.err ≠ none := by
  rw [failing, List.mem_map]
  constructor
  · rintro ⟨⟨a, e⟩, hmem, rfl⟩
    obtain ⟨i, hi, he⟩ := mem_errorsOf.1 hmem
    have hlt := (List.getElem?_eq_some_iff.1 hi).1
    have hrep : (w.tape i).reply.err = some e := by simpa [replies, hlt] using he
    exact ⟨i, hi, by simp [hrep]⟩
  · rintro ⟨i, hi, he⟩
    obtain ⟨e, he⟩ := Option.ne_none_iff_exists'.1 he
    have hlt := (List.getElem?_eq_some_iff.1 hi).1
    exact ⟨(a, e), mem_errorsOf.2 ⟨i, hi, by simp [replies, hlt, he]⟩, rfl⟩

/-! ## What a replica has got -/

/-- The write `wr` is among those that a replica has got since it was `n`. -/
def Node.Got (wr : Write) (n n' : Node) : Prop :=
  wr ∈ n'.writes.drop n.writes.length

instance (wr : Write) (n n' : Node) : Decidable (Node.Got wr n n') :=
  inferInstanceAs (Decidable (_ ∈ _))

/-- Writes that are sent to some replicas only add to what they have got. -/
theorem writes_sent (v : Write) (a : Address) : ∀ (as : List Address) (w : World),
    ∃ k, ((sent (Node.writeAt v) as w).nodes a).writes = (w.nodes a).writes ++ List.replicate k v
  | [], w => ⟨0, by simp [sent]⟩
  | b :: as, w => by
    obtain ⟨k, hk⟩ := writes_sent v a as
      (if (w.tape 0).reply.applied then w.advance.setNode b (Node.writeAt v) else w.advance)
    rw [sent, hk]
    split
    · rcases eq_or_ne a b with rfl | hab
      · exact ⟨k + 1, by simp [World.setNode, World.advance, Node.writeAt, List.replicate_succ]⟩
      · exact ⟨k, by simp [World.setNode, World.advance, Function.update_of_ne hab]⟩
    · exact ⟨k, rfl⟩

/-- Without a request that is applied nothing changes. -/
theorem nodes_sent_refused (f : Node → Node) : ∀ (as : List Address) (w : World),
    (∀ i, (w.tape i).reply.applied = false) → (sent f as w).nodes = w.nodes
  | [], _, _ => rfl
  | a :: as, w, h => by
    rw [sent, if_neg (by simp [h 0])]
    exact nodes_sent_refused f as w.advance fun i => h (i + 1)

section

variable {wr : Write} {as us : List Address} {w : World} {a : Address} {i : ℕ}

/-- A replica that answers without an error has got the write. -/
theorem got_of_reply (hnd : as.Nodup) (hi : as[i]? = some a) (hok : (w.tape i).reply.err = none) :
    Node.Got wr (w.nodes a)
      ((sent (Node.writeAt ⟨0, []⟩) us (sent (Node.writeAt wr) as w)).nodes a) := by
  obtain ⟨k, hk⟩ := writes_sent ⟨0, []⟩ a us (sent (Node.writeAt wr) as w)
  rw [Node.Got, hk, sent_nodes _ _ hnd hi, if_pos (Reply.applied_of_err hok)]
  simp [Node.writeAt]

/-- A replica that refuses it has not, unless an update of the quorum looks the same. -/
theorem not_got_of_refused (hnd : as.Nodup) (hi : as[i]? = some a)
    (href : (w.tape i).reply.applied = false) (hus : wr ≠ ⟨0, []⟩ ∨ ∀ j, as.length ≤ j →
      (w.tape j).reply.applied = false) :
    ¬Node.Got wr (w.nodes a)
      ((sent (Node.writeAt ⟨0, []⟩) us (sent (Node.writeAt wr) as w)).nodes a) := by
  have hfirst : (sent (Node.writeAt wr) as w).nodes a = w.nodes a := by
    rw [sent_nodes _ _ hnd hi, if_neg (by simp [href])]
  rcases hus with hne | hall
  · obtain ⟨k, hk⟩ := writes_sent ⟨0, []⟩ a us (sent (Node.writeAt wr) as w)
    rw [Node.Got, hk, hfirst, List.drop_left]
    exact fun hmem => hne (List.eq_of_mem_replicate hmem)
  · rw [nodes_sent_refused, hfirst]
    · simp [Node.Got]
    · intro j
      rw [sent_tape]
      exact hall _ (Nat.le_add_left _ _)

end

/-! ## The writers -/

/-- The replicas that a write goes to, in the order of the table. -/
def writerNames (c : Controller) : List Address :=
  c.backend.writers.writers.map Remote.name

/-- The quorum replicas that a write goes to. -/
def updaterNames (c : Controller) : List Address :=
  c.backend.writers.updaters.map Remote.name

/-- The number of data replicas that are not in mode `ERR`. -/
def countLive (rs : List ReplicaEntry) : ℕ :=
  rs.countP (·.mode ≠ .err)

section

variable {c : Controller} (h : Mirrored c)

include h

theorem mem_writerNames : a ∈ writerNames c ↔ ∃ m, m ≠ .err ∧ ⟨a, m⟩ ∈ c.replicas := by
  obtain ⟨order, horder, ⟨hws, -⟩, -⟩ := h.built
  rw [writerNames, hws, List.map_map, Function.comp_def, List.map_id']
  exact mem_addresses_live h horder a

theorem nodup_writerNames : (writerNames c).Nodup := by
  obtain ⟨order, horder, ⟨hws, -⟩, -⟩ := h.built
  rw [writerNames, hws, List.map_map, Function.comp_def, List.map_id']
  exact (horder.nodup_iff.2 c.backend.backends.nodupKeys).filter _

theorem length_writerNames : (writerNames c).length = countLive c.replicas := by
  have hperm : (writerNames c).Perm
      ((c.replicas.filter (·.mode ≠ .err)).map ReplicaEntry.address) := by
    rw [List.perm_ext_iff_of_nodup (nodup_writerNames h)
      ((List.filter_sublist.map _).nodup h.nodup_replicas)]
    intro a
    rw [mem_writerNames h, List.mem_map]
    constructor
    · rintro ⟨m, hm, hmem⟩
      exact ⟨⟨a, m⟩, List.mem_filter.2 ⟨hmem, by simpa using hm⟩, rfl⟩
    · rintro ⟨r, hr, rfl⟩
      exact ⟨r.mode, by simpa using (List.mem_filter.1 hr).2, (List.mem_filter.1 hr).1⟩
  rw [hperm.length_eq, List.length_map, countLive, List.countP_eq_length_filter]

theorem available_iff : c.backend.backendsAvailable = true ↔ countRW c.replicas ≠ 0 := by
  rw [h.reflects.available, ← Nat.pos_iff_ne_zero, countRW, List.countP_pos_iff]
  constructor
  · intro hne
    obtain ⟨b, hb⟩ := List.exists_mem_of_ne_nil _ hne
    obtain ⟨a, w, hw, hm, -⟩ := (h.reflects.readers.mem_iff b).1 hb
    exact ⟨⟨a, .rw⟩, (h.reflects.entries a .rw).2 ⟨w, hw, hm⟩, by simp⟩
  · rintro ⟨⟨a, m⟩, hr, hmode⟩
    obtain rfl : m = .rw := by simpa using hmode
    obtain ⟨b, hb, hbm⟩ := (h.reflects.entries a .rw).1 hr
    exact List.ne_nil_of_mem ((h.reflects.readers.mem_iff b.backend).2 ⟨a, b, hb, hbm, rfl⟩)

theorem unavailable (hrw : countRW c.replicas = 0) : c.backend.backendsAvailable = false := by
  rwa [← Bool.not_eq_true, available_iff h, not_not]

/-- The errors of a write name the replicas that have failed. -/
theorem failedReplicas_backendError (w : World) :
    failedReplicas (some (c.backend.backendError
      ⟨replies w (writerNames c).length, []⟩)) = failing (writerNames c) w := by
  obtain ⟨order, horder, ⟨hws, hindex⟩, -⟩ := h.built
  have hnames : writerNames c = c.backend.addresses BackendMode.live order := by
    rw [writerNames, hws, List.map_map, Function.comp_def, List.map_id']
  have hlen : (replies w (writerNames c).length).length = (writerNames c).length := by
    simp [replies]
  have hmap : (List.range (writerNames c).length).map c.backend.writerIndex = writerNames c := by
    refine List.ext_getElem? fun i => ?_
    rw [List.getElem?_map]
    by_cases hi : i < (writerNames c).length
    · rw [List.getElem?_range hi, Option.map_some, List.getElem?_eq_getElem hi]
      refine congrArg some (hindex i _ ?_)
      rw [← hnames, List.getElem?_eq_getElem hi]
    · rw [List.getElem?_eq_none (by simpa using hi), List.getElem?_eq_none (by simpa using hi)]
      rfl
  rw [Replicator.backendError, hlen, hmap]
  rfl

end

/-! ## The replicas that have failed -/

section

variable {w' : World} {e : ReplicaEntry}

/-- The replicas `as` were removed from the controller. -/
structure Dropped (as : List Address) (w w' : World) : Prop where
  mirrored : Mirrored w'.c
  writes : ∀ a, (w'.nodes a).writes = (w.nodes a).writes
  replicas : ∀ e, e ∈ w'.c.replicas ↔ e ∈ w.c.replicas ∧ e.address ∉ as

theorem mem_eraseP_address {rs : List ReplicaEntry} (h : (rs.map ReplicaEntry.address).Nodup) :
    e ∈ rs.eraseP (·.address = a) ↔ e ∈ rs ∧ e.address ≠ a := by
  obtain ⟨x, m⟩ := e
  have h' : ((rs.eraseP (·.address = a)).map ReplicaEntry.address).Nodup :=
    (List.eraseP_sublist.map _).nodup h
  rw [mem_iff_modeOf h', mem_iff_modeOf h, modeOf_eraseP h]
  by_cases hx : x = a
  · simp [hx]
  · simp [hx]

theorem Dropped.remove {as : List Address} (h : Dropped as w w') (a : Address) :
    Dropped (a :: as) w ((removeReplicaNoLock a).run w').2 := by
  have hl := removeReplicaNoLock_spec w' h.mirrored a w' rfl
  refine ⟨hl.mirrored, fun x => ?_, fun e => ?_⟩
  · rw [nodes_of_reach (fun _ _ hf => (hf.resolve_right id).writes)
      (hl.reach { drops := True } trivial), h.writes]
  · rw [hl.replicas, mem_eraseP_address h.mirrored.nodup_replicas, h.replicas, List.mem_cons,
      not_or, and_assoc]
    exact and_congr_right fun _ => and_comm

theorem forM_removeReplica (w : World) : ∀ (as done : List Address),
    Triple (Dropped done w) (List.forM as removeReplicaNoLock) fun _ =>
    Dropped (as.reverse ++ done) w
  | [], done => .pure fun _ => id
  | a :: as, done => by
    refine .bind (Q := fun _ => Dropped (a :: done) w) (fun s hs => hs.remove a) fun _ => ?_
    refine (forM_removeReplica w as (a :: done)).post fun _ s hs => ?_
    simpa using hs

/-- Exactly the replicas that an error names are removed. -/
theorem removeFailed_spec (hw : Mirrored w.c) (err : Err) :
    Triple (fun s => s = w) (removeFailed err) fun _ => Dropped err.addresses w := by
  cases err with
  | msg text =>
    refine .pure ?_
    rintro s rfl
    exact ⟨hw, fun _ => rfl, fun e => by simp [Err.addresses]⟩
  | backend errors =>
    refine .bind (Q := fun order s =>
      order.Perm (errors.map Prod.fst).dedup ∧ Dropped [] w s) ?_ fun order =>
        .fix fun w₁ h₁ => ?_
    · rintro s rfl
      exact ⟨(s.tape 0).order_perm _, hw, fun _ => rfl, fun e => by simp [iterate, moment]; rfl⟩
    refine (forM_removeReplica w order []).consequence ?_ fun _ s hs => ?_
    · rintro s rfl
      exact h₁.2
    · refine ⟨hs.mirrored, hs.writes, fun e => ?_⟩
      rw [hs.replicas, List.append_nil, List.mem_reverse, h₁.1.mem_iff, List.mem_dedup]
      rfl

/-- After an error the replicas it names are set to mode `ERR` and then removed. -/
theorem handleIOError_dropped (hw : Mirrored w.c) (err : Err) :
    Triple (fun s => s = w) (handleIOError err) fun errh s =>
      ∃ w', Handled (some err) errh w w' ∧ Dropped err.addresses w' s := by
  refine .bind (handleErrorNoLock_spec hw (some err)) fun errh => .fix fun w₁ h₁ => ?_
  exact .bind (removeFailed_spec h₁.mirrored err) fun _ =>
    .pure fun s hs => ⟨w₁, h₁, hs⟩

end

/-! ## The write -/

/-- The world after the requests of a write. -/
def afterWrite (wr : Write) (w : World) : World :=
  sent (Node.writeAt ⟨0, []⟩) (updaterNames w.c) (sent (Node.writeAt wr) (writerNames w.c) w)

/-- The number of replicas that fail. -/
def failures (w : World) : ℕ :=
  (failing (writerNames w.c) w).length

/-- The number of quorum replicas that fail. -/
def quorumFailures (wr : Write) (w : World) : ℕ :=
  errCount (replies (sent (Node.writeAt wr) (writerNames w.c) w) (updaterNames w.c).length)

/-- Enough of the writers have answered. -/
def Answered (wr : Write) (w : World) : Prop :=
  Majority (writerNames w.c).length (failures w) ∧
    Majority ((writerNames w.c).length + (updaterNames w.c).length)
      (failures w + quorumFailures wr w)

instance (wr : Write) (w : World) : Decidable (Answered wr w) :=
  inferInstanceAs (Decidable (_ ∧ _))

/-- The errors by index. -/
def writeErrors (wr : Write) (w : World) : MultiWriterError :=
  if 0 < failures w then ⟨replies w (writerNames w.c).length, []⟩
  else ⟨[], replies (sent (Node.writeAt wr) (writerNames w.c) w) (updaterNames w.c).length⟩

theorem multiWriteAt_run (wr : Write) (w : World) :
    (w.c.backend.writers.writeAt wr).run w = (if 0 < failures w ∨ 0 < quorumFailures wr w then
        (if Answered wr w then wr.data.length else 0, some (writeErrors wr w))
      else (wr.data.length, none), afterWrite wr w) := by
  have hws : (each (fun r : Remote => request r.name (Node.writeAt wr))
      w.c.backend.writers.writers).run w =
        (replies w (writerNames w.c).length, sent (Node.writeAt wr) (writerNames w.c) w) := by
    rw [each_request, writerNames, replies, List.length_map]
  have hus : (each (fun r : Remote => request r.name (Node.writeAt ⟨0, []⟩))
      w.c.backend.writers.updaters).run (sent (Node.writeAt wr) (writerNames w.c) w) =
        (replies (sent (Node.writeAt wr) (writerNames w.c) w) (updaterNames w.c).length,
          afterWrite wr w) := by
    rw [each_request, afterWrite, updaterNames, replies, List.length_map]
  have hlenw : w.c.backend.writers.writers.length = (writerNames w.c).length := by
    simp [writerNames]
  have hlenu : w.c.backend.writers.updaters.length = (updaterNames w.c).length := by
    simp [updaterNames]
  rw [MultiWriterAt.writeAt, run_bind hws, run_bind hus]
  simp only [Answered, writeErrors, failures, quorumFailures, length_failing, hlenw, hlenu]
  split
  · split <;> rfl
  · rfl

theorem replicatorWriteAt_run (hw : Mirrored w.c) (hrw : countRW w.c.replicas ≠ 0) (wr : Write) :
    (Replicator.writeAt wr).run w = (if 0 < failures w ∨ 0 < quorumFailures wr w then
        (if Answered wr w then wr.data.length else 0,
          some (w.c.backend.backendError (writeErrors wr w)))
      else (wr.data.length, none), afterWrite wr w) := by
  have hrun : (Replicator.writeAt wr).run w = (do
      let res ← w.c.backend.writers.writeAt wr
      pure (res.1, res.2.map w.c.backend.backendError) : Ctl (ℕ × Option Err)).run w := by
    have havail := (available_iff hw).2 hrw
    change (if w.c.backend.backendsAvailable = false then _ else _ : Ctl _).run w = _
    rw [if_neg (by simp [havail])]
  rw [hrun, run_bind (multiWriteAt_run wr w)]
  split <;> rfl

@[simp] theorem afterWrite_c (wr : Write) (w : World) : (afterWrite wr w).c = w.c := by
  rw [afterWrite, sent_c, sent_c]

/-- When a write that is sent is acknowledged. -/
def Acknowledged (wr : Write) (w : World) : Prop :=
  (failures w = 0 ∧ quorumFailures wr w = 0) ∨
    (0 < failures w ∧ (∃ a, ⟨a, .rw⟩ ∈ w.c.replicas ∧ a ∉ failing (writerNames w.c) w) ∧
      (wr.data = [] ∨ Answered wr w))

/-- A write that is not sent has an error, and no replica changes. -/
theorem writeAt_unsent (hw : Mirrored w.c) {wr : Write}
    (h : ¬(w.c.readOnly = false ∧ w.c.inBounds wr.off wr.data.length = true ∧
      countRW w.c.replicas ≠ 0)) :
    Triple (fun s => s = w) (Controller.writeAt wr) fun res s => res.2 ≠ none ∧
    s.nodes = w.nodes := by
  refine .get ?_
  rintro w rfl
  refine .ite (fun _ => .pure fun _ hs => ⟨nofun, by rw [hs]⟩) fun hro =>
    .ite (fun _ => .pure fun _ hs => ⟨nofun, by rw [hs]⟩) fun hin => ?_
  have hrw : countRW w.c.replicas = 0 :=
    not_not.1 fun hne => h ⟨by simpa using hro, by simpa using hin, hne⟩
  have havail := unavailable hw hrw
  refine .bind (Q := fun res s => res = (0, some errNoBackend) ∧ s = w)
    (.get ?_) fun res =>
    .fix fun w₁ h₁ => ?_
  · rintro w rfl
    exact .ite (fun _ => .pure fun _ hs => ⟨rfl, hs⟩) fun hne => (hne havail).elim
  · obtain ⟨rfl, rfl⟩ := h₁
    refine .bind (Q := fun errh s => errh = some errNoBackend ∧
      s.nodes = w₁.nodes) ?_ fun errh =>
      .pure fun _ herr => ⟨by simp [herr.1], herr.2⟩
    rintro s rfl
    exact ⟨rfl, rfl⟩

theorem writeAt_refused (hw : Mirrored w.c) {wr : Write}
    (h : ¬(w.c.readOnly = false ∧ w.c.inBounds wr.off wr.data.length = true ∧
      countRW w.c.replicas ≠ 0)) :
    Triple (fun s => s = w) (Controller.writeAt wr) fun res _ => res.2 ≠ none :=
  (writeAt_unsent hw h).post fun _ _ hs => hs.1

theorem failedReplicas_writeErrors (hw : Mirrored w.c) (wr : Write) :
    failedReplicas (some (w.c.backend.backendError (writeErrors wr w))) =
      failing (writerNames w.c) w := by
  by_cases hpos : 0 < failures w
  · rw [writeErrors, if_pos hpos, failedReplicas_backendError hw]
  · rw [writeErrors, if_neg hpos, List.eq_nil_of_length_eq_zero (Nat.eq_zero_of_not_pos hpos)]
    rfl

/-- What a write that is sent returns, and where it leaves the replicas. -/
theorem writeAt_sent (hw : Mirrored w.c) {wr : Write} (hro : w.c.readOnly = false)
    (hin : w.c.inBounds wr.off wr.data.length = true) (hrw : countRW w.c.replicas ≠ 0) :
    Triple (fun s => s = w) (Controller.writeAt wr) fun res s =>
      (∀ a, (s.nodes a).writes = ((afterWrite wr w).nodes a).writes) ∧
      (∀ e ∈ s.c.replicas, e.address ∉ failing (writerNames w.c) w ∧ (e.mode ≠ .err →
        e ∈ w.c.replicas)) ∧
      (res.1 = if 0 < failures w ∨ 0 < quorumFailures wr w then
        if Answered wr w then wr.data.length else 0 else wr.data.length) ∧
      (res.2 = none ↔ if 0 < failures w then
        ∃ e ∈ w.c.replicas, e.mode = .rw ∧ e.address ∉ failing (writerNames w.c) w
        else quorumFailures wr w = 0) := by
  refine .get ?_
  rintro w rfl
  refine .ite (fun h => (Bool.false_ne_true (hro ▸ h)).elim) fun _ =>
    .ite (fun h => (Bool.false_ne_true (h.symm.trans hin)).elim) fun _ => ?_
  refine .bind (Triple.result w) fun res => .fix fun w₁ h₁ => ?_
  rw [replicatorWriteAt_run hw hrw, Prod.mk.injEq] at h₁
  obtain ⟨hres, rfl⟩ := h₁
  by_cases hfail : 0 < failures w ∨ 0 < quorumFailures wr w
  · rw [if_pos hfail] at hres
    subst hres
    have hmir : Mirrored (afterWrite wr w).c := by rwa [afterWrite_c]
    refine .bind (handleIOError_dropped hmir _) fun errh => .pure ?_
    rintro s ⟨w₂, h₂, h₃⟩
    have hnames := failedReplicas_writeErrors hw wr
    refine ⟨fun a => by rw [h₃.writes, h₂.side.1], fun e he => ?_, by rw [if_pos hfail], ?_⟩
    · obtain ⟨he₂, hnot⟩ := (h₃.replicas e).1 he
      refine ⟨by rwa [← hnames], fun hm => ?_⟩
      have := (h₂.live e.address e.mode he₂ hm).1
      rwa [afterWrite_c] at this
    · by_cases hpos : 0 < failures w
      · rw [if_pos hpos, h₂.dropped (by rw [hnames]; exact List.ne_nil_of_length_pos hpos)]
        constructor
        · rintro ⟨a, ha⟩
          have := h₂.live a .rw ha (by decide)
          rw [hnames, afterWrite_c] at this
          exact ⟨⟨a, .rw⟩, this.1, rfl, this.2⟩
        · rintro ⟨⟨a, m⟩, he, rfl, hnot⟩
          exact ⟨a, h₂.kept a .rw (by rwa [afterWrite_c]) (by rwa [hnames])⟩
      · -- only quorum replicas have failed, and the error stays
        have hnil : failing (writerNames w.c) w = [] :=
          List.eq_nil_of_length_eq_zero (Nat.eq_zero_of_not_pos hpos)
        rw [if_neg hpos, h₂.passed (hnames.trans hnil)]
        exact iff_of_false nofun (Nat.pos_iff_ne_zero.1 (hfail.resolve_left hpos))
  · rw [if_neg hfail] at hres
    subst hres
    obtain ⟨hpos, hq⟩ := not_or.1 hfail
    refine .pure ?_
    rintro s rfl
    have hnil : failing (writerNames w.c) w = [] :=
      List.eq_nil_of_length_eq_zero (Nat.eq_zero_of_not_pos hpos)
    refine ⟨fun _ => rfl, fun e he => ⟨by simp [hnil], fun _ => ?_⟩, by rw [if_neg hfail], ?_⟩
    · rwa [afterWrite_c] at he
    · rw [if_neg hpos]
      exact iff_of_true rfl (Nat.eq_zero_of_not_pos hq)

theorem writeAt_spec (hw : Mirrored w.c) (hro : w.c.readOnly = false)
    (hin : w.c.inBounds wr.off wr.data.length = true) (hrw : countRW w.c.replicas ≠ 0) :
    Triple (fun s => s = w) (Controller.writeAt wr) fun res s =>
      (∀ a, (s.nodes a).writes = ((afterWrite wr w).nodes a).writes) ∧
        (res = (wr.data.length, none) ↔ Acknowledged wr w) := by
  refine (writeAt_sent hw hro hin hrw).post fun res s ⟨hwrites, _, hn, herr⟩ => ⟨hwrites, ?_⟩
  have hleft : (∃ e ∈ w.c.replicas, e.mode = .rw ∧ e.address ∉ failing (writerNames w.c) w) ↔
      ∃ a, ⟨a, .rw⟩ ∈ w.c.replicas ∧ a ∉ failing (writerNames w.c) w :=
    ⟨fun ⟨⟨a, _⟩, he, hm, hnot⟩ => ⟨a, hm ▸ he, hnot⟩, fun ⟨_, he, hnot⟩ => ⟨_, he, rfl, hnot⟩⟩
  rw [Prod.ext_iff, hn, herr, hleft, Acknowledged]
  by_cases hpos : 0 < failures w
  · by_cases hans : Answered wr w
    · simp [hans, hpos, Nat.pos_iff_ne_zero.1 hpos]
    · simp only [hans, if_false, or_false, hpos, true_and, Nat.pos_iff_ne_zero.1 hpos,
        false_and, false_or, true_or, if_true, eq_comm (a := 0), List.length_eq_zero_iff]
      exact and_comm
  · -- only quorum replicas may have failed, and then the error stays
    have hzero : failures w = 0 := Nat.eq_zero_of_not_pos hpos
    by_cases hq : quorumFailures wr w = 0
    · simp [hzero, hq]
    · simp [hzero, hq]

/-! ## How many it reaches -/

/-- The number of replicas that were in mode `RW` in `w` and have got the write `wr` since. -/
def reached (wr : Write) (w w' : World) : ℕ :=
  w.c.replicas.countP fun r =>
    decide (r.mode = .rw) && decide (Node.Got wr (w.nodes r.address) (w'.nodes r.address))

/-- The least number that an acknowledged write reaches, of `m` replicas in mode `RW` among `n` that
get it. An empty write is taken for acknowledged even without a majority. -/
def leastReached (m n : ℕ) (data : List Byte) : ℕ :=
  if data = [] then 1 else m - min ((n - 1) / 2) (m - 1)

theorem leastReached_le (hm : m ≠ 0) (data : List Byte) : leastReached m n data ≤ m := by
  unfold leastReached
  split <;> omega

theorem reached_congr {w' w'' : World}
    (h : ∀ a, (w''.nodes a).writes = (w'.nodes a).writes) : reached wr w w'' = reached wr w w' := by
  refine List.countP_congr fun r _ => ?_
  rw [Bool.and_eq_true, Bool.and_eq_true, decide_eq_true_eq, decide_eq_true_eq, decide_eq_true_eq,
    Node.Got, Node.Got, h]

/-- A replica that gets the write and does not fail has applied it. -/
theorem got_of_not_failing (hw : Mirrored w.c) (wr : Write) {e : ReplicaEntry}
    (he : e ∈ w.c.replicas) (hm : e.mode ≠ .err) (hnot : e.address ∉ failing (writerNames w.c) w) :
    Node.Got wr (w.nodes e.address) ((afterWrite wr w).nodes e.address) := by
  obtain ⟨i, hi⟩ := List.mem_iff_getElem?.1 ((mem_writerNames hw).2 ⟨e.mode, hm, he⟩)
  exact got_of_reply (nodup_writerNames hw) hi
    (not_not.1 fun herr => hnot (mem_failing.2 ⟨i, hi, herr⟩))

theorem leastReached_le_reached (hw : Mirrored w.c) (hrw : countRW w.c.replicas ≠ 0)
    (hack : Acknowledged wr w) :
    leastReached (countRW w.c.replicas) (countLive w.c.replicas) wr.data ≤
      reached wr w (afterWrite wr w) := by
  -- a replica in mode `RW` has got the write or fails
  have hgot : ∀ a, ⟨a, .rw⟩ ∈ w.c.replicas → a ∉ failing (writerNames w.c) w →
      Node.Got wr (w.nodes a) ((afterWrite wr w).nodes a) :=
      fun a ha => got_of_not_failing hw wr ha (by simp)
  have hcount : countRW w.c.replicas ≤ reached wr w (afterWrite wr w) + failures w := by
    refine le_trans (countP_le_add fun r hr hmode => ?_) (Nat.add_le_add_left
      (countP_mem_le hw.nodup_replicas (·.mode = .rw) (failing (writerNames w.c) w)) _)
    obtain ⟨a, m⟩ := r
    obtain rfl : m = .rw := by simpa using hmode
    by_cases hf : a ∈ failing (writerNames w.c) w
    · exact .inr (by simp [hf])
    · exact .inl (by simp [hgot a hr hf])
  rcases hack with ⟨hzero, -⟩ | ⟨-, ⟨a, ha, hnot⟩, hans⟩
  · have := leastReached_le (n := countLive w.c.replicas) hrw wr.data
    omega
  · have hone : 0 < reached wr w (afterWrite wr w) :=
      List.countP_pos_iff.2 ⟨_, ha, by simp [hgot a ha hnot]⟩
    unfold leastReached
    split
    · omega
    · rename_i hdata
      have hmaj := (hans.resolve_left hdata).1
      rw [length_writerNames hw, Majority] at hmaj
      omega

/-! ## The failures that leave the least -/

/-- A tape on which the requests to the replicas `fs` among `ws` are refused, and those after these
if `rest` is set. -/
def refusing (ws fs : List Address) (rest : Bool) : ℕ → Moment := fun n =>
  match ws[n]? with
  | some a => if a ∈ fs then .of (.refused "refused") else .calm
  | none => if rest then .of (.refused "refused") else .calm

theorem failing_sublist : ∀ (as : List Address) (es : List (Option String)),
    ((errorsOf as es).map Prod.fst).Sublist as
  | [], es => by simp [errorsOf]
  | a :: as, [] => by simp [errorsOf]
  | a :: as, e :: es => by
    have ih := failing_sublist as es
    cases e with
    | none => exact (by simpa [errorsOf] using ih.cons a)
    | some e => exact (by simpa [errorsOf] using ih.cons_cons a)

section

variable {ws fs : List Address} {rest : Bool} {w : World}

theorem mem_failing_refusing : a ∈ failing ws (w.onTape (refusing ws fs rest)) ↔
    a ∈ ws ∧ a ∈ fs := by
  rw [mem_failing]
  constructor
  · rintro ⟨i, hi, he⟩
    refine ⟨List.mem_of_getElem? hi, not_not.1 fun hnot => he ?_⟩
    simp [World.onTape, refusing, hi, hnot, Moment.calm, Reply.err]
  · rintro ⟨hws, hfs⟩
    obtain ⟨i, hi⟩ := List.mem_iff_getElem?.1 hws
    exact ⟨i, hi, by simp [World.onTape, refusing, hi, hfs, Moment.of, Reply.err]⟩

theorem length_failing_refusing (hws : ws.Nodup) (hfs : fs.Nodup) (hsub : fs ⊆ ws) :
    (failing ws (w.onTape (refusing ws fs rest))).length = fs.length := by
  have hnd : (failing ws (w.onTape (refusing ws fs rest))).Nodup :=
    (failing_sublist ws _).nodup hws
  refine List.Perm.length_eq ((List.perm_ext_iff_of_nodup hnd hfs).2 ?_)
  intro a
  rw [mem_failing_refusing]
  exact ⟨fun h => h.2, fun h => ⟨hsub h, h⟩⟩

theorem refused_rest (hn : ws.length ≤ n) : (refusing ws fs rest n).reply.applied = !rest := by
  unfold refusing
  rw [List.getElem?_eq_none hn]
  cases rest <;> rfl

end

/-- The addresses of the replicas in mode `RW`. -/
def rwNames (c : Controller) : List Address :=
  (c.replicas.filter (·.mode = .rw)).map ReplicaEntry.address

theorem mem_rwNames {c : Controller} : a ∈ rwNames c ↔ ⟨a, .rw⟩ ∈ c.replicas := by
  rw [rwNames, List.mem_map]
  constructor
  · rintro ⟨⟨a, m⟩, hr, rfl⟩
    obtain ⟨hmem, hm⟩ := List.mem_filter.1 hr
    obtain rfl : m = .rw := by simpa using hm
    exact hmem
  · exact fun h => ⟨_, List.mem_filter.2 ⟨h, by simp⟩, rfl⟩

theorem length_rwNames (c : Controller) : (rwNames c).length = countRW c.replicas := by
  rw [rwNames, List.length_map, countRW, List.countP_eq_length_filter]

section

variable {w : World} (hw : Mirrored w.c) {wr : Write} {fs : List Address} (hnd : fs.Nodup)
  (hfs : ∀ a ∈ fs, ⟨a, .rw⟩ ∈ w.c.replicas) {rest : Bool}

include hw hfs

theorem subset_writerNames : fs ⊆ writerNames w.c := fun a ha =>
  (mem_writerNames hw).2 ⟨.rw, by decide, hfs a ha⟩

include hnd

/-- The replicas that refuse a write are not reached. -/
theorem reached_refusing (hrest : wr ≠ ⟨0, []⟩ ∨ rest = true) :
    reached wr w (afterWrite wr (w.onTape (refusing (writerNames w.c) fs rest))) + fs.length ≤
      countRW w.c.replicas := by
  have hlen : fs.length ≤ w.c.replicas.countP fun r =>
      decide (r.mode = .rw) && decide (r.address ∈ fs) :=
    length_le_countP_mem _ hnd fun a ha => ⟨_, hfs a ha, by simp, rfl⟩
  refine (Nat.add_le_add_left hlen _).trans (countP_add_le fun r hr => ⟨?_, ?_, ?_⟩)
  · exact fun h => (Bool.and_eq_true _ _ ▸ h).1
  · exact fun h => (Bool.and_eq_true _ _ ▸ h).1
  · rintro ⟨hgot, hmem⟩
    rw [Bool.and_eq_true, decide_eq_true_eq, decide_eq_true_eq] at hgot hmem
    obtain ⟨i, hi⟩ := List.mem_iff_getElem?.1 (subset_writerNames hw hfs hmem.2)
    refine not_got_of_refused (w := w.onTape (refusing (writerNames w.c) fs rest))
      (nodup_writerNames hw) hi ?_ (hrest.imp_right fun hr j hj => ?_) hgot.2
    · simp [World.onTape, refusing, hi, hmem.2, Moment.of, Reply.applied]
    · exact (refused_rest hj).trans (by rw [hr]; rfl)

theorem failures_refusing : failures (w.onTape (refusing (writerNames w.c) fs rest)) = fs.length :=
  length_failing_refusing (nodup_writerNames hw) hnd (subset_writerNames hw hfs)

end

theorem quorumFailures_refusing (w : World) (wr : Write) (fs : List Address) :
    quorumFailures wr (w.onTape (refusing (writerNames w.c) fs false)) = 0 := by
  refine List.countP_eq_zero.2 fun e he => ?_
  obtain ⟨i, -, rfl⟩ := List.mem_map.1 he
  have htape : (sent (Node.writeAt wr) (writerNames w.c)
      (w.onTape (refusing (writerNames w.c) fs false))).tape i = .calm := by
    rw [sent_tape]
    simp [World.onTape, refusing]
  rw [show (w.onTape (refusing (writerNames w.c) fs false)).c = w.c from rfl, htape]
  simp [Moment.calm, Reply.err]

/-- How many replicas in mode `RW` may fail. -/
def mayFail (m n : ℕ) (data : List Byte) : ℕ :=
  if data = [] then m - 1 else min ((n - 1) / 2) (m - 1)

theorem mayFail_lt (hm : m ≠ 0) (data : List Byte) : mayFail m n data < m := by
  unfold mayFail
  split <;> omega

theorem leastReached_eq (hm : m ≠ 0) (data : List Byte) :
    leastReached m n data = m - mayFail m n data := by
  unfold leastReached mayFail
  split <;> omega

/-- There are failures with which a write is acknowledged and reaches no more than the least
number. -/
theorem exists_reached_le (hw : Mirrored w.c) (hrw : countRW w.c.replicas ≠ 0) (wr : Write) :
    ∃ tape, Acknowledged wr (w.onTape tape) ∧
      reached wr w (afterWrite wr (w.onTape tape)) ≤
        leastReached (countRW w.c.replicas) (countLive w.c.replicas) wr.data := by
  rw [leastReached_eq hrw]
  have hlt := mayFail_lt (n := countLive w.c.replicas) hrw wr.data
  obtain ⟨k, hk⟩ : ∃ k, k = mayFail (countRW w.c.replicas) (countLive w.c.replicas) wr.data :=
    ⟨_, rfl⟩
  rw [← hk] at hlt ⊢
  -- the first `k` replicas in mode `RW` fail, and the next one does not
  have hndrw : (rwNames w.c).Nodup := (List.filter_sublist.map _).nodup hw.nodup_replicas
  let fs := (rwNames w.c).take k
  have hnd : fs.Nodup := (List.take_sublist _ _).nodup hndrw
  have hfs : ∀ a ∈ fs, ⟨a, .rw⟩ ∈ w.c.replicas :=
    fun a ha => mem_rwNames.1 (List.mem_of_mem_take ha)
  have hlen : fs.length = k := by
    rw [List.length_take, length_rwNames]
    omega
  rcases Nat.eq_zero_or_pos k with hzero | hpos
  · refine ⟨refusing (writerNames w.c) fs false, .inl ⟨?_, quorumFailures_refusing w wr fs⟩, ?_⟩
    · rw [failures_refusing hw hnd hfs, hlen, hzero]
    · rw [hzero]
      exact List.countP_mono_left fun r _ h => (Bool.and_eq_true _ _ ▸ h).1
  · refine ⟨refusing (writerNames w.c) fs (decide (wr.data = [])), .inr ⟨?_, ?_, ?_⟩, ?_⟩
    · rw [failures_refusing hw hnd hfs, hlen]
      exact hpos
    · have hltk : k < (rwNames w.c).length := by rwa [length_rwNames]
      refine ⟨(rwNames w.c)[k], mem_rwNames.1 (List.getElem_mem hltk), fun hmem => ?_⟩
      obtain ⟨j, hj, hjk⟩ := List.mem_take_iff_getElem.1 (mem_failing_refusing.1 hmem).2
      have : j = k := (hndrw.getElem_inj_iff).1 hjk
      omega
    · by_cases hdata : wr.data = []
      · exact .inl hdata
      · right
        rw [decide_eq_false hdata, Answered, failures_refusing hw hnd hfs, hlen,
          quorumFailures_refusing,
          show (w.onTape (refusing (writerNames w.c) fs false)).c = w.c from rfl,
          length_writerNames hw, Majority, Majority]
        rw [mayFail, if_neg hdata] at hk
        omega
    · have hrest : wr ≠ ⟨0, []⟩ ∨ decide (wr.data = []) = true := by
        by_cases hdata : wr.data = []
        · exact .inr (decide_eq_true hdata)
        · exact .inl fun h => hdata (by rw [h])
      have hbound := reached_refusing hw hnd hfs hrest
      rw [hlen] at hbound
      omega

/-! ## The result -/

/-- The volume does not take the write `wr`, or the replicas in mode `RW` that may not fail are a
majority of the replication factor. -/
def Controller.Enough (c : Controller) (wr : Write) : Prop :=
  c.readOnly = true ∨ c.inBounds wr.off wr.data.length = false ∨ countRW c.replicas = 0 ∨
    c.replicationFactor / 2 + 1 ≤
      leastReached (countRW c.replicas) (countLive c.replicas) wr.data

instance (c : Controller) (wr : Write) : Decidable (c.Enough wr) :=
  inferInstanceAs (Decidable (_ ∨ _))

/-- A write that is not sent is not acknowledged. -/
theorem writeAt_not_sent (hw : Mirrored w.c)
    (h : w.c.readOnly = true ∨ w.c.inBounds wr.off wr.data.length = false ∨
      countRW w.c.replicas = 0) :
    Triple (fun s => s = w) (Controller.writeAt wr) fun res _ => res ≠ (wr.data.length, none) := by
  refine (writeAt_refused hw fun hsent => ?_).post fun res _ herr heq => herr (by rw [heq])
  rcases h with h | h | h
  · exact Bool.false_ne_true (hsent.1.symm.trans h)
  · exact Bool.false_ne_true (h.symm.trans hsent.2.1)
  · exact hsent.2.2 h

/-- In every state that a run reaches and for every write, whatever fails : an acknowledged write
reaches a majority of the replication factor among the replicas in mode `RW`, exactly if the volume
does not take it or enough replicas are in mode `RW`. -/
theorem acknowledged_iff (name : String) (rf : ℕ) (nodes : Address → Node)
    (ls : List (Op × (ℕ → Moment))) (s : System)
    (h : Transition.run System.step (System.new name rf nodes) ls = some s) (wr : Write) :
    (∀ tape, ((Controller.writeAt wr).run (s.world.onTape tape)).1 = (wr.data.length, none) →
      s.world.c.replicationFactor / 2 + 1 ≤
        reached wr s.world ((Controller.writeAt wr).run (s.world.onTape tape)).2) ↔
      s.world.c.Enough wr := by
  have hw := System.mirrored_of_run h
  by_cases hsent : s.world.c.readOnly = true ∨ s.world.c.inBounds wr.off wr.data.length = false ∨
      countRW s.world.c.replicas = 0
  · refine iff_of_true (fun tape hack => ?_) (by unfold Controller.Enough; tauto)
    exact (writeAt_not_sent (w := s.world.onTape tape) hw hsent _ rfl hack).elim
  · rw [not_or, not_or, Bool.not_eq_true, Bool.not_eq_false] at hsent
    obtain ⟨hro, hin, hrw⟩ := hsent
    have hspec : ∀ tape, _ := fun tape =>
      writeAt_spec (w := s.world.onTape tape) hw hro hin hrw (s.world.onTape tape) rfl
    constructor
    · intro hall
      obtain ⟨tape, hack, hle⟩ := exists_reached_le hw hrw wr
      obtain ⟨hwrites, hiff⟩ := hspec tape
      have := hall tape (hiff.2 hack)
      rw [reached_congr hwrites] at this
      exact .inr (.inr (.inr (this.trans hle)))
    · rintro (hro' | hin' | hrw' | hle) tape hack
      · simp [hro] at hro'
      · simp [hin] at hin'
      · exact (hrw hrw').elim
      · obtain ⟨hwrites, hiff⟩ := hspec tape
        rw [reached_congr hwrites]
        exact hle.trans (leastReached_le_reached (w := s.world.onTape tape) hw hrw (hiff.1 hack))

theorem acknowledged_iff_rebuildOne : ∃ s,
    Transition.run System.step (System.new "vol" 2 fun _ => .blank) (System.calmly rebuildOne) =
      some s ∧
    s.world.c.replicationFactor = 2 ∧
    ∀ tape, ((Controller.writeAt ⟨0, [1]⟩).run (s.world.onTape tape)).1 = (1, none) →
      s.world.c.replicationFactor / 2 + 1 ≤
        reached ⟨0, [1]⟩ s.world ((Controller.writeAt ⟨0, [1]⟩).run (s.world.onTape tape)).2 :=
  Transition.exists_of_any (p := fun s => s.world.c.replicationFactor = 2 ∧
    s.world.c.Enough ⟨0, [1]⟩) (by decide +kernel) fun s hs h => ⟨h.1,
      (acknowledged_iff _ _ _ _ s hs ⟨0, [1]⟩).2 h.2⟩

/-- Two replicas in mode `RW`, and a third one that is being rebuilt. -/
def rebuildThird : List Op :=
  rebuildOne ++ [.addBegin "tcp://c:9502", .addCommit "tcp://c:9502" "s2"]

/-- The write fails on one of the two. Two of the three writers have answered, one of them in mode
`WO`, and the write is acknowledged. -/
theorem oneOfThree_acknowledged : ∃ s tape,
    Transition.run System.step (System.new "vol" 3 fun _ => .blank) (System.calmly rebuildThird) =
      some s ∧
    ((Controller.writeAt ⟨0, [1]⟩).run (s.world.onTape tape)).1 = (1, none) ∧
    ¬s.world.c.replicationFactor / 2 + 1 ≤
      reached ⟨0, [1]⟩ s.world ((Controller.writeAt ⟨0, [1]⟩).run (s.world.onTape tape)).2 := by
  have hrun : (Transition.run System.step (System.new "vol" 3 fun _ => .blank)
      (System.calmly rebuildThird)).map (fun s =>
        let tape := refusing (writerNames s.world.c) ["tcp://b:9502"] false
        let res := (Controller.writeAt ⟨0, [1]⟩).run (s.world.onTape tape)
        decide (res.1 = (1, none) ∧ ¬s.world.c.replicationFactor / 2 + 1 ≤
          reached ⟨0, [1]⟩ s.world res.2)) = some true := by
    decide +kernel
  obtain ⟨s, hs, hst⟩ := Option.map_eq_some_iff.1 hrun
  exact ⟨s, _, hs, of_decide_eq_true hst⟩

end Jiva
