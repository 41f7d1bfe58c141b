import Jiva.ControllerRuns

/-!
# The table of replicas, over runs

What holds of the replicas of the controller in every state that a run reaches.
`replicator_reflects_replicas` is that the replicator is an image of the data replicas, with tables
that attribute each reply to the replica it comes from. `one_rebuilding_no_duplicates` is that at
most one replica is in mode `WO`, that no address occurs twice, and that a replica in mode `ERR`
stays in it until it is removed.

The number of replicas can exceed the replication factor : `addReplica` looks at the number before
it lets the lock go, and adds the replica after it has taken the lock again.
`length_le_replicationFactor` is what holds when each replica that is added finds room.
-/

namespace Jiva

open Hoare Controller Relation Transition

variable {c : Controller} {a : Address} {w w' : World}

/-! ## The replicator -/

/-- The remotes `rs` enumerate the backends of `r` in the modes `p`, each once, and `index` gives
the address of each. -/
structure Enumerates (r : Replicator) (p : BackendMode → Prop) (rs : List Remote)
    (index : ℕ → Address) : Prop where
  nodup : rs.Nodup
  mem_iff : ∀ b, b ∈ rs ↔ ∃ a w, r.backends.lookup a = some w ∧ p w.mode ∧ w.backend = b
  index : ∀ i b, rs[i]? = some b → b.name = index i ∧
    ∃ w, r.backends.lookup (index i) = some w ∧ p w.mode ∧ w.backend = b

/-- The replicator is an image of the data replicas. -/
structure Reflects (c : Controller) : Prop where
  distinct : (c.replicas.map ReplicaEntry.address).Nodup
  entries : ∀ a m, ⟨a, m⟩ ∈ c.replicas ↔ ∃ b, c.backend.backends.lookup a = some b ∧ b.mode = m
  writers : Enumerates c.backend (· ≠ .err) c.backend.writers.writers c.backend.writerIndex
  readers : Enumerates c.backend (· = .rw) c.backend.readers c.backend.readerIndex
  available : c.backend.backendsAvailable = true ↔ c.backend.readers ≠ []

theorem Replicator.mem_addresses {r : Replicator} {p : BackendMode → Bool} {order : List Address}
    (horder : order.Perm r.backends.keys) (a : Address) :
    a ∈ r.addresses p order ↔ ∃ w, r.backends.lookup a = some w ∧ p w.mode = true := by
  rw [addresses, List.mem_filter, horder.mem_iff]
  constructor
  · rintro ⟨-, ha⟩
    cases hb : r.backends.lookup a with
    | none => simp [hb] at ha
    | some w => exact ⟨w, rfl, by simpa [hb] using ha⟩
  · rintro ⟨w, hw, hp⟩
    refine ⟨AList.mem_keys.1 (AList.lookup_isSome.1 (by simp [hw])), by simpa [hw] using hp⟩

theorem Fits.enumerates {r : Replicator} (hr : Named r) {order : List Address}
    (horder : order.Perm r.backends.keys) {p : BackendMode → Bool} {rs : List Remote}
    {index : ℕ → Address} (h : Fits (r.addresses p order) rs index) :
    Enumerates r (fun m => p m = true) rs index := by
  obtain ⟨rfl, hindex⟩ := h
  have hnodup : (r.addresses p order).Nodup :=
    (horder.nodup_iff.2 r.backends.nodupKeys).filter _
  refine ⟨hnodup.map fun a b hab => (Remote.mk.injEq a b ▸ hab), fun b => ?_, fun i b hi => ?_⟩
  · rw [List.mem_map]
    constructor
    · rintro ⟨a, ha, rfl⟩
      obtain ⟨w, hw, hp⟩ := (Replicator.mem_addresses horder a).1 ha
      exact ⟨a, w, hw, hp, hr a w hw⟩
    · rintro ⟨a, w, hw, hp, rfl⟩
      exact ⟨a, (Replicator.mem_addresses horder a).2 ⟨w, hw, hp⟩, (hr a w hw).symm⟩
  · rw [List.getElem?_map, Option.map_eq_some_iff] at hi
    obtain ⟨a, ha, rfl⟩ := hi
    obtain ⟨w, hw, hp⟩ := (Replicator.mem_addresses horder a).1 (List.mem_of_getElem? ha)
    rw [hindex i a ha]
    exact ⟨rfl, w, hw, hp, hr a w hw⟩

theorem Mirrored.reflects (h : Mirrored c) : Reflects c := by
  obtain ⟨order, horder, hwriters, hreaders, havail⟩ := h.built
  refine ⟨h.nodup_replicas, fun a m => ?_, ?_, ?_, ?_⟩
  · rw [mem_iff_modeOf h.nodup_replicas, h.mirror]
    cases modeOf c.replicas a <;> simp [wrap]
  · have hlive : (fun m => BackendMode.live m = true) = (· ≠ .err) := by
      funext m
      cases m <;> simp [BackendMode.live]
    exact hlive ▸ hwriters.enumerates h.named horder
  · have hreadable : (fun m => BackendMode.readable m = true) = (· = .rw) := by
      funext m
      cases m <;> simp [BackendMode.readable]
    exact hreadable ▸ hreaders.enumerates h.named horder
  · rw [havail, decide_eq_true_eq, List.length_pos_iff]

theorem mem_errorsOf {as : List Address} {es : List (Option String)} {e : String} :
    (a, e) ∈ errorsOf as es ↔ ∃ i : ℕ, as[i]? = some a ∧ es[i]? = some (some e) := by
  simp only [errorsOf, List.mem_filterMap, Option.map_eq_some_iff, Prod.mk.injEq]
  constructor
  · rintro ⟨⟨x, o⟩, hmem, e', rfl, rfl, rfl⟩
    obtain ⟨i, hi⟩ := List.mem_iff_getElem?.1 hmem
    exact ⟨i, List.getElem?_zip_eq_some.1 hi⟩
  · rintro ⟨i, ha, he⟩
    exact ⟨(a, some e), List.mem_iff_getElem?.2 ⟨i, List.getElem?_zip_eq_some.2 ⟨ha, he⟩⟩, e,
      rfl, rfl, rfl⟩

/-- The errors of the writers are attributed to the replicas they come from : the one with the index
`i` is that of the `i`-th writer. -/
theorem Reflects.mem_errorsOf_writers (h : Reflects c) {es : List (Option String)}
    (hlen : es.length = c.backend.writers.writers.length) (a : Address) (e : String) :
    (a, e) ∈ errorsOf ((List.range es.length).map c.backend.writerIndex) es ↔ ∃ i : ℕ,
    c.backend.writers.writers[i]? = some (Remote.mk a) ∧ es[i]? = some (some e) := by
  rw [mem_errorsOf]
  refine exists_congr fun i => and_congr_left fun he => ?_
  have hi : i < c.backend.writers.writers.length := hlen ▸ (List.getElem?_eq_some_iff.1 he).1
  obtain ⟨b, hb⟩ : ∃ b, c.backend.writers.writers[i]? = some b :=
    ⟨_, List.getElem?_eq_getElem hi⟩
  have hindex := (h.writers.index i b hb).1
  rw [List.getElem?_map, List.getElem?_range (hlen ▸ hi), hb, Option.map_some, Option.some_inj,
    Option.some_inj, ← hindex]
  constructor
  · rintro rfl
    rfl
  · rintro rfl
    rfl

/-- In every state that a run reaches, the replicator is an image of the data replicas. A read that
finds backends available finds a reader, and the errors of a write are attributed to the replicas
they come from. -/
theorem replicator_reflects_replicas (name : String) (rf : ℕ) (nodes : Address → Node)
    (ls : List (Op × (ℕ → Moment))) (s : System)
    (h : run System.step (System.new name rf nodes) ls = some s) :
    Reflects s.world.c ∧
      (s.world.c.backend.backendsAvailable = true → s.world.c.backend.readers.length ≠ 0) ∧
      ∀ es : List (Option String), es.length = s.world.c.backend.writers.writers.length →
        ∀ a e, (a, e) ∈ errorsOf ((List.range es.length).map s.world.c.backend.writerIndex) es ↔
          ∃ i : ℕ, s.world.c.backend.writers.writers[i]? = some (Remote.mk a) ∧
            es[i]? = some (some e) := by
  have hr := (System.mirrored_of_run h).reflects
  refine ⟨hr, fun havail => ?_, fun es hlen => hr.mem_errorsOf_writers hlen⟩
  exact List.length_eq_zero_iff.not.2 (hr.available.1 havail)

/-- The run of a volume with two replicas, one of which is rebuilt. -/
def rebuildOne : List Op :=
  [.register ⟨"a", "1", 1, "Backend", "closed"⟩, .register ⟨"b", "2", 1, "Backend", "closed"⟩,
    .start ["tcp://a:9502"], .addBegin "tcp://b:9502", .addCommit "tcp://b:9502" "s1",
    .verifyRebuild "tcp://b:9502"]

theorem replicator_reflects_replicas_rebuildOne : ∃ s,
    run System.step (System.new "vol" 2 fun _ => .blank) (System.calmly rebuildOne) = some s ∧
    s.world.c.replicas = [⟨"tcp://a:9502", .rw⟩, ⟨"tcp://b:9502", .rw⟩] ∧
    Reflects s.world.c :=
  exists_of_any (p := fun s => s.world.c.replicas =
    [⟨"tcp://a:9502", .rw⟩, ⟨"tcp://b:9502", .rw⟩]) (by decide +kernel) fun s hs h =>
      ⟨h, (replicator_reflects_replicas _ _ _ _ s hs).1⟩

/-! ## Modes -/

/-- Every replica in mode `ERR` that is still there is in mode `ERR`. -/
def ErrKept (c c' : Controller) : Prop :=
  ∀ e ∈ c.replicas ++ c.quorumReplicas, e.mode = .err →
    ∀ e' ∈ c'.replicas ++ c'.quorumReplicas, e'.address = e.address → e'.mode = .err

/-- A change keeps mode `ERR`, if it does not add a replica that was in it. -/
theorem ErrKept.change {S : Scope} {c₀ : Controller} (h : ErrKept c₀ w.c)
    (hstep : Change S w w') (hS : ∀ a, S.adds a ∨ S.addsQuorum a →
      a ∉ (c₀.replicas ++ c₀.quorumReplicas).map ReplicaEntry.address) : ErrKept c₀ w'.c := by
  cases hstep with
  | send a f hf hcheck hw =>
    subst hw
    exact h
  | edit hnodes hsignals hrf hsize hstatus htables hedit =>
    intro e he herr e' he' haddr
    have hadded : ∀ a, S.adds a ∨ S.addsQuorum a → e'.address = a → False := fun a ha hea =>
      hS a ha (hea ▸ haddr ▸ List.mem_map_of_mem he)
    have hold : ∀ e' ∈ w.c.replicas ++ w.c.quorumReplicas, e'.address = e.address →
        e'.mode = .err := h e he herr
    generalize w'.c.replicas = rs, w'.c.quorumReplicas = qs at hedit he'
    cases hedit with
    | same => exact hold e' he' haddr
    | mode a m hwo hm =>
      rw [← setEntries_append] at he'
      rcases mem_setEntries he' with ⟨hr, -⟩ | ⟨rfl, m', hm', hne⟩
      · exact hold e' hr haddr
      · exact (hne (hold _ hm' haddr)).elim
    | removeData a _ =>
      exact hold e' ((List.eraseP_sublist.append (List.Sublist.refl _)).subset he') haddr
    | removeQuorum a _ =>
      exact hold e' (((List.Sublist.refl _).append List.eraseP_sublist).subset he') haddr
    | addData a ha hnew hwo =>
      rcases List.mem_append.1 he' with hd | hq
      · rcases List.mem_append.1 hd with hd | hd
        · exact hold e' (List.mem_append_left _ hd) haddr
        · exact (hadded a (.inl ha) (by rw [List.mem_singleton.1 hd])).elim
      · exact hold e' (List.mem_append_right _ hq) haddr
    | addQuorum a ha hnew =>
      rcases List.mem_append.1 he' with hd | hq
      · exact hold e' (List.mem_append_left _ hd) haddr
      · rcases List.mem_append.1 hq with hq | hq
        · exact hold e' (List.mem_append_right _ hq) haddr
        · exact (hadded a (.inr ha) (by rw [List.mem_singleton.1 hq])).elim
    | reset _ => simp at he'

theorem errKept_refl (h : ((c.replicas ++ c.quorumReplicas).map ReplicaEntry.address).Nodup) :
    ErrKept c c := by
  intro e he herr e' he' haddr
  obtain rfl : e' = e := List.inj_on_of_nodup_map h he' he haddr
  exact herr

theorem errKept_of_reach {S : Scope} (hw : Mirrored w.c) (h : Reach S w w')
    (hS : ∀ a, S.adds a ∨ S.addsQuorum a →
      a ∉ (w.c.replicas ++ w.c.quorumReplicas).map ReplicaEntry.address) : ErrKept w.c w'.c := by
  induction h with
  | refl => exact errKept_refl hw.nodup
  | tail _ hstep ih => exact ih.change hstep hS

theorem canAdd_of_hasReplica (w : World) (h : w.c.hasReplica a = true) :
    Triple (fun s => s = w) (canAdd a) fun err s => err ≠ none ∧ s = w := by
  refine .get fun s hs => ?_
  subst hs
  refine .ite (fun _ => .pure fun t ht => ⟨nofun, ht⟩) fun hnot => (hnot h).elim

/-- An addition that returns the error of `canAdd`. -/
theorem refused_of_hasReplica (w : World) (h : w.c.hasReplica a = true)
    {x y : Option Err → Ctl (Option Err)} (hx : ∀ e, x (some e) = pure (some e))
    (hy : ∀ e, y (some e) = pure (some e)) :
    Triple (fun s => s = w) (do let err ← (do let err ← canAdd a; x err); y err) fun _ s => s =
      w := by
  refine .bind (Q := fun err s => err ≠ none ∧ s = w) (.bind (canAdd_of_hasReplica w h)
    fun err => ?_) fun err => ?_
  · cases err with
    | some err => exact hx err ▸ Triple.pure fun s hs => ⟨nofun, hs.2⟩
    | none => exact fun s hs => (hs.1 rfl).elim
  · cases err with
    | some err => exact hy err ▸ Triple.pure fun s hs => hs.2
    | none => exact fun s hs => (hs.1 rfl).elim

theorem addReplicaCommit_of_hasReplica (w : World) (uuid : String) (h : w.c.hasReplica a = true) :
    Triple (fun s => s = w) (addReplicaCommit a uuid) fun _ s => s = w :=
  refused_of_hasReplica w h (fun _ => rfl) fun _ => rfl

theorem addQuorumReplicaCommit_of_hasReplica (w : World) (h : w.c.hasReplica a = true) :
    Triple (fun s => s = w) (addQuorumReplicaCommit a) fun _ s => s = w :=
  refused_of_hasReplica w h (fun _ => rfl) fun _ => rfl

theorem start_of_replicas (w : World) (h : w.c.replicas ≠ []) (as : List Address) :
    Triple (fun s => s = w) (Controller.start as) fun _ s => s = w := by
  refine .get fun s hs => ?_
  subst hs
  cases as with
  | nil => exact .pure fun t => id
  | cons a as =>
    exact .ite (fun _ => .pure fun t => id) fun hlen =>
      (hlen (List.length_pos_iff.2 h)).elim

/-- `Start` without data replicas begins by removing all replicas. -/
def Op.Clears (op : Op) (c : Controller) : Prop :=
  ∃ as, op = .start as ∧ c.replicas = []

/-- A step keeps mode `ERR`. -/
theorem errKept_of_step {s s' : System} {op : Op} {tape : ℕ → Moment} (hs : Mirrored s.world.c)
    (h : System.step s (op, tape) = some s') (hop : ¬op.Clears s.world.c) :
    ErrKept s.world.c s'.world.c := by
  have hrefl := errKept_refl hs.nodup
  cases op with
  | restart =>
    rw [System.step_restart] at h
    obtain rfl := Option.some.inj h
    exact fun e he herr e' he' => nomatch he'
  | node a n =>
    rw [System.step_node] at h
    obtain rfl := Option.some.inj h
    exact hrefl
  | start as =>
    have hne : s.world.c.replicas ≠ [] := fun hnil => hop ⟨as, rfl, hnil⟩
    have hw : s'.world = s.world.onTape tape :=
      (System.world_of_step h rfl).trans (start_of_replicas (s.world.onTape tape) hne as _ rfl)
    rw [hw]
    exact hrefl
  | addCommit a uuid =>
    by_cases hr : s.world.c.hasReplica a = true
    · have hw : s'.world = s.world.onTape tape :=
        (System.world_of_step h rfl).trans
          (addReplicaCommit_of_hasReplica (s.world.onTape tape) uuid hr _ rfl)
      rw [hw]
      exact hrefl
    · refine errKept_of_reach hs (System.step_reach hs h rfl).2 fun x hx => ?_
      obtain rfl : x = a := hx.resolve_right id
      rwa [hasReplica_eq_true] at hr
  | quorumCommit a =>
    by_cases hr : s.world.c.hasReplica a = true
    · have hw : s'.world = s.world.onTape tape :=
        (System.world_of_step h rfl).trans
          (addQuorumReplicaCommit_of_hasReplica (s.world.onTape tape) hr _ rfl)
      rw [hw]
      exact hrefl
    · refine errKept_of_reach hs (System.step_reach hs h rfl).2 fun x hx => ?_
      obtain rfl : x = a := hx.resolve_left id
      rwa [hasReplica_eq_true] at hr
  | _ => exact errKept_of_reach hs (System.step_reach hs h rfl).2 fun x hx => (hx.elim id id).elim

/-- In every state that a run reaches, at most one data replica is in mode `WO` and no address
occurs twice, and a replica in mode `ERR` stays in it until it is removed. -/
theorem one_rebuilding_no_duplicates (name : String) (rf : ℕ) (nodes : Address → Node)
    (ls : List (Op × (ℕ → Moment))) (s : System)
    (h : run System.step (System.new name rf nodes) ls = some s) :
    s.world.c.replicas.countP (·.mode = .wo) ≤ 1 ∧
      ((s.world.c.replicas ++ s.world.c.quorumReplicas).map ReplicaEntry.address).Nodup ∧
      ∀ op tape s', System.step s (op, tape) = some s' → ¬op.Clears s.world.c →
        ErrKept s.world.c s'.world.c := by
  have hs := System.mirrored_of_run h
  exact ⟨hs.oneWO, hs.nodup, fun op tape s' hstep hop => errKept_of_step hs hstep hop⟩

theorem one_rebuilding_no_duplicates_rebuildOne : ∃ s,
    run System.step (System.new "vol" 2 fun _ => .blank) (System.calmly rebuildOne) = some s ∧
    s.world.c.replicas.countP (·.mode = .wo) ≤ 1 :=
  exists_of_any (p := fun _ => True) (by decide +kernel) fun s hs _ =>
    (one_rebuilding_no_duplicates _ _ _ _ s hs).1

/-! ## The number of replicas -/

/-- A replica that is added finds fewer replicas than the replication factor, or takes over from the
one in mode `WO`. `Start` is called with no more addresses than the replication factor. -/
def Op.HasRoom (op : Op) (c : Controller) : Prop :=
  match op with
  | .addCommit _ _ => c.replicas.length < c.replicationFactor ∨ c.hasWOReplica ≠ none
  | .start as => as.length ≤ c.replicationFactor
  | _ => True

instance (op : Op) (c : Controller) : Decidable (op.HasRoom c) := by
  cases op <;> unfold Op.HasRoom <;> infer_instance

theorem length_withoutWO_lt (h : c.hasWOReplica ≠ none) :
    (withoutWO c.replicas).length < c.replicas.length := by
  rw [hasWOReplica, ne_eq, Option.map_eq_none_iff, List.find?_eq_none] at h
  push Not at h
  obtain ⟨r, hr, hwo⟩ := h
  rw [withoutWO, List.length_filter_lt_length_iff_exists]
  exact ⟨r, hr, by simpa using hwo⟩

/-- One more replica fits in if there is room for it. -/
theorem addReplicaCommit_length (w : World) (hw : Mirrored w.c) (a : Address) (uuid : String)
    {n : ℕ} (hn : w.c.replicas.length ≤ n)
    (hroom : w.c.replicas.length < n ∨ w.c.hasWOReplica ≠ none) :
    Triple (fun s => s = w) (addReplicaCommit a uuid) fun _ s => s.c.replicas.length ≤ n := by
  refine .bind (addReplicaNoLock_spec w hw a (some uuid)) fun err =>
    .fix fun w₁ h₁ => ?_
  cases err with
  | some err =>
    refine .pure ?_
    rintro s rfl
    exact (h₁.failed nofun).trans hn
  | none =>
    rintro s rfl
    have hlists := (leaves_of_safe (fun _ => safe_update) s h₁.mirrored s rfl).replicas
    rw [hlists, (h₁.added rfl).2.1, List.length_append, List.length_singleton]
    have hle : (withoutWO w.c.replicas).length ≤ w.c.replicas.length := List.length_filter_le _ _
    rcases hroom with hlt | hwo
    · omega
    · have := length_withoutWO_lt hwo
      omega

/-- `Start` adds the addresses it is given at most. -/
theorem length_of_start {as : List Address} (hw : Mirrored w'.c) (hnil : w.c.replicas = [])
    (h : Reach (Op.start as).scope w w') : w'.c.replicas.length ≤ as.length := by
  have hsub : w'.c.replicas.map ReplicaEntry.address ⊆ as := fun a ha =>
    (address_of_reach h ha).resolve_left (by simp [hnil])
  simpa using (List.subperm_of_subset hw.nodup_replicas hsub).length_le

/-- In a run in which each replica that is added finds room, there are never more replicas than the
replication factor. -/
theorem length_le_replicationFactor (name : String) (rf : ℕ) (nodes : Address → Node)
    (ls : List (Op × (ℕ → Moment))) (s : System)
    (hroom : Transition.Along System.step (fun s l => l.1.HasRoom s.world.c)
      (System.new name rf nodes) ls) (h : run System.step (System.new name rf nodes) ls = some s) :
    s.world.c.replicas.length ≤ s.world.c.replicationFactor := by
  refine (System.run_induction
    (I := fun s => s.world.c.replicas.length ≤ s.world.c.replicationFactor) ?_ ?_ ?_
    (mirrored_new name rf) (Nat.zero_le _) hroom h).2
  · intro s op tape s' hs hle hg hop hstep
    obtain ⟨hs', hreach⟩ := System.step_reach hs hstep hop
    rw [replicationFactor_of_reach hreach]
    cases op with
    | addCommit a uuid =>
      rw [System.world_of_step hstep rfl]
      exact addReplicaCommit_length (s.world.onTape tape) hs a uuid hle hg _ rfl
    | start as =>
      rcases eq_or_ne s.world.c.replicas [] with hnil | hne
      · exact (length_of_start hs' hnil hreach).trans hg
      · have hw : s'.world = s.world.onTape tape :=
          (System.world_of_step hstep rfl).trans
            (start_of_replicas (s.world.onTape tape) hne as _ rfl)
        rw [hw]
        exact hle
    | _ => exact (length_le_of_reach (fun _ => id) hs' hreach).trans hle
  · exact fun s _ => Nat.zero_le _
  · exact fun s a n tape hle _ => hle

theorem length_le_replicationFactor_rebuildOne : ∃ s,
    run System.step (System.new "vol" 2 fun _ => .blank) (System.calmly rebuildOne) = some s ∧
    s.world.c.replicas.length = 2 ∧ s.world.c.replicationFactor = 2 ∧
    s.world.c.replicas.length ≤ s.world.c.replicationFactor :=
  exists_of_any (p := fun s => s.world.c.replicas.length = 2 ∧ s.world.c.replicationFactor = 2)
    (by decide +kernel) fun s hs h => ⟨h.1, h.2,
      length_le_replicationFactor _ _ _ _ s (along_of_check (by decide +kernel)) hs⟩

/-- Two additions that both look at the number of replicas before either of them is done. -/
def addTwo : List Op :=
  [.register ⟨"a", "1", 1, "Backend", "closed"⟩, .register ⟨"b", "2", 1, "Backend", "closed"⟩,
    .start ["tcp://a:9502"], .addBegin "tcp://b:9502", .addBegin "tcp://c:9502",
    .addCommit "tcp://b:9502" "s1", .verifyRebuild "tcp://b:9502", .addCommit "tcp://c:9502" "s2"]

/-- The second of the two finds no room, and is added nevertheless. -/
theorem addTwo_exceeds_replicationFactor : ∃ s,
    run System.step (System.new "vol" 2 fun _ => .blank) (System.calmly addTwo) = some s ∧
      ¬s.world.c.replicas.length ≤ s.world.c.replicationFactor :=
  exists_of_any (by decide +kernel) fun _ _ => id

end Jiva
