import Jiva.WriteQuorum

/-!
# Quorum replicas

A quorum replica has no data. It is in the list of quorum replicas of the controller and in the map
of quorum backends of the replicator, and a write tells it that there was one. The list and the map
are kept by different code : `RemoveReplica` takes the replica from the list, and `RemoveBackend`
only takes it from the backends of the data replicas. `SetMode` only looks at those, too, and the
number of quorum replicas is never lowered.

`Tabled qs c` says that the list is `qs` and that the map, the updaters of the writer and the number
are those of the list. Whatever is done to data replicas keeps it, and adding a quorum replica keeps
it for the longer list (`act_tidy`). So as long as no quorum replica leaves or fails, the updaters
are the quorum replicas of the list (`quorum_of_run`).
-/

namespace Jiva

open Hoare Controller Transition

variable {qs : List ReplicaEntry} {α β : Type}
variable {w : World} {c : Controller} {r : Replicator}

/-- The quorum replicas that are not in mode `ERR`. -/
def liveQuorum (c : Controller) : List Address :=
  (c.quorumReplicas.filter (·.mode ≠ .err)).map ReplicaEntry.address

/-- The updaters are the quorum replicas of the list that are not in mode `ERR`, and those are the
ones that are counted. -/
structure QuorumSound (c : Controller) : Prop where
  updaters : c.backend.writers.updaters.Perm ((liveQuorum c).map Remote.mk)
  count : c.quorumReplicaCount = (liveQuorum c).length

/-- The quorum replicas are `qs` throughout. -/
structure Tabled (qs : List ReplicaEntry) (c : Controller) : Prop where
  list : c.quorumReplicas = qs
  count : c.quorumReplicaCount = qs.length
  keys : c.backend.quorumBackends.keys.Perm (qs.map ReplicaEntry.address)
  modes : ∀ a b, c.backend.quorumBackends.lookup a = some b → b = wrap a .wo
  updaters : c.backend.writers.updaters.Perm (c.backend.quorumBackends.keys.map Remote.mk)

theorem tabled_new (name : String) (rf : ℕ) : Tabled [] (Controller.new name rf) :=
  ⟨rfl, rfl, .refl _, nofun, .refl _⟩

theorem Tabled.sound (h : Tabled qs c) (hlive : ∀ e ∈ qs, e.mode ≠ .err) : QuorumSound c := by
  have hall : liveQuorum c = qs.map ReplicaEntry.address := by
    unfold liveQuorum
    rw [h.list, List.filter_eq_self.2 (by simpa using hlive)]
  refine ⟨?_, ?_⟩
  · rw [hall]
    exact h.updaters.trans (h.keys.map _)
  · rw [hall, h.count, List.length_map]

/-! ## The tables -/

namespace Replicator

/-- The second loop of `buildReadWriters`, when all quorum backends are in mode `WO`. -/
theorem foldl_addUpdaterTo (hmodes : ∀ a b, r.quorumBackends.lookup a = some b → b = wrap a .wo) :
    ∀ (as : List Address) (t : List Remote × (ℕ → Address)), (∀ a ∈ as, a ∈ r.quorumBackends.keys) →
      (as.foldl r.addUpdaterTo t).1 = t.1 ++ as.map Remote.mk
  | [], t, _ => (List.append_nil _).symm
  | a :: as, t, hmem => by
    obtain ⟨b, hb⟩ :=
      Option.isSome_iff_exists.1 (AList.lookup_isSome.2 (AList.mem_keys.1 (hmem a (by simp))))
    have hstep : (r.addUpdaterTo t a).1 = t.1 ++ [⟨a⟩] := by
      unfold addUpdaterTo
      rw [hb, hmodes a b hb]
      rfl
    rw [List.foldl_cons, foldl_addUpdaterTo hmodes as _ fun x hx => hmem x (by simp [hx]), hstep]
    simp

end Replicator

/-- The tables are built again. -/
theorem tabled_build {order quorumOrder : List Address}
    (hlist : c.quorumReplicas = qs) (hcount : c.quorumReplicaCount = qs.length)
    (hkeys : r.quorumBackends.keys.Perm (qs.map ReplicaEntry.address))
    (hmodes : ∀ a b, r.quorumBackends.lookup a = some b → b = wrap a .wo)
    (hperm : quorumOrder.Perm r.quorumBackends.keys) :
    Tabled qs { c with backend := r.build order quorumOrder } := by
  refine ⟨hlist, hcount, hkeys, hmodes, ?_⟩
  show (quorumOrder.foldl r.addUpdaterTo ([], fun _ => "")).1.Perm
    (r.quorumBackends.keys.map Remote.mk)
  rw [Replicator.foldl_addUpdaterTo hmodes quorumOrder _ fun a ha => hperm.mem_iff.1 ha]
  exact hperm.map _

/-! ## What leaves the quorum replicas alone -/

/-- `x` keeps the quorum replicas `qs`. -/
abbrev Steady (qs : List ReplicaEntry) (x : Ctl α) : Prop :=
  Preserves (fun w => Mirrored w.c ∧ Tabled qs w.c) x

/-- The scope of everything that leaves the lists of replicas and the modes as they are. -/
def Scope.loose : Scope :=
  { sends := fun _ _ => True, updates := True, resizes := True, signals := True }

theorem steady_of_safe {x : Ctl α} (h : Safe .loose x) : Steady qs x := by
  rintro w ⟨hw, ht⟩
  have hfixed : Scope.loose.Fixed := ⟨id, fun _ => id, fun _ => id, fun _ _ => id, id⟩
  obtain ⟨hmir, hreach⟩ := h w hw
  obtain ⟨⟨n, hn⟩, hcount⟩ := tables_of_reach hfixed hreach
  refine ⟨⟨hmir, (lists_of_reach hfixed hreach).2.trans ht.list, hcount.trans ht.count, ?_, ?_, ?_⟩,
    .single trivial⟩
  · rw [hn]
    exact ht.keys
  · rw [hn]
    exact ht.modes
  · rw [hn]
    exact ht.updaters

/-- The invariant of the controller and the quorum replicas are looked at one by one. -/
theorem Steady.of_safe {S : Scope} {x : Ctl α} (h : Safe S x)
    (ht : Triple (fun w => Mirrored w.c ∧ Tabled qs w.c) x fun _ w => Tabled qs w.c) :
    Steady qs x :=
  fun w hw => ⟨⟨(h w hw.1).1, ht w hw⟩, .single trivial⟩

theorem steady_tolerant : Tolerant (fun w => Mirrored w.c ∧ Tabled qs w.c) fun _ _ => True :=
  fun hx => steady_of_safe (tolerant_safe hx)

theorem Steady.tabled {x : Ctl α} (h : Steady qs x) :
    Triple (fun w => Mirrored w.c ∧ Tabled qs w.c) x fun _ w => Tabled qs w.c :=
  h.triple.post fun _ _ hw => hw.2

/-- A change that is not about quorum replicas. -/
theorem fields_tabled {f : Controller → Controller}
    (hlist : ∀ c, (f c).quorumReplicas = c.quorumReplicas)
    (hcount : ∀ c, (f c).quorumReplicaCount = c.quorumReplicaCount)
    (hbackend : ∀ c, (f c).backend = c.backend) :
    Triple (fun w => Tabled qs w.c) (modify fun w : World => w.setC f) fun _ w =>
    Tabled qs w.c := by
  refine .modify fun w h => ⟨(hlist _).trans h.list, (hcount _).trans h.count, ?_, ?_, ?_⟩ <;>
    simp only [World.setC, hbackend]
  · exact h.keys
  · exact h.modes
  · exact h.updaters

/-- A change of the data backends, after which the tables are built again. -/
theorem rebuild_tabled (hw : Tabled qs w.c) {f : Replicator → Replicator}
    (hf : ∀ r, (f r).quorumBackends = r.quorumBackends) :
    Triple (fun s => s = w) (do modify fun w => w.setBackend f; buildReadWriters) fun _ w =>
    Tabled qs w.c := by
  rintro w rfl
  refine tabled_build hw.list hw.count ?_ ?_ ((w.tape 1).order_perm _)
  · show (f w.c.backend).quorumBackends.keys.Perm _
    rw [hf]
    exact hw.keys
  · show ∀ a b, (f w.c.backend).quorumBackends.lookup a = some b → _
    rw [hf]
    exact hw.modes

theorem setMode_tabled (a : Address) (mode : BackendMode) :
    Triple (fun w => Tabled qs w.c) (setMode a mode) fun _ w => Tabled qs w.c := by
  refine .get fun w hw => ?_
  split
  · exact .pure fun s hs => hs ▸ hw
  · exact rebuild_tabled hw fun _ => rfl

namespace Controller

variable {a : Address} {as : List Address}

/-! ## Modes and removal -/

theorem steady_update :
    Steady qs (do updateVolStatus; updateCheckpoint; pure none : Ctl (Option Err)) :=
  steady_of_safe (safe_update (.inl trivial))

theorem steady_removeData (a : Address) : Steady qs (removeData a) := by
  refine .of_safe (S := { drops := True }) (fun w hw => ?_) (.get fun w hw => ?_)
  · have h := removeData_spec w hw a w rfl
    exact ⟨h.mirrored, h.reach _ trivial⟩
  refine .ite (fun _ => ?_) fun _ => .pure fun s hs => hs ▸ hw.2
  refine .bind ((steady_of_safe safe_leaveLast).tabled.pre fun s hs => hs ▸ hw) fun _ =>
    .bind (fields_tabled (fun _ => rfl) (fun _ => rfl) fun _ => rfl) fun _ =>
      .get fun w hw => ?_
  exact .ite (fun _ => rebuild_tabled hw fun _ => rfl) fun _ =>
    .pure fun s hs => hs ▸ hw

/-- The modes in the list are set, and nothing else of the quorum replicas. -/
theorem setReplicaModeNoLock_tabled (a : Address) (mode : BackendMode) :
    Triple (fun w => Tabled qs w.c) (setReplicaModeNoLock a mode) fun _ w =>
    Tabled (setEntries a mode qs) w.c := by
  refine .get fun w hw => ?_
  refine .bind (Q := fun _ w => Tabled qs w.c) ?_ fun _ => ?_
  · rintro _ rfl
    exact ⟨hw.list, hw.count, hw.keys, hw.modes, hw.updaters⟩
  refine .bind (.forM fun _ _ => setMode_tabled a mode) fun _ => ?_
  refine .bind (Q := fun _ w => Tabled (setEntries a mode qs) w.c)
    (.modify fun s hs => ?_) fun _ => ?_
  · refine ⟨congrArg _ hs.list, ?_, ?_, hs.modes, hs.updaters⟩
    · rw [setEntries, List.length_map]
      exact hs.count
    · rw [map_address_setEntries]
      exact hs.keys
  refine .bind (.forM fun _ _ => setMode_tabled a mode) fun _ => ?_
  exact fun s hs => ⟨hs.list, hs.count, hs.keys, hs.modes, hs.updaters⟩

section

variable (ha : a ∉ qs.map ReplicaEntry.address)
include ha

theorem steady_setReplicaModeNoLock {mode : BackendMode} (hwo : mode ≠ .wo) :
    Steady qs (setReplicaModeNoLock a mode) := by
  refine .of_safe (S := { sets := fun _ _ => True })
    (safe_setReplicaModeNoLock a hwo (.inr trivial)) fun w hw => ?_
  have h := setReplicaModeNoLock_tabled a mode w hw.2
  rwa [setEntries_eq_self ha] at h

theorem steady_setErr : Steady qs (setReplicaModeNoLock a .err) :=
  steady_setReplicaModeNoLock ha (by decide)

theorem steady_removeQuorum : Steady qs (removeQuorum a) := by
  refine .of_triple fun w hw => .get ?_
  rintro _ rfl
  refine .ite (fun hany => absurd ?_ ha) fun _ => .pure ?_
  · rw [hw.2.list] at hany
    simpa using hany
  · rintro _ rfl
    exact ⟨hw, .refl⟩

theorem steady_removeReplicaNoLock : Steady qs (removeReplicaNoLock a) :=
  .get fun _ => .ite (fun _ => .bind (steady_removeData a) fun _ => .bind
    (steady_removeQuorum ha) fun _ =>
    .bind (steady_of_safe (safe_updateVolStatus (.inl trivial))) fun _ =>
      steady_of_safe (safe_updateCheckpoint (.inl trivial))) fun _ => .pure _

theorem steady_monitoring (err : Bool) :
    Steady qs (monitoring a err) := by
  cases err with
  | false => exact steady_removeReplicaNoLock ha
  | true => exact .bind (steady_setErr ha) fun _ => steady_removeReplicaNoLock ha

end

/-! ## Addition -/

/-- A data replica is not a quorum replica. -/
theorem not_mem_quorum (hc : Mirrored c) (ht : Tabled qs c)
    (ha : a ∈ c.replicas.map ReplicaEntry.address) : a ∉ qs.map ReplicaEntry.address := by
  intro hmem
  rw [← ht.list] at hmem
  exact modeOf_eq_none.1 (hc.modeOf_none_of_quorum hmem) ha

/-- `canAdd` removes a data replica at most. -/
theorem steady_canAdd (a : Address) : Steady qs (canAdd a) := by
  refine .of_safe (S := { drops := True }) (safe_canAdd trivial a) (.get fun w hw => ?_)
  refine .ite (fun _ => .pure fun s hs => hs ▸ hw.2) fun _ => ?_
  cases hwo : w.c.hasWOReplica with
  | none => exact (steady_of_safe safe_checkSnapDeletion).tabled.pre fun s hs => hs ▸ hw
  | some woReplica =>
    have hmem : woReplica ∈ w.c.replicas.map ReplicaEntry.address := by
      rw [hasWOReplica, Option.map_eq_some_iff] at hwo
      obtain ⟨r, hr, rfl⟩ := hwo
      exact List.mem_map_of_mem (List.mem_of_find?_eq_some hr)
    refine .bind ((steady_of_safe (safe_hasGreaterRevisionCount _ _)).triple.pre
      fun s hs => hs ▸ hw) fun greater => ?_
    rcases greater with e | _ | _
    · exact .pure fun _ h => h.2
    · exact .pure fun _ h => h.2
    · exact Steady.tabled (.bind (steady_removeReplicaNoLock (not_mem_quorum hw.1 hw.2 hmem))
        fun _ => steady_of_safe safe_checkSnapDeletion)

/-- What `canAdd` admits is no quorum replica. -/
theorem canAdd_tabled (a : Address) :
    Triple (fun w => Mirrored w.c ∧ Tabled qs w.c) (canAdd a) fun err s =>
    (Mirrored s.c ∧ Tabled qs s.c) ∧ (err = none → a ∉ qs.map ReplicaEntry.address) := by
  intro w hw
  refine ⟨(steady_canAdd a w hw).1,
    fun hnone hmem => ((canAdd_spec w hw.1 a w rfl).2.2 hnone).new ?_⟩
  rw [← hw.2.list] at hmem
  rw [hasReplica_eq_true, List.map_append]
  exact List.mem_append_right _ hmem

theorem attach_tabled (a : Address) :
    Triple (fun w => Mirrored w.c ∧ Tabled qs w.c) (attach a) fun _ w => Tabled qs w.c := by
  refine .bind (steady_of_safe (safe_request a (f := Node.setReplicaMode .wo) (.inr trivial)
    fun _ => rfl)).tabled fun err => ?_
  cases err with
  | some e => exact .pure fun _ h => h
  | none =>
    refine .bind (fields_tabled (fun _ => rfl) (fun _ => rfl) fun _ => rfl) fun _ =>
      .bind (Q := fun _ w => Tabled qs w.c) (.get fun w hw => ?_) fun _ =>
        .pure fun _ h => h
    exact .ite (fun _ => .pure fun s hs => hs ▸ hw) fun _ =>
      rebuild_tabled hw fun _ => rfl

theorem steady_addReplicaNoLock (a : Address) (uuid : Option String) :
    Steady qs (addReplicaNoLock a uuid) := by
  refine .of_safe (S := { drops := True, adds := fun _ => True, sends := fun _ _ => True })
    (safe_addReplicaNoLock trivial trivial fun _ _ _ => trivial)
    (.bind (steady_canAdd a).triple fun err => ?_)
  cases err with
  | some err => exact .pure fun s hs => hs.2
  | none =>
    cases uuid with
    | none => exact attach_tabled a
    | some uuid =>
      refine .bind (steady_of_safe (safe_snapshotToAdd a fun _ => trivial)).triple fun err =>
        ?_
      cases err with
      | some err => exact .pure fun s hs => hs.2
      | none => exact attach_tabled a

/-- The new quorum replica is not in the map, so it is entered there. -/
theorem addQuorumBackend_tabled (ha : a ∉ qs.map ReplicaEntry.address)
    (hlist : w.c.quorumReplicas = qs ++ [⟨a, .wo⟩])
    (hcount : w.c.quorumReplicaCount = qs.length + 1)
    (hkeys : w.c.backend.quorumBackends.keys.Perm (qs.map ReplicaEntry.address))
    (hmodes : ∀ x b, w.c.backend.quorumBackends.lookup x = some b → b = wrap x .wo) :
    Triple (fun s => s = w) (addQuorumBackend a ⟨a⟩) fun _ s => Tabled (qs ++ [⟨a, .wo⟩]) s.c := by
  have hnone : a ∉ w.c.backend.quorumBackends :=
    fun hmem => ha (hkeys.mem_iff.1 (AList.mem_keys.2 hmem))
  refine .get ?_
  rintro w rfl
  refine .ite (fun hsome => absurd (AList.lookup_isSome.1 hsome) hnone) fun _ => ?_
  rintro w rfl
  refine tabled_build hlist (hcount.trans (by simp)) ?_ ?_ ((w.tape 1).order_perm _)
  · show (w.c.backend.quorumBackends.insert a ⟨⟨a⟩, .wo⟩).keys.Perm _
    rw [AList.keys_insert, List.erase_of_not_mem (fun h => hnone (AList.mem_keys.1 h)),
      List.map_append, List.map_singleton]
    exact (hkeys.cons a).trans (List.perm_append_singleton _ _).symm
  · intro x b hb
    have hb : (w.c.backend.quorumBackends.insert a ⟨⟨a⟩, .wo⟩).lookup x = some b := hb
    rcases eq_or_ne x a with rfl | hne
    · rw [AList.lookup_insert] at hb
      exact (Option.some.inj hb).symm
    · rw [AList.lookup_insert_ne hne] at hb
      exact hmodes x b hb

/-- A quorum replica is added to the list, to the map and to the updaters, and is counted. -/
theorem addQuorumReplicaNoLock_tabled (a : Address) :
    Triple (fun w => Mirrored w.c ∧ Tabled qs w.c) (addQuorumReplicaNoLock a) fun err s =>
      Mirrored s.c ∧ Tabled (if err = none then qs ++ [⟨a, .wo⟩] else qs) s.c := by
  intro w hw
  refine ⟨(safe_addQuorumReplicaNoLock (S := { drops := True, addsQuorum := fun _ => True }) trivial
    trivial w hw.1).1, ?_⟩
  refine (.bind (canAdd_tabled a) fun err => ?_ : Triple _ _ fun err s =>
    Tabled (if err = none then qs ++ [⟨a, .wo⟩] else qs) s.c) w hw
  cases err with
  | some err => exact .pure fun s hs => hs.1.2
  | none =>
    refine .fix fun w₁ h₁ => ?_
    obtain ⟨⟨-, hs⟩, hnew⟩ := h₁
    exact .modify_bind (.bind (addQuorumBackend_tabled (hnew rfl) (congrArg (· ++ _) hs.list)
      (congrArg (· + 1) hs.count) hs.keys hs.modes) fun _ => .pure fun s hs => hs)

/-! ## Rebuild -/

theorem steady_promote (ha : a ∉ qs.map ReplicaEntry.address) (rwReplica : Address) :
    Steady qs (promote a rwReplica) := by
  refine .bind (steady_of_safe (Replicator.safe_getRevisionCounter _)) fun res =>
    .ite (fun _ => .pure _) fun _ =>
      .bind (steady_of_safe (Replicator.safe_setReplicaMode _ _)) fun err => ?_
  cases err with
  | some e => exact .pure _
  | none =>
    refine .bind (steady_of_safe (Replicator.safe_setRevisionCounter _ _)) fun err => ?_
    cases err with
    | some e => exact .pure _
    | none =>
      refine .bind (steady_setReplicaModeNoLock ha (by decide)) fun _ =>
        .bind (.modify fun w hw => ?_) fun _ =>
        steady_update
      -- the number is raised to the length of the list if it is less, and it is not
      obtain ⟨hw, ht⟩ := hw
      refine ⟨⟨⟨hw.toMatches, hw.built⟩, ht.list, ?_, ht.keys, ht.modes, ht.updaters⟩, trivial⟩
      show max w.c.quorumReplicaCount w.c.quorumReplicas.length = _
      rw [ht.count, ht.list, max_self]

theorem steady_verifyRebuildReplica (a : Address) : Steady qs (verifyRebuildReplica a) := by
  refine .of_triple fun w hw => .get ?_
  rintro w rfl
  have hpure : ∀ {e : Option Err}, Triple (fun s => s = w) (pure e : Ctl (Option Err)) fun _ s =>
      (Mirrored s.c ∧ Tabled qs s.c) ∧ Relation.ReflTransGen (fun _ _ => True) w s := by
    rintro e _ rfl
    exact ⟨hw, .refl⟩
  cases hcur : w.c.getCurrentAndRWReplica a with
  | error e => exact hpure
  | ok p =>
    obtain ⟨replica, rwReplica⟩ := p
    have hmem : a ∈ w.c.replicas.map ReplicaEntry.address := by
      unfold getCurrentAndRWReplica at hcur
      cases hfind : w.c.replicas.find? (·.address = a) with
      | none => simp [hfind] at hcur
      | some r =>
        have hr : r.address = a := by simpa using List.find?_some hfind
        exact hr ▸ List.mem_map_of_mem (List.mem_of_find?_eq_some hfind)
    dsimp only
    split
    · exact hpure
    · exact hpure
    · rintro _ rfl
      exact steady_tolerant.verifyRebuildWO (steady_promote (not_mem_quorum hw.1 hw.2 hmem) _) _ hw

/-! ## I/O -/

theorem forM_of_mem {f : Address → Ctl Unit} : ∀ {as : List Address}, (∀ a ∈ as, Steady qs (f a)) →
    Steady qs (List.forM as f)
  | [], _ => .pure PUnit.unit
  | a :: _, h => .bind (h a (by simp)) fun _ => forM_of_mem fun x hx => h x (by simp [hx])

/-- A loop over a list in the order of an iteration, and what comes after it. -/
theorem steady_forEach {f : Address → Ctl Unit} {x : Ctl α} (hf : ∀ a ∈ as, Steady qs (f a))
    (hx : Steady qs x) : Steady qs (do let order ← iterate as; List.forM order f; x) := by
  intro w hw
  have hloop : Steady qs (List.forM ((w.tape 0).order as) f) :=
    forM_of_mem fun a ha => hf a (((w.tape 0).order_perm as).mem_iff.1 ha)
  exact ⟨((Keeps.bind hloop fun _ => hx) w.advance hw).1, .single trivial⟩

/-- The errors name no quorum replica of `qs`. -/
def Spares (qs : List ReplicaEntry) (err : Option Err) : Prop :=
  ∀ a ∈ failedReplicas err, a ∉ qs.map ReplicaEntry.address

theorem steady_handleErrorNoLock {err : Option Err} (h : Spares qs err) :
    Steady qs (handleErrorNoLock err) := by
  unfold handleErrorNoLock
  split
  · rename_i e errors
    refine steady_forEach (fun a ha => steady_setErr (h a ?_))
      (.get fun w => .ite (fun _ => .pure _) fun _ => .pure _)
    exact List.mem_dedup.1 ha
  · exact .pure _

theorem steady_handleIOError {err : Err} (h : Spares qs (some err)) :
    Steady qs (handleIOError err) := by
  refine .bind (steady_handleErrorNoLock h) fun errh => .bind ?_ fun _ => .pure _
  cases err with
  | msg text => exact .pure _
  | backend errors =>
    intro w hw
    have hloop : Steady qs
        (List.forM ((w.tape 0).order (errors.map Prod.fst).dedup) removeReplicaNoLock) :=
      forM_of_mem fun a ha => steady_removeReplicaNoLock
        (h a (List.mem_dedup.1 (((w.tape 0).order_perm _).mem_iff.1 ha)))
    exact ⟨(hloop w.advance hw).1, .single trivial⟩

/-- The error of `x` spares the quorum replicas, and so does what follows. -/
theorem Steady.bind_spares {x : Ctl β} {f : β → Ctl α} {err : β → Option Err} (hx : Steady qs x)
    (hspares : ∀ w, Mirrored w.c → Tabled qs w.c →
      Triple (fun s => s = w) x fun b _ => Spares qs (err b))
    (hf : ∀ b, Spares qs (err b) → Steady qs (f b)) : Steady qs (x >>= f) :=
  fun w hw => ⟨(hf _ (hspares w hw.1 hw.2 w rfl) _ (hx w hw).1).1, .single trivial⟩

/-- Only data replicas are named. -/
theorem Spares.of_data (hc : Mirrored c) (ht : Tabled qs c) {err : Option Err}
    (h : ∀ a ∈ failedReplicas err, a ∈ c.replicas.map ReplicaEntry.address) : Spares qs err :=
  fun a ha => not_mem_quorum hc ht (h a ha)

theorem mem_of_mem_errorsOf {es : List (Option String)} (h : a ∈ (errorsOf as es).map Prod.fst) :
    a ∈ as := by
  obtain ⟨⟨x, e⟩, hx, rfl⟩ := List.mem_map.1 h
  obtain ⟨i, hi, -⟩ := mem_errorsOf.1 hx
  exact List.mem_of_getElem? hi

/-- An error of the writers names data replicas. -/
theorem mem_backendError (hc : Mirrored c) {e : MultiWriterError}
    (hlen : e.replicaErrors.length ≤ c.backend.writers.writers.length)
    (ha : a ∈ failedReplicas (some (c.backend.backendError e))) :
    a ∈ c.replicas.map ReplicaEntry.address := by
  obtain ⟨i, hi, rfl⟩ := List.mem_map.1 (mem_of_mem_errorsOf ha)
  obtain ⟨order, horder, ⟨hws, hindex⟩, -⟩ := hc.built
  rw [hws, List.length_map] at hlen
  have hlt := (List.mem_range.1 hi).trans_le hlen
  rw [hindex i _ (List.getElem?_eq_getElem hlt)]
  obtain ⟨m, -, hm⟩ := (mem_addresses_live hc horder _).1 (List.getElem_mem hlt)
  exact List.mem_map.2 ⟨_, hm, rfl⟩

theorem spares_none : Spares qs none :=
  fun _ ha => absurd ha List.not_mem_nil

theorem spares_msg (text : String) : Spares qs (some (.msg text)) :=
  fun _ ha => absurd ha List.not_mem_nil

/-- The replicas that `WriteAt` of the replicator names. -/
theorem replicatorWriteAt_spares (wr : Write) (w : World) (hw : Mirrored w.c) (ht : Tabled qs w.c) :
    Triple (fun s => s = w) (Replicator.writeAt wr) fun res _ => Spares qs res.2 := by
  rintro w rfl
  by_cases hrw : countRW w.c.replicas = 0
  · have havail := unavailable hw hrw
    have hrun : (Replicator.writeAt wr).run w = ((0, some errNoBackend), w) := by
      show (if w.c.backend.backendsAvailable = false then _ else _ : Ctl _).run w = _
      rw [if_pos havail]
      rfl
    rw [hrun]
    exact spares_msg _
  · rw [replicatorWriteAt_run hw hrw]
    dsimp only
    split
    · refine .of_data hw ht fun a ha => mem_backendError hw ?_ ha
      unfold writeErrors
      split
      · simp [replies, writerNames]
      · exact Nat.zero_le _
    · exact spares_none

/-- `Sync` and `Unmap` of the replicator. -/
theorem replicatorToAll_spares (w : World) (hw : Mirrored w.c) (ht : Tabled qs w.c) :
    Triple (fun s => s = w) (Replicator.toAll fun m => m.toAll id) fun res _ =>
    Spares qs res.2 := by
  refine .get ?_
  rintro w rfl
  refine .ite (fun _ => .pure fun s hs => spares_msg _) fun _ => ?_
  refine .bind (Q := fun res _ =>
    ∀ e, res.2 = some e →
      e.replicaErrors.length = w.c.backend.writers.writers.length) ?_ fun res => ?_
  · rintro w rfl e he
    unfold MultiWriterAt.toAll at he
    rw [run_bind (each_request id Remote.name w.c.backend.writers.writers w)] at he
    split at he
    · split at he
      · obtain rfl := Option.some.inj he
        simp
      · obtain rfl := Option.some.inj he
        simp
    · cases he
  · refine .pure fun s hs => .of_data hw ht fun a ha => ?_
    cases hres : res.2 with
    | none =>
      rw [hres] at ha
      cases ha
    | some e =>
      rw [hres] at ha
      exact mem_backendError hw (hs e hres).le ha

/-- The loop of `ReadAt` names readers. -/
theorem readLoop_names (hr : ∀ i < r.readers.length, r.readerIndex i ∈ as)
    (off : ℤ) (len : ℕ) : ∀ (k index : ℕ) (errs : List (Address × String)) (w : World),
      index < r.readers.length → (∀ p ∈ errs, p.1 ∈ as) →
      ∀ p ∈ ((r.readLoop off len k index errs).run w).1.2, p.1 ∈ as
  | 0, _, _, _, _, herrs => herrs
  | k + 1, index, errs, w, hindex, herrs => by
    rw [Replicator.readLoop, run_bind (query_run _ _ w)]
    cases (w.tape 0).reply.err with
    | none => exact herrs
    | some e =>
      refine readLoop_names hr off len k _ _ _ (Nat.mod_lt _ (Nat.zero_lt_of_lt hindex))
        fun p hp => ?_
      rcases List.mem_append.1 hp with hp | hp
      · exact herrs p hp
      · obtain rfl := List.mem_singleton.1 hp
        exact hr index hindex

theorem replicatorReadAt_spares (off : ℤ) (len : ℕ) (w : World) (hw : Mirrored w.c)
    (ht : Tabled qs w.c) :
    Triple (fun s => s = w) (Replicator.readAt off len) fun res _ => Spares qs res.2 := by
  refine .get ?_
  rintro w rfl
  refine .ite (fun _ => .pure fun s hs => spares_msg _) fun havail => ?_
  obtain ⟨order, horder, -, ⟨hrs, hindex⟩, hpos⟩ := hw.built
  have hlen : 0 < w.c.backend.readers.length := by
    rw [hpos, decide_eq_false_iff_not, not_not] at havail
    exact havail
  have hdata : ∀ i < w.c.backend.readers.length,
      w.c.backend.readerIndex i ∈ w.c.replicas.map ReplicaEntry.address := by
    intro i hi
    rw [hrs, List.length_map] at hi
    rw [hindex i _ (List.getElem?_eq_getElem hi)]
    obtain ⟨b, hb, -⟩ := (Replicator.mem_addresses horder _).1 (List.getElem_mem hi)
    exact List.mem_map.2 ⟨_, (hw.reflects.entries _ b.mode).2 ⟨b, hb, rfl⟩, rfl⟩
  refine .bind (Q := fun _ _ => True) (fun _ _ => trivial) fun _ => ?_
  refine .bind (Q := fun res _ => ∀ p ∈ res.2, p.1 ∈ w.c.replicas.map ReplicaEntry.address)
    ?_ fun res => ?_
  · exact fun s _ => readLoop_names hdata off len _ _ _ _ (Nat.mod_lt _ hlen) fun p hp =>
      absurd hp List.not_mem_nil
  refine .ite (fun _ => .pure fun s hs => spares_none) fun _ =>
    .pure fun s hs => .of_data hw ht fun a ha => ?_
  obtain ⟨p, hp, rfl⟩ := List.mem_map.1 ha
  exact hs p hp

/-- `Snapshot` and `Resize` of the replicator. -/
theorem fanOut_spares (admits : Node → Bool) (f : Node → Node) (w : World) (hw : Mirrored w.c)
    (ht : Tabled qs w.c) :
    Triple (fun s => s = w) (Replicator.fanOut admits f) fun err _ => Spares qs err := by
  refine .get ?_
  rintro w rfl
  refine .bind (iterate_spec _ w) fun order => .fix ?_
  rintro _ ⟨horder, rfl⟩
  refine .bind (Q := fun _ _ => True) (fun _ _ => trivial) fun es => ?_
  refine .ite (fun _ => .pure fun s hs => spares_none) fun _ =>
    .pure fun s hs => .of_data hw ht fun a ha => ?_
  obtain ⟨m, -, hm⟩ := (mem_addresses_live hw horder a).1 (mem_of_mem_errorsOf ha)
  exact List.mem_map.2 ⟨_, hm, rfl⟩

theorem steady_writeAt (wr : Write) : Steady qs (Controller.writeAt wr) := by
  refine .get fun w => .ite (fun _ => .pure _) fun _ => .ite (fun _ => .pure _) fun _ =>
    Steady.bind_spares (steady_of_safe (Replicator.safe_writeAt (fun _ _ => trivial) wr))
      (replicatorWriteAt_spares wr) fun res hres => ?_
  cases herr : res.2 with
  | none => exact .pure _
  | some err => exact .bind (steady_handleIOError (herr ▸ hres)) fun errh => .pure _

theorem steady_flush (failed : String) :
    Steady qs (flush (Replicator.toAll fun m => m.toAll id) failed) := by
  refine .get fun w => .ite (fun _ => .pure _) fun _ =>
    Steady.bind_spares (steady_of_safe Replicator.safe_sync) replicatorToAll_spares
      fun res hres => ?_
  cases herr : res.2 with
  | none => exact .pure _
  | some err =>
    exact .bind (steady_handleIOError (herr ▸ hres)) fun errh => .ite (fun _ => .pure _)
      fun _ => .pure _

theorem steady_readAt (off : ℤ) (len : ℕ) : Steady qs (Controller.readAt off len) := by
  refine .get fun w => ?_
  split
  · exact .pure _
  · refine Steady.bind_spares (steady_of_safe (Replicator.safe_readAt off len))
      (replicatorReadAt_spares off len) fun res hres => ?_
    cases herr : res.2 with
    | none => exact .pure _
    | some err => exact .bind (steady_handleIOError (herr ▸ hres)) fun errh => .pure _

/-! ## Snapshots, size, start and revert -/

theorem steady_fanOut {admits : Node → Bool} {f : Node → Node}
    (hcheck : ∀ n, (f n).checkpoint = n.checkpoint) {g : Option Err → Ctl α}
    (hg : ∀ err, Spares qs err → Steady qs (g err)) :
    Steady qs (Replicator.fanOut admits f >>= g) :=
  Steady.bind_spares (steady_of_safe (Replicator.safe_fanOut (fun _ => .inr trivial) hcheck))
    (fanOut_spares admits f) hg

theorem steady_snapshot (name uuid : String) : Steady qs (Controller.snapshot name uuid) := by
  refine .bind (steady_of_safe (safe_snapshotName name uuid)) fun res => ?_
  cases res with
  | error err => exact .pure _
  | ok name =>
    exact steady_fanOut (Node.checkpoint_snapshot name) fun err herr =>
      steady_handleErrorNoLock herr

theorem steady_resize (name : String) (sizeInBytes : Except String ℤ) :
    Steady qs (Controller.resize name sizeInBytes) := by
  refine .get fun w => .ite (fun _ => .pure _) fun _ => ?_
  cases sizeInBytes with
  | error e => exact .pure _
  | ok sizeInBytes =>
    refine .ite (fun _ => .pure _) fun _ => .ite (fun _ => .pure _) fun _ =>
      steady_fanOut (f := Node.resize sizeInBytes) (fun _ => rfl) fun err herr =>
        .bind (steady_handleErrorNoLock herr) fun err => ?_
    cases err with
    | some err => exact .pure _
    | none => exact steady_of_safe (safe_resizeFrontend trivial _)

/-- Without quorum replicas every replica can be removed. -/
theorem steady_addAllDuringStart (as : List Address) : Steady [] (addAllDuringStart as) :=
  Tolerant.addAllDuringStart fun a _ => steady_tolerant.addReplicaDuringStartNoLock fun _ _ =>
    steady_tolerant.addSized (steady_of_safe (safe_takeSize trivial _ _))
      (steady_addReplicaNoLock a none)
      (steady_tolerant.finishStart (steady_removeReplicaNoLock List.not_mem_nil)
        (steady_setReplicaModeNoLock List.not_mem_nil (by decide)))

theorem steady_startAll (as : List Address) : Steady [] (startAll as) := by
  refine .bind (steady_addAllDuringStart as) fun err => ?_
  cases err with
  | some err => exact .pure _
  | none =>
    refine .get fun w => .bind (steady_of_safe (safe_revisionCounters _)) fun counters => ?_
    cases counters with
    | error e => exact .pure _
    | ok counters => exact steady_forEach (fun a _ => steady_setErr List.not_mem_nil) steady_update

/-- A reset, when there are no quorum replicas. -/
theorem tabled_reset (h : Tabled [] c) : Tabled [] c.reset :=
  ⟨rfl, h.count, .refl _, nofun, .refl _⟩

theorem start_tabled (ht : Tabled qs w.c) (hqs : w.c.replicas = [] → qs = []) (as : List Address) :
    Triple (fun s => s = w) (Controller.start as) fun _ s => Tabled qs s.c := by
  refine .get ?_
  rintro w rfl
  cases as with
  | nil => exact .pure fun s hs => hs ▸ ht
  | cons a as =>
    refine .ite (fun _ => .pure fun s hs => hs ▸ ht) fun hnone =>
      .ite (fun _ => .pure fun s hs => hs ▸ ht) fun _ => ?_
    obtain rfl := hqs (List.length_eq_zero_iff.1 (Nat.eq_zero_of_not_pos hnone))
    refine .bind (Q := fun _ s => Mirrored s.c ∧ Tabled [] s.c) (.modify ?_) fun _ => ?_
    · rintro w rfl
      have h := tabled_reset ht
      exact ⟨⟨(mirrored_new "" 0).toMatches, built_new⟩, h.list, h.count, h.keys,
        h.modes, h.updaters⟩
    · exact Steady.tabled (.bind (steady_startAll _) fun _ => .bind
        (steady_of_safe safe_startFrontend) fun _ => .pure _)

theorem steady_revertOne (ha : a ∉ qs.map ReplicaEntry.address) (name : String) :
    Steady qs (revertOne name a) := by
  refine .bind (steady_of_safe (safe_requestIf _ _ (.inr trivial) (Node.checkpoint_revert name)))
    fun err => ?_
  cases err with
  | some e => exact .bind (steady_setErr ha) fun _ => .pure _
  | none => exact .pure _

theorem steady_revertCommit {clients : List Address}
    (h : ∀ a ∈ clients, a ∉ qs.map ReplicaEntry.address) (name : String) :
    Steady qs (revertCommit clients name) := by
  intro w hw
  have hloop : Steady qs (each (revertOne name) ((w.tape 0).order clients)) :=
    .each_of_mem fun a ha => steady_revertOne (h a (((w.tape 0).order_perm _).mem_iff.1 ha)) name
  refine ⟨?_, .single trivial⟩
  exact ((Keeps.bind hloop fun results => .ite (fun _ => .bind (steady_of_safe safe_startFrontend)
    fun _ => .pure _) fun _ => .pure _) w.advance hw).1

theorem steady_addReplicaCommit (a : Address) (uuid : String) :
    Steady qs (addReplicaCommit a uuid) := by
  refine .bind (steady_addReplicaNoLock a (some uuid)) fun err => ?_
  cases err with
  | some err => exact .pure _
  | none => exact steady_update

/-- After a successful addition the quorum replica is in the list. -/
theorem addQuorumReplicaCommit_tabled (a : Address) :
    Triple (fun w => Mirrored w.c ∧ Tabled qs w.c) (addQuorumReplicaCommit a) fun _ s =>
      Tabled qs s.c ∨ Tabled (qs ++ [⟨a, .wo⟩]) s.c := by
  refine .bind (addQuorumReplicaNoLock_tabled a) fun err => ?_
  cases err with
  | some err => exact .pure fun s hs => .inl hs.2
  | none =>
    exact (steady_of_safe (safe_initQuorumReplica (.inl trivial) a)).tabled.post fun _ _ h => .inr h

end Controller

/-! ## Runs -/

/-- The replicas that an operation is to remove or to set to mode `ERR`. -/
def Op.targets : Op → List Address
  | .removeReplica a => [a]
  | .monitoring a _ => [a]
  | .setReplicaMode a .err => [a]
  | .revertCommit clients _ => clients
  | _ => []

/-- The operation resets the controller `c`, or may do so. -/
def Op.mayReset (c : Controller) : Op → Bool
  | .start _ => c.replicas.isEmpty
  | .shutdownBackend => true
  | _ => false

namespace System

/-- The step takes no quorum replica from the list and sets none to mode `ERR`. -/
def SparesQuorum (s : System) (l : Op × (ℕ → Moment)) : Prop :=
  (∀ a ∈ l.1.targets, a ∉ s.world.c.quorumReplicas.map ReplicaEntry.address) ∧
    (l.1.mayReset s.world.c = true → s.world.c.quorumReplicas = [])

instance (s : System) (l : Op × (ℕ → Moment)) : Decidable (SparesQuorum s l) :=
  inferInstanceAs (Decidable (_ ∧ _))

/-- The quorum replicas are those of a list, and none of them is in mode `ERR`. -/
def Tidy (c : Controller) : Prop :=
  ∃ qs, Tabled qs c ∧ ∀ e ∈ qs, e.mode ≠ .err

/-- What an operation does to the quorum replicas, if it spares them. -/
theorem act_tidy (hw : Mirrored w.c) (ht : Tidy w.c) {op : Op}
    (hout : ∀ a ∈ op.targets, a ∉ w.c.quorumReplicas.map ReplicaEntry.address)
    (hreset : op.mayReset w.c = true → w.c.quorumReplicas = []) : Tidy (op.act.run w).2.c := by
  obtain ⟨qs, ht, hlive⟩ := ht
  rw [ht.list] at hout hreset
  -- most operations keep the list
  have keep : Tabled qs (op.act.run w).2.c → Tidy (op.act.run w).2.c := fun h => ⟨qs, h, hlive⟩
  have steady : Steady qs op.act → Tidy (op.act.run w).2.c := fun h => keep (h w ⟨hw, ht⟩).1.2
  cases op with
  | register r => exact steady (steady_of_safe (safe_registerReplica trivial r))
  | start as =>
    refine keep (start_tabled ht (fun h => hreset ?_) as w rfl)
    rw [Op.mayReset, h]
    rfl
  | addBegin a => exact steady (Tolerant.addReplicaBegin (steady_canAdd a))
  | addFail a => exact keep ht
  | addCommit a uuid => exact steady (steady_addReplicaCommit a uuid)
  | quorumBegin a => exact steady (steady_canAdd a)
  | quorumFail a => exact keep ht
  | quorumCommit a =>
    rcases addQuorumReplicaCommit_tabled a w ⟨hw, ht⟩ with h | h
    · exact keep h
    · refine ⟨_, h, fun e he => ?_⟩
      rcases List.mem_append.1 he with he | he
      · exact hlive e he
      · obtain rfl := List.mem_singleton.1 he
        exact nofun
  | verifyRebuild a => exact steady (steady_verifyRebuildReplica a)
  | setReplicaMode a mode =>
    cases mode with
    | wo => exact keep ht
    | err => exact steady (.bind (steady_setErr (hout a (by simp [Op.targets]))) fun _ => .pure _)
    | rw =>
      refine ⟨_, setReplicaModeNoLock_tabled a .rw w ht, fun e he => ?_⟩
      rcases mem_setEntries he with ⟨he, -⟩ | ⟨rfl, -⟩
      · exact hlive e he
      · exact nofun
  | removeReplica a => exact steady (steady_removeReplicaNoLock (hout a (by simp [Op.targets])))
  | monitoring a err => exact steady (steady_monitoring (hout a (by simp [Op.targets])) err)
  | writeAt wr => exact keep (steady_writeAt wr w ⟨hw, ht⟩).1.2
  | readAt off len => exact keep (steady_readAt off len w ⟨hw, ht⟩).1.2
  | sync => exact keep (steady_flush _ w ⟨hw, ht⟩).1.2
  | unmap => exact keep (steady_flush _ w ⟨hw, ht⟩).1.2
  | snapshot name uuid => exact keep (steady_snapshot name uuid w ⟨hw, ht⟩).1.2
  | resize name bytes => exact keep (steady_resize name bytes w ⟨hw, ht⟩).1.2
  | revertBegin name => exact keep (steady_of_safe safe_revertBegin w ⟨hw, ht⟩).1.2
  | revertCommit clients name => exact keep (steady_revertCommit hout name w ⟨hw, ht⟩).1.2
  | shutdownFrontend => exact keep (steady_of_safe safe_frontendShutdown w ⟨hw, ht⟩).1.2
  | shutdownBackend =>
    obtain rfl := hreset rfl
    exact keep (tabled_reset ht)
  | snapDeletion b => exact keep ⟨ht.list, ht.count, ht.keys, ht.modes, ht.updaters⟩
  | restart => exact keep ht
  | node a n => exact keep ht

theorem tidy_of_run {name : String} {rf : ℕ} {nodes : Address → Node}
    {ls : List (Op × (ℕ → Moment))} {s : System}
    (h : run step (System.new name rf nodes) ls = some s)
    (hspares : Transition.Along step SparesQuorum (System.new name rf nodes) ls) :
    Mirrored s.world.c ∧ Tidy s.world.c := by
  refine run_induction (I := fun s => Tidy s.world.c) ?_ ?_ ?_ (mirrored_new name rf)
    ⟨[], tabled_new name rf, nofun⟩ hspares h
  · intro s op tape s' hmir ht hgood hop hstep
    rw [world_of_step hstep hop]
    exact act_tidy (w := s.world.onTape tape) hmir ht hgood.1 hgood.2
  · exact fun s _ => ⟨[], tabled_new _ _, nofun⟩
  · exact fun s a n tape ht _ => ht

end System

/-- A write asks the data replicas and the quorum replicas of the list that are not in mode `ERR`,
and no other replica. It is acknowledged if all of them answer without an error. -/
structure QuorumHeard (w : World) : Prop where
  silent : ∀ wr a, a ∉ writerNames w.c → a ∉ liveQuorum w.c →
    ((w.c.backend.writers.writeAt wr).run w).2.nodes a = w.nodes a
  acknowledged : ∀ wr, w.c.readOnly = false → w.c.inBounds wr.off wr.data.length = true →
    countRW w.c.replicas ≠ 0 →
    (∀ i < countLive w.c.replicas + (liveQuorum w.c).length, (w.tape i).reply.err = none) →
    ((Controller.writeAt wr).run w).1 = (wr.data.length, none)

theorem errCount_replies {n : ℕ} (h : ∀ i < n, (w.tape i).reply.err = none) :
    errCount (replies w n) = 0 := by
  refine List.countP_eq_zero.2 fun e he => ?_
  obtain ⟨i, hi, rfl⟩ := List.mem_map.1 he
  rw [h i (List.mem_range.1 hi)]
  exact Bool.false_ne_true

theorem QuorumSound.heard (hw : Mirrored w.c) (h : QuorumSound w.c) : QuorumHeard w := by
  have hnames : (updaterNames w.c).Perm (liveQuorum w.c) := by
    have := h.updaters.map Remote.name
    rwa [List.map_map, Function.comp_def, List.map_id'] at this
  refine ⟨fun wr a hwriter hquorum => ?_, fun wr hro hin hrw hok => ?_⟩
  · rw [multiWriteAt_run]
    show (afterWrite wr w).nodes a = _
    rw [afterWrite, sent_nodes_of_not_mem _ _ (fun hmem => hquorum (hnames.mem_iff.1 hmem)),
      sent_nodes_of_not_mem _ _ hwriter]
  · refine (writeAt_spec hw hro hin hrw w rfl).2.2 (.inl ⟨?_, ?_⟩)
    · rw [failures, length_failing]
      refine errCount_replies fun i hi => hok i (Nat.lt_add_right _ ?_)
      rwa [length_writerNames hw] at hi
    · refine errCount_replies fun i hi => ?_
      rw [sent_tape, length_writerNames hw]
      refine hok _ ?_
      rw [hnames.length_eq] at hi
      omega

/-- In every run in which no quorum replica leaves or fails : the updaters are the quorum replicas
of the list, and a write asks no other one. -/
theorem quorum_of_run (name : String) (rf : ℕ) (nodes : Address → Node)
    (ls : List (Op × (ℕ → Moment))) (s : System)
    (h : run System.step (System.new name rf nodes) ls = some s)
    (hspares : Transition.Along System.step System.SparesQuorum (System.new name rf nodes) ls) :
    QuorumSound s.world.c ∧ ∀ tape, QuorumHeard (s.world.onTape tape) := by
  obtain ⟨hmir, qs, ht, hlive⟩ := System.tidy_of_run h hspares
  have hsound := ht.sound hlive
  exact ⟨hsound, fun tape => QuorumSound.heard (w := s.world.onTape tape) hmir hsound⟩

/-- Two data replicas and a quorum replica. -/
def addQuorum : List Op :=
  rebuildOne ++ [.quorumBegin "tcp://q:9502", .quorumCommit "tcp://q:9502"]

theorem quorum_of_run_addQuorum : ∃ s,
    run System.step (System.new "vol" 2 fun _ => .blank) (System.calmly addQuorum) = some s ∧
    s.world.c.quorumReplicas = [⟨"tcp://q:9502", .wo⟩] ∧ QuorumSound s.world.c :=
  exists_of_any (p := fun s => s.world.c.quorumReplicas = [⟨"tcp://q:9502", .wo⟩])
    (by decide +kernel) fun s hs h => ⟨h,
      (quorum_of_run _ _ _ _ s hs (along_of_check (by decide +kernel))).1⟩

/-- The quorum replica is removed, and stays among the updaters. A write fails because it does not
answer. -/
theorem removedQuorum_fails_write : ∃ s tape,
    run System.step (System.new "vol" 2 fun _ => .blank)
      (System.calmly (addQuorum ++ [.removeReplica "tcp://q:9502"])) = some s ∧
    s.world.c.quorumReplicas = [] ∧ ¬QuorumSound s.world.c ∧
    s.world.c.backend.writers.updaters = [⟨"tcp://q:9502"⟩] ∧
    ((Controller.writeAt ⟨0, [1]⟩).run (s.world.onTape tape)).1 = (1, some (.backend [])) := by
  have hrun : (run System.step (System.new "vol" 2 fun _ => .blank)
      (System.calmly (addQuorum ++ [.removeReplica "tcp://q:9502"]))).map (fun s =>
        (s.world.c.quorumReplicas, s.world.c.quorumReplicaCount, s.world.c.backend.writers.updaters,
          ((Controller.writeAt ⟨0, [1]⟩).run
            (s.world.onTape (refusing (writerNames s.world.c) [] true))).1)) =
      some ([], 1, [⟨"tcp://q:9502"⟩], 1, some (.backend [])) := by
    decide +kernel
  obtain ⟨s, hs, hst⟩ := Option.map_eq_some_iff.1 hrun
  simp only [Prod.mk.injEq] at hst
  obtain ⟨hlist, hcount, hupdaters, hwrite⟩ := hst
  refine ⟨s, _, hs, hlist, fun hsound => ?_, hupdaters, hwrite⟩
  have hzero := hsound.count
  rw [hcount, liveQuorum, hlist] at hzero
  cases hzero

end Jiva
