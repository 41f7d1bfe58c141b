import Jiva.StartReplies

/-!
# The derived status of the controller

`RWReplicaCount`, `ReadOnly` and `Checkpoint` are computed from the modes of the replicas by
`UpdateVolStatus` and `UpdateCheckpoint`. `Current c` says that they are what these would make of
the modes as they are now.

The calls for I/O, removals, additions and rebuilds end with an update. `Snapshot`, `Resize`,
`Revert` and `SetReplicaMode` set modes without one, and `Start` leaves without one after an error.
`status_current` is what holds over runs in which these change no mode that counts (`Op.Steady`),
and `failedSnapshot_stale` is a run in which a snapshot fails on one of two replicas.
-/

namespace Jiva

open Hoare Controller Relation Transition

variable {a : Address} {w w' : World} {qs rs : List ReplicaEntry}
    {p : Address → (Node → Node) → Prop}
  {m : BackendMode} {c : Controller} {name : String}

/-! ## The status -/

/-- The status is the one of the modes. -/
structure Current (c : Controller) : Prop where
  count : c.rwReplicaCount = countRW c.replicas + countRW c.quorumReplicas
  readOnly : c.readOnly = false ↔ (c.replicationFactor + c.quorumReplicaCount) / 2 + 1 ≤
    countRW c.replicas + countRW c.quorumReplicas
  checkpoint : c.checkpoint ≠ none → countRW c.replicas = c.replicationFactor

theorem current_new (name : String) (rf : ℕ) : Current (Controller.new name rf) where
  count := rfl
  readOnly := by simp [Controller.new, countRW]
  checkpoint := fun h => (h rfl).elim

/-- The parts of the status that `UpdateVolStatus` computes. -/
def Counted (c : Controller) : Prop :=
  c.rwReplicaCount = countRW c.replicas + countRW c.quorumReplicas ∧
    (c.readOnly = false ↔ (c.replicationFactor + c.quorumReplicaCount) / 2 + 1 ≤
      countRW c.replicas + countRW c.quorumReplicas)

theorem counted_withVolStatus (c : Controller) : Counted c.withVolStatus :=
  ⟨rfl, by simp [withVolStatus]⟩

/-- With the same number of replicas in mode `RW`, the same status is current. -/
theorem Current.of_counts {c' : Controller} (h : Current c)
    (hrs : countRW c'.replicas = countRW c.replicas)
    (hqs : countRW c'.quorumReplicas = countRW c.quorumReplicas)
    (hrf : c'.replicationFactor = c.replicationFactor) (hst : SameStatus c c') : Current c' := by
  obtain ⟨hcount, hro, hq, hcp⟩ := hst
  refine ⟨?_, ?_, ?_⟩
  · rw [hcount, hrs, hqs, h.count]
  · rw [hro, hrf, hq, hrs, hqs, h.readOnly]
  · rw [hcp, hrs, hrf]
    exact h.checkpoint

/-- What neither edits the lists nor updates the status leaves it current. -/
theorem Current.of_reach {S : Scope} (h : Current w.c) (hfixed : S.Fixed)
    (hS : ¬S.Updates) (hreach : Reach S w w') : Current w'.c := by
  obtain ⟨hrs, hqs⟩ := lists_of_reach hfixed hreach
  refine h.of_counts ?_ ?_ (replicationFactor_of_reach hreach) (sameStatus_of_reach hS hreach)
  · rw [hrs]
  · rw [hqs]

theorem Current.rested (h : Current w.c) (hr : Rested w w') : Current w'.c := by
  refine h.of_counts ?_ ?_ hr.replicationFactor hr.status
  · rw [hr.replicas]
  · rw [hr.quorumReplicas]

variable {α : Type}

/-- What holds of the lists and the status is kept by what leaves them alone. -/
theorem tolerant_of_rested {P : Controller → Prop} (hP : ∀ w w', Rested w w' → P w.c → P w'.c) :
    Tolerant (fun w => Mirrored w.c ∧ P w.c) fun _ _ => True :=
  fun hx w hw => ⟨⟨(hx w hw.1).1, hP w _ (rested_of_reach (hx w hw.1).2) hw.2⟩, .single trivial⟩

/-- What keeps the status current, with the invariant. -/
abbrev KeepsCurrent (x : Ctl α) : Prop :=
  Preserves (fun w => Mirrored w.c ∧ Current w.c) x

theorem current_tolerant : Tolerant (fun w => Mirrored w.c ∧ Current w.c) fun _ _ => True :=
  tolerant_of_rested fun _ _ hr h => h.rested hr

/-! ## Updates -/

theorem setCheckpoint_current {P : World → Prop} {s : Option String}
    (hP : ∀ w, P w → Mirrored w.c ∧ Counted w.c ∧ (s ≠ none →
      countRW w.c.replicas = w.c.replicationFactor)) :
    Triple P (modify fun w => w.setC fun c => { c with checkpoint := s })
      fun _ w => Mirrored w.c ∧ Current w.c := by
  refine .modify fun w hw => ?_
  obtain ⟨hmir, hcount, hs⟩ := hP w hw
  exact ⟨⟨hmir.toMatches, hmir.built⟩, ⟨hcount.1, hcount.2, hs⟩⟩

/-- What holds of the controller is kept by requests to the replicas. -/
theorem setCheckpoint_keeps {P : Controller → Prop} (s : Option String) :
    Triple (fun w => P w.c) (Replicator.setCheckpoint s) fun _ w => P w.c := by
  have hrequest : ∀ a, Triple (fun w => P w.c) (request a (Node.setCheckpoint s))
      fun _ w => P w.c := by
    intro a
    refine .bind (Q := fun _ w => P w.c) (fun w hw => hw) fun m =>
      .bind (Q := fun _ w => P w.c) (.modify fun w hw => ?_) fun _ =>
        .pure fun _ => id
    split <;> exact hw
  refine .get fun w hw => .bind (iterate_spec _ w) fun order => .fix ?_
  rintro _ ⟨-, rfl⟩
  have heach := Triple.each (I := fun _ (w : World) => P w.c) []
    fun a (_ : a ∈ w.c.backend.leadingRW order) _ => hrequest a
  refine .bind (heach.pre ?_) fun es => ?_
  · rintro _ rfl
    exact hw
  exact .ite (fun _ => .pure fun _ => id) fun _ =>
    .ite (fun _ => .pure fun _ => id) fun _ => .pure fun _ => id

theorem updateCheckpoint_current :
    Triple (fun w => Mirrored w.c ∧ Counted w.c) updateCheckpoint fun _ w => Mirrored w.c ∧
    Current w.c := by
  -- all replicas are in mode `RW`, and stay so while they are asked
  let Full : Controller → Prop := fun c =>
    Counted c ∧ countRW c.replicas = c.replicationFactor
  have hFull : ∀ w w', Rested w w' → Full w.c → Full w'.c := by
    rintro w w' hr ⟨⟨hcount, hro⟩, hfull⟩
    obtain ⟨hst₁, hst₂, hst₃, -⟩ := hr.status
    refine ⟨⟨?_, ?_⟩, ?_⟩
    · rw [hst₁, hr.replicas, hr.quorumReplicas, hcount]
    · rw [hst₂, hst₃, hr.replicas, hr.quorumReplicas, hr.replicationFactor, hro]
    · rw [hr.replicas, hr.replicationFactor, hfull]
  refine .get fun w hw => .ite (fun hrw => ?_) fun _ => ?_
  · refine .bind
      ((Keeps.triple (tolerant_of_rested hFull Replicator.safe_getLatestSnapshot)).pre ?_)
      fun latest => ?_
    · rintro s rfl
      exact ⟨hw.1, hw.2, hrw⟩
    · cases latest with
      | error e => exact setCheckpoint_current fun w h => ⟨h.1, h.2.1, fun hne => (hne rfl).elim⟩
      | ok s =>
        refine .bind (setCheckpoint_keeps (P := fun c => Mirrored c ∧ Full c) s) fun err => ?_
        exact setCheckpoint_current fun w h => ⟨h.1, h.2.1, fun _ => h.2.2⟩
  · refine setCheckpoint_current ?_
    rintro s rfl
    exact ⟨hw.1, hw.2, fun hne => (hne rfl).elim⟩

theorem updateVolStatus_counted : Triple (fun w => Mirrored w.c) updateVolStatus
    fun _ w => Mirrored w.c ∧ Counted w.c :=
  .modify fun w hw => ⟨⟨hw.toMatches, hw.built⟩, counted_withVolStatus w.c⟩

/-- After an update the status is current. -/
theorem update_current : Triple (fun w => Mirrored w.c) (do updateVolStatus; updateCheckpoint)
    fun _ w => Mirrored w.c ∧ Current w.c :=
  .bind updateVolStatus_counted fun _ => updateCheckpoint_current

theorem update_none_current : Triple (fun w => Mirrored w.c)
    (do updateVolStatus; updateCheckpoint; pure none : Ctl (Option Err))
    fun _ w => Mirrored w.c ∧ Current w.c :=
  .bind updateVolStatus_counted fun _ => .bind updateCheckpoint_current
    fun _ => .pure fun _ => id

/-! ## Removal -/

/-- The status is current, or one of the replicas `as` is still to be removed. -/
def Pending (as : List Address) (w : World) : Prop :=
  Mirrored w.c ∧ (Current w.c ∨ ∃ a ∈ as, w.c.hasReplica a = true)

theorem removeReplicaNoLock_pending (a : Address) (as : List Address) :
    Triple (Pending (a :: as)) (removeReplicaNoLock a) fun _ => Pending as := by
  refine .get fun w hw => .ite (fun _ => ?_) fun hnot => .pure ?_
  · -- the replica is there, and its removal ends with an update
    refine .bind (removeData_spec w hw.1 a) fun _ => .fix fun w₁ h₁ => ?_
    refine .bind (removeQuorum_spec w₁ h₁.mirrored a) fun _ => .fix fun w₂ h₂ => ?_
    refine update_current.consequence ?_ fun _ w₃ h₃ => ⟨h₃.1, .inl h₃.2⟩
    rintro s rfl
    exact h₂.mirrored
  · rintro s rfl
    refine ⟨hw.1, hw.2.imp_right ?_⟩
    rintro ⟨b, hb, hhas⟩
    refine ⟨b, (List.mem_cons.1 hb).resolve_left fun hba => hnot (hba ▸ hhas), hhas⟩

theorem Pending.nil : Pending [] w ↔ Mirrored w.c ∧ Current w.c := by
  simp [Pending]

theorem keepsCurrent_removeReplicaNoLock (a : Address) : KeepsCurrent (removeReplicaNoLock a) :=
  ((removeReplicaNoLock_pending a []).consequence (fun _ h => ⟨h.1, .inl h.2⟩)
    fun _ _ => Pending.nil.1).preserves

theorem forM_removeReplicaNoLock : ∀ as : List Address,
    Triple (Pending as) (List.forM as removeReplicaNoLock) fun _ w => Mirrored w.c ∧ Current w.c
  | [] => .pure fun _ => Pending.nil.1
  | a :: as => .bind (removeReplicaNoLock_pending a as) fun _ => forM_removeReplicaNoLock as

theorem hasReplica_setEntries
    (h : Edited (setEntries a m w.c.replicas) (setEntries a m w.c.quorumReplicas) w w')
    (x : Address) : w'.c.hasReplica x = w.c.hasReplica x := by
  rw [Bool.eq_iff_iff, hasReplica_eq_true, hasReplica_eq_true, h.replicas, h.quorumReplicas,
    List.map_append, map_address_setEntries, map_address_setEntries, ← List.map_append]

/-- To set a mode that changes no count keeps the status current. -/
theorem Current.edited (h : Current w.c) (he : Edited rs qs w w')
    (hrs : countRW rs = countRW w.c.replicas) (hqs : countRW qs = countRW w.c.quorumReplicas) :
    Current w'.c :=
  h.of_counts (by rw [he.replicas, hrs]) (by rw [he.quorumReplicas,
    hqs]) he.replicationFactor he.status

theorem setErr_pending {as : List Address} (ha : a ∈ as) :
    Triple (Pending as) (setReplicaModeNoLock a .err) fun _ => Pending as := by
  rintro w ⟨hmir, hw⟩
  have he := setReplicaModeNoLock_edited hmir a (m := .err) (by decide)
  refine ⟨he.mirrored, ?_⟩
  by_cases hhas : w.c.hasReplica a = true
  · exact .inr ⟨a, ha, by rw [hasReplica_setEntries he, hhas]⟩
  · -- the mode of no replica is set
    rcases hw with hcur | ⟨b, hb, hb'⟩
    · rw [hasReplica_eq_true, List.map_append, List.mem_append, not_or] at hhas
      refine .inl (hcur.edited he ?_ ?_)
      · rw [setEntries_eq_self hhas.1]
      · rw [setEntries_eq_self hhas.2]
    · exact .inr ⟨b, hb, by rw [hasReplica_setEntries he, hb']⟩

theorem keepsCurrent_monitoring (a : Address) (err : Bool) :
    KeepsCurrent (Controller.monitoring a err) := by
  cases err with
  | false => exact keepsCurrent_removeReplicaNoLock a
  | true =>
    exact (Triple.bind ((setErr_pending (List.mem_singleton.2 rfl)).pre fun _ h => ⟨h.1, .inl h.2⟩)
      fun _ => (removeReplicaNoLock_pending a []).post fun _ _ => Pending.nil.1).preserves

theorem iterate_pending (as bs : List Address) :
    Triple (Pending as) (iterate bs) fun order w => order.Perm bs ∧ Pending as w :=
  fun w hw => ⟨(w.tape 0).order_perm bs, hw⟩

/-- What the calls for I/O do with an error : the replicas that failed are removed, and the status
is updated. -/
theorem keepsCurrent_handleIOError (err : Err) : KeepsCurrent (handleIOError err) := by
  cases err with
  | msg text => exact .pure _
  | backend errors =>
    refine Triple.preserves ?_
    have hset : Triple (fun w => Mirrored w.c ∧ Current w.c)
        (handleErrorNoLock (some (.backend errors))) fun _ =>
        Pending (errors.map Prod.fst).dedup := by
      cases errors with
      | nil => exact .pure fun w hw => ⟨hw.1, .inl hw.2⟩
      | cons e errors =>
        refine .bind ((iterate_pending ((e :: errors).map Prod.fst).dedup _).pre
          fun w hw => ⟨hw.1, .inl hw.2⟩) fun order => Triple.fix fun w₁ h₁ => ?_
        refine Triple.bind ((Triple.forM fun a ha => setErr_pending (h₁.1.mem_iff.1 ha)).pre ?_)
          fun _ => Triple.get fun w hw => Triple.ite (fun _ => ?_) fun _ => ?_
        · rintro s rfl
          exact h₁.2
        · exact .pure fun s hs => hs ▸ hw
        · exact .pure fun s hs => hs ▸ hw
    refine .bind hset fun errh => .bind ?_ fun _ => .pure fun _ => id
    refine .bind (iterate_pending _ _) fun order => .fix fun w₁ h₁ => ?_
    refine (forM_removeReplicaNoLock order).pre ?_
    rintro s rfl
    refine ⟨h₁.2.1, h₁.2.2.imp_right ?_⟩
    rintro ⟨a, ha, hhas⟩
    exact ⟨a, h₁.1.mem_iff.2 ha, hhas⟩

/-! ## Calls that end with an update -/

theorem keepsCurrent_canAdd (a : Address) : KeepsCurrent (canAdd a) :=
  current_tolerant.canAdd keepsCurrent_removeReplicaNoLock a

/-- A replica in mode `WO` does not count. -/
theorem countRW_append_wo (rs : List ReplicaEntry) (a : Address) :
    countRW (rs ++ [⟨a, .wo⟩]) = countRW rs := by
  simp [countRW]

theorem keepsCurrent_attach (w : World) (hw : Mirrored w.c ∧ Current w.c)
    (hnew : a ∉ (w.c.replicas ++ w.c.quorumReplicas).map ReplicaEntry.address)
    (hwo : ∀ r ∈ w.c.replicas, r.mode ≠ .wo) :
    Triple (fun s => s = w) (attach a) fun _ s => Mirrored s.c ∧ Current s.c := by
  refine (attach_spec w hw.1 hnew hwo).post fun err w' h => ⟨h.mirrored, ?_⟩
  have hreach := h.reach { adds := fun x => x = a } rfl
  refine hw.2.of_counts ?_ ?_ (replicationFactor_of_reach hreach)
    (sameStatus_of_reach (fun h => h.elim id id) hreach)
  · by_cases he : err = none
    · rw [h.added he, countRW_append_wo]
    · rw [h.failed he]
  · rw [h.quorumReplicas]

/-- What only sends requests. -/
theorem keepsCurrent_of_sends {α : Type} {x : Ctl α} (hx : Safe { sends := p } x) :
    KeepsCurrent x := by
  refine fun w hw => ⟨⟨(hx w hw.1).1, hw.2.of_reach ?_ (fun h => h.elim id id) (hx w hw.1).2⟩,
    .single trivial⟩
  exact ⟨id, fun _ => id, fun _ => id, fun _ _ => id, id⟩

theorem keepsCurrent_addReplicaNoLock (a : Address) (uuid : String) :
    KeepsCurrent (addReplicaNoLock a (some uuid)) := by
  refine Triple.preserves (.fix fun w hw => ?_)
  refine .bind (((canAdd_spec w hw.1 a).and (keepsCurrent_canAdd a).triple).pre ?_) fun err =>
    .fix fun w₁ h₁ => ?_
  · rintro s rfl
    exact ⟨rfl, hw⟩
  obtain ⟨⟨hmir₁, -, hcan⟩, hcur₁⟩ := h₁
  cases err with
  | some err => exact .pure fun s hs => hs ▸ hcur₁
  | none =>
    have hsends :=
      safe_snapshotToAdd (S := { sends := fun _ f => f = Node.snapshot uuid }) a fun _ => rfl
    have hlists := snapshotToAdd_lists hmir₁ a uuid
    refine .bind (((keepsCurrent_of_sends hsends).triple.and hlists).pre ?_) fun err =>
      .fix fun w₂ h₂ => ?_
    · rintro s rfl
      exact ⟨hcur₁, rfl⟩
    obtain ⟨hcur₂, -, hrs, hqs⟩ := h₂
    cases err with
    | some err => exact .pure fun s hs => hs ▸ hcur₂
    | none =>
      refine keepsCurrent_attach w₂ hcur₂ ?_ ?_
      · rw [hrs, hqs]
        exact (hcan rfl).not_mem
      · rw [hrs]
        exact (hcan rfl).no_wo

theorem keepsCurrent_update :
    KeepsCurrent (do updateVolStatus; updateCheckpoint; pure none : Ctl (Option Err)) :=
  (update_none_current.pre fun _ h => h.1).preserves

theorem keepsCurrent_addReplicaCommit (a : Address) (uuid : String) :
    KeepsCurrent (addReplicaCommit a uuid) := by
  refine .bind (keepsCurrent_addReplicaNoLock a uuid) fun err => ?_
  cases err with
  | some err => exact .pure _
  | none => exact keepsCurrent_update

theorem keepsCurrent_promote (a rwReplica : Address) : KeepsCurrent (promote a rwReplica) := by
  refine .bind (current_tolerant (Replicator.safe_getRevisionCounter _)) fun res =>
    .ite (fun _ => .pure _) fun _ =>
      .bind (current_tolerant (Replicator.safe_setReplicaMode a .rw)) fun err => ?_
  cases err with
  | some e => exact .pure _
  | none =>
    refine .bind (current_tolerant (Replicator.safe_setRevisionCounter a res.1)) fun err => ?_
    cases err with
    | some e => exact .pure _
    | none =>
      refine Triple.preserves (.bind (Q := fun _ w => Mirrored w.c) (fun w hw => ?_) fun _ =>
        .bind (.modify fun w hw => ?_) fun _ => update_none_current)
      · exact (setReplicaModeNoLock_edited hw.1 a (by decide)).mirrored
      · exact ⟨hw.toMatches, hw.built⟩

/-! ## Start -/

/-- The status of a volume without replicas in mode `RW`. -/
structure Idle (c : Controller) : Prop where
  count : c.rwReplicaCount = 0
  readOnly : c.readOnly = true
  checkpoint : c.checkpoint ≠ none → c.replicationFactor = 0

theorem Idle.current (h : Idle c) (hrs : countRW c.replicas = 0)
    (hqs : countRW c.quorumReplicas = 0) : Current c where
  count := by rw [h.count, hrs, hqs]
  readOnly := by simp [h.readOnly, hrs, hqs]
  checkpoint := fun hc => by rw [hrs, h.checkpoint hc]

theorem Current.idle (h : Current c) (hrs : countRW c.replicas = 0)
    (hqs : countRW c.quorumReplicas = 0) : Idle c where
  count := by rw [h.count, hrs, hqs]
  readOnly := by
    have := h.readOnly
    rw [hrs, hqs] at this
    simpa using this
  checkpoint := fun hc => by rw [← h.checkpoint hc, hrs]

theorem Idle.same {c' : Controller} (h : Idle c) (hst : SameStatus c c')
    (hrf : c'.replicationFactor = c.replicationFactor) : Idle c' := by
  obtain ⟨hcount, hro, -, hcp⟩ := hst
  exact ⟨by rw [hcount, h.count], by rw [hro, h.readOnly], by rw [hcp, hrf]; exact h.checkpoint⟩

/-- While `Start` adds replicas the status is still that of a volume without any, or was updated, or
a replica is in mode `RW`. -/
def Starting (w : World) : Prop :=
  Mirrored w.c ∧ w.c.quorumReplicas = [] ∧
    (Idle w.c ∨ Current w.c ∨ countRW w.c.replicas ≠ 0)

theorem Starting.same (h : Starting w) (hmir : Mirrored w'.c)
    (hrs : countRW w'.c.replicas = countRW w.c.replicas)
    (hqs : w'.c.quorumReplicas = w.c.quorumReplicas) (hst : SameStatus w.c w'.c)
    (hrf : w'.c.replicationFactor = w.c.replicationFactor) : Starting w' := by
  refine ⟨hmir, hqs.trans h.2.1, ?_⟩
  rcases h.2.2 with hidle | hcur | hrw
  · exact .inl (hidle.same hst hrf)
  · exact .inr (.inl (hcur.of_counts hrs (by rw [hqs]) hrf hst))
  · exact .inr (.inr (by rwa [hrs]))

theorem starting_tolerant : Tolerant Starting fun _ _ => True := by
  intro α x hx w hw
  have hr := rested_of_reach (hx w hw.1).2
  exact ⟨hw.same (hx w hw.1).1 (by rw [hr.replicas]) hr.quorumReplicas hr.status
    hr.replicationFactor, .single trivial⟩

theorem starting_removeReplicaNoLock (a : Address) :
    Preserves Starting (removeReplicaNoLock a) := by
  refine Triple.preserves (.fix fun w hw => ?_)
  by_cases hhas : w.c.hasReplica a = true
  · rintro s rfl
    have hleaves := removeReplicaNoLock_spec s hw.1 a s rfl
    have hcur := removeReplicaNoLock_pending a [] s ⟨hw.1, .inr ⟨a, List.mem_cons_self, hhas⟩⟩
    refine ⟨hleaves.mirrored, ?_, .inr (.inl (Pending.nil.1 hcur).2)⟩
    rw [hleaves.quorumReplicas, hw.2.1]
    rfl
  · refine .get ?_
    rintro s rfl
    exact .ite (fun h => (hhas h).elim) fun _ => .pure fun t ht => ht ▸ hw

theorem starting_attach (w : World) (hw : Starting w)
    (hnew : a ∉ (w.c.replicas ++ w.c.quorumReplicas).map ReplicaEntry.address)
    (hwo : ∀ r ∈ w.c.replicas, r.mode ≠ .wo) :
    Triple (fun s => s = w) (attach a) fun err s => Starting s ∧
    (err = none → ⟨a, .wo⟩ ∈ s.c.replicas) := by
  refine (attach_spec w hw.1 hnew hwo).post fun err w' h => ?_
  have hreach := h.reach { adds := fun x => x = a } rfl
  refine ⟨hw.same h.mirrored ?_ h.quorumReplicas
    (sameStatus_of_reach (fun h => h.elim id id) hreach) (replicationFactor_of_reach hreach),
    fun he => ?_⟩
  · by_cases he : err = none
    · rw [h.added he, countRW_append_wo]
    · rw [h.failed he]
  · rw [h.added he]
    simp

theorem starting_addReplicaNoLock (a : Address) :
    Triple Starting (addReplicaNoLock a none) fun err s =>
      Starting s ∧ (err = none → ⟨a, .wo⟩ ∈ s.c.replicas) := by
  refine .fix fun w hw => ?_
  refine .bind (((canAdd_spec w hw.1 a).and
    (Keeps.triple (starting_tolerant.canAdd starting_removeReplicaNoLock a))).pre ?_) fun err =>
    .fix fun w₁ h₁ => ?_
  · rintro s rfl
    exact ⟨rfl, hw⟩
  obtain ⟨⟨-, -, hcan⟩, hst⟩ := h₁
  cases err with
  | some err => exact .pure fun s hs => ⟨hs ▸ hst, nofun⟩
  | none => exact starting_attach w₁ hst (hcan rfl).not_mem (hcan rfl).no_wo

theorem starting_failStart (a : Address) (err : Err) : Preserves Starting (failStart a err) :=
  starting_tolerant (safe_failStart a err)

/-- The replica at `a` is among those that `Start` has added. -/
theorem added_tolerant :
    Tolerant (fun w => Starting w ∧ ⟨a, .wo⟩ ∈ w.c.replicas) fun _ _ => True := by
  rintro α x hx w ⟨hw, ha⟩
  refine ⟨⟨(starting_tolerant hx w hw).1, ?_⟩, .single trivial⟩
  rwa [(rested_of_reach (hx w hw.1).2).replicas]

theorem countRW_pos_of_setEntries (h : ⟨a, .wo⟩ ∈ rs) : countRW (setEntries a .rw rs) ≠ 0 := by
  refine fun h0 => List.countP_eq_zero.1 h0 ⟨a, .rw⟩ ?_ (by simp)
  exact List.mem_map.2 ⟨⟨a, .wo⟩, h, by simp⟩

theorem starting_finishStart (a : Address) :
    Triple (fun w => Starting w ∧ ⟨a, .wo⟩ ∈ w.c.replicas) (finishStart a) fun _ => Starting := by
  have hundo : ∀ err, Triple (fun w => Starting w ∧ ⟨a, .wo⟩ ∈ w.c.replicas) (undoStart a err)
      fun _ => Starting :=
    fun err => .bind ((starting_removeReplicaNoLock a).triple.pre fun _ h => h.1) fun _ =>
      .pure fun _ => id
  refine .bind (Keeps.triple (added_tolerant (Replicator.safe_getCloneStatus a))) fun status => ?_
  match status with
  | .error e => exact hundo _
  | .ok false => exact hundo _
  | .ok true =>
    refine .bind (Keeps.triple (added_tolerant (Replicator.safe_setReplicaMode a .rw)))
      fun err => ?_
    cases err with
    | some e => exact hundo _
    | none =>
      refine .bind (Q := fun _ => Starting) ?_ fun _ => .pure fun _ => id
      rintro w ⟨hw, ha⟩
      have he := setReplicaModeNoLock_edited hw.1 a (m := .rw) (by decide)
      refine ⟨he.mirrored, ?_, .inr (.inr ?_)⟩
      · rw [he.quorumReplicas, hw.2.1]
        rfl
      · rw [he.replicas]
        exact countRW_pos_of_setEntries ha

theorem starting_takeSize (newSize newSectorSize : ℤ) :
    Triple Starting (modify fun w => w.setC (takeSize newSize newSectorSize)) fun _ =>
    Starting := by
  intro w hw
  have hmir := (safe_takeSize (S := { resizes := True }) trivial newSize newSectorSize w hw.1).1
  by_cases h : w.c.size = maxInt64
  · have htake : takeSize newSize newSectorSize w.c =
        { w.c with size := newSize, sectorSize := newSectorSize } := if_pos h
    have hc : ((modify fun w => w.setC (takeSize newSize newSectorSize) : Ctl Unit).run w).2.c =
        { w.c with size := newSize, sectorSize := newSectorSize } := htake
    refine hw.same hmir ?_ ?_ ?_ ?_ <;> rw [hc]
    exact ⟨rfl, rfl, rfl, rfl⟩
  · have hc : ((modify fun w => w.setC (takeSize newSize newSectorSize) : Ctl Unit).run w).2.c =
      w.c := if_neg h
    refine hw.same hmir ?_ ?_ ?_ ?_ <;> rw [hc]
    exact ⟨rfl, rfl, rfl, rfl⟩

theorem starting_addSized (a : Address) (n m : ℤ) : Preserves Starting (addSized a n m) := by
  have hfail : ∀ err w, Starting w → Triple (fun s => s = w) (failStart a err) fun _ => Starting :=
    fun err w hw => (starting_failStart a err).triple.pre fun s hs => hs ▸ hw
  refine Triple.preserves (.bind (starting_takeSize n m) fun _ => .get fun w hw => ?_)
  refine .ite (fun _ => hfail _ w hw) fun _ => .ite (fun _ => hfail _ w hw) fun _ => ?_
  refine .bind ((starting_addReplicaNoLock a).pre fun s hs => hs ▸ hw) fun err => ?_
  cases err with
  | some err => exact (starting_failStart a err).triple.pre fun _ h => h.1
  | none => exact (starting_finishStart a).pre fun _ h => ⟨h.1, h.2 rfl⟩

theorem starting_addAllDuringStart (as : List Address) :
    Preserves Starting (addAllDuringStart as) :=
  Tolerant.addAllDuringStart fun a _ => starting_tolerant.addReplicaDuringStartNoLock
    (starting_addSized a)

/-- `Start` ends with an update, or with an error. -/
theorem startAll_current (as : List Address) :
    Triple Starting (startAll as) fun err w =>
      (err = none → Mirrored w.c ∧ Current w.c) ∧ (err ≠ none → Starting w) := by
  refine .bind (starting_addAllDuringStart as).triple fun err => ?_
  cases err with
  | some err => exact .pure fun w hw => ⟨nofun, fun _ => hw⟩
  | none =>
    refine .get fun w hw => ?_
    refine .bind ((Keeps.triple (starting_tolerant (safe_revisionCounters _))).pre
      fun s hs => hs ▸ hw) fun counters => ?_
    cases counters with
    | error e => exact .pure fun w hw => ⟨nofun, fun _ => hw⟩
    | ok counters =>
      refine .bind (Q := fun _ w => Mirrored w.c) (fun w hw => hw.1) fun order => ?_
      refine .bind (.forM fun a _ w hw => ?_) fun _ => ?_
      · exact (setReplicaModeNoLock_edited hw a (by decide)).mirrored
      · refine .bind updateVolStatus_counted fun _ => .bind updateCheckpoint_current
          fun _ => .pure fun w hw => ⟨fun _ => hw, fun herr => (herr rfl).elim⟩

/-- `Start` keeps the status current if it returns no error or leaves no replica in mode `RW`. -/
theorem start_current (w : World) (hw : Mirrored w.c ∧ Current w.c)
    (hquorum : countRW w.c.quorumReplicas = 0) (as : List Address) :
    Triple (fun s => s = w) (Controller.start as) fun err s =>
      err = none ∨ countRW s.c.replicas = 0 → Mirrored s.c ∧ Current s.c := by
  refine .get ?_
  rintro w rfl
  cases as with
  | nil => exact .pure fun s hs _ => hs ▸ hw
  | cons a as =>
    refine .ite (fun _ => .pure fun s hs _ => hs ▸ hw) fun hlen =>
      .ite (fun _ => .pure fun s hs _ => hs ▸ hw) fun _ => ?_
    have hnil : w.c.replicas = [] := by simpa using hlen
    have hidle := hw.2.idle (by rw [hnil]; rfl) hquorum
    refine .bind (Q := fun _ => Starting) (.modify ?_) fun _ => ?_
    · rintro s rfl
      have hreset := (safe_shutdownBackend (S := { resets := True }) trivial s hw.1).1
      refine ⟨⟨hreset.toMatches, hreset.built⟩, rfl, .inl ?_⟩
      exact hidle.same ⟨rfl, rfl, rfl, rfl⟩ rfl
    · refine .bind (startAll_current (a :: as)) fun err => .fix fun w₁ h₁ => ?_
      refine .bind (Q := fun _ s => err = none ∨ countRW s.c.replicas = 0 →
        Mirrored s.c ∧ Current s.c) ?_ fun _ => .pure fun _ => id
      rintro s rfl hend
      by_cases herr : err = none
      · exact (current_tolerant safe_startFrontend s (h₁.1 herr)).1
      · have hst := (starting_tolerant safe_startFrontend s (h₁.2 herr)).1
        have hrs := hend.resolve_left herr
        have hqs : countRW ((startFrontend).run s).2.c.quorumReplicas = 0 := by
          rw [hst.2.1]
          rfl
        rcases hst.2.2 with hidle | hcur | hrw
        · exact ⟨hst.1, hidle.current hrs hqs⟩
        · exact ⟨hst.1, hcur⟩
        · exact (hrw hrs).elim

/-! ## Modes that do not count -/

/-- To set the mode `m` at `a` changes no count. -/
def Uncounted (a : Address) (m : BackendMode) (rs : List ReplicaEntry) : Prop :=
  (m = .rw → ⟨a, .wo⟩ ∉ rs) ∧ (m = .err → ⟨a, .rw⟩ ∉ rs)

theorem countRW_setEntries (hm : m ≠ .wo)
    (h : Uncounted a m rs) : countRW (setEntries a m rs) = countRW rs := by
  rw [countRW, countRW, setEntries, List.countP_map]
  refine List.countP_congr fun r hr => ?_
  obtain ⟨x, mode⟩ := r
  by_cases hx : x = a ∧ mode ≠ .err
  · obtain ⟨rfl, herr⟩ := hx
    have hnot := h.1
    have hnot' := h.2
    cases m with
    | wo => exact (hm rfl).elim
    | rw =>
      cases mode with
      | wo => exact (hnot rfl hr).elim
      | rw => simp
      | err => exact (herr rfl).elim
    | err =>
      cases mode with
      | wo => simp
      | rw => exact (hnot' rfl hr).elim
      | err => exact (herr rfl).elim
  · simp [hx]

theorem Uncounted.left (h : Uncounted a m (rs ++ qs)) : Uncounted a m rs :=
  ⟨fun hm hr => h.1 hm (List.mem_append_left _ hr), fun hm hr => h.2 hm (List.mem_append_left _ hr)⟩

theorem Uncounted.right (h : Uncounted a m (rs ++ qs)) : Uncounted a m qs :=
  ⟨fun hm hr => h.1 hm (List.mem_append_right _ hr),
    fun hm hr => h.2 hm (List.mem_append_right _ hr)⟩

theorem setReplicaModeNoLock_current (hw : Mirrored w.c ∧ Current w.c) (hm : m ≠ .wo)
    (h : Uncounted a m (w.c.replicas ++ w.c.quorumReplicas)) :
    Mirrored ((setReplicaModeNoLock a m).run w).2.c ∧
    Current ((setReplicaModeNoLock a m).run w).2.c := by
  have he := setReplicaModeNoLock_edited hw.1 a hm
  exact ⟨he.mirrored, hw.2.edited he (countRW_setEntries hm h.left) (countRW_setEntries hm h.right)⟩

/-- To set a replica to mode `ERR` puts none in mode `RW`. -/
theorem rw_of_setErr (hw : Mirrored w.c) {x : Address}
    (h : ⟨x, .rw⟩ ∈ ((setReplicaModeNoLock a .err).run w).2.c.replicas ++
      ((setReplicaModeNoLock a .err).run w).2.c.quorumReplicas) :
    ⟨x, .rw⟩ ∈ w.c.replicas ++ w.c.quorumReplicas := by
  have he := setReplicaModeNoLock_edited hw a (m := .err) (by decide)
  rw [he.replicas, he.quorumReplicas, ← setEntries_append] at h
  rcases mem_setEntries h with ⟨hr, -⟩ | ⟨hx, -⟩
  · exact hr
  · exact nomatch (ReplicaEntry.mk.inj hx).2

/-- None of the replicas `as` is in mode `RW`. -/
def SparesRW (c : Controller) (as : List Address) : Prop :=
  ∀ a ∈ as, ⟨a, .rw⟩ ∉ c.replicas ++ c.quorumReplicas

instance (c : Controller) (as : List Address) : Decidable (SparesRW c as) :=
  inferInstanceAs (Decidable (∀ a ∈ _, _))

theorem handleErrorNoLock_current (err : Option Err) :
    Triple (fun w => (Mirrored w.c ∧ Current w.c) ∧ SparesRW w.c (failedReplicas err))
      (handleErrorNoLock err) fun _ w => Mirrored w.c ∧ Current w.c := by
  unfold handleErrorNoLock
  split
  case h_2 => exact .pure fun w hw => hw.1
  case h_1 e errors =>
    let I : World → Prop := fun w =>
      (Mirrored w.c ∧ Current w.c) ∧ SparesRW w.c (failedReplicas (some (.backend (e :: errors))))
    refine .bind (Q := fun order w => order.Perm ((e :: errors).map Prod.fst).dedup ∧ I w)
      (fun w hw => ⟨(w.tape 0).order_perm _, hw⟩) fun order => .fix fun w₁ h₁ => ?_
    refine Triple.bind (Q := fun _ => I)
      ((Triple.forM (I := I) fun a ha w hw => ?_).pre ?_) fun _ =>
      .get fun w hw => Triple.ite (fun _ => Triple.pure fun s hs => hs ▸ hw.1)
        fun _ => Triple.pure fun s hs => hs ▸ hw.1
    · have hmem : a ∈ (e :: errors).map Prod.fst := List.mem_dedup.1 (h₁.1.mem_iff.1 ha)
      refine ⟨setReplicaModeNoLock_current hw.1 (by decide) ⟨nofun, fun _ => hw.2 a hmem⟩, ?_⟩
      exact fun x hx hrw => hw.2 x hx (rw_of_setErr hw.1.1 hrw)
    · rintro s rfl
      exact h₁.2

theorem lists_of_sends {α : Type} {x : Ctl α} (hx : Safe { sends := p } x) (hw : Mirrored w.c) :
    (x.run w).2.c.replicas = w.c.replicas ∧ (x.run w).2.c.quorumReplicas = w.c.quorumReplicas :=
  lists_of_reach ⟨id, fun _ => id, fun _ => id, fun _ _ => id, id⟩ (hx w hw).2

/-- A request to the backends, with the error handler after it. -/
theorem handleFanOut_current {admits : Node → Bool} {f : Node → Node}
    (hw : Mirrored w.c ∧ Current w.c) (h : SparesRW w.c (refusers admits w)) :
    Triple (fun s => s = w) (do let err ← Replicator.fanOut admits f; handleErrorNoLock err)
      fun _ s => Mirrored s.c ∧ Current s.c := by
  refine .bind (fanOut_spec admits f w) fun err => .fix fun w₁ h₁ => ?_
  refine (handleErrorNoLock_current err).pre ?_
  rintro s rfl
  rw [h₁.c]
  exact ⟨hw, fun a ha => h a (h₁.failed.mem_iff.1 ha)⟩

/-- The backends that answer to `Snapshot` with an error, if they are asked. -/
def snapshotRefusers (name uuid : String) (w : World) : List Address :=
  match (snapshotName name uuid).run w with
  | (.error _, _) => []
  | (.ok name, w') => refusers (Node.lacks name) w'

theorem snapshot_current (hw : Mirrored w.c ∧ Current w.c) {uuid : String}
    (h : SparesRW w.c (snapshotRefusers name uuid w)) :
    Triple (fun s => s = w) (Controller.snapshot name uuid) fun _ s =>
      Mirrored s.c ∧ Current s.c := by
  refine .bind (Triple.result w) fun res => .fix fun w₁ h₁ => ?_
  have hcur := (current_tolerant (safe_snapshotName name uuid) w hw).1
  have hrest := rested_of_reach (safe_snapshotName name uuid (S := .still) w hw.1).2
  rw [snapshotRefusers, h₁] at h
  rw [h₁] at hcur hrest
  cases res with
  | error err => exact .pure fun s hs => hs ▸ hcur
  | ok name =>
    refine handleFanOut_current hcur ?_
    rw [SparesRW, hrest.replicas, hrest.quorumReplicas]
    exact h

theorem keepsCurrent_resizeFrontend (n : ℤ) : KeepsCurrent (resizeFrontend n) := by
  intro w hw
  have h := safe_resizeFrontend (S := { resizes := True }) trivial n w hw.1
  exact ⟨⟨h.1, hw.2.of_reach ⟨id, fun _ => id, fun _ => id, fun _ _ => id, id⟩
    (fun h => h.elim id id) h.2⟩, .single trivial⟩

theorem resize_current (hw : Mirrored w.c ∧ Current w.c) (name : String)
    (sizeInBytes : Except String ℤ)
    (h : name = w.c.name → ∀ n, sizeInBytes = .ok n → w.c.size < n →
      SparesRW w.c (refusers (fun _ => true) w)) :
    Triple (fun s => s = w) (Controller.resize name sizeInBytes) fun _ s =>
      Mirrored s.c ∧ Current s.c := by
  refine .get ?_
  rintro w rfl
  refine .ite (fun _ => .pure fun s hs => hs ▸ hw) fun hname => ?_
  cases sizeInBytes with
  | error e => exact .pure fun s hs => hs ▸ hw
  | ok n =>
    refine .ite (fun _ => .pure fun s hs => hs ▸ hw) fun hlt =>
      .ite (fun _ => .pure fun s hs => hs ▸ hw) fun hne => ?_
    have hspares := h (not_not.1 hname) n rfl (by omega)
    refine Triple.bind₂ (handleFanOut_current hw hspares) fun err => ?_
    cases err with
    | some e => exact .pure fun _ => id
    | none => exact (keepsCurrent_resizeFrontend n).triple

/-! ## Revert -/

/-- The replicas that `Revert` asks, and whether each was a success. -/
def revertResults (clients : List Address) (name : String) : Ctl (List (Address × Bool)) := do
  let order ← iterate clients
  let results ← each (revertOne name) order
  pure (order.zip results)

/-- Only replicas that are not in mode `RW` fail. -/
def FailuresSpareRW (c : Controller) (results : List (Address × Bool)) : Prop :=
  ∀ p ∈ results, p.2 = false → ⟨p.1, .rw⟩ ∉ c.replicas ++ c.quorumReplicas

instance (c : Controller) (results : List (Address × Bool)) :
    Decidable (FailuresSpareRW c results) :=
  inferInstanceAs (Decidable (∀ p ∈ _, _))

theorem revertOne_current (hw : Mirrored w.c ∧ Current w.c)
    (h : ((revertOne name a).run w).1 = false → ⟨a, .rw⟩ ∉ w.c.replicas ++ w.c.quorumReplicas) :
    Triple (fun s => s = w) (revertOne name a) fun _ s => (Mirrored s.c ∧ Current s.c) ∧
      ∀ x, ⟨x, .rw⟩ ∈ s.c.replicas ++ s.c.quorumReplicas →
      ⟨x, .rw⟩ ∈ w.c.replicas ++ w.c.quorumReplicas := by
  have hx := safe_requestIf (S := { sends := fun _ f => f = Node.revert name }) a
    (fun n => !n.lacks name) (f := Node.revert name) (.inr rfl) (Node.checkpoint_revert name)
  have hcur := (keepsCurrent_of_sends hx w hw).1
  have hlists := lists_of_sends hx hw.1
  refine .bind (Triple.result w) fun err => .fix fun w₁ h₁ => ?_
  rw [revertOne, run_bind h₁] at h
  rw [h₁] at hcur hlists
  cases err with
  | none =>
    refine .pure ?_
    rintro s rfl
    exact ⟨hcur, fun x hx => by rwa [hlists.1, hlists.2] at hx⟩
  | some e =>
    have hnot := h rfl
    rw [← hlists.1, ← hlists.2] at hnot
    refine .bind (Triple.result w₁) fun _ => .pure fun s hs => ?_
    have hset := setReplicaModeNoLock_current hcur (m := .err) (by decide) ⟨nofun, fun _ => hnot⟩
    have hrw := fun x => rw_of_setErr hcur.1 (a := a) (x := x)
    rw [hs] at hset hrw
    rw [← hlists.1, ← hlists.2]
    exact ⟨hset, hrw⟩

theorem each_revertOne_current : ∀ (as : List Address) {w : World},
    Mirrored w.c ∧ Current w.c →
    FailuresSpareRW w.c (as.zip ((each (revertOne name) as).run w).1) →
    Mirrored ((each (revertOne name) as).run w).2.c ∧ Current ((each (revertOne name) as).run w).2.c
  | [], _, hw, _ => hw
  | a :: as, w, hw, h => by
    have hone := revertOne_current hw (h (a, ((revertOne name a).run w).1) List.mem_cons_self) w rfl
    refine each_revertOne_current as hone.1 fun p hp hf hrw => ?_
    exact h p (List.mem_cons_of_mem _ hp) hf (hone.2 _ hrw)

theorem revertCommit_current (hw : Mirrored w.c ∧ Current w.c) {clients : List Address}
    (h : FailuresSpareRW w.c ((revertResults clients name).run w).1) :
    Triple (fun s => s = w) (Controller.revertCommit clients name) fun _ s => Mirrored s.c ∧
    Current s.c := by
  refine .bind (Q := fun order s => order = (w.tape 0).order clients ∧ s = w.advance) ?_
    fun order => .fix ?_
  · rintro s rfl
    exact ⟨rfl, rfl⟩
  rintro w₁ ⟨rfl, rfl⟩
  have heach := each_revertOne_current ((w.tape 0).order clients) (w := w.advance) hw h
  refine .bind (Q := fun _ s => Mirrored s.c ∧ Current s.c) ?_ fun results =>
    .ite (fun _ => ?_) fun _ => .pure fun _ => id
  · rintro s rfl
    exact heach
  · exact .bind (Keeps.triple (current_tolerant safe_startFrontend)) fun _ =>
      .pure fun _ => id

/-! ## Quorum replicas -/

theorem addQuorumReplicaNoLock_current (a : Address) :
    Triple (fun w => Mirrored w.c ∧ Current w.c) (addQuorumReplicaNoLock a)
      fun err w => Mirrored w.c ∧ (err ≠ none → Current w.c) := by
  intro w hw
  refine ⟨(safe_addQuorumReplicaNoLock (S := { drops := True, addsQuorum := fun _ => True })
    trivial trivial w hw.1).1, ?_⟩
  have hcur : Triple (fun w => Mirrored w.c ∧ Current w.c) (addQuorumReplicaNoLock a)
      fun err w => err ≠ none → Current w.c := by
    refine .bind (keepsCurrent_canAdd a).triple fun err => ?_
    cases err with
    | some err => exact .pure fun s hs _ => hs.2
    | none =>
      exact .bind (Q := fun _ _ => True) (fun _ _ => trivial) fun _ =>
        .bind (Q := fun _ _ => True) (fun _ _ => trivial) fun _ =>
          .pure fun s _ h => (h rfl).elim
  exact hcur w hw

theorem initQuorumReplica_current (a : Address) :
    Triple (fun w => Mirrored w.c) (initQuorumReplica a) fun err w => err = none → Current w.c := by
  refine .bind (Replicator.safe_setRebuilding (S := .still) a).triple fun err => ?_
  cases err with
  | some e => exact .pure fun _ _ => nofun
  | none =>
    refine .get fun w hw => ?_
    cases w.c.getRWReplica with
    | none => exact .pure fun _ _ => nofun
    | some rwReplica =>
      refine .bind ((safe_copyRevisionCounter (S := .still) a rwReplica).triple.pre
        fun s hs => hs ▸ hw) fun err => ?_
      cases err with
      | some err => exact .pure fun _ _ => nofun
      | none =>
        refine .bind (Replicator.safe_setRebuilding (S := .still) a).triple fun err => ?_
        cases err with
        | some e => exact .pure fun _ _ => nofun
        | none => exact update_none_current.post fun _ _ h _ => h.2

/-- The moments that `AddQuorumBackend` takes for the tables. -/
def quorumTables (a : Address) (w : World) : ℕ :=
  if (w.c.backend.quorumBackends.lookup a).isSome then 0 else 2

/-- A replica in mode `RW` has a revision counter for the quorum replica at `a`, and the four calls
that initialise it have no error. -/
def Initialises (a : Address) (w : World) : Prop :=
  w.c.getRWReplica.any (fun b => (w.nodes b).revisionCounter ≠ -1) = true ∧
    ∀ i < 4, (w.tape (i + quorumTables a w)).reply.err = none

instance (a : Address) (w : World) : Decidable (Initialises a w) :=
  inferInstanceAs (Decidable (_ ∧ _))

theorem getRWReplica_mem {b : Address} (h : c.getRWReplica = some b) : ⟨b, .rw⟩ ∈ c.replicas := by
  obtain ⟨⟨x, m⟩, hr, rfl⟩ := Option.map_eq_some_iff.1 h
  obtain rfl : m = .rw := by simpa using List.find?_some hr
  exact List.mem_reverse.1 (List.mem_of_find?_eq_some hr)

theorem setRebuilding_run {b : BackendWrapper} (h : w.c.backend.quorumBackends.lookup a = some b) :
    (Replicator.setRebuilding a).run w = ((w.tape 0).reply.err, w.advance) := by
  unfold Replicator.setRebuilding
  rw [run_bind (x := get) (s := w) rfl, h]
  cases w.c.backend.backends.lookup a <;> rfl

theorem setQuorumRevisionCounter_run {b : BackendWrapper} {n : ℤ}
    (h : w.c.backend.quorumBackends.lookup a = some b) (hreply : (w.tape 0).reply.err = none) :
    (Replicator.setQuorumRevisionCounter a n).run w =
      (none, w.requested b.backend.name (Node.setRevisionCounter n)) := by
  unfold Replicator.setQuorumRevisionCounter
  rw [run_bind (x := get) (s := w) rfl, h]
  exact congrArg (·, _) hreply

/-- A quorum replica that is in the map is initialised if the calls have no error. -/
theorem initQuorumReplica_ok (hw : Mirrored w.c) {b : Address} {q : BackendWrapper}
    (hq : w.c.backend.quorumBackends.lookup a = some q) (hb : w.c.getRWReplica = some b)
    (hcounter : (w.nodes b).revisionCounter ≠ -1)
    (hfine : ∀ i < 4, (w.tape i).reply.err = none) : ((initQuorumReplica a).run w).1 = none := by
  set n := (w.nodes b).revisionCounter
  set w₃ := w.advance.advance.requested q.backend.name (Node.setRevisionCounter n)
  have hfirst : (Replicator.setRebuilding a).run w = (none, w.advance) := by
    rw [setRebuilding_run hq, hfine 0 (by omega)]
  have hread : (Replicator.getRevisionCounter b).run w.advance =
      ((n, none), w.advance.advance) := by
    have hreply : (w.advance.tape 0).reply.err = none := hfine 1 (by omega)
    rw [getRevisionCounter_run (w := w.advance) hw (getRWReplica_mem hb), hreply]
    rfl
  have hcopy : (copyRevisionCounter a b).run w.advance = (none, w₃) := by
    rw [copyRevisionCounter, run_bind hread, if_neg (by simpa using hcounter),
      run_bind (setQuorumRevisionCounter_run (w := w.advance.advance) hq (hfine 2 (by omega)))]
    rfl
  have hlast : (Replicator.setRebuilding a).run w₃ = (none, w₃.advance) := by
    rw [setRebuilding_run (w := w₃) (by rw [requested_c]; exact hq), requested_tape]
    exact congrArg (·, w₃.advance) (hfine 3 (by omega))
  have hget : w.advance.c.getRWReplica = some b := hb
  unfold initQuorumReplica
  rw [run_bind hfirst]
  dsimp only
  rw [run_bind (x := get) (s := w.advance) rfl, hget]
  dsimp only
  rw [run_bind hcopy]
  dsimp only
  rw [run_bind hlast]
  rfl

theorem addQuorumBackend_listed (a : Address) (w : World) :
    Triple (fun s => s = w) (addQuorumBackend a ⟨a⟩) fun _ s =>
      (∃ q, s.c.backend.quorumBackends.lookup a = some q) ∧ s.c.replicas = w.c.replicas ∧
        s.nodes = w.nodes ∧ ∀ n, s.tape n = w.tape (n + quorumTables a w) := by
  refine .get ?_
  rintro w rfl
  unfold quorumTables
  refine .ite (fun h => .pure ?_) fun h => ?_
  · rintro s rfl
    rw [if_pos h]
    exact ⟨Option.isSome_iff_exists.1 h, rfl, rfl, fun _ => rfl⟩
  · rintro s rfl
    rw [if_neg h]
    exact ⟨⟨_, AList.lookup_insert _⟩, rfl, rfl, fun _ => rfl⟩

/-- A quorum replica that gets into the lists is then initialised. -/
theorem addQuorumReplicaNoLock_initialises
    (h : ((canAdd a).run w).1 = none → Initialises a ((canAdd a).run w).2) :
    Triple (fun s => s = w) (addQuorumReplicaNoLock a) fun err s =>
      err = none → Mirrored s.c → ((initQuorumReplica a).run s).1 = none := by
  refine .bind (Triple.result w) fun err => .fix fun w₁ hrun => ?_
  rw [hrun] at h
  cases err with
  | some err => exact .pure fun _ _ => nofun
  | none =>
    obtain ⟨hrw, hfine⟩ := h rfl
    obtain ⟨b, hb, hcounter⟩ := (Option.any_eq_true ..).1 hrw
    refine .modify_bind (.bind (addQuorumBackend_listed a _) fun _ => .pure ?_)
    rintro s ⟨⟨q, hq⟩, hrs, hnodes, htape⟩ - hmir
    refine initQuorumReplica_ok hmir hq (b := b) ?_ ?_ fun i hi => ?_
    · rw [getRWReplica, hrs]
      exact hb
    · rw [hnodes]
      exact of_decide_eq_true hcounter
    · rw [htape]
      exact hfine i hi

theorem addQuorumReplicaCommit_current (hw : Mirrored w.c ∧ Current w.c)
    (h : ((canAdd a).run w).1 = none → Initialises a ((canAdd a).run w).2) :
    Current ((addQuorumReplicaCommit a).run w).2.c := by
  have hadd := addQuorumReplicaNoLock_current a w hw
  have hinit := addQuorumReplicaNoLock_initialises h w rfl
  cases hrun : (addQuorumReplicaNoLock a).run w with
  | mk err w₁ =>
    rw [hrun] at hadd hinit
    rw [addQuorumReplicaCommit, run_bind hrun]
    cases err with
    | some err => exact hadd.2 nofun
    | none => exact initQuorumReplica_current a w₁ hadd.1 (hinit rfl hadd.1)

/-! ## Runs -/

/-- The operation changes no mode that counts without an update. `w` is the world with the tape of
the step.

* `Start` finds no quorum replica in mode `RW`, and has no error after its first replica.
* `SetReplicaMode` changes the mode of no replica from `WO` to `RW` or from `RW` to `ERR`.
* The replicas that fail in `Snapshot`, `Resize` or `Revert` are not in mode `RW`.
* A quorum replica that can be added is initialised without an error.
* The backend is shut down without replicas in mode `RW`. -/
def Op.Steady (op : Op) (w : World) : Prop :=
  match op with
  | .start as => countRW w.c.quorumReplicas = 0 ∧
      (w.c.replicas = [] → as.head? = some (tcp w.c.maxRevReplica) → StartsWhole as w)
  | .quorumCommit a => ((canAdd a).run w).1 = none → Initialises a ((canAdd a).run w).2
  | .setReplicaMode a mode => Uncounted a mode (w.c.replicas ++ w.c.quorumReplicas)
  | .snapshot name uuid => SparesRW w.c (snapshotRefusers name uuid w)
  | .resize name (.ok n) =>
    name = w.c.name → w.c.size < n → SparesRW w.c (refusers (fun _ => true) w)
  | .revertCommit clients name => FailuresSpareRW w.c ((revertResults clients name).run w).1
  | .shutdownBackend => countRW w.c.replicas = 0 ∧ countRW w.c.quorumReplicas = 0
  | _ => True

instance (op : Op) (w : World) : Decidable (op.Steady w) := by
  apply @Op.casesOn (Decidable <| ·.Steady w) op <;> intros
  case resize name bytes =>
    apply @Except.casesOn _ _ (fun b => Decidable (Op.Steady (.resize name b) w))
      bytes <;> intros <;> unfold Op.Steady <;> infer_instance
  all_goals unfold Op.Steady Uncounted; infer_instance

/-- A step under the lock keeps the status current. -/
theorem act_current (hw : Mirrored w.c ∧ Current w.c) {op : Op} (h : op.Steady w) :
    Current (op.act.run w).2.c := by
  cases op with
  | register r =>
    refine hw.2.of_reach ?_ (fun h => h.elim id id) (safe_act (.register r) w hw.1).2
    exact ⟨id, fun _ => id, fun _ => id, fun _ _ => id, id⟩
  | start as =>
    refine (start_current w hw h.1 as w rfl ((start_settled h.2 w rfl).imp_right fun hnone => ?_)).2
    exact List.countP_eq_zero.2 fun r hr => by simpa using hnone r hr
  | addBegin a => exact (Tolerant.addReplicaBegin (keepsCurrent_canAdd a) w hw).1.2
  | addCommit a uuid => exact (keepsCurrent_addReplicaCommit a uuid w hw).1.2
  | quorumBegin a => exact (keepsCurrent_canAdd a w hw).1.2
  | quorumCommit a => exact addQuorumReplicaCommit_current hw h
  | verifyRebuild a =>
    exact (current_tolerant.verifyRebuildReplica (keepsCurrent_promote a) w hw).1.2
  | setReplicaMode a m =>
    cases m with
    | wo => exact hw.2
    | rw => exact (setReplicaModeNoLock_current hw (by decide) h).2
    | err => exact (setReplicaModeNoLock_current hw (by decide) h).2
  | removeReplica a => exact (keepsCurrent_removeReplicaNoLock a w hw).1.2
  | monitoring a err => exact (keepsCurrent_monitoring a err w hw).1.2
  | writeAt wr =>
    have hsends : Safe { sends := fun _ _ => True } (Replicator.writeAt wr) :=
      Replicator.safe_writeAt (fun _ _ => trivial) wr
    exact (Tolerant.writeAt keepsCurrent_handleIOError (keepsCurrent_of_sends hsends) w hw).1.2
  | readAt off len =>
    exact (Tolerant.readAt keepsCurrent_handleIOError current_tolerant off len w hw).1.2
  | sync =>
    exact (Tolerant.flush keepsCurrent_handleIOError
      (current_tolerant Replicator.safe_sync) _ w hw).1.2
  | unmap =>
    exact (Tolerant.flush keepsCurrent_handleIOError
      (current_tolerant Replicator.safe_unmap) _ w hw).1.2
  | snapshot name uuid => exact (snapshot_current hw h w rfl).2
  | resize name bytes =>
    refine (resize_current hw name bytes ?_ w rfl).2
    rintro hname n rfl
    exact h hname
  | revertCommit clients name => exact (revertCommit_current hw h w rfl).2
  | shutdownBackend =>
    have hidle : Idle w.c.reset := (hw.2.idle h.1 h.2).same ⟨rfl, rfl, rfl, rfl⟩ rfl
    exact hidle.current rfl rfl
  | addFail a => exact hw.2
  | quorumFail a => exact hw.2
  | restart => exact hw.2
  | node a n => exact hw.2
  | revertBegin name => exact (current_tolerant (safe_act (.revertBegin name)) w hw).1.2
  | shutdownFrontend => exact (current_tolerant (safe_act .shutdownFrontend) w hw).1.2
  | snapDeletion b => exact (current_tolerant (safe_act (.snapDeletion b)) w hw).1.2

/-- In a run in which no mode that counts is changed without an update, the status is current in
every state that is reached. -/
theorem status_current (name : String) (rf : ℕ) (nodes : Address → Node)
    (ls : List (Op × (ℕ → Moment))) (s : System)
    (hsteady : Transition.Along System.step (fun s l => l.1.Steady (s.world.onTape l.2))
      (System.new name rf nodes) ls) (h : run System.step (System.new name rf nodes) ls = some s) :
    Current s.world.c := by
  refine (System.run_induction (I := fun s => Current s.world.c) ?_ ?_ ?_ (mirrored_new name rf)
    (current_new name rf) hsteady h).2
  · intro s op tape s' hs hcur hg hop hstep
    rw [System.world_of_step hstep hop]
    exact act_current (w := s.world.onTape tape) ⟨hs, hcur⟩ hg
  · exact fun s _ => current_new _ _
  · exact fun s a n tape hcur _ => hcur

theorem status_current_rebuildOne : ∃ s,
    run System.step (System.new "vol" 2 fun _ => .blank)
      (System.calmly (rebuildOne ++ [.snapshot "s" ""])) = some s ∧
    s.world.c.rwReplicaCount = 2 ∧ s.world.c.checkpoint = some "s1" ∧ Current s.world.c :=
  exists_of_any (p := fun s => s.world.c.rwReplicaCount = 2 ∧ s.world.c.checkpoint = some "s1")
    (by decide +kernel) fun s hs h => ⟨h.1, h.2,
      status_current _ _ _ _ s (along_of_check (by decide +kernel)) hs⟩

/-- One replica is rebuilt, and then a snapshot fails on one of the two. -/
def failedSnapshot : List (Op × (ℕ → Moment)) :=
  System.calmly rebuildOne ++ [(.snapshot "s" "", refuseAt 6)]

/-- One of the two replicas is in mode `ERR`. The status is still that of two replicas in mode
`RW` : writes are accepted and the checkpoint is there. -/
theorem failedSnapshot_stale : ∃ s,
    run System.step (System.new "vol" 2 fun _ => .blank) failedSnapshot = some s ∧
      s.world.c.rwReplicaCount ≠ countRW s.world.c.replicas + countRW s.world.c.quorumReplicas ∧
      ¬(s.world.c.readOnly = false ↔
        (s.world.c.replicationFactor + s.world.c.quorumReplicaCount) / 2 + 1 ≤
          countRW s.world.c.replicas + countRW s.world.c.quorumReplicas) ∧
      ¬(s.world.c.checkpoint ≠ none → countRW s.world.c.replicas = s.world.c.replicationFactor) :=
  exists_of_any (by decide +kernel) fun _ _ => id

end Jiva
