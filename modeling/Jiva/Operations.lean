import Jiva.Membership

/-!
# The operations of the controller keep the mirror

The lemmas of `Membership` put together for each operation. The scope says what is particular to
it : only additions and `Start` add replicas, only a rebuild, `Start` and `SetReplicaMode` set
another mode than `ERR`, only writes, snapshots, `Resize` and `Revert` send requests that are not
quiet, only `Start` and `Resize` set the size, and only registrations send a start signal.
-/

namespace Jiva

open Hoare Controller Relation

variable {S : Scope}

/-- The scope of `Start` with the addresses `as`. -/
structure Scope.Starts (S : Scope) (as : List Address) : Prop where
  drops : S.drops
  adds : ∀ a ∈ as, S.adds a
  sets : ∀ a ∈ as, S.sets a .rw
  resets : S.resets
  resizes : S.resizes

/-- `I` is kept, by steps of `R`, by everything that changes neither the replicas nor the lists, the
size and the status of the controller. -/
def Tolerant (I : World → Prop) (R : World → World → Prop) : Prop :=
  ∀ {β : Type} {x : Ctl β}, Safe .still x → Keeps I R x

theorem tolerant_safe : Tolerant (fun w => Mirrored w.c) (Change S) :=
  fun hx w hw => ⟨(hx w hw).1, ReflTransGen.mono (fun _ _ => Change.of_still) _ _ (hx w hw).2⟩

theorem Controller.safe_failStart (a : Address) (err : Err) : Safe S (failStart a err) := by
  refine .bind (safe_setC fun _ => .of_core rfl (.inr ?_)) fun _ => .pure _
  exact { registered := fun _ _ => lookup_of_erase, leader := fun _ => .inl rfl }

/-! ## What follows from the parts

An operation keeps `I` if those of its parts do that change something. -/

namespace Tolerant

variable {I : World → Prop} {R : World → World → Prop} {a b : Address}

theorem canAdd (hI : Tolerant I R) (hremove : ∀ b, Keeps I R (removeReplicaNoLock b))
    (a : Address) : Keeps I R (canAdd a) := by
  refine .get fun w => .ite (fun _ => .pure _) fun _ => ?_
  cases w.c.hasWOReplica with
  | none => exact hI safe_checkSnapDeletion
  | some woReplica =>
    refine .bind (hI (safe_hasGreaterRevisionCount woReplica a)) fun greater => ?_
    match greater with
    | .error e => exact .pure _
    | .ok false => exact .pure _
    | .ok true => exact .bind (hremove woReplica) fun _ => hI safe_checkSnapDeletion

theorem addReplicaBegin (hcan : Keeps I R (Controller.canAdd a)) :
    Keeps I R (addReplicaBegin a) := by
  refine .bind hcan fun err => ?_
  cases err with
  | some err => exact .pure _
  | none =>
    refine .get fun w => ?_
    split <;> exact .pure _

theorem verifyRebuildWO (hI : Tolerant I R) (hpromote : Keeps I R (promote a b)) :
    Keeps I R (verifyRebuildWO a b) := by
  refine .bind (hI (safe_query _ _)) fun rwChain => ?_
  cases rwChain with
  | error e => exact .pure _
  | ok rwChain =>
    refine .bind (hI (safe_query _ _)) fun chain => ?_
    cases chain with
    | error e => exact .pure _
    | ok chain =>
      refine .bind (hI (safe_query _ _)) fun woCheckpoint => ?_
      cases woCheckpoint with
      | error e => exact .pure _
      | ok woCheckpoint =>
        dsimp only
        split
        · exact .pure _
        · exact hpromote

theorem verifyRebuildReplica (hI : Tolerant I R) (hpromote : ∀ b, Keeps I R (promote a b)) :
    Keeps I R (verifyRebuildReplica a) := by
  refine .get fun w => ?_
  split
  · exact .pure _
  · split
    · exact .pure _
    · exact .pure _
    · exact hI.verifyRebuildWO (hpromote _)

theorem finishStart (hI : Tolerant I R) (hremove : Keeps I R (removeReplicaNoLock a))
    (hset : Keeps I R (setReplicaModeNoLock a .rw)) : Keeps I R (finishStart a) := by
  have hundo : ∀ err, Keeps I R (undoStart a err) := fun err => .bind hremove fun _ => .pure _
  refine .bind (hI (Replicator.safe_getCloneStatus a)) fun status => ?_
  split
  · exact hundo _
  · exact hundo _
  · refine .bind (hI (Replicator.safe_setReplicaMode _ _)) fun err => ?_
    cases err with
    | some e => exact hundo _
    | none => exact .bind hset fun _ => .pure _

theorem addReplicaDuringStartNoLock (hI : Tolerant I R)
    (hsized : ∀ n m, Keeps I R (addSized a n m)) : Keeps I R (addReplicaDuringStartNoLock a) := by
  refine .bind (hI safe_ask) fun err => ?_
  cases err with
  | some e => exact hI (safe_failStart a _)
  | none =>
    refine .bind (hI (safe_query _ _)) fun newSize => ?_
    cases newSize with
    | error e => exact hI (safe_failStart a _)
    | ok newSize =>
      refine .bind (hI (safe_query _ _)) fun newSectorSize => ?_
      cases newSectorSize with
      | error e => exact hI (safe_failStart a _)
      | ok newSectorSize => exact hsized _ _

theorem addSized (hI : Tolerant I R) {newSize newSectorSize : ℤ}
    (htake : Keeps I R (modify fun w : World => w.setC (takeSize newSize newSectorSize)))
    (hadd : Keeps I R (addReplicaNoLock a none)) (hfinish : Keeps I R (Controller.finishStart a)) :
    Keeps I R (addSized a newSize newSectorSize) := by
  refine .bind htake fun _ => .get fun w => .ite (fun _ => hI (safe_failStart a _)) fun _ =>
    .ite (fun _ => hI (safe_failStart a _)) fun _ => .bind hadd fun err => ?_
  cases err with
  | some err => exact hI (safe_failStart a _)
  | none => exact hfinish

theorem addAllDuringStart : ∀ {as : List Address},
    (∀ a ∈ as, Keeps I R (Controller.addReplicaDuringStartNoLock a)) →
    Keeps I R (addAllDuringStart as)
  | [], _ => .pure _
  | a :: as, h => by
    refine .bind (h a List.mem_cons_self) fun err => ?_
    cases err with
    | some err => exact .pure _
    | none => exact addAllDuringStart fun b hb => h b (List.mem_cons_of_mem _ hb)

variable (hio : ∀ err, Keeps I R (handleIOError err))

include hio

theorem writeAt {wr : Write} (h : Keeps I R (Replicator.writeAt wr)) : Keeps I R (writeAt wr) := by
  refine .get fun w => .ite (fun _ => .pure _) fun _ => .ite (fun _ => .pure _) fun _ =>
    .bind h fun res => ?_
  split
  · exact .pure _
  · exact .bind (hio _) fun _ => .pure _

theorem flush {f : Ctl (ℤ × Option Err)} (hf : Keeps I R f) (failed : String) :
    Keeps I R (flush f failed) := by
  refine .get fun w => .ite (fun _ => .pure _) fun _ => .bind hf fun res => ?_
  split
  · exact .pure _
  · exact .bind (hio _) fun _ => .ite (fun _ => .pure _) fun _ => .pure _

theorem readAt (hI : Tolerant I R) (off : ℤ) (len : ℕ) : Keeps I R (readAt off len) := by
  refine .get fun w => ?_
  split
  · exact .pure _
  · refine .bind (hI (Replicator.safe_readAt off len)) fun res => ?_
    split
    · exact .pure _
    · exact .bind (hio _) fun _ => .pure _

end Tolerant

namespace Controller

variable {a : Address} {as : List Address}

theorem safe_addReplicaBegin (hS : S.drops) (a : Address) : Safe S (addReplicaBegin a) :=
  Tolerant.addReplicaBegin (safe_canAdd hS a)

/-! ## Quorum replicas -/

theorem matches_addQuorum {rs qs : List ReplicaEntry} {b : AddressMap BackendWrapper}
    (h : Matches rs qs b) (hnew : a ∉ (rs ++ qs).map ReplicaEntry.address)
    (m : BackendMode) : Matches rs (qs ++ [⟨a, m⟩]) b where
  nodup := by
    rw [← List.append_assoc, List.map_append, List.map_singleton, List.nodup_append]
    refine ⟨h.nodup, List.nodup_singleton _, fun x hx y hy hxy => hnew ?_⟩
    obtain rfl : y = a := by simpa using hy
    exact hxy ▸ hx
  oneWO := h.oneWO
  mirror := h.mirror

theorem safe_addQuorumReplicaNoLock (hS : S.drops) (ha : S.addsQuorum a) :
    Safe S (addQuorumReplicaNoLock a) := by
  refine Keeps.of_triple fun w hw => ?_
  refine .bind (canAdd_spec w hw a) fun err => .fix fun w₁ h₁ => ?_
  obtain ⟨hmir₁, hreach₁, hcan⟩ := h₁
  cases err with
  | some err =>
    refine .pure ?_
    rintro s rfl
    exact ⟨hmir₁, hreach₁ S hS⟩
  | none =>
    have hnew := (hcan rfl).not_mem
    have hmir₂ : Mirrored { w₁.c with
        quorumReplicas := w₁.c.quorumReplicas ++ [⟨a, .wo⟩]
        quorumReplicaCount := w₁.c.quorumReplicaCount + 1 } :=
      ⟨matches_addQuorum hmir₁.toMatches hnew .wo, hmir₁.built⟩
    refine .modify_bind (.bind (addQuorumBackend_spec _ a hmir₂) fun _ => .pure ?_)
    rintro w₂ ⟨hmir, hside, r, hr⟩
    have hchange : Change S w₁ w₂ := by
      refine .edit hside.1 (.inr ⟨hside.2, ?_⟩) ?_ (.inr ?_) (.inl (.inr hS))
        (fun hfixed => (hfixed.1 hS).elim) ?_ <;> rw [hr]
      · exact .same rfl rfl rfl
      · rfl
      · exact ⟨rfl, rfl⟩
      · exact .addQuorum a ha hnew
    exact ⟨hmir, (hreach₁ S hS).tail hchange⟩

theorem safe_copyRevisionCounter (a rwReplica : Address) :
    Safe S (copyRevisionCounter a rwReplica) :=
  .bind (Replicator.safe_getRevisionCounter _) fun _ => .ite (fun _ => .pure _)
    fun _ => .bind (Replicator.safe_setQuorumRevisionCounter _ _) fun _ => .pure _

theorem safe_initQuorumReplica (hS : S.Updates) (a : Address) : Safe S (initQuorumReplica a) := by
  refine .bind (Replicator.safe_setRebuilding a) fun err => ?_
  cases err with
  | some e => exact .pure _
  | none =>
    refine .get fun w => ?_
    split
    · exact .pure _
    · refine .bind (safe_copyRevisionCounter _ _) fun err => ?_
      cases err with
      | some e => exact .pure _
      | none =>
        refine .bind (Replicator.safe_setRebuilding a) fun err => ?_
        cases err with
        | some e => exact .pure _
        | none => exact safe_update hS

theorem safe_addQuorumReplicaCommit (hS : S.drops) (ha : S.addsQuorum a) :
    Safe S (addQuorumReplicaCommit a) := by
  refine .bind (safe_addQuorumReplicaNoLock hS ha) fun err => ?_
  cases err with
  | some err => exact .pure _
  | none => exact safe_initQuorumReplica (.inr hS) a

/-! ## Rebuild -/

theorem safe_promote (hS : S.sets a .rw) (hup : S.Updates) (rwReplica : Address) :
    Safe S (promote a rwReplica) := by
  refine .bind (Replicator.safe_getRevisionCounter _) fun res => .ite (fun _ => .pure _) fun _ => ?_
  refine .bind (Replicator.safe_setReplicaMode _ _) fun err => ?_
  cases err with
  | some e => exact .pure _
  | none =>
    refine .bind (Replicator.safe_setRevisionCounter _ _) fun err => ?_
    cases err with
    | some e => exact .pure _
    | none =>
      refine .bind (safe_setReplicaModeNoLock a (by decide) (.inr hS)) fun _ => ?_
      exact .bind (safe_status hup (fun _ => ⟨rfl, rfl, rfl⟩) (fun _ => ⟨rfl, rfl, rfl⟩)
        (fun _ => .same rfl rfl rfl) fun hfixed => (hfixed.2.2.2.1 a _ hS).elim)
        fun _ => safe_update hup

theorem safe_verifyRebuildReplica (hS : S.sets a .rw) (hup : S.Updates) :
    Safe S (verifyRebuildReplica a) :=
  tolerant_safe.verifyRebuildReplica fun _ => safe_promote hS hup _

/-! ## Registration -/

theorem safe_signalReplica (hS : S.signals) : Safe S signalReplica := by
  refine .bind (.modify fun w hw => ⟨hw, .edit rfl (.inl hS) rfl (.inr ⟨rfl, rfl⟩)
    (.inr ⟨rfl, rfl, rfl, rfl⟩) (fun _ => ⟨⟨_, rfl⟩, rfl⟩) .same⟩)
    fun _ => .bind safe_ask fun err => ?_
  cases err with
  | some e => exact .bind (safe_setC fun _ => .of_core rfl (.inl hS)) fun _ => .pure _
  | none => exact .bind (safe_setC fun _ => .of_core rfl (.inl hS)) fun _ => .pure _

theorem safe_probe : ∀ n : ℕ, Safe S (probe n)
  | 0 => .pure _
  | n + 1 => by
    refine .bind safe_ask fun err => ?_
    cases err with
    | none => exact .pure _
    | some e => exact safe_probe n

theorem safe_chooseLeader (hS : S.signals) (register : RegReplica) :
    Safe S (chooseLeader register) := by
  refine .ite (fun _ => .pure _) fun _ => .get fun w => .bind (safe_iterate _) fun order => ?_
  refine .bind (safe_setC fun _ => .of_core rfl (.inl hS)) fun _ => ?_
  exact .get fun w => .ite (fun _ => safe_signalReplica hS) fun _ => .pure _

theorem safe_registerAgain (hS : S.signals) (register : RegReplica) :
    Safe S (registerAgain register) := by
  refine .get fun w => .ite (fun _ => ?_) fun _ => ?_
  · refine .bind (safe_signalReplica hS) fun err => ?_
    cases err with
    | some e => exact .pure _
    | none => exact safe_chooseLeader hS register
  · refine .bind (safe_probe 3) fun alive => .ite (fun _ => .pure _) fun _ => ?_
    exact .bind (safe_setC fun _ => .of_core rfl (.inl hS)) fun _ => safe_chooseLeader hS register

theorem safe_registerReplica (hS : S.signals) (register : RegReplica) :
    Safe S (registerReplica register) := by
  refine .get fun w => .ite (fun _ => .pure _) fun _ => .ite (fun _ => .pure _) fun _ =>
    .ite (fun _ => ?_) fun _ => ?_
  · exact .bind (safe_setC fun _ => .calm rfl rfl rfl rfl) fun _ => .pure _
  · refine .bind (safe_setC fun _ => .of_core rfl (.inl hS)) fun _ => ?_
    exact .get fun w => .ite (fun _ => .pure _) fun _ =>
      .ite (fun _ => safe_registerAgain hS register) fun _ => safe_chooseLeader hS register

/-! ## I/O -/

section

variable (hS : S.drops)
include hS

theorem safe_handleErrorNoLock (err : Option Err) : Safe S (handleErrorNoLock err) := by
  unfold handleErrorNoLock
  split
  · refine .bind (safe_iterate _) fun order => ?_
    refine .bind (.forM (fun a => safe_setErr hS a) _) fun _ => ?_
    exact .get fun w => .ite (fun _ => .pure _) fun _ => .pure _
  · exact .pure _

theorem safe_removeFailed (err : Err) : Safe S (removeFailed err) := by
  cases err with
  | backend errors =>
    exact .bind (safe_iterate _) fun order => .forM (fun a => safe_removeReplicaNoLock hS a) _
  | msg text => exact .pure _

theorem safe_handleIOError (err : Err) : Safe S (handleIOError err) :=
  .bind (safe_handleErrorNoLock hS _) fun _ => .bind (safe_removeFailed hS err) fun _ => .pure _

theorem safe_writeAt (hsend : ∀ a wr, S.sends a (Node.writeAt wr)) (wr : Write) :
    Safe S (writeAt wr) :=
  Tolerant.writeAt (safe_handleIOError hS) (Replicator.safe_writeAt hsend wr)

theorem safe_sync : Safe S sync :=
  Tolerant.flush (safe_handleIOError hS) Replicator.safe_sync _

theorem safe_unmap : Safe S unmap :=
  Tolerant.flush (safe_handleIOError hS) Replicator.safe_unmap _

theorem safe_readAt (off : ℤ) (len : ℕ) : Safe S (readAt off len) :=
  Tolerant.readAt (safe_handleIOError hS) tolerant_safe off len

end

/-! ## Snapshots and size -/

theorem safe_isSnapShotExist (name : String) (a : Address) : Safe S (isSnapShotExist name a) := by
  refine .bind (safe_query _ _) fun chain => ?_
  cases chain with
  | ok chain => exact .pure _
  | error e => exact .pure _

theorem safe_checkNew (name : String) : Safe S (checkNew name) := by
  refine .get fun w => ?_
  split
  · exact .pure _
  · refine .bind (safe_isSnapShotExist _ _) fun ok => ?_
    split <;> exact .pure _

theorem safe_snapshotName (name uuid : String) : Safe S (snapshotName name uuid) := by
  refine .get fun w => .ite (fun _ => .pure _) fun _ => ?_
  refine .bind Replicator.safe_remainSnapshots fun remain => ?_
  cases remain with
  | error e => exact .pure _
  | ok remain => exact .ite (fun _ => .pure _) fun _ => safe_checkNew _

theorem safe_snapshot (hS : S.drops) {name uuid : String}
    (hsend : ∀ n x, S.sends x (Node.snapshot n)) : Safe S (snapshot name uuid) := by
  refine .bind (safe_snapshotName name uuid) fun res => ?_
  cases res with
  | error err => exact .pure _
  | ok name =>
    exact .bind (Replicator.safe_fanOut (fun x => .inr (hsend name x))
      (Node.checkpoint_snapshot name)) fun _ =>
      safe_handleErrorNoLock hS _

theorem safe_resizeFrontend (hS : S.resizes) (sizeInBytes : ℤ) :
    Safe S (resizeFrontend sizeInBytes) := by
  refine .get fun w => .ite (fun _ => .pure _) fun _ => .bind safe_ask fun err => ?_
  cases err with
  | some e => exact .pure _
  | none =>
    refine .bind (.modify fun w hw => ?_) fun _ => .pure _
    exact ⟨⟨hw.toMatches, hw.built⟩, .edit rfl (.inr ⟨rfl, .same rfl rfl rfl⟩) rfl (.inl hS)
      (.inr ⟨rfl, rfl, rfl, rfl⟩) (fun _ => ⟨⟨_, rfl⟩, rfl⟩) .same⟩

theorem safe_resize (hS : S.drops) (hsize : S.resizes) (hsend : ∀ n x, S.sends x (Node.resize n))
    (name : String) (sizeInBytes : Except String ℤ) : Safe S (resize name sizeInBytes) := by
  refine .get fun w => .ite (fun _ => .pure _) fun _ => ?_
  cases sizeInBytes with
  | error e => exact .pure _
  | ok sizeInBytes =>
    refine .ite (fun _ => .pure _) fun _ => .ite (fun _ => .pure _) fun _ => ?_
    refine .bind (Replicator.safe_fanOut (fun x => .inr (hsend _ x)) fun _ => rfl) fun err => ?_
    refine .bind (safe_handleErrorNoLock hS _) fun err => ?_
    cases err with
    | some e => exact .pure _
    | none => exact safe_resizeFrontend hsize _

/-! ## Start, revert and shutdown -/

theorem safe_startFrontend : Safe S startFrontend := by
  refine .get fun w => .ite (fun _ => ?_) fun _ => .pure _
  exact .bind safe_ask fun _ => safe_setC fun _ => .calm rfl rfl rfl rfl

theorem safe_finishStart (hS : S.drops) (hset : S.sets a .rw) : Safe S (finishStart a) :=
  tolerant_safe.finishStart (safe_removeReplicaNoLock hS a)
    (safe_setReplicaModeNoLock a (by decide) (.inr hset))

theorem safe_takeSize (hS : S.resizes) (newSize newSectorSize : ℤ) :
    Safe S (modify fun w : World => w.setC (takeSize newSize newSectorSize)) := by
  refine .modify fun w hw => ?_
  by_cases h : w.c.size = maxInt64
  · have htake : w.setC (takeSize newSize newSectorSize) =
        w.setC fun c => { c with size := newSize, sectorSize := newSectorSize } := by
      simp [World.setC, takeSize, h]
    rw [htake]
    exact ⟨⟨hw.toMatches, hw.built⟩, .edit rfl (.inr ⟨rfl, .same rfl rfl rfl⟩) rfl (.inl hS)
      (.inr ⟨rfl, rfl, rfl, rfl⟩) (fun _ => ⟨⟨_, rfl⟩, rfl⟩) .same⟩
  · have htake : w.setC (takeSize newSize newSectorSize) = w := by
      simp [World.setC, takeSize, h]
    rw [htake]
    exact ⟨hw, .edit rfl (.inr ⟨rfl, .same rfl rfl rfl⟩) rfl (.inl hS)
      (.inr ⟨rfl, rfl, rfl, rfl⟩) (fun _ => ⟨⟨_, rfl⟩, rfl⟩) .same⟩

theorem safe_addAllDuringStart (hS : S.Starts as) : Safe S (addAllDuringStart as) :=
  Tolerant.addAllDuringStart fun a ha => tolerant_safe.addReplicaDuringStartNoLock fun _ _ =>
    tolerant_safe.addSized (safe_takeSize hS.resizes _ _)
      (safe_addReplicaNoLock hS.drops (hS.adds a ha) nofun)
      (safe_finishStart hS.drops (hS.sets a ha))

theorem safe_revisionCounters : ∀ as : List Address, Safe S (revisionCounters as)
  | [] => .pure _
  | a :: as => by
    refine .bind (Replicator.safe_getRevisionCounter a) fun res => ?_
    split
    · exact .pure _
    · refine .bind (safe_revisionCounters as) fun rest => ?_
      cases rest with
      | error e => exact .pure _
      | ok rest => exact .pure _

theorem safe_checkRevisions (hS : S.drops) : Safe S checkRevisions := by
  refine .get fun w => .bind (safe_revisionCounters _) fun counters => ?_
  cases counters with
  | error e => exact .pure _
  | ok counters =>
    refine .bind (safe_iterate _) fun order => ?_
    exact .bind (.forM (fun a => safe_setErr hS a) _) fun _ => safe_update (.inr hS)

theorem safe_reset (hS : S.resets) {f : Controller → Controller}
    (hf : ∀ c, (f c).replicas = [] ∧ (f c).quorumReplicas = [] ∧ (f c).backend = Replicator.new ∧
      (f c).replicationFactor = c.replicationFactor ∧
      (S.resizes ∨ (f c).size = c.size ∧ (f c).sectorSize = c.sectorSize) ∧ SameStatus c (f c) ∧
      Withdraws c (f c)) :
    Safe S (modify fun w : World => w.setC f) := by
  refine .modify fun w hw => ?_
  obtain ⟨hrs, hqs, hb, hrf, hsize, hstatus, hreg⟩ := hf w.c
  have hmir : Mirrored (f w.c) := by
    refine ⟨?_, ?_⟩
    · rw [hrs, hqs, hb]
      exact (mirrored_new "" 0).toMatches
    · rw [hb]
      exact built_new
  refine ⟨hmir, .edit rfl (.inr ⟨rfl, hreg⟩) hrf hsize (.inr hstatus)
    (fun hfixed => (hfixed.2.2.2.2 hS).elim) ?_⟩
  change Edit S w.c.replicas w.c.quorumReplicas (f w.c).replicas (f w.c).quorumReplicas
  rw [hrs, hqs]
  exact .reset hS

theorem safe_start (hS : S.Starts as) : Safe S (start as) := by
  refine .get fun w => ?_
  cases as with
  | nil => exact .pure _
  | cons a as =>
    refine .ite (fun _ => .pure _) fun _ => .ite (fun _ => .pure _) fun _ => ?_
    refine .bind (safe_reset hS.resets fun c => ⟨rfl, rfl, rfl, rfl, .inl hS.resizes,
      ⟨rfl, rfl, rfl, rfl⟩, .same rfl rfl rfl⟩) fun _ => ?_
    refine .bind (.bind (safe_addAllDuringStart hS) fun err => ?_) fun err =>
      .bind safe_startFrontend fun _ => .pure _
    cases err with
    | some err => exact .pure _
    | none => exact safe_checkRevisions hS.drops

theorem safe_revertBegin : Safe S revertBegin := by
  refine .get fun w => ?_
  split
  · exact .pure _
  · refine .bind (.each (fun _ => safe_ask) _) fun errs => .ite (fun _ => .pure _) fun _ => ?_
    exact .bind safe_frontendShutdown fun _ => .pure _

theorem safe_revertCommit (hS : S.drops) {name : String} (hsend : ∀ x, S.sends x (Node.revert name))
    (clients : List Address) : Safe S (revertCommit clients name) := by
  refine .bind (safe_iterate _) fun order => .bind (.each (fun a => ?_) _) fun results => ?_
  · refine .bind (safe_requestIf a _ (.inr (hsend a)) (Node.checkpoint_revert name)) fun err => ?_
    cases err with
    | some e => exact .bind (safe_setErr hS a) fun _ => .pure _
    | none => exact .pure _
  · exact .ite (fun _ => .bind safe_startFrontend fun _ => .pure _) fun _ => .pure _

theorem safe_shutdownBackend (hS : S.resets) : Safe S shutdownBackend :=
  safe_reset hS fun _ => ⟨rfl, rfl, rfl, rfl, .inr ⟨rfl, rfl⟩, ⟨rfl, rfl, rfl, rfl⟩,
    .same rfl rfl rfl⟩

end Controller

end Jiva
