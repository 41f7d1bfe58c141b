import Jiva.Requests

/-!
# The latest snapshot

The replicas in mode `RW` are to have the same disk below their heads. `Snapshot` sets the replicas
on which it fails to mode `ERR`. A replica that is added gets the same snapshot as those that are
there, and is compared with one of them before it is set to mode `RW`, so it has the same latest
snapshot then.

`addReplica` takes a snapshot as well, but does nothing about the replicas on which it fails :
`addPartly_disagrees` is such a run. `same_latest_snapshot` is what holds over runs in which the
snapshot of an addition is taken on all replicas in mode `RW` or on none (`Op.Together`).
-/

namespace Jiva

open Hoare Controller Relation Function Transition

variable {w w' : World} {S : Scope} {rs rs' : List ReplicaEntry} {a : Address}

/-- The replicas in mode `RW` have the same latest snapshot, and there is one if a replica is being
rebuilt. -/
structure Agreed (w : World) : Prop where
  latest : ∀ a b, ⟨a, .rw⟩ ∈ w.c.replicas → ⟨b, .rw⟩ ∈ w.c.replicas →
    (w.nodes a).snaps.head? = (w.nodes b).snaps.head?
  some : ∀ a b, ⟨a, .wo⟩ ∈ w.c.replicas → ⟨b, .rw⟩ ∈ w.c.replicas → (w.nodes b).snaps ≠ []

/-! ## Changes -/

/-- Where the modes come from. -/
structure ModesFrom (S : Scope) (rs rs' : List ReplicaEntry) : Prop where
  rw : ∀ a, ⟨a, .rw⟩ ∈ rs' → ⟨a, .rw⟩ ∈ rs ∨ S.sets a .rw
  wo : ∀ a, ⟨a, .wo⟩ ∈ rs' → ⟨a, .wo⟩ ∈ rs ∨ S.adds a

theorem ModesFrom.refl (S : Scope) (rs : List ReplicaEntry) : ModesFrom S rs rs :=
  ⟨fun _ => .inl, fun _ => .inl⟩

theorem ModesFrom.trans {rs'' : List ReplicaEntry} (h : ModesFrom S rs rs')
    (h' : ModesFrom S rs' rs'') : ModesFrom S rs rs'' :=
  ⟨fun a ha => (h'.rw a ha).elim (h.rw a) .inr, fun a ha => (h'.wo a ha).elim (h.wo a) .inr⟩

theorem modesFrom_of_subset (h : rs' ⊆ rs) : ModesFrom S rs rs' :=
  ⟨fun _ ha => .inl (h ha), fun _ ha => .inl (h ha)⟩

theorem modesFrom_of_edit {qs qs' : List ReplicaEntry} (h : Edit S rs qs rs' qs') :
    ModesFrom S rs rs' := by
  cases h with
  | same => exact .refl S rs
  | removeData x hS => exact modesFrom_of_subset List.eraseP_subset
  | removeQuorum x hS => exact .refl S rs
  | addQuorum x hx hnew => exact .refl S rs
  | reset hS => exact modesFrom_of_subset (List.nil_subset _)
  | addData x hx hnew hwo =>
    refine ⟨fun a ha => ?_, fun a ha => ?_⟩
    · rcases List.mem_append.1 ha with ha | ha
      · exact .inl ha
      · simp at ha
    · rcases List.mem_append.1 ha with ha | ha
      · exact .inl ha
      · obtain rfl : a = x := by simpa using ha
        exact .inr hx
  | mode x m hwo hm =>
    refine ⟨fun a ha => ?_, fun a ha => ?_⟩
    · rcases mem_setEntries ha with ⟨hr, -⟩ | ⟨he, -⟩
      · exact .inl hr
      · obtain ⟨rfl, rfl⟩ := ReplicaEntry.mk.inj he
        exact .inr (hm.resolve_left fun h => nomatch h.1)
    · rcases mem_setEntries ha with ⟨hr, -⟩ | ⟨he, -⟩
      · exact .inl hr
      · exact (hwo (ReplicaEntry.mk.inj he).2.symm).elim

theorem modesFrom_of_reach (h : Reach S w w') : ModesFrom S w.c.replicas w'.c.replicas := by
  induction h with
  | refl => exact .refl S _
  | tail _ hstep ih =>
    cases hstep with
    | send a f hf hcheck h =>
      subst h
      exact ih
    | edit hnodes hsignals hrf hsize hstatus htables h => exact ih.trans (modesFrom_of_edit h)

/-- No request in the scope changes a chain. -/
def Scope.KeepsSnaps (S : Scope) : Prop :=
  ∀ a f, S.sends a f → ∀ n, (f n).snaps = n.snaps

theorem snaps_of_reach (hS : S.KeepsSnaps) (h : Reach S w w')
    (x : Address) : (w'.nodes x).snaps = (w.nodes x).snaps :=
  nodes_of_reach (fun a f hf => hf.elim Quiet.snaps (hS a f)) h x

/-- What adds no replica, sets none to mode `RW` and changes no chain keeps the agreement. -/
theorem Agreed.reach (hS : S.KeepsSnaps) (hadds : ∀ a, ¬S.adds a)
    (hsets : ∀ a, ¬S.sets a .rw) (hw : Agreed w) (h : Reach S w w') : Agreed w' := by
  have hmodes := modesFrom_of_reach h
  have hrw : ∀ a, ⟨a, .rw⟩ ∈ w'.c.replicas → ⟨a, .rw⟩ ∈ w.c.replicas :=
    fun a ha => (hmodes.rw a ha).resolve_right (hsets a)
  have hwo : ∀ a, ⟨a, .wo⟩ ∈ w'.c.replicas → ⟨a, .wo⟩ ∈ w.c.replicas :=
    fun a ha => (hmodes.wo a ha).resolve_right (hadds a)
  refine ⟨fun a b ha hb => ?_, fun a b ha hb => ?_⟩
  · rw [snaps_of_reach hS h, snaps_of_reach hS h]
    exact hw.latest a b (hrw a ha) (hrw b hb)
  · rw [snaps_of_reach hS h]
    exact hw.some a b (hwo a ha) (hrw b hb)

theorem agreed_of_length_le_one (h : w.c.replicas.length ≤ 1) : Agreed w := by
  have heq : ∀ x ∈ w.c.replicas, ∀ y ∈ w.c.replicas, x = y := by
    match hrs : w.c.replicas with
    | [] => simp
    | [r] => simp
    | r :: r' :: rs => simp [hrs] at h
  refine ⟨fun a b ha hb => ?_, fun a b ha hb => ?_⟩
  · obtain rfl : a = b := congrArg ReplicaEntry.address (heq _ ha _ hb)
    rfl
  · exact nomatch congrArg ReplicaEntry.mode (heq _ ha _ hb)

/-! ## Snapshot -/

/-- After a snapshot of all replicas, those which are left have it. -/
theorem agreed_of_demoted {w₁ w₂ : World} {name : String} {err : Option Err} (hw : Mirrored w.c)
    (h₁ : Fanned (Node.lacks name) (Node.snapshot name) err w w₁)
    (h₂ : Demoted (failedReplicas err) w₁ w₂) : Agreed w₂ := by
  have hsnaps : ∀ a, ⟨a, .rw⟩ ∈ w₂.c.replicas →
      (w₂.nodes a).snaps = name :: (w.nodes a).snaps := by
    intro a ha
    obtain ⟨hmem, hfree⟩ := h₂.live a .rw ha (by decide)
    rw [h₁.c] at hmem
    obtain ⟨hlacks, hnode⟩ := h₁.applied hw a .rw hmem (by decide) hfree
    rw [h₂.side.1, hnode, Node.snaps_snapshot hlacks]
  refine ⟨fun a b ha hb => ?_, fun a b _ hb => ?_⟩
  · rw [hsnaps a ha, hsnaps b hb]
    rfl
  · rw [hsnaps b hb]
    exact List.cons_ne_nil _ _

theorem snapshot_agreed (hw : Mirrored w.c) (h : Agreed w) (name uuid : String) :
    Triple (fun s => s = w) (Controller.snapshot name uuid) fun _ s => Agreed s := by
  have hkeep : Triple (fun s => s = w) (snapshotName name uuid) fun _ s => Mirrored s.c ∧
      Agreed s := by
    rintro s rfl
    obtain ⟨hmir, hreach⟩ := safe_snapshotName (S := .still) name uuid s hw
    exact ⟨hmir, h.reach (fun _ _ h => False.elim h) (fun _ => id) (fun _ => id) hreach⟩
  refine .bind hkeep fun res => .fix fun w₁ h₁ => ?_
  cases res with
  | error err => exact .pure fun s hs => hs ▸ h₁.2
  | ok name =>
    refine .bind (fanOut_spec (Node.lacks name) (Node.snapshot name) w₁) fun err =>
      .fix fun w₂ h₂ => ?_
    exact (handleErrorNoLock_spec (h₂.c ▸ h₁.1) err).post fun _ s hs =>
      agreed_of_demoted h₁.1 h₂ hs.toDemoted

/-! ## Rebuild -/

theorem compared_head {i : ℕ} (hi : i ≠ 0) (n : Node) :
    (compared i n.chain).head? = n.snaps.head?.map .snap := by
  obtain ⟨k, rfl⟩ := Nat.exists_eq_succ_of_ne_zero hi
  rw [compared, Node.chain]
  cases n.snaps with
  | nil => rfl
  | cons x xs => rfl

/-- The comparison goes beyond the head, which is no checkpoint. -/
theorem stopIndex_ne_zero {n : Node} (hne : n.snaps ≠ []) (cp : Option String) :
    stopIndex n.chain (cp.map .snap) ≠ 0 := by
  have hhead : decide (some (DiskName.head n.head) = cp.map .snap) = false := by
    cases cp <;> simp
  rw [stopIndex, Node.chain, List.findIdx?_cons, hhead, if_neg Bool.false_ne_true]
  cases List.findIdx? (fun d => decide (some d = cp.map DiskName.snap))
    (n.snaps.map DiskName.snap) with
  | some i => simp
  | none => simpa using hne

/-- Chains that pass have the same latest snapshot, if there is one to compare with. -/
theorem latest_of_verifyChains {rwReplica : Address} {n n' : Node} {cp : Option String}
    (hne : n.snaps ≠ []) (h : verifyChains a rwReplica n.chain n'.chain (cp.map .snap) = none) :
    n.snaps.head? = n'.snaps.head? := by
  unfold verifyChains at h
  dsimp only at h
  split at h
  · simp at h
  split at h
  · simp at h
  split at h
  · simp at h
  rename_i hcmp
  have hhead := congrArg List.head? (not_not.1 hcmp)
  rw [compared_head (stopIndex_ne_zero hne cp), compared_head (stopIndex_ne_zero hne cp)] at hhead
  exact Option.map_injective (fun _ _ => DiskName.snap.inj) hhead

theorem agreed_promoted (hS : S.KeepsSnaps) {b : Address} (hsets : ∀ x, S.sets x .rw → x = a)
    (hw : Agreed w) (h : Reach S w w') (hb : ⟨b, .rw⟩ ∈ w.c.replicas) (hne : (w.nodes b).snaps ≠ [])
    (hlatest : (w.nodes b).snaps.head? = (w.nodes a).snaps.head?) : Agreed w' := by
  have hmodes := modesFrom_of_reach h
  -- all replicas in mode `RW` now have the latest snapshot of `b`
  have hrw : ∀ x, ⟨x, .rw⟩ ∈ w'.c.replicas →
      (w'.nodes x).snaps.head? = (w.nodes b).snaps.head? := by
    intro x hx
    rw [snaps_of_reach hS h]
    rcases hmodes.rw x hx with hx | hx
    · exact hw.latest x b hx hb
    · rw [hsets x hx, hlatest]
  refine ⟨fun x y hx hy => (hrw x hx).trans (hrw y hy).symm, fun x y _ hy hnil => hne ?_⟩
  have hhead := hrw y hy
  rw [hnil] at hhead
  exact List.head?_eq_none_iff.1 hhead.symm

theorem verifyRebuildWO_agreed (hw : Mirrored w.c) (h : Agreed w) {b : Address}
    (ha : ⟨a, .wo⟩ ∈ w.c.replicas) (hb : ⟨b, .rw⟩ ∈ w.c.replicas) :
    Triple (fun s => s = w) (verifyRebuildWO a b) fun _ s => Agreed s := by
  have hadvance : ∀ {w : World}, Agreed w → Agreed w.advance := fun h => ⟨h.latest, h.some⟩
  refine .bind (query_spec b Node.chain w) fun rwChain => .fix ?_
  rintro w₁ ⟨rfl, hrwChain⟩
  cases rwChain with
  | error e => exact .pure fun s hs => hs ▸ hadvance h
  | ok rwChain =>
    refine .bind (query_spec a Node.chain w.advance) fun chain => .fix ?_
    rintro w₂ ⟨rfl, hchain⟩
    cases chain with
    | error e => exact .pure fun s hs => hs ▸ hadvance (hadvance h)
    | ok chain =>
      refine .bind (query_spec a (fun n => n.checkpoint.map DiskName.snap) w.advance.advance)
        fun cp => .fix ?_
      rintro w₃ ⟨rfl, hcp⟩
      have h₃ := hadvance (hadvance (hadvance h))
      cases cp with
      | error e => exact .pure fun s hs => hs ▸ h₃
      | ok cp =>
        obtain rfl := hrwChain _ rfl
        obtain rfl := hchain _ rfl
        obtain rfl := hcp _ rfl
        dsimp only
        split
        · exact .pure fun s hs => hs ▸ h₃
        · rename_i hpass
          have hne := h.some a b ha hb
          have hlatest := latest_of_verifyChains hne hpass
          rintro s rfl
          have hreach := (safe_promote (S := (Op.verifyRebuild a).scope) (And.intro rfl rfl)
            (.inl trivial) b w.advance.advance.advance hw).2
          exact agreed_promoted (S := (Op.verifyRebuild a).scope) (fun _ _ h => False.elim h)
            (fun _ hx => hx.1) h₃ hreach hb hne hlatest

theorem getCurrentAndRWReplica_ok {c : Controller} {r rw : ReplicaEntry}
    (h : c.getCurrentAndRWReplica a = .ok (r, rw)) :
    r ∈ c.replicas ∧ r.address = a ∧ rw ∈ c.replicas ∧ rw.mode = .rw := by
  unfold getCurrentAndRWReplica at h
  split at h
  · simp at h
  · simp at h
  · rename_i hr hrw
    obtain ⟨rfl, rfl⟩ := Prod.mk.inj (Except.ok.inj h)
    exact ⟨List.mem_of_find?_eq_some hr, by simpa using List.find?_some hr,
      List.mem_of_find?_eq_some hrw, by simpa using List.find?_some hrw⟩

theorem verifyRebuildReplica_agreed (hw : Mirrored w.c) (h : Agreed w) (a : Address) :
    Triple (fun s => s = w) (verifyRebuildReplica a) fun _ s => Agreed s := by
  refine .get ?_
  rintro w rfl
  split
  · exact .pure fun s hs => hs ▸ h
  · rename_i r rw hok
    obtain ⟨hr, rfl, hrw, hmode⟩ := getCurrentAndRWReplica_ok hok
    obtain ⟨b, m⟩ := rw
    obtain rfl : m = .rw := hmode
    split
    · exact .pure fun s hs => hs ▸ h
    · exact .pure fun s hs => hs ▸ h
    · rename_i hwo
      refine verifyRebuildWO_agreed hw h ?_ hrw
      rw [← hwo]
      exact hr

/-! ## Addition -/

/-- Every replica in mode `RW` has a snapshot. -/
def Snapshotted (w : World) : Prop :=
  ∀ a, ⟨a, .rw⟩ ∈ w.c.replicas → (w.nodes a).snaps ≠ []

theorem Snapshotted.reach (hsends : ∀ a f, S.sends a f → ∀ n, n.snaps ≠ [] → (f n).snaps ≠ [])
    (hsets : ∀ a, ¬S.sets a .rw) (hw : Snapshotted w) (h : Reach S w w') : Snapshotted w' := by
  induction h with
  | refl => exact hw
  | tail _ hstep ih =>
    cases hstep with
    | send a f hf hcheck h =>
      subst h
      intro x hx
      rcases eq_or_ne x a with rfl | hne
      · simp only [World.setNode, update_self]
        exact hf.elim (fun hq => by rw [hq.snaps]; exact ih x hx) fun hs =>
          hsends x f hs _ (ih x hx)
      · simp only [World.setNode, update_of_ne hne]
        exact ih x hx
    | edit hnodes hsignals hrf hsize hstatus htables h =>
      intro x hx
      rw [hnodes]
      exact ih x (((modesFrom_of_edit h).rw x hx).resolve_right (hsets x))

/-- A success of the snapshot before an addition leaves a snapshot on every replica. -/
theorem snapshotToAdd_snapshotted (hw : Mirrored w.c) (a : Address) (uuid : String) :
    Triple (fun s => s = w) (snapshotToAdd a uuid) fun err s => err = none → Snapshotted s := by
  have hremain : Triple (fun s => s = w) Replicator.remainSnapshots fun _ s => Mirrored s.c := by
    rintro s rfl
    exact (Replicator.safe_remainSnapshots (S := .still) s hw).1
  refine .bind hremain fun remain => .fix fun w₁ h₁ => ?_
  cases remain with
  | error e => exact .pure fun s _ h => nomatch h
  | ok remain =>
    refine .ite (fun _ => .pure fun s _ h => nomatch h) fun _ => ?_
    refine .bind (fanOut_spec (Node.lacks uuid) (Node.snapshot uuid) w₁) fun err =>
      .fix fun w₂ h₂ => ?_
    cases err with
    | some err => exact .pure fun s _ h => nomatch h
    | none =>
      have hall : Snapshotted w₂ := by
        intro x hx
        rw [h₂.c] at hx
        obtain ⟨hlacks, hnode⟩ := h₂.applied h₁ x .rw hx (by decide) List.not_mem_nil
        rw [hnode, Node.snaps_snapshot hlacks]
        exact List.cons_ne_nil _ _
      have hreq := safe_requestIf (S := { sends := fun _ f => f = Node.snapshot uuid }) a
        (Node.lacks uuid) (f := Node.snapshot uuid) (.inr rfl) (Node.checkpoint_snapshot uuid)
      refine .bind (Q := fun _ s => Snapshotted s) ?_ fun _ => .pure fun _ h _ => h
      rintro s rfl
      have hmir : Mirrored s.c := by rwa [h₂.c]
      refine hall.reach ?_ (fun _ => id) (hreq s hmir).2
      rintro x f rfl n hn
      rw [Node.snapshot]
      split
      · exact List.cons_ne_nil _ _
      · exact hn

/-- A replica that is being rebuilt after an addition was so before, or every replica in mode `RW`
has a snapshot. -/
theorem addReplicaNoLock_wo (hw : Mirrored w.c) (a : Address) (uuid : String) :
    Triple (fun s => s = w) (addReplicaNoLock a (some uuid)) fun _ s => Mirrored s.c ∧
      ((∀ x, ⟨x, .wo⟩ ∈ s.c.replicas → ⟨x, .wo⟩ ∈ w.c.replicas) ∨ Snapshotted s) := by
  refine .bind (canAdd_spec w hw a) fun err => .fix fun w₁ h₁ => ?_
  obtain ⟨hmir₁, hreach₁, hcan⟩ := h₁
  have hwo₁ : ∀ x, ⟨x, .wo⟩ ∈ w₁.c.replicas → ⟨x, .wo⟩ ∈ w.c.replicas := fun x hx =>
    ((modesFrom_of_reach (hreach₁ { drops := True } trivial)).wo x hx).resolve_right id
  cases err with
  | some err =>
    refine .pure ?_
    rintro s rfl
    exact ⟨hmir₁, .inl hwo₁⟩
  | none =>
    have hlists := snapshotToAdd_lists hmir₁ a uuid
    refine .bind ((hlists.and (snapshotToAdd_snapshotted hmir₁ a uuid)).pre ?_) fun err =>
      .fix fun w₂ h₂ => ?_
    · rintro s rfl
      exact ⟨rfl, rfl⟩
    obtain ⟨⟨hmir₂, hrs, hqs⟩, hall⟩ := h₂
    cases err with
    | some err =>
      refine .pure ?_
      rintro s rfl
      exact ⟨hmir₂, .inl (hrs ▸ hwo₁)⟩
    | none =>
      refine (attach_spec w₂ hmir₂ ?_ ?_).post fun err s hs => ⟨hs.mirrored, .inr ?_⟩
      · rw [hrs, hqs]
        exact (hcan rfl).not_mem
      · rw [hrs]
        exact (hcan rfl).no_wo
      · exact (hall rfl).reach (fun _ _ h => False.elim h) (fun _ => id)
          (hs.reach { adds := fun x => x = a } rfl)

theorem addReplicaCommit_wo (hw : Mirrored w.c) (a : Address) (uuid : String) :
    Triple (fun s => s = w) (addReplicaCommit a uuid) fun _ s =>
      (∀ x, ⟨x, .wo⟩ ∈ s.c.replicas → ⟨x, .wo⟩ ∈ w.c.replicas) ∨ Snapshotted s := by
  refine .bind (addReplicaNoLock_wo hw a uuid) fun err => .fix fun w₁ h₁ => ?_
  cases err with
  | some err => exact .pure fun s hs => hs ▸ h₁.2
  | none =>
    rintro s rfl
    have hreach := (safe_update (S := { updates := True }) (.inl trivial) s h₁.1).2
    rcases h₁.2 with hwo | hall
    · exact .inl fun x hx => hwo x (((modesFrom_of_reach hreach).wo x hx).resolve_right id)
    · exact .inr (hall.reach (fun _ _ h => False.elim h) (fun _ => id) hreach)

/-- What `addReplicaNoLock` does before the snapshot of the backends, and whether it gets there. -/
def beforeSnapshot (a : Address) : Ctl Bool := do
  let err ← canAdd a
  match err with
  | some _ => pure false
  | none => do
    let remain ← Replicator.remainSnapshots
    match remain with
    | .error _ => pure false
    | .ok remain => pure (decide (0 < remain))

/-- By their replies, the replicas in mode `RW` all apply the request for the snapshot `uuid`, or
none of them does. -/
def AllOrNone (uuid : String) (w : World) : Prop :=
  (∀ r ∈ w.c.replicas, r.mode = .rw →
    takes (Node.lacks uuid) w ((asked w).idxOf r.address + 1) r.address = true) ∨
  (∀ r ∈ w.c.replicas, r.mode = .rw →
    takes (Node.lacks uuid) w ((asked w).idxOf r.address + 1) r.address = false)

instance (uuid : String) (w : World) : Decidable (AllOrNone uuid w) :=
  inferInstanceAs (Decidable (_ ∨ _))

/-- The snapshot `uuid` is new on all replicas in mode `RW`, or their chains are as before. -/
def TakenTogether (uuid : String) (w w' : World) : Prop :=
  (∀ x, ⟨x, .rw⟩ ∈ w'.c.replicas → (w'.nodes x).snaps = uuid :: (w.nodes x).snaps) ∨
  (∀ x, ⟨x, .rw⟩ ∈ w'.c.replicas → (w'.nodes x).snaps = (w.nodes x).snaps)

theorem TakenTogether.reach {w₁ : World} {uuid : String} (h : TakenTogether uuid w w₁)
    (hreach : Reach S w₁ w') (hsends : ∀ x, ⟨x, .rw⟩ ∈ w'.c.replicas →
      (w'.nodes x).snaps = (w₁.nodes x).snaps) (hsets : ∀ x, ¬S.sets x .rw) :
    TakenTogether uuid w w' := by
  have hrw : ∀ x, ⟨x, .rw⟩ ∈ w'.c.replicas → ⟨x, .rw⟩ ∈ w₁.c.replicas :=
    fun x hx => ((modesFrom_of_reach hreach).rw x hx).resolve_right (hsets x)
  exact h.imp (fun h x hx => (hsends x hx).trans (h x (hrw x hx)))
    fun h x hx => (hsends x hx).trans (h x (hrw x hx))

theorem Fanned.takenTogether {w₁ : World} {uuid : String} {err : Option Err} (hw : Mirrored w.c)
    (h : Fanned (Node.lacks uuid) (Node.snapshot uuid) err w w₁) (hall : AllOrNone uuid w) :
    TakenTogether uuid w w₁ := by
  have hnode : ∀ x, ⟨x, .rw⟩ ∈ w₁.c.replicas → ⟨x, .rw⟩ ∈ w.c.replicas ∧ w₁.nodes x =
      if takes (Node.lacks uuid) w ((asked w).idxOf x + 1) x then (w.nodes x).snapshot uuid
      else w.nodes x := fun x hx => by
    rw [h.c] at hx
    obtain ⟨i, hi⟩ := List.mem_iff_getElem?.1 ((mem_asked hw).2 ⟨.rw, by decide, hx⟩)
    exact ⟨hx, by rw [h.taken i x hi, idxOf_asked hi]⟩
  refine hall.imp (fun hall x hx => ?_) fun hnone x hx => ?_
  · obtain ⟨hmem, hx⟩ := hnode x hx
    have htakes := hall _ hmem rfl
    rw [hx, if_pos htakes, Node.snaps_snapshot (Bool.and_eq_true_iff.1 htakes).1]
  · obtain ⟨hmem, hx⟩ := hnode x hx
    rw [hx, if_neg (Bool.eq_false_iff.1 (hnone _ hmem rfl))]

/-- The snapshot of an addition, when the replicas take it together. The replica that is added is
not in mode `RW`. -/
theorem snapshotToAdd_together (hw : Mirrored w.c) (ha : ⟨a, .rw⟩ ∉ w.c.replicas) {uuid : String}
    (hall : ∀ remain w₁, Replicator.remainSnapshots.run w = (.ok remain, w₁) → 0 < remain →
      AllOrNone uuid w₁) :
    Triple (fun s => s = w) (snapshotToAdd a uuid) fun _ s => TakenTogether uuid w s := by
  have hremain := (Replicator.safe_remainSnapshots (S := .still) w hw)
  refine .bind (Triple.result w) fun remain => .fix fun w₁ h₁ => ?_
  rw [h₁] at hremain
  obtain ⟨hmir, hreach⟩ := hremain
  have hlists := modesFrom_of_reach hreach
  have hsnaps := snaps_of_reach (fun _ _ h => False.elim h) hreach
  have hsame : TakenTogether uuid w w₁ := .inr fun x _ => hsnaps x
  cases remain with
  | error e => exact .pure fun s hs => hs ▸ hsame
  | ok remain =>
    refine .ite (fun _ => .pure fun s hs => hs ▸ hsame) fun hpos => ?_
    refine .bind (fanOut_spec (Node.lacks uuid) (Node.snapshot uuid) w₁) fun err =>
      .fix fun w₂ h₂ => ?_
    have htaken : TakenTogether uuid w w₂ := by
      refine (h₂.takenTogether hmir (hall remain w₁ h₁ (not_le.1 hpos))).imp ?_ ?_ <;>
        exact fun h x hx => by rw [h x hx, hsnaps]
    cases err with
    | some err => exact .pure fun s hs => hs ▸ htaken
    | none =>
      refine .bind (requestIf_spec (Node.lacks uuid) (Node.snapshot uuid) a w₂) fun err =>
        .pure fun w₃ h₃ => ?_
      have hother : ∀ x, ⟨x, .rw⟩ ∈ w₃.c.replicas → w₃.nodes x = w₂.nodes x := fun x hx => by
        refine h₃.other x fun hxa => ha ?_
        rw [h₃.c, h₂.c] at hx
        exact List.mem_singleton.1 hxa ▸ (hlists.rw x hx).resolve_right id
      rw [TakenTogether, h₃.c] at *
      exact htaken.imp (fun h x hx => by rw [hother x hx, h x hx])
        fun h x hx => by rw [hother x hx, h x hx]

theorem addReplicaNoLock_together (hw : Mirrored w.c) {uuid : String}
    (hall : ((beforeSnapshot a).run w).1 = true → AllOrNone uuid ((beforeSnapshot a).run w).2) :
    Triple (fun s => s = w) (addReplicaNoLock a (some uuid)) fun _ s =>
      Mirrored s.c ∧ TakenTogether uuid w s := by
  refine .bind (((canAdd_spec w hw a).and (Triple.result w)).pre fun s hs => ⟨hs, hs⟩)
    fun err => .fix fun w₁ h₁ => ?_
  obtain ⟨⟨hmir₁, hreach₁, hcan⟩, hrun⟩ := h₁
  have hsnaps := snaps_of_reach (S := { drops := True }) (fun _ _ h => False.elim h)
    (hreach₁ { drops := True } trivial)
  rw [beforeSnapshot, run_bind hrun] at hall
  cases err with
  | some err => exact .pure fun s hs => hs ▸ ⟨hmir₁, .inr fun x _ => hsnaps x⟩
  | none =>
    have hnew : ⟨a, .rw⟩ ∉ w₁.c.replicas := fun h => (hcan rfl).not_mem
      (List.mem_map_of_mem (List.mem_append_left _ h))
    have htogether : Triple (fun s => s = w₁) (snapshotToAdd a uuid) fun _ s =>
        TakenTogether uuid w₁ s := by
      refine snapshotToAdd_together hmir₁ hnew fun remain w₂ hremain hpos => ?_
      rw [run_bind hremain] at hall
      exact hall (decide_eq_true hpos)
    refine .bind (((snapshotToAdd_lists hmir₁ a uuid).and htogether).pre fun s hs => ⟨hs, hs⟩)
      fun err => .fix fun w₂ h₂ => ?_
    obtain ⟨⟨hmir₂, hrs, hqs⟩, htaken⟩ := h₂
    have htaken₂ : TakenTogether uuid w w₂ := by
      refine htaken.imp ?_ ?_ <;> exact fun h x hx => by rw [h x hx, hsnaps]
    cases err with
    | some err => exact .pure fun s hs => hs ▸ ⟨hmir₂, htaken₂⟩
    | none =>
      refine (attach_spec w₂ hmir₂ ?_ ?_).post fun err s hs => ⟨hs.mirrored, ?_⟩
      · rw [hrs, hqs]
        exact (hcan rfl).not_mem
      · rw [hrs]
        exact (hcan rfl).no_wo
      · have hreach := hs.reach { adds := fun x => x = a } rfl
        exact htaken₂.reach hreach (fun x _ => snaps_of_reach (fun _ _ h => False.elim h) hreach x)
          fun _ => id

theorem addReplicaCommit_together (hw : Mirrored w.c) {uuid : String}
    (hall : ((beforeSnapshot a).run w).1 = true → AllOrNone uuid ((beforeSnapshot a).run w).2) :
    Triple (fun s => s = w) (addReplicaCommit a uuid) fun _ s => TakenTogether uuid w s := by
  refine .bind (addReplicaNoLock_together hw hall) fun err => .fix fun w₁ h₁ => ?_
  cases err with
  | some err => exact .pure fun s hs => hs ▸ h₁.2
  | none =>
    rintro s rfl
    have hreach := (safe_update (S := { updates := True }) (.inl trivial) s h₁.1).2
    exact h₁.2.reach hreach (fun x _ => snaps_of_reach (fun _ _ h => False.elim h) hreach x)
      fun _ => id

theorem addReplicaCommit_agreed (hw : Mirrored w.c) (h : Agreed w) {uuid : String}
    (hall : ((beforeSnapshot a).run w).1 = true → AllOrNone uuid ((beforeSnapshot a).run w).2) :
    Agreed ((addReplicaCommit a uuid).run w).2 := by
  have hreach := (safe_addReplicaCommit (S := (Op.addCommit a uuid).scope) trivial rfl
    (fun _ => rfl) w hw).2
  have hrw : ∀ x, ⟨x, .rw⟩ ∈ ((addReplicaCommit a uuid).run w).2.c.replicas →
      ⟨x, .rw⟩ ∈ w.c.replicas := fun x hx => ((modesFrom_of_reach hreach).rw x hx).resolve_right id
  have hwo := addReplicaCommit_wo hw a uuid w rfl
  rcases addReplicaCommit_together hw hall w rfl with hall | hnone
  · refine ⟨fun x y hx hy => ?_, fun x y _ hy => ?_⟩
    · rw [hall x hx, hall y hy]
      rfl
    · rw [hall y hy]
      exact List.cons_ne_nil _ _
  · refine ⟨fun x y hx hy => ?_, fun x y hx hy => ?_⟩
    · rw [hnone x hx, hnone y hy]
      exact h.latest x y (hrw x hx) (hrw y hy)
    · rcases hwo with hwo | hsnap
      · rw [hnone y hy]
        exact h.some x y (hwo x hx) (hrw y hy)
      · exact hsnap y hy

/-! ## Runs -/

/-- The replicas in mode `RW` all take the snapshot of an addition or none of them does, by the
replies to the requests, and `Start` is called with one replica. The chain of a replica in mode `RW`
is changed by snapshots only, above all not by `Revert`, and only a rebuild sets a replica to mode
`RW`. -/
def Op.Together (op : Op) (w : World) : Prop :=
  match op with
  | .addCommit a uuid => ((beforeSnapshot a).run w).1 = true →
      AllOrNone uuid ((beforeSnapshot a).run w).2
  | .start as => as.length ≤ 1
  | .setReplicaMode _ mode => mode ≠ .rw
  | .revertCommit _ _ => False
  | .node a n => ⟨a, .rw⟩ ∈ w.c.replicas → n.snaps.head? = (w.nodes a).snaps.head?
  | _ => True

instance (op : Op) (w : World) : Decidable (op.Together w) := by
  apply @Op.casesOn (Decidable <| ·.Together w) op <;> intros <;> unfold Op.Together <;>
    infer_instance

theorem act_agreed (hw : Mirrored w.c) (hagreed : Agreed w) {op : Op}
    (h : op.Together w) : Agreed (op.act.run w).2 := by
  obtain ⟨hmir, hreach⟩ := safe_act op w hw
  cases op with
  | start as =>
    rcases eq_or_ne w.c.replicas [] with hnil | hne
    · exact agreed_of_length_le_one ((length_of_start hmir hnil hreach).trans h)
    · have hsame : ((Op.start as).act.run w).2 = w := start_of_replicas w hne as w rfl
      rw [hsame]
      exact hagreed
  | addCommit a uuid => exact addReplicaCommit_agreed hw hagreed h
  | verifyRebuild a => exact verifyRebuildReplica_agreed hw hagreed a w rfl
  | setReplicaMode a m =>
    exact hagreed.reach (S := (Op.setReplicaMode a m).scope) (fun _ _ h => False.elim h)
      (fun _ => id) (fun _ hs => h hs.2.symm) hreach
  | snapshot name uuid => exact snapshot_agreed hw hagreed name uuid w rfl
  | writeAt wr =>
    refine hagreed.reach ?_ (fun _ => id) (fun _ => id) hreach
    rintro x f ⟨wr, rfl⟩ n
    rfl
  | resize name bytes =>
    refine hagreed.reach ?_ (fun _ => id) (fun _ => id) hreach
    rintro x f ⟨n, rfl⟩ k
    rfl
  | revertCommit clients name => exact h.elim
  | _ => exact hagreed.reach (fun _ _ h => False.elim h) (fun _ => id) (fun _ => id) hreach

/-- In a run in which the replicas in mode `RW` take the snapshots of additions together, they have
the same disk below their heads in every state that is reached. -/
theorem same_latest_snapshot (name : String) (rf : ℕ) (nodes : Address → Node)
    (ls : List (Op × (ℕ → Moment))) (s : System)
    (htogether : Transition.Along System.step (fun s l => l.1.Together (s.world.onTape l.2))
      (System.new name rf nodes) ls)
    (h : run System.step (System.new name rf nodes) ls = some s) (a b : Address)
    (ha : ⟨a, .rw⟩ ∈ s.world.c.replicas) (hb : ⟨b, .rw⟩ ∈ s.world.c.replicas) :
    (s.world.nodes a).chain[1]? = (s.world.nodes b).chain[1]? := by
  have hagreed : Agreed s.world := by
    refine (System.run_induction (I := fun s => Agreed s.world) ?_ ?_ ?_ (mirrored_new name rf)
      (agreed_of_length_le_one (Nat.zero_le _)) htogether h).2
    · intro s op tape s' hs hagreed hg hop hstep
      rw [System.world_of_step hstep hop]
      exact act_agreed (w := s.world.onTape tape) hs ⟨hagreed.latest, hagreed.some⟩ hg
    · exact fun s _ => agreed_of_length_le_one (Nat.zero_le _)
    · intro s a n tape hagreed hg
      have hhead : ∀ x, ⟨x, .rw⟩ ∈ s.world.c.replicas →
          ((s.world.setNode a fun _ => n).nodes x).snaps.head? =
            (s.world.nodes x).snaps.head? := by
        intro x hx
        rcases eq_or_ne x a with rfl | hne
        · simpa [World.setNode, World.onTape] using hg hx
        · simp [World.setNode, update_of_ne hne]
      refine ⟨fun x y hx hy => ?_, fun x y hx hy hnil => ?_⟩
      · rw [hhead x hx, hhead y hy]
        exact hagreed.latest x y hx hy
      · have := hhead y hy
        rw [hnil] at this
        exact hagreed.some x y hx hy (List.head?_eq_none_iff.1 this.symm)
  have hchain : ∀ n : Node, n.chain[1]? = n.snaps.head?.map DiskName.snap := fun n => by
    rw [Node.chain]
    cases n.snaps <;> rfl
  rw [hchain, hchain, hagreed.latest a b ha hb]

theorem same_latest_snapshot_rebuildOne : ∃ s,
    run System.step (System.new "vol" 2 fun _ => .blank)
      (System.calmly (rebuildOne ++ [.snapshot "s" ""])) = some s ∧
    (s.world.nodes "tcp://a:9502").chain[1]? = some (.snap "s") ∧
    (s.world.nodes "tcp://a:9502").chain[1]? = (s.world.nodes "tcp://b:9502").chain[1]? :=
  exists_of_any (p := fun s => (s.world.nodes "tcp://a:9502").chain[1]? = some (.snap "s") ∧
      ⟨"tcp://a:9502", .rw⟩ ∈ s.world.c.replicas ∧ ⟨"tcp://b:9502", .rw⟩ ∈ s.world.c.replicas)
    (by decide +kernel) fun s hs h => ⟨h.1, same_latest_snapshot _ _ _ _ s
      (along_of_check (by decide +kernel)) hs _ _ h.2.1 h.2.2⟩

/-- Two replicas are in mode `RW`, and a third one is added. Its snapshot fails on one of the
two. -/
def addPartly : List (Op × (ℕ → Moment)) :=
  System.calmly (rebuildOne ++ [.addBegin "tcp://c:9502"]) ++
    [(.addCommit "tcp://c:9502" "s2", refuseAt 5)]

/-- Both replicas stay in mode `RW`, with different latest snapshots. -/
theorem addPartly_disagrees : ∃ s,
    run System.step (System.new "vol" 3 fun _ => .blank) addPartly = some s ∧
      ⟨"tcp://a:9502", .rw⟩ ∈ s.world.c.replicas ∧ ⟨"tcp://b:9502", .rw⟩ ∈ s.world.c.replicas ∧
      (s.world.nodes "tcp://a:9502").chain[1]? ≠ (s.world.nodes "tcp://b:9502").chain[1]? :=
  exists_of_any (by decide +kernel) fun _ _ => id

end Jiva
