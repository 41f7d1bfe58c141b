import Jiva.Requests

/-!
# The replies of Start

`Start` adds its replicas one after the other, and then reads their revision counters. An addition
without an error takes ten moments of the tape (`Admitted`) : the connection, the two questions
about the size, the mode `WO` and the tables, the status of the clone, the mode `RW` and the tables
again.

An error at the first replica leaves no replica in mode `RW`. After that one error is too many, and
`StartsWhole` says by the replies that there is none (`start_settled`).
-/

namespace Jiva

open Hoare Controller Relation

variable {w w' : World} {a : Address} {k l : ℕ}

/-! ## Moments -/

/-- The next `k` replies have no error, and no clone has failed. -/
def Fine (k : ℕ) (w : World) : Prop :=
  ∀ i < k, (w.tape i).reply.err = none ∧ (w.tape i).cloned = true

/-- `k` moments went by, in which no size has changed. -/
structure Spent (k : ℕ) (w w' : World) : Prop where
  tape : ∀ n, w'.tape n = w.tape (n + k)
  nodes : ∀ x, (w'.nodes x).size = (w.nodes x).size ∧
    (w'.nodes x).sectorSize = (w.nodes x).sectorSize
  size : w'.c.size = w.c.size ∧ w'.c.sectorSize = w.c.sectorSize
  deletion : w'.c.isSnapDeletionInProgress = w.c.isSnapDeletionInProgress

theorem Spent.trans {w₁ : World} (h : Spent k w w₁) (h' : Spent l w₁ w') : Spent (k + l) w w' where
  tape n := by rw [h'.tape, h.tape, Nat.add_assoc, Nat.add_comm l k]
  nodes x := ⟨(h'.nodes x).1.trans (h.nodes x).1, (h'.nodes x).2.trans (h.nodes x).2⟩
  size := ⟨h'.size.1.trans h.size.1, h'.size.2.trans h.size.2⟩
  deletion := h'.deletion.trans h.deletion

theorem Fine.mono (h : Fine k w) (hle : l ≤ k) : Fine l w :=
  fun i hi => h i (by omega)

theorem Fine.spent (h : Fine (k + l) w) (hs : Spent k w w') : Fine l w' := fun i hi => by
  rw [hs.tape]
  exact h (i + k) (by omega)

theorem spent_advance (w : World) : Spent 1 w w.advance :=
  ⟨fun _ => rfl, fun _ => ⟨rfl, rfl⟩, ⟨rfl, rfl⟩, rfl⟩

theorem spent_requested (a : Address) (m : BackendMode) (w : World) :
    Spent 1 w (w.requested a (Node.setReplicaMode m)) := by
  unfold World.requested
  split_ifs
  · refine ⟨fun _ => rfl, fun x => ?_, ⟨rfl, rfl⟩, rfl⟩
    rcases eq_or_ne x a with rfl | hx
    · simp [World.setNode, World.advance, Node.setReplicaMode]
    · simp [World.setNode, World.advance, Function.update_of_ne hx]
  · exact spent_advance w

/-! ## One replica -/

theorem attach_spent (hw : Mirrored w.c) (hnew : a ∉ w.c.replicas.map ReplicaEntry.address) :
    Triple (fun s => s = w) (attach a) fun err s =>
      (err = none → Spent 3 w s) ∧ (Fine 1 w → err = none) := by
  refine .bind (Q := fun err s => err = (w.tape 0).reply.err ∧
    s = w.requested a (Node.setReplicaMode .wo)) ?_ fun err => .fix ?_
  · rintro s rfl
    exact ⟨rfl, rfl⟩
  rintro w₁ ⟨herr, hw₁⟩
  have hspent : Spent 1 w w₁ := hw₁ ▸ spent_requested a .wo w
  have hc : w₁.c = w.c := hw₁ ▸ requested_c a _ w
  cases err with
  | some e =>
    refine .pure fun s _ => ⟨nofun, fun hfine => ?_⟩
    rw [(hfine 0 Nat.one_pos).1] at herr
    exact nomatch herr
  | none =>
    have hnone : w₁.c.backend.backends.lookup a = none := by
      rw [hc, hw.mirror a, modeOf_eq_none.2 hnew]
      rfl
    rintro s rfl
    refine ⟨fun _ => ?_, fun _ => rfl⟩
    have hbuild : ((do
        modify fun w => w.setC fun c => { c with replicas := c.replicas ++ [⟨a, .wo⟩] }
        addBackend a ⟨a⟩
        pure none : Ctl (Option Err)).run s).2 =
        (buildReadWriters.run ((s.setC fun c => { c with
          replicas := c.replicas ++ [⟨a, .wo⟩] }).setBackend fun r =>
            { r with backends := r.backends.insert a ⟨⟨a⟩, .wo⟩ })).2 := by
      show ((if (s.c.backend.backends.lookup a).isSome then pure () else _ : Ctl Unit).run _).2 = _
      rw [hnone]
      rfl
    rw [hbuild]
    exact hspent.trans (l := 2) ⟨fun _ => rfl, fun _ => ⟨rfl, rfl⟩, ⟨rfl, rfl⟩, rfl⟩

/-- How the end of an addition comes out. -/
structure Finished (a : Address) (err : Option Err) (w w' : World) : Prop where
  ok : err = none → Mirrored w'.c ∧ Spent 4 w w' ∧
    w'.c.replicas = setEntries a .rw w.c.replicas ∧
    w'.c.quorumReplicas = setEntries a .rw w.c.quorumReplicas
  failed : err ≠ none → w'.c.replicas ⊆ w.c.replicas
  fine : Fine 2 w → err = none

theorem undoStart_finished {v : World} (hw : Mirrored v.c) (hrs : v.c.replicas = w.c.replicas)
    (hfine : ¬Fine 2 w) (err : Err) :
    Triple (fun s => s = v) (undoStart a err) fun err => Finished a err w := by
  refine .bind (removeReplicaNoLock_spec v hw a) fun _ => .pure fun s hs =>
    ⟨nofun, fun _ => ?_, fun h => (hfine h).elim⟩
  rw [hs.replicas, hrs]
  exact List.eraseP_subset

theorem getCloneStatus_run (hw : Mirrored w.c) {m : BackendMode} (ha : ⟨a, m⟩ ∈ w.c.replicas) :
    (Replicator.getCloneStatus a).run w = (match (w.tape 0).reply.err with
      | some e => .error e
      | none => .ok (w.tape 0).cloned, w.advance) := by
  unfold Replicator.getCloneStatus
  rw [run_bind (x := get) (s := w) rfl, lookup_of_mem hw ha]
  dsimp only
  rw [run_bind (x := moment) (s := w) rfl]
  cases (w.tape 0).reply.err with
  | some e => rfl
  | none => rfl

theorem finishStart_finished (hw : Mirrored w.c) (ha : ⟨a, .wo⟩ ∈ w.c.replicas) :
    Triple (fun s => s = w) (finishStart a) fun err => Finished a err w := by
  refine .bind (Triple.result w) fun status => .fix fun w₁ hrun => ?_
  rw [getCloneStatus_run hw ha, Prod.mk.injEq] at hrun
  obtain ⟨hstatus, rfl⟩ := hrun
  match status with
  | .error e =>
    refine undoStart_finished (w := w) (v := w.advance) hw rfl (fun hfine => ?_) _
    rw [(hfine 0 Nat.two_pos).1] at hstatus
    exact nomatch hstatus
  | .ok false =>
    refine undoStart_finished (w := w) (v := w.advance) hw rfl (fun hfine => ?_) _
    rw [(hfine 0 Nat.two_pos).1, (hfine 0 Nat.two_pos).2] at hstatus
    exact nomatch hstatus
  | .ok true =>
    refine .bind (Triple.result w.advance) fun err => .fix fun w₁ hrun => ?_
    rw [Replicator.setReplicaMode, toOne_run (w := w.advance) hw ha, Prod.mk.injEq] at hrun
    obtain ⟨herr, hw₁⟩ := hrun
    have hspent : Spent 1 w.advance w₁ := hw₁ ▸ spent_requested a .rw w.advance
    have hc : w₁.c = w.c := hw₁ ▸ requested_c a _ w.advance
    have hw₁ : Mirrored w₁.c := hc ▸ hw
    cases err with
    | some e =>
      refine undoStart_finished hw₁ (by rw [hc]) (fun hfine => ?_) _
      exact nomatch herr.symm.trans (hfine 1 Nat.one_lt_two).1
    | none =>
      refine .bind (Triple.result w₁) fun _ => .pure fun s hs =>
        ⟨fun _ => ?_, fun h => (h rfl).elim, fun _ => rfl⟩
      have hed := setReplicaModeNoLock_edited hw₁ a (m := .rw) (by decide)
      have htape := setReplicaModeNoLock_tape hw₁ (hc ▸ ha) (by decide) .rw
      obtain ⟨-, -, r, hr⟩ := setReplicaModeNoLock_spec w₁ hw₁ a (m := .rw) (by decide) w₁ rfl
      rw [hs] at hed htape hr
      have hset : Spent 2 w₁ s := ⟨htape, fun x => by rw [hed.side.1]; exact ⟨rfl, rfl⟩, hed.size,
        by rw [hr]; rfl⟩
      exact ⟨hed.mirrored, ((spent_advance w).trans hspent).trans hset, by rw [hed.replicas, hc],
        by rw [hed.quorumReplicas, hc]⟩

/-- The replicas that `Start` has added are in mode `RW`. -/
structure AllOpened (w : World) : Prop where
  mirrored : Mirrored w.c
  rw : ∀ r ∈ w.c.replicas, r.mode = .rw
  quorumReplicas : w.c.quorumReplicas = []

/-- The replica at `a` was added by `Start`. -/
structure Admitted (a : Address) (w w' : World) : Prop extends AllOpened w' where
  tape : ∀ n, w'.tape n = w.tape (n + 10)
  nodes : ∀ x, (w'.nodes x).size = (w.nodes x).size ∧
    (w'.nodes x).sectorSize = (w.nodes x).sectorSize
  replicas : w'.c.replicas = w.c.replicas ++ [⟨a, .rw⟩]
  size : w'.c.size = (w.nodes a).size ∧ w'.c.sectorSize = (w.nodes a).sectorSize
  deletion : w'.c.isSnapDeletionInProgress = false

/-- The replica at `a` can be added, as far as its size and the deletion of snapshots go. -/
def SizeFits (a : Address) (w : World) : Prop :=
  w.c.isSnapDeletionInProgress = false ∧ (w.c.size = maxInt64 ∨
    w.c.size = (w.nodes a).size ∧ w.c.sectorSize = (w.nodes a).sectorSize)

/-- How an addition comes out. -/
structure Tried (a : Address) (err : Option Err) (w w' : World) : Prop where
  ok : err = none → Admitted a w w'
  failed : err ≠ none → w'.c.replicas ⊆ w.c.replicas ++ [⟨a, .wo⟩]
  fine : Fine 10 w → SizeFits a w → err = none

theorem failStart_tried {v : World} (hrs : v.c.replicas = w.c.replicas)
    (hfine : Fine 10 w → ¬SizeFits a w) (err : Err) :
    Triple (fun s => s = v) (failStart a err) fun err => Tried a err w := by
  rintro s rfl
  refine ⟨nofun, fun _ => ?_, fun h hfits => (hfine h hfits).elim⟩
  show s.c.replicas ⊆ _
  rw [hrs]
  exact List.subset_append_left _ _

theorem canAdd_run (h : AllOpened w) (hnew : a ∉ w.c.replicas.map ReplicaEntry.address) :
    (canAdd a).run w = (if w.c.isSnapDeletionInProgress then
      some (.msg "snapshot deletion is in progress") else none, w) := by
  have hhas : ¬w.c.hasReplica a := by
    rw [hasReplica_eq_true, h.quorumReplicas, List.append_nil]
    exact hnew
  have hwo : w.c.hasWOReplica = none := by
    rw [hasWOReplica, List.find?_eq_none.2 fun r hr => by simp [h.rw r hr]]
    rfl
  unfold canAdd
  rw [run_bind (x := get) (s := w) rfl, if_neg hhas, hwo]
  show (if w.c.isSnapDeletionInProgress then _ else _ : Ctl (Option Err)).run w = _
  split <;> rfl

/-- An addition, for a replica whose size is known after three moments. -/
theorem addSized_tried (h : AllOpened w) (hnew : a ∉ w.c.replicas.map ReplicaEntry.address) :
    Triple (fun s => s = w.advance.advance.advance)
      (addSized a (w.nodes a).size (w.nodes a).sectorSize) fun err => Tried a err w := by
  set n := (w.nodes a).size
  set m := (w.nodes a).sectorSize
  set w₀ := w.advance.advance.advance.setC (takeSize n m)
  have hbackend : w₀.c.replicas = w.c.replicas ∧ w₀.c.quorumReplicas = w.c.quorumReplicas ∧
      w₀.c.backend = w.c.backend ∧
      w₀.c.isSnapDeletionInProgress = w.c.isSnapDeletionInProgress := by
    show (takeSize n m w.c).replicas = _ ∧ (takeSize n m w.c).quorumReplicas = _ ∧
      (takeSize n m w.c).backend = _ ∧ (takeSize n m w.c).isSnapDeletionInProgress = _
    unfold takeSize
    split <;> exact ⟨rfl, rfl, rfl, rfl⟩
  obtain ⟨hrs, hqs, hback, hflag⟩ := hbackend
  have htake : SizeFits a w → w₀.c.size = n ∧ w₀.c.sectorSize = m := by
    rintro ⟨-, hsize⟩
    show (takeSize n m w.c).size = n ∧ (takeSize n m w.c).sectorSize = m
    unfold takeSize
    split
    · exact ⟨rfl, rfl⟩
    · exact hsize.resolve_left (by assumption)
  refine .modify_bind (.get ?_)
  rintro s rfl
  refine .ite (fun hne => ?_) fun hsize => ?_
  · exact failStart_tried hrs (fun _ hfits => hne (htake hfits).1) _
  refine .ite (fun hne => ?_) fun hsector => ?_
  · exact failStart_tried hrs (fun _ hfits => hne (htake hfits).2) _
  have hopen : AllOpened w₀ := by
    refine ⟨⟨?_, ?_⟩, hrs ▸ h.rw, hqs.trans h.quorumReplicas⟩
    · rw [hrs, hqs, hback]
      exact h.mirrored.toMatches
    · rw [hback]
      exact h.mirrored.built
  have hnew₀ : a ∉ w₀.c.replicas.map ReplicaEntry.address := hrs ▸ hnew
  have hcan := canAdd_run hopen hnew₀
  by_cases hdel : w₀.c.isSnapDeletionInProgress = true
  · rw [if_pos hdel] at hcan
    refine .bind (Q := fun err s => err ≠ none ∧ s = w₀) ?_ fun err => .fix ?_
    · rintro s rfl
      rw [addReplicaNoLock, run_bind hcan]
      exact ⟨nofun, rfl⟩
    · rintro s ⟨hsome, rfl⟩
      cases err with
      | none => exact (hsome rfl).elim
      | some err =>
        refine failStart_tried hrs (fun _ hfits => ?_) _
        rw [hflag, hfits.1] at hdel
        exact nomatch hdel
  · rw [if_neg hdel] at hcan
    have hattach := attach_spec w₀ hopen.mirrored (a := a)
      (by rw [hopen.quorumReplicas, List.append_nil]; exact hnew₀)
      fun r hr => by simp [hopen.rw r hr]
    refine .bind (Q := fun err s => Attached a err w₀ s ∧ (err = none → Spent 3 w₀ s) ∧
      (Fine 1 w₀ → err = none)) ?_ fun err => .fix ?_
    · rintro s rfl
      rw [addReplicaNoLock, run_bind hcan]
      exact ⟨hattach w₀ rfl, attach_spent hopen.mirrored hnew₀ w₀ rfl⟩
    rintro w₁ ⟨hat, hspent, hone⟩
    have hfine₀ : ∀ {k}, Fine (3 + k) w → Fine k w₀ := fun hf i hi => hf (i + 3) (by omega)
    cases err with
    | some err =>
      refine failStart_tried ((hat.failed nofun).trans hrs) (fun hf _ => ?_) _
      exact nomatch hone (hfine₀ (hf.mono (by omega)))
    | none =>
      have hadded := hat.added rfl
      have hmem : ⟨a, .wo⟩ ∈ w₁.c.replicas := by
        rw [hadded]
        simp
      refine (finishStart_finished hat.mirrored hmem).post fun err s hs => ⟨fun herr => ?_,
        fun herr => ?_, fun hf _ => hs.fine ((hfine₀ (k := 7) hf |>.mono (by omega)).spent
          (l := 2) (hspent rfl))⟩
      · obtain ⟨hmir, hspent₂, hrs₂, hqs₂⟩ := hs.ok herr
        have hrun := (hspent rfl).trans hspent₂
        have hrw : s.c.replicas = w.c.replicas ++ [⟨a, .rw⟩] := by
          rw [hrs₂, hadded, setEntries_append, setEntries_eq_self hnew₀, hrs]
          simp [setEntries]
        refine ⟨⟨hmir, fun r hr => ?_, ?_⟩, fun k => ?_, hrun.nodes, hrw, ?_, ?_⟩
        · rw [hrw] at hr
          rcases List.mem_append.1 hr with hr | hr
          · exact h.rw r hr
          · rw [List.mem_singleton.1 hr]
        · rw [hqs₂, hat.quorumReplicas, hopen.quorumReplicas]
          rfl
        · exact hrun.tape k
        · exact ⟨hrun.size.1.trans (not_not.1 hsize), hrun.size.2.trans (not_not.1 hsector)⟩
        · exact hrun.deletion.trans (Bool.eq_false_iff.2 hdel)
      · rw [← hrs, ← hadded]
        exact hs.failed herr

/-- A question that is answered takes one moment. -/
theorem query_answered {β : Type} (a : Address) (f : Node → β) (w : World) :
    Triple (fun s => s = w) (query a f) fun res s => s = w.advance ∧
      (res = .ok (f (w.nodes a)) ∨ (w.tape 0).reply.err ≠ none ∧ ∃ e, res = .error e) := by
  rintro s rfl
  rw [query_run]
  refine ⟨rfl, ?_⟩
  cases h : (s.tape 0).reply.err with
  | none => exact .inl rfl
  | some e => exact .inr ⟨nofun, e, rfl⟩

theorem addReplicaDuringStartNoLock_tried (h : AllOpened w)
    (hnew : a ∉ w.c.replicas.map ReplicaEntry.address) :
    Triple (fun s => s = w) (addReplicaDuringStartNoLock a) fun err => Tried a err w := by
  refine .bind (Q := fun err s => err = (w.tape 0).reply.err ∧ s = w.advance) ?_ fun err => .fix ?_
  · rintro s rfl
    exact ⟨rfl, rfl⟩
  rintro _ ⟨herr, rfl⟩
  cases err with
  | some e =>
    refine failStart_tried (w := w) (v := w.advance) rfl (fun hf _ => ?_) _
    rw [(hf 0 (by omega)).1] at herr
    exact nomatch herr
  | none =>
    refine .bind (query_answered a Node.size w.advance) fun res => .fix ?_
    rintro _ ⟨rfl, rfl | ⟨herr, e, rfl⟩⟩
    · refine .bind (query_answered a Node.sectorSize w.advance.advance) fun res =>
        .fix ?_
      rintro _ ⟨rfl, rfl | ⟨herr, e, rfl⟩⟩
      · exact addSized_tried h hnew
      · exact failStart_tried (w := w) (v := w.advance.advance.advance) rfl
          (fun hf _ => herr (hf 2 (by omega)).1) _
    · exact failStart_tried (w := w) (v := w.advance.advance) rfl
        (fun hf _ => herr (hf 1 (by omega)).1) _

/-! ## All replicas -/

/-- With fine replies all replicas are added, and `10` moments go by for each. -/
theorem addAllDuringStart_fine : ∀ {as : List Address} {w : World}, AllOpened w → as.Nodup →
    (∀ a ∈ as, a ∉ w.c.replicas.map ReplicaEntry.address) → Fine (10 * as.length) w →
    (∀ a ∈ as, w.c.isSnapDeletionInProgress = false ∧ w.c.size = (w.nodes a).size ∧
      w.c.sectorSize = (w.nodes a).sectorSize) →
    Triple (fun s => s = w) (addAllDuringStart as) fun err s => err = none ∧ AllOpened s ∧
      s.c.replicas = w.c.replicas ++ as.map (⟨·, .rw⟩) ∧
      ∀ n, s.tape n = w.tape (n + 10 * as.length)
  | [], w, h, _, _, _, _ => .pure fun s hs => by
    subst hs
    exact ⟨rfl, h, by simp, fun _ => rfl⟩
  | a :: as, w, h, hnodup, hnew, hfine, hfits => by
    rw [List.nodup_cons] at hnodup
    rw [List.length_cons, Nat.mul_succ] at hfine
    obtain ⟨hdel, hsize⟩ := hfits a List.mem_cons_self
    refine .bind (addReplicaDuringStartNoLock_tried h (hnew a List.mem_cons_self)) fun err =>
      .fix fun w₁ h₁ => ?_
    obtain rfl := h₁.fine (hfine.mono (by omega)) ⟨hdel, .inr hsize⟩
    have hadm := h₁.ok rfl
    have hrest := @addAllDuringStart_fine as w₁ hadm.toAllOpened hnodup.2
      (fun x hx hmem => ?_) (fun i hi => ?_) (fun x hx => ?_)
    · refine hrest.post fun err s hs => ⟨hs.1, hs.2.1, ?_, fun n => ?_⟩
      · rw [hs.2.2.1, hadm.replicas, List.append_assoc]
        rfl
      · rw [hs.2.2.2, hadm.tape, List.length_cons, Nat.mul_succ, Nat.add_assoc]
    · rw [hadm.replicas, List.map_append, List.mem_append] at hmem
      rcases hmem with hmem | hmem
      · exact hnew x (List.mem_cons_of_mem a hx) hmem
      · obtain rfl : x = a := List.mem_singleton.1 hmem
        exact hnodup.1 hx
    · rw [hadm.tape]
      exact hfine (i + 10) (by omega)
    · obtain ⟨-, hx⟩ := hfits x (List.mem_cons_of_mem a hx)
      refine ⟨hadm.deletion, ?_, ?_⟩
      · rw [hadm.size.1, (hadm.nodes x).1, ← hsize.1, hx.1]
      · rw [hadm.size.2, (hadm.nodes x).2, ← hsize.2, hx.2]

theorem revisionCounters_fine : ∀ {as : List Address} {w : World}, Mirrored w.c →
    (∀ a ∈ as, ∃ m, ⟨a, m⟩ ∈ w.c.replicas) → (∀ i < as.length, (w.tape i).reply.err = none) →
    Triple (fun s => s = w) (revisionCounters as) fun res _ => ∃ counters, res = .ok counters
  | [], _, _, _, _ => .pure fun _ _ => ⟨[], rfl⟩
  | a :: as, w, hw, hmem, hfine => by
    obtain ⟨m, ha⟩ := hmem a List.mem_cons_self
    have hrun := getRevisionCounter_run hw ha
    rw [hfine 0 (Nat.succ_pos _)] at hrun
    refine .bind (Q := fun res s => res = ((w.nodes a).revisionCounter, none) ∧
      s = w.advance) ?_ fun res => .fix ?_
    · rintro s rfl
      rw [hrun]
      exact ⟨rfl, rfl⟩
    rintro _ ⟨rfl, rfl⟩
    have hrest := @revisionCounters_fine as w.advance hw
      (fun x hx => hmem x (List.mem_cons_of_mem a hx)) fun i hi => hfine (i + 1) (by simpa using hi)
    refine .bind hrest fun res => .fix ?_
    rintro s ⟨counters, rfl⟩
    exact .pure fun _ _ => ⟨_, rfl⟩

/-- By the replies, `Start` has no error after the first replica. Its addition takes the first ten
moments, and each of the others needs a clone that has not failed and the same sizes. -/
def StartsWhole (as : List Address) (w : World) : Prop :=
  as.Nodup ∧
  (∀ a ∈ as, ∀ b ∈ as, (w.nodes a).size = (w.nodes b).size ∧
    (w.nodes a).sectorSize = (w.nodes b).sectorSize) ∧
  ∀ i < 11 * as.length, 10 ≤ i → (w.tape i).reply.err = none ∧ (w.tape i).cloned = true

instance (as : List Address) (w : World) : Decidable (StartsWhole as w) :=
  inferInstanceAs (Decidable (_ ∧ _ ∧ _))

theorem checkRevisions_fine (h : AllOpened w)
    (hfine : ∀ i < w.c.replicas.length, (w.tape i).reply.err = none) :
    Triple (fun s => s = w) checkRevisions fun err _ => err = none := by
  refine .get ?_
  rintro w rfl
  refine .bind (revisionCounters_fine h.mirrored (fun a ha => ?_) (by simpa using hfine))
    fun res => .fix ?_
  · obtain ⟨r, hr, rfl⟩ := List.mem_map.1 ha
    exact ⟨r.mode, hr⟩
  · rintro s ⟨counters, rfl⟩ t -
    rfl

theorem startAll_settled {as : List Address} (h : AllOpened w) (hnil : w.c.replicas = [])
    (hwhole : StartsWhole as w) : Triple (fun s => s = w) (startAll as) fun err s =>
      err = none ∨ ∀ r ∈ s.c.replicas, r.mode ≠ .rw := by
  obtain ⟨hnodup, hsizes, hfine⟩ := hwhole
  cases as with
  | nil =>
    rintro s rfl
    exact .inl (checkRevisions_fine h (by simp [hnil]) s rfl)
  | cons a as =>
    rw [List.nodup_cons] at hnodup
    rw [List.length_cons] at hfine
    have hfirst := addReplicaDuringStartNoLock_tried h (a := a) (by simp [hnil])
    cases hrun : (addReplicaDuringStartNoLock a).run w with
    | mk err w₁ =>
      have h₁ := hfirst w rfl
      rw [hrun] at h₁
      rintro s rfl
      cases err with
      | some err =>
        have hall : (addAllDuringStart (a :: as)).run s = (some err, w₁) := by
          rw [addAllDuringStart, run_bind hrun]
          rfl
        rw [startAll, run_bind hall]
        refine .inr fun r hr => ?_
        have hr := h₁.failed nofun hr
        rw [hnil, List.nil_append, List.mem_singleton] at hr
        simp [hr]
      | none =>
        have hadm := h₁.ok rfl
        have hrest := @addAllDuringStart_fine as w₁ hadm.toAllOpened hnodup.2
          (fun x hx hmem => ?_) (fun i hi => ?_) (fun x hx => ?_)
        · cases hrun₂ : (addAllDuringStart as).run w₁ with
          | mk err w₂ =>
            have h₂ := hrest w₁ rfl
            rw [hrun₂] at h₂
            obtain ⟨rfl, hopen, hrs, htape⟩ := h₂
            have hall : (addAllDuringStart (a :: as)).run s = (none, w₂) := by
              rw [addAllDuringStart, run_bind hrun]
              exact hrun₂
            rw [startAll, run_bind hall]
            refine .inl (checkRevisions_fine hopen (fun i hi => ?_) w₂ rfl)
            rw [hrs, hadm.replicas, hnil] at hi
            rw [htape, hadm.tape]
            simp only [List.nil_append, List.length_append, List.length_singleton,
              List.length_map] at hi
            exact (hfine _ (by omega) (by omega)).1
        · rw [hadm.replicas, hnil] at hmem
          obtain rfl : x = a := by simpa using hmem
          exact hnodup.1 hx
        · rw [hadm.tape]
          exact hfine _ (by omega) (by omega)
        · obtain ⟨hsize, hsector⟩ := hsizes a List.mem_cons_self x (List.mem_cons_of_mem a hx)
          refine ⟨hadm.deletion, ?_, ?_⟩
          · rw [hadm.size.1, (hadm.nodes x).1, hsize]
          · rw [hadm.size.2, (hadm.nodes x).2, hsector]

theorem startFrontend_replicas (w : World) :
    (startFrontend.run w).2.c.replicas = w.c.replicas := by
  show ((if 0 < w.c.replicas.length then _ else _ : Ctl Unit).run w).2.c.replicas = _
  split <;> rfl

/-- `Start` has no error, or leaves no replica in mode `RW`. -/
theorem start_settled {as : List Address}
    (hwhole : w.c.replicas = [] → as.head? = some (tcp w.c.maxRevReplica) → StartsWhole as w) :
    Triple (fun s => s = w) (Controller.start as) fun err s =>
      err = none ∨ ∀ r ∈ s.c.replicas, r.mode ≠ .rw := by
  refine .get ?_
  rintro w rfl
  cases as with
  | nil => exact .pure fun _ _ => .inl rfl
  | cons a as =>
    refine .ite (fun _ => .pure fun _ _ => .inl rfl) fun hlen => ?_
    have hnil : w.c.replicas = [] := by simpa using hlen
    refine .ite (fun _ => .pure ?_) fun htcp => ?_
    · rintro s rfl
      simp [hnil]
    set w₀ := w.setC fun c => { c.reset with size := maxInt64 }
    have hopen : AllOpened w₀ := by
      have hnew := mirrored_new "" 0
      exact ⟨⟨hnew.toMatches, hnew.built⟩, nofun, rfl⟩
    refine .modify_bind (.bind (startAll_settled (w := w₀) hopen rfl ?_) fun err =>
      .fix fun w₁ h₁ => ?_)
    · exact hwhole hnil (congrArg some (not_not.1 htcp))
    refine .bind (Triple.result w₁) fun _ => .pure fun s hs => h₁.imp_right ?_
    have hrs := startFrontend_replicas w₁
    rw [hs] at hrs
    rw [hrs]
    exact id

end Jiva
