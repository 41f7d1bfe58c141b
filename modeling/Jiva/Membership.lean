import Jiva.Queries

/-!
# What the operations of the controller do to its replicas

`Safe S x` says that `x` keeps the invariant `Mirrored`, and that what it does is a sequence of
changes within the scope `S`. There is one lemma for each function of the controller. What an
operation keeps then only has to be looked at for each kind of change.
-/

namespace Jiva

open Hoare Controller Relation

variable {w w' : World} {qs rs : List ReplicaEntry} {a x : Address} {c c' : Controller}
  {f : Controller → Controller}

/-! ## Changes -/

/-- A request that changes neither the snapshots and the size of a replica nor its data. -/
structure Quiet (f : Node → Node) : Prop where
  snaps : ∀ n, (f n).snaps = n.snaps
  below : ∀ n, (f n).below = n.below
  size : ∀ n, (f n).size = n.size
  image : ∀ n, (f n).image = n.image
  writes : ∀ n, (f n).writes = n.writes

/-- The checkpoint stays, or becomes the latest snapshot. -/
def Anchors (n n' : Node) : Prop :=
  n'.checkpoint = n.checkpoint ∨ n'.checkpoint = n.snaps.head?

/-- What an operation may do : whether it removes replicas and sets them to mode `ERR`, which
replicas it adds as data or quorum replicas, which other modes it sets, which requests it sends that
are not quiet, and whether it updates the status, resets the controller, sets the size of the volume
or sends a start signal. Dropping replicas includes an update of the status. -/
structure Scope where
  drops : Prop := False
  adds : Address → Prop := fun _ => False
  addsQuorum : Address → Prop := fun _ => False
  sets : Address → BackendMode → Prop := fun _ _ => False
  sends : Address → (Node → Node) → Prop := fun _ _ => False
  updates : Prop := False
  resets : Prop := False
  resizes : Prop := False
  signals : Prop := False

/-- Nothing of this. -/
def Scope.still : Scope :=
  {}

/-- A change of the data replicas `rs` and the quorum replicas `qs`. -/
inductive Edit (S : Scope) (rs qs : List ReplicaEntry) :
    List ReplicaEntry → List ReplicaEntry → Prop
  | same : Edit S rs qs rs qs
  | mode (a : Address) (m : BackendMode) (hwo : m ≠ .wo) (hm : m = .err ∧ S.drops ∨ S.sets a m) :
      Edit S rs qs (setEntries a m rs) (setEntries a m qs)
  | removeData (a : Address) (hS : S.drops) : Edit S rs qs (rs.eraseP (·.address = a)) qs
  | removeQuorum (a : Address) (hS : S.drops) : Edit S rs qs rs (qs.eraseP (·.address = a))
  | addData (a : Address) (ha : S.adds a) (hnew : a ∉ (rs ++ qs).map ReplicaEntry.address)
      (hwo : ∀ r ∈ rs, r.mode ≠ .wo) : Edit S rs qs (rs ++ [⟨a, .wo⟩]) qs
  | addQuorum (a : Address) (ha : S.addsQuorum a) (hnew : a ∉ (rs ++ qs).map ReplicaEntry.address) :
      Edit S rs qs rs (qs ++ [⟨a, .wo⟩])
  | reset (hS : S.resets) : Edit S rs qs [] []

/-- The status is the same. -/
def SameStatus (c c' : Controller) : Prop :=
  c'.rwReplicaCount = c.rwReplicaCount ∧ c'.readOnly = c.readOnly ∧
    c'.quorumReplicaCount = c.quorumReplicaCount ∧ c'.checkpoint = c.checkpoint

/-- The scope includes updates of the status. -/
def Scope.Updates (S : Scope) : Prop :=
  S.updates ∨ S.drops

/-- No replica is registered and no leader is chosen : registrations and the leader are given up if
anything. -/
structure Withdraws (c c' : Controller) : Prop where
  registered : ∀ a r, c'.registeredReplicas.lookup a = some r →
    c.registeredReplicas.lookup a = some r
  leader : c'.startSignalled = false → c'.maxRevReplica = "" ∨
    c.startSignalled = false ∧ c'.maxRevReplica = c.maxRevReplica

theorem Withdraws.same (hreg : c'.registeredReplicas = c.registeredReplicas)
    (hs : c'.startSignalled = c.startSignalled) (hmax : c'.maxRevReplica = c.maxRevReplica) :
    Withdraws c c' where
  registered := fun a r h => by rwa [hreg] at h
  leader := fun h => .inr ⟨hs ▸ h, hmax⟩

theorem Withdraws.trans {c'' : Controller} (h : Withdraws c c') (h' : Withdraws c' c'') :
    Withdraws c c'' where
  registered := fun a r hr => h.registered a r (h'.registered a r hr)
  leader := fun hs => by
    rcases h'.leader hs with hnone | ⟨hs', heq⟩
    · exact .inl hnone
    · rw [heq]
      exact h.leader hs'

/-- The scope has no change of the lists in it. -/
def Scope.Fixed (S : Scope) : Prop :=
  ¬S.drops ∧ (∀ a, ¬S.adds a) ∧ (∀ a, ¬S.addsQuorum a) ∧ (∀ a m, ¬S.sets a m) ∧ ¬S.resets

/-- The replicator differs in the next reader at most, and the number of quorum replicas is the
same. -/
def SameTables (c c' : Controller) : Prop :=
  (∃ n, c'.backend = { c.backend with next := n }) ∧ c'.quorumReplicaCount = c.quorumReplicaCount

/-- One part of an operation. -/
inductive Change (S : Scope) (w w' : World) : Prop
  | send (a : Address) (f : Node → Node) (hf : Quiet f ∨ S.sends a f)
      (hcheck : Anchors (w.nodes a) (f (w.nodes a))) (h : w' = w.setNode a f)
  | edit (hnodes : w'.nodes = w.nodes) (hsignals : S.signals ∨
      w'.signals = w.signals ∧
      Withdraws w.c w'.c) (hrf : w'.c.replicationFactor = w.c.replicationFactor)
      (hsize : S.resizes ∨ w'.c.size = w.c.size ∧ w'.c.sectorSize = w.c.sectorSize)
      (hstatus : S.Updates ∨ SameStatus w.c w'.c)
      (htables : S.Fixed → SameTables w.c w'.c)
      (h : Edit S w.c.replicas w.c.quorumReplicas w'.c.replicas w'.c.quorumReplicas)

/-- `x` keeps the invariant, by changes within the scope. -/
abbrev Safe {α : Type} (S : Scope) (x : Ctl α) : Prop :=
  Keeps (fun w => Mirrored w.c) (Change S) x

/-- By changes within the scope. -/
abbrev Reach (S : Scope) : World → World → Prop :=
  ReflTransGen (Change S)

variable {S : Scope} {α : Type}

/-- The lists have become `rs` and `qs`. -/
structure Edited (rs qs : List ReplicaEntry) (w w' : World) : Prop where
  mirrored : Mirrored w'.c
  side : Aside w w'
  replicas : w'.c.replicas = rs
  quorumReplicas : w'.c.quorumReplicas = qs
  replicationFactor : w'.c.replicationFactor = w.c.replicationFactor
  size : w'.c.size = w.c.size ∧ w'.c.sectorSize = w.c.sectorSize
  status : SameStatus w.c w'.c
  withdraws : Withdraws w.c w'.c

theorem Edited.change (h : Edited rs qs w w') (he : Edit S w.c.replicas w.c.quorumReplicas rs qs)
    (hS : ¬S.Fixed) : Change S w w' := by
  refine .edit h.side.1 (.inr ⟨h.side.2, h.withdraws⟩) h.replicationFactor (.inr h.size)
    (.inr h.status) (fun hfixed => (hS hfixed).elim) ?_
  rw [h.replicas, h.quorumReplicas]
  exact he

theorem Scope.still_fixed : Scope.still.Fixed :=
  ⟨id, fun _ => id, fun _ => id, fun _ _ => id, id⟩

theorem Edit.eq {rs' qs' : List ReplicaEntry} (h : Edit S rs qs rs' qs') (hS : S.Fixed) :
    rs' = rs ∧ qs' = qs := by
  obtain ⟨hdrops, hadds, hquorum, hsets, hresets⟩ := hS
  cases h with
  | same => exact ⟨rfl, rfl⟩
  | mode a m hwo hm => exact (hm.elim (fun h => hdrops h.2) (hsets a m)).elim
  | removeData a h => exact (hdrops h).elim
  | removeQuorum a h => exact (hdrops h).elim
  | addData a ha hnew hwo => exact (hadds a ha).elim
  | addQuorum a ha hnew => exact (hquorum a ha).elim
  | reset h => exact (hresets h).elim

/-- What changes nothing does so within every scope. -/
theorem Change.of_still (h : Change .still w w') : Change S w w' := by
  cases h with
  | send a f hf hcheck h => exact .send a f (.inl (hf.resolve_right id)) hcheck h
  | edit hnodes hsignals hrf hsize hstatus htables h =>
    refine .edit hnodes (.inr (hsignals.resolve_left id)) hrf (.inr (hsize.resolve_left id))
      (.inr (hstatus.resolve_left fun h => h.elim id id)) (fun _ => htables Scope.still_fixed) ?_
    obtain ⟨hrs, hqs⟩ := h.eq Scope.still_fixed
    rw [hrs, hqs]
    exact .same

/-- What every change leaves alone is the same after any number of them. -/
theorem eq_of_reach {β : Type} {g : World → β}
    (hg : ∀ w w', Change S w w' → g w' = g w) (h : Reach S w w') : g w' = g w := by
  induction h with
  | refl => rfl
  | tail _ hstep ih => exact (hg _ _ hstep).trans ih

theorem lists_of_reach (hS : S.Fixed) (h : Reach S w w') :
    w'.c.replicas = w.c.replicas ∧ w'.c.quorumReplicas = w.c.quorumReplicas := by
  have hg : ∀ w w', Change S w w' →
      (w'.c.replicas, w'.c.quorumReplicas) = (w.c.replicas, w.c.quorumReplicas) := by
    intro w w' hstep
    cases hstep with
    | send a f hf hcheck h => rw [h]; rfl
    | edit hnodes hsignals hrf hsize hstatus htables h =>
      obtain ⟨hrs, hqs⟩ := h.eq hS
      rw [hrs, hqs]
  exact Prod.mk.inj (eq_of_reach hg h)

theorem tables_of_reach (hS : S.Fixed) (h : Reach S w w') : SameTables w.c w'.c := by
  induction h with
  | refl => exact ⟨⟨_, rfl⟩, rfl⟩
  | tail _ hstep ih =>
    cases hstep with
    | send a f hf hcheck h => exact h ▸ ih
    | edit hnodes hsignals hrf hsize hstatus htables h =>
      obtain ⟨⟨n, hn⟩, hcount⟩ := htables hS
      obtain ⟨⟨m, hm⟩, hcount'⟩ := ih
      exact ⟨⟨n, by rw [hn, hm]⟩, hcount.trans hcount'⟩

theorem replicationFactor_of_reach (h : Reach S w w') :
    w'.c.replicationFactor = w.c.replicationFactor := by
  refine eq_of_reach (g := fun w => w.c.replicationFactor) (fun w w' hstep => ?_) h
  cases hstep with
  | send a f hf hcheck h => rw [h]; rfl
  | edit hnodes hsignals hrf hsize hstatus htables h => exact hrf

theorem size_of_reach (hS : ¬S.resizes) (h : Reach S w w') : w'.c.size = w.c.size := by
  refine eq_of_reach (g := fun w => w.c.size) (fun w w' hstep => ?_) h
  cases hstep with
  | send a f hf hcheck h => rw [h]; rfl
  | edit hnodes hsignals hrf hsize hstatus htables h => exact (hsize.resolve_left hS).1

theorem signals_of_reach (hS : ¬S.signals) (h : Reach S w w') : w'.signals = w.signals := by
  refine eq_of_reach (g := World.signals) (fun w w' hstep => ?_) h
  cases hstep with
  | send a f hf hcheck h => rw [h]; rfl
  | edit hnodes hsignals hrf hsize hstatus htables h => exact (hsignals.resolve_left hS).1

theorem withdraws_of_reach (hS : ¬S.signals) (h : Reach S w w') : Withdraws w.c w'.c := by
  induction h with
  | refl => exact .same rfl rfl rfl
  | tail _ hstep ih =>
    cases hstep with
    | send a f hf hcheck h => exact h ▸ ih
    | edit hnodes hsignals hrf hsize hstatus htables h =>
      exact ih.trans (hsignals.resolve_left hS).2

theorem SameStatus.trans {c'' : Controller} (h : SameStatus c c') (h' : SameStatus c' c'') :
    SameStatus c c'' :=
  ⟨h'.1.trans h.1, h'.2.1.trans h.2.1, h'.2.2.1.trans h.2.2.1, h'.2.2.2.trans h.2.2.2⟩

theorem sameStatus_of_reach (hS : ¬S.Updates) (h : Reach S w w') : SameStatus w.c w'.c := by
  induction h with
  | refl => exact ⟨rfl, rfl, rfl, rfl⟩
  | tail _ hstep ih =>
    cases hstep with
    | send a f hf hcheck h => exact h ▸ ih
    | edit hnodes hsignals hrf hsize hstatus htables h => exact ih.trans (hstatus.resolve_left hS)

/-- What no request of the scope changes of a replica stays as it is. -/
theorem nodes_of_reach {β : Type} {g : Node → β}
    (hg : ∀ a f, Quiet f ∨ S.sends a f → ∀ n, g (f n) = g n) (h : Reach S w w') (x : Address) :
    g (w'.nodes x) = g (w.nodes x) := by
  refine eq_of_reach (g := fun w => g (w.nodes x)) (fun w w' hstep => ?_) h
  cases hstep with
  | send a f hf hcheck h =>
    subst h
    rcases eq_or_ne x a with rfl | hx
    · simp [World.setNode, hg x f hf]
    · simp [World.setNode, Function.update_of_ne hx]
  | edit hnodes hsignals hrf hsize hstatus htables h => rw [hnodes]

/-- What no request of the scope breaks of a replica is kept. -/
theorem node_of_reach {P : Node → Prop} (hP : ∀ f n, Quiet f ∨ S.sends x f → Anchors n (f n) →
      P n → P (f n))
    (h : Reach S w w') (hx : P (w.nodes x)) : P (w'.nodes x) := by
  induction h with
  | refl => exact hx
  | tail _ hstep ih =>
    cases hstep with
    | send a f hf hcheck h =>
      subst h
      rcases eq_or_ne x a with rfl | hne
      · simpa [World.setNode] using hP f _ hf hcheck ih
      · simpa [World.setNode, Function.update_of_ne hne] using ih
    | edit hnodes hsignals hrf hsize hstatus htables h => rwa [hnodes]

/-- The addresses of data replicas are old ones, or were to be added. -/
theorem address_of_reach (h : Reach S w w') (ha : a ∈ w'.c.replicas.map ReplicaEntry.address) :
    a ∈ w.c.replicas.map ReplicaEntry.address ∨ S.adds a := by
  induction h with
  | refl => exact .inl ha
  | @tail w₁ w₂ _ hstep ih =>
    cases hstep with
    | send x f hf hcheck h =>
      subst h
      exact ih ha
    | edit hnodes hsignals hrf hsize hstatus htables h =>
      generalize w₂.c.replicas = rs, w₂.c.quorumReplicas = qs at h ha
      cases h with
      | same => exact ih ha
      | mode x m hwo hm => exact ih (map_address_setEntries x m _ ▸ ha)
      | removeData x hS => exact ih ((List.eraseP_sublist.map _).subset ha)
      | removeQuorum x hS => exact ih ha
      | addQuorum x hx hnew => exact ih ha
      | reset hS => simp at ha
      | addData x hx hnew hwo =>
        rw [List.map_append, List.mem_append, List.map_singleton, List.mem_singleton] at ha
        exact ha.elim ih fun h => .inr (h ▸ hx)

/-- Without additions the number of data replicas does not grow. -/
theorem length_le_of_reach (hS : ∀ a, ¬S.adds a) (hw : Mirrored w'.c)
    (h : Reach S w w') : w'.c.replicas.length ≤ w.c.replicas.length := by
  have hsub : w'.c.replicas.map ReplicaEntry.address ⊆ w.c.replicas.map ReplicaEntry.address :=
    fun a ha => (address_of_reach h ha).resolve_right (hS a)
  simpa using (List.subperm_of_subset hw.nodup_replicas hsub).length_le

/-- Without a change of the lists, only quiet requests have been sent. -/
structure Rested (w w' : World) : Prop where
  replicas : w'.c.replicas = w.c.replicas
  quorumReplicas : w'.c.quorumReplicas = w.c.quorumReplicas
  replicationFactor : w'.c.replicationFactor = w.c.replicationFactor
  size : w'.c.size = w.c.size
  status : SameStatus w.c w'.c
  nodeSize : ∀ a, (w'.nodes a).size = (w.nodes a).size

theorem rested_of_reach (h : Reach .still w w') : Rested w w' where
  replicas := (lists_of_reach Scope.still_fixed h).1
  quorumReplicas := (lists_of_reach Scope.still_fixed h).2
  replicationFactor := replicationFactor_of_reach h
  size := size_of_reach id h
  status := sameStatus_of_reach (fun h => h.elim id id) h
  nodeSize := nodes_of_reach (fun _ _ hf => (hf.resolve_right id).size) h

/-- The lists, the size, the replication factor and the status are the same, and the replicator
differs in the next reader at most. -/
structure Same (S : Scope) (c c' : Controller) : Prop where
  replicas : c'.replicas = c.replicas
  quorumReplicas : c'.quorumReplicas = c.quorumReplicas
  backend : ∃ n, c'.backend = { c.backend with next := n }
  replicationFactor : c'.replicationFactor = c.replicationFactor
  size : c'.size = c.size ∧ c'.sectorSize = c.sectorSize
  status : SameStatus c c'
  withdraws : S.signals ∨ Withdraws c c'

/-- The controller without what `Same` leaves open. -/
def core (c : Controller) : Controller :=
  { c with
    backend := { c.backend with next := 0 }
    frontendUp := false
    registeredReplicas := ∅
    registeredQuorumReplicas := ∅
    maxRevReplica := ""
    startSignalled := false
    isSnapDeletionInProgress := false
    exited := false }

theorem Same.of_core (h : core c' = core c) (hw : S.signals ∨ Withdraws c c') : Same S c c' := by
  have field : ∀ {β : Type} (g : Controller → β), g (core c') = g (core c) := fun g => congrArg g h
  refine ⟨field Controller.replicas, field Controller.quorumReplicas, ⟨c'.backend.next, ?_⟩,
    field Controller.replicationFactor, ⟨field Controller.size, field Controller.sectorSize⟩, ?_,
    hw⟩
  · exact field fun c => { c.backend with next := c'.backend.next }
  · exact ⟨field Controller.rwReplicaCount, field Controller.readOnly,
      field Controller.quorumReplicaCount, field Controller.checkpoint⟩

/-- The registrations and the leader are the same as well. -/
theorem Same.calm (h : core c' = core c) (hreg : c'.registeredReplicas = c.registeredReplicas)
    (hs : c'.startSignalled = c.startSignalled) (hmax : c'.maxRevReplica = c.maxRevReplica) :
    Same S c c' :=
  .of_core h (.inr (.same hreg hs hmax))

theorem Same.mirrored (h : Same S c c') (hc : Mirrored c) : Mirrored c' := by
  obtain ⟨n, hb⟩ := h.backend
  refine ⟨?_, ?_⟩
  · rw [h.replicas, h.quorumReplicas, hb]
    exact hc.toMatches
  · rw [hb]
    exact hc.built

theorem Same.change (hside : Aside w w') (h : Same S w.c w'.c) : Change S w w' := by
  have hsignals : S.signals ∨ w'.signals = w.signals ∧ Withdraws w.c w'.c :=
    h.withdraws.imp_right fun hreg => ⟨hside.2, hreg⟩
  refine .edit hside.1 hsignals h.replicationFactor (.inr h.size) (.inr h.status)
    (fun _ => ⟨h.backend, h.status.2.2.1⟩) ?_
  rw [h.replicas, h.quorumReplicas]
  exact .same

theorem Unchanged.change (h : Unchanged w w') : Change S w w' :=
  Same.change ⟨h.nodes, h.signals⟩ (h.c ▸ .calm rfl rfl rfl rfl)

/-- A part that leaves the lists alone. -/
theorem safe_same {f : World → World} (hside : ∀ w, Aside w (f w)) (h : ∀ w, Same S w.c (f w).c) :
    Safe S (modify f) :=
  Keeps.modify fun w hw => ⟨(h w).mirrored hw, (h w).change (hside w)⟩

theorem safe_setC (h : ∀ c, Same S c (f c)) : Safe S (modify fun w : World => w.setC f) :=
  safe_same (fun _ => ⟨rfl, rfl⟩) fun w => h w.c

/-- Replicas were dropped, and the lists have become `rs` and `qs`. -/
structure Leaves (rs qs : List ReplicaEntry) (w w' : World) : Prop where
  mirrored : Mirrored w'.c
  reach : ∀ S : Scope, S.drops → Reach S w w'
  replicas : w'.c.replicas = rs
  quorumReplicas : w'.c.quorumReplicas = qs

theorem Leaves.refl (hw : Mirrored w.c) : Leaves w.c.replicas w.c.quorumReplicas w w :=
  ⟨hw, fun _ _ => .refl, rfl, rfl⟩

theorem Leaves.trans {w'' : World} {rs' qs' : List ReplicaEntry}
    (h : Leaves rs qs w w') (h' : Leaves rs' qs' w' w'') : Leaves rs' qs' w w'' :=
  ⟨h'.mirrored, fun S hS => (h.reach S hS).trans (h'.reach S hS), h'.replicas, h'.quorumReplicas⟩

/-- What is safe in every scope with updates of the status leaves the lists as they are. -/
theorem leaves_of_safe {x : Ctl α} (h : ∀ S : Scope, S.Updates → Safe S x) (w : World)
    (hw : Mirrored w.c) :
    Triple (fun s => s = w) x fun _ => Leaves w.c.replicas w.c.quorumReplicas w := by
  rintro s rfl
  let T : Scope := { updates := True }
  have hT := h T (.inl trivial) s hw
  have hlists := lists_of_reach (S := T) ⟨id, fun _ => id, fun _ => id, fun _ _ => id, id⟩ hT.2
  exact ⟨hT.1, fun S hS => (h S (.inr hS) s hw).2, hlists.1, hlists.2⟩

theorem Edited.leaves (h : Edited rs qs w w')
    (he : ∀ S : Scope, S.drops → Edit S w.c.replicas w.c.quorumReplicas rs qs) :
    Leaves rs qs w w' :=
  ⟨h.mirrored, fun S hS => .single (h.change (he S hS) fun hfixed => hfixed.1 hS), h.replicas,
    h.quorumReplicas⟩

/-! ## Calls -/

theorem safe_moment : Safe S moment :=
  fun w hw => ⟨hw,
    .single (show Change S w w.advance from Same.change ⟨rfl, rfl⟩ (.calm rfl rfl rfl rfl))⟩

theorem safe_ask : Safe S ask :=
  .bind safe_moment fun _ => .pure _

theorem safe_iterate (as : List Address) : Safe S (iterate as) :=
  .bind safe_moment fun _ => .pure _

theorem safe_query {β : Type} (a : Address) (f : Node → β) : Safe S (query a f) := by
  refine .bind safe_moment fun m => .get fun w => ?_
  cases m.reply.err with
  | none => exact .pure _
  | some e => exact .pure _

theorem safe_request (a : Address) {f : Node → Node} (hf : Quiet f ∨ S.sends a f)
    (hcheck : ∀ n, (f n).checkpoint = n.checkpoint) : Safe S (request a f) := by
  refine .bind safe_moment fun m => .bind (fun w hw => ?_) fun _ => .pure _
  cases h : m.reply.applied with
  | false => simpa [h] using ⟨hw, ReflTransGen.refl⟩
  | true => simpa [h] using ⟨hw, ReflTransGen.single (.send a f hf (.inl (hcheck _)) rfl)⟩

theorem safe_requestIf (a : Address) (admits : Node → Bool) {f : Node → Node}
    (hf : Quiet f ∨ S.sends a f) (hcheck : ∀ n, (f n).checkpoint = n.checkpoint) :
    Safe S (requestIf a admits f) := by
  refine .bind safe_moment fun m => .get fun w => .ite (fun _ => ?_) fun _ => .pure _
  refine .bind (fun w hw => ?_) fun _ => .pure _
  cases h : m.reply.applied with
  | false => simpa [h] using ⟨hw, ReflTransGen.refl⟩
  | true => simpa [h] using ⟨hw, ReflTransGen.single (.send a f hf (.inl (hcheck _)) rfl)⟩

theorem quiet_setCheckpoint (s : Option String) : Quiet (Node.setCheckpoint s) :=
  ⟨fun _ => rfl, fun _ => rfl, fun _ => rfl, fun _ => rfl, fun _ => rfl⟩

theorem quiet_setReplicaMode (m : BackendMode) : Quiet (Node.setReplicaMode m) :=
  ⟨fun _ => rfl, fun _ => rfl, fun _ => rfl, fun _ => rfl, fun _ => rfl⟩

theorem quiet_setRevisionCounter (counter : ℤ) : Quiet (Node.setRevisionCounter counter) :=
  ⟨fun _ => rfl, fun _ => rfl, fun _ => rfl, fun _ => rfl, fun _ => rfl⟩

theorem quiet_id : Quiet id :=
  ⟨fun _ => rfl, fun _ => rfl, fun _ => rfl, fun _ => rfl, fun _ => rfl⟩

/-! ## The replicator -/

theorem safe_multiWriteAt (hS : ∀ a wr, S.sends a (Node.writeAt wr)) (m : MultiWriterAt)
    (wr : Write) : Safe S (m.writeAt wr) := by
  refine .bind (.each (fun b => safe_request _ (.inr (hS _ _)) fun _ => rfl) _) fun _ => ?_
  refine .bind (.each (fun b => safe_request _ (.inr (hS _ _)) fun _ => rfl) _) fun _ => ?_
  refine .ite (fun _ => .ite (fun _ => .pure _) fun _ => .pure _) fun _ => .pure _

theorem safe_multiToAll (m : MultiWriterAt) : Safe S (m.toAll id) := by
  refine .bind (.each (fun b => safe_request _ (.inl quiet_id) fun _ => rfl) _) fun _ => ?_
  exact .ite (fun _ => .ite (fun _ => .pure _) fun _ => .pure _) fun _ => .pure _

namespace Replicator

theorem safe_writeAt (hS : ∀ a wr, S.sends a (Node.writeAt wr)) (wr : Write) :
    Safe S (writeAt wr) :=
  .get fun _ => .ite (fun _ => .pure _) fun _ => .bind (safe_multiWriteAt hS _ wr) fun _ => .pure _

theorem safe_toAll {f : MultiWriterAt → Ctl (ℤ × Option MultiWriterError)}
    (hf : ∀ m, Safe S (f m)) : Safe S (toAll f) :=
  .get fun _ => .ite (fun _ => .pure _) fun _ => .bind (hf _) fun _ => .pure _

theorem safe_sync : Safe S sync :=
  safe_toAll safe_multiToAll

theorem safe_unmap : Safe S unmap :=
  safe_toAll safe_multiToAll

theorem safe_readLoop (r : Replicator) (off : ℤ) (len : ℕ) :
    ∀ (k index : ℕ) (errs : List (Address × String)), Safe S (r.readLoop off len k index errs)
  | 0, _, _ => .pure _
  | k + 1, index, errs => by
    refine .bind (safe_query _ _) fun res => ?_
    cases res with
    | ok bytes => exact .pure _
    | error e => exact safe_readLoop r off len k _ _

theorem safe_readAt (off : ℤ) (len : ℕ) : Safe S (readAt off len) := by
  refine .get fun w => .ite (fun _ => .pure _) fun _ => ?_
  refine .bind (safe_same (fun _ => ⟨rfl, rfl⟩) fun _ => .calm rfl rfl rfl rfl) fun _ => ?_
  exact .bind (safe_readLoop _ _ _ _ _ _) fun _ => .ite (fun _ => .pure _) fun _ => .pure _

theorem safe_fanOut {admits : Node → Bool} {f : Node → Node} (hf : ∀ a, Quiet f ∨ S.sends a f)
    (hcheck : ∀ n, (f n).checkpoint = n.checkpoint) : Safe S (fanOut admits f) := by
  refine .get fun w => .bind (safe_iterate _) fun order => ?_
  refine .bind (.each (fun a => safe_requestIf a admits (hf a) hcheck) _) fun es => ?_
  exact .ite (fun _ => .pure _) fun _ => .pure _

theorem safe_getLatestSnapshot : Safe S getLatestSnapshot := by
  refine .get fun w => .bind (safe_iterate _) fun order => ?_
  refine .bind (.each (fun a => safe_query a _) _) fun res => ?_
  refine .ite (fun _ => .pure _) fun _ => .ite (fun _ => .pure _) fun _ => ?_
  refine .bind (safe_iterate _) fun order' => ?_
  dsimp only
  split
  · exact .pure _
  · exact .pure _

/-- `SetCheckpoint` with the latest snapshot of every data replica. -/
theorem setCheckpoint_latest {s : Option String} (hw : Mirrored w.c)
    (hlatest : ∀ a ∈ w.c.backend.backends.keys, (w.nodes a).snaps.head? = s) :
    Triple (fun t => t = w) (setCheckpoint s) fun _ t => Mirrored t.c ∧ Reach S w t := by
  let I : World → Prop := fun t => Mirrored t.c ∧ ∀ a ∈ w.c.backend.backends.keys,
    (t.nodes a).snaps.head? = s
  have hrequest : ∀ a ∈ w.c.backend.backends.keys,
      Keeps I (Change S) (request a (Node.setCheckpoint s)) := by
    intro a ha
    refine .bind (fun t ht => ⟨⟨ht.1, ht.2⟩, .single (unchanged_advance t).change⟩) fun m =>
      .bind (fun t ht => ?_) fun _ => .pure _
    cases happlied : m.reply.applied with
    | false => simpa [happlied] using ⟨ht, ReflTransGen.refl⟩
    | true =>
      have hset : I (t.setNode a (Node.setCheckpoint s)) := by
        refine ⟨ht.1, fun x hx => ?_⟩
        rcases eq_or_ne x a with rfl | hne
        · simpa [World.setNode, Node.setCheckpoint] using ht.2 x hx
        · simpa [World.setNode, Function.update_of_ne hne] using ht.2 x hx
      simpa [happlied] using ⟨hset, ReflTransGen.single (.send a _ (.inl (quiet_setCheckpoint s))
        (.inr (ht.2 a ha).symm) rfl)⟩
  refine .get fun w₀ h₀ => ?_
  subst h₀
  refine .bind (iterate_spec _ w₀) fun order => .fix ?_
  rintro _ ⟨horder, rfl⟩
  have heach : Triple (fun t => t = w₀.advance)
      (each (fun a => request a (Node.setCheckpoint s)) (w₀.c.backend.leadingRW order))
      fun _ t => Mirrored t.c ∧ Reach S w₀ t := by
    rintro _ rfl
    have hkeys : ∀ a ∈ w₀.c.backend.leadingRW order, a ∈ w₀.c.backend.backends.keys :=
      fun a ha => horder.mem_iff.1 ((List.takeWhile_sublist _).subset ha)
    have h := Keeps.each_of_mem (fun a ha => hrequest a (hkeys a ha)) w₀.advance ⟨hw, hlatest⟩
    exact ⟨h.1.1, ReflTransGen.head (unchanged_advance w₀).change h.2⟩
  refine .bind heach fun es => ?_
  exact .ite (fun _ => .pure fun _ h => h) fun _ =>
    .ite (fun _ => .pure fun _ h => h) fun _ => .pure fun _ h => h

theorem safe_leastRemain : ∀ as : List Address, Safe S (leastRemain as)
  | [] => .pure _
  | _ :: as => by
    refine .bind safe_moment fun m => .bind (safe_leastRemain as) fun rest => ?_
    split <;> exact .pure _

theorem safe_remainSnapshots : Safe S remainSnapshots := by
  refine .get fun w => .ite (fun _ => .pure _) fun _ => ?_
  refine .bind (safe_iterate _) fun order => .bind (safe_leastRemain _) fun least => ?_
  cases least with
  | none => exact .pure _
  | some v => exact .pure _

theorem safe_toOne (a : Address) {f : Node → Node} (hf : Quiet f)
    (hcheck : ∀ n, (f n).checkpoint = n.checkpoint) : Safe S (toOne a f) := by
  refine .get fun w => ?_
  split
  · exact .pure _
  · exact safe_request _ (.inl hf) hcheck

theorem safe_setReplicaMode (a : Address) (m : BackendMode) : Safe S (setReplicaMode a m) :=
  safe_toOne a (quiet_setReplicaMode m) fun _ => rfl

theorem safe_setRevisionCounter (a : Address) (counter : ℤ) :
    Safe S (setRevisionCounter a counter) :=
  safe_toOne a (quiet_setRevisionCounter counter) fun _ => rfl

theorem safe_setQuorumRevisionCounter (a : Address) (counter : ℤ) :
    Safe S (setQuorumRevisionCounter a counter) := by
  refine .get fun w => ?_
  split
  · exact .pure _
  · exact safe_request _ (.inl (quiet_setRevisionCounter counter)) fun _ => rfl

theorem safe_setRebuilding (a : Address) : Safe S (setRebuilding a) := by
  refine .get fun w => ?_
  split
  · exact .pure _
  · exact safe_ask

theorem safe_getRevisionCounter (a : Address) : Safe S (getRevisionCounter a) := by
  refine .get fun w => ?_
  split
  · exact .pure _
  · refine .bind (safe_query _ _) fun counter => ?_
    cases counter with
    | ok counter => exact .pure _
    | error e => exact .pure _

theorem safe_getCloneStatus (a : Address) : Safe S (getCloneStatus a) := by
  refine .get fun w => ?_
  split
  · exact .pure _
  · refine .bind safe_moment fun m => ?_
    cases m.reply.err with
    | none => exact .pure _
    | some e => exact .pure _

end Replicator

/-! ## Status and modes -/

namespace Controller

variable {b : AddressMap BackendWrapper}

/-- An update of the status. -/
theorem safe_status (hS : S.Updates)
    (hlists : ∀ c, (f c).replicas = c.replicas ∧ (f c).quorumReplicas = c.quorumReplicas ∧
      (f c).backend = c.backend)
    (hrest : ∀ c, (f c).replicationFactor = c.replicationFactor ∧ (f c).size = c.size ∧
      (f c).sectorSize = c.sectorSize) (hreg : ∀ c, Withdraws c (f c))
    (hcount : S.Fixed → ∀ c, (f c).quorumReplicaCount = c.quorumReplicaCount) :
    Safe S (modify fun w : World => w.setC f) := by
  refine .modify fun w hw => ?_
  obtain ⟨hrs, hqs, hb⟩ := hlists w.c
  have hmir : Mirrored (f w.c) := by
    refine ⟨?_, ?_⟩
    · rw [hrs, hqs, hb]
      exact hw.toMatches
    · rw [hb]
      exact hw.built
  refine ⟨hmir, .edit rfl (.inr ⟨rfl, hreg w.c⟩) (hrest w.c).1 (.inr (hrest w.c).2) (.inl hS)
    (fun hfixed => ⟨⟨_, hb⟩, hcount hfixed w.c⟩) ?_⟩
  change Edit S w.c.replicas w.c.quorumReplicas (f w.c).replicas (f w.c).quorumReplicas
  rw [hrs, hqs]
  exact .same

theorem safe_updateVolStatus (hS : S.Updates) : Safe S updateVolStatus :=
  safe_status hS (fun _ => ⟨rfl, rfl, rfl⟩) (fun _ => ⟨rfl, rfl, rfl⟩) (fun _ => .same rfl rfl rfl)
    fun _ _ => rfl

theorem safe_updateCheckpoint (hS : S.Updates) : Safe S updateCheckpoint := by
  have hset : ∀ s : Option String,
      Safe S (modify fun w : World => w.setC fun c => { c with checkpoint := s }) :=
    fun s => safe_status hS (fun _ => ⟨rfl, rfl, rfl⟩) (fun _ => ⟨rfl, rfl, rfl⟩)
      (fun _ => .same rfl rfl rfl) fun _ _ => rfl
  refine .of_triple fun w hw => .get fun w₀ h₀ => ?_
  subst h₀
  refine .ite (fun _ => ?_) fun _ => ?_
  · refine .bind (getLatestSnapshot_spec w₀) fun latest => .fix ?_
    rintro w₁ ⟨hw₁, hlatest⟩
    have hmir₁ : Mirrored w₁.c := by
      rw [hw₁.c]
      exact hw
    cases latest with
    | error e =>
      rintro s rfl
      exact ⟨(hset none s hmir₁).1, ReflTransGen.head hw₁.change (hset none s hmir₁).2⟩
    | ok s =>
      have hlatest₁ : ∀ a ∈ w₁.c.backend.backends.keys, (w₁.nodes a).snaps.head? = s := by
        rw [hw₁.c, hw₁.nodes]
        exact hlatest s rfl
      refine .bind (Replicator.setCheckpoint_latest (S := S) hmir₁ hlatest₁) fun err w₂ h₂ => ?_
      exact ⟨(hset _ w₂ h₂.1).1, ReflTransGen.head hw₁.change (h₂.2.trans (hset _ w₂ h₂.1).2)⟩
  · rintro s rfl
    exact hset none s hw

theorem setReplicaModeNoLock_edited (hw : Mirrored w.c) (a : Address) {m : BackendMode}
    (hwo : m ≠ .wo) : Edited (setEntries a m w.c.replicas) (setEntries a m w.c.quorumReplicas) w
      ((setReplicaModeNoLock a m).run w).2 := by
  obtain ⟨hmir, hside, r, hr⟩ := setReplicaModeNoLock_spec w hw a hwo w rfl
  have hreg : Withdraws w.c { withMode a m w.c with backend := r } := .same rfl rfl rfl
  refine ⟨hmir, hside, ?_, ?_, ?_, ?_, ?_, hr ▸ hreg⟩ <;> rw [hr] <;> simp [withMode, SameStatus]

theorem safe_setReplicaModeNoLock (a : Address) {m : BackendMode} (hwo : m ≠ .wo)
    (hm : m = .err ∧ S.drops ∨ S.sets a m) : Safe S (setReplicaModeNoLock a m) := by
  intro w hw
  have h := setReplicaModeNoLock_edited hw a hwo
  refine ⟨h.mirrored, .single (h.change (.mode a m hwo hm) fun hfixed => ?_)⟩
  exact hm.elim (fun h => hfixed.1 h.2) (hfixed.2.2.2.1 a m)

theorem safe_setErr (hS : S.drops) (a : Address) : Safe S (setReplicaModeNoLock a .err) :=
  safe_setReplicaModeNoLock a (by decide) (.inl ⟨rfl, hS⟩)

theorem safe_setReplicaMode (a : Address) (m : BackendMode) (hm : m = .err ∧ S.drops ∨ S.sets a m) :
    Safe S (setReplicaMode a m) := by
  cases m with
  | wo => exact .pure _
  | rw => exact .bind (safe_setReplicaModeNoLock a (by decide) hm) fun _ => .pure _
  | err => exact .bind (safe_setReplicaModeNoLock a (by decide) hm) fun _ => .pure _

/-! ## Removal -/

theorem safe_frontendShutdown : Safe S frontendShutdown :=
  .bind safe_ask fun _ => safe_setC fun _ => .calm rfl rfl rfl rfl

theorem safe_leaveLast : Safe S leaveLast :=
  .get fun _ => .ite
    (fun _ => .bind (safe_setC fun _ => .of_core rfl (.inr ⟨fun _ _ h => h, fun _ => .inl rfl⟩))
      fun _ => safe_frontendShutdown)
    fun _ => .pure _

theorem lookup_of_erase {β : Type} {m : AddressMap β} {r : β}
    (h : (m.erase a).lookup x = some r) : m.lookup x = some r := by
  rcases eq_or_ne x a with rfl | hx
  · simp [AList.lookup_erase] at h
  · rwa [AList.lookup_erase_ne hx] at h

theorem lookup_of_unregister {m : AddressMap RegReplica} {r : RegReplica}
    (h : (unregister a m).lookup x = some r) : m.lookup x = some r := by
  unfold unregister at h
  split at h
  · exact h
  · exact lookup_of_erase h

theorem matches_eraseData (h : Matches rs qs b) (a : Address) :
    Matches (rs.eraseP (·.address = a)) qs (b.erase a) where
  nodup := ((List.eraseP_sublist.append (List.Sublist.refl qs)).map _).nodup h.nodup
  oneWO := (List.eraseP_sublist.countP_le).trans h.oneWO
  mirror := fun x => by
    rw [modeOf_eraseP h.nodup_replicas]
    rcases eq_or_ne x a with rfl | hx
    · rw [AList.lookup_erase, if_pos rfl]
      rfl
    · rw [AList.lookup_erase_ne hx, if_neg hx, h.mirror]

theorem matches_eraseQuorum (h : Matches rs qs b) (ha : a ∈ qs.map ReplicaEntry.address) :
    Matches rs (qs.eraseP (·.address = a)) (b.erase a) where
  nodup := (((List.Sublist.refl rs).append List.eraseP_sublist).map _).nodup h.nodup
  oneWO := h.oneWO
  mirror := fun x => by
    rcases eq_or_ne x a with rfl | hx
    · rw [AList.lookup_erase, h.modeOf_none_of_quorum ha]
      rfl
    · rw [AList.lookup_erase_ne hx, h.mirror]

/-- The lists and the registrations are changed, and then the backend is removed. -/
theorem dropBackend_edited (a : Address) (hbuilt : Built w.c.backend)
    (hb : (f w.c).backend = w.c.backend)
    (hm : Matches (f w.c).replicas (f w.c).quorumReplicas (w.c.backend.backends.erase a))
    (hrf : (f w.c).replicationFactor = w.c.replicationFactor)
    (hsize : (f w.c).size = w.c.size ∧ (f w.c).sectorSize = w.c.sectorSize)
    (hstatus : SameStatus w.c (f w.c)) (hreg : Withdraws w.c (f w.c)) :
    Edited (f w.c).replicas (f w.c).quorumReplicas w
      ((do modify fun w => w.setC f; removeBackend a : Ctl Unit).run w).2 := by
  obtain ⟨hmir, hside, r, hr⟩ :=
    removeBackend_spec (w.setC f) a (by rw [World.setC, hb]; exact hbuilt)
    (by rw [World.setC, hb]; exact hm) _ rfl
  have hc : ((do modify fun w => w.setC f; removeBackend a : Ctl Unit).run w).2.c =
      { f w.c with backend := r } := hr
  refine ⟨hmir, hside, ?_, ?_, ?_, ?_, ?_, ?_⟩ <;> rw [hc]
  · exact hrf
  · exact hsize
  · exact hstatus
  · exact ⟨hreg.registered, hreg.leader⟩

theorem eraseP_eq_self (h : ¬rs.any (·.address = a) = true) : rs.eraseP (·.address = a) = rs :=
  List.eraseP_of_forall_not fun r hr => by simpa using fun he => h (by simpa using ⟨r, hr, he⟩)

theorem removeData_spec (w : World) (hw : Mirrored w.c) (a : Address) :
    Triple (fun s => s = w) (removeData a)
      fun _ => Leaves (w.c.replicas.eraseP (·.address = a)) w.c.quorumReplicas w := by
  refine .get fun s hs => ?_
  subst hs
  refine .ite (fun _ => ?_) fun hany => .pure ?_
  · refine .bind (leaves_of_safe (fun _ _ => safe_leaveLast) s hw) fun _ => .fix ?_
    rintro _ h₁ w₁ rfl
    refine h₁.trans (Edited.leaves ?_ fun S hS => ?_)
    · have h := dropBackend_edited a (w := w₁) (f := fun c => { c with
        registeredReplicas := unregister a c.registeredReplicas
        replicas := c.replicas.eraseP (·.address = a) }) h₁.mirrored.built rfl
        (matches_eraseData h₁.mirrored.toMatches a) rfl ⟨rfl, rfl⟩ ⟨rfl, rfl, rfl, rfl⟩
        ⟨fun _ _ => lookup_of_unregister, fun hs => .inr ⟨hs, rfl⟩⟩
      rwa [h₁.replicas, h₁.quorumReplicas] at h
    · rw [h₁.replicas, h₁.quorumReplicas]
      exact .removeData a hS
  · rintro w rfl
    rw [eraseP_eq_self hany]
    exact .refl hw

theorem removeQuorum_spec (w : World) (hw : Mirrored w.c) (a : Address) :
    Triple (fun s => s = w) (removeQuorum a)
      fun _ => Leaves w.c.replicas (w.c.quorumReplicas.eraseP (·.address = a)) w := by
  refine .get fun s hs => ?_
  subst hs
  refine .ite (fun hany => ?_) fun hany => .pure ?_
  · have ha : a ∈ s.c.quorumReplicas.map ReplicaEntry.address := by simpa using hany
    rintro w₁ rfl
    exact (dropBackend_edited a (w := w₁) (f := fun c => { c with
      registeredQuorumReplicas := unregister a c.registeredQuorumReplicas
      quorumReplicas := c.quorumReplicas.eraseP (·.address = a) }) hw.built rfl
      (matches_eraseQuorum hw.toMatches ha) rfl ⟨rfl, rfl⟩ ⟨rfl, rfl, rfl, rfl⟩
      (.same rfl rfl rfl)).leaves fun S hS => .removeQuorum a hS
  · rintro w rfl
    rw [eraseP_eq_self hany]
    exact .refl hw

/-- `RemoveReplicaNoLock` removes the replica at `a`, and nothing else. -/
theorem removeReplicaNoLock_spec (w : World) (hw : Mirrored w.c) (a : Address) :
    Triple (fun s => s = w) (removeReplicaNoLock a) fun _ =>
    Leaves (w.c.replicas.eraseP (·.address = a))
        (w.c.quorumReplicas.eraseP (·.address = a)) w := by
  refine .get fun s hs => ?_
  subst hs
  refine .ite (fun _ => ?_) fun hnot => .pure ?_
  · refine .bind (removeData_spec s hw a) fun _ => .fix fun w₁ h₁ => ?_
    refine .bind (removeQuorum_spec w₁ h₁.mirrored a) fun _ => .fix fun w₂ h₂ => ?_
    refine .bind (leaves_of_safe (fun _ => safe_updateVolStatus) w₂ h₂.mirrored)
      fun _ => .fix fun w₃ h₃ => ?_
    refine (leaves_of_safe (fun _ => safe_updateCheckpoint) w₃ h₃.mirrored).post fun _ w₄ h₄ => ?_
    have h := ((h₁.trans h₂).trans h₃).trans h₄
    rwa [h₃.replicas, h₃.quorumReplicas, h₂.replicas, h₂.quorumReplicas, h₁.replicas,
      h₁.quorumReplicas] at h
  · rintro w rfl
    rw [Bool.not_eq_true, hasReplica, Bool.or_eq_false_iff, ← Bool.not_eq_true,
      ← Bool.not_eq_true (w.c.quorumReplicas.any _)] at hnot
    rw [eraseP_eq_self hnot.1, eraseP_eq_self hnot.2]
    exact .refl hw

theorem safe_removeReplicaNoLock (hS : S.drops) (a : Address) : Safe S (removeReplicaNoLock a) :=
  fun w hw =>
    have h := removeReplicaNoLock_spec w hw a w rfl
    ⟨h.mirrored, h.reach S hS⟩

theorem safe_monitoring (hS : S.drops) (a : Address) (err : Bool) : Safe S (monitoring a err) := by
  cases err with
  | false => exact safe_removeReplicaNoLock hS a
  | true => exact .bind (safe_setErr hS a) fun _ => safe_removeReplicaNoLock hS a

/-! ## Addition -/

theorem safe_hasGreaterRevisionCount (woReplica a : Address) :
    Safe S (hasGreaterRevisionCount woReplica a) := by
  refine .bind (.get fun w => ?_) fun woRevCnt => ?_
  · split
    · exact .pure _
    · exact Replicator.safe_getRevisionCounter _
  · split
    · exact .pure _
    · refine .bind (safe_query _ _) fun newRevCnt => ?_
      cases newRevCnt with
      | ok newRevCnt => exact .pure _
      | error e => exact .pure _

theorem safe_checkSnapDeletion : Safe S checkSnapDeletion :=
  .get fun _ => .ite (fun _ => .pure _) fun _ => .pure _

theorem hasReplica_eq_true :
    c.hasReplica a = true ↔ a ∈ (c.replicas ++ c.quorumReplicas).map ReplicaEntry.address := by
  simp [hasReplica, List.map_append]

/-- The data replicas that are not in mode `WO`. -/
def withoutWO (rs : List ReplicaEntry) : List ReplicaEntry :=
  rs.filter (·.mode ≠ .wo)

theorem mem_withoutWO {r : ReplicaEntry} : r ∈ withoutWO rs ↔ r ∈ rs ∧ r.mode ≠ .wo := by
  simp [withoutWO]

/-- Removing the only replica in mode `WO` leaves those that are not. -/
theorem eraseP_wo {r : ReplicaEntry} (hnodup : (rs.map ReplicaEntry.address).Nodup)
    (hone : rs.countP (·.mode = .wo) ≤ 1) (hfind : rs.find? (·.mode = .wo) = some r) :
    rs.eraseP (·.address = r.address) = withoutWO rs := by
  induction rs with
  | nil => simp at hfind
  | cons x xs ih =>
    rw [List.map_cons, List.nodup_cons] at hnodup
    rw [List.countP_cons] at hone
    by_cases hx : x.mode = .wo
    · obtain rfl : x = r := by simpa [List.find?_cons, hx] using hfind
      have hzero : xs.countP (·.mode = .wo) = 0 := by
        simp only [hx, decide_true, if_true] at hone
        omega
      have hrest : ∀ e ∈ xs, e.mode ≠ .wo := by simpa using List.countP_eq_zero.1 hzero
      rw [List.eraseP_cons_of_pos (by simp), withoutWO, List.filter_cons_of_neg (by simp [hx]),
        List.filter_eq_self.2 (by simpa using hrest)]
    · have hfind' : xs.find? (·.mode = .wo) = some r := by
        simpa [List.find?_cons, hx] using hfind
      have hmem : r.address ∈ xs.map ReplicaEntry.address :=
        List.mem_map_of_mem (List.mem_of_find?_eq_some hfind')
      have hne : x.address ≠ r.address := fun he => hnodup.1 (he ▸ hmem)
      rw [List.eraseP_cons_of_neg (by simpa using hne), withoutWO,
        List.filter_cons_of_pos (by simpa using hx)]
      rw [ih hnodup.2 (by simpa [hx] using hone) hfind']
      rfl

theorem withoutWO_of_hasWOReplica (h : c.hasWOReplica = none) :
    withoutWO c.replicas = c.replicas := by
  rw [hasWOReplica, Option.map_eq_none_iff, List.find?_eq_none] at h
  exact List.filter_eq_self.2 (by simpa using h)

/-- Nothing stands against adding the replica at `a` : it is not there, and no replica is in mode
`WO` any more. -/
structure CanAdd (a : Address) (w w' : World) : Prop
    extends Leaves (withoutWO w.c.replicas) w.c.quorumReplicas w w' where
  new : ¬w.c.hasReplica a

theorem CanAdd.not_mem (h : CanAdd a w w') :
    a ∉ (w'.c.replicas ++ w'.c.quorumReplicas).map ReplicaEntry.address := by
  have hnew := h.new
  rw [hasReplica_eq_true] at hnew
  rw [h.replicas, h.quorumReplicas]
  exact fun hmem => hnew (((List.filter_sublist.append (List.Sublist.refl _)).map _).subset hmem)

theorem CanAdd.no_wo (h : CanAdd a w w') : ∀ r ∈ w'.c.replicas, r.mode ≠ .wo := by
  rw [h.replicas]
  exact fun r hr => (mem_withoutWO.1 hr).2

theorem canAdd_spec (w : World) (hw : Mirrored w.c) (a : Address) :
    Triple (fun s => s = w) (canAdd a) fun err w' =>
      Mirrored w'.c ∧ (∀ S : Scope, S.drops → Reach S w w') ∧ (err = none → CanAdd a w w') := by
  have still : ∀ {x : Ctl (Option Err)} {rs qs} {w₁ : World}, (∀ S : Scope, S.Updates → Safe S x) →
      ¬w.c.hasReplica a → Leaves rs qs w w₁ → rs = withoutWO w.c.replicas →
      qs = w.c.quorumReplicas → Triple (fun s => s = w₁) x fun err w' =>
        Mirrored w'.c ∧ (∀ S : Scope, S.drops → Reach S w w') ∧ (err = none → CanAdd a w w') := by
    rintro x rs qs w₁ hx hnew h₁ rfl rfl
    refine (leaves_of_safe hx w₁ h₁.mirrored).post fun _ w₂ h₂ => ?_
    have h := h₁.trans h₂
    rw [h₁.replicas, h₁.quorumReplicas] at h
    exact ⟨h.mirrored, h.reach, fun _ => ⟨h, hnew⟩⟩
  refine .get fun s hs => ?_
  subst hs
  refine .ite (fun _ => .pure ?_) fun hnew => ?_
  · rintro w rfl
    exact ⟨hw, fun _ _ => .refl, nofun⟩
  cases hwo : s.c.hasWOReplica with
  | none =>
    exact still (fun _ _ => safe_checkSnapDeletion) hnew (.refl hw)
      (withoutWO_of_hasWOReplica hwo).symm rfl
  | some woReplica =>
    refine .bind (leaves_of_safe (fun _ _ => safe_hasGreaterRevisionCount _ _) s hw)
      fun greater => .fix fun w₁ h₁ => ?_
    match greater with
    | .error e =>
      refine .pure ?_
      rintro w rfl
      exact ⟨h₁.mirrored, h₁.reach, nofun⟩
    | .ok false =>
      refine .pure ?_
      rintro w rfl
      exact ⟨h₁.mirrored, h₁.reach, nofun⟩
    | .ok true =>
      refine .bind (removeReplicaNoLock_spec w₁ h₁.mirrored woReplica) fun _ =>
        .fix fun w₂ h₂ => ?_
      rw [hasWOReplica, Option.map_eq_some_iff] at hwo
      obtain ⟨r, hr, rfl⟩ := hwo
      refine still (fun _ _ => safe_checkSnapDeletion) hnew (h₁.trans h₂) ?_ ?_
      · rw [h₁.replicas, eraseP_wo hw.nodup_replicas hw.oneWO hr]
      · rw [h₁.quorumReplicas]
        refine eraseP_eq_self fun hany => ?_
        have hq : r.address ∈ s.c.quorumReplicas.map ReplicaEntry.address := by simpa using hany
        have := hw.modeOf_none_of_quorum hq
        exact modeOf_eq_none.1 this (List.mem_map_of_mem (List.mem_of_find?_eq_some hr))

theorem safe_canAdd (hS : S.drops) (a : Address) : Safe S (canAdd a) :=
  fun w hw =>
    have h := canAdd_spec w hw a w rfl
    ⟨h.1, h.2.1 S hS⟩

theorem matches_addData
    (h : Matches rs qs b) (hnew : a ∉ (rs ++ qs).map ReplicaEntry.address)
    (hwo : ∀ r ∈ rs, r.mode ≠ .wo) : Matches (rs ++ [⟨a, .wo⟩]) qs (b.insert a (wrap a .wo)) where
  nodup := by
    have hperm : (rs ++ [(⟨a, .wo⟩ : ReplicaEntry)] ++ qs).Perm (⟨a, .wo⟩ :: (rs ++ qs)) := by
      rw [List.append_assoc]
      exact List.perm_middle
    rw [(hperm.map _).nodup_iff, List.map_cons, List.nodup_cons]
    exact ⟨hnew, h.nodup⟩
  oneWO := by
    have hzero : rs.countP (·.mode = .wo) = 0 := List.countP_eq_zero.2 (by simpa using hwo)
    simp [List.countP_append, hzero]
  mirror := fun x => by
    have ha : a ∉ rs.map ReplicaEntry.address := fun hmem => hnew (by
      rw [List.map_append]
      exact List.mem_append_left _ hmem)
    rw [modeOf_append_singleton rs a x .wo ha]
    rcases eq_or_ne x a with rfl | hx
    · rw [AList.lookup_insert, if_pos rfl]
      rfl
    · rw [AList.lookup_insert_ne hx, if_neg hx, h.mirror]

/-- The replica at `a` is added in mode `WO`, unless there is an error. -/
structure Attached (a : Address) (err : Option Err) (w w' : World) : Prop where
  mirrored : Mirrored w'.c
  reach : ∀ S : Scope, S.adds a → Reach S w w'
  added : err = none → w'.c.replicas = w.c.replicas ++ [⟨a, .wo⟩]
  failed : err ≠ none → w'.c.replicas = w.c.replicas
  quorumReplicas : w'.c.quorumReplicas = w.c.quorumReplicas

theorem attach_spec (w : World) (hw : Mirrored w.c)
    (hnew : a ∉ (w.c.replicas ++ w.c.quorumReplicas).map ReplicaEntry.address)
    (hwo : ∀ r ∈ w.c.replicas, r.mode ≠ .wo) :
    Triple (fun s => s = w) (attach a) fun err => Attached a err w := by
  have hrequest : ∀ S : Scope, Safe S (request a (Node.setReplicaMode .wo)) :=
    fun S => safe_request a (.inl (quiet_setReplicaMode .wo)) fun _ => rfl
  have hstill : Triple (fun s => s = w) (request a (Node.setReplicaMode .wo)) fun _ s =>
      Mirrored s.c ∧ (∀ S : Scope, Reach S w s) ∧ s.c.replicas = w.c.replicas ∧
        s.c.quorumReplicas = w.c.quorumReplicas := by
    rintro s rfl
    have hrest := rested_of_reach (hrequest .still s hw).2
    exact ⟨(hrequest .still s hw).1, fun S => (hrequest S s hw).2, hrest.replicas,
      hrest.quorumReplicas⟩
  refine .bind hstill fun err => .fix fun w₁ h₁ => ?_
  obtain ⟨hmir, hreach, hrs, hqs⟩ := h₁
  cases err with
  | some e =>
    refine .pure ?_
    rintro s rfl
    exact ⟨hmir, fun S _ => hreach S, nofun, fun _ => hrs, hqs⟩
  | none =>
    rw [← hrs, ← hqs] at hnew
    rw [← hrs] at hwo
    have hm := matches_addData hmir.toMatches hnew hwo
    have hnone : w₁.c.backend.backends.lookup a = none := by
      rw [hmir.mirror a, modeOf_eq_none.2 fun hmem => hnew (by
        rw [List.map_append]
        exact List.mem_append_left _ hmem)]
      rfl
    refine .modify_bind (.bind (addBackend_spec _ a hnone hm) fun _ => .pure ?_)
    rintro w₂ ⟨hmir₂, hside, r, hr⟩
    have hreg : Withdraws w₁.c { w₁.c with
        replicas := w₁.c.replicas ++ [⟨a, .wo⟩], backend := r } :=
      .same rfl rfl rfl
    have hed : Edited (w₁.c.replicas ++ [⟨a, .wo⟩]) w₁.c.quorumReplicas w₁ w₂ := by
      refine ⟨hmir₂, hside, ?_, ?_, ?_, ?_, ?_, hr ▸ hreg⟩ <;> rw [hr] <;> simp [World.setC,
        SameStatus]
    refine ⟨hmir₂,
      fun S hS => (hreach S).tail
      (hed.change (.addData a hS hnew hwo) fun hfixed => hfixed.2.1 a hS), fun _ => ?_,
      fun h => (h rfl).elim, hed.quorumReplicas.trans hqs⟩
    rw [hed.replicas, hrs]

theorem safe_snapshotToAdd (a : Address) {uuid : String}
    (hS : ∀ x, S.sends x (Node.snapshot uuid)) : Safe S (snapshotToAdd a uuid) := by
  refine .bind Replicator.safe_remainSnapshots fun remain => ?_
  cases remain with
  | error e => exact .pure _
  | ok remain =>
    refine .ite (fun _ => .pure _) fun _ => ?_
    refine .bind (Replicator.safe_fanOut (fun x => .inr (hS x)) (Node.checkpoint_snapshot uuid))
      fun err => ?_
    cases err with
    | some err => exact .pure _
    | none =>
      exact .bind (safe_requestIf a _ (.inr (hS a)) (Node.checkpoint_snapshot uuid))
        fun _ => .pure _

theorem snapshotToAdd_lists (hw : Mirrored w.c) (a : Address) (uuid : String) :
    Triple (fun s => s = w) (snapshotToAdd a uuid) fun _ s => Mirrored s.c ∧
      s.c.replicas = w.c.replicas ∧ s.c.quorumReplicas = w.c.quorumReplicas := by
  rintro s rfl
  have hsafe : Safe { sends := fun _ _ => True } (snapshotToAdd a uuid) :=
    safe_snapshotToAdd a fun _ => trivial
  have h := hsafe s hw
  exact ⟨h.1, lists_of_reach ⟨id, fun _ => id, fun _ => id, fun _ _ => id, id⟩ h.2⟩

/-- What `addReplicaNoLock` does. -/
structure Joins (a : Address) (uuid : Option String) (err : Option Err) (w w' : World) : Prop where
  mirrored : Mirrored w'.c
  reach : ∀ S : Scope, S.drops → S.adds a →
    (∀ u, uuid = some u → ∀ x, S.sends x (Node.snapshot u)) → Reach S w w'
  added : err = none → ¬w.c.hasReplica a ∧
    w'.c.replicas = withoutWO w.c.replicas ++ [⟨a, .wo⟩] ∧ w'.c.quorumReplicas = w.c.quorumReplicas
  failed : err ≠ none → w'.c.replicas.length ≤ w.c.replicas.length

theorem addReplicaNoLock_spec (w : World) (hw : Mirrored w.c) (a : Address) (uuid : Option String) :
    Triple (fun s => s = w) (addReplicaNoLock a uuid) fun err => Joins a uuid err w := by
  refine .bind (canAdd_spec w hw a) fun err => .fix fun w₁ h₁ => ?_
  obtain ⟨hmir₁, hreach₁, hcan⟩ := h₁
  cases err with
  | some err =>
    refine .pure ?_
    rintro s rfl
    refine ⟨hmir₁, fun S hS _ _ => hreach₁ S hS, nofun, fun _ => ?_⟩
    exact length_le_of_reach (S := { drops := True }) (fun _ => id) hmir₁ (hreach₁ _ trivial)
  | none =>
    have h₁ := hcan rfl
    have hle : w₁.c.replicas.length ≤ w.c.replicas.length := by
      rw [h₁.replicas]
      exact List.length_filter_le _ _
    cases uuid with
    | none =>
      refine (attach_spec w₁ hmir₁ h₁.not_mem h₁.no_wo).post fun err w₂ h₂ => ?_
      refine ⟨h₂.mirrored, fun S hS ha _ => (hreach₁ S hS).trans (h₂.reach S ha), fun he => ?_,
        fun he => by rw [h₂.failed he]; exact hle⟩
      rw [h₂.added he, h₂.quorumReplicas, h₁.replicas, h₁.quorumReplicas]
      exact ⟨h₁.new, rfl, rfl⟩
    | some uuid =>
      refine .bind (Q := fun _ s => Mirrored s.c ∧
        (∀ S : Scope, (∀ x, S.sends x (Node.snapshot uuid)) → Reach S w₁ s) ∧
        s.c.replicas = w₁.c.replicas ∧ s.c.quorumReplicas = w₁.c.quorumReplicas) ?_
        fun err => .fix fun w₂ h₂ => ?_
      · rintro s rfl
        obtain ⟨hmir, hlists⟩ := snapshotToAdd_lists hmir₁ a uuid s rfl
        exact ⟨hmir, fun S hS => (safe_snapshotToAdd a hS s hmir₁).2, hlists⟩
      obtain ⟨hmir₂, hreach₂, hrs, hqs⟩ := h₂
      cases err with
      | some err =>
        refine .pure ?_
        rintro s rfl
        exact ⟨hmir₂, fun S hS _ hsend => (hreach₁ S hS).trans (hreach₂ S (hsend uuid rfl)), nofun,
          fun _ => by rw [hrs]; exact hle⟩
      | none =>
        refine (attach_spec w₂ hmir₂ (by rw [hrs, hqs]; exact h₁.not_mem)
          (by rw [hrs]; exact h₁.no_wo)).post fun err w₃ h₃ => ?_
        refine ⟨h₃.mirrored, fun S hS ha hsend => ((hreach₁ S hS).trans
          (hreach₂ S (hsend uuid rfl))).trans (h₃.reach S ha), fun he => ?_,
          fun he => by rw [h₃.failed he, hrs]; exact hle⟩
        rw [h₃.added he, h₃.quorumReplicas, hrs, hqs, h₁.replicas, h₁.quorumReplicas]
        exact ⟨h₁.new, rfl, rfl⟩

theorem safe_addReplicaNoLock (hS : S.drops) (ha : S.adds a) {uuid : Option String}
    (hsend : ∀ u, uuid = some u → ∀ x, S.sends x (Node.snapshot u)) :
    Safe S (addReplicaNoLock a uuid) :=
  fun w hw =>
    have h := addReplicaNoLock_spec w hw a uuid w rfl
    ⟨h.mirrored, h.reach S hS ha hsend⟩

theorem safe_update (hS : S.Updates) :
    Safe S (do updateVolStatus; updateCheckpoint; pure none : Ctl (Option Err)) :=
  .bind (safe_updateVolStatus hS) fun _ => .bind (safe_updateCheckpoint hS) fun _ => .pure _

theorem safe_addReplicaCommit (hS : S.drops) (ha : S.adds a) {uuid : String}
    (hsend : ∀ x, S.sends x (Node.snapshot uuid)) : Safe S (addReplicaCommit a uuid) := by
  refine .bind (safe_addReplicaNoLock hS ha fun u hu => ?_) fun err => ?_
  · obtain rfl : uuid = u := Option.some.inj hu
    exact hsend
  · cases err with
    | some err => exact .pure _
    | none => exact safe_update (.inr hS)

end Controller

end Jiva
