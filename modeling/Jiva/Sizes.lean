import Jiva.Requests

/-!
# The size of the replicas

A write that the controller accepts lies within the size that the controller keeps. `Sized` says
that this is the size of every replica that gets the write.

`Start` compares the size of each replica with that of the first one. `addReplica` does not, so a
replica that was away during a `Resize` comes back too small (`rejoin_too_small`), and `Resize`
leaves the size of the controller behind if the frontend fails. `replicas_have_size` is what holds
over runs without these (`Op.Fitting`).
-/

namespace Jiva

open Hoare Controller Relation Transition

variable {w w' : World} {a : Address} {S : Scope}

/-- The data replicas that are not in mode `ERR` have the size of the controller. -/
def Sized (w : World) : Prop :=
  ∀ a m, ⟨a, m⟩ ∈ w.c.replicas → m ≠ .err → (w.nodes a).size = w.c.size

theorem sized_of_nil (h : w.c.replicas = []) : Sized w := by
  intro a m ha
  rw [h] at ha
  simp at ha

/-- Nothing in the scope changes a size. -/
structure Scope.KeepsSize (S : Scope) : Prop where
  sends : ∀ a f, S.sends a f → ∀ n, (f n).size = n.size
  resizes : ¬S.resizes

/-- The sizes are those of `w`. -/
structure SameSizes (w w' : World) : Prop where
  nodes : ∀ a, (w'.nodes a).size = (w.nodes a).size
  c : w'.c.size = w.c.size

theorem sameSizes_of_reach (hS : S.KeepsSize) (h : Reach S w w') : SameSizes w w' :=
  ⟨nodes_of_reach (fun a f hf => hf.elim Quiet.size (hS.sends a f)) h, size_of_reach hS.resizes h⟩

/-- Where an entry that gets requests comes from. -/
theorem live_of_edit {rs qs rs' qs' : List ReplicaEntry} (h : Edit S rs qs rs' qs')
    {m : BackendMode} (ha : ⟨a, m⟩ ∈ rs') (hm : m ≠ .err) :
    (∃ m', ⟨a, m'⟩ ∈ rs ∧ m' ≠ .err) ∨ S.adds a := by
  cases h with
  | same => exact .inl ⟨m, ha, hm⟩
  | mode x m' hwo hm' =>
    rcases mem_setEntries ha with ⟨hr, -⟩ | ⟨he, hold⟩
    · exact .inl ⟨m, hr, hm⟩
    · obtain rfl : a = x := congrArg ReplicaEntry.address he
      exact .inl hold
  | removeData x hS => exact .inl ⟨m, List.mem_of_mem_eraseP ha, hm⟩
  | removeQuorum x hS => exact .inl ⟨m, ha, hm⟩
  | addData x hx hnew hwo =>
    rcases List.mem_append.1 ha with ha | ha
    · exact .inl ⟨m, ha, hm⟩
    · have hxa : (⟨a, m⟩ : ReplicaEntry) = ⟨x, .wo⟩ := List.mem_singleton.1 ha
      obtain rfl : a = x := congrArg ReplicaEntry.address hxa
      exact .inr hx
  | addQuorum x hx hnew => exact .inl ⟨m, ha, hm⟩
  | reset hS => simp at ha

theorem live_of_reach (h : Reach S w w') {m : BackendMode} (ha : ⟨a, m⟩ ∈ w'.c.replicas)
    (hm : m ≠ .err) : (∃ m', ⟨a, m'⟩ ∈ w.c.replicas ∧ m' ≠ .err) ∨ S.adds a := by
  induction h generalizing m with
  | refl => exact .inl ⟨m, ha, hm⟩
  | tail _ hstep ih =>
    cases hstep with
    | send x f hf hcheck h =>
      subst h
      exact ih ha hm
    | edit hnodes hsignals hrf hsize hstatus htables h =>
      rcases live_of_edit h ha hm with ⟨m', ha', hm'⟩ | hadd
      · exact ih ha' hm'
      · exact .inr hadd

theorem Sized.reach (hS : S.KeepsSize) (hw : Sized w)
    (hadds : ∀ a, S.adds a → (w.nodes a).size = w.c.size) (h : Reach S w w') : Sized w' := by
  have hsame := sameSizes_of_reach hS h
  intro a m ha hm
  rw [hsame.nodes, hsame.c]
  rcases live_of_reach h ha hm with ⟨m', ha', hm'⟩ | hadd
  · exact hw a m' ha' hm'
  · exact hadds a hadd

/-! ## Start -/

/-- While `Start` adds replicas : they have the size of the controller, and as long as that is not
set there are none. The sizes of the replicas are those of `w₀`. -/
structure Gathering (w₀ w : World) : Prop where
  mirrored : Mirrored w.c
  sized : Sized w
  nodes : ∀ a, (w.nodes a).size = (w₀.nodes a).size
  unset : w.c.size = maxInt64 → w.c.replicas = []

variable {w₀ : World}

theorem gathering_tolerant (w₀ : World) : Tolerant (Gathering w₀) fun _ _ => True := by
  intro α x hx w hw
  obtain ⟨hmir, hreach⟩ := hx w hw.mirrored
  have hr := rested_of_reach hreach
  refine ⟨⟨hmir, ?_, fun a => (hr.nodeSize a).trans (hw.nodes a), ?_⟩, .single trivial⟩
  · intro a m ha hm
    rw [hr.replicas] at ha
    rw [hr.nodeSize, hr.size, hw.sized a m ha hm]
  · rw [hr.size, hr.replicas]
    exact hw.unset

/-- Once the size is set, replicas of that size can be added. -/
theorem gathering_of_safe (hS : S.KeepsSize) {α : Type} {x : Ctl α} (hx : Safe S x)
    (hw : Gathering w₀ w) (hset : w.c.size ≠ maxInt64)
    (hadds : ∀ a, S.adds a → (w.nodes a).size = w.c.size) :
    Triple (fun s => s = w) x fun _ s => Gathering w₀ s ∧ SameSizes w s := by
  rintro s rfl
  obtain ⟨hmir, hreach⟩ := hx s hw.mirrored
  have hsized := hw.sized.reach hS hadds hreach
  have hsame := sameSizes_of_reach hS hreach
  exact ⟨⟨hmir, hsized, fun a => (hsame.nodes a).trans (hw.nodes a),
    fun hmax => (hset (hsame.c ▸ hmax)).elim⟩, hsame⟩

theorem gathering_takeSize {n m : ℤ} (hn : n ≠ maxInt64) :
    Triple (Gathering w₀) (modify fun w => w.setC (takeSize n m))
      fun _ w => Gathering w₀ w ∧ w.c.size ≠ maxInt64 := by
  intro w hw
  have hmir := (safe_takeSize (S := { resizes := True }) trivial n m w hw.mirrored).1
  by_cases h : w.c.size = maxInt64
  · have hc : ((modify fun w => w.setC (takeSize n m) : Ctl Unit).run w).2 =
        w.setC fun c => { c with size := n, sectorSize := m } :=
      congrArg (fun c => { w with c := c }) (if_pos h)
    rw [hc] at hmir ⊢
    refine ⟨⟨hmir, fun a m ha => ?_, hw.nodes, fun hmax => (hn hmax).elim⟩, hn⟩
    have hnil : a ∈ ([] : List ReplicaEntry).map ReplicaEntry.address := by
      rw [← hw.unset h]
      exact List.mem_map_of_mem ha
    simp at hnil
  · have hc : ((modify fun w => w.setC (takeSize n m) : Ctl Unit).run w).2 = w :=
      congrArg (fun c => { w with c := c }) (if_neg h)
    rw [hc]
    exact ⟨hw, h⟩

theorem query_size (a : Address) (hw₀ : (w₀.nodes a).size ≠ maxInt64) :
    Triple (Gathering w₀) (query a Node.size) fun res w =>
      Gathering w₀ w ∧ ∀ n, res = .ok n → n = (w₀.nodes a).size ∧ n ≠ maxInt64 := by
  intro w hw
  refine ⟨(gathering_tolerant w₀ (safe_query a Node.size) w hw).1, fun n hn => ?_⟩
  obtain rfl := (query_spec a Node.size w w rfl).2 n hn
  rw [hw.nodes]
  exact ⟨rfl, hw₀⟩

theorem gathering_finishStart (hw : Gathering w₀ w) (hset : w.c.size ≠ maxInt64) :
    Triple (fun s => s = w) (finishStart a) fun _ => Gathering w₀ :=
  (gathering_of_safe (S := { drops := True, sets := fun x m => x = a ∧ m = .rw })
    ⟨fun _ _ h => False.elim h,
      id⟩ (safe_finishStart (S := { drops := True, sets := fun x m => x = a ∧ m = .rw }) trivial
      (And.intro rfl rfl)) hw hset fun _ h => False.elim h).post fun _ _ h => h.1

theorem gathering_addSized {n : ℤ} (hn : n = (w₀.nodes a).size) (hmax : n ≠ maxInt64)
    (m : ℤ) : Triple (Gathering w₀) (addSized a n m) fun _ => Gathering w₀ := by
  have hfail : ∀ (w : World) (err : Err), Gathering w₀ w →
      Triple (fun s => s = w) (failStart a err) fun _ => Gathering w₀ := fun w err hw =>
    (Keeps.triple (gathering_tolerant w₀ (safe_failStart a err))).pre fun s hs => hs ▸ hw
  refine .bind (gathering_takeSize hmax) fun _ => .get fun w hw => ?_
  refine .ite (fun _ => hfail w _ hw.1) fun hsize =>
    .ite (fun _ => hfail w _ hw.1) fun _ => ?_
  have hadd : Safe { drops := True, adds := fun x => x = a } (addReplicaNoLock a none) :=
    safe_addReplicaNoLock trivial rfl nofun
  refine .bind (gathering_of_safe ⟨fun _ _ h => False.elim h,
    id⟩ hadd hw.1 hw.2 ?_) fun err =>
    .fix fun w₁ h₁ => ?_
  · rintro x rfl
    rw [hw.1.nodes, ← hn, not_not.1 hsize]
  · cases err with
    | some err => exact hfail w₁ err h₁.1
    | none => exact gathering_finishStart h₁.1 (h₁.2.c ▸ hw.2)

theorem gathering_addReplicaDuringStartNoLock (ha : (w₀.nodes a).size ≠ maxInt64) :
    Triple (Gathering w₀) (addReplicaDuringStartNoLock a) fun _ => Gathering w₀ := by
  have hfail : ∀ err, Triple (Gathering w₀) (failStart a err) fun _ => Gathering w₀ :=
    fun err => Keeps.triple (gathering_tolerant w₀ (safe_failStart a err))
  refine .bind (Keeps.triple (gathering_tolerant w₀ safe_ask)) fun err => ?_
  cases err with
  | some e => exact hfail _
  | none =>
    refine .bind (query_size a ha) fun newSize => ?_
    cases newSize with
    | error e => exact (hfail _).pre fun _ h => h.1
    | ok n =>
      refine .fix fun w₁ h₁ => ?_
      obtain ⟨hn, hmax⟩ := h₁.2 n rfl
      refine .bind
        ((Keeps.triple (gathering_tolerant w₀ (safe_query a Node.sectorSize))).pre ?_)
        fun newSectorSize => ?_
      · rintro s rfl
        exact h₁.1
      · cases newSectorSize with
        | error e => exact hfail _
        | ok m => exact gathering_addSized hn hmax m

theorem gathering_addAllDuringStart {as : List Address}
    (h : ∀ a ∈ as, (w₀.nodes a).size ≠ maxInt64) :
    Preserves (Gathering w₀) (addAllDuringStart as) :=
  Tolerant.addAllDuringStart fun a ha => (gathering_addReplicaDuringStartNoLock (h a ha)).preserves

theorem sized_of_drops {α : Type} {x : Ctl α} (hx : Safe { drops := True } x) :
    Triple (fun w => Mirrored w.c ∧ Sized w) x fun _ w => Mirrored w.c ∧ Sized w := fun w hw =>
  have h := hx w hw.1
  ⟨h.1, hw.2.reach ⟨fun _ _ h => False.elim h, id⟩ (fun _ h => False.elim h) h.2⟩

/-- All replicas that `Start` adds have the same size. -/
theorem start_sized (hw : Mirrored w.c) (hsized : Sized w) {as : List Address}
    (has : ∀ a ∈ as, (w.nodes a).size ≠ maxInt64) :
    Triple (fun s => s = w) (Controller.start as) fun _ s => Sized s := by
  refine .get ?_
  rintro w rfl
  cases as with
  | nil => exact .pure fun s hs => hs ▸ hsized
  | cons a as =>
    refine .ite (fun _ => .pure fun s hs => hs ▸ hsized) fun hlen =>
      .ite (fun _ => .pure fun s hs => hs ▸ hsized) fun _ => ?_
    refine .bind (Q := fun _ => Gathering w) (.modify ?_) fun _ => ?_
    · rintro s rfl
      have hreset := (safe_shutdownBackend (S := { resets := True }) trivial s hw).1
      exact ⟨⟨hreset.toMatches, hreset.built⟩, sized_of_nil rfl, fun _ => rfl, fun _ => rfl⟩
    · refine .bind (Q := fun _ w => Mirrored w.c ∧ Sized w)
        (.bind (gathering_addAllDuringStart has).triple fun err => ?_) fun err => ?_
      · have hgathered : ∀ s, Gathering w s → Mirrored s.c ∧ Sized s :=
          fun s hs => ⟨hs.mirrored, hs.sized⟩
        cases err with
        | some err => exact .pure hgathered
        | none =>
          exact (sized_of_drops (safe_checkRevisions (S := { drops := True }) trivial)).pre
            hgathered
      · exact .bind (sized_of_drops safe_startFrontend) fun _ => .pure fun _ h => h.2

/-! ## Resize -/

/-- The end of `Resize` : the controller takes the new size if the frontend does. -/
theorem resizeFrontend_spec (n : ℤ) (w : World) :
    Triple (fun s => s = w) (resizeFrontend n) fun _ s =>
      s.nodes = w.nodes ∧ s.c.replicas = w.c.replicas ∧
        (w.c.frontendUp = true → (w.tape 0).reply.err = none → s.c.size = n) := by
  refine .get ?_
  rintro w rfl
  refine .ite (fun hdown => .pure ?_) fun _ => ?_
  · rintro s rfl
    exact ⟨rfl, rfl, fun hup => by simp [hdown] at hup⟩
  refine .bind (Q := fun err s => err = (w.tape 0).reply.err ∧ s = w.advance) ?_ fun err => .fix ?_
  · rintro s rfl
    exact ⟨rfl, rfl⟩
  rintro _ ⟨herr, rfl⟩
  cases err with
  | some e =>
    refine .pure ?_
    rintro s rfl
    exact ⟨rfl, rfl, fun _ hnone => by simp [← herr] at hnone⟩
  | none =>
    refine .bind (Q := fun _ s => s.nodes = w.nodes ∧ s.c.replicas = w.c.replicas ∧
      s.c.size = n) (.modify ?_) fun _ => .pure fun _ h => ⟨h.1, h.2.1,
        fun _ _ => h.2.2⟩
    rintro s rfl
    exact ⟨rfl, rfl, rfl⟩

/-- The backends that refuse to grow. -/
def growthRefusers (w : World) : List Address :=
  refusers (fun _ => true) w

/-- Where the reply of the frontend to a `Resize` is on the tape : after those of the backends, and
after the moments in which the backends that refuse are set to mode `ERR`. -/
def frontendMoment (w : World) : ℕ :=
  (if growthRefusers w = [] then 0 else 2 * (growthRefusers w).length + 1) + (asked w).length + 1

/-- By their replies, no backend grows, or one in mode `RW` is left of those that do and the
frontend takes the new size. -/
def Grows (w : World) : Prop :=
  (∀ a ∈ asked w, a ∈ growthRefusers w) ∨
  ((growthRefusers w = [] ∨ ∃ r ∈ w.c.replicas, r.mode = .rw ∧ r.address ∉ growthRefusers w) ∧
    w.c.frontendUp = true ∧ (w.tape (frontendMoment w)).reply.err = none)

instance (w : World) : Decidable (Grows w) :=
  inferInstanceAs (Decidable (_ ∨ _))

/-- What is left after the backends were asked to grow has the new size. -/
theorem size_of_demoted {w₁ w₂ : World} {n : ℤ} {err : Option Err} (hw : Mirrored w.c)
    (h₁ : Fanned (fun _ => true) (Node.resize n) err w w₁)
    (h₂ : Demoted (failedReplicas err) w₁ w₂) {m : BackendMode} (ha : ⟨a, m⟩ ∈ w₂.c.replicas)
    (hm : m ≠ .err) : a ∈ asked w ∧ a ∉ growthRefusers w ∧ (w₂.nodes a).size = n := by
  obtain ⟨hmem, hfree⟩ := h₂.live a m ha hm
  rw [h₁.c] at hmem
  refine ⟨(mem_asked hw).2 ⟨m, hm, hmem⟩, h₁.failed.mem_iff.not.1 hfree, ?_⟩
  rw [h₂.side.1, (h₁.applied hw a m hmem hm hfree).2]
  rfl

/-- The error of the backends is dropped, and the next moment is that of the frontend. -/
theorem handled_frontend {w₁ w₂ : World} {n : ℤ} {err err' : Option Err} (hw : Mirrored w.c)
    (h₁ : Fanned (fun _ => true) (Node.resize n) err w w₁)
    (hrun : (handleErrorNoLock err).run w₁ = (err', w₂)) (h₂ : Handled err err' w₁ w₂)
    (hleft : growthRefusers w = [] ∨
      ∃ r ∈ w.c.replicas, r.mode = .rw ∧ r.address ∉ growthRefusers w) :
    err' = none ∧ w₂.tape 0 = w.tape (frontendMoment w) := by
  constructor
  · by_cases hnil : growthRefusers w = []
    · have hfailed : failedReplicas err = [] := (h₁.failed.trans (.of_eq hnil)).eq_nil
      exact (h₂.passed hfailed).trans (h₁.ok hnil)
    · obtain ⟨⟨x, _⟩, hr, rfl, hx⟩ := hleft.resolve_left hnil
      refine (h₂.dropped fun h => hnil ?_).2 ⟨x, h₂.kept x .rw (h₁.c ▸ hr) ?_⟩
      · exact (h ▸ h₁.failed).nil_eq.symm
      · exact h₁.failed.mem_iff.not.2 hx
  · have hasked : ∀ x ∈ failedReplicas err, ∃ m, m ≠ .err ∧ ⟨x, m⟩ ∈ w₁.c.replicas := fun x hx => by
      rw [h₁.c]
      exact (mem_asked hw).1 (List.mem_of_mem_filter (h₁.failed.mem_iff.1 hx))
    have hnodup : (failedReplicas err).Nodup :=
      h₁.failed.nodup_iff.2 ((nodup_asked w).filter _)
    have htape := handleErrorNoLock_tape (h₁.c ▸ hw) hnodup hasked 0
    have hnil : failedReplicas err = [] ↔ growthRefusers w = [] := by
      rw [← List.length_eq_zero_iff, h₁.failed.length_eq, List.length_eq_zero_iff, growthRefusers]
    rw [hrun] at htape
    rw [show w₂.tape 0 = _ from htape, h₁.tape, h₁.failed.length_eq, Nat.zero_add, frontendMoment]
    exact congrArg (fun k => w.tape (k + (asked w).length + 1)) (if_congr hnil rfl rfl)

/-- `Resize` keeps the sizes together, by the replies of the backends and of the frontend. -/
theorem resize_sized (hw : Mirrored w.c) (hsized : Sized w) (name : String)
    (bytes : Except String ℤ)
    (hgrows : ∀ n, name = w.c.name → bytes = .ok n → w.c.size < n → Grows w) :
    Triple (fun s => s = w) (Controller.resize name bytes) fun _ s => Sized s := by
  refine .get ?_
  rintro w rfl
  refine .ite (fun _ => .pure fun s hs => hs ▸ hsized) fun hname => ?_
  cases bytes with
  | error e => exact .pure fun s hs => hs ▸ hsized
  | ok n =>
    refine .ite (fun _ => .pure fun s hs => hs ▸ hsized) fun hlt =>
      .ite (fun _ => .pure fun s hs => hs ▸ hsized) fun hne => ?_
    refine .bind (fanOut_spec (fun _ => true) (Node.resize n) w) fun err =>
      .fix fun w₁ h₁ => ?_
    refine .bind (((handleErrorNoLock_spec (h₁.c ▸ hw) err).and (Triple.result w₁)).pre
      fun s hs => ⟨hs, hs⟩) fun err' => .fix fun w₂ h₂ => ?_
    obtain ⟨h₂, hrun⟩ := h₂
    rcases hgrows n (not_not.1 hname) rfl (by omega) with hdead | ⟨hleft, hup, hreply⟩
    · -- no replica is left that gets writes
      have hnone : ∀ s : World, s.c.replicas = w₂.c.replicas → Sized s := fun s hs a m ha hm => by
        obtain ⟨hasked, hfree, -⟩ := size_of_demoted hw h₁ h₂.toDemoted (hs ▸ ha) hm
        exact (hfree (hdead a hasked)).elim
      cases err' with
      | some e => exact .pure fun s hs => hnone s (hs ▸ rfl)
      | none => exact (resizeFrontend_spec n w₂).post fun _ s hs => hnone s hs.2.1
    · obtain ⟨rfl, htape⟩ := handled_frontend hw h₁ hrun h₂ hleft
      refine (resizeFrontend_spec n w₂).post fun _ s hs a m ha hm => ?_
      obtain ⟨hnodes, hrs, hsize⟩ := hs
      rw [hnodes, (size_of_demoted hw h₁ h₂.toDemoted (hrs ▸ ha) hm).2.2,
        hsize (by rw [h₂.frontendUp, h₁.c, hup]) (by rw [htape, hreply])]

/-! ## Runs -/

/-- What comes in has the size of the controller, and in a `Resize` the frontend grows with the
backends. The sizes of the replicas of a `Start` are not `math.MaxInt64`, which is no multiple
of a sector. -/
def Op.Fitting (op : Op) (w : World) : Prop :=
  match op with
  | .addCommit a _ => (w.nodes a).size = w.c.size
  | .start as => ∀ a ∈ as, (w.nodes a).size ≠ maxInt64
  | .resize name (.ok n) => name = w.c.name → w.c.size < n → Grows w
  | .node a n => (∃ r ∈ w.c.replicas, r.address = a ∧ r.mode ≠ .err) → n.size = (w.nodes a).size
  | _ => True

instance (op : Op) (w : World) : Decidable (op.Fitting w) := by
  apply @Op.casesOn (Decidable <| ·.Fitting w) op <;> intros
  case resize name bytes =>
    apply @Except.casesOn _ _ (fun b => Decidable (Op.Fitting (.resize name b) w))
      bytes <;> intros <;> unfold Op.Fitting <;> infer_instance
  all_goals unfold Op.Fitting; infer_instance

/-- A step under the lock keeps the sizes together. -/
theorem act_sized (hw : Mirrored w.c) (hsized : Sized w) {op : Op} (h : op.Fitting w) :
    Sized (op.act.run w).2 := by
  have hreach := (safe_act op w hw).2
  cases op with
  | start as => exact start_sized hw hsized h w rfl
  | resize name bytes =>
    refine resize_sized hw hsized name bytes ?_ w rfl
    rintro n hname rfl hlt
    exact h hname hlt
  | addCommit a uuid =>
    refine hsized.reach ⟨?_, id⟩ ?_ hreach
    · rintro x f rfl n
      exact Node.size_snapshot uuid n
    · rintro x rfl
      exact h
  | writeAt wr =>
    refine hsized.reach ⟨?_, id⟩ (fun _ h => False.elim h) hreach
    rintro x f ⟨wr, rfl⟩ n
    rfl
  | snapshot name uuid =>
    refine hsized.reach ⟨?_, id⟩ (fun _ h => False.elim h) hreach
    rintro x f ⟨n, rfl⟩ k
    exact Node.size_snapshot n k
  | revertCommit clients name =>
    refine hsized.reach ⟨?_, id⟩ (fun _ h => False.elim h) hreach
    rintro x f rfl n
    exact Node.size_revert name n
  | _ =>
    exact hsized.reach ⟨fun _ _ h => False.elim h, id⟩ (fun _ h => False.elim h) hreach

/-- In a run in which everything that comes in fits, each replica that gets writes has the size of
the controller, and a write within that size is within its bounds. -/
theorem replicas_have_size (name : String) (rf : ℕ) (nodes : Address → Node)
    (ls : List (Op × (ℕ → Moment))) (s : System)
    (hfit : Transition.Along System.step (fun s l => l.1.Fitting (s.world.onTape l.2))
      (System.new name rf nodes) ls)
    (h : run System.step (System.new name rf nodes) ls = some s) (a : Address)
    (m : BackendMode) (ha : ⟨a, m⟩ ∈ s.world.c.replicas) (hm : m ≠ .err) :
    (s.world.nodes a).size = s.world.c.size ∧
      ∀ (off : ℤ) (len : ℕ), 0 ≤ off ∧ off + len ≤ s.world.c.size →
        0 ≤ off ∧ off + len ≤ (s.world.nodes a).size := by
  have hsized : Sized s.world := by
    refine (System.run_induction (I := fun s => Sized s.world) ?_ ?_ ?_ (mirrored_new name rf)
      (sized_of_nil rfl) hfit h).2
    · intro s op tape s' hs hsized hg hop hstep
      rw [System.world_of_step hstep hop]
      exact act_sized (w := s.world.onTape tape) hs hsized hg
    · exact fun s _ => sized_of_nil rfl
    · intro s a n tape hsized hg x m hx hm
      rcases eq_or_ne x a with rfl | hne
      · simpa [World.setNode] using (hg ⟨_, hx, rfl, hm⟩).trans (hsized x m hx hm)
      · simpa [World.setNode, Function.update_of_ne hne] using hsized x m hx hm
  have hsize := hsized a m ha hm
  exact ⟨hsize, fun off len hoff => by rwa [hsize]⟩

theorem replicas_have_size_rebuildOne : ∃ s,
    run System.step (System.new "vol" 2 fun _ => .blank)
      (System.calmly (rebuildOne ++ [.resize "vol" (.ok 8192)])) = some s ∧
    s.world.c.size = 8192 ∧ (s.world.nodes "tcp://b:9502").size = s.world.c.size :=
  exists_of_any (p := fun s => s.world.c.size = 8192 ∧ ⟨"tcp://b:9502", .rw⟩ ∈ s.world.c.replicas)
    (by decide +kernel) fun s hs h => ⟨h.1, (replicas_have_size _ _ _ _ s
      (along_of_check (by decide +kernel)) hs _ _ h.2 (by decide)).1⟩

/-- One of two replicas leaves, the volume grows, and the replica comes back. -/
def rejoin : List Op :=
  rebuildOne ++ [.removeReplica "tcp://b:9502", .resize "vol" (.ok 8192), .addBegin "tcp://b:9502",
    .addCommit "tcp://b:9502" "s2"]

/-- The replica has the size it left with. A write that the controller accepts lies beyond its
end. -/
theorem rejoin_too_small : ∃ s,
    run System.step (System.new "vol" 2 fun _ => .blank) (System.calmly rejoin) = some s ∧
      ⟨"tcp://b:9502", .wo⟩ ∈ s.world.c.replicas ∧
      (s.world.nodes "tcp://b:9502").size ≠ s.world.c.size ∧
      (0 : ℤ) ≤ 4096 ∧ (4096 : ℤ) + (512 : ℕ) ≤ s.world.c.size ∧
      ¬(4096 : ℤ) + (512 : ℕ) ≤ (s.world.nodes "tcp://b:9502").size :=
  exists_of_any (by decide +kernel) fun _ _ => id

end Jiva
