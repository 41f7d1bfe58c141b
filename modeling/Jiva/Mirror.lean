import Jiva.Controller

/-!
# The replicator mirrors the replicas of the controller

`Mirrored c` is what holds of the controller whenever the lock is free, and between the parts of an
operation : no address occurs twice, at most one replica is in mode `WO`, the backends of the
replicator are the data replicas with their modes, and the tables of readers and writers enumerate
them (`Built`).

`Change` is what a part of an operation may do to the replicas : a mode is set, a replica is removed
or added, or the controller is reset. Which replicas may be added, which modes may be set other than
`ERR`, and which requests may be sent, is up to the operation, and is given as a `Scope`.
-/

namespace Jiva

open Hoare Controller

variable {qs rs : List ReplicaEntry} {m : BackendMode} {b : AddressMap BackendWrapper}
    {r : Replicator}

/-! ## Tables -/

/-- The remotes `rs` are those at the addresses `as`, and `index` gives the address of each. -/
def Fits (as : List Address) (rs : List Remote) (index : ℕ → Address) : Prop :=
  rs = as.map Remote.mk ∧ ∀ i a, as[i]? = some a → index i = a

theorem Fits.nil (index : ℕ → Address) : Fits [] [] index :=
  ⟨rfl, by simp⟩

theorem Fits.snoc {as : List Address} {rs : List Remote} {index : ℕ → Address}
    (h : Fits as rs index) (a : Address) :
    Fits (as ++ [a]) (rs ++ [⟨a⟩]) (Function.update index rs.length a) := by
  obtain ⟨rfl, hindex⟩ := h
  refine ⟨by simp, fun i x hi => ?_⟩
  rcases Nat.lt_trichotomy i as.length with hlt | rfl | hgt
  · rw [List.getElem?_append_left hlt] at hi
    rw [List.length_map, Function.update_of_ne (by omega), hindex i x hi]
  · simpa using hi
  · rw [List.getElem?_eq_none (by simp; omega)] at hi
    simp at hi

/-- The backends are connections to their own addresses. -/
def Named (r : Replicator) : Prop :=
  ∀ a b, r.backends.lookup a = some b → b.backend = ⟨a⟩

/-- The tables of `r` enumerate its backends, in one order. -/
def Built (r : Replicator) : Prop :=
  ∃ order, order.Perm r.backends.keys ∧
    Fits (r.addresses BackendMode.live order) r.writers.writers r.writerIndex ∧
    Fits (r.addresses BackendMode.readable order) r.readers r.readerIndex ∧
    r.backendsAvailable = decide (0 < r.readers.length)

theorem built_new : Built Replicator.new :=
  ⟨[], .refl _, Fits.nil _, Fits.nil _, rfl⟩

namespace Replicator

theorem addresses_snoc (r : Replicator) (p : BackendMode → Bool) (as : List Address) (a : Address) :
    r.addresses p (as ++ [a]) =
      r.addresses p as ++ if ((r.backends.lookup a).map
        fun b => p b.mode).getD false then [a] else [] := by
  simp only [addresses, List.filter_append, List.filter_cons, List.filter_nil]

theorem foldl_addBackendTo (hr : Named r) (as : List Address) :
    let t := as.foldl r.addBackendTo ⟨[], fun _ => "", [], fun _ => ""⟩
    Fits (r.addresses BackendMode.live as) t.writers t.writerIndex ∧
      Fits (r.addresses BackendMode.readable as) t.readers t.readerIndex := by
  induction as using List.reverseRecOn with
  | nil => exact ⟨Fits.nil _, Fits.nil _⟩
  | append_singleton as a ih =>
    obtain ⟨hw, hrd⟩ := ih
    rw [List.foldl_append, List.foldl_cons, List.foldl_nil, addresses_snoc, addresses_snoc]
    generalize as.foldl r.addBackendTo ⟨[], fun _ => "", [], fun _ => ""⟩ = t at hw hrd ⊢
    cases hb : r.backends.lookup a with
    | none => simpa [addBackendTo, hb] using ⟨hw, hrd⟩
    | some b =>
      have hname := hr a b hb
      cases hm : b.mode with
      | wo => simpa [addBackendTo, hb, hm, hname, BackendMode.live, BackendMode.readable]
          using ⟨hw.snoc a, hrd⟩
      | rw => simpa [addBackendTo, hb, hm, hname, BackendMode.live, BackendMode.readable]
          using ⟨hw.snoc a, hrd.snoc a⟩
      | err => simpa [addBackendTo, hb, hm, BackendMode.live, BackendMode.readable]
          using ⟨hw, hrd⟩

theorem built_build (hr : Named r) {order : List Address} (horder : order.Perm r.backends.keys)
    (quorumOrder : List Address) : Built (r.build order quorumOrder) :=
  ⟨order, horder, (foldl_addBackendTo hr order).1, (foldl_addBackendTo hr order).2, rfl⟩

end Replicator

/-! ## Modes by address -/

/-- The mode of the entry at `a`. -/
def modeOf (rs : List ReplicaEntry) (a : Address) : Option BackendMode :=
  (rs.find? (·.address = a)).map ReplicaEntry.mode

theorem modeOf_eq_none {a : Address} : modeOf rs a = none ↔ a ∉ rs.map ReplicaEntry.address := by
  simp [modeOf]

theorem modeOf_cons (r : ReplicaEntry) (rs : List ReplicaEntry) (a : Address) :
    modeOf (r :: rs) a = if r.address = a then some r.mode else modeOf rs a := by
  unfold modeOf
  rw [List.find?_cons]
  by_cases h : r.address = a <;> simp [h]

theorem modeOf_append_singleton (rs : List ReplicaEntry) (a x : Address) (m : BackendMode)
    (h : a ∉ rs.map ReplicaEntry.address) :
    modeOf (rs ++ [⟨a, m⟩]) x = if x = a then some m else modeOf rs x := by
  induction rs with
  | nil => simp [modeOf, eq_comm]
  | cons r rs ih =>
    have hne : r.address ≠ a := fun he => h (by simp [he])
    rw [List.cons_append, modeOf_cons, modeOf_cons, ih fun hmem => h (by simp [hmem])]
    grind

/-- For distinct addresses, an entry is in the list if it is the one that is found. -/
theorem mem_iff_modeOf (h : (rs.map ReplicaEntry.address).Nodup)
    (a : Address) (m : BackendMode) : ⟨a, m⟩ ∈ rs ↔ modeOf rs a = some m := by
  induction rs with
  | nil => simp [modeOf]
  | cons r rs ih =>
    rw [List.map_cons, List.nodup_cons] at h
    rw [List.mem_cons, modeOf_cons, ih h.2]
    by_cases hr : r.address = a
    · have : modeOf rs a = none := modeOf_eq_none.2 (hr ▸ h.1)
      obtain ⟨x, y⟩ := r
      obtain rfl : x = a := hr
      simp [this, eq_comm]
    · rw [if_neg hr]
      refine or_iff_right fun he => hr ?_
      rw [← he]

theorem map_address_setEntries (a : Address) (m : BackendMode) (rs : List ReplicaEntry) :
    (setEntries a m rs).map ReplicaEntry.address = rs.map ReplicaEntry.address := by
  rw [setEntries, List.map_map]
  refine List.map_congr_left fun r _ => ?_
  by_cases h : r.address = a ∧ r.mode ≠ .err <;> simp [h]

theorem setEntries_eq_self {a : Address} {m : BackendMode} {rs : List ReplicaEntry}
    (h : a ∉ rs.map ReplicaEntry.address) : setEntries a m rs = rs := by
  rw [setEntries]
  conv_rhs => rw [← List.map_id rs]
  refine List.map_congr_left fun r hr => if_neg fun hra => h ?_
  exact hra.1 ▸ List.mem_map_of_mem hr

theorem setEntries_append (x : Address) (m : BackendMode) (rs qs : List ReplicaEntry) :
    setEntries x m (rs ++ qs) = setEntries x m rs ++ setEntries x m qs :=
  List.map_append

/-- An entry after the mode `m` was set at `x` : it is as it was, or it is the one that was set. -/
theorem mem_setEntries {x : Address} {e : ReplicaEntry} (h : e ∈ setEntries x m rs) :
    (e ∈ rs ∧ (e.address = x → e.mode = .err)) ∨ (e = ⟨x, m⟩ ∧ ∃ m', ⟨x, m'⟩ ∈ rs ∧ m' ≠ .err) := by
  rw [setEntries, List.mem_map] at h
  obtain ⟨r, hr, rfl⟩ := h
  by_cases hset : r.address = x ∧ r.mode ≠ .err
  · rw [if_pos hset]
    obtain ⟨y, m'⟩ := r
    obtain ⟨rfl, hm'⟩ := hset
    exact .inr ⟨rfl, m', hr, hm'⟩
  · rw [if_neg hset]
    exact .inl ⟨hr, fun hx => not_not.1 fun hm => hset ⟨hx, hm⟩⟩

theorem mem_setEntries_of_ne {x : Address}
    {e : ReplicaEntry} (he : e ∈ rs) (hne : e.address ≠ x) : e ∈ setEntries x m rs :=
  List.mem_map.2 ⟨e, he, if_neg fun h => hne h.1⟩

/-- The mode that is set in place of `m`. -/
def BackendMode.to (new : BackendMode) (m : BackendMode) : BackendMode :=
  if m = .err then .err else new

theorem modeOf_setEntries (a x : Address) (m : BackendMode) (rs : List ReplicaEntry) :
    modeOf (setEntries a m rs) x = if x = a then (modeOf rs x).map m.to else modeOf rs x := by
  induction rs with
  | nil => simp [setEntries, modeOf]
  | cons r rs ih =>
    have hcons : setEntries a m (r :: rs) =
        (if r.address = a ∧ r.mode ≠ .err then { r with mode := m } else r) :: setEntries a m rs :=
      rfl
    rw [hcons, modeOf_cons, modeOf_cons, ih]
    grind [BackendMode.to]

theorem modeOf_eraseP (h : (rs.map ReplicaEntry.address).Nodup) (a x : Address) :
    modeOf (rs.eraseP (·.address = a)) x = if x = a then none else modeOf rs x := by
  induction rs with
  | nil => simp [modeOf]
  | cons r rs ih =>
    rw [List.map_cons, List.nodup_cons] at h
    by_cases hr : r.address = a
    · have hnone : modeOf rs a = none := modeOf_eq_none.2 (hr ▸ h.1)
      rw [List.eraseP_cons_of_pos (by simpa using hr), modeOf_cons]
      grind
    · rw [List.eraseP_cons_of_neg (by simpa using hr), modeOf_cons, modeOf_cons, ih h.2]
      grind

/-! ## The invariant -/

/-- What a backend for a replica in mode `m` is. -/
def wrap (a : Address) (m : BackendMode) : BackendWrapper :=
  ⟨⟨a⟩, m⟩

/-- The backends `b` are the data replicas `rs`, no address occurs twice in them and the quorum
replicas `qs`, and at most one data replica is in mode `WO`. -/
structure Matches (rs qs : List ReplicaEntry) (b : AddressMap BackendWrapper) : Prop where
  nodup : ((rs ++ qs).map ReplicaEntry.address).Nodup
  oneWO : rs.countP (·.mode = .wo) ≤ 1
  mirror : ∀ a, b.lookup a = (modeOf rs a).map (wrap a)

/-- What holds of the controller whenever the lock is free. -/
structure Mirrored (c : Controller) : Prop
    extends Matches c.replicas c.quorumReplicas c.backend.backends where
  built : Built c.backend

theorem mirrored_new (name : String) (rf : ℕ) : Mirrored (Controller.new name rf) where
  nodup := List.nodup_nil
  oneWO := Nat.zero_le _
  mirror := fun _ => rfl
  built := built_new

namespace Matches

variable {rs qs : List ReplicaEntry} {b : AddressMap BackendWrapper}

theorem nodup_replicas (h : Matches rs qs b) : (rs.map ReplicaEntry.address).Nodup := by
  have := h.nodup
  rw [List.map_append] at this
  exact this.of_append_left

/-- A quorum replica is not a data replica. -/
theorem modeOf_none_of_quorum (h : Matches rs qs b) {a : Address}
    (ha : a ∈ qs.map ReplicaEntry.address) : modeOf rs a = none := by
  have hdisj := List.nodup_append.1 (List.map_append ▸ h.nodup)
  exact modeOf_eq_none.2 fun hmem => hdisj.2.2 a hmem a ha rfl

theorem named (h : Matches rs qs r.backends) : Named r := by
  intro a b hb
  rw [h.mirror a, Option.map_eq_some_iff] at hb
  obtain ⟨m, -, rfl⟩ := hb
  rfl

end Matches

/-! ## What the replicator does -/

/-- The replicas and the signals are as they were. -/
def Aside (w₀ w : World) : Prop :=
  w.nodes = w₀.nodes ∧ w.signals = w₀.signals

/-- Nothing but the replicator has changed, and the invariant holds. -/
def Rebuilt (w₀ w : World) : Prop :=
  Mirrored w.c ∧ Aside w₀ w ∧ ∃ r, w.c = { w₀.c with backend := r }

/-- A change of the backends, after which the tables are built again. -/
theorem rebuild_spec (w₀ : World) (f : Replicator → Replicator)
    (h : Matches w₀.c.replicas w₀.c.quorumReplicas (f w₀.c.backend).backends) :
    Triple (fun w => w = w₀) (do modify fun w => w.setBackend f; buildReadWriters) fun _ =>
    Rebuilt w₀ := by
  rintro w rfl
  have hbuilt :=
    Replicator.built_build h.named ((w.tape 0).order_perm (f w.c.backend).backends.keys)
    ((w.tape 1).order (f w.c.backend).quorumBackends.keys)
  exact ⟨⟨h, hbuilt⟩, ⟨rfl, rfl⟩, _, rfl⟩

theorem setMode_spec (w₀ : World) (a : Address) (m : BackendMode) (hbuilt : Built w₀.c.backend)
    (h : ∀ b, w₀.c.backend.backends.lookup a = some b → Matches w₀.c.replicas w₀.c.quorumReplicas
        (w₀.c.backend.backends.insert a { b with mode := m }))
        (hnone : w₀.c.backend.backends.lookup a = none →
      Matches w₀.c.replicas w₀.c.quorumReplicas w₀.c.backend.backends) :
    Triple (fun w => w = w₀) (setMode a m) fun _ => Rebuilt w₀ := by
  refine .get fun w hw => ?_
  subst hw
  cases hb : w.c.backend.backends.lookup a with
  | none =>
    refine .pure ?_
    rintro s rfl
    exact ⟨⟨hnone hb, hbuilt⟩, ⟨rfl, rfl⟩, _, rfl⟩
  | some b => exact rebuild_spec w _ (h b hb)

theorem addBackend_spec (w₀ : World) (a : Address) (hnone : w₀.c.backend.backends.lookup a = none)
    (h : Matches w₀.c.replicas w₀.c.quorumReplicas (w₀.c.backend.backends.insert a (wrap a .wo))) :
    Triple (fun w => w = w₀) (addBackend a ⟨a⟩) fun _ => Rebuilt w₀ := by
  refine .get fun w hw => ?_
  subst hw
  rw [hnone]
  exact rebuild_spec w _ h

theorem removeBackend_spec (w₀ : World) (a : Address) (hbuilt : Built w₀.c.backend)
    (h : Matches w₀.c.replicas w₀.c.quorumReplicas (w₀.c.backend.backends.erase a)) :
    Triple (fun w => w = w₀) (removeBackend a) fun _ => Rebuilt w₀ := by
  refine .get fun w hw => ?_
  subst hw
  refine .ite (fun _ => rebuild_spec w _ h) fun hb => .pure ?_
  rintro s rfl
  refine ⟨⟨⟨h.nodup, h.oneWO, fun x => ?_⟩, hbuilt⟩, ⟨rfl, rfl⟩, _, rfl⟩
  have hnone : s.c.backend.backends.lookup a = none := by
    rw [not_or] at hb
    simpa using hb.1
  rw [← h.mirror x]
  rcases eq_or_ne x a with rfl | hx
  · rw [hnone, AList.lookup_erase]
  · rw [AList.lookup_erase_ne hx]

theorem addQuorumBackend_spec (w₀ : World) (a : Address) (h : Mirrored w₀.c) :
    Triple (fun w => w = w₀) (addQuorumBackend a ⟨a⟩) fun _ => Rebuilt w₀ := by
  refine .get fun w hw => ?_
  subst hw
  refine .ite (fun _ => .pure ?_) fun _ => rebuild_spec w _ h.toMatches
  rintro s rfl
  exact ⟨h, ⟨rfl, rfl⟩, _, rfl⟩

/-! ## Modes -/

theorem settable_eq (h : (rs.map ReplicaEntry.address).Nodup) (a : Address) :
    settable a rs = ((modeOf rs a).filter (· ≠ .err)).toList.map fun m => ⟨a, m⟩ := by
  induction rs with
  | nil => rfl
  | cons r rs ih =>
    rw [List.map_cons, List.nodup_cons] at h
    obtain ⟨x, m⟩ := r
    have hcons : settable a (⟨x, m⟩ :: rs) =
        if x = a ∧ m ≠ .err then ⟨x, m⟩ :: settable a rs else settable a rs := by
      simp only [settable, List.filter_cons, decide_eq_true_eq]
    rw [hcons, ih h.2, modeOf_cons]
    rcases eq_or_ne x a with rfl | hx
    · have hnone : modeOf rs x = none := modeOf_eq_none.2 h.1
      by_cases hm : m = .err <;> simp [hnone, hm, Option.filter]
    · simp [hx]

theorem countP_wo_setEntries (a : Address) (hm : m ≠ .wo) (rs : List ReplicaEntry) :
    (setEntries a m rs).countP (·.mode = .wo) ≤ rs.countP (·.mode = .wo) := by
  rw [setEntries, List.countP_map]
  refine List.countP_mono_left fun r _ hr => ?_
  by_cases h : r.address = a ∧ r.mode ≠ .err
  · simp [h, hm] at hr
  · simpa [h] using hr

/-- Setting the mode in the lists and in the backends keeps them together. -/
theorem Matches.setEntries {b' : AddressMap BackendWrapper}
    (h : Matches rs qs b) (a : Address) (hm : m ≠ .wo) (hb : ∀ x, b'.lookup x =
      if x = a then (b.lookup x).map fun b => { b with mode := m.to b.mode } else b.lookup x) :
    Matches (setEntries a m rs) qs b' where
  nodup := by
    rw [List.map_append, map_address_setEntries, ← List.map_append]
    exact h.nodup
  oneWO := (countP_wo_setEntries a hm _).trans h.oneWO
  mirror := fun x => by
    rw [hb, modeOf_setEntries, h.mirror]
    split_ifs
    · rw [Option.map_map, Option.map_map]
      rfl
    · rfl

/-- Two entries at an address would end the process. -/
theorem Matches.found_le_one (h : Matches rs qs b) (a : Address) :
    rs.countP (·.address = a) + qs.countP (·.address = a) ≤ 1 := by
  have hcount := List.nodup_iff_count_le_one.1 h.nodup a
  rw [List.count_eq_countP, List.countP_map, List.countP_append] at hcount
  refine le_trans (le_of_eq ?_) hcount
  congr 1

theorem Rebuilt.refl {w : World} (h : Mirrored w.c) : Rebuilt w w :=
  ⟨h, ⟨rfl, rfl⟩, _, rfl⟩

/-- The lists of the controller with the mode set. -/
def withMode (a : Address) (m : BackendMode) (c : Controller) : Controller :=
  { c with
    replicas := setEntries a m c.replicas
    quorumReplicas := setEntries a m c.quorumReplicas }

/-- The first loop of `setReplicaModeNoLock`, after the entries have been changed. -/
theorem setData_spec (w₀ : World) (h : Mirrored w₀.c) (a : Address) (hm : m ≠ .wo) :
    Triple (fun w => w = w₀.setC fun c => { c with replicas := setEntries a m c.replicas })
      (List.forM (settable a w₀.c.replicas) fun _ => setMode a m)
      fun _ => Rebuilt (w₀.setC fun c => { c with replicas := setEntries a m c.replicas }) := by
  have hlookup := h.mirror a
  rw [settable_eq h.nodup_replicas]
  -- the backends match the new entries if the mode of `a` was set in them
  have hset : ∀ b', (∀ x, b'.lookup x =
      if x = a then (w₀.c.backend.backends.lookup x).map fun b => { b with mode := m.to b.mode }
      else w₀.c.backend.backends.lookup x) →
      Matches (setEntries a m w₀.c.replicas) w₀.c.quorumReplicas b' :=
    fun b' hb => h.toMatches.setEntries a hm hb
  have hsame : (∀ b, w₀.c.backend.backends.lookup a = some b → b.mode = .err) →
      Matches (setEntries a m w₀.c.replicas) w₀.c.quorumReplicas w₀.c.backend.backends := by
    intro hb
    refine hset _ fun x => ?_
    split_ifs with hx
    · subst hx
      cases hl : w₀.c.backend.backends.lookup x with
      | none => rfl
      | some b =>
        have := hb b hl
        obtain ⟨bk, md⟩ := b
        obtain rfl : md = .err := this
        rfl
    · rfl
  cases hmode : modeOf w₀.c.replicas a with
  | none =>
    rw [hmode] at hlookup
    refine .pure ?_
    rintro w rfl
    exact Rebuilt.refl ⟨hsame fun b hb => by simp [hlookup] at hb, h.built⟩
  | some m' =>
    rw [hmode] at hlookup
    rcases eq_or_ne m' .err with rfl | hm'
    · refine .pure ?_
      rintro w rfl
      refine Rebuilt.refl ⟨hsame fun b hb => ?_, h.built⟩
      obtain rfl : wrap a .err = b := by simpa [hlookup] using hb
      rfl
    · have hlist : ((some m').filter (· ≠ BackendMode.err)).toList.map
          (fun m => (⟨a, m⟩ : ReplicaEntry)) = [⟨a, m'⟩] := by
        simp [Option.filter, hm']
      rw [hlist]
      refine .bind (setMode_spec _ a m h.built (fun b hb => hset _ fun x => ?_)
        fun hb => ?_) fun _ => Triple.pure fun _ => id
      · obtain rfl : wrap a m' = b := by simpa [World.setC, hlookup] using hb
        split_ifs with hx
        · subst hx
          rw [AList.lookup_insert, hlookup]
          simp [wrap, BackendMode.to, hm']
        · rw [AList.lookup_insert_ne hx]
          rfl
      · simp [World.setC, hlookup] at hb

theorem Matches.setQuorum (h : Matches rs qs b) (a : Address) (m : BackendMode) :
    Matches rs (Controller.setEntries a m qs) b where
  nodup := by
    rw [List.map_append, map_address_setEntries, ← List.map_append]
    exact h.nodup
  oneWO := h.oneWO
  mirror := h.mirror

/-- The second loop of `setReplicaModeNoLock`. The replicator has no backend to set the mode of. -/
theorem setQuorum_spec (w₀ : World) (h : Mirrored w₀.c) (a : Address)
    (m : BackendMode)
    (hqs : qs.map ReplicaEntry.address = w₀.c.quorumReplicas.map ReplicaEntry.address) :
    Triple (fun w => w = w₀) (List.forM (settable a qs) fun _ => setMode a m) fun _ =>
    Rebuilt w₀ := by
  refine (Triple.forM (I := Rebuilt w₀) fun e he => ?_).pre ?_
  · have ha : a ∈ w₀.c.quorumReplicas.map ReplicaEntry.address := by
      have he' : e ∈ qs ∧ e.address = a ∧ e.mode ≠ .err := by simpa [settable] using he
      rw [← hqs, ← he'.2.1]
      exact List.mem_map_of_mem he'.1
    rintro w ⟨hw, hside, r, hr⟩
    have hnone : w.c.backend.backends.lookup a = none := by
      rw [hw.mirror a, hr]
      simp [h.modeOf_none_of_quorum ha]
    obtain ⟨hm', hside', r', hr'⟩ := setMode_spec w a m hw.built (fun b hb => by simp [hnone] at hb)
      (fun _ => hw.toMatches) w rfl
    exact ⟨hm', ⟨hside'.1.trans hside.1, hside'.2.trans hside.2⟩, r', by rw [hr', hr]⟩
  · rintro w rfl
    exact Rebuilt.refl h

/-- The mode has been set in the lists, and the replicator follows. -/
def ModeSet (a : Address) (m : BackendMode) (w₀ w : World) : Prop :=
  Mirrored w.c ∧ Aside w₀ w ∧ ∃ r, w.c = { withMode a m w₀.c with backend := r }

theorem setReplicaModeNoLock_spec (w₀ : World) (h : Mirrored w₀.c) (a : Address) (hm : m ≠ .wo) :
    Triple (fun w => w = w₀) (setReplicaModeNoLock a m) fun _ => ModeSet a m w₀ := by
  refine .get fun w hw => ?_
  subst hw
  refine .modify_bind (.bind (setData_spec w h a hm) fun _ => .fix ?_)
  rintro w₁ ⟨h₁, hside₁, r₁, hr₁⟩
  have hq₁ : w₁.c.quorumReplicas = w.c.quorumReplicas := by rw [hr₁]; rfl
  have h₂ : Mirrored { w₁.c with quorumReplicas := setEntries a m w₁.c.quorumReplicas } :=
    ⟨h₁.toMatches.setQuorum a m, h₁.built⟩
  have hqs : w.c.quorumReplicas.map ReplicaEntry.address =
      (setEntries a m w₁.c.quorumReplicas).map ReplicaEntry.address := by
    rw [map_address_setEntries, hq₁]
  refine .modify_bind (.bind (setQuorum_spec _ h₂ a m hqs) fun _ => .modify ?_)
  rintro w₃ ⟨h₃, hside₃, r₃, hr₃⟩
  refine ⟨⟨h₃.toMatches, h₃.built⟩, ⟨hside₃.1.trans hside₁.1, hside₃.2.trans hside₁.2⟩, r₃, ?_⟩
  have hfound := h.found_le_one a
  simp [World.setC, hr₃, hr₁, withMode, Nat.not_lt.2 hfound]

end Jiva
