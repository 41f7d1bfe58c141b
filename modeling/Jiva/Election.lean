import Jiva.ReplicaTable

/-!
# Leader election

Before a volume is up, its replicas register with the controller, and `registerReplica` chooses the
one that is told to start. `MaxRevReplica` is kept from registration to registration : the loop over
the registered replicas compares their revision counts with the one of `MaxRevReplica`, and takes
the replica that registers when any of them is greater. So the leader has the greatest revision
count only if it had it before, or if the replica that registers has it.

`leader_elected` is what holds when the registrations come in such an order. `secondBest_elected` is
a run in which they do not : the replica with the greatest revision count cannot be reached, and the
next one to register is told to start although another one is ahead of it.
-/

namespace Jiva

open Hoare Controller Relation Transition

variable {c : Controller} {r register : RegReplica} {m : AddressMap RegReplica}
    {w₀ : World} {a : Address}

/-! ## Registered replicas -/

/-- The replica is not being rebuilt. -/
def RegReplica.Settled (r : RegReplica) : Prop :=
  r.repState ≠ "rebuilding"

instance (r : RegReplica) : Decidable r.Settled :=
  inferInstanceAs (Decidable (_ ≠ _))

/-- The registered replicas. -/
def Controller.registered (c : Controller) : List RegReplica :=
  c.registeredReplicas.entries.map Sigma.snd

theorem mem_registered : r ∈ c.registered ↔ ∃ a, c.registeredReplicas.lookup a = some r := by
  simp only [Controller.registered, List.mem_map]
  constructor
  · rintro ⟨⟨a, r⟩, h, rfl⟩
    exact ⟨a, AList.mem_lookup_iff.2 h⟩
  · rintro ⟨a, h⟩
    exact ⟨⟨a, r⟩, AList.mem_lookup_iff.1 h, rfl⟩

/-- No two registrations are of the same replica. -/
def DistinctUUIDs (m : AddressMap RegReplica) : Prop :=
  ∀ a b r r', m.lookup a = some r → m.lookup b = some r' → r.uuid = r'.uuid → a = b

theorem DistinctUUIDs.mono {m' : AddressMap RegReplica} (h : DistinctUUIDs m)
    (hsub : ∀ a r, m'.lookup a = some r → m.lookup a = some r) : DistinctUUIDs m' :=
  fun a b r r' hr hr' => h a b r r' (hsub a r hr) (hsub b r' hr')

theorem DistinctUUIDs.erase (h : DistinctUUIDs m) (a : Address) : DistinctUUIDs (m.erase a) :=
  h.mono fun _ _ => lookup_of_erase

theorem DistinctUUIDs.nodup (h : DistinctUUIDs c.registeredReplicas) :
    (c.registered.map RegReplica.uuid).Nodup := by
  rw [Controller.registered, List.map_map]
  refine List.Nodup.map_on ?_ c.registeredReplicas.nodupKeys.nodup
  rintro ⟨a, r⟩ hr ⟨b, r'⟩ hr' huuid
  rw [← AList.mem_lookup_iff] at hr hr'
  obtain rfl := h a b r r' hr hr' huuid
  rw [Option.mem_def, Option.mem_def.1 hr] at hr'
  rw [Option.some.inj hr']

/-! ## The record of a registration -/

theorem lookup_eraseAll {β : Type} (ks : List Address) (m : AddressMap β) (a : Address) :
    (ks.foldl (fun m k => m.erase k) m).lookup a = if a ∈ ks then none else m.lookup a := by
  induction ks generalizing m with
  | nil => simp
  | cons k ks ih =>
    rw [List.foldl_cons, ih]
    rcases eq_or_ne a k with rfl | hk
    · simp [AList.lookup_erase]
    · simp [hk, AList.lookup_erase_ne hk]

/-- What is left of the registrations has another UUID, or the address of the registration. -/
theorem lookup_of_dedupe (h : (dedupe register m).lookup a = some r) :
    m.lookup a = some r ∧ (a ≠ register.address → r.uuid ≠ register.uuid) := by
  rw [dedupe, lookup_eraseAll] at h
  split at h
  · simp at h
  · rename_i hk
    refine ⟨h, fun ha huuid => hk ?_⟩
    have hkey : a ∈ m.keys := AList.mem_keys.1 (AList.lookup_isSome.1 (by rw [h]; rfl))
    simp [hkey, ha, h, huuid]

@[simp] theorem lookup_record_self (register : RegReplica) (c : Controller) :
    (record register c).registeredReplicas.lookup register.address = some register := by
  simp [record]

theorem lookup_of_record
    (ha : a ≠ register.address) (h : (record register c).registeredReplicas.lookup a = some r) :
    c.registeredReplicas.lookup a = some r ∧ r.uuid ≠ register.uuid := by
  rw [record, AList.lookup_insert_ne ha] at h
  exact (lookup_of_dedupe h).imp_right fun hne => hne ha

theorem DistinctUUIDs.record (h : DistinctUUIDs c.registeredReplicas)
    (register : RegReplica) : DistinctUUIDs (record register c).registeredReplicas := by
  intro a b r r' hr hr' huuid
  by_cases ha : a = register.address <;> by_cases hb : b = register.address
  · rw [ha, hb]
  · subst ha
    obtain rfl := Option.some.inj ((lookup_record_self register c).symm.trans hr)
    exact ((lookup_of_record hb hr').2 huuid.symm).elim
  · subst hb
    obtain rfl := Option.some.inj ((lookup_record_self register c).symm.trans hr')
    exact ((lookup_of_record ha hr).2 huuid).elim
  · exact h a b r r' (lookup_of_record ha hr).1 (lookup_of_record hb hr').1 huuid

/-! ## The choice of a leader -/

theorem elect_self (register : RegReplica) (m : AddressMap RegReplica) (order : List Address) :
    elect register m register.address order = register.address := by
  induction order with
  | nil => rfl
  | cons k ks ih =>
    rw [elect, List.foldl_cons, ite_self]
    exact ih

/-- The loop keeps the leader if no revision count is greater than its own. Otherwise it takes the
replica that registers, whatever the order of the keys. -/
theorem elect_eq (register : RegReplica) (m : AddressMap RegReplica) (maxRev : Address)
    (order : List Address) : elect register m maxRev order =
      if ∃ k ∈ order, revCountOf m maxRev < revCountOf m k then register.address else maxRev := by
  induction order with
  | nil => simp [elect]
  | cons k ks ih =>
    rw [elect, List.foldl_cons]
    by_cases hk : revCountOf m maxRev < revCountOf m k
    · rw [if_pos hk, if_pos ⟨k, List.mem_cons_self, hk⟩]
      exact elect_self register m ks
    · rw [if_neg hk]
      refine Eq.trans ih (if_congr ?_ rfl rfl)
      simp [hk]

theorem revCountOf_of_lookup (h : m.lookup a = some r) : revCountOf m a = r.revCount := by
  simp [revCountOf, h]

/-- The replica at `a` is registered and settled, and no settled one is ahead of it. -/
def Leads (c : Controller) (a : Address) : Prop :=
  ∃ m ∈ c.registeredReplicas.lookup a, m.Settled ∧
    ∀ r ∈ c.registered, r.Settled → r.revCount ≤ m.revCount

instance (c : Controller) (a : Address) : Decidable (Leads c a) :=
  inferInstanceAs (Decidable (∃ m ∈ c.registeredReplicas.lookup a, _))

/-- `register` is the replica that registers, and `c` the state in which a leader is to be chosen.
Enough of the registered replicas are settled. Without an earlier leader no settled replica is ahead
of `register`. An earlier leader is still registered and settled, and no replica that is being
rebuilt is ahead of it, unless `register` is not behind it. -/
@[mk_iff] structure Orderly (register : RegReplica) (c : Controller) : Prop where
  enough : c.enoughRegistered = true →
    c.replicationFactor / 2 + 1 ≤ (c.registered.filter fun r => r.Settled).length
  first : c.maxRevReplica = "" ∨ c.maxRevReplica = register.address →
    ∀ r ∈ c.registered, r.Settled → r.revCount ≤ register.revCount
  next : c.maxRevReplica ≠ "" ∧ c.maxRevReplica ≠ register.address →
    ∃ m ∈ c.registeredReplicas.lookup c.maxRevReplica, m.Settled ∧
      ∀ r ∈ c.registered, ¬r.Settled → r.revCount ≤ m.revCount ∨ m.revCount ≤ register.revCount

instance (register : RegReplica) (c : Controller) : Decidable (Orderly register c) :=
  decidable_of_iff' _ (orderly_iff register c)

/-- The leader, while it has not been told to start, is ahead of the settled replicas. -/
def Led (c : Controller) : Prop :=
  c.startSignalled = false → c.maxRevReplica ≠ "" →
    ∀ m ∈ c.registeredReplicas.lookup c.maxRevReplica, m.Settled →
      ∀ r ∈ c.registered, r.Settled → r.revCount ≤ m.revCount

instance (c : Controller) : Decidable (Led c) :=
  inferInstanceAs (Decidable (_ → _ → ∀ m ∈ c.registeredReplicas.lookup c.maxRevReplica, _))

/-- The leader, where it is not the replica that registers, is ahead of the other settled
replicas. -/
def Ahead (register : RegReplica) (c : Controller) : Prop :=
  c.maxRevReplica ≠ "" → c.maxRevReplica ≠ register.address →
    ∀ m, c.registeredReplicas.lookup c.maxRevReplica = some m → m.Settled →
      ∀ r ∈ c.registered, r.Settled → r = register ∨ r.revCount ≤ m.revCount

theorem Led.record (h : Led c) (hs : c.startSignalled = false)
    (register : RegReplica) : Ahead register (record register c) := by
  intro hne haddr m hm hset r hr hrset
  obtain ⟨a, ha⟩ := mem_registered.1 hr
  rcases eq_or_ne a register.address with rfl | hne'
  · exact .inl (Option.some.inj (ha.symm.trans (lookup_record_self register c)))
  · have hr' : r ∈ c.registered := mem_registered.2 ⟨a, (lookup_of_record hne' ha).1⟩
    exact .inr (h hs hne m (lookup_of_record haddr hm).1 hset r hr' hrset)

/-- The leader that is chosen leads. -/
theorem leads_elect {order : List Address}
    (hreg : c.registeredReplicas.lookup register.address = some register)
    (hset : register.Settled) (ho : Orderly register c) (hahead : Ahead register c)
    (horder : order.Perm c.registeredReplicas.keys) :
    Leads c (elect register c.registeredReplicas
      (if c.maxRevReplica = "" then register.address else c.maxRevReplica) order) := by
  by_cases hfirst : c.maxRevReplica = "" ∨ c.maxRevReplica = register.address
  · have hstart : (if c.maxRevReplica = "" then register.address else c.maxRevReplica) =
        register.address := by
      split
      · rfl
      · exact hfirst.resolve_left ‹_›
    rw [hstart, elect_self]
    exact ⟨register, hreg, hset, ho.first hfirst⟩
  · rw [not_or] at hfirst
    obtain ⟨m, hm, hmset, hrebuilding⟩ := ho.next hfirst
    rw [if_neg hfirst.1, elect_eq, revCountOf_of_lookup hm]
    split
    · rename_i hgt
      obtain ⟨k, hk, hlt⟩ := hgt
      obtain ⟨r, hr⟩ := Option.isSome_iff_exists.1
        (AList.lookup_isSome.2 (AList.mem_keys.2 (horder.mem_iff.1 hk)))
      have hmem : r ∈ c.registered := mem_registered.2 ⟨k, hr⟩
      rw [revCountOf_of_lookup hr] at hlt
      have hle : m.revCount ≤ register.revCount := by
        by_cases hrset : r.Settled
        · rcases hahead hfirst.1 hfirst.2 m hm hmset r hmem hrset with rfl | hle
          · exact Int.le_of_lt hlt
          · exact absurd hlt (Int.not_lt.2 hle)
        · exact (hrebuilding r hmem hrset).resolve_left (Int.not_le.2 hlt)
      refine ⟨register, hreg, hset, fun r hr hrset => ?_⟩
      rcases hahead hfirst.1 hfirst.2 m hm hmset r hr hrset with rfl | hle'
      · exact Int.le_refl _
      · exact Int.le_trans hle' hle
    · rename_i hgt
      refine ⟨m, hm, hmset, fun r hr _ => ?_⟩
      obtain ⟨k, hk⟩ := mem_registered.1 hr
      have hkey : k ∈ order := horder.mem_iff.2 (AList.mem_keys.1 (AList.lookup_isSome.1 (by
        rw [hk]
        rfl)))
      rw [← revCountOf_of_lookup hk]
      exact Int.not_lt.1 fun hlt => hgt ⟨k, hkey, hlt⟩

/-! ## What a registration does -/

/-- The leader does not answer, and is given up. -/
def Controller.dropLeader (c : Controller) : Controller :=
  { c with
    registeredReplicas := c.registeredReplicas.erase c.maxRevReplica
    maxRevReplica := ""
    startSignalled := false }

theorem probe_run (n : ℕ) (w : World) :
    ((probe n).run w).2.c = w.c ∧ ((probe n).run w).2.signals = w.signals := by
  induction n generalizing w with
  | zero => exact ⟨rfl, rfl⟩
  | succ n ih =>
    have hask : ask.run w = ((w.tape 0).reply.err, w.advance) := rfl
    rw [probe, run_bind hask]
    split
    · exact ⟨rfl, rfl⟩
    · exact ih w.advance

/-- The registration is of a data replica, and `registerReplica` records it. -/
def Controller.Records (register : RegReplica) (c : Controller) : Prop :=
  register.uuid ≠ "" ∧
    ¬((c.registeredReplicas.lookup register.address).isNone ∧
      (c.registeredQuorumReplicas.lookup register.address).isSome) ∧
    register.repType ≠ "quorum"

/-- `chooseLeader` with the keys in the order `order`. -/
def Controller.chosen (register : RegReplica) (order : List Address) (c : Controller) :
    Controller :=
  { c with
    maxRevReplica := elect register c.registeredReplicas
      (if c.maxRevReplica = "" then register.address else c.maxRevReplica) order }

section Since

variable {S L : Controller → Prop} {w : World}

/-- Replicas were told to start since `w₀` in states in `S` only. -/
def SignalsIn (S : Controller → Prop) (w₀ w : World) : Prop :=
  ∃ cs, w.signals = w₀.signals ++ cs ∧ ∀ c ∈ cs, S c

/-- The same, and the state is in `L`. -/
def Since (S L : Controller → Prop) (w₀ w : World) : Prop :=
  SignalsIn S w₀ w ∧ L w.c

/-- Whatever the order of the keys, the state in which `chooseLeader` has chosen is in `L`, and in
`S` if a replica is told to start in it. -/
structure Choice (S L : Controller → Prop) (register : RegReplica) (c : Controller) : Prop where
  waits : ¬register.Settled → L c
  chosen : register.Settled → ∀ order, order.Perm c.registeredReplicas.keys →
    L (c.chosen register order) ∧ (c.enoughRegistered = true → S (c.chosen register order))

/-- The same of all that `registerReplica` does with a data replica. -/
structure Planned (S L : Controller → Prop) (register : RegReplica) (w : World) : Prop where
  kept : w.c.replicas ≠ [] ∨ w.c.startSignalled = true → L (record register w.c)
  first : w.c.replicas = [] → w.c.startSignalled = false → Choice S L register (record register w.c)
  again : w.c.replicas = [] → w.c.startSignalled = true → register.address = w.c.maxRevReplica →
    S (record register w.c) ∧ Choice S L register { record register w.c with
      startSignalled := true }
  dead : w.c.replicas = [] → w.c.startSignalled = true → register.address ≠ w.c.maxRevReplica →
    (verifyReplicaAlive.run (w.setC (record register))).1 = false →
      Choice S L register (record register w.c).dropLeader

variable (hL : ∀ c, L c → L c.dropLeader ∧ L { c with startSignalled := true })

include hL

theorem signalReplica_since (hw : Since S L w₀ w) (hS : S w.c) :
    Triple (fun s => s = w) signalReplica fun err s =>
      Since S L w₀ s ∧ (err = none → s.c = { w.c with startSignalled := true }) := by
  obtain ⟨⟨cs, hsignals, hcs⟩, hc⟩ := hw
  have hsince : ∀ s : World, s.signals = w.signals ++ [w.c] → L s.c → Since S L w₀ s := by
    refine fun s hs hc => ⟨⟨cs ++ [w.c], by rw [hs, hsignals, List.append_assoc], fun c hc => ?_⟩,
      hc⟩
    rcases List.mem_append.1 hc with hc | hc
    · exact hcs c hc
    · exact List.mem_singleton.1 hc ▸ hS
  refine .bind (Q := fun _ s => s.c = w.c ∧ s.signals = w.signals ++ [w.c])
    (.modify ?_) fun _ =>
    .bind (Q := fun _ s => s.c = w.c ∧ s.signals = w.signals ++ [w.c])
      (fun s h => h) fun err => ?_
  · rintro s rfl
    exact ⟨rfl, rfl⟩
  cases err with
  | some e =>
    refine .bind (Q := fun _ => Since S L w₀)
      (.modify fun s h => hsince _ h.2 ?_) fun _ =>
      .pure fun s h => ⟨h, nofun⟩
    exact (hL _ (h.1 ▸ hc)).1
  | none =>
    refine .bind (Q := fun _ s => Since S L w₀ s ∧ s.c = { w.c with startSignalled := true })
      (.modify fun s h => ⟨hsince _ h.2 ?_, ?_⟩) fun _ => .pure fun s h =>
      ⟨h.1, fun _ => h.2⟩
    · exact (hL _ (h.1 ▸ hc)).2
    · rw [← h.1]
      rfl

theorem chooseLeader_since (hw : SignalsIn S w₀ w) (hc : Choice S L register w.c) :
    Triple (fun s => s = w) (chooseLeader register) fun _ => Since S L w₀ := by
  refine .ite (fun hrebuilding => .pure ?_) fun hset => .get fun w₁ h₁ => ?_
  · rintro s rfl
    exact ⟨hw, hc.waits (not_not.2 hrebuilding)⟩
  subst h₁
  refine .bind (iterate_spec _ w₁) fun order => .fix ?_
  rintro s ⟨hperm, rfl⟩
  obtain ⟨hl, hS⟩ := hc.chosen hset order hperm
  refine .modify_bind (.get fun s hs => ?_)
  subst hs
  refine .ite (fun henough => ?_) fun _ => .pure ?_
  · exact (signalReplica_since (w := w₁.advance.setC (chosen register order)) hL ⟨hw,
      hl⟩ (hS henough)).post fun _ _ h => h.1
  · rintro _ rfl
    exact ⟨hw, hl⟩

theorem registerAgain_since (hw : Since S L w₀ w)
    (hself : register.address = w.c.maxRevReplica →
      S w.c ∧ Choice S L register { w.c with startSignalled := true })
    (hdead : register.address ≠ w.c.maxRevReplica → (verifyReplicaAlive.run w).1 = false →
      Choice S L register w.c.dropLeader) :
    Triple (fun s => s = w) (registerAgain register) fun _ => Since S L w₀ := by
  refine .get fun w₁ h₁ => ?_
  subst h₁
  refine .ite (fun haddr => ?_) fun haddr => ?_
  · obtain ⟨hS, hc⟩ := hself haddr
    refine .bind (signalReplica_since hL hw hS) fun err => .fix fun w₂ h₂ => ?_
    cases err with
    | some e => exact .pure fun s h => h ▸ h₂.1
    | none => exact chooseLeader_since hL h₂.1.1 (by rw [h₂.2 rfl]; exact hc)
  · refine .bind (Triple.result w₁) fun alive => .fix fun w₂ h₂ => ?_
    obtain ⟨hc, hsignals⟩ := probe_run 3 w₁
    rw [verifyReplicaAlive] at h₂ hdead
    rw [h₂] at hc hsignals hdead
    have hw₂ : Since S L w₀ w₂ := by
      rw [Since, SignalsIn, hsignals, hc]
      exact hw
    refine .ite (fun _ => .pure fun s h => h ▸ hw₂) fun halive => ?_
    refine .modify_bind (chooseLeader_since hL hw₂.1 ?_)
    show Choice S L register w₂.c.dropLeader
    rw [hc]
    exact hdead haddr (by simpa using halive)

/-- The rule for `registerReplica` : what is said of the states it passes. -/
theorem registerReplica_since (hstay : L w₀.c) (hquorum : L { w₀.c with
      registeredQuorumReplicas := w₀.c.registeredQuorumReplicas.insert register.address register })
    (hplan : Records register w₀.c → Planned S L register w₀) :
    Triple (fun s => s = w₀) (registerReplica register) fun _ => Since S L w₀ := by
  have hnone : SignalsIn S w₀ w₀ := ⟨[], (List.append_nil _).symm, nofun⟩
  have hsame : ∀ s, s = w₀ → Since S L w₀ s := by
    rintro s rfl
    exact ⟨hnone, hstay⟩
  refine .get fun w h => ?_
  subst h
  refine .ite (fun _ => .pure hsame) fun huuid =>
    .ite (fun _ => .pure hsame) fun hrep =>
    .ite (fun _ => ?_) fun htype => ?_
  · refine .bind (Q := fun _ => Since S L w) (.modify ?_) fun _ =>
      .pure fun _ => id
    rintro s rfl
    exact ⟨hnone, hquorum⟩
  have hplan := hplan ⟨huuid, hrep, htype⟩
  refine .modify_bind (.get fun w₁ hw₁ => ?_)
  subst hw₁
  refine .ite (fun hattached => .pure ?_) fun hempty => ?_
  · rintro s rfl
    exact ⟨hnone, hplan.kept (.inl (List.ne_nil_of_length_pos hattached))⟩
  have hnil : w.c.replicas = [] := List.eq_nil_of_length_eq_zero (Nat.eq_zero_of_not_pos hempty)
  refine .ite (fun hs => ?_) fun hs => ?_
  · exact registerAgain_since hL ⟨hnone, hplan.kept (.inr hs)⟩ (hplan.again hnil hs)
      (hplan.dead hnil hs)
  · exact chooseLeader_since hL hnone (hplan.first hnil (Bool.eq_false_iff.2 hs))

end Since

/-! ## Registration -/

/-- What is to hold of the state in which a leader is told to start : it leads, and a majority of
different replicas is registered and settled. -/
structure Elected (c : Controller) : Prop where
  leads : Leads c c.maxRevReplica
  majority : ∃ rs : List RegReplica, (∀ r ∈ rs, r ∈ c.registered ∧ r.Settled) ∧
    (rs.map RegReplica.uuid).Nodup ∧ c.replicationFactor / 2 + 1 ≤ rs.length

/-- The registrations are of different replicas, and new leaders were told to start in states that
allow it. -/
structure Polled (w : World) : Prop where
  distinct : DistinctUUIDs w.c.registeredReplicas
  signals : ∀ c ∈ w.signals, c.startSignalled = false → Elected c

/-- The invariant of the registrations. -/
structure Electing (w : World) : Prop extends Polled w where
  led : Led w.c

theorem led_of_signalled (h : c.startSignalled = true) : Led c :=
  fun hs => absurd (h.symm.trans hs) (by decide)

theorem led_of_none (h : c.maxRevReplica = "") : Led c :=
  fun _ hne => (hne h).elim

theorem Leads.led (h : Leads c c.maxRevReplica) : Led c := by
  obtain ⟨m, hm, -, hle⟩ := h
  intro _ _ m' hm'
  obtain rfl := Option.some.inj (hm.symm.trans hm')
  exact fun _ => hle

/-- The registration of a replica that is being rebuilt takes nothing from the leader. -/
theorem Led.record_of_not_settled (h : Led c)
    (hreg : ¬register.Settled) : Led (Controller.record register c) := by
  intro hs hne m hm hset r hr hrset
  have haddr : c.maxRevReplica ≠ register.address := by
    rintro heq
    have hm' := lookup_record_self register c
    rw [← heq] at hm'
    obtain rfl := Option.some.inj (hm'.symm.trans hm)
    exact hreg hset
  rcases h.record hs register hne haddr m hm hset r hr hrset with rfl | hle
  · exact (hreg hrset).elim
  · exact hle

/-- The registrations are in order : while replicas are attached a leader that waits stays ahead,
and when a leader is chosen, at first or because the one before does not answer, it is an orderly
choice. -/
@[mk_iff] structure Controller.InOrder (register : RegReplica) (w : World) : Prop where
  attached : w.c.replicas ≠ [] → Led (record register w.c)
  choice : w.c.replicas = [] ∧ w.c.startSignalled = false → Orderly register (record register w.c)
  dead : w.c.replicas = [] ∧ w.c.startSignalled = true ∧ register.address ≠ w.c.maxRevReplica ∧
    (verifyReplicaAlive.run (w.setC (record register))).1 = false →
      Orderly register (record register w.c).dropLeader

instance (register : RegReplica) (c : Controller) : Decidable (Records register c) :=
  inferInstanceAs (Decidable (_ ∧ _ ∧ _))

instance (register : RegReplica) (w : World) : Decidable (InOrder register w) :=
  decidable_of_iff' _ (inOrder_iff register w)

/-- A choice in order. -/
theorem choice_of_orderly (hdist : DistinctUUIDs c.registeredReplicas)
    (hreg : c.registeredReplicas.lookup register.address = some register)
    (horder : c.startSignalled = false → register.Settled → Orderly register c ∧ Ahead register c)
    (hled : ¬register.Settled → Led c) : Choice (fun c => c.startSignalled = false → Elected c)
      (fun c => DistinctUUIDs c.registeredReplicas ∧ Led c) register c := by
  refine ⟨fun h => ⟨hdist, hled h⟩, fun hset order hperm => ?_⟩
  have hleader : c.startSignalled = false → Leads c (c.chosen register order).maxRevReplica :=
    fun hs =>
    leads_elect hreg hset (horder hs hset).1 (horder hs hset).2 hperm
  refine ⟨⟨hdist, fun hs => Leads.led (hleader hs) hs⟩, fun henough hs => ⟨hleader hs,
    c.registered.filter fun r => r.Settled, fun r hr => ?_, ?_, (horder hs hset).1.enough henough⟩⟩
  · exact ⟨(List.mem_filter.1 hr).1, of_decide_eq_true (List.mem_filter.1 hr).2⟩
  · exact (List.filter_sublist.map _).nodup hdist.nodup

theorem registerReplica_electing (hw : Electing w₀)
    (horder : Records register w₀.c → register.Settled → InOrder register w₀) :
    Triple (fun w => w = w₀) (registerReplica register) fun _ => Electing := by
  have hclosed : ∀ c : Controller, DistinctUUIDs c.registeredReplicas ∧ Led c →
      (DistinctUUIDs c.dropLeader.registeredReplicas ∧ Led c.dropLeader) ∧
        DistinctUUIDs c.registeredReplicas ∧ Led { c with startSignalled := true } :=
    fun c h => ⟨⟨h.1.erase _, led_of_none rfl⟩, h.1, led_of_signalled rfl⟩
  have hdist := hw.distinct.record register
  have hself := lookup_record_self register w₀.c
  have hled : ¬register.Settled → Led (record register w₀.c) := hw.led.record_of_not_settled
  refine (registerReplica_since (S := fun c => c.startSignalled = false → Elected c) hclosed
    ⟨hw.distinct, hw.led⟩ ⟨hw.distinct, hw.led⟩ fun hrec => ⟨fun hkept => ⟨hdist, ?_⟩,
      fun hnil hs => ?_, fun _ hs _ => ?_, fun hnil hs hne hdead => ?_⟩).post fun _ s hs => ?_
  · by_cases hset : register.Settled
    · exact hkept.elim (horder hrec hset).attached (led_of_signalled (c := record register w₀.c))
    · exact hled hset
  · exact choice_of_orderly hdist hself (fun hs hset => ⟨(horder hrec hset).choice ⟨hnil, hs⟩,
      hw.led.record hs register⟩) hled
  · -- the leader has been told to start, and what follows is not a new election
    exact ⟨fun hs' => (Bool.false_ne_true (hs'.symm.trans hs)).elim,
      choice_of_orderly hdist hself nofun fun _ => led_of_signalled rfl⟩
  · exact choice_of_orderly (hdist.erase _) ((AList.lookup_erase_ne hne).trans hself)
      (fun _ hset => ⟨(horder hrec hset).dead ⟨hnil, hs, hne, hdead⟩, fun hne => (hne rfl).elim⟩)
      fun _ => led_of_none rfl
  · obtain ⟨⟨cs, hsignals, hcs⟩, hdist, hled⟩ := hs
    refine ⟨⟨hdist, fun c hc => ?_⟩, hled⟩
    exact (List.mem_append.1 (hsignals ▸ hc)).elim (hw.signals c) (hcs c)

/-! ## Runs -/

theorem Electing.withdraws {w w' : World} (h : Electing w) (hsignals : w'.signals = w.signals)
    (hreg : Withdraws w.c w'.c) : Electing w' := by
  refine ⟨⟨h.distinct.mono hreg.registered, by rw [hsignals]; exact h.signals⟩, ?_⟩
  intro hs hne m hm hset r hr hrset
  obtain ⟨hs₀, hleader⟩ := (hreg.leader hs).resolve_left hne
  rw [hleader] at hne hm
  obtain ⟨a, ha⟩ := mem_registered.1 hr
  exact h.led hs₀ hne m (hreg.registered _ m hm) hset r (mem_registered.2 ⟨a,
    hreg.registered a r ha⟩) hrset

/-- A data replica that is not being rebuilt registers in order. -/
def Op.InOrder (op : Op) (w : World) : Prop :=
  match op with
  | .register r => Records r w.c → r.Settled → Controller.InOrder r w
  | _ => True

instance (op : Op) (w : World) : Decidable (op.InOrder w) := by
  apply @Op.casesOn (Decidable <| ·.InOrder w) op <;> intros <;> unfold Op.InOrder <;>
    infer_instance

theorem act_electing {w : World} (hw : Mirrored w.c) (helecting : Electing w) {op : Op}
    (h : op.InOrder w) : Electing (op.act.run w).2 := by
  have hreach := (safe_act op w hw).2
  cases op with
  | register register => exact registerReplica_electing helecting h w rfl
  | _ => exact helecting.withdraws (signals_of_reach id hreach) (withdraws_of_reach id hreach)

/-- In a run in which the replicas register in order, whenever a new leader is told to start it is
registered and not being rebuilt, no other such replica is ahead of it, and they are a majority. -/
theorem leader_elected (name : String) (rf : ℕ) (nodes : Address → Node)
    (ls : List (Op × (ℕ → Moment))) (s : System)
    (horder : Transition.Along System.step (fun s l => l.1.InOrder (s.world.onTape l.2))
      (System.new name rf nodes) ls)
    (h : run System.step (System.new name rf nodes) ls = some s) (c : Controller)
    (hc : c ∈ s.world.signals) (hs : c.startSignalled = false) : Elected c := by
  have hnew : ∀ name n, DistinctUUIDs (Controller.new name n).registeredReplicas := by
    intro name n a b r r' hr
    simp [Controller.new] at hr
  have helecting : Electing s.world := by
    refine (System.run_induction (I := fun s => Electing s.world) ?_ ?_ ?_ (mirrored_new name rf)
      ⟨⟨hnew name rf, fun c hc => (List.not_mem_nil hc).elim⟩, led_of_none rfl⟩ horder h).2
    · intro s op tape s' hs helecting hg hop hstep
      rw [System.world_of_step hstep hop]
      exact act_electing (w := s.world.onTape tape) hs
        ⟨⟨helecting.distinct, helecting.signals⟩, helecting.led⟩ hg
    · exact fun s helecting => ⟨⟨hnew _ _, helecting.signals⟩, led_of_none rfl⟩
    · exact fun s a n tape helecting _ =>
        ⟨⟨helecting.distinct, helecting.signals⟩, helecting.led⟩
  exact helecting.signals c hc hs

/-- The registrations of two replicas, the second one ahead of the first. -/
def registerTwo : List Op :=
  [.register ⟨"a", "1", 5, "Backend", "closed"⟩, .register ⟨"b", "2", 7, "Backend", "closed"⟩]

theorem leader_elected_registerTwo : ∃ s, ∃ c ∈ s.world.signals,
    run System.step (System.new "vol" 3 fun _ => .blank) (System.calmly registerTwo) = some s ∧
    c.startSignalled = false ∧ c.maxRevReplica = "b" ∧ Elected c := by
  have hrun : (run System.step (System.new "vol" 3 fun _ => .blank)
      (System.calmly registerTwo)).map (fun s =>
        s.world.signals.map fun c => (c.startSignalled, c.maxRevReplica)) =
          some [(false, "b")] := by
    decide +kernel
  obtain ⟨s, hs, hsignals⟩ := Option.map_eq_some_iff.1 hrun
  obtain ⟨c, hc, hst⟩ := List.mem_map.1 (hsignals ▸ List.mem_singleton_self (false, "b"))
  obtain ⟨hnew, hleader⟩ := Prod.mk.inj hst
  exact ⟨s, c, hc, hs, hnew, hleader,
    leader_elected _ _ _ _ s (along_of_check (by decide +kernel)) hs c hc hnew⟩

/-- The second replica cannot be told to start. Then a third one registers, which is behind both. -/
def registerThird : List (Op × (ℕ → Moment)) :=
  [(.register ⟨"a", "1", 5, "Backend", "closed"⟩, fun _ => .calm),
    (.register ⟨"b", "2", 7, "Backend", "closed"⟩, refuseAt 1),
    (.register ⟨"c", "3", 3, "Backend", "closed"⟩, fun _ => .calm)]

/-- The third replica is told to start, although the first one is ahead of it. -/
theorem secondBest_elected : ∃ s, ∃ c ∈ s.world.signals,
    run System.step (System.new "vol" 3 fun _ => .blank) registerThird = some s ∧
      c.startSignalled = false ∧ c.maxRevReplica = "c" ∧ ¬Elected c := by
  have hrun : (run System.step (System.new "vol" 3 fun _ => .blank) registerThird).map
      (fun s => s.world.signals.any fun c => decide (c.startSignalled = false ∧
        c.maxRevReplica = "c" ∧ ¬Leads c c.maxRevReplica)) = some true := by
    decide +kernel
  obtain ⟨s, hs, hsignals⟩ := Option.map_eq_some_iff.1 hrun
  obtain ⟨c, hc, hst⟩ := List.any_eq_true.1 hsignals
  obtain ⟨hnew, hleader, hnot⟩ := of_decide_eq_true hst
  exact ⟨s, c, hc, hs, hnew, hleader, fun h => hnot h.leads⟩

end Jiva
