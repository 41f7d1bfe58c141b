import Jiva.Rpc

/-!
# What holds of the client, the connection and the server together

The requests on their way are in four queues one behind the other : the channel to the writer, the
connection to the server, the connection back, and the channel of responses. Each step of the
writer, the server and the reader moves the first of one queue to the end of the next, so that the
whole (`flow`) stays what it is. It only gets longer at one end when a request gets its sequence
number, and shorter at the other when its response is taken. So it is always a part of the list of
issued requests, in their order, and no request is in it twice.

`Inv` is the invariant : while the client runs, everything in `flow` is pending under its sequence
number and has its request in the heap as it was sent. What is completed has either an error or the
response to an answer of the data processor for this very request.
-/

namespace Jiva

open Function

namespace Rpc

variable {id : ℕ} {p : UInt32 × ℕ} {rest : List (ℕ × Message)} {m msg resp : Message} {t : Rpc}

/-- The requests on their way, those that are nearest to their end first. -/
def flow (s : Rpc) : List ℕ :=
  s.responses.filterMap Incoming.id ++ s.toClient.map Prod.fst ++ s.toServer.map Prod.fst ++ s.send

/-- The message of the operation is the response to an answer to its request. -/
def Answered (s : Rpc) (id : ℕ) : Prop :=
  ∃ c q a m, s.calls[id]? = some c ∧ (id, a) ∈ s.served ∧
    respond (c.request q) a = .ok m ∧
    s.heap id = { c.request q with type := m.type, size := m.size, data := m.data }

/-- The pending entry `p` belongs to an issued request, which is in the heap as it was sent. -/
def Pends (s : Rpc) (p : UInt32 × ℕ) : Prop :=
  p.2 ∉ s.complete ∧ ∃ c k, s.calls[p.2]? = some c ∧ s.issued[k]? = some p.2 ∧
    p.1 = UInt32.ofNat (k + 1) ∧ s.heap p.2 = c.request p.1

/-- The message is the response to an answer to the request in the heap. -/
def Responds (s : Rpc) (id : ℕ) (m : Message) : Prop :=
  ∃ a, (id, a) ∈ s.served ∧ respond (s.heap id) a = .ok m

structure Inv (s : Rpc) : Prop where
  running : s.loop = .running ↔ s.err = none
  exited : s.loop = .exited → s.pending = []
  fresh : ∀ id, s.calls.length ≤ id → s.stage id = .none
  entered : ∀ id ∈ s.requests ++ s.issued, s.stage id = .waiting ∨ s.stage id = .returned
  nodup : (s.requests ++ s.issued).Nodup
  queued : ∀ id ∈ s.requests, ∃ c, s.calls[id]? = some c ∧ s.heap id = c.message
  checked : ∀ id, s.stage id = .checked → ∃ c, s.calls[id]? = some c ∧ s.heap id = c.message
  seq : s.seq = UInt32.ofNat s.issued.length
  keys : (s.pending.map Prod.fst).Nodup
  pends : ∀ p ∈ s.pending, s.Pends p
  flow : s.flow.Sublist s.issued
  written : ∀ id ∈ s.written, id ∈ s.issued
  served_nodup : (s.served.map Prod.fst).Nodup
  served : ∀ id ∈ s.served.map Prod.fst,
    id ∈ s.issued ∧ id ∉ s.toServer.map Prod.fst ∧ id ∉ s.send
  complete_nodup : s.complete.Nodup
  complete_issued : ∀ id ∈ s.complete, id ∈ s.issued
  complete : ∀ id ∈ s.complete, (s.heap id).type = typeError ∨ s.Answered id
  struck : s.err ≠ none → ∀ id ∈ s.struck,
    id ∈ s.pending.map Prod.snd ∨ id ∈ s.complete ∧ (s.heap id).type = typeError
  returned_nodup : (s.returned.map Prod.fst).Nodup
  returned : ∀ p ∈ s.returned, s.stage p.1 = .returned ∧ (p.2.failed ∨ p.1 ∈ s.complete ∧
    ∃ c, s.calls[p.1]? = some c ∧ p.2 = c.result (s.heap p.1))
  flow_pending : s.err = none → ∀ id ∈ s.flow, id ∈ s.pending.map Prod.snd
  asked : s.err = none → ∀ p ∈ s.toServer, p.2 = s.heap p.1
  answered : s.err = none → ∀ id m, (id, m) ∈ s.toClient ∨ .message id m ∈ s.responses →
    s.Responds id m

variable {s : Rpc}

theorem inv_init : Inv init where
  running := by simp [init]
  exited := nofun
  fresh _ _ := rfl
  entered := by simp [init]
  nodup := by simp [init]
  queued := by simp [init]
  checked := by simp [init]
  seq := rfl
  keys := by simp [init]
  pends := by simp [init]
  flow := by simp [init, Rpc.flow]
  written := by simp [init]
  served_nodup := by simp [init]
  served := by simp [init]
  complete_nodup := by simp [init]
  complete_issued := by simp [init]
  complete := by simp [init]
  struck h := (h rfl).elim
  returned_nodup := by simp [init]
  returned := by simp [init]
  flow_pending := by simp [init, Rpc.flow]
  asked := by simp [init]
  answered := by simp [init]

/-! ## Steps that move a message from one queue to the next -/

theorem Inv.flow_nodup (h : Inv s) : s.flow.Nodup :=
  h.flow.nodup (List.nodup_append.1 h.nodup).2.1

theorem inv_write (h : Inv s) {rest : List ℕ} (hsend : s.send = id :: rest) :
    Inv { s with
      send := rest, toServer := s.toServer ++ [(id, s.heap id)], written :=
      s.written ++ [id] } := by
  have hflow : s.flow = flow { s with
      send := rest, toServer := s.toServer ++ [(id, s.heap id)], written :=
        s.written ++ [id] } := by
    simp [Rpc.flow, hsend]
  have hid : id ∈ s.issued := h.flow.subset (by simp [Rpc.flow, hsend])
  exact { h with
    flow := hflow ▸ h.flow
    flow_pending := hflow ▸ h.flow_pending
    written := fun i hi => by
      rcases List.mem_append.1 hi with hi | hi
      · exact h.written i hi
      · rwa [List.mem_singleton.1 hi]
    served := fun i hi => by
      obtain ⟨h₁, h₂, h₃⟩ := h.served i hi
      rw [hsend, List.mem_cons, not_or] at h₃
      exact ⟨h₁, by simpa using ⟨by simpa using h₂, h₃.1⟩, h₃.2⟩
    asked := fun he p hp => by
      rcases List.mem_append.1 hp with hp | hp
      · exact h.asked he p hp
      · rw [List.mem_singleton.1 hp] }

theorem inv_writeLost (h : Inv s) {rest : List ℕ} (hsend : s.send = id :: rest) :
    Inv { s with send := rest, writing := false } := by
  have hflow : (flow { s with send := rest, writing := false }).Sublist s.flow := by
    simp [Rpc.flow, hsend]
  exact { h with
    flow := hflow.trans h.flow
    flow_pending := fun he i hi => h.flow_pending he i (hflow.subset hi)
    served := fun i hi => by
      obtain ⟨h₁, h₂, h₃⟩ := h.served i hi
      rw [hsend, List.mem_cons, not_or] at h₃
      exact ⟨h₁, h₂, h₃.2⟩ }

theorem inv_read (h : Inv s) (hclient : s.toClient = (id, msg) :: rest) :
    Inv { s with toClient := rest, responses := s.responses ++ [.message id msg] } := by
  have hflow : s.flow = flow { s with
      toClient := rest, responses := s.responses ++ [.message id msg] } := by
    simp [Rpc.flow, hclient, Incoming.id]
  exact { h with
    flow := hflow ▸ h.flow
    flow_pending := hflow ▸ h.flow_pending
    answered := fun he i m hm => h.answered he i m (by
      rw [hclient]
      rcases hm with hm | hm
      · exact .inl (List.mem_cons_of_mem _ hm)
      · rcases List.mem_append.1 hm with hm | hm
        · exact .inr hm
        · obtain ⟨rfl, rfl⟩ := Incoming.message.inj (List.mem_singleton.1 hm)
          exact .inl List.mem_cons_self) }

/-- A transport error in the channel of responses is on no request's way. -/
theorem inv_setError (h : Inv s) (e : String) : Inv (s.setError e) := by
  have hflow : s.flow = (s.setError e).flow := by
    simp [Rpc.flow, setError, Incoming.id]
  exact { h with
    flow := hflow ▸ h.flow
    flow_pending := hflow ▸ h.flow_pending
    answered := fun he i m hm => h.answered he i m (by simpa [setError] using hm) }

theorem inv_serveLost (h : Inv s) {p : ℕ × Message}
    (hserver : s.toServer = p :: rest) : Inv { s with toServer := rest, serving := false } := by
  have hflow : (flow { s with toServer := rest, serving := false }).Sublist s.flow := by
    simp [Rpc.flow, hserver]
  exact { h with
    flow := hflow.trans h.flow
    flow_pending := fun he i hi => h.flow_pending he i (hflow.subset hi)
    served := fun i hi => by
      obtain ⟨h₁, h₂, h₃⟩ := h.served i hi
      rw [hserver, List.map_cons, List.mem_cons, not_or] at h₂
      exact ⟨h₁, h₂.2, h₃⟩
    asked := fun he q hq => h.asked he q (hserver ▸ List.mem_cons_of_mem _ hq) }

theorem Answered.mono (h : s.Answered id) (hcalls : t.calls[id]? = s.calls[id]?)
    (hserved : ∀ p ∈ s.served, p ∈ t.served) (hheap : t.heap id = s.heap id) : t.Answered id := by
  obtain ⟨c, q, a, m, hc, ha, hr, hm⟩ := h
  exact ⟨c, q, a, m, hcalls.trans hc, hserved _ ha, hr, hheap.trans hm⟩

theorem Responds.mono (h : s.Responds id m)
    (hserved : ∀ p ∈ s.served, p ∈ t.served) (hheap : t.heap id = s.heap id) : t.Responds id m := by
  obtain ⟨a, ha, hr⟩ := h
  exact ⟨a, hserved _ ha, hheap ▸ hr⟩

/-- What is completed stays as it was answered. -/
theorem Inv.complete_mono (h : Inv s) (hid : id ∈ s.complete) (hcalls : t.calls[id]? = s.calls[id]?)
    (hserved : ∀ p ∈ s.served, p ∈ t.served) (hheap : t.heap id = s.heap id) :
    (t.heap id).type = typeError ∨ t.Answered id :=
  (h.complete id hid).imp (fun ht => (congrArg Message.type hheap).trans ht) fun ha =>
    ha.mono hcalls hserved hheap

theorem mem_flow_of_toServer {p : ℕ × Message} (hp : p ∈ s.toServer) : p.1 ∈ s.flow := by
  simp only [Rpc.flow, List.mem_append, List.mem_map]
  exact .inl (.inr ⟨p, hp, rfl⟩)

theorem mem_flow_of_response (h : (id, m) ∈ s.toClient ∨ .message id m ∈ s.responses) :
    id ∈ s.flow := by
  simp only [Rpc.flow, List.mem_append, List.mem_map, List.mem_filterMap]
  rcases h with h | h
  · exact .inl (.inl (.inr ⟨_, h, rfl⟩))
  · exact .inl (.inl (.inl ⟨_, h, rfl⟩))

/-- The server calls the data processor for every request of the client. -/
theorem processed_request (c : Call) (q : UInt32) : (c.request q).Processed := by
  cases c <;> simp [Call.request, Call.message, Message.Processed]

theorem Inv.processed (h : Inv s) (he : s.err = none) (hid : id ∈ s.flow) :
    (s.heap id).Processed := by
  obtain ⟨p, hp, rfl⟩ := List.mem_map.1 (h.flow_pending he id hid)
  obtain ⟨-, c, k, -, -, -, hheap⟩ := h.pends p hp
  rw [hheap]
  exact processed_request c _

/-- The server handles the first message that is on its way to it. -/
theorem inv_serve (h : Inv s)
    (hserver : s.toServer = (id, msg) :: rest) {a : Answer} (hresp : respond msg a = .ok resp)
    (sent : Bool) : Inv { s with
      toServer := rest
      toClient := if sent then s.toClient ++ [(id, resp)] else s.toClient
      serving := sent
      served := if msg.Processed then s.served ++ [(id, a)] else s.served } := by
  have hmem : id ∈ s.flow := by simp [Rpc.flow, hserver]
  have hflow : ∀ served, (flow { s with
      toServer := rest
      toClient := if sent then s.toClient ++ [(id, resp)] else s.toClient
      serving := sent
      served := served }).Sublist s.flow := by
    intro served
    cases sent <;> simp [Rpc.flow, hserver]
  have hnew : id ∉ s.served.map Prod.fst := fun hi => (h.served id hi).2.1 (by simp [hserver])
  have hgone : id ∉ rest.map Prod.fst ∧ id ∉ s.send := by
    have hnodup := h.flow_nodup
    rw [Rpc.flow, hserver, List.map_cons, List.append_assoc, List.cons_append] at hnodup
    have htail := (List.nodup_append.1 hnodup).2.1
    have := (List.nodup_cons.1 htail).1
    rw [List.mem_append, not_or] at this
    exact this
  have hmono : ∀ p ∈ s.served, p ∈ if msg.Processed then s.served ++ [(id, a)] else s.served := by
    intro p hp
    split_ifs
    · exact List.mem_append_left _ hp
    · exact hp
  have hserved : ∀ i, i ∈ (if msg.Processed then s.served ++ [(id, a)] else s.served).map Prod.fst →
      i = id ∨ i ∈ s.served.map Prod.fst := by
    intro i hi
    split_ifs at hi
    · simpa [or_comm] using hi
    · exact .inr hi
  exact { h with
    flow := (hflow _).trans h.flow
    flow_pending := fun he i hi => h.flow_pending he i ((hflow _).subset hi)
    served_nodup := by
      simp only
      split_ifs
      · rw [List.map_append, List.nodup_append]
        refine ⟨h.served_nodup, by simp, fun i hi j hj hij => ?_⟩
        subst hij
        have hj' : i = id := List.mem_singleton.1 hj
        exact hnew (hj' ▸ hi)
      · exact h.served_nodup
    served := fun i hi => by
      rcases hserved i hi with rfl | hi
      · exact ⟨h.flow.subset hmem, hgone⟩
      · obtain ⟨h₁, h₂, h₃⟩ := h.served i hi
        rw [hserver, List.map_cons, List.mem_cons, not_or] at h₂
        exact ⟨h₁, h₂.2, h₃⟩
    complete := fun i hi => h.complete_mono hi rfl hmono rfl
    asked := fun he q hq => h.asked he q (hserver ▸ List.mem_cons_of_mem _ hq)
    answered := fun he i m hm => by
      have hold : (i, m) ∈ s.toClient ∨ .message i m ∈ s.responses →
          ∃ b, (i, b) ∈ (if msg.Processed then s.served ++ [(id, a)] else s.served) ∧
            respond (s.heap i) b = .ok m := fun hm => by
        obtain ⟨b, hb, hr⟩ := h.answered he i m hm
        exact ⟨b, hmono _ hb, hr⟩
      rcases hm with hm | hm
      · simp only at hm
        split_ifs at hm
        · rcases List.mem_append.1 hm with hm | hm
          · exact hold (.inl hm)
          · obtain ⟨rfl, rfl⟩ := Prod.mk.inj (List.mem_singleton.1 hm)
            have hmsg : msg = s.heap i :=
              h.asked he (i, msg) (by rw [hserver]; exact List.mem_cons_self)
            have hin : (i, a) ∈ if msg.Processed then s.served ++ [(i, a)] else s.served := by
              rw [if_pos (hmsg ▸ h.processed he hmem)]
              exact List.mem_append_right _ (List.mem_singleton_self _)
            exact ⟨a, hin, hmsg ▸ hresp⟩
        · exact hold (.inl hm)
      · exact hold (.inr hm) }

/-! ## Steps of the operations -/

theorem getElem?_append_call {calls : List Call} {c d : Call} (h : calls[id]? = some c) :
    (calls ++ [d])[id]? = some c := by
  rw [List.getElem?_append_left (List.getElem?_eq_some_iff.1 h).1, h]

theorem Inv.lt_of_entered (h : Inv s) (hid : id ∈ s.requests ++ s.issued) :
    id < s.calls.length := by
  by_contra hle
  have hnone := h.fresh id (not_lt.1 hle)
  rcases h.entered id hid with hs | hs <;> rw [hnone] at hs <;> cases hs

theorem Inv.lt_of_issued (h : Inv s) (hid : id ∈ s.issued) : id < s.calls.length :=
  h.lt_of_entered (List.mem_append_right _ hid)

theorem Pends.issued (h : s.Pends p) : p.2 ∈ s.issued := by
  obtain ⟨-, c, k, -, hk, -⟩ := h
  exact List.mem_of_getElem? hk

section

variable (h : Inv s)
include h

/-- A new operation that is past the check. -/
theorem inv_call (c : Call) :
    Inv ({ s with
      calls := s.calls ++ [c]
      heap := update s.heap s.calls.length c.message }.setStage s.calls.length .checked) := by
  have hheap : ∀ {id}, id < s.calls.length →
      update s.heap s.calls.length c.message id = s.heap id :=
    fun hlt => update_of_ne hlt.ne _ _
  have hstage : ∀ {id}, id ≠ s.calls.length →
      update s.stage s.calls.length .checked id = s.stage id :=
    fun hne => update_of_ne hne _ _
  have hcall : ∀ {id d}, s.calls[id]? = some d →
      update s.heap s.calls.length c.message id = s.heap id :=
    fun hd => hheap (List.getElem?_eq_some_iff.1 hd).1
  exact { h with
    fresh := fun id hid => by
      have hlen : (s.calls ++ [c]).length ≤ id := hid
      rw [List.length_append, List.length_singleton] at hlen
      exact (hstage (by omega)).trans (h.fresh id (by omega))
    entered := fun id hid => by
      have hs := h.entered id hid
      rw [← hstage (h.lt_of_entered hid).ne] at hs
      exact hs
    queued := fun id hid => by
      obtain ⟨d, hd, hm⟩ := h.queued id hid
      exact ⟨d, getElem?_append_call hd, (hcall hd).trans hm⟩
    checked := fun id hid => by
      rcases eq_or_ne id s.calls.length with rfl | hne
      · exact ⟨c, by simp [setStage], update_self _ _ _⟩
      · obtain ⟨d, hd, hm⟩ := h.checked id ((hstage hne).symm.trans hid)
        exact ⟨d, getElem?_append_call hd, (hcall hd).trans hm⟩
    pends := fun p hp => by
      obtain ⟨hnot, d, k, hd, hk, hq, hm⟩ := h.pends p hp
      exact ⟨hnot, d, k, getElem?_append_call hd, hk, hq, (hcall hd).trans hm⟩
    complete := fun id hid => by
      have hlt := h.lt_of_issued (h.complete_issued id hid)
      exact h.complete_mono hid (List.getElem?_append_left hlt) (fun _ hp => hp) (hheap hlt)
    struck := fun he id hid => (h.struck he id hid).imp_right fun ⟨hc, ht⟩ =>
      ⟨hc, (congrArg Message.type (hheap (h.lt_of_issued (h.complete_issued id hc)))).trans ht⟩
    returned := fun p hp => by
      obtain ⟨hs, hr⟩ := h.returned p hp
      have hne : p.1 ≠ s.calls.length := fun heq => by
        rw [heq, h.fresh _ le_rfl] at hs
        cases hs
      refine ⟨(hstage hne).trans hs, hr.imp_right fun ⟨hc, d, hd, hres⟩ => ?_⟩
      exact ⟨hc, d, getElem?_append_call hd, hres.trans (congrArg d.result (hcall hd).symm)⟩
    asked := fun he p hp =>
      (h.asked he p hp).trans
        (hheap (h.lt_of_issued (h.flow.subset (mem_flow_of_toServer hp)))).symm
    answered := fun he id m hm => (h.answered he id m hm).mono (fun _ hp => hp)
      (hheap (h.lt_of_issued (h.flow.subset (mem_flow_of_response hm)))) }

/-- An operation returns. -/
theorem inv_return {r : OpResult} (hlt : id < s.calls.length) (hstage : s.stage id ≠ .returned)
    (hr : r.failed ∨ id ∈ s.complete ∧ ∃ c, s.calls[id]? = some c ∧ r = c.result (s.heap id)) :
    Inv (s.return_ id r) := by
  have hother : ∀ {i}, i ≠ id → update s.stage id .returned i = s.stage i :=
    fun hne => update_of_ne hne _ _
  have hself : update s.stage id .returned id = .returned := update_self _ _ _
  exact { h with
    fresh := fun i hi => (hother (by have : s.calls.length ≤ i := hi; omega)).trans (h.fresh i hi)
    entered := fun i hi => by
      rcases eq_or_ne i id with rfl | hne
      · exact .inr hself
      · have hs := h.entered i hi
        rw [← hother hne] at hs
        exact hs
    checked := fun i hi => by
      rcases eq_or_ne i id with rfl | hne
      · cases hself.symm.trans hi
      · exact h.checked i ((hother hne).symm.trans hi)
    returned_nodup := by
      simp only [return_, List.map_append, List.nodup_append]
      refine ⟨h.returned_nodup, by simp, fun i hi j hj hij => ?_⟩
      obtain ⟨p, hp, rfl⟩ := List.mem_map.1 hi
      have hj' : j = id := List.mem_singleton.1 hj
      exact hstage (hj' ▸ hij ▸ (h.returned p hp).1)
    returned := fun p hp => by
      rcases List.mem_append.1 hp with hp | hp
      · obtain ⟨hs, hres⟩ := h.returned p hp
        have hne : p.1 ≠ id := fun heq => hstage (heq ▸ hs)
        exact ⟨(hother hne).trans hs, hres⟩
      · rw [List.mem_singleton.1 hp]
        exact ⟨hself, hr⟩ }

theorem Inv.not_entered (hid : s.stage id = .checked) :
    id ∉ s.requests ++ s.issued := fun hmem => by
  rcases h.entered id hmem with hs | hs <;> rw [hid] at hs <;> cases hs

theorem inv_push (hid : s.stage id = .checked) :
    Inv { s.setStage id .waiting with requests := s.requests ++ [id] } := by
  have hother : ∀ {i}, i ≠ id → update s.stage id .waiting i = s.stage i :=
    fun hne => update_of_ne hne _ _
  have hself : update s.stage id .waiting id = .waiting := update_self _ _ _
  have hnew := h.not_entered hid
  have hperm : ((s.requests ++ [id]) ++ s.issued).Perm (id :: (s.requests ++ s.issued)) := by
    rw [List.append_assoc]
    exact List.perm_middle
  exact { h with
    fresh := fun i hi => by
      have hne : i ≠ id := fun heq => by
        rw [← heq, h.fresh i hi] at hid
        cases hid
      exact (hother hne).trans (h.fresh i hi)
    entered := fun i hi => by
      rcases eq_or_ne i id with rfl | hne
      · exact .inl hself
      · have hs := h.entered i ((List.mem_cons.1 (hperm.mem_iff.1 hi)).resolve_left hne)
        rw [← hother hne] at hs
        exact hs
    nodup := hperm.nodup_iff.2 (List.nodup_cons.2 ⟨hnew, h.nodup⟩)
    queued := fun i hi => by
      rcases List.mem_append.1 hi with hi | hi
      · exact h.queued i hi
      · rw [List.mem_singleton.1 hi]
        exact h.checked id hid
    checked := fun i hi => by
      rcases eq_or_ne i id with rfl | hne
      · cases hself.symm.trans hi
      · exact h.checked i ((hother hne).symm.trans hi)
    returned := fun p hp => by
      obtain ⟨hs, hr⟩ := h.returned p hp
      have hne : p.1 ≠ id := fun heq => by
        rw [heq, hid] at hs
        cases hs
      exact ⟨(hother hne).trans hs, hr⟩ }

/-! ## Steps of the loop -/

theorem inv_dropResponse {resp : Incoming} {rest : List Incoming}
    (hresp : s.responses = resp :: rest) : Inv { s with responses := rest } := by
  have hflow : (flow { s with responses := rest }).Sublist s.flow := by
    have hrest : (rest.filterMap Incoming.id).Sublist (s.responses.filterMap Incoming.id) := by
      rw [hresp]
      exact (List.sublist_cons_self resp rest).filterMap _
    exact ((hrest.append_right _).append_right _).append_right _
  exact { h with
    flow := hflow.trans h.flow
    flow_pending := fun he i hi => h.flow_pending he i (hflow.subset hi)
    answered := fun he i m hm => h.answered he i m (hm.imp_right fun hm => by
      rw [hresp]
      exact List.mem_cons_of_mem _ hm) }

theorem inv_transport (e : String) :
    Inv { s with err := some e, loop := .terminating, struck := s.pending.map Prod.snd } :=
  { h with
    running := by simp
    exited := nofun
    struck := fun _ _ hid => .inl hid
    flow_pending := nofun
    asked := nofun
    answered := nofun }

theorem inv_exit (hloop : s.loop = .terminating) (hpending : s.pending = []) :
    Inv { s with loop := .exited } :=
  { h with
    running := by
      have := h.running
      rw [hloop] at this
      simpa using this
    exited := fun _ => hpending }

theorem Inv.eq_of_key {q : UInt32 × ℕ} (hp : p ∈ s.pending) (hq : q ∈ s.pending)
    (heq : p.1 = q.1) : p = q :=
  List.inj_on_of_nodup_map h.keys hp hq heq

theorem Inv.eq_of_id {q : UInt32 × ℕ} (hp : p ∈ s.pending) (hq : q ∈ s.pending)
    (heq : p.2 = q.2) : p = q := by
  obtain ⟨-, c, k, -, hk, hpk, -⟩ := h.pends p hp
  obtain ⟨-, d, l, -, hl, hql, -⟩ := h.pends q hq
  have hkl : k = l := by
    have hnodup := (List.nodup_append.1 h.nodup).2.1
    obtain ⟨hk', -⟩ := List.getElem?_eq_some_iff.1 hk
    exact (List.getElem?_inj hk' hnodup).1 (hk.trans (heq ▸ hl.symm))
  exact h.eq_of_key hp hq (by rw [hpk, hql, hkl])

/-- A pending request gets its final message and is completed. -/
theorem inv_finish (hp : p ∈ s.pending) (hflow : s.err = none → p.2 ∉ s.flow)
    (hm : m.type = typeError ∨ s.err = none ∧ ∃ c q a r, s.calls[p.2]? = some c ∧
      (p.2, a) ∈ s.served ∧ respond (c.request q) a = .ok r ∧
      m = { c.request q with type := r.type, size := r.size, data := r.data }) :
    Inv (((s.delete p.1).setMessage p.2 m).completed p.2) := by
  obtain ⟨hnot, -⟩ := h.pends p hp
  have hissued : p.2 ∈ s.issued := (h.pends p hp).issued
  have hother : ∀ {i}, i ≠ p.2 → update s.heap p.2 m i = s.heap i :=
    fun hne => update_of_ne hne _ _
  have hself : update s.heap p.2 m p.2 = m := update_self _ _ _
  have hne_complete : ∀ {i}, i ∈ s.complete → i ≠ p.2 := fun hi heq => hnot (heq ▸ hi)
  have hne_requests : ∀ {i}, i ∈ s.requests → i ≠ p.2 := fun hi heq =>
    (List.nodup_append.1 h.nodup).2.2 _ hi _ hissued heq
  have hsub : ∀ q ∈ (s.delete p.1).pending, q ∈ s.pending ∧ q.2 ≠ p.2 := fun q hq => by
    obtain ⟨hq, hne⟩ := List.mem_filter.1 hq
    exact ⟨hq, fun heq => (of_decide_eq_true hne) (congrArg Prod.fst (h.eq_of_id hq hp heq))⟩
  have hkeep : ∀ {i}, i ∈ s.pending.map Prod.snd → i ≠ p.2 →
      i ∈ (s.delete p.1).pending.map Prod.snd := fun hi hne => by
    obtain ⟨q, hq, rfl⟩ := List.mem_map.1 hi
    refine List.mem_map_of_mem (List.mem_filter.2 ⟨hq, decide_eq_true fun heq => ?_⟩)
    exact hne (congrArg Prod.snd (h.eq_of_key hq hp heq))
  exact { h with
    exited := fun he => by
      rw [h.exited he] at hp
      exact (List.not_mem_nil hp).elim
    queued := fun i hi => by
      obtain ⟨c, hc, hm⟩ := h.queued i hi
      exact ⟨c, hc, (hother (hne_requests hi)).trans hm⟩
    checked := fun i hi => by
      obtain ⟨c, hc, hm⟩ := h.checked i hi
      have hne : i ≠ p.2 := fun heq => h.not_entered hi (heq ▸ List.mem_append_right _ hissued)
      exact ⟨c, hc, (hother hne).trans hm⟩
    keys := (List.filter_sublist.map _).nodup h.keys
    pends := fun q hq => by
      obtain ⟨hq, hne⟩ := hsub q hq
      obtain ⟨hn, c, k, hc, hk, hs, hm⟩ := h.pends q hq
      refine ⟨fun hi => ?_, c, k, hc, hk, hs, (hother hne).trans hm⟩
      rcases List.mem_append.1 hi with hi | hi
      · exact hn hi
      · exact hne (List.mem_singleton.1 hi)
    complete_nodup := List.nodup_append.2 ⟨h.complete_nodup, by simp, fun i hi j hj hij =>
      hne_complete hi (hij.trans (List.mem_singleton.1 hj))⟩
    complete_issued := fun i hi => by
      rcases List.mem_append.1 hi with hi | hi
      · exact h.complete_issued i hi
      · rwa [List.mem_singleton.1 hi]
    complete := fun i hi => by
      rcases List.mem_append.1 hi with hi | hi
      · exact h.complete_mono hi rfl (fun _ hp => hp) (hother (hne_complete hi))
      · rw [List.mem_singleton.1 hi]
        refine hm.imp (fun ht => (congrArg Message.type hself).trans ht) ?_
        rintro ⟨-, c, q, a, r, hc, ha, hr, hm⟩
        exact ⟨c, q, a, r, hc, ha, hr, hself.trans hm⟩
    struck := fun he i hi => by
      have hterr : m.type = typeError := hm.resolve_right fun hm => he hm.1
      rcases eq_or_ne i p.2 with rfl | hne
      · exact .inr ⟨List.mem_append_right _ (List.mem_singleton_self _),
          (congrArg Message.type hself).trans hterr⟩
      · refine (h.struck he i hi).imp (fun hi => hkeep hi hne) fun ⟨hc, ht⟩ => ?_
        exact ⟨List.mem_append_left _ hc, (congrArg Message.type (hother hne)).trans ht⟩
    returned := fun q hq => by
      obtain ⟨hs, hr⟩ := h.returned q hq
      refine ⟨hs, hr.imp_right fun ⟨hc, c, hcall, hres⟩ => ⟨List.mem_append_left _ hc,
        c, hcall, ?_⟩⟩
      exact hres.trans (congrArg c.result (hother (hne_complete hc)).symm)
    flow_pending := fun he i hi => hkeep (h.flow_pending he i hi) fun heq => hflow he (heq ▸ hi)
    asked := fun he q hq =>
      (h.asked he q hq).trans (hother fun heq => hflow he (heq ▸ mem_flow_of_toServer hq)).symm
    answered := fun he i r hr => (h.answered he i r hr).mono (fun _ hp => hp)
      (hother fun heq => hflow he (heq ▸ mem_flow_of_response hr)) }

/-- The next sequence number is not one of those that are pending. -/
theorem Inv.next_fresh (hgood : s.Good .takeRequest) : ∀ p ∈ s.pending, p.1 ≠ s.seq + 1 := by
  intro p hp heq
  obtain ⟨-, c, k, -, hk, hq, -⟩ := h.pends p hp
  have hlt := hgood (p.2, k) (List.mem_zipIdx_iff_getElem?.2 hk) (List.mem_map_of_mem hp)
  have hk' := (List.getElem?_eq_some_iff.1 hk).1
  have hnat := congrArg UInt32.toNat (hq.symm.trans heq)
  rw [h.seq, UInt32.toNat_add, UInt32.toNat_ofNat', UInt32.toNat_ofNat', UInt32.toNat_one] at hnat
  simp only at hlt
  omega

/-- The loop gives a request its sequence number and passes it to the writer. -/
theorem inv_issue (he : s.err = none) {rest : List ℕ} (hreq : s.requests = id :: rest)
    (hgood : s.Good .takeRequest) : Inv ({ s with requests := rest }.handleRequest id) := by
  have hnodup := h.nodup
  rw [hreq, List.cons_append, List.nodup_cons, List.mem_append, not_or] at hnodup
  obtain ⟨⟨hrest, hnew⟩, hnodup⟩ := hnodup
  obtain ⟨c, hc, hmsg⟩ := h.queued id (by rw [hreq]; exact List.mem_cons_self)
  have hfilter : s.pending.filter (fun p => p.1 ≠ s.seq + 1) = s.pending :=
    List.filter_eq_self.2 fun p hp => decide_eq_true (h.next_fresh hgood p hp)
  have heq : { s with requests := rest }.handleRequest id = { s with
      requests := rest
      heap := update s.heap id (c.request (s.seq + 1))
      seq := s.seq + 1
      pending := (s.seq + 1, id) :: s.pending
      send := s.send ++ [id]
      issued := s.issued ++ [id] } := by
    simp only [handleRequest, he, setMessage, delete, hfilter, hmsg, Call.request]
  rw [heq]
  have hother : ∀ {i}, i ≠ id → update s.heap id (c.request (s.seq + 1)) i = s.heap i :=
    fun hne => update_of_ne hne _ _
  have hne : ∀ {i}, i ∈ s.issued → i ≠ id := fun hi heq => hnew (heq ▸ hi)
  have hcomplete : ∀ {i}, i ∈ s.complete → i ≠ id := fun hi => hne (h.complete_issued _ hi)
  have hmem : ∀ {i}, i ∈ rest → i ∈ s.requests := fun hi => by
    rw [hreq]
    exact List.mem_cons_of_mem _ hi
  have hperm : (rest ++ (s.issued ++ [id])).Perm (s.requests ++ s.issued) := by
    rw [hreq, ← List.append_assoc]
    exact List.perm_append_singleton _ _
  exact { h with
    exited := fun hloop => by
      rw [h.running.2 he] at hloop
      cases hloop
    entered := fun i hi => h.entered i (hperm.subset hi)
    nodup := hperm.nodup_iff.2 h.nodup
    queued := fun i hi => by
      obtain ⟨d, hd, hm⟩ := h.queued i (hmem hi)
      exact ⟨d, hd, (hother fun heq => hrest (heq ▸ hi)).trans hm⟩
    checked := fun i hi => by
      obtain ⟨d, hd, hm⟩ := h.checked i hi
      refine ⟨d, hd, (hother fun heq => h.not_entered hi ?_).trans hm⟩
      rw [heq, hreq]
      exact List.mem_cons_self
    seq := by
      apply UInt32.toNat_inj.1
      rw [h.seq, UInt32.toNat_add, UInt32.toNat_ofNat', UInt32.toNat_ofNat', UInt32.toNat_one,
        List.length_append, List.length_singleton]
      omega
    keys := by
      rw [List.map_cons, List.nodup_cons]
      refine ⟨fun hin => ?_, h.keys⟩
      obtain ⟨p, hp, hpk⟩ := List.mem_map.1 hin
      exact h.next_fresh hgood p hp hpk
    pends := fun p hp => by
      rcases List.mem_cons.1 hp with rfl | hp
      · refine ⟨fun hin => hcomplete hin rfl, c, s.issued.length,
          hc, by simp, ?_, update_self _ _ _⟩
        simp only [h.seq]
        apply UInt32.toNat_inj.1
        rw [UInt32.toNat_add, UInt32.toNat_ofNat', UInt32.toNat_ofNat', UInt32.toNat_one]
        omega
      · obtain ⟨hn, d, k, hd, hk, hq, hm⟩ := h.pends p hp
        refine ⟨hn, d, k, hd, ?_, hq, (hother (hne (h.pends p hp).issued)).trans hm⟩
        exact (List.getElem?_append_left (List.getElem?_eq_some_iff.1 hk).1).trans hk
    flow := by
      simp only [Rpc.flow, ← List.append_assoc]
      exact h.flow.append_right _
    written := fun i hi => List.mem_append_left _ (h.written i hi)
    served := fun i hi => by
      obtain ⟨h₁, h₂, h₃⟩ := h.served i hi
      refine ⟨List.mem_append_left _ h₁, h₂, fun hin => ?_⟩
      rcases List.mem_append.1 hin with hin | hin
      · exact h₃ hin
      · exact hne h₁ (List.mem_singleton.1 hin)
    complete_issued := fun i hi => List.mem_append_left _ (h.complete_issued i hi)
    complete := fun i hi => h.complete_mono hi rfl (fun _ hp => hp) (hother (hcomplete hi))
    struck := fun herr => (herr he).elim
    returned := fun q hq => by
      obtain ⟨hs, hr⟩ := h.returned q hq
      refine ⟨hs, hr.imp_right fun ⟨hin, d, hd, hres⟩ => ⟨hin, d, hd, ?_⟩⟩
      exact hres.trans (congrArg d.result (hother (hcomplete hin)).symm)
    flow_pending := fun _ i hi => by
      have hi' : i ∈ s.flow ∨ i = id := by
        simp only [Rpc.flow, ← List.append_assoc] at hi
        rcases List.mem_append.1 hi with hi | hi
        · exact .inl hi
        · exact .inr (List.mem_singleton.1 hi)
      rw [List.map_cons, List.mem_cons]
      exact hi'.symm.imp_right (h.flow_pending he i)
    asked := fun _ q hq =>
      (h.asked he q hq).trans (hother (hne (h.flow.subset (mem_flow_of_toServer hq)))).symm
    answered := fun _ i r hr => (h.answered he i r hr).mono (fun _ hp => hp)
      (hother (hne (h.flow.subset (mem_flow_of_response hr)))) }

end

theorem createResponse_seq {count : ℕ} {err : Option String}
    (h : createResponse count msg err = .ok resp) : resp.seq = msg.seq := by
  unfold createResponse at h
  cases err with
  | none =>
    cases h
    rfl
  | some e =>
    simp only at h
    split_ifs at h
    all_goals first
      | (cases h; rfl)
      | (obtain ⟨data, -, h⟩ := Framing.bind_eq_ok h; cases h; rfl)

theorem respond_seq {a : Answer} (h : respond msg a = .ok resp) : resp.seq = msg.seq := by
  unfold respond at h
  split_ifs at h
  · obtain ⟨data, -, h⟩ := Framing.bind_eq_ok h
    exact (createResponse_seq h).trans rfl
  · exact createResponse_seq h
  · exact createResponse_seq h
  · cases h
    rfl

/-- A response whose request is found. -/
theorem handleResponse_message (he : s.err = none)
    (hfind : s.pending.find? (fun q => q.1 = m.seq) = some p) (id : ℕ) :
    s.handleResponse (.message id m) = ((s.delete m.seq).setMessage p.2
      { s.heap p.2 with type := m.type, size := m.size, data := m.data }).completed p.2 := by
  have hmessage : s.handleMessage m = ((s.delete m.seq).setMessage p.2
      { s.heap p.2 with type := m.type, size := m.size, data := m.data }).completed p.2 := by
    simp only [handleMessage, hfind, he]
  simp only [handleResponse, hmessage]
  exact if_neg (by simp [completed, setMessage, delete, he])

/-- The loop takes a response off its channel. -/
theorem inv_takeResponse (h : Inv s) (he : s.err = none) {resp : Incoming} {rest : List Incoming}
    (hresp : s.responses = resp :: rest) :
    Inv ({ s with responses := rest }.handleResponse resp) := by
  have hdrop := inv_dropResponse h hresp
  cases resp with
  | transport e => exact inv_transport hdrop e
  | message id m =>
    obtain ⟨a, ha, hr⟩ := h.answered he id m (.inr (by rw [hresp]; exact List.mem_cons_self))
    have hflow : s.flow = id :: flow { s with responses := rest } := by
      simp [Rpc.flow, hresp, Incoming.id]
    obtain ⟨p, hp, hpid⟩ :=
      List.mem_map.1 (h.flow_pending he id (by rw [hflow]; exact List.mem_cons_self))
    subst hpid
    obtain ⟨-, c, k, hc, -, -, hheap⟩ := h.pends p hp
    have hseq : m.seq = p.1 := by
      rw [respond_seq hr, hheap]
      rfl
    have hfind : s.pending.find? (fun q => q.1 = m.seq) = some p := by
      cases hq : s.pending.find? (fun q => decide (q.1 = m.seq)) with
      | none =>
        have := List.find?_eq_none.1 hq p hp
        simp [hseq] at this
      | some q =>
        have hkey : q.1 = p.1 := hseq ▸ (by simpa using List.find?_some hq)
        rw [h.eq_of_key (List.mem_of_find?_eq_some hq) hp hkey]
    rw [handleResponse_message (by exact he) (by exact hfind), hseq]
    have hnodup := h.flow_nodup
    rw [hflow, List.nodup_cons] at hnodup
    refine inv_finish hdrop hp (fun _ => hnodup.1) (.inr ⟨he, c, p.1, a, m, hc, ha, ?_, ?_⟩)
    · rw [← hheap]
      exact hr
    · rw [hheap]

/-- A call that finds the error of the client. -/
theorem inv_refuse (h : Inv s) (c : Call) (e : String) :
    Inv ({ s with
      calls := s.calls ++ [c]
      heap := update s.heap s.calls.length c.message }.return_ s.calls.length (refused e)) := by
  have hstage : update s.stage s.calls.length .checked s.calls.length = .checked :=
    update_self _ _ _
  have hret := inv_return (inv_call h c) (r := refused e)
    (by simp [setStage] : s.calls.length < _)
    (fun heq => by cases hstage.symm.trans heq) (.inl rfl)
  simpa only [return_, setStage, update_idem] using hret

/-- The loop replies the error to a pending request. -/
theorem inv_terminate (h : Inv s) {e : String} (he : s.err = some e)
    (hid : id ∈ s.pending.map Prod.snd) : Inv (s.replyError e id) := by
  obtain ⟨p, hp, rfl⟩ := List.mem_map.1 hid
  obtain ⟨-, c, k, -, -, -, hheap⟩ := h.pends p hp
  have hseq : (s.heap p.2).seq = p.1 := by
    rw [hheap]
    rfl
  rw [replyError, hseq]
  refine inv_finish h hp (fun hnone => ?_) (.inl rfl)
  rw [he] at hnone
  cases hnone

theorem Inv.lt_of_waiting (h : Inv s) (hid : s.stage id = .waiting) : id < s.calls.length := by
  by_contra hle
  rw [h.fresh id (by omega)] at hid
  cases hid

/-- What a step keeps. -/
theorem inv_step {op : RpcOp} (h : Inv s) (hgood : s.Good op) (hstep : s.step op = some t) :
    Inv t := by
  cases op with
  | call c =>
    dsimp only [step] at hstep
    split at hstep <;> cases hstep
    · exact inv_refuse h c _
    · exact inv_call h c
  | push id =>
    dsimp only [step] at hstep
    split at hstep <;> cases hstep
    exact inv_push h ‹_›
  | takeRequest =>
    dsimp only [step] at hstep
    split at hstep <;> cases hstep
    exact inv_issue h (h.running.1 ‹_›) ‹_› hgood
  | takeResponse =>
    dsimp only [step] at hstep
    split at hstep <;> cases hstep
    exact inv_takeResponse h (h.running.1 ‹_›) ‹_›
  | terminate id =>
    dsimp only [step] at hstep
    split at hstep <;> try cases hstep
    split at hstep <;> cases hstep
    exact inv_terminate h ‹_› ‹_›
  | exit =>
    dsimp only [step] at hstep
    split at hstep <;> cases hstep
    rename_i hexit
    exact inv_exit h hexit.1 hexit.2
  | write =>
    dsimp only [step] at hstep
    split at hstep <;> cases hstep
    exact inv_write h ‹_›
  | writeFails e =>
    dsimp only [step] at hstep
    split at hstep <;> cases hstep
    exact inv_setError (inv_writeLost h ‹_›) e
  | read =>
    dsimp only [step] at hstep
    split at hstep <;> cases hstep
    exact inv_read h ‹_›
  | readFails e =>
    dsimp only [step] at hstep
    split at hstep <;> cases hstep
    exact inv_setError (s := { s with reading := false }) { h with } e
  | serve a sent =>
    dsimp only [step] at hstep
    split at hstep
    · rename_i hserver
      split at hstep <;> cases hstep
      · exact inv_serveLost h hserver
      · exact inv_serve h hserver ‹_› sent
    · cases hstep
  | stop =>
    cases hstep
    exact { h with }
  | wake id =>
    dsimp only [step] at hstep
    split at hstep
    · rename_i hstage hc
      split at hstep <;> cases hstep
      refine inv_return h (h.lt_of_waiting hstage) (by simp [hstage]) (.inr ⟨‹_›, _, hc, rfl⟩)
    · cases hstep
  | timeout id =>
    dsimp only [step] at hstep
    split at hstep <;> cases hstep
    rename_i hstage
    refine inv_return (inv_setError h _) (h.lt_of_waiting hstage) ?_ (.inl rfl)
    show s.stage id ≠ .returned
    simp [hstage]

end Rpc

end Jiva
