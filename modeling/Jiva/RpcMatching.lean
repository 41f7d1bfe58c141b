import Jiva.RpcInv

/-!
# The result of an operation is that of its own request

The invariant along a run says that a completed message is an error or the response to an answer of
the data processor for this request. What is left is to follow the answer through the server and
`operation` (`carries_result`). The end of the file comes with the count and the bytes of the data
processor. Without an error the count of the data processor is dropped : the server sends back the
length of the buffer. A replica returns the length of a whole sector for a write inside one sector,
and the client still reports the length that was asked for (`rpc_partial_write`).

After the transport error nothing gets a sequence number any more (`frozen_run`), and the loop that
replies to what was pending gets to its end (`terminates`).
-/

namespace Jiva

open Framing Transition

/-- The result is the one of the answer. The bytes are those of the buffer the data processor
filled. -/
def Call.Carries (c : Call) (a : Answer) (r : OpResult) : Prop :=
  (r.err = none ∧ a.err = none ∨ r.err = some .eof ∧ a.err = some "EOF") ∧
    match c with
    | readAt len _ _ =>
      (r.err = none → r.n = len ∧ r.data = a.fill (List.replicate len 0)) ∧
        (r.err = some .eof → r.n = a.n ∧ r.data = (a.fill (List.replicate len 0)).take a.n)
    | writeAt buf _ _ => r.err = none → r.n = buf.length
    | _ => True

namespace Rpc

variable {s t : Rpc}

/-- The result of the operation is the one of the only answer to its request. -/
def Matched (s : Rpc) (id : ℕ) (r : OpResult) : Prop :=
  ∃ c a, s.calls[id]? = some c ∧ (id, a) ∈ s.served ∧ (∀ b, (id, b) ∈ s.served → b = a) ∧
    c.Carries a r

/-! ## From the answer to the result -/

theorem length_fill (a : Answer) (data : List Byte) : (a.fill data).length = data.length := by
  simp only [Answer.fill, List.length_append, List.length_take, List.length_drop]
  omega

theorem toInt_ofNat {n : ℕ} (h : n < 2 ^ 63) : (Int64.ofNat n).toInt = n :=
  Int64.toInt_ofNat_of_lt h

theorem makeSlice_eq {n : ℕ} {data : List Byte} (h : makeSlice n = .ok data) :
    data = List.replicate n 0 := by
  unfold makeSlice at h
  split_ifs at h
  cases h
  rfl

theorem slice_eq_take {data cut : List Byte} {count : ℕ} (h : slice data 0 count = .ok cut) :
    count ≤ data.length ∧ cut = data.take count := by
  unfold slice at h
  split_ifs at h with hle
  cases h
  exact ⟨by omega, by simp⟩

/-- What the server sends back when it is not an error. -/
theorem createResponse_success {count : ℕ} {msg resp : Message} {err : Option String}
    (h : createResponse count msg err = .ok resp) (htype : resp.type ≠ typeError) :
    (err = none ∧ resp.type = typeResponse ∧ resp.size = Int64.ofNat msg.data.length ∧
        (msg.type = typeRead → resp.data = msg.data)) ∨
      (err = some "EOF" ∧ resp.type = typeEOF ∧ resp.size = Int64.ofNat resp.data.length ∧
        (msg.type = typeRead → count ≤ msg.data.length ∧ resp.data = msg.data.take count)) := by
  have hne : typeRead ≠ typeWrite := by decide
  unfold createResponse at h
  cases err with
  | none =>
    cases h
    exact .inl ⟨rfl, rfl, rfl, fun hr => if_neg (hr ▸ hne)⟩
  | some e =>
    simp only at h
    by_cases heof : e = "EOF"
    · rw [if_pos heof] at h
      -- the bytes that the response starts from
      generalize hd : (if msg.type = typeWrite then [] else msg.data) = d at h
      have heq : msg.type = typeRead → d = msg.data := fun hr => hd ▸ if_neg (hr ▸ hne)
      split_ifs at h with hnil <;> obtain ⟨cut, hcut, h⟩ := Framing.bind_eq_ok h <;> cases h
      · exact .inr ⟨by rw [heof], rfl, rfl, fun hr => (hnil.2 hr).elim⟩
      · refine .inr ⟨by rw [heof], rfl, rfl, fun hr => ?_⟩
        rw [← heq hr]
        exact slice_eq_take hcut
    · rw [if_neg heof] at h
      cases h
      exact (htype rfl).elim

/-- The result of an operation whose message is the response to this answer. -/
theorem carries_result {c : Call} {q : UInt32} {a : Answer} {m : Message}
    (hr : respond (c.request q) a = .ok m) (htype : m.type ≠ typeError) :
    c.Carries a (c.result { c.request q with type := m.type, size := m.size, data := m.data }) := by
  have heof : typeEOF ≠ typeError := by decide
  have hresponse : typeResponse ≠ typeError ∧ typeResponse ≠ typeEOF := by decide
  cases c with
  | readAt len hlen offset =>
    obtain ⟨data, hdata, hr⟩ := Framing.bind_eq_ok hr
    obtain rfl : data = List.replicate len 0 := by
      have hdata' : makeSlice (Int64.ofNat len).toInt = .ok data := hdata
      rw [toInt_ofNat hlen] at hdata'
      exact makeSlice_eq hdata'
    have hlength : (a.fill (List.replicate len 0)).length = len := by
      rw [length_fill, List.length_replicate]
    rcases createResponse_success hr htype with ⟨herr, ht, hs, hd⟩ | ⟨herr, ht, hs, hd⟩
    · have hdata : m.data = a.fill (List.replicate len 0) := hd rfl
      have hs' : m.size.toInt = len := by
        rw [hs]
        simp only [hlength]
        exact toInt_ofNat hlen
      refine ⟨.inl ⟨by simp [Call.result, ht, hresponse], herr⟩, fun _ => ⟨?_, ?_⟩, fun he => ?_⟩
      · simp [Call.result, ht, hresponse, hs']
      · simp [Call.result, ht, hresponse, Call.copied, hdata, List.take_of_length_le hlength.le]
      · simp [Call.result, ht, hresponse] at he
    · obtain ⟨hle, hdata⟩ := hd rfl
      have hn : a.n ≤ len := hlength ▸ hle
      have hs' : m.size.toInt = a.n := by
        rw [hs, hdata, List.length_take, hlength, Nat.min_eq_left hn]
        exact toInt_ofNat (hn.trans_lt hlen)
      refine ⟨.inr ⟨by simp [Call.result, ht, heof], herr⟩, fun he => ?_, fun _ => ⟨?_, ?_⟩⟩
      · simp [Call.result, ht, heof] at he
      · simp [Call.result, ht, heof, hs']
      · simp [Call.result, ht, heof, Call.copied, hdata, List.take_take, hn]
  | writeAt buf hbuf offset =>
    rcases createResponse_success hr htype with ⟨herr, ht, hs, -⟩ | ⟨herr, ht, -⟩
    · have hs' : m.size = Int64.ofNat buf.length := hs
      refine ⟨.inl ⟨by simp [Call.result, ht, hresponse], herr⟩, fun _ => ?_⟩
      simp [Call.result, ht, hresponse, hs', toInt_ofNat hbuf]
    · refine ⟨.inr ⟨by simp [Call.result, ht, heof], herr⟩, fun he => ?_⟩
      simp [Call.result, ht, heof] at he
  | sync | unmap | ping =>
    rcases createResponse_success hr htype with ⟨herr, ht, -⟩ | ⟨herr, ht, -⟩
    · exact ⟨.inl ⟨by simp [Call.result, ht, hresponse], herr⟩, trivial⟩
    · exact ⟨.inr ⟨by simp [Call.result, ht, heof], herr⟩, trivial⟩

theorem Inv.matched_complete (h : Inv s) {id : ℕ} (hid : id ∈ s.complete)
    (htype : (s.heap id).type ≠ typeError) :
    ∃ c, s.calls[id]? = some c ∧ s.Matched id (c.result (s.heap id)) := by
  rcases h.complete id hid with herr | ⟨c, q, a, m, hc, ha, hr, hheap⟩
  · exact (htype herr).elim
  · rw [hheap] at htype ⊢
    refine ⟨c, hc, c, a, hc, ha, fun b hb => ?_, carries_result hr htype⟩
    exact congrArg Prod.snd (List.inj_on_of_nodup_map h.served_nodup hb ha rfl)

theorem failed_result (c : Call) (msg : Message) :
    (c.result msg).failed = decide (msg.type = typeError) := by
  unfold Call.result
  split_ifs with herr heof <;> simp [OpResult.failed, herr]

theorem Inv.matched_returned (h : Inv s) {p : ℕ × OpResult} (hp : p ∈ s.returned)
    (hok : ¬p.2.failed) : s.Matched p.1 p.2 := by
  rcases (h.returned p hp).2 with hfail | ⟨hin, c, hc, hres⟩
  · exact (hok hfail).elim
  · rw [hres, failed_result, decide_eq_true_eq] at hok
    obtain ⟨d, hd, hmatched⟩ := h.matched_complete hin hok
    obtain rfl : d = c := Option.some_inj.1 (hd.symm.trans hc)
    rwa [hres]

/-! ## After a transport error -/

theorem Inv.failed_struck (h : Inv s) (he : s.err ≠ none) {p : ℕ × OpResult} (hp : p ∈ s.returned)
    (hstruck : p.1 ∈ s.struck) : p.2.failed := by
  rcases (h.returned p hp).2 with hfail | ⟨hin, c, -, hres⟩
  · exact hfail
  · rcases h.struck he p.1 hstruck with hpending | ⟨-, htype⟩
    · obtain ⟨q, hq, hid⟩ := List.mem_map.1 hpending
      exact ((h.pends q hq).1 (hid ▸ hin)).elim
    · rw [hres, failed_result, decide_eq_true_eq]
      exact htype

/-- What the error of the client fixes. -/
structure Frozen (s t : Rpc) : Prop where
  err : t.err = s.err
  issued : t.issued = s.issued
  struck : t.struck = s.struck

theorem frozen_step {op : RpcOp} (h : Inv s) (he : s.err ≠ none) (hstep : s.step op = some t) :
    Frozen s t := by
  have hloop : s.loop ≠ .running := fun hrun => he (h.running.1 hrun)
  cases op <;> dsimp only [step] at hstep
  case takeRequest =>
    split at hstep
    · exact (hloop ‹_›).elim
    · cases hstep
  case takeResponse =>
    split at hstep
    · exact (hloop ‹_›).elim
    · cases hstep
  case stop =>
    cases hstep
    exact ⟨rfl, rfl, rfl⟩
  case serve a sent =>
    split at hstep
    · split at hstep <;> cases hstep <;> exact ⟨rfl, rfl, rfl⟩
    · cases hstep
  case terminate id =>
    split at hstep
    · split at hstep <;> cases hstep
      exact ⟨rfl, rfl, rfl⟩
    · cases hstep
  case wake id =>
    split at hstep
    · split at hstep <;> cases hstep
      exact ⟨rfl, rfl, rfl⟩
    · cases hstep
  all_goals split at hstep <;> cases hstep <;> exact ⟨rfl, rfl, rfl⟩

theorem frozen_run {ops : List RpcOp} (h : Inv s) (he : s.err ≠ none)
    (hrun : run step s ops = some t) (hgood : Transition.Along step Good s ops) :
    Inv t ∧ Frozen s t := by
  refine inv_of_run (I := fun u => Inv u ∧ Frozen s u) ?_ ⟨h, rfl, rfl, rfl⟩ hgood hrun
  rintro u op v ⟨hu, hfrozen⟩ hop hstep
  have hv := frozen_step hu (hfrozen.err ▸ he) hstep
  exact ⟨inv_step hu hop hstep, hv.err.trans hfrozen.err, hv.issued.trans hfrozen.issued,
    hv.struck.trans hfrozen.struck⟩

theorem terminates_of_length (n : ℕ) : ∀ {s : Rpc} {e : String}, Inv s → s.err = some e →
    s.loop = .terminating → s.pending.length ≤ n →
    ∃ ops t, run step s ops = some t ∧ Transition.Along step Good s ops ∧ t.loop = .exited := by
  have hdone : ∀ {s : Rpc}, s.loop = .terminating → s.pending = [] →
      ∃ ops t, run step s ops = some t ∧ Transition.Along step Good s ops ∧
        t.loop = .exited := fun {s} hloop hnil =>
    ⟨[.exit], { s with loop := .exited }, by simp [run_cons, step, hloop, hnil],
      ⟨trivial, fun _ _ => trivial⟩, rfl⟩
  induction n with
  | zero =>
    intro s e h he hloop hn
    exact hdone hloop (List.length_eq_zero_iff.1 (by omega))
  | succ n ih =>
    intro s e h he hloop hn
    rcases hpending : s.pending with _ | ⟨p, rest⟩
    · exact hdone hloop hpending
    have hp : p ∈ s.pending := by
      rw [hpending]
      exact List.mem_cons_self
    have hid : p.2 ∈ s.pending.map Prod.snd := List.mem_map_of_mem hp
    have hstep : s.step (.terminate p.2) = some (s.replyError e p.2) := by
      simp only [step, hloop, he, if_pos hid]
    have hseq : (s.heap p.2).seq = p.1 := by
      obtain ⟨-, c, k, -, -, -, hheap⟩ := h.pends p hp
      rw [hheap]
      rfl
    have hlength : (s.replyError e p.2).pending.length ≤ n := by
      have hle := List.length_filter_le (fun q : UInt32 × ℕ => decide (q.1 ≠ p.1)) rest
      simp only [replyError, completed, setMessage, delete, hseq, hpending]
      simp only [hpending, List.length_cons] at hn
      rw [List.filter_cons_of_neg (by simp)]
      omega
    obtain ⟨ops, t, hrun, halong, hexit⟩ := ih (inv_terminate h he hid) he hloop hlength
    refine ⟨.terminate p.2 :: ops, t, ?_, ⟨trivial, fun u hu => ?_⟩, hexit⟩
    · rw [run_cons, hstep]
      exact hrun
    · obtain rfl : s.replyError e p.2 = u := Option.some_inj.1 (hstep.symm.trans hu)
      exact halong

/-- The loop over the pending requests comes to its end. -/
theorem terminates (h : Inv s) (he : s.err ≠ none) :
    ∃ ops t, run step s ops = some t ∧ Transition.Along step Good s ops ∧ t.loop = .exited := by
  obtain ⟨e, he'⟩ := Option.ne_none_iff_exists'.1 he
  rcases hloop : s.loop with _ | _ | _
  · exact (he (h.running.1 hloop)).elim
  · exact terminates_of_length _ h he' hloop le_rfl
  · exact ⟨[], s, rfl, trivial, hloop⟩

theorem err_handleRequest {rest : List ℕ} {id : ℕ} (he : s.err = none) :
    ({ s with requests := rest }.handleRequest id).err = none := by
  simp only [handleRequest, he]
  rfl

theorem err_handleResponse {rest : List Incoming} {id : ℕ} {m : Message} (he : s.err = none) :
    ({ s with responses := rest }.handleResponse (.message id m)).err = none := by
  have hmessage : ({ s with responses := rest }.handleMessage m).err = none := by
    unfold handleMessage
    split
    · exact he
    · simp only [he]
      rfl
  simp [handleResponse, hmessage]

/-- The step that notes the error strikes what is pending. -/
theorem struck_of_step {op : RpcOp} (he : s.err = none) (hstep : s.step op = some t)
    (ht : t.err ≠ none) : t.struck = s.pending.map Prod.snd := by
  cases op <;> dsimp only [step] at hstep
  case takeResponse =>
    split at hstep <;> cases hstep
    rename_i resp rest _ _
    cases resp with
    | transport e => rfl
    | message id m => exact (ht (err_handleResponse he)).elim
  case takeRequest =>
    split at hstep <;> cases hstep
    exact (ht (err_handleRequest he)).elim
  case stop =>
    cases hstep
    exact (ht he).elim
  case serve a sent =>
    split at hstep
    · split at hstep <;> cases hstep <;> exact (ht he).elim
    · cases hstep
  case terminate id =>
    split at hstep
    · split at hstep <;> cases hstep
      exact (ht he).elim
    · cases hstep
  case wake id =>
    split at hstep
    · split at hstep <;> cases hstep
      exact (ht he).elim
    · cases hstep
  all_goals split at hstep <;> cases hstep <;> exact (ht he).elim

/-! ## Every run -/

instance (s : Rpc) (op : RpcOp) : Decidable (s.Good op) := by
  cases op <;> unfold Good <;> infer_instance

/-- In every run in which no request stays pending for `2 ^ 32` later ones, operations complete and
return at most once, what completes without an error has the result of the answer to its own
request, and a transport error strikes everything that is pending. Once it is noted, what was struck
fails, the loop can finish, and nothing gets a sequence number or goes on the wire that had no
sequence number before. -/
theorem rpc_matching {ops : List RpcOp} (hrun : run step init ops = some s)
    (hgood : Transition.Along step Good init ops) :
    s.complete.Nodup ∧ (s.returned.map Prod.fst).Nodup ∧
      (∀ id ∈ s.complete, (s.heap id).type ≠ typeError →
        ∃ c, s.calls[id]? = some c ∧ s.Matched id (c.result (s.heap id))) ∧
      (∀ p ∈ s.returned, ¬p.2.failed → s.Matched p.1 p.2) ∧
      (∀ op t, s.err = none → s.step op = some t → t.err ≠ none →
        t.struck = s.pending.map Prod.snd) ∧
      (s.err ≠ none →
        (∀ id ∈ s.struck,
          id ∈ s.pending.map Prod.snd ∨ id ∈ s.complete ∧ (s.heap id).type = typeError) ∧
        (s.loop = .exited → ∀ id ∈ s.struck, id ∈ s.complete ∧ (s.heap id).type = typeError) ∧
        (∀ p ∈ s.returned, p.1 ∈ s.struck → p.2.failed) ∧
        (∃ ops' t, run step s ops' = some t ∧ Transition.Along step Good s ops' ∧
          t.loop = .exited) ∧
        ∀ ops' t, run step s ops' = some t → Transition.Along step Good s ops' →
          t.err = s.err ∧ t.struck = s.struck ∧ t.issued = s.issued ∧ ∀ id ∈ t.written,
          id ∈ s.issued) := by
  have h : Inv s := inv_of_run (fun _ _ _ h hg hs => inv_step h hg hs) inv_init hgood hrun
  refine ⟨h.complete_nodup, h.returned_nodup, fun id => h.matched_complete,
    fun p => h.matched_returned, fun op t => struck_of_step,
    fun he => ⟨h.struck he, fun hloop id hid => ?_, fun p => h.failed_struck he,
      terminates h he, fun ops' t hrun' hgood' => ?_⟩⟩
  · rcases h.struck he id hid with hpending | hdone
    · rw [h.exited hloop] at hpending
      cases hpending
    · exact hdone
  · obtain ⟨ht, hfrozen⟩ := frozen_run h he hrun' hgood'
    exact ⟨hfrozen.err, hfrozen.struck, hfrozen.issued,
      fun id hid => hfrozen.issued ▸ ht.written id hid⟩

/-- The first operation of a client, from the call to the result. -/
def exchange (c : Call) (a : Answer) : List RpcOp :=
  [.call c, .push 0, .takeRequest, .write, .serve a true, .read, .takeResponse, .wake 0]

/-- A read of two bytes, and a ping that the connection does not survive. -/
theorem rpc_matching_read : ∃ s : Rpc, s.returned = [(0, ⟨2, [7, 8], none⟩)] ∧ s.struck = [1] ∧
    s.Matched 0 ⟨2, [7, 8], none⟩ ∧
    (1 ∈ s.pending.map Prod.snd ∨ 1 ∈ s.complete ∧ (s.heap 1).type = typeError) := by
  have hrun : (run step init (exchange (.readAt 2 (by decide) 0) ⟨[7, 8], 2, none⟩ ++
      [.call .ping, .push 1, .takeRequest, .readFails "closed", .takeResponse])).map
        (fun s => (s.returned, s.struck, s.err.isSome)) =
      some ([(0, ⟨2, [7, 8], none⟩)], [1], true) := by
    decide +kernel
  obtain ⟨s, hs, heq⟩ := Option.map_eq_some_iff.1 hrun
  simp only [Prod.mk.injEq] at heq
  obtain ⟨hreturned, hstruck, herr⟩ := heq
  obtain ⟨-, -, -, hmatched, -, herror⟩ := rpc_matching hs (along_of_check (by decide +kernel))
  refine ⟨s, hreturned, hstruck, hmatched (0, _) ?_ ?_, (herror ?_).1 1 ?_⟩
  · simp [hreturned]
  · decide
  · exact Option.isSome_iff_ne_none.1 herr
  · simp [hstruck]

/-- A replica with one sector answers the write of one byte with the count `4096` and no error. The
result of the operation is not this count. -/
theorem rpc_partial_write :
    (∃ v, Served.writeAt ⟨Dev.ok, none, none, none, false⟩ ⟨Volume.new 1 1, false,
      false, .rw⟩ [1] 0 = .ok ⟨v, 4096, none⟩) ∧
    ∃ s : Rpc, run step init (exchange (.writeAt [1] (by decide) 0) ⟨[], 4096, none⟩) = some s ∧
      Transition.Along step Good init (exchange (.writeAt [1] (by decide) 0) ⟨[], 4096, none⟩) ∧
      s.returned = [(0, ⟨1, [], none⟩)] ∧ s.served.map (fun p => (p.1, p.2.n)) = [(0, 4096)] := by
  refine ⟨?_, ?_⟩
  · have hw : (match Checked.writeAt Dev.ok (Volume.new 1 1) [1] 0 with
        | .ok w => (w.n, w.err)
        | .error _ => (0, none)) = (4096, none) := by
      decide +kernel
    unfold Served.writeAt
    cases hr : Checked.writeAt Dev.ok (Volume.new 1 1) [1] 0 with
    | error e =>
      rw [hr] at hw
      cases hw
    | ok w =>
      obtain ⟨v, n, err⟩ := w
      rw [hr] at hw
      obtain ⟨rfl, rfl⟩ := Prod.mk.inj hw
      exact ⟨v, rfl⟩
  · exact exists_of_any (p := fun s => s.returned = [(0, ⟨1, [], none⟩)] ∧
      s.served.map (fun p => (p.1, p.2.n)) = [(0, 4096)]) (by decide +kernel) fun s _ h =>
        ⟨along_of_check (by decide +kernel), h⟩

end Rpc

end Jiva
