import Jiva.CheckedWrites
import Jiva.Replica
import Jiva.Wire

/-!
# The data server of a replica

`rpc/server.go` reads messages off a connection and handles one at a time : it does what the type of
the message says and sends the message back as the response, with another type, size and payload.
Types it does not know are sent back as they are. Neither the size nor the offset is checked against
the volume. After an error of a read or a write `isIOError` looks for an `EIO`, which ends the
process, and panics if what is inside a `PathError` is no `Errno`.

`handle_returns` and `harmless_of_handle` say which messages a replica survives. A read may not have
a size that cannot be allocated. A write may not come to mark a sector that the location table does
not have. And right below zero only a failing read of the first sector saves the server from a
panic, while further below zero nothing does. `dataServer_survives` carries this over to whole
streams.
-/

namespace Jiva

open Framing

variable {msg : Message} {o : Outcome} {s : Served}

/-- The replica behind the server, as far as data requests see it. -/
structure Served where
  volume : Volume
  readOnly : Bool
  quorum : Bool
  mode : Mode

/-- What the calls of one request to the outside come back with. -/
structure Outcome where
  dev : Dev
  counterErr : Option String
  syncErr : Option String
  pingErr : Option String
  sendErr : Bool

/-- `createResponse`. The payload of a read is never `nil`. -/
def createResponse (count : ℕ) (msg : Message) (err : Option String) : Except Panic Message :=
  let size : Int64 := Int64.ofNat msg.data.length
  let data := if msg.type = typeWrite then [] else msg.data
  let isNil := data = [] ∧ msg.type ≠ typeRead
  let msg := { msg with magicVersion := Jiva.magicVersion, size := size, data := data,
                        type := typeResponse }
  match err with
  | none => .ok msg
  | some e =>
    if e = "EOF" then do
      let data ← if isNil then .ok [] else slice msg.data 0 count
      return { msg with type := typeEOF, data := data, size := Int64.ofNat data.length }
    else
      let data := e.toUTF8.data.toList
      .ok { msg with type := typeError, data := data, size := Int64.ofNat data.length }

/-- The errors of package `os` that are a `PathError` without an `Errno` inside. -/
def noErrno : List String :=
  ["negative offset", "file already closed"]

/-- `isIOError`, for the error of a read or a write. The texts stand for the errors. -/
def isIOError : Option String → Except Panic Bool
  | none => .ok false
  | some e => if e ∈ noErrno then .error .typeAssertion else .ok (decide (e = ioError))

namespace Served

/-- `Replica.ReadAt`. -/
def readAt (o : Outcome) (s : Served) (buf : List Byte) (offset : ℤ) :
    Except Panic Volume.ReadResult :=
  Checked.readAt o.dev s.volume buf offset

/-- `Replica.WriteAt` after the write. -/
def afterWrite (o : Outcome) (s : Served) (w : Volume.WriteResult) : Volume.WriteResult :=
  if w.err.isSome then w
  else if s.mode = .rw then { w with err := o.counterErr }
  else if s.mode = .wo then w
  else { w with err := some ("write happening on invalid rep state " ++ s.mode.text) }

/-- `Replica.WriteAt`. The counter is increased after a write in mode `RW`. A replica of type quorum
does not write, and it does not look at its mode either : the variable for it is still empty. -/
def writeAt (o : Outcome) (s : Served) (buf : List Byte) (offset : ℤ) :
    Except Panic Volume.WriteResult :=
  if s.readOnly then .ok ⟨s.volume, 0, some "Can not write on read-only replica"⟩
  else if s.quorum then .ok ⟨s.volume, 0, some "write happening on invalid rep state "⟩
  else do
    let w ← Checked.writeAt o.dev s.volume buf offset
    return s.afterWrite o w

/-- `Replica.Sync`. -/
def sync (o : Outcome) (s : Served) : Option String :=
  if s.readOnly then some "Can not sync on read-only replica"
  else if s.quorum then none else o.syncErr

/-- `Replica.Unmap`. The kernel rejects a negative offset or length as it rejects an empty range. -/
def unmap (s : Served) (offset length : ℤ) : Volume × Option String :=
  if s.readOnly then (s.volume, some "Can not sync on read-only replica")
  else if s.quorum then (s.volume, none)
  else
    let r := s.volume.unmap offset.toNat (if offset < 0 then 0 else length.toNat)
    (r.1, r.2.2)

/-- `handleRead` : the replica, the response, and whether the process ends. -/
def handleRead (o : Outcome) (s : Served) (msg : Message) :
    Except Panic (Served × Message × Bool) := do
  let data ← makeSlice msg.size.toInt
  let r ← s.readAt o data msg.offset.toInt
  let msg ← createResponse r.n { msg with data := r.buf } r.err
  let exit ← isIOError r.err
  return ({ s with volume := r.v }, msg, exit)

/-- `handleWrite`. -/
def handleWrite (o : Outcome) (s : Served) (msg : Message) :
    Except Panic (Served × Message × Bool) := do
  let w ← s.writeAt o msg.data msg.offset.toInt
  let msg ← createResponse w.n msg w.err
  let exit ← isIOError w.err
  return ({ s with volume := w.v }, msg, exit)

/-- `handlePing`. -/
def handlePing (o : Outcome) (s : Served) (msg : Message) :
    Except Panic (Served × Message × Bool) := do
  let msg ← createResponse 0 msg o.pingErr
  return (s, msg, false)

/-- `handleSync`. Its errors are no `PathError`, so `isIOError` says no. -/
def handleSync (o : Outcome) (s : Served) (msg : Message) :
    Except Panic (Served × Message × Bool) := do
  let msg ← createResponse 0 msg (s.sync o)
  return (s, msg, false)

/-- `handleUnmap`. Its errors are no `PathError` either. -/
def handleUnmap (s : Served) (msg : Message) : Except Panic (Served × Message × Bool) := do
  let r := s.unmap msg.offset.toInt msg.size.toInt
  let msg ← createResponse 0 msg r.2
  return ({ s with volume := r.1 }, msg, false)

/-- The `switch` of `readWrite`. -/
def handle (o : Outcome) (s : Served) (msg : Message) : Except Panic (Served × Message × Bool) :=
  if msg.type = typeRead then s.handleRead o msg
  else if msg.type = typeWrite then s.handleWrite o msg
  else if msg.type = typePing then s.handlePing o msg
  else if msg.type = typeSync then s.handleSync o msg
  else if msg.type = typeUnmap then s.handleUnmap msg
  else .ok (s, msg, false)

end Served

/-- How the loop of the server ended, if it did. `logrus.Fatal` ends the process before the response
is sent. -/
inductive Ended where
  | readErr (e : WireError)
  | sendErr
  | fatal
  deriving DecidableEq

/-- `readWrite` on the bytes of a connection, for as many messages as there are outcomes : the
replica, the responses that were sent, and how it ended. -/
def readWrite : List Outcome → Served → List Byte →
    Except Panic (Served × List Message × Option Ended)
  | [], s, _ => .ok (s, [], none)
  | o :: os, s, bs =>
    match Message.read bs with
    | .error e => .ok (s, [], some (.readErr e))
    | .ok (msg, rest) => do
      let (s, response, exit) ← s.handle o msg
      if exit then return (s, [], some .fatal)
      else if o.sendErr then return (s, [], some .sendErr)
      else
        let (s, responses, ended) ← readWrite os s rest
        return (s, response :: responses, ended)

/-! ## Where errors come from -/

/-- The error is no `PathError`, or has an `Errno` inside. -/
def Carries (e : String) : Prop :=
  e ∉ noErrno

instance (e : String) : Decidable (Carries e) :=
  inferInstanceAs (Decidable (e ∉ noErrno))

/-- The files are open, so that the calls of the device fail with an `Errno`. -/
structure Dev.Errnos (dev : Dev) : Prop where
  write : ∀ f off n e, dev.writeErr f off = some (n, e) → Carries e
  read : ∀ f off n e, dev.readErr f off = some (n, e) → Carries e
  fiemap : ∀ f s e, dev.fiemapErr f s = some e → Carries e

theorem carries_of_head {e : String} (h : e.toList.head? = some 'W') : Carries e := by
  intro hmem
  have hcase : e = "negative offset" ∨ e = "file already closed" := by
    simpa [noErrno] using hmem
  rcases hcase with rfl | rfl <;> exact absurd h (by decide)

namespace Volume

variable {dev : Dev} {v : Volume} {buf : List Byte} {offset : ℕ} {e : String}

theorem probe_carries (h : dev.Errnos) (s : ℕ) :
    ∀ i, v.probe dev s i = .error e → Carries e
  | 0, he => nomatch he
  | 1, he => nomatch he
  | i + 2, he => by
    rw [probe] at he
    split at he
    · next e' hf =>
      cases he
      exact h.fiemap _ _ _ hf
    · split_ifs at he
      exact probe_carries h s (i + 1) he

theorem lookup_carries (h : dev.Errnos) {s : ℕ} (he : (v.lookup dev s).2 = .error e) :
    Carries e := by
  unfold lookup at he
  split_ifs at he
  · cases hp : probe dev v s v.target with
    | ok i => simp [hp] at he
    | error e' =>
      simp only [hp] at he
      cases he
      exact probe_carries h s _ hp

theorem readRun_carries (h : dev.Errnos) {i : ℕ} {st : ReadState}
    (he : (readRun dev offset i st).2.2 = some e) : Carries e := by
  unfold readRun at he
  split_ifs at he
  change (readFile dev _ _ _ _).2 = some e at he
  unfold readFile at he
  split at he
  · next n e' hr =>
    cases he
    exact h.read _ _ _ _ hr
  · split_ifs at he
    cases he
    decide

theorem fullReadLoop_carries (h : dev.Errnos) {sectors : ℕ} :
    ∀ {m : ℕ} {st : ReadState}, (fullReadLoop dev offset sectors m st).err = some e → Carries e
  | 0, st, he => readRun_carries h he
  | m + 1, st, he => by
    rw [fullReadLoop] at he
    split at he
    · next v e' hl =>
      cases he
      exact lookup_carries h (by rw [hl])
    · split_ifs at he
      · exact fullReadLoop_carries h he
      · dsimp only at he
        split at he
        · next hr =>
          cases he
          exact readRun_carries h hr
        · exact fullReadLoop_carries h he

theorem fullReadAt_carries (h : dev.Errnos) (he : (v.fullReadAt dev buf offset).err = some e) :
    Carries e := by
  unfold fullReadAt at he
  split_ifs at he
  · cases he
    decide
  · split at he
    · next v e' hl =>
      cases he
      exact lookup_carries h (by rw [hl])
    · exact fullReadLoop_carries h he

theorem andThen_carries {r : ReadResult} {next : Volume → ReadResult}
    (hr : ∀ e, r.err = some e → Carries e) (hnext : ∀ v e, (next v).err = some e → Carries e)
    (he : (r.andThen buf next).err = some e) : Carries e := by
  unfold ReadResult.andThen at he
  split at he
  · next hre =>
    cases he
    exact hr _ hre
  · exact hnext _ _ he

theorem readAt_carries (h : dev.Errnos) (he : (v.readAt dev buf offset).err = some e) :
    Carries e := by
  have hend : ∀ readBuf buf k v e, (readEnd dev readBuf buf offset k v).err = some e →
      Carries e := fun readBuf buf k v e he => by
    unfold readEnd at he
    split_ifs at he
    exact andThen_carries (fun _ => fullReadAt_carries h) (fun _ _ he => by cases he) he
  unfold readAt at he
  dsimp only at he
  split_ifs at he
  · exact fullReadAt_carries h he
  · refine andThen_carries (fun _ => fullReadAt_carries h) (fun v e he => ?_) he
    unfold readRest at he
    split_ifs at he
    exact andThen_carries (fun _ => fullReadAt_carries h) (hend _ _ _) he

theorem fullWriteAt_carries (h : dev.Errnos) (he : (v.fullWriteAt dev buf offset).err = some e) :
    Carries e := by
  unfold fullWriteAt at he
  split_ifs at he
  · cases he
    refine carries_of_head ?_
    simp only [String.toList_append, List.head?_append]
    rfl
  · change (writeFile dev _ _ _ _).2.2 = some e at he
    unfold writeFile at he
    split at he
    · next hw =>
      cases he
      exact h.write _ _ _ _ hw
    · cases he

theorem readModifyWrite_carries (h : dev.Errnos)
    (he : (v.readModifyWrite dev buf offset).err = some e) : Carries e := by
  unfold readModifyWrite at he
  split_ifs at he
  dsimp only at he
  split at he
  · next hr =>
    cases he
    exact fullReadAt_carries h hr
  · exact fullWriteAt_carries h he

theorem writeThen_carries {w : WriteResult} {next : Volume → WriteResult}
    (hw : ∀ e, w.err = some e → Carries e) (hnext : ∀ v e, (next v).err = some e → Carries e)
    (he : (w.andThen next).err = some e) : Carries e := by
  unfold WriteResult.andThen at he
  split at he
  · next hwe =>
    cases he
    exact hw _ hwe
  · exact hnext _ _ he

theorem writeAt_carries (h : dev.Errnos) (he : (v.writeAt dev buf offset).err = some e) :
    Carries e := by
  unfold writeAt at he
  dsimp only at he
  split_ifs at he
  · exact fullWriteAt_carries h he
  · exact readModifyWrite_carries h he
  · refine writeThen_carries (fun _ => readModifyWrite_carries h) (fun v e he => ?_) he
    refine writeThen_carries (fun _ => fullWriteAt_carries h) (fun v e he => ?_) he
    exact writeThen_carries (fun _ => readModifyWrite_carries h) (fun _ _ he => by cases he) he

end Volume

/-! ## The messages a replica survives -/

/-- At this negative offset the read of the first sector fails, and does so before anything is
indexed with the offset. Further below zero a read of two files is rejected with a `PathError`
without an `Errno`. -/
def Volume.FailsBelow (dev : Dev) (v : Volume) (offset : ℤ) : Prop :=
  -sectorSize < offset ∧ v.readable dev 0 = false

/-- A read returns at this offset. -/
def Volume.ReadOk (dev : Dev) (v : Volume) (len : ℕ) (offset : ℤ) : Prop :=
  len = 0 ∨ 0 ≤ offset ∨ v.FailsBelow dev offset

/-- A write returns at this offset : all that it marks is in the table, or it is not aligned and the
read of its first sector fails. -/
def Volume.WriteOk (dev : Dev) (v : Volume) (buf : List Byte) (offset : ℤ) : Prop :=
  buf = [] ∨ 0 ≤ offset ∧ v.InTable (v.marks dev buf offset.toNat) ∨
    offset < 0 ∧ ¬(offset.tmod sectorSize = 0 ∧ (buf.length + offset).tmod sectorSize = 0) ∧
      v.FailsBelow dev offset

/-- The message does no harm to the replica in its present state. -/
structure Message.Harmless (o : Outcome) (s : Served) (msg : Message) : Prop where
  size : msg.type = typeRead → 0 ≤ msg.size.toInt ∧ msg.size.toInt ≤ maxAlloc
  read : msg.type = typeRead → s.volume.ReadOk o.dev msg.size.toInt.toNat msg.offset.toInt
  write : msg.type = typeWrite → s.readOnly ∨ s.quorum ∨
    s.volume.WriteOk o.dev msg.data msg.offset.toInt

/-- The computation returns, and what it returns has `P`. -/
def Returns {α : Type} (P : α → Prop) (x : Except Panic α) : Prop :=
  ∃ a, x = .ok a ∧ P a

theorem Served.afterWrite_v (o : Outcome) (s : Served) (w : Volume.WriteResult) :
    (s.afterWrite o w).v = w.v := by
  unfold Served.afterWrite
  split_ifs <;> rfl

theorem returns_bind {α β : Type} {P : α → Prop} {Q : β → Prop} {x : Except Panic α}
    {f : α → Except Panic β} (hx : Returns P x) (hf : ∀ a, P a → Returns Q (f a)) :
    Returns Q (x >>= f) := by
  obtain ⟨a, rfl, ha⟩ := hx
  exact hf a ha

theorem createResponse_ok {count : ℕ} {err : Option String}
    (h : err = some "EOF" → msg.type = typeWrite ∨ count ≤ msg.data.length) :
    Returns (fun _ => True) (createResponse count msg err) := by
  unfold createResponse
  cases err with
  | none => exact ⟨_, rfl, trivial⟩
  | some e =>
    simp only
    split_ifs with heof hwrite hnil hnil
    · exact ⟨_, rfl, trivial⟩
    · exact (hnil ⟨rfl, by rw [hwrite]; decide⟩).elim
    · exact ⟨_, rfl, trivial⟩
    · have hle : count ≤ msg.data.length := (h (by rw [heof])).resolve_left hwrite
      have hslice := Checked.slice_ofNat msg.data (Nat.zero_le count) hle
      rw [Int.natCast_zero] at hslice
      exact ⟨_, by rw [hslice]; rfl, trivial⟩
    · exact ⟨_, rfl, trivial⟩

theorem below_ok_iff {dev : Dev} (h : dev.Errnos) {v : Volume} {offset : ℤ} :
    (∃ p, Checked.below dev v offset = .ok p ∧ Carries p.2) ↔ v.FailsBelow dev offset := by
  have hcarries : ∀ e, (v.fullReadAt dev Volume.zeroSector 0).err = some e → Carries e :=
    fun e => Volume.fullReadAt_carries h
  unfold Checked.below Volume.FailsBelow Volume.readable
  rw [Nat.zero_mul]
  generalize v.fullReadAt dev Volume.zeroSector 0 = r at hcarries
  split_ifs with hle h2
  · refine ⟨?_, fun h => absurd hle (not_le.2 h.1)⟩
    rintro ⟨_, ⟨⟩, hp⟩
    exact absurd hp (show ¬Carries "negative offset" by decide)
  · exact ⟨nofun, fun h => absurd hle (not_le.2 h.1)⟩
  · cases hr : r.err with
    | none => exact ⟨nofun, nofun⟩
    | some e => exact ⟨fun _ => ⟨not_le.1 hle, rfl⟩, fun _ => ⟨_, rfl, hcarries e hr⟩⟩

section Requests

variable {dev : Dev} {v : Volume} {buf : List Byte} {offset : ℤ}

theorem readAt_returns (hdev : dev.Errnos) (hv : v.InRange) (hbuf : buf.length ≤ maxAlloc)
    (hge : -2 ^ 63 ≤ offset) (hlt : offset < 2 ^ 63) (h : v.ReadOk dev buf.length offset) :
    Returns (fun r => r.v.InRange ∧ ∀ e, r.err = some e → r.n ≤ r.buf.length ∧ Carries e)
      (Checked.readAt dev v buf offset) := by
  by_cases h0 : buf.length = 0
  · exact ⟨⟨v, buf, 0, none⟩, by rw [Checked.readAt, if_pos h0], hv, nofun⟩
  by_cases hneg : 0 ≤ offset
  · obtain ⟨n, rfl⟩ := Int.eq_ofNat_of_zero_le hneg
    exact ⟨_, Checked.readAt_ofNat dev hv hbuf (by omega), Checked.readAt_inRange dev hv buf n,
      fun e he => ⟨Checked.readAt_count he, Volume.readAt_carries hdev he⟩⟩
  · obtain ⟨p, hp, hcarries⟩ := (below_ok_iff hdev).2 ((h.resolve_left h0).resolve_left hneg)
    have hread := Checked.readAt_neg dev hv buf h0 (by omega) hge
    rw [hp] at hread
    refine ⟨_, hread, Checked.below_inRange hv hp, ?_⟩
    rintro _ ⟨⟩
    exact ⟨Nat.zero_le _, hcarries⟩

theorem of_readAt_ok (hdev : dev.Errnos) (hv : v.InRange) (hge : -2 ^ 63 ≤ offset)
    {r : Volume.ReadResult} (h : Checked.readAt dev v buf offset = .ok r)
    (herr : ∀ e, r.err = some e → Carries e) : v.ReadOk dev buf.length offset := by
  by_cases h0 : buf.length = 0
  · exact .inl h0
  by_cases hneg : 0 ≤ offset
  · exact .inr (.inl hneg)
  · rw [Checked.readAt_neg dev hv buf h0 (by omega) hge] at h
    cases hb : Checked.below dev v offset with
    | error e => simp [hb, Except.map] at h
    | ok p =>
      rw [hb] at h
      cases h
      exact .inr (.inr ((below_ok_iff hdev).1 ⟨p, hb, herr _ rfl⟩))

theorem writeAt_returns (hdev : dev.Errnos) (hv : v.InRange) (hbuf : buf.length ≤ maxAlloc)
    (hge : -2 ^ 63 ≤ offset) (hlt : offset < 2 ^ 63) (h : v.WriteOk dev buf offset) :
    Returns (fun w => w.v.InRange ∧ ∀ e, w.err = some e → Carries e)
      (Checked.writeAt dev v buf offset) := by
  by_cases h0 : buf = []
  · exact ⟨⟨v, 0, none⟩, by rw [Checked.writeAt, if_pos (by rw [h0]; rfl)], hv, nofun⟩
  have hlen : buf.length ≠ 0 := fun h => h0 (List.length_eq_zero_iff.1 h)
  rcases h.resolve_left h0 with ⟨hpos, hin⟩ | ⟨hneg, halign, hfails⟩
  · obtain ⟨n, rfl⟩ := Int.eq_ofNat_of_zero_le hpos
    have hw := Checked.writeAt_ofNat dev hv buf hbuf (by omega : n < 2 ^ 63)
    rw [Int.toNat_natCast] at hin
    exact ⟨_, by rw [hw.result, if_pos hin], (hw.kept hin).1, fun _ => Volume.writeAt_carries hdev⟩
  · obtain ⟨p, hp, hcarries⟩ := (below_ok_iff hdev).2 hfails
    have hw := Checked.writeAt_neg dev hv hlen hneg hge
    rw [if_neg halign, hp] at hw
    refine ⟨_, hw, Checked.below_inRange hv hp, ?_⟩
    rintro _ ⟨⟩
    exact hcarries

theorem of_writeAt_ok (hdev : dev.Errnos) (hv : v.InRange) (hbuf : buf.length ≤ maxAlloc)
    (hge : -2 ^ 63 ≤ offset) (hlt : offset < 2 ^ 63) {w : Volume.WriteResult}
    (h : Checked.writeAt dev v buf offset = .ok w) (herr : ∀ e, w.err = some e → Carries e) :
    v.WriteOk dev buf offset := by
  by_cases h0 : buf = []
  · exact .inl h0
  have hlen : buf.length ≠ 0 := fun h => h0 (List.length_eq_zero_iff.1 h)
  by_cases hpos : 0 ≤ offset
  · obtain ⟨n, rfl⟩ := Int.eq_ofNat_of_zero_le hpos
    refine .inr (.inl ⟨hpos, ?_⟩)
    by_contra hout
    rw [Int.toNat_natCast] at hout
    rw [(Checked.writeAt_ofNat dev hv buf hbuf (by omega)).result, if_neg hout] at h
    cases h
  · rw [Checked.writeAt_neg dev hv hlen (by omega) hge] at h
    split_ifs at h with halign
    cases hb : Checked.below dev v offset with
    | error e => simp [hb, Except.map] at h
    | ok p =>
      rw [hb] at h
      cases h
      exact .inr (.inr ⟨by omega, halign, (below_ok_iff hdev).1 ⟨p, hb, herr _ rfl⟩⟩)

end Requests

/-- The calls of a request to the files, which are open, fail with an `Errno`. -/
structure Outcome.Errnos (o : Outcome) : Prop where
  dev : o.dev.Errnos
  counter : ∀ e, o.counterErr = some e → Carries e

theorem isIOError_ok {err : Option String} :
    (∃ exit, isIOError err = .ok exit) ↔ ∀ e, err = some e → Carries e := by
  cases err with
  | none => exact ⟨fun _ => nofun, fun _ => ⟨_, rfl⟩⟩
  | some e =>
    unfold isIOError Carries
    dsimp only
    split_ifs with h
    · exact ⟨nofun, fun hall => absurd h (hall e rfl)⟩
    · refine ⟨fun _ => ?_, fun _ => ⟨_, rfl⟩⟩
      rintro _ ⟨⟩
      exact h

/-- What comes after a write carries its error through, or reports one that has an `Errno`. -/
theorem Served.afterWrite_carries (ho : o.Errnos) (w : Volume.WriteResult) :
    (∀ e, (s.afterWrite o w).err = some e → Carries e) ↔ ∀ e, w.err = some e → Carries e := by
  unfold Served.afterWrite
  split_ifs with hsome hrw hwo
  · rfl
  · simp only [Option.not_isSome_iff_eq_none] at hsome
    rw [hsome]
    exact iff_of_true ho.counter nofun
  · rfl
  · simp only [Option.not_isSome_iff_eq_none] at hsome
    rw [hsome]
    refine iff_of_true ?_ nofun
    rintro _ ⟨⟩
    cases s.mode <;> decide

/-- A message that does no harm is handled, and leaves the volume in range. -/
theorem handle_returns (ho : o.Errnos) (hv : s.volume.InRange) (hlen : msg.data.length < 2 ^ 32)
    (h : msg.Harmless o s) : Returns (fun r => r.1.volume.InRange) (s.handle o msg) := by
  have hge : -2 ^ 63 ≤ msg.offset.toInt := msg.offset.le_toInt
  have hlt : msg.offset.toInt < 2 ^ 63 := msg.offset.toInt_lt
  unfold Served.handle
  split_ifs with hread hwrite hping hsync hunmap
  · obtain ⟨h0, hmax⟩ := h.size hread
    have hmake : Returns (· = List.replicate msg.size.toInt.toNat 0) (makeSlice msg.size.toInt) :=
      ⟨_, if_pos ⟨h0, hmax⟩, rfl⟩
    have hok := h.read hread
    have hlen : (List.replicate msg.size.toInt.toNat (0 : Byte)).length = msg.size.toInt.toNat :=
      List.length_replicate
    have hr := readAt_returns ho.dev hv (hlen.trans_le (by omega)) hge hlt (hlen.symm ▸ hok)
    refine returns_bind hmake ?_
    rintro _ rfl
    refine returns_bind hr fun r hr => ?_
    refine returns_bind (createResponse_ok fun he => .inr (hr.2 _ he).1) fun m _ => ?_
    obtain ⟨exit, hexit⟩ := isIOError_ok.2 fun e he => (hr.2 e he).2
    exact returns_bind ⟨exit, hexit, trivial⟩ fun _ (_ : True) => ⟨_, rfl, hr.1⟩
  · have hw : Returns (fun w => w.v.InRange ∧ ∀ e, w.err = some e → Carries e)
        (s.writeAt o msg.data msg.offset.toInt) := by
      unfold Served.writeAt
      split_ifs with hro hq
      · refine ⟨_, rfl, hv, ?_⟩
        rintro _ ⟨⟩
        decide
      · refine ⟨_, rfl, hv, ?_⟩
        rintro _ ⟨⟩
        decide
      · have hok := ((h.write hwrite).resolve_left hro).resolve_left hq
        have hmax : msg.data.length ≤ maxAlloc := by
          unfold maxAlloc
          omega
        refine returns_bind (writeAt_returns ho.dev hv hmax hge hlt hok) fun w hw => ⟨_, rfl, ?_⟩
        exact ⟨(Served.afterWrite_v o s w).symm ▸ hw.1, (Served.afterWrite_carries ho w).2 hw.2⟩
    refine returns_bind hw fun w hw => ?_
    refine returns_bind (createResponse_ok fun _ => .inl hwrite) fun m _ => ?_
    obtain ⟨exit, hexit⟩ := isIOError_ok.2 hw.2
    exact returns_bind ⟨exit, hexit, trivial⟩ fun _ (_ : True) => ⟨_, rfl, hw.1⟩
  · exact returns_bind (createResponse_ok fun _ => .inr (Nat.zero_le _)) fun m _ => ⟨_, rfl, hv⟩
  · exact returns_bind (createResponse_ok fun _ => .inr (Nat.zero_le _)) fun m _ => ⟨_, rfl, hv⟩
  · refine returns_bind (createResponse_ok fun _ => .inr (Nat.zero_le _)) fun m _ => ⟨_, rfl, ?_⟩
    unfold Served.unmap
    split_ifs
    · exact hv
    · exact hv
    · exact Checked.unmap_inRange hv _ _
    · exact Checked.unmap_inRange hv _ _
  · exact ⟨_, rfl, hv⟩

/-- A message that is handled does no harm. -/
theorem harmless_of_handle {r : Served × Message × Bool} (ho : o.Errnos) (hv : s.volume.InRange)
    (hlen : msg.data.length < 2 ^ 32) (h : s.handle o msg = .ok r) : msg.Harmless o s := by
  have hge : -2 ^ 63 ≤ msg.offset.toInt := msg.offset.le_toInt
  have hlt : msg.offset.toInt < 2 ^ 63 := msg.offset.toInt_lt
  unfold Served.handle at h
  split_ifs at h with hread hwrite
  · obtain ⟨data, hmake, h⟩ := bind_eq_ok h
    obtain ⟨r, hr, h⟩ := bind_eq_ok h
    obtain ⟨_, -, h⟩ := bind_eq_ok h
    obtain ⟨exit, hexit, -⟩ := bind_eq_ok h
    unfold makeSlice at hmake
    split_ifs at hmake with hsize
    cases hmake
    have hok := of_readAt_ok ho.dev hv hge hr (isIOError_ok.1 ⟨exit, hexit⟩)
    rw [List.length_replicate] at hok
    exact ⟨fun _ => hsize, fun _ => hok, fun hw => by rw [hread] at hw; cases hw⟩
  · obtain ⟨w, hw, h⟩ := bind_eq_ok h
    obtain ⟨_, -, h⟩ := bind_eq_ok h
    obtain ⟨exit, hexit, -⟩ := bind_eq_ok h
    refine ⟨fun hr => (hread hr).elim, fun hr => (hread hr).elim, fun _ => ?_⟩
    unfold Served.writeAt at hw
    split_ifs at hw with hro hq
    · exact .inl hro
    · exact .inr (.inl hq)
    · obtain ⟨w', hw', hafter⟩ := bind_eq_ok hw
      cases hafter
      have hcarries := (Served.afterWrite_carries ho w').1 (isIOError_ok.1 ⟨exit, hexit⟩)
      refine .inr (.inr (of_writeAt_ok ho.dev hv ?_ hge hlt hw' hcarries))
      unfold maxAlloc
      omega
  all_goals
    exact ⟨fun hr => (hread hr).elim, fun hr => (hread hr).elim, fun hw => (hwrite hw).elim⟩

/-! ## Whole streams -/

/-- Every message that is read off the stream does no harm to the replica it comes to. -/
def Spared : List Outcome → Served → List Byte → Prop
  | [], _, _ => True
  | o :: os, s, bs =>
    match Message.read bs with
    | .error _ => True
    | .ok (msg, rest) => msg.Harmless o s ∧
        ∀ r, s.handle o msg = .ok r → r.2.2 = false → o.sendErr = false → Spared os r.1 rest

/-- The server gets through the bytes of a connection without a panic if and only if every message
it comes to does no harm. -/
theorem dataServer_survives : ∀ (os : List Outcome) (s : Served) (bs : List Byte),
    s.volume.InRange → (∀ o ∈ os, o.Errnos) →
    ((∃ r, readWrite os s bs = .ok r) ↔ Spared os s bs)
  | [], s, bs, _, _ => ⟨fun _ => trivial, fun _ => ⟨_, rfl⟩⟩
  | o :: os, s, bs, hv, hos => by
    have ho := hos o List.mem_cons_self
    have hos' : ∀ o ∈ os, o.Errnos := fun o' h => hos o' (List.mem_cons_of_mem o h)
    unfold readWrite Spared
    cases hread : Message.read bs with
    | error e => exact ⟨fun _ => trivial, fun _ => ⟨_, rfl⟩⟩
    | ok p =>
      obtain ⟨msg, rest⟩ := p
      have hlen : msg.data.length < 2 ^ 32 := (Message.eq_of_read hread).2.2
      simp only
      constructor
      · rintro ⟨r, h⟩
        obtain ⟨⟨s', response, exit⟩, hhandle, h⟩ := bind_eq_ok h
        have hharm := harmless_of_handle ho hv hlen hhandle
        refine ⟨hharm, fun r' hr' hexit hsend => ?_⟩
        rw [hhandle] at hr'
        cases hr'
        obtain ⟨r', heq, hv'⟩ := handle_returns ho hv hlen hharm
        rw [hhandle] at heq
        cases heq
        obtain rfl : exit = false := hexit
        simp only [hsend, Bool.false_eq_true, if_false] at h
        obtain ⟨r', hrest, -⟩ := bind_eq_ok h
        exact (dataServer_survives os s' rest hv' hos').1 ⟨r', hrest⟩
      · rintro ⟨hharm, hnext⟩
        obtain ⟨⟨s', response, exit⟩, hhandle, hv'⟩ := handle_returns ho hv hlen hharm
        rw [hhandle]
        cases exit with
        | true => exact ⟨_, by simp only [bind, Except.bind, if_true]; rfl⟩
        | false =>
          cases hsend : o.sendErr with
          | true =>
            exact ⟨_, by simp only [bind, Except.bind, Bool.false_eq_true, if_false, if_true]; rfl⟩
          | false =>
            obtain ⟨r, hr⟩ :=
              (dataServer_survives os s' rest hv' hos').2 (hnext _ hhandle rfl hsend)
            exact ⟨_, by simp only [bind, Except.bind, Bool.false_eq_true, if_false, hr]; rfl⟩

/-- A new volume is in range if its table can be allocated. -/
theorem new_inRange {sectors f : ℕ} (h : 2 * sectors ≤ maxAlloc) :
    (Volume.new sectors f).InRange where
  two_le := le_rfl
  le_u16 := by simp [Volume.new]
  location_le _ _ := Nat.zero_le _
  table := h
  sizes _ := by
    simp only [Volume.new, SparseFile.empty]
    unfold maxAlloc defaultSectorSize at *
    omega

/-- One byte is written into a volume of one sector. -/
theorem dataServer_survives_write :
    let s : Served := ⟨Volume.new 1 1, false, false, .rw⟩
    let msg : Message := ⟨magicVersion, 1, typeWrite, 5, 0, [7]⟩
    ∃ r, readWrite [⟨Dev.ok, none, none, none, false⟩] s msg.write = .ok r := by
  intro s msg
  have hok : ∀ o ∈ [(⟨Dev.ok, none, none, none, false⟩ : Outcome)], o.Errnos := fun o ho => by
    obtain rfl := List.mem_singleton.1 ho
    exact ⟨⟨nofun, nofun, nofun⟩, nofun⟩
  refine (dataServer_survives _ s msg.write (new_inRange (by decide)) hok).2 ?_
  have hread := Message.read_write (show msg.Fits from ⟨rfl, by decide⟩) []
  rw [List.append_nil] at hread
  unfold Spared
  rw [hread]
  refine ⟨⟨nofun, nofun, fun _ => .inr (.inr (.inr (.inl ⟨by decide, fun r hr => ?_⟩)))⟩,
    fun _ _ _ _ => trivial⟩
  have hoffset : msg.offset.toInt.toNat = 5 := rfl
  have hmarks : s.volume.marks Dev.ok [7] 5 = s.volume.modifyMarks Dev.ok [7] 5 := by
    unfold Volume.marks
    rw [if_neg (by decide), if_neg (by decide), if_pos (by decide)]
  rw [hoffset, hmarks] at hr
  unfold Volume.modifyMarks at hr
  split_ifs at hr
  · rw [List.mem_singleton.1 hr]
    decide
  · exact (List.not_mem_nil hr).elim

theorem handleRead_error {data : List Byte} {e : Panic}
    (hmake : makeSlice msg.size.toInt = .ok data)
    (hr : Checked.readAt o.dev s.volume data msg.offset.toInt = .error e) :
    s.handleRead o msg = .error e := by
  unfold Served.handleRead Served.readAt
  rw [hmake]
  simp only [bind, Except.bind, hr]

/-- The response is made before the error is looked at. -/
theorem handleRead_assertion {data : List Byte} {r : Volume.ReadResult} {e : String}
    (hmake : makeSlice msg.size.toInt = .ok data)
    (hr : Checked.readAt o.dev s.volume data msg.offset.toInt = .ok r) (hre : r.err = some e)
    (he : e ∈ noErrno) : s.handleRead o msg = .error .typeAssertion := by
  unfold Served.handleRead Served.readAt
  rw [hmake]
  simp only [bind, Except.bind, hr, hre, isIOError, if_pos he]
  have hne : e ≠ "EOF" := fun h => absurd (h ▸ he) (by decide)
  rw [createResponse]
  simp only [if_neg hne]

theorem handleWrite_error {e : Panic} (hw : s.writeAt o msg.data msg.offset.toInt = .error e) :
    s.handleWrite o msg = .error e := by
  unfold Served.handleWrite
  rw [hw]
  rfl

/-- Four messages that end the process of a replica with one sector : a read of size `-1`, a write
of a whole sector right behind the end, a read of the byte below zero, and a read of the byte that
is a sector below zero. -/
theorem dataServer_panics :
    let s : Served := ⟨Volume.new 1 1, false, false, .rw⟩
    let o : Outcome := ⟨Dev.ok, none, none, none, false⟩
    s.volume.InRange ∧
    readWrite [o] s (Message.write ⟨magicVersion, 1, typeRead, 0, -1, []⟩) = .error .makeSlice ∧
    readWrite [o] s (Message.write ⟨magicVersion, 1, typeWrite, 4096, 0, Volume.zeroSector⟩) =
      .error .indexOutOfRange ∧
    readWrite [o] s (Message.write ⟨magicVersion, 1, typeRead, -1, 1, []⟩) = .error .sliceBounds ∧
    readWrite [o] s (Message.write ⟨magicVersion, 1, typeRead, -4096, 1, []⟩) =
      .error .typeAssertion := by
  intro s o
  have hv : s.volume.InRange := new_inRange (by decide)
  have hone : ∀ msg : Message, msg.Fits → ∀ e, s.handle o msg = .error e →
      readWrite [o] s msg.write = .error e := by
    intro msg hfits e he
    have hread := Message.read_write hfits []
    rw [List.append_nil] at hread
    rw [readWrite, hread]
    simp only [he, bind, Except.bind]
  refine ⟨hv, hone _ ⟨rfl, by decide⟩ _ rfl, hone _ ⟨rfl, ?_⟩ _ ?_, hone _ ⟨rfl, by decide⟩ _ ?_,
    hone _ ⟨rfl, by decide⟩ _ ?_⟩
  · rw [Volume.length_zeroSector]
    decide
  · have hmarks : s.volume.marks Dev.ok Volume.zeroSector 4096 = [(1, 1)] := by
      unfold Volume.marks
      simp only [Volume.length_zeroSector]
      rw [if_neg (by decide), if_pos (by decide)]
      rfl
    have hw := (Checked.writeAt_ofNat Dev.ok hv Volume.zeroSector
      (by rw [Volume.length_zeroSector]; decide) (by decide : 4096 < 2 ^ 63)).result
    rw [hmarks, if_neg (by decide)] at hw
    refine handleWrite_error ?_
    show s.writeAt o Volume.zeroSector (4096 : ℕ) = _
    unfold Served.writeAt
    rw [hw]
    rfl
  · have hfirst := (Volume.fullReadAt_spec Dev.ok (Volume.new_chainOk 1 Nat.one_ne_zero)
      (Volume.new_locationOk 1 1) Volume.zeroSector 0 (by rw [Volume.length_zeroSector]; decide)
      (by decide) (by rw [Volume.length_zeroSector]; decide)).ok rfl
    have hr := Checked.readAt_neg Dev.ok (v := Volume.new 1 1) hv [0] (by decide)
      (by decide : (-1 : ℤ) < 0) (by decide)
    rw [Checked.below_of_readable (by decide) hfirst] at hr
    exact handleRead_error rfl (show Checked.readAt Dev.ok (Volume.new 1 1) [0] (-1) = _ from hr)
  · have hr := Checked.readAt_neg Dev.ok (v := Volume.new 1 1) hv [0] (by decide)
      (by decide : (-4096 : ℤ) < 0) (by decide)
    have htwo : (Volume.new 1 1).files.length = 2 := rfl
    rw [Checked.below, if_pos (by decide), if_pos htwo] at hr
    have hok : Checked.readAt Dev.ok (Volume.new 1 1) [0] (-4096) =
        .ok ⟨Volume.new 1 1, [0], 0, some "negative offset"⟩ := hr
    exact handleRead_assertion rfl hok rfl (by decide)

end Jiva
