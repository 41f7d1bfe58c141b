import Jiva.Framing
import Jiva.SparseFile

/-!
# The wire format of the data connection

A message between the controller and a replica is the protocol version, a sequence number, a type,
an offset, a size and a payload. `Message.write` puts the fields on the wire one after the other in
little-endian order, the payload behind its length, and flushes the buffered writer, so that the
stream is the concatenation of the encodings. `Message.read` takes them off again field by field. It
gives up at the first field for which the stream is too short, and right after the version if that
is not its own. The bytes of a message whose read failed are gone, and both sides close the
connection.

`Message.framed` is the law of the format, and `wire_framing` puts what follows from it together.
-/

namespace Jiva

open Framing

/-- `Jiva03`. -/
def magicVersion : UInt16 := 0x1b03

/-! ## Message types -/

def typeRead : UInt32 := 0
def typeWrite : UInt32 := 1
def typeResponse : UInt32 := 2
def typeError : UInt32 := 3
def typeEOF : UInt32 := 4
def typePing : UInt32 := 6
def typeSync : UInt32 := 8
def typeUnmap : UInt32 := 9

/-- A message, as far as it is on the wire. An absent payload is the empty one. -/
structure Message where
  magicVersion : UInt16
  seq : UInt32
  type : UInt32
  offset : Int64
  size : Int64
  data : List Byte
  deriving DecidableEq

/-- How a read fails. A wrong version comes with the message that has only that field. -/
inductive WireError where
  | short (e : Short)
  | wrongVersion (version : UInt16)
  deriving DecidableEq

namespace Message

/-- The length of the payload, as it is on the wire. -/
def length (msg : Message) : UInt32 :=
  UInt32.ofNat msg.data.length

def write (msg : Message) : List Byte :=
  uint16.put msg.magicVersion ++ uint32.put msg.seq ++ uint32.put msg.type ++
    int64.put msg.offset ++ int64.put msg.size ++ uint32.put msg.length ++ msg.data

/-- The payload of `length` bytes. Nothing is read if there is none. -/
def readData (length : UInt32) (bs : List Byte) : Except Short (List Byte × List Byte) :=
  if 0 < length then readFull length.toNat bs else .ok ([], bs)

/-- The fields behind the version. -/
def readFields (version : UInt16) (bs : List Byte) : Except Short (Message × List Byte) := do
  let (seq, bs) ← uint32.get bs
  let (type, bs) ← uint32.get bs
  let (offset, bs) ← int64.get bs
  let (size, bs) ← int64.get bs
  let (length, bs) ← uint32.get bs
  let (data, bs) ← readData length bs
  return (⟨version, seq, type, offset, size, data⟩, bs)

def read (bs : List Byte) : Except WireError (Message × List Byte) :=
  match uint16.get bs with
  | .error e => .error (.short e)
  | .ok (version, bs) =>
    if version ≠ Jiva.magicVersion then .error (.wrongVersion version)
    else (readFields version bs).mapError .short

/-- The messages the format is for : the version is the own one, and the length of the payload fits
its field. -/
def Fits (msg : Message) : Prop :=
  msg.magicVersion = Jiva.magicVersion ∧ msg.data.length < 2 ^ 32

/-! ## What was written is read back -/

theorem readData_append {data : List Byte} (h : data.length < 2 ^ 32) (rest : List Byte) :
    readData (UInt32.ofNat data.length) (data ++ rest) = .ok (data, rest) := by
  have hlen : (UInt32.ofNat data.length).toNat = data.length := UInt32.toNat_ofNat_of_lt' h
  unfold readData
  split
  · exact readFull_append hlen.symm rest
  · rename_i hzero
    rw [UInt32.lt_iff_toNat_lt, hlen] at hzero
    have hnil : data = [] := List.length_eq_zero_iff.1 (by simpa using hzero)
    rw [hnil, List.nil_append]

theorem readFields_write {msg : Message} (h : msg.Fits) (rest : List Byte) :
    readFields msg.magicVersion (uint32.put msg.seq ++ (uint32.put msg.type ++
      (int64.put msg.offset ++ (int64.put msg.size ++ (uint32.put msg.length ++
        (msg.data ++ rest)))))) = .ok (msg, rest) := by
  simp only [readFields, Word.get_put, bind, Except.bind, length, readData_append h.2,
    pure, Except.pure]

theorem read_write {msg : Message} (h : msg.Fits) (rest : List Byte) :
    read (msg.write ++ rest) = .ok (msg, rest) := by
  simp only [read, write, List.append_assoc, Word.get_put, readFields_write h rest]
  rw [if_neg (not_not.2 h.1)]
  rfl

/-! ## What is read was written -/

theorem eq_of_readData {length : UInt32} {bs data rest : List Byte}
    (h : readData length bs = .ok (data, rest)) :
    bs = data ++ rest ∧ data.length = length.toNat := by
  unfold readData at h
  split at h
  · exact readFull_eq_ok h
  · rename_i hzero
    obtain ⟨rfl, rfl⟩ := Prod.mk.inj (Except.ok.inj h)
    rw [UInt32.lt_iff_toNat_lt] at hzero
    exact ⟨rfl, (by simpa using hzero : length.toNat = 0).symm⟩

theorem eq_of_readFields {version : UInt16} {bs rest : List Byte} {msg : Message}
    (h : readFields version bs = .ok (msg, rest)) :
    uint16.put version ++ bs = msg.write ++ rest ∧ msg.magicVersion = version ∧
    msg.data.length < 2 ^ 32 := by
  obtain ⟨⟨seq, bs₁⟩, h₁, h⟩ := bind_eq_ok h
  obtain ⟨⟨type, bs₂⟩, h₂, h⟩ := bind_eq_ok h
  obtain ⟨⟨offset, bs₃⟩, h₃, h⟩ := bind_eq_ok h
  obtain ⟨⟨size, bs₄⟩, h₄, h⟩ := bind_eq_ok h
  obtain ⟨⟨length, bs₅⟩, h₅, h⟩ := bind_eq_ok h
  obtain ⟨⟨data, bs₆⟩, h₆, h⟩ := bind_eq_ok h
  obtain ⟨rfl, rfl⟩ := Prod.mk.inj (Except.ok.inj h)
  obtain ⟨hdata, hlen⟩ := eq_of_readData h₆
  refine ⟨?_, rfl, hlen ▸ length.toNat_lt⟩
  simp only [Word.eq_of_get _ h₁, Word.eq_of_get _ h₂, Word.eq_of_get _ h₃, Word.eq_of_get _ h₄,
    Word.eq_of_get _ h₅, hdata, write, Message.length, hlen, UInt32.ofNat_toNat, List.append_assoc]

theorem eq_of_read {bs rest : List Byte} {msg : Message} (h : read bs = .ok (msg, rest)) :
    bs = msg.write ++ rest ∧ msg.Fits := by
  unfold read at h
  split at h
  · cases h
  · rename_i version left hversion
    split at h
    · cases h
    · rename_i hown
      cases hfields : readFields version left with
      | error e => simp [hfields, Except.mapError] at h
      | ok p =>
        have hp : p = (msg, rest) := Except.ok.inj (by rwa [hfields] at h)
        obtain ⟨hbytes, hver, hlen⟩ := eq_of_readFields (hp ▸ hfields)
        refine ⟨?_, hver.trans (not_not.1 hown), hlen⟩
        rw [Word.eq_of_get _ hversion, hbytes]

/-- Writing and reading messages frame the stream. -/
theorem framed : Framed read write Fits where
  read_write _ rest h := read_write h rest
  eq_write _ _ _ h := eq_of_read h

end Message

/-- The stream of the encodings of messages is read back as these messages and then is at its end.
Cut off at any point, it gives the messages that are there completely and then an error. And
whatever is read from any stream is what the stream starts with the encodings of. -/
theorem wire_framing (msgs : List Message) (h : ∀ msg ∈ msgs, msg.Fits) :
    (∀ n, msgs.length < n →
      readMany Message.read n (msgs.flatMap Message.write) = (msgs, some (.short .eof), [])) ∧
    (∀ cut, cut <+: msgs.flatMap Message.write → cut ≠ msgs.flatMap Message.write →
      ∃ whole msg later piece e, msgs = whole ++ msg :: later ∧
        cut = whole.flatMap Message.write ++ piece ∧ piece <+: msg.write ∧ piece ≠ msg.write ∧
        ∀ n, whole.length < n → readMany Message.read n cut = (whole, some e, piece)) ∧
    (∀ n bs, (readMany Message.read n bs).1.flatMap Message.write ++
      (readMany Message.read n bs).2.2 = bs ∧ ∀ msg ∈ (readMany Message.read n bs).1, msg.Fits) :=
  ⟨fun _ hn => Message.framed.readMany_flatMap rfl h hn,
    fun _ hcut hne => Message.framed.readMany_cut h hcut hne, Message.framed.flatMap_readMany⟩

/-- Two messages, one with a payload and a negative offset, with each field at its place in the
stream. -/
theorem wire_framing_two :
    let ping : Message := ⟨magicVersion, 7, typePing, 0, 0, []⟩
    let write : Message := ⟨magicVersion, 0x01020304, typeWrite, -1, 2, [10, 20]⟩
    write.write = [0x03, 0x1b, 4, 3, 2, 1, 1, 0, 0, 0, 255, 255, 255, 255, 255, 255, 255, 255,
      2, 0, 0, 0, 0, 0, 0, 0, 2, 0, 0, 0, 10, 20] ∧
    readMany Message.read 3 (ping.write ++ write.write) =
      ([ping, write], some (.short .eof), []) := by
  refine ⟨by decide, ?_⟩
  exact (wire_framing [_, _] (by simp [Message.Fits])).1 3 (by decide)

end Jiva
