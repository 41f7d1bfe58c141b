import Jiva.DataServer
import Jiva.Runs

/-!
# The client and the server of the data connection

`Client` of `rpc/client.go` has one goroutine that owns the map of pending requests (`loop`), one
that writes and one that reads, with a channel to each of them. The server handles one request at a
time. `Rpc` is all of it together : the operations that were called, the channels, the pending map,
both directions of the connection, and where each goroutine is. The steps are those of the
goroutines, in any order, with time-outs, and with failures of the connection at either end.

A request is a pointer. The writer reads the message when it takes it from its channel, and
`replyError` overwrites it in place, so the content is in a heap and the channels hold the number of
the operation.

The connection delivers messages in order and unchanged, which is what `wire_framing` says for
payloads that fit their length field. What the data processor returns is up to the step. The
messages in the connection carry the number of the operation they belong to, which no part of the
program looks at : the client finds the request of a response by its sequence number.
-/

namespace Jiva

open Framing

/-! ## Operations -/

/-- The calls of the client. The length of a slice is an `int`. -/
inductive Call where
  | readAt (len : ℕ) (h : len < 2 ^ 63) (offset : Int64)
  | writeAt (buf : List Byte) (h : buf.length < 2 ^ 63) (offset : Int64)
  | sync
  | unmap (offset length : Int64)
  | ping

namespace Call

/-- The message that `operation` makes. -/
def message : Call → Message
  | readAt len _ offset => ⟨0, 0, typeRead, offset, Int64.ofNat len, []⟩
  | writeAt buf _ offset => ⟨0, 0, typeWrite, offset, Int64.ofNat buf.length, buf⟩
  | sync => ⟨0, 0, typeSync, 0, 0, []⟩
  | unmap offset length => ⟨0, 0, typeUnmap, offset, length, []⟩
  | ping => ⟨0, 0, typePing, 0, 0, []⟩

/-- The message with the fields that `handleRequest` sets. -/
def request (c : Call) (seq : UInt32) : Message :=
  { c.message with magicVersion := Jiva.magicVersion, seq := seq }

/-- Bytes that `operation` copies to the front of the caller's buffer. -/
def copied (c : Call) (msg : Message) : List Byte :=
  match c with
  | readAt len _ _ =>
    if msg.type = typeResponse ∨ msg.type = typeEOF then msg.data.take len else []
  | _ => []

end Call

/-- Errors an operation returns. -/
inductive RpcError where
  | eof
  | other (text : List Byte)
  deriving DecidableEq

def RpcError.ofString (e : String) : RpcError :=
  .other e.toUTF8.data.toList

/-- What an operation returns, with the bytes copied into the caller's buffer. -/
structure OpResult where
  n : ℤ
  data : List Byte
  err : Option RpcError
  deriving DecidableEq

/-- The operation failed. The end of the file is not a failure. -/
def OpResult.failed (r : OpResult) : Bool :=
  match r.err with
  | some (.other _) => true
  | _ => false

/-- What `operation` makes of a completed message. -/
def Call.result (c : Call) (msg : Message) : OpResult :=
  if msg.type = typeError then ⟨0, c.copied msg, some (.other msg.data)⟩
  else if msg.type = typeEOF then ⟨msg.size.toInt, c.copied msg, some .eof⟩
  else ⟨msg.size.toInt, c.copied msg, none⟩

/-! ## The data processor -/

/-- What the data processor returns for a request : the bytes it put into the buffer of a read, the
count and the error. -/
structure Answer where
  buf : List Byte
  n : ℕ
  err : Option String

/-- The buffer of a read after the call. -/
def Answer.fill (a : Answer) (data : List Byte) : List Byte :=
  a.buf.take data.length ++ data.drop a.buf.length

/-- The handlers of the server, for this answer of the data processor. -/
def respond (msg : Message) (a : Answer) : Except Panic Message :=
  if msg.type = typeRead then do
    let data ← makeSlice msg.size.toInt
    createResponse a.n { msg with data := a.fill data } a.err
  else if msg.type = typeWrite then createResponse a.n msg a.err
  else if msg.type = typePing ∨ msg.type = typeSync ∨ msg.type = typeUnmap then
    createResponse 0 msg a.err
  else .ok msg

/-- The server calls the data processor for messages of this type. -/
def Message.Processed (msg : Message) : Prop :=
  msg.type = typeRead ∨ msg.type = typeWrite ∨ msg.type = typePing ∨ msg.type = typeSync ∨
    msg.type = typeUnmap

instance (msg : Message) : Decidable msg.Processed := by
  unfold Message.Processed
  infer_instance

/-! ## The state -/

/-- Where an operation is. -/
inductive OpStage where
  /-- not called -/
  | none
  /-- past the check of the error of the client -/
  | checked
  /-- in the `select` -/
  | waiting
  | returned
  deriving DecidableEq

/-- Where the goroutine `loop` is. -/
inductive LoopStage where
  | running
  /-- in the loop of `handleResponse` over what is pending -/
  | terminating
  | exited
  deriving DecidableEq

/-- What is in the channel of responses. -/
inductive Incoming where
  | transport (e : String)
  | message (id : ℕ) (msg : Message)

def Incoming.id : Incoming → Option ℕ
  | transport _ => none
  | message id _ => some id

/-- The client, the connection and the server. Operation `i` is the `i`-th call. The last four lists
are records : the numbers of the operations in the order in which they got their sequence number, in
the order in which they were put on the wire, what was pending at the moment of the transport error,
and the answers of the data processor. -/
structure Rpc where
  calls : List Call
  stage : ℕ → OpStage
  heap : ℕ → Message
  requests : List ℕ
  send : List ℕ
  responses : List Incoming
  pending : List (UInt32 × ℕ)
  seq : UInt32
  err : Option String
  loop : LoopStage
  writing : Bool
  reading : Bool
  serving : Bool
  toServer : List (ℕ × Message)
  toClient : List (ℕ × Message)
  complete : List ℕ
  returned : List (ℕ × OpResult)
  issued : List ℕ
  written : List ℕ
  struck : List ℕ
  served : List (ℕ × Answer)

/-- `NewClient` with a server on the other side. -/
def Rpc.init : Rpc where
  calls := []
  stage _ := .none
  heap _ := ⟨0, 0, 0, 0, 0, []⟩
  requests := []
  send := []
  responses := []
  pending := []
  seq := 0
  err := none
  loop := .running
  writing := true
  reading := true
  serving := true
  toServer := []
  toClient := []
  complete := []
  returned := []
  issued := []
  written := []
  struck := []
  served := []

/-! ## The steps -/

namespace Rpc

/-- Overwrite the message of an operation. -/
def setMessage (s : Rpc) (id : ℕ) (msg : Message) : Rpc :=
  { s with heap := Function.update s.heap id msg }

def setStage (s : Rpc) (id : ℕ) (stage : OpStage) : Rpc :=
  { s with stage := Function.update s.stage id stage }

/-- `delete(c.messages, seq)`. -/
def delete (s : Rpc) (seq : UInt32) : Rpc :=
  { s with pending := s.pending.filter fun p => p.1 ≠ seq }

/-- `req.Complete <- struct{}{}`. -/
def completed (s : Rpc) (id : ℕ) : Rpc :=
  { s with complete := s.complete ++ [id] }

/-- `operation` returns. -/
def return_ (s : Rpc) (id : ℕ) (r : OpResult) : Rpc :=
  { s.setStage id .returned with returned := s.returned ++ [(id, r)] }

/-- `SetError`. -/
def setError (s : Rpc) (e : String) : Rpc :=
  { s with responses := s.responses ++ [.transport e] }

/-- `replyError`, for the error `e` of the client. -/
def replyError (s : Rpc) (e : String) (id : ℕ) : Rpc :=
  ((s.delete (s.heap id).seq).setMessage id
    { s.heap id with type := typeError, data := e.toUTF8.data.toList }).completed id

/-- `handleRequest`. -/
def handleRequest (s : Rpc) (id : ℕ) : Rpc :=
  match s.err with
  | some e => s.replyError e id
  | none =>
    let seq := s.seq + 1
    let s := s.setMessage id { s.heap id with magicVersion := Jiva.magicVersion, seq := seq }
    { s with
      seq := seq
      pending := (seq, id) :: (s.delete seq).pending
      send := s.send ++ [id]
      issued := s.issued ++ [id] }

/-- `handleResponse` for a message from the connection. -/
def handleMessage (s : Rpc) (resp : Message) : Rpc :=
  match s.pending.find? fun p => p.1 = resp.seq with
  | none => s
  | some (_, id) =>
    match s.err with
    | some e => s.replyError e id
    | none =>
      ((s.delete resp.seq).setMessage id
        { s.heap id with type := resp.type, size := resp.size, data := resp.data }).completed id

/-- `handleResponse` and the check of `loop` after it. A transport error is noted, and what is
pending at this moment is going to be terminated. -/
def handleResponse (s : Rpc) : Incoming → Rpc
  | .transport e => { s with err := some e, loop := .terminating, struck := s.pending.map Prod.snd }
  | .message _ msg =>
    let s := s.handleMessage msg
    if s.err.isSome then { s with loop := .exited } else s

/-- The message with which an operation of this type times out. -/
def timeoutError (msg : Message) : String :=
  if msg.type = typePing then "Ping timeout" else "r/w timeout"

/-- The text of an operation that was called too late. -/
def refused (e : String) : OpResult :=
  ⟨0, [], some (.ofString e)⟩

end Rpc

/-- The steps of the goroutines. -/
inductive RpcOp where
  /-- An operation is called, and checks the error of the client. -/
  | call (c : Call)
  /-- It puts its message into the channel of requests. -/
  | push (id : ℕ)
  /-- `loop` takes a request. -/
  | takeRequest
  /-- `loop` takes a response. -/
  | takeResponse
  /-- `loop` replies the error to a pending request, after a transport error. -/
  | terminate (id : ℕ)
  /-- `loop` returns when all of them have their reply. -/
  | exit
  /-- The writer puts a message on the wire. -/
  | write
  /-- The write fails, and the writer returns. -/
  | writeFails (e : String)
  /-- The reader passes a message on. -/
  | read
  /-- The read fails, and the reader returns. -/
  | readFails (e : String)
  /-- The server handles a message, and sends the response or fails to. -/
  | serve (a : Answer) (sent : Bool)
  /-- The server stops. -/
  | stop
  /-- An operation finds its message completed. -/
  | wake (id : ℕ)
  /-- An operation times out. -/
  | timeout (id : ℕ)

namespace Rpc

def step (s : Rpc) : RpcOp → Option Rpc
  | .call c =>
    let id := s.calls.length
    let s' := { s with calls := s.calls ++ [c], heap := Function.update s.heap id c.message }
    match s.err with
    | some e => some (s'.return_ id (refused e))
    | none => some (s'.setStage id .checked)
  | .push id =>
    if s.stage id = .checked then
      some { s.setStage id .waiting with requests := s.requests ++ [id] }
    else none
  | .takeRequest =>
    match s.loop, s.requests with
    | .running, id :: rest => some ({ s with requests := rest }.handleRequest id)
    | _, _ => none
  | .takeResponse =>
    match s.loop, s.responses with
    | .running, resp :: rest => some ({ s with responses := rest }.handleResponse resp)
    | _, _ => none
  | .terminate id =>
    match s.loop, s.err with
    | .terminating, some e => if id ∈ s.pending.map Prod.snd then some (s.replyError e id) else none
    | _, _ => none
  | .exit =>
    if s.loop = .terminating ∧ s.pending = [] then some { s with loop := .exited } else none
  | .write =>
    match s.writing, s.send with
    | true, id :: rest => some { s with
        send := rest, toServer := s.toServer ++ [(id, s.heap id)], written := s.written ++ [id] }
    | _, _ => none
  | .writeFails e =>
    match s.writing, s.send with
    | true, _ :: rest => some ({ s with send := rest, writing := false }.setError e)
    | _, _ => none
  | .read =>
    match s.reading, s.toClient with
    | true, (id, msg) :: rest => some { s with
        toClient := rest, responses := s.responses ++ [.message id msg] }
    | _, _ => none
  | .readFails e =>
    if s.reading then some ({ s with reading := false }.setError e) else none
  | .serve a sent =>
    match s.serving, s.toServer with
    | true, (id, msg) :: rest =>
      match respond msg a with
      | .error _ => some { s with toServer := rest, serving := false }
      | .ok resp => some { s with
          toServer := rest
          toClient := if sent then s.toClient ++ [(id, resp)] else s.toClient
          serving := sent
          served := if msg.Processed then s.served ++ [(id, a)] else s.served }
    | _, _ => none
  | .stop => some { s with serving := false }
  | .wake id =>
    match s.stage id, s.calls[id]? with
    | .waiting,
        some c => if id ∈ s.complete then some (s.return_ id (c.result (s.heap id))) else none
    | _, _ => none
  | .timeout id =>
    if s.stage id = .waiting then
      some ((s.setError (timeoutError (s.heap id))).return_ id (refused (timeoutError (s.heap id))))
    else none

/-- What the steps of a run have to meet : no request stays pending while `2 ^ 32` later ones get
their sequence number. -/
def Good (s : Rpc) : RpcOp → Prop
  | .takeRequest => ∀ p ∈ s.issued.zipIdx, p.1 ∈ s.pending.map Prod.snd →
      s.issued.length - p.2 < 2 ^ 32
  | _ => True

end Rpc

end Jiva
