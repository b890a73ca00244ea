import Kids.Buffer.Outgoing
import Kids.Client.Request
import Kids.Message
import Kids.Util.Protocol

/-!
`NetworkStore::Agent`: the connection on which one kids forwards messages to another. `none` is an
undefined access to one of its two buffers.
-/

namespace Kids

open Bytes

-- the request for a message
def logCommand (msg : Message) : List Bytes :=
  [ofString "LOG", msg.topic.data, msg.content.data]

def frame (msg : Message) : Bytes :=
  commandEncoding (logCommand msg)

def frames (msgs : List Message) : Bytes :=
  (msgs.map frame).flatten

/--
`out` is `req_` with `sentlen_`, and `writable` says that the `AE_WRITABLE` event is armed.
-/
structure Agent where
  fd : Int
  out : Outgoing
  rep : Buffer
  writable : Bool

namespace Agent

def req (a : Agent) : Buffer :=
  a.out.buf

def create (fd : Int) : Agent where
  fd := fd
  out := ⟨.empty, 0⟩
  rep := .empty
  writable := false

def setWriteEvent (a : Agent) (ae : Bool) : Option Agent :=
  if a.fd ≤ 0 then
    none
  else if a.req.size ≠ 0 then
    some a
  else if ae then
    some { a with writable := true }
  else
    none

def log (a : Agent) (ae : Bool) (msg : Message) : Option Agent :=
  match a.setWriteEvent ae with
  | none => some a
  | some a =>
    match a.req.appendAll [
      Buffer.vaprintf (ofString "*3\r\n$3\r\nLOG\r\n$" ++ decimal msg.topic.len ++ crlf),
      msg.topic.data,
      crlf,
      Buffer.vaprintf (headerLine dollar msg.content.len),
      msg.content.data,
      crlf] with
    | none => none
    | some req => some { a with out.buf := req }

structure Sent where
  agent : Agent
  bytes : Bytes
  disconnect : Bool

def sendRequest (a : Agent) (rs : List WriteResult) : Option Sent :=
  match a.out.writeAll Buffer.clear 0 rs with
  | none => none
  | some ⟨out, bytes, failed⟩ =>
    let a := { a with out := out }
    if failed then
      some ⟨a, bytes, true⟩
    else if a.out.sentlen = a.req.size then
      some ⟨{ a with writable := false }, bytes, false⟩
    else
      some ⟨a, bytes, false⟩

def parseReplyBuffer (a : Agent) : Option (Agent × Option Bytes) :=
  match strchr a.rep.data cr with
  | none => some (a, none)
  | some newline =>
    -- in a buffer of one byte `rep_.size() - 2` is close to `2 ^ 32`
    if newline > (a.rep.size + uint32Size - 2) % uint32Size then
      some (a, none)
    else
      match a.rep.removeFront (newline + 2) with
      | none => none
      | some rep => some ({ a with rep := rep }, some (a.rep.data.take newline))

theorem parseReplyBuffer_lt {a a' : Agent} (h : a.parseReplyBuffer = some (a', some line))
    : a'.rep.size < a.rep.size := by
  unfold parseReplyBuffer at h
  split at h
  . simp at h
  . split at h
    . simp at h
    . split at h
      . simp at h
      . next rep hrep =>
        simp only [Option.some.injEq, Prod.mk.injEq] at h
        obtain ⟨hle, hdata⟩ := Buffer.data_removeFront hrep
        rw [← h.1]
        unfold Buffer.size at hle ⊢
        dsimp only
        rw [hdata, List.length_drop]
        omega

def processReplyBuffer.go (a : Agent) : Option (Agent × List Bytes) :=
  if a.rep.size = 0 then
    some (a, [])
  else
    match _h : a.parseReplyBuffer with
    | none => none
    | some (a, none) => some (a, [])
    | some (a, some line) => (go a).map fun (a, lines) => (a, line :: lines)
termination_by a.rep.size
decreasing_by exact parseReplyBuffer_lt _h

def processReplyBuffer (a : Agent) : Option (Agent × List Bytes) :=
  (processReplyBuffer.go a).map fun (a, lines) =>
    (if a.rep.size = 0 then { a with rep := a.rep.clear } else a, lines)

inductive ReadResult
  | bytes (buf : Bytes)
  | again
  | failed

structure Replies where
  agent : Agent
  lines : List Bytes
  disconnect : Bool

def readReply (a : Agent) : ReadResult → Option Replies
  | .again => some ⟨a, [], false⟩
  | .failed => some ⟨a, [], true⟩
  | .bytes buf =>
    -- the end of the stream
    if buf.length = 0 then
      some ⟨a, [], true⟩
    else
      match a.rep.append buf with
      | none => none
      | some rep =>
        let a := { a with rep := rep }
        -- the source tests the size of the request buffer here
        if a.req.size > maxQuerybufLen then
          some ⟨a, [], true⟩
        else
          a.processReplyBuffer.map fun (a, lines) => ⟨a, lines, false⟩

end Agent
end Kids
