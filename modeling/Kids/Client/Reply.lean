import Kids.Buffer.Outgoing
import Kids.Conf.Config
import Kids.Util.Protocol

/-!
The reply half of a `Client`: the `Reply` functions, `ReceiveMessage`, `ReceivePatternMessage` and
`SendReply` of `client.cc`. `aeCreateFileEvent` succeeds, and `none` is an undefined access to the reply
buffer.
-/

namespace Kids

open Bytes

def clientRepBufBytes : Nat := 1024 * 16

inductive LimitType
  | normal
  | pubsub

/--
What a reply reads from outside of its client: the configured limits, the clock of the worker, and
whether `sub_topics_` or `sub_patterns_` has an element.
-/
structure ReplyEnv where
  nlimit : LimitType → LimitConfig
  unixtime : Int
  subscribed : Bool

/--
`out` is `rep_` with `sentlen_`, and `writable` says that the `AE_WRITABLE` event is armed.
-/
structure Reply where
  fd : Int
  out : Outgoing
  closeAfterReply : Bool
  closeAsap : Bool
  lastSoftLimit : Int
  writable : Bool

namespace Reply

def rep (c : Reply) : Buffer :=
  c.out.buf

def init (fd : Int) : Reply where
  fd := fd
  out := ⟨.ofCapacity clientRepBufBytes (by decide), 0⟩
  closeAfterReply := false
  closeAsap := false
  lastSoftLimit := 0
  writable := false

def setWriteEvent (c : Reply) : Option Reply :=
  if c.fd ≤ 0 then
    none
  else if c.out.sentlen ≠ 0 then
    none
  else
    some { c with writable := true }

def limitReached (size : Nat) (limit : Int) : Bool :=
  -- no limit is set if it is zero, and the comparison converts the `int` to `uint32_t`
  limit ≠ 0 ∧ limit % uint32Size ≤ size

def checkOutputBufferLimits (env : ReplyEnv) (c : Reply) : Reply × Bool :=
  let limits := env.nlimit (if env.subscribed then .pubsub else .normal)
  let hard := limitReached c.rep.size limits.hardLimitBytes
  let soft := limitReached c.rep.size limits.softLimitBytes
  if soft then
    if c.lastSoftLimit = 0 then
      -- the first time the soft limit is seen starts the clock
      ({ c with lastSoftLimit := env.unixtime }, hard)
    else
      (c, env.unixtime - c.lastSoftLimit > limits.softLimitSeconds || hard)
  else
    ({ c with lastSoftLimit := 0 }, hard)

def asyncCloseOnOutputBufferLimitsReached (env : ReplyEnv) (c : Reply) : Reply :=
  if c.closeAsap then
    c
  else
    let (c, reached) := c.checkOutputBufferLimits env
    if reached then { c with closeAsap := true } else c

def replyParts (env : ReplyEnv) (c : Reply) (parts : List Bytes) : Option Reply :=
  if c.closeAfterReply then
    some c
  else
    match c.setWriteEvent with
    | none => some c
    | some c =>
      match c.rep.appendAll parts with
      | none => none
      | some rep => some ({ c with out.buf := rep }.asyncCloseOnOutputBufferLimitsReached env)

def reply (env : ReplyEnv) (c : Reply) (data : Bytes) : Option Reply :=
  c.replyParts env [data]

def replyBulk (env : ReplyEnv) (c : Reply) (data : Bytes) : Option Reply :=
  c.replyParts env [Buffer.vaprintf (headerLine dollar data.length), data, crlf]

-- `w` is what the format and its arguments print
def replyStatusFormat (env : ReplyEnv) (c : Reply) (w : Bytes) : Option Reply :=
  c.replyParts env [ofString "+", Buffer.vaprintf w, crlf]

def replyErrorFormat (env : ReplyEnv) (c : Reply) (w : Bytes) : Option Reply :=
  c.replyParts env [ofString "-ERR ", Buffer.vaprintf w, crlf]

def ll2string (value : Int) : Bytes :=
  if value < 0 then ofString "-" ++ decimal value.natAbs else decimal value.natAbs

def repCzero : Bytes := ofString ":0\r\n"
def repCone : Bytes := ofString ":1\r\n"
def repMbulk3 : Bytes := ofString "*3\r\n"
def repMbulk4 : Bytes := ofString "*4\r\n"
def repMessagebulk : Bytes := ofString "$7\r\nmessage\r\n"
def repPmessagebulk : Bytes := ofString "$8\r\npmessage\r\n"

def replyLongLong (env : ReplyEnv) (c : Reply) (ll : Int) : Option Reply :=
  if ll = 0 then
    c.reply env repCzero
  else if ll = 1 then
    c.reply env repCone
  else
    c.reply env (ofString ":" ++ ll2string ll ++ crlf)

def receiveMessage (env : ReplyEnv) (c : Reply) (topic content : Bytes) : Option Reply := do
  let c ← c.reply env repMbulk3
  let c ← c.reply env repMessagebulk
  let c ← c.replyBulk env topic
  c.replyBulk env content

def receivePatternMessage (env : ReplyEnv) (c : Reply) (topic content pattern : Bytes) : Option Reply := do
  let c ← c.reply env repMbulk4
  let c ← c.reply env repPmessagebulk
  let c ← c.replyBulk env pattern
  let c ← c.replyBulk env topic
  c.replyBulk env content

def clearRep (rep : Buffer) : Buffer :=
  if rep.size > clientRepBufBytes then
    .ofCapacity clientRepBufBytes (by decide)
  else
    .ofCapacity rep.capacity rep.capacity_lt

structure Sent where
  client : Reply
  bytes : Bytes
  freed : Bool

def sendReply (c : Reply) (rs : List WriteResult) : Option Sent :=
  match c.out.writeAll clearRep 0 rs with
  | none => none
  | some ⟨out, bytes, failed⟩ =>
    let c := { c with out := out }
    if failed then
      some ⟨c, bytes, true⟩
    else if c.rep.size ≤ c.out.sentlen then
      some ⟨{ c with writable := false }, bytes, c.closeAfterReply⟩
    else
      some ⟨c, bytes, false⟩

end Reply

inductive ReplyCall
  | reply (data : Bytes)
  | replyBulk (data : Bytes)
  | replyStatusFormat (w : Bytes)
  | replyErrorFormat (w : Bytes)
  | replyLongLong (ll : Int)
  | receiveMessage (topic content : Bytes)
  | receivePatternMessage (topic content pattern : Bytes)

def ReplyCall.run (env : ReplyEnv) (c : Reply) : ReplyCall → Option Reply
  | .reply data => c.reply env data
  | .replyBulk data => c.replyBulk env data
  | .replyStatusFormat w => c.replyStatusFormat env w
  | .replyErrorFormat w => c.replyErrorFormat env w
  | .replyLongLong ll => c.replyLongLong env ll
  | .receiveMessage topic content => c.receiveMessage env topic content
  | .receivePatternMessage topic content pattern => c.receivePatternMessage env topic content pattern

def ReplyCall.encoding : ReplyCall → Bytes
  | .reply data => data
  | .replyBulk data => bulkEncoding data
  | .replyStatusFormat w => ofString "+" ++ cstr w ++ crlf
  | .replyErrorFormat w => ofString "-ERR " ++ cstr w ++ crlf
  | .replyLongLong ll => ofString ":" ++ Reply.ll2string ll ++ crlf
  | .receiveMessage topic content =>
    ofString "*3\r\n$7\r\nmessage\r\n" ++ bulkEncoding topic ++ bulkEncoding content
  | .receivePatternMessage topic content pattern =>
    ofString "*4\r\n$8\r\npmessage\r\n" ++ bulkEncoding pattern ++ bulkEncoding topic ++ bulkEncoding content

/--
A client together with what has gone through its socket. `written` are the bytes that `write` has
taken and `calls` the replies that were asked for, in order.
-/
structure Connection where
  client : Reply
  freed : Bool
  written : Bytes
  calls : List ReplyCall

namespace Connection

def init (fd : Int) : Connection where
  client := .init fd
  freed := false
  written := []
  calls := []

inductive Event
  | call (env : ReplyEnv) (r : ReplyCall)
  | sendReply (rs : List WriteResult)
  | closeAfterReply

def step (s : Connection) (e : Event) : Option Connection :=
  -- a deleted client has no more events
  if s.freed then
    some s
  else
    match e with
    | .call env r =>
      match r.run env s.client with
      | none => none
      | some client => some { s with client := client, calls := s.calls ++ [r] }
    | .sendReply rs =>
      match s.client.sendReply rs with
      | none => none
      | some ⟨client, bytes, freed⟩ =>
        some { s with client := client, freed := freed, written := s.written ++ bytes }
    | .closeAfterReply => some { s with client.closeAfterReply := true }

end Connection
end Kids
