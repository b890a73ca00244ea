import Kids.Lib.Run
import Kids.GoClient.ServerFrames

/-!
`recvResponseRoutine` of `kids.go` beside the calls of a user, who makes one after the other. The connection
stays up and delivers the frames whole, as `recvResponse` reads them.
-/

namespace Kids

open Bytes

namespace GoClient

inductive Call
  | log (topic data : Bytes)
  | subscribe (topic : Bytes)
  | psubscribe (pattern : Bytes)
  | unsubscribe (topic : Bytes)
  | punsubscribe (pattern : Bytes)
  deriving DecidableEq

inductive LineSign
  | int
  | ok
  | err

def LineSign.byte : LineSign → UInt8
  | int => intSign
  | ok => okSign
  | err => errSign

/--
A reply of the server: a line, of which `recvResponse` keeps the sign, or a confirmation.
-/
inductive Answer
  | line (sign : LineSign) (text : Bytes)
  | subscribed (k : SubscriptionKind) (name : Bytes) (count : Nat)
  | unsubscribed (k : SubscriptionKind) (name : Bytes) (count : Nat)

def Answer.fields : Answer → List Bytes
  | .line sign text => [sign.byte :: text]
  | .subscribed k name count => (ServerFrame.subscribed k name count).fields
  | .unsubscribed k name count => (ServerFrame.unsubscribed k name count).fields

inductive Pushed
  | message (topic content : Bytes)
  | pmessage (topic content pattern : Bytes)

def Pushed.fields : Pushed → List Bytes
  | .message topic content => (ServerFrame.message topic content).fields
  | .pmessage topic content pattern => (ServerFrame.pmessage topic content pattern).fields

structure Log where
  pattern : Bytes
  topic : Bytes
  data : Bytes
  deriving DecidableEq

-- what a pushed frame is on the `Logs` channel
def Pushed.log : Pushed → Log
  | .message topic content => ⟨[], topic, content⟩
  | .pmessage topic content pattern => ⟨pattern, topic, content⟩

-- a reply knows the call that it answers, of which the client is not told
inductive Frame
  | reply (c : Call) (a : Answer)
  | push (p : Pushed)

def Frame.fields : Frame → List Bytes
  | .reply _ a => a.fields
  | .push p => p.fields

/--
What a call returns: no error, an error, or the fields of the response. `outOfRange` is an index that panics.
-/
inductive Outcome
  | done
  | error (text : Bytes)
  | argv (fields : List Bytes)
  | outOfRange
  deriving DecidableEq

def Call.returns (c : Call) (argv : List Bytes) : Outcome :=
  match c with
  | .log _ _ =>
    match argv with
    | (b :: text) :: _ => if b = errSign then .error (b :: text) else .done
    | _ => .outOfRange
  | _ => .argv argv

-- `strings.ToUpper`
def toUpper (s : Bytes) : Bytes :=
  s.map fun b => if 97 ≤ b ∧ b ≤ 122 then b - 32 else b

inductive Route
  | log (l : Log)
  | drop
  | outOfRange

/--
The `default` case of the `select`, for a response that no command waits for.
-/
def route (resp : List Bytes) : Route :=
  match resp with
  | [] => .outOfRange
  | name :: args =>
    let cmd := toUpper name
    if cmd = ofString "MESSAGE" then
      match args with
      | topic :: data :: _ => .log ⟨[], topic, data⟩
      | _ => .outOfRange
    else if cmd = ofString "PMESSAGE" then
      match args with
      | pattern :: topic :: data :: _ => .log ⟨pattern, topic, data⟩
      | _ => .outOfRange
    else
      .drop

-- `sent` has written its request, `waiting` is in `<-k.resp`
inductive Caller
  | idle
  | sent (c : Call)
  | waiting (c : Call)

inductive Reader
  | receiving
  | selecting (f : Frame)
  -- in `out <-`, which waits for room
  | sending (l : Log)

/--
`requests` have reached the server and `wire` is on its way back. The `resp` channel has no room, so that it holds
nothing. The last four fields are history.
-/
structure Routine where
  caller : Caller
  requests : List Call
  wire : List Frame
  reader : Reader
  logs : List Log
  returned : List (Call × Outcome)
  answered : List (Call × Answer)
  pushed : List Pushed
  taken : List Log

namespace Routine

def init : Routine where
  caller := .idle
  requests := []
  wire := []
  reader := .receiving
  logs := []
  returned := []
  answered := []
  pushed := []
  taken := []

inductive Label
  -- a method of the user writes its request and then waits
  | call (c : Call)
  | wait
  -- the server answers its first request, or pushes a message
  | answer (a : Answer)
  | push (p : Pushed)
  -- `recvResponse` returns, the `select` is entered, `out` has room
  | recv
  | select
  | put
  -- the user reads from `Logs`
  | take

-- the capacity of `out`
def logsCap : Nat := 512

/--
A label that is not due changes nothing; `none` is a panic.
-/
def step (s : Routine) : Label → Option Routine
  | .call c =>
    match s.caller with
    | .idle => some { s with caller := .sent c, requests := s.requests ++ [c] }
    | _ => some s
  | .wait =>
    match s.caller with
    | .sent c => some { s with caller := .waiting c }
    | _ => some s
  | .answer a =>
    match s.requests with
    | [] => some s
    | c :: requests =>
      some { s with requests := requests, wire := s.wire ++ [.reply c a], answered := s.answered ++ [(c, a)] }
  | .push p => some { s with wire := s.wire ++ [.push p], pushed := s.pushed ++ [p] }
  | .recv =>
    match s.reader, s.wire with
    | .receiving, f :: wire => some { s with reader := .selecting f, wire := wire }
    | _, _ => some s
  | .select =>
    match s.reader with
    | .selecting f =>
      match s.caller with
      | .waiting c =>
        some { s with reader := .receiving, caller := .idle, returned := s.returned ++ [(c, c.returns f.fields)] }
      | _ =>
        match route f.fields with
        | .log l => some { s with reader := .sending l }
        | .drop => some { s with reader := .receiving }
        | .outOfRange => none
    | _ => some s
  | .put =>
    match s.reader with
    | .sending l =>
      if s.logs.length < logsCap then some { s with reader := .receiving, logs := s.logs ++ [l] } else some s
    | _ => some s
  | .take =>
    match s.logs with
    | [] => some s
    | l :: logs => some { s with logs := logs, taken := s.taken ++ [l] }

end Routine
end GoClient
end Kids
