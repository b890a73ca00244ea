import Kids.Store.Agent
import Kids.Store.BufferStore

/-!
`NetworkStore`: a primary store that hands its messages to an agent and connects again when the agent is
gone. A `BufferStore` over it moves with the calls it gets from the storer thread and with the events of
the agent's socket.
-/

namespace Kids

open Bytes

inductive StoreState
  | free
  | sending
  deriving DecidableEq

def reconnectInterval : Int := 5

/--
What the calls of one step find outside: the clock, the descriptor that a connect returns (`none` for a
connect that fails), and whether `aeCreateFileEvent` succeeds.
-/
structure NetworkEnv where
  unixtime : Int
  connect : Option Int
  ae : Bool

/--
The fields from `wire` on are history. `wire` is what the socket of the agent has taken, `answered` are the messages
of this connection that the remote kids has answered, and those that are `outstanding` wait for their answers. A message
is `acked` or `rejected` by its answer, `lost` if the agent is deleted before there is one, and `unlogged` if the agent
made no request of it. `undefined` says that an access to a buffer of the agent was out of bounds.
-/
structure NetworkStore where
  agent : Option Agent
  state : StoreState
  lastReconnect : Int
  wire : Bytes
  answered : List Message
  outstanding : List Message
  acked : List Message
  rejected : List Message
  lost : List Message
  unlogged : List Message
  undefined : Bool

namespace NetworkStore

def init : NetworkStore where
  agent := none
  state := .free
  lastReconnect := 0
  wire := []
  answered := []
  outstanding := []
  acked := []
  rejected := []
  lost := []
  unlogged := []
  undefined := false

def isOpen (s : NetworkStore) : Bool :=
  s.agent.isSome

def close (s : NetworkStore) : NetworkStore :=
  match s.agent with
  | none => s
  | some _ => { s with
      agent := none
      state := .free
      wire := []
      answered := []
      outstanding := []
      lost := s.lost ++ s.outstanding
    }

@[simp]
theorem agent_close (s : NetworkStore) : s.close.agent = none := by
  unfold close
  split
  . next h => exact h
  . rfl

def open_ (env : NetworkEnv) (s : NetworkStore) : Bool × NetworkStore :=
  let s := { s.close with lastReconnect := env.unixtime }
  match env.connect with
  | none => (false, s)
  | some fd =>
    let s := { s with agent := if env.ae then some (.create fd) else none, state := .free }
    (s.isOpen, s)

def doAddMessage (env : NetworkEnv) (s : NetworkStore) (msg : Message) : Bool × NetworkStore :=
  match s.agent with
  | none => (false, s)
  | some agent =>
    let s := { s with state := .sending }
    -- `Log` returns without a request where the event cannot be set, and nobody is told
    let logged := (agent.setWriteEvent env.ae).isSome
    match agent.log env.ae msg with
    | none => (true, { s with unlogged := s.unlogged ++ [msg], undefined := true })
    | some agent =>
      if logged then
        (true, { s with agent := some agent, outstanding := s.outstanding ++ [msg] })
      else
        (true, { s with agent := some agent, unlogged := s.unlogged ++ [msg] })

def onMsgSent (s : NetworkStore) : NetworkStore :=
  { s with state := .free }

def onDisconnect (s : NetworkStore) : NetworkStore :=
  s.close

def cron (env : NetworkEnv) (s : NetworkStore) : NetworkStore :=
  if s.isOpen then
    s
  else if env.unixtime - s.lastReconnect ≥ reconnectInterval then
    (s.open_ env).2
  else
    s

/--
The store is told that its message was sent, whatever the line says. The line answers the oldest request without an
answer, if the remote kids can have it to its end.
-/
def processResult (s : NetworkStore) (line : Bytes) : NetworkStore :=
  let s := s.onMsgSent
  match s.outstanding with
  | [] => s
  | m :: rest =>
    if s.wire.length < (frames (s.answered ++ [m])).length then
      s
    else
      let s := { s with answered := s.answered ++ [m], outstanding := rest }
      if ofString "-ERR" <+: line then
        { s with rejected := s.rejected ++ [m] }
      else
        { s with acked := s.acked ++ [m] }

def sendRequest (s : NetworkStore) (rs : List WriteResult) : Option NetworkStore :=
  match s.agent with
  | none => some s
  | some agent =>
    match agent.sendRequest rs with
    | none => none
    | some ⟨agent, bytes, disconnect⟩ =>
      let s := { s with agent := some agent, wire := s.wire ++ bytes }
      some (if disconnect then s.onDisconnect else s)

def readReply (s : NetworkStore) (r : Agent.ReadResult) : Option NetworkStore :=
  match s.agent with
  | none => some s
  | some agent =>
    match agent.readReply r with
    | none => none
    | some ⟨agent, lines, disconnect⟩ =>
      let s := lines.foldl processResult { s with agent := some agent }
      some (if disconnect then s.onDisconnect else s)

def ops (topicMatch : Bytes → Bool) (env : NetworkEnv) : StoreOps NetworkStore where
  open_ := open_ env
  isOpen := fun s => (s.isOpen, s)
  addMessage := fun msg s => if topicMatch msg.topic.data then s.doAddMessage env msg else (false, s)
  close := close
  cron := cron env

end NetworkStore

namespace BufferStore

inductive NetworkLabel
  | call (env : NetworkEnv) (l : Label)
  | sendRequest (rs : List WriteResult)
  | readReply (r : Agent.ReadResult)

def networkStep (topicMatch : Bytes → Bool) (conf : BufferConfig) (s : BufferStore NetworkStore)
    : NetworkLabel → Option (BufferStore NetworkStore)
  | .call env l =>
    match s.step (NetworkStore.ops topicMatch env) conf l with
    | none => none
    -- an access to a buffer of the agent was out of bounds
    | some t => if t.primary.undefined then none else some t
  | .sendRequest rs => (s.primary.sendRequest rs).map fun primary => { s with primary := primary }
  | .readReply r => (s.primary.readReply r).map fun primary => { s with primary := primary }

end BufferStore
end Kids
