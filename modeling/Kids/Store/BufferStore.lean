import Kids.Store.FileStore

/-!
`BufferStore`: messages go to the primary store while it takes them, else into files of the secondary one,
from which they are transferred when the primary store is back. The primary store is given by its
operations on a state of its own, so that nothing is assumed about its answers.
-/

namespace Kids

structure StoreOps (σ : Type) where
  open_ : σ → Bool × σ
  isOpen : σ → Bool × σ
  addMessage : Message → σ → Bool × σ
  close : σ → σ
  cron : σ → σ

structure BufferStat where
  msgBuffer : UInt64
  msgBufferSize : UInt64
  msgDrop : UInt64

inductive BufferState
  | toPrimary
  | toSecondary
  | transfering
  deriving DecidableEq

structure BufferConfig where
  maxMsgPerCron : Nat
  topicMatch : Bytes → Bool
  secondaryTopicMatch : Bytes → Bool
  makeName : Nat → Bytes

-- the pointer `msg_to_transfer_`, which `Close` leaves dangling
inductive MsgQueue
  | null
  | queue (msgs : List Message)
  | deleted

def MsgQueue.msgs : MsgQueue → List Message
  | queue msgs => msgs
  | _ => []

/--
The last five fields are history: the messages that `AddMessage` took, those that the primary store took,
those that `Close` discarded after they were taken, those that `AddMessage` could not keep, and those that the
primary store refused in a transfer.
-/
structure BufferStore (σ : Type) where
  isOpen : Bool
  state : BufferState
  primary : σ
  secondary : FileStore
  msgToTransfer : MsgQueue
  stat : BufferStat
  accepted : List Message
  toPrimary : List Message
  discarded : List Message
  declined : List Message
  refused : List Message

namespace BufferStore

variable {σ : Type} (ops : StoreOps σ) (conf : BufferConfig)

def open_ (primary : σ) (secondary : FileStore) (stat : BufferStat) (env : Env) : BufferStore σ :=
  let (opened, primary) := ops.open_ primary
  let s : BufferStore σ := {
    isOpen := true
    state := .toPrimary
    primary := primary
    secondary := secondary
    msgToTransfer := .null
    stat := stat
    accepted := []
    toPrimary := []
    discarded := []
    declined := []
    refused := []
  }
  if opened then
    if secondary.haveOldMessage then
      { s with state := .transfering, msgToTransfer := .queue [] }
    else
      s
  else
    { s with state := .toSecondary, secondary := secondary.open_ conf.makeName env }

def addToPrimary (s : BufferStore σ) (env : Env) (m : Message) : Bool × BufferStore σ :=
  let switch (primary : σ) : Bool × BufferStore σ :=
    (true, { s with
      primary := primary
      secondary := s.secondary.open_ conf.makeName env
      state := .toSecondary
    })
  match s.state with
  | .toPrimary =>
    match ops.isOpen s.primary with
    | (false, primary) => switch primary
    | (true, primary) =>
      match ops.addMessage m primary with
      | (false, primary) => switch primary
      | (true, primary) => (false, { s with primary := primary, toPrimary := s.toPrimary ++ [m] })
  | _ => (true, s)

def addToSecondary (s : BufferStore σ) (env : Env) (m : Message) : Option (Bool × BufferStore σ) :=
  let secondary := if s.secondary.isOpen then s.secondary else s.secondary.open_ conf.makeName env
  if conf.secondaryTopicMatch m.topic.data then
    match secondary.secondaryFile with
    | none => none
    | some name => some (true, { s with
        secondary := secondary.addMessage env name m
        stat := { s.stat with
          msgBuffer := s.stat.msgBuffer + 1
          msgBufferSize := s.stat.msgBufferSize + UInt64.ofNat m.content.len
        }
      })
  else
    some (false, { s with
      secondary := secondary
      stat := { s.stat with msgDrop := s.stat.msgDrop + 1 }
      declined := s.declined ++ [m]
    })

def doAddMessage (s : BufferStore σ) (env : Env) (m : Message) : Option (Bool × BufferStore σ) :=
  match s.addToPrimary ops conf env m with
  | (false, s) => some (true, s)
  | (true, s) => s.addToSecondary conf env m

def addMessage (s : BufferStore σ) (env : Env) (m : Message) : Option (BufferStore σ) :=
  if conf.topicMatch m.topic.data then
    match s.doAddMessage ops conf env m with
    | none => none
    | some (true, s) => some { s with accepted := s.accepted ++ [m] }
    | some (false, s) => some s
  else
    some s

structure Transfer (σ : Type) where
  queue : List Message
  primary : σ
  sent : List Message
  refused : List Message

def transfer (budget : Nat) (queue : List Message) (primary : σ) : Transfer σ :=
  match budget, queue with
  | 0, queue => ⟨queue, primary, [], []⟩
  | _, [] => ⟨[], primary, [], []⟩
  | budget + 1, m :: queue =>
    match ops.addMessage m primary with
    | (true, primary) =>
      let rest := transfer budget queue primary
      { rest with sent := m :: rest.sent }
    | (false, primary) => ⟨queue, primary, [], [m]⟩

def cronPrimaryOpen (s : BufferStore σ) : BufferStore σ :=
  match s.state with
  | .toSecondary =>
    match ops.isOpen s.primary with
    | (true, primary) => { s with primary := primary, state := .transfering, msgToTransfer := .queue [] }
    | (false, primary) => { s with primary := primary }
  | _ => s

def cronTransfer (s : BufferStore σ) (queue : List Message) : BufferStore σ :=
  let t := transfer ops conf.maxMsgPerCron queue s.primary
  { s with
    primary := t.primary
    msgToTransfer := .queue t.queue
    stat := { s.stat with msgBuffer := s.stat.msgBuffer - UInt64.ofNat (t.sent.length + t.refused.length) }
    toPrimary := s.toPrimary ++ t.sent
    refused := s.refused ++ t.refused
  }

def cronReadFile (s : BufferStore σ) (env : Env) (queue : List Message) : Option (BufferStore σ) :=
  if queue = [] ∧ s.secondary.haveOldMessage then
    let secondary := s.secondary.close env
    match secondary.getOldestMessages with
    | none => none
    | some msgs => some { s with
        secondary := secondary.deleteOldestMessages
        msgToTransfer := .queue (queue ++ msgs)
      }
  else
    some s

def cronFinish (s : BufferStore σ) (env : Env) (queue : List Message) : BufferStore σ :=
  if queue = [] ∧ ¬s.secondary.haveOldMessage then
    { s with state := .toPrimary, secondary := s.secondary.close env, msgToTransfer := .null }
  else
    s

def cronTransfering (s : BufferStore σ) (env : Env) : Option (BufferStore σ) :=
  match s.state with
  | .transfering =>
    match s.msgToTransfer with
    | .queue queue =>
      let s := s.cronTransfer ops conf queue
      match s.cronReadFile env s.msgToTransfer.msgs with
      | none => none
      | some s => some (s.cronFinish env s.msgToTransfer.msgs)
    | _ => none
  | _ => some s

def cron (s : BufferStore σ) (env : Env) : Option (BufferStore σ) :=
  if s.isOpen then
    match (s.cronPrimaryOpen ops).cronTransfering ops conf env with
    | none => none
    | some s => (s.secondary.cron conf.makeName env).map fun secondary =>
        { s with primary := ops.cron s.primary, secondary := secondary }
  else
    some s

def close (s : BufferStore σ) (env : Env) : BufferStore σ :=
  if s.isOpen then
    let s := { s with primary := ops.close s.primary, secondary := s.secondary.close env, isOpen := false }
    match s.msgToTransfer with
    | .queue (m :: msgs) => { s with
        msgToTransfer := .deleted
        stat := { s.stat with msgDrop := s.stat.msgDrop + UInt64.ofNat (msgs.length + 1) }
        discarded := s.discarded ++ m :: msgs
      }
    | _ => s
  else
    s

inductive Label
  | addMessage (env : Env) (m : Message)
  | cron (env : Env)
  | close (env : Env)

def step (s : BufferStore σ) : Label → Option (BufferStore σ)
  | .addMessage env m => s.addMessage ops conf env m
  | .cron env => s.cron ops conf env
  | .close env => some (s.close ops env)

end BufferStore
end Kids
