import Kids.Notify.Basic
import Kids.Lib.Run
import Kids.Server.Thread

/-!
The whole server: worker threads with their clients, the message queue and the notices between the threads.
A worker does one callback of its event loop at a time, `ProcessRequestBuffer` takes its rounds one by one,
and in a `PutMessage` the other threads run between any two of its steps.
-/

namespace Kids

open Bytes

/--
`log` is history: who pushed what, in the order of the pushes.
-/
structure Server (W : Nat) where
  notify : Notify W
  thread : Fin W → Thread
  log : List (Fin W × Message)

namespace Server

variable {W : Nat}

def init (a : Addr) : Server W where
  notify := .init a
  thread := fun _ => .init
  log := []

def setThread (s : Server W) (w : Fin W) (t : Thread) : Server W :=
  { s with thread := Function.update s.thread w t }

def senderIdle (s : Server W) (w : Fin W) : Bool :=
  match s.notify.sender w with
  | .idle => true
  | _ => false

def handlerIdle (s : Server W) (w : Fin W) : Bool :=
  match s.notify.handler w.castSucc with
  | .idle => true
  | .notified => false

/--
The worker is in the poll of its event loop.
-/
def Waiting (s : Server W) (w : Fin W) : Prop :=
  (s.thread w).task = .waiting ∧ s.senderIdle w ∧ s.handlerIdle w

instance (s : Server W) (w : Fin W) : Decidable (s.Waiting w) :=
  inferInstanceAs (Decidable (_ ∧ _))

-- a callback of the event loop of `w` that leaves the queue and the notices alone
def callback (s : Server W) (w : Fin W) (t : Option Thread) : Option (Server W) :=
  if s.Waiting w then t.map (s.setThread w) else none

def processRound (queueLimit : Nat) (env : CommandEnv) (s : Server W) (w : Fin W) : Option (Server W) :=
  let t := s.thread w
  match t.task with
  | .waiting => none
  | .processing c =>
    match ((t.client c).bind Client.nextEvent).bind RequestEvent.logged with
    | none => (t.processRound env c).map (s.setThread w)
    | some m =>
      match s.notify.putMessage queueLimit w m with
      | none => none
      | some notify =>
        let t := t.countIn m
        if s.notify.queue.size ≥ queueLimit then
          (t.processRound { env with putMessage := false } c).map ({ s with notify := notify }.setThread w)
        else
          some ({ s with notify := notify }.setThread w { t with task := .logging c })
  | .logging c =>
    -- `PutMessage` has returned
    if s.senderIdle w then
      (t.processRound { env with putMessage := true } c).map (s.setThread w)
    else
      none

def push (s : Server W) (w : Fin W) (a : Addr) : Option (Server W) :=
  match s.notify.sender w with
  | .pushing m => (s.notify.push w a).map fun notify => { s with notify := notify, log := s.log ++ [(w, m)] }
  | _ => none

def readNotice (s : Server W) (w v : Fin W) (ok : Bool) : Option (Server W) :=
  if s.Waiting w then
    (s.notify.readNotice w.castSucc v true ok).map fun notify => { s with notify := notify }
  else
    none

def publishMessage (stringMatch : Bytes → Bytes → Bool) (env : CommandEnv) (s : Server W) (w : Fin W)
    : Option (Server W) :=
  match s.notify.queue.mqNext w.castSucc, s.notify.nextMessage w.castSucc with
  | some (_, some m), some notify =>
    ((s.thread w).publishMessage stringMatch env m).map ({ s with notify := notify }.setThread w)
  -- a wrong notice
  | some (_, none), some notify => some { s with notify := notify }
  | _, _ => none

def cron (s : Server W) (w : Fin W) : Option (Server W) :=
  if s.Waiting w then
    match (s.thread w).freeClientsInAsyncFreeQueue, s.notify.cron w with
    | some t, some notify => some ({ s with notify := notify }.setThread w t)
    | _, _ => none
  else
    none

inductive Label (W : Nat)
  | getNewConnection (w : Fin W) (c : ClientId) (fd : Int)
  | readRequest (w : Fin W) (c : ClientId) (r : ReadResult)
  | processRound (w : Fin W) (env : CommandEnv)
  | push (w : Fin W) (a : Addr)
  | addNotify (w : Fin W)
  | notifyNewMessage (w : Fin W) (ok : Bool)
  | sendReply (w : Fin W) (c : ClientId) (rs : List WriteResult)
  | cron (w : Fin W)
  | readNotice (w v : Fin W) (ok : Bool)
  | publishMessage (w : Fin W) (env : CommandEnv)
  | storerReadNotice (v : Fin W) (free ok : Bool)
  | storerNextMessage
  | master
  | readStat
  | storeStat

def step (queueLimit : Nat) (stringMatch : Bytes → Bytes → Bool) (s : Server W) : Label W → Option (Server W)
  | .getNewConnection w c fd => s.callback w (some ((s.thread w).getNewConnection c fd))
  | .readRequest w c r => s.callback w ((s.thread w).readRequest c r)
  | .processRound w env => s.processRound queueLimit env w
  | .push w a => s.push w a
  | .addNotify w => (s.notify.addNotify w).map fun notify => { s with notify := notify }
  | .notifyNewMessage w ok => (s.notify.notifyNewMessage w ok).map fun notify => { s with notify := notify }
  | .sendReply w c rs => s.callback w ((s.thread w).sendReply c rs)
  | .cron w => s.cron w
  | .readNotice w v ok => s.readNotice w v ok
  | .publishMessage w env => s.publishMessage stringMatch env w
  | .storerReadNotice v free ok =>
    (s.notify.readNotice (Fin.last W) v free ok).map fun notify => { s with notify := notify }
  | .storerNextMessage => (s.notify.nextMessage (Fin.last W)).map fun notify => { s with notify := notify }
  | .master => s.notify.master.map fun notify => { s with notify := notify }
  | .readStat => s.notify.readStat.map fun notify => { s with notify := notify }
  | .storeStat => s.notify.storeStat.map fun notify => { s with notify := notify }

/--
The allocator hands out memory that is not in use, and the event loop has events of open clients only, and
writes to those that have asked for it.
-/
def Legal (s : Server W) : Label W → Prop
  | .getNewConnection w c _ => (s.thread w).tables.heap c = none
  | .readRequest w c _ => (s.thread w).tables.heap c ≠ none
  | .sendReply w c _ => (s.thread w).tables.heap c ≠ none ∧ ((s.thread w).endpoint c).reply.writable = true
  | .push _ a => s.notify.queue.heap a = none
  | _ => True

def Step (queueLimit : Nat) (stringMatch : Bytes → Bytes → Bool) (s : Server W) (l : Label W) (s' : Server W) : Prop :=
  s.Legal l ∧ s.step queueLimit stringMatch l = some s'

instance (s : Server W) (l : Label W) : Decidable (s.Legal l) :=
  match l with
  | .getNewConnection w c _ => inferInstanceAs (Decidable ((s.thread w).tables.heap c = none))
  | .readRequest w c _ => inferInstanceAs (Decidable ((s.thread w).tables.heap c ≠ none))
  | .sendReply _ _ _ => inferInstanceAs (Decidable (_ ∧ _))
  | .push _ a => inferInstanceAs (Decidable (s.notify.queue.heap a = none))
  | .processRound _ _ | .addNotify _ | .notifyNewMessage _ _ | .cron _ | .readNotice _ _ _ | .publishMessage _ _
  | .storerReadNotice _ _ _ | .storerNextMessage | .master | .readStat | .storeStat => isTrue trivial

/--
The step if it is legal, to run a schedule.
-/
def legalStep (queueLimit : Nat) (stringMatch : Bytes → Bytes → Bool) (s : Server W) (l : Label W)
    : Option (Server W) :=
  if s.Legal l then s.step queueLimit stringMatch l else none

theorem step_of_legalStep {s t : Server W} (h : s.legalStep queueLimit stringMatch l = some t)
    : Step queueLimit stringMatch s l t := by
  unfold legalStep at h
  split at h
  . next hlegal => exact ⟨hlegal, h⟩
  . cases h

/--
A client that connects to a server with one worker and subscribes to `a`, and then publishes `b` to it.
-/
def subscribing : List (Label 1) := [
  .getNewConnection 0 1 5,
  .readRequest 0 1 (.data (ofString "*2\r\n$9\r\nsubscribe\r\n$1\r\na\r\n")),
  .processRound 0 ⟨fun _ => ⟨0, 0, 0⟩, 0, true, [], .insertion⟩,
  .processRound 0 ⟨fun _ => ⟨0, 0, 0⟩, 0, true, [], .insertion⟩
]

def publishing : List (Label 1) := [
  .readRequest 0 1 (.data (ofString "*3\r\n$7\r\npublish\r\n$1\r\na\r\n$1\r\nb\r\n")),
  .processRound 0 ⟨fun _ => ⟨0, 0, 0⟩, 0, true, [], .insertion⟩,
  .push 0 1,
  .addNotify 0, .addNotify 0, .addNotify 0,
  .notifyNewMessage 0 true, .notifyNewMessage 0 true, .notifyNewMessage 0 true, .notifyNewMessage 0 true,
  .notifyNewMessage 0 true,
  .processRound 0 ⟨fun _ => ⟨0, 0, 0⟩, 0, true, [], .insertion⟩,
  .processRound 0 ⟨fun _ => ⟨0, 0, 0⟩, 0, true, [], .insertion⟩,
  .readNotice 0 0 true,
  .publishMessage 0 ⟨fun _ => ⟨0, 0, 0⟩, 0, true, [], .insertion⟩
]

end Server
end Kids
