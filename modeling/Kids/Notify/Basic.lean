import Kids.MessageQueue.Basic
import Mathlib.Data.Fin.Basic

/-!
How the workers tell the consumers about new messages: `Master::PutMessage`, the `AddNotify` and
`NotifyNewMessage` of `Worker` and `Storer`, the retry in `Worker::Cron` and the handlers that read one
byte and ask the message queue for the next message. Every worker is a sender, and the consumers are the
workers and, at index `W`, the storer.
-/

namespace Kids

/--
What goes from one sender to one consumer: the slot of `msg_wait_to_notify_`, which only the sender
touches, and the bytes in the socket pair.
-/
structure Channel where
  waitToNotify : Nat
  inFlight : Nat

/--
Where a worker is in `Master::PutMessage` or in `Master::NotifyNewMessage`; `k` is the consumer that is
next in the loop, and `put` tells a call from `PutMessage` from one from `Worker::Cron`.
-/
inductive Sender
  | idle
  | pushing (m : Message)
  | adding (k : Nat)
  | notifying (k : Nat) (put : Bool)

def Sender.inPutMessage : Sender → Bool
  | idle => false
  | pushing _ => true
  | adding _ => true
  | notifying _ put => put

inductive Handler
  | idle
  | notified

/--
`cronStat` is the copy of `stat_.msg_drop` that `Master::Cron` has until it writes its statistics back. The last
three fields are history: the bytes that each consumer has read, the calls of its `AddNotify`, and the calls of
`PutMessage` that have found the queue full.
-/
structure Notify (W : Nat) where
  queue : MessageQueue W
  channel : Fin (W + 1) → Fin W → Channel
  sender : Fin W → Sender
  handler : Fin (W + 1) → Handler
  wrongNotice : Bool
  msgDrop : Nat
  cronStat : Option Nat
  bytesRead : Fin (W + 1) → Nat
  addNotifyCalls : Fin (W + 1) → Nat
  refused : Nat

namespace Notify

variable {W : Nat}

def init (a : Addr) : Notify W where
  queue := .mqOpen a
  channel := fun _ _ => ⟨0, 0⟩
  sender := fun _ => .idle
  handler := fun _ => .idle
  wrongNotice := false
  msgDrop := 0
  cronStat := none
  bytesRead := fun _ => 0
  addNotifyCalls := fun _ => 0
  refused := 0

def setSender (s : Notify W) (w : Fin W) (pc : Sender) : Notify W :=
  { s with sender := Function.update s.sender w pc }

def setChannel (s : Notify W) (c : Fin (W + 1)) (w : Fin W) (channel : Channel) : Notify W :=
  { s with channel := Function.update s.channel c (Function.update (s.channel c) w channel) }

-- `stat_.msg_drop++` is a plain increment in the source; here it is one step
def refuse (s : Notify W) : Notify W :=
  { s with msgDrop := s.msgDrop + 1, refused := s.refused + 1 }

def putMessage (queueLimit : Nat) (s : Notify W) (w : Fin W) (m : Message) : Option (Notify W) :=
  match s.sender w with
  | .idle =>
    if s.queue.size ≥ queueLimit then
      some s.refuse
    else
      some (s.setSender w (.pushing m))
  | _ => none

def push (s : Notify W) (w : Fin W) (a : Addr) : Option (Notify W) :=
  match s.sender w with
  | .pushing m =>
    match s.queue.mqPush a m with
    | none => none
    | some queue => some ({ s with queue := queue }.setSender w (.adding 0))
  | _ => none

def addNotify (s : Notify W) (w : Fin W) : Option (Notify W) :=
  match s.sender w with
  | .adding k =>
    if h : k < W + 1 then
      let c : Fin (W + 1) := ⟨k, h⟩
      let channel := s.channel c w
      let s := s.setChannel c w { channel with waitToNotify := channel.waitToNotify + 1 }
      let s := { s with addNotifyCalls := Function.update s.addNotifyCalls c (s.addNotifyCalls c + 1) }
      some (s.setSender w (.adding (k + 1)))
    else
      some (s.setSender w (.notifying 0 true))
  | _ => none

def notifyNewMessage (s : Notify W) (w : Fin W) (ok : Bool) : Option (Notify W) :=
  match s.sender w with
  | .notifying k put =>
    if h : k < W + 1 then
      let c : Fin (W + 1) := ⟨k, h⟩
      let channel := s.channel c w
      if channel.waitToNotify > 0 && ok then
        some (s.setChannel c w ⟨channel.waitToNotify - 1, channel.inFlight + 1⟩)
      else
        some (s.setSender w (.notifying (k + 1) put))
    else
      some (s.setSender w .idle)
  | _ => none

def cron (s : Notify W) (w : Fin W) : Option (Notify W) :=
  match s.sender w with
  | .idle => some (s.setSender w (.notifying 0 false))
  | _ => none

def readNotice (s : Notify W) (c : Fin (W + 1)) (w : Fin W) (free ok : Bool) : Option (Notify W) :=
  match s.handler c with
  | .idle =>
    let channel := s.channel c w
    -- `StoreMessage` does nothing unless the store is `Free`
    if (c = Fin.last W → free) ∧ ok ∧ channel.inFlight > 0 then
      let s := s.setChannel c w { channel with inFlight := channel.inFlight - 1 }
      some { s with
        handler := Function.update s.handler c .notified
        bytesRead := Function.update s.bytesRead c (s.bytesRead c + 1)
      }
    else
      some s
  | .notified => none

def nextMessage (s : Notify W) (c : Fin (W + 1)) : Option (Notify W) :=
  match s.handler c with
  | .idle => none
  | .notified =>
    match s.queue.mqNext c with
    | none => none
    | some (queue, msg) => some { s with
        queue := queue
        handler := Function.update s.handler c .idle
        wrongNotice := s.wrongNotice || msg.isNone
      }

def master (s : Notify W) : Option (Notify W) :=
  match s.cronStat, s.queue.master with
  | none, some queue => some { s with queue := queue }
  | _, _ => none

-- `stat.msg_drop = stat_.msg_drop` of `Cron`, behind its garbage collection
def readStat (s : Notify W) : Option (Notify W) :=
  match s.cronStat, s.queue.gc with
  | none, .idle => some { s with cronStat := some s.msgDrop }
  | _, _ => none

-- `stat_ = stat`, which takes back what was counted in between
def storeStat (s : Notify W) : Option (Notify W) :=
  match s.cronStat with
  | none => none
  | some msgDrop => some { s with msgDrop := msgDrop, cronStat := none }

inductive Label (W : Nat)
  | putMessage (w : Fin W) (m : Message)
  | push (w : Fin W) (a : Addr)
  | addNotify (w : Fin W)
  | notifyNewMessage (w : Fin W) (ok : Bool)
  | cron (w : Fin W)
  | readNotice (c : Fin (W + 1)) (w : Fin W) (free ok : Bool)
  | nextMessage (c : Fin (W + 1))
  | master
  | readStat
  | storeStat

def step (queueLimit : Nat) (s : Notify W) : Label W → Option (Notify W)
  | .putMessage w m => s.putMessage queueLimit w m
  | .push w a => s.push w a
  | .addNotify w => s.addNotify w
  | .notifyNewMessage w ok => s.notifyNewMessage w ok
  | .cron w => s.cron w
  | .readNotice c w free ok => s.readNotice c w free ok
  | .nextMessage c => s.nextMessage c
  | .master => s.master
  | .readStat => s.readStat
  | .storeStat => s.storeStat

def Legal (s : Notify W) : Label W → Prop
  | .push _ a => s.queue.heap a = none
  | _ => True

def Step (queueLimit : Nat) (s : Notify W) (l : Label W) (s' : Notify W) : Prop :=
  s.Legal l ∧ s.step queueLimit l = some s'

end Notify
end Kids
