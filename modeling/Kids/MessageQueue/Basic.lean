import Kids.Message
import Mathlib.Logic.Function.Basic

/-!
The message queue of `msgqueue.cc` in memory: items linked by pointers, a cursor for each consumer and
the garbage collection that `Master::Cron` runs. The threads that push, the consumers and the master
interleave; an access to an item that is not allocated is `none`.
-/

namespace Kids

abbrev Addr := Nat

structure MQItem where
  value : Option Message
  next : Option Addr

/--
Where the master is in the garbage collection of `Master::Cron`. `reading` collects the cursor
positions one at a time, `freeing` is the loop of `MQFreeOldMessages` with its local variables and
`unlinked` the point where `queue->head` is set but the counters are not.
-/
inductive Gc
  | idle
  | reading (positions : List Addr)
  | freeing (positions : List Addr) (p : Addr) (count memoryFreed : Nat)
  | unlinked (count memoryFreed : Nat)

def Gc.isFreeing : Gc → Bool
  | .freeing _ _ _ _ => true
  | .unlinked _ _ => true
  | _ => false

/--
The queue, with a cursor for each of the `W` workers and, at index `W`, for the storer. The last three
fields are history: they are written and never read.
-/
structure MessageQueue (W : Nat) where
  heap : Addr → Option MQItem
  head : Addr
  tail : Addr
  size : Nat
  memoryUsage : Nat
  cursor : Fin (W + 1) → Addr
  gc : Gc
  pushed : List Message
  results : Fin (W + 1) → List Message
  deleted : List Addr

namespace MessageQueue

variable {W : Nat}

def mqOpen (a : Addr) : MessageQueue W where
  heap := Function.update (fun _ => none) a (some ⟨none, none⟩)
  head := a
  tail := a
  size := 0
  memoryUsage := 0
  cursor := fun _ => a
  gc := .idle
  pushed := []
  results := fun _ => []
  deleted := []

def mqPush (q : MessageQueue W) (a : Addr) (m : Message) : Option (MessageQueue W) :=
  match q.heap q.tail with
  | none => none
  | some item => some { q with
      heap := Function.update (Function.update q.heap q.tail (some { item with next := some a })) a
        (some ⟨some m, none⟩)
      tail := a
      size := q.size + 1
      memoryUsage := q.memoryUsage + m.memory
      pushed := q.pushed ++ [m]
    }

def mqNext (q : MessageQueue W) (i : Fin (W + 1)) : Option (MessageQueue W × Option Message) :=
  match q.heap (q.cursor i) with
  | none => none
  | some item =>
    match item.next with
    | none => some (q, none)
    | some a =>
      match q.heap a with
      | none => none
      | some next => some ({ q with
          cursor := Function.update q.cursor i a
          results := Function.update q.results i (q.results i ++ next.value.toList)
        }, next.value)

def freeOldest (q : MessageQueue W) (positions : List Addr) (p : Addr) (count memoryFreed : Nat)
    : Option (MessageQueue W) :=
  if p ∈ positions then
    some { q with head := p, gc := .unlinked count memoryFreed }
  else
    match q.heap p with
    | none => none
    | some item =>
      match item.next with
      | none => none
      | some next => some { q with
          heap := Function.update q.heap p none
          gc := .freeing positions next (count + 1) (memoryFreed + (item.value.map Message.memory).getD 0)
          deleted := q.deleted ++ [p]
        }

def master (q : MessageQueue W) : Option (MessageQueue W) :=
  match q.gc with
  | .idle => some { q with gc := .reading [] }
  | .reading positions =>
    -- `GetCursorPosition` reads the cursor of one consumer without a lock
    if h : positions.length < W + 1 then
      some { q with gc := .reading (positions ++ [q.cursor ⟨positions.length, h⟩]) }
    else
      some { q with gc := .freeing positions q.head 0 0 }
  | .freeing positions p count memoryFreed => q.freeOldest positions p count memoryFreed
  | .unlinked count memoryFreed => some { q with
      memoryUsage := q.memoryUsage - memoryFreed
      size := q.size - count
      gc := .idle
    }

inductive Label (W : Nat)
  | push (a : Addr) (m : Message)
  | next (i : Fin (W + 1))
  | master

def Label.isMaster : Label W → Bool
  | master => true
  | _ => false

def step (q : MessageQueue W) : Label W → Option (MessageQueue W)
  | .push a m => q.mqPush a m
  | .next i => (q.mqNext i).map Prod.fst
  | .master => q.master

-- the allocator hands out memory that is not in use
def Legal (q : MessageQueue W) : Label W → Prop
  | .push a _ => q.heap a = none
  | _ => True

def Step (q : MessageQueue W) (l : Label W) (q' : MessageQueue W) : Prop :=
  q.Legal l ∧ q.step l = some q'

def Linked (heap : Addr → Option MQItem) : List Addr → Prop
  | [] => False
  | [a] => ∃ value, heap a = some ⟨value, none⟩
  | a :: b :: rest => (∃ value, heap a = some ⟨value, some b⟩) ∧ Linked heap (b :: rest)

def memoryAt (heap : Addr → Option MQItem) (a : Addr) : Nat :=
  (((heap a).bind MQItem.value).map Message.memory).getD 0

end MessageQueue
end Kids
