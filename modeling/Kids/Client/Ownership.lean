import Kids.Client.Command
import Mathlib.Data.List.ReduceOption
import Mathlib.Logic.Function.Basic

/-!
Who owns the strings that `ParseRequestBuffer` allocates. A string is a pointer into a heap that is never
reused, and the command handlers move the pointers between the slots of `argv_`, the two sets of the client,
the `Pattern` objects, the messages of the queue, and the strings that have been freed.
-/

namespace Kids

open Bytes

abbrev SdsId := Nat

/--
`pubsubPatterns` are the `pattern` pointers of this client's `Pattern` objects and `queue` are the messages
it has put into the queue. `freed` is history: the arguments of `sdsfree`.
-/
structure ClientStrings where
  text : SdsId → Bytes
  argv : List (Option SdsId)
  subTopics : List SdsId
  subPatterns : List SdsId
  pubsubPatterns : List SdsId
  queue : List (Option SdsId × Option SdsId)
  closing : Bool
  destroyed : Bool
  freed : List SdsId
  created : Nat

namespace ClientStrings

def init : ClientStrings where
  text := fun _ => []
  argv := []
  subTopics := []
  subPatterns := []
  pubsubPatterns := []
  queue := []
  closing := false
  destroyed := false
  freed := []
  created := 0

def names (s : ClientStrings) : SubscriptionKind → List SdsId
  | .topic => s.subTopics
  | .pattern => s.subPatterns

def argText (s : ClientStrings) : Option SdsId → Bytes
  | none => []
  | some id => s.text id

-- a `sds` that `ParseRequestBuffer` pushes
def argument (s : ClientStrings) (data : Bytes) : ClientStrings where
  text := Function.update s.text s.created data
  argv := s.argv ++ [some s.created]
  subTopics := s.subTopics
  subPatterns := s.subPatterns
  pubsubPatterns := s.pubsubPatterns
  queue := s.queue
  closing := s.closing
  destroyed := s.destroyed
  freed := s.freed
  created := s.created + 1

def insert (s : ClientStrings) (k : SubscriptionKind) (id : SdsId) : ClientStrings :=
  match k with
  | .topic => { s with subTopics := s.subTopics ++ [id] }
  | .pattern => { s with subPatterns := s.subPatterns ++ [id], pubsubPatterns := s.pubsubPatterns ++ [id] }

def subscribeSlot (k : SubscriptionKind) (s : ClientStrings) : Option SdsId → ClientStrings × Option SdsId
  | none => (s, none)
  | some id =>
    if (s.names k).any (fun other => s.text other = s.text id) then
      (s, some id)
    else
      -- the set has the string from here on
      (s.insert k id, none)

def subscribeEach (k : SubscriptionKind) (s : ClientStrings)
    : List (Option SdsId) → ClientStrings × List (Option SdsId)
  | [] => (s, [])
  | slot :: slots =>
    let (s, slot) := s.subscribeSlot k slot
    let (s, slots) := s.subscribeEach k slots
    (s, slot :: slots)

def subscribeNames (k : SubscriptionKind) (s : ClientStrings) : ClientStrings :=
  let (s', slots) := s.subscribeEach k s.argv.tail
  { s' with argv := s.argv.take 1 ++ slots }

def unsubscribeName (k : SubscriptionKind) (s : ClientStrings) (name : Bytes) : ClientStrings :=
  match (s.names k).find? (fun id => s.text id = name) with
  | none => s
  | some id =>
    match k with
    | .topic => { s with subTopics := s.subTopics.erase id, freed := s.freed ++ [id] }
    | .pattern => { s with
        -- the `Pattern` goes, without its string, before the string goes
        pubsubPatterns := s.pubsubPatterns.eraseP (fun id => s.text id = name)
        subPatterns := s.subPatterns.erase id
        freed := s.freed ++ [id]
      }

-- a round of the loop removes a name, so the number of names is enough fuel
def unsubscribeAll (order : BeginOrder SdsId) (k : SubscriptionKind) (fuel : Nat) (s : ClientStrings)
    : Option ClientStrings :=
  match fuel, s.names k with
  | _, [] => some s
  | 0, _ :: _ => none
  | fuel + 1, id :: ids => unsubscribeAll order k fuel (s.unsubscribeName k (s.text (order.first id ids)))

def unsubscribeNames (order : BeginOrder SdsId) (k : SubscriptionKind) (s : ClientStrings) : Option ClientStrings :=
  if s.argv.length > 1 then
    some ((s.argv.tail.map s.argText).foldl (unsubscribeName k) s)
  else
    s.unsubscribeAll order k (s.names k).length

-- `accepted` is what `PutMessage` returns
def processLog (accepted : Bool) (s : ClientStrings) : ClientStrings :=
  match s.argv with
  | [name, topic, content] => { s with
      queue := if accepted then s.queue ++ [(topic, content)] else s.queue
      argv := [name, none, none]
    }
  | _ => s

def command (s : ClientStrings) : Command :=
  Command.ofName (s.argText (s.argv.headD none))

def processCommand (accepted : Bool) (order : BeginOrder SdsId) (s : ClientStrings) : Option (ClientStrings × Bool) :=
  match s.command with
  | .quit => some ({ s with closing := true }, false)
  | .log => some (s.processLog accepted, true)
  | .subscribe => some (s.subscribeNames .topic, true)
  | .psubscribe => some (s.subscribeNames .pattern, true)
  | .unsubscribe => (s.unsubscribeNames order .topic).map (., true)
  | .punsubscribe => (s.unsubscribeNames order .pattern).map (., true)
  | .ping | .info | .shutdown | .select | .hello | .other => some (s, true)

def resetArgumentVector (s : ClientStrings) : ClientStrings :=
  { s with argv := [], freed := s.freed ++ s.argv.reduceOption }

-- the loop body of `ProcessRequestBuffer`, when an argument vector is complete
def processArguments (accepted : Bool) (order : BeginOrder SdsId) (s : ClientStrings) : Option ClientStrings :=
  if s.argv.length = 0 then
    some s.resetArgumentVector
  else
    match s.processCommand accepted order with
    | none => none
    | some (s, ret) => some (if ret then s.resetArgumentVector else s)

def messageStrings (m : Option SdsId × Option SdsId) : List SdsId :=
  m.1.toList ++ m.2.toList

-- `MQFreeOldMessages`, which deletes the first messages of the queue
def freeOldMessages (n : Nat) (s : ClientStrings) : ClientStrings :=
  { s with queue := s.queue.drop n, freed := s.freed ++ (s.queue.take n).flatMap messageStrings }

-- `~Client`; the vector goes, and not what is in it
def destroy (order : BeginOrder SdsId) (s : ClientStrings) : Option ClientStrings := do
  let s ← s.unsubscribeAll order .topic s.subTopics.length
  let s ← s.unsubscribeAll order .pattern s.subPatterns.length
  some { s with argv := [], destroyed := true }

inductive Label
  | argument (data : Bytes)
  | processArguments (accepted : Bool) (order : BeginOrder SdsId)
  | processProtocolError
  | freeOldMessages (n : Nat)
  | destroy (order : BeginOrder SdsId)

def step (s : ClientStrings) (l : Label) : Option ClientStrings :=
  match l with
  | .freeOldMessages n => some (s.freeOldMessages n)
  | .destroy order => if s.destroyed then some s else s.destroy order
  -- a closing client reads no more
  | .argument data => if s.destroyed || s.closing then some s else some (s.argument data)
  | .processArguments accepted order => if s.destroyed || s.closing then some s else s.processArguments accepted order
  | .processProtocolError => if s.destroyed || s.closing then some s else some { s with closing := true }

def queued (s : ClientStrings) : List SdsId :=
  s.queue.flatMap messageStrings

def owners (s : ClientStrings) : List SdsId :=
  s.argv.reduceOption ++ (s.subTopics ++ (s.subPatterns ++ (s.queued ++ s.freed)))

/--
Every string has one owner, to be freed counting as the last one, no `Pattern` refers to a string that is
freed, and a client that is destroyed has left no string behind, but for those of its messages.
-/
structure OneOwner (s : ClientStrings) : Prop where
  once : ∀ id, id < s.created → s.owners.count id = 1
  live : ∀ id ∈ s.pubsubPatterns, id ∉ s.freed
  released : s.destroyed = true → ∀ id, id < s.created → id ∈ s.queued ∨ id ∈ s.freed

/--
No message is refused, and the client is destroyed with an empty `argv_`.
-/
def Allowed (s : ClientStrings) : Label → Prop
  | .processArguments accepted _ => s.closing = false → s.command = .log → s.argv.length = 3 → accepted = true
  | .destroy _ => s.argv = []
  | _ => True

end ClientStrings
end Kids
