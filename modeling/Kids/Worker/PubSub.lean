import Kids.Util.Bytes
import Mathlib.Logic.Function.Basic

/-!
The subscriptions of a worker's clients: the commands of `pubsub.cc`, the ways a client is freed and
`Worker::PublishMessage`. A client is a pointer into `heap`; using or deleting a client that is not there,
or an entry of `clients_by_topic_` that is not there, is `none`.
-/

namespace Kids

abbrev ClientId := Nat

/--
`*begin()` of an `unordered_set` that holds these, which the hashes decide.
-/
structure BeginOrder (α : Type) where
  first : α → List α → α
  mem : ∀ a as, first a as ∈ a :: as

namespace BeginOrder

def insertion : BeginOrder α := ⟨fun a _ => a, fun _ as => .head as⟩

variable [BEq α] (order : BeginOrder α)

-- what is at `begin()` while one after the other is erased there
def visit : Nat → List α → List α
  | _, [] => []
  | 0, _ :: _ => []
  | n + 1, a :: as => order.first a as :: visit n ((a :: as).erase (order.first a as))

def walk (as : List α) : List α :=
  order.visit as.length as

theorem visit_perm [LawfulBEq α] {as : List α} (h : as.length ≤ n) : (order.visit n as).Perm as := by
  induction n generalizing as with
  | zero =>
    rw [List.eq_nil_of_length_eq_zero (Nat.le_zero.mp h)]
    rfl
  | succ n ih =>
    cases as with
    | nil => rfl
    | cons a as =>
      have hmem := order.mem a as
      have hless : ((a :: as).erase (order.first a as)).length ≤ n := by
        rw [List.length_erase_of_mem hmem]
        exact Nat.le_of_succ_le_succ h
      exact ((ih hless).cons _).trans (List.perm_cons_erase hmem).symm

theorem walk_perm [LawfulBEq α] (as : List α) : (order.walk as).Perm as :=
  order.visit_perm (Nat.le_refl as.length)

end BeginOrder

/--
`sub_topics_` and `sub_patterns_` of a client, in the order in which they came.
-/
structure Subscriber where
  subTopics : List Bytes
  subPatterns : List Bytes

inductive Delivery
  | message (c : ClientId)
  | patternMessage (c : ClientId) (pattern : Bytes)
  deriving DecidableEq

structure Worker where
  heap : ClientId → Option Subscriber
  clients : List ClientId
  clientsToClose : List ClientId
  clientsByTopic : Bytes → Option (List ClientId)
  pubsubPatterns : List (Bytes × ClientId)

namespace Worker

def init : Worker where
  heap := fun _ => none
  clients := []
  clientsToClose := []
  clientsByTopic := fun _ => none
  pubsubPatterns := []

-- `GetNewConnection`, with the client that `new` has put at `c`
def getNewConnection (w : Worker) (c : ClientId) : Worker :=
  { w with heap := Function.update w.heap c (some ⟨[], []⟩), clients := w.clients ++ [c] }

def freeClientAsync (w : Worker) (c : ClientId) : Worker :=
  if c ∈ w.clients then
    { w with clients := w.clients.filter (. ≠ c), clientsToClose := w.clientsToClose ++ [c] }
  else
    w

-- the replies to a client, after which its output buffer may be over the limit
def reply (w : Worker) (c : ClientId) (limitReached : Bool) : Worker :=
  if limitReached then w.freeClientAsync c else w

-- the list of a topic with one more client, for a topic that has no list yet or one that has
def addClient (clients : Option (List ClientId)) (c : ClientId) : List ClientId :=
  match clients with
  | none => [c]
  | some clients => clients ++ [c]

def subscribeTopic (w : Worker) (c : ClientId) (topic : Bytes) : Option Worker :=
  match w.heap c with
  | none => none
  | some sub =>
    if topic ∈ sub.subTopics then
      some w
    else
      some { w with
        heap := Function.update w.heap c (some { sub with subTopics := sub.subTopics ++ [topic] })
        clientsByTopic := Function.update w.clientsByTopic topic (some (addClient (w.clientsByTopic topic) c))
      }

def subscribePattern (w : Worker) (c : ClientId) (pattern : Bytes) : Option Worker :=
  match w.heap c with
  | none => none
  | some sub =>
    if pattern ∈ sub.subPatterns then
      some w
    else
      some { w with
        heap := Function.update w.heap c (some { sub with subPatterns := sub.subPatterns ++ [pattern] })
        pubsubPatterns := w.pubsubPatterns ++ [(pattern, c)]
      }

def unsubscribeTopic (w : Worker) (c : ClientId) (topic : Bytes) : Option Worker :=
  match w.heap c with
  | none => none
  | some sub =>
    if topic ∈ sub.subTopics then
      match w.clientsByTopic topic with
      | none => none
      | some clients =>
        let clients := clients.filter (. ≠ c)
        some { w with
          heap := Function.update w.heap c (some { sub with subTopics := sub.subTopics.erase topic })
          clientsByTopic := Function.update w.clientsByTopic topic (if clients = [] then none else some clients)
        }
    else
      some w

def unsubscribePattern (w : Worker) (c : ClientId) (pattern : Bytes) : Option Worker :=
  match w.heap c with
  | none => none
  | some sub =>
    if pattern ∈ sub.subPatterns then
      some { w with
        heap := Function.update w.heap c (some { sub with subPatterns := sub.subPatterns.erase pattern })
        pubsubPatterns := w.pubsubPatterns.erase (pattern, c)
      }
    else
      some w

def processEach (body : Nat → Worker → Bytes → Option Worker) (w : Worker) (args : List Bytes) : Option Worker :=
  go 0 w args
where
  go (i : Nat) (w : Worker) : List Bytes → Option Worker
    | [] => some w
    | arg :: args =>
      match body i w arg with
      | none => none
      | some w => go (i + 1) w args

def processSubscribe (w : Worker) (c : ClientId) (limitReached : Nat → Bool) (args : List Bytes) : Option Worker :=
  if args = [] then
    some (w.reply c (limitReached 0))
  else
    w.processEach (fun i w topic => (w.subscribeTopic c topic).map (reply . c (limitReached i))) args

def processPSubscribe (w : Worker) (c : ClientId) (limitReached : Nat → Bool) (args : List Bytes) : Option Worker :=
  if args = [] then
    some (w.reply c (limitReached 0))
  else
    w.processEach (fun i w pattern => (w.subscribePattern c pattern).map (reply . c (limitReached i))) args

-- a round of the loop removes a topic, so the number of topics is enough fuel
def unsubscribeAllTopics (order : BeginOrder Bytes) (w : Worker) (c : ClientId) (limitReached : Nat → Bool) (fuel : Nat)
    : Option Worker :=
  match w.heap c with
  | none => none
  | some sub =>
    match fuel, sub.subTopics with
    | _, [] => some w
    | 0, _ :: _ => none
    | fuel + 1, topic :: topics =>
      match (w.reply c (limitReached fuel)).unsubscribeTopic c (order.first topic topics) with
      | none => none
      | some w => unsubscribeAllTopics order w c limitReached fuel

def unsubscribeAllPatterns (order : BeginOrder Bytes) (w : Worker) (c : ClientId) (limitReached : Nat → Bool) (fuel : Nat)
    : Option Worker :=
  match w.heap c with
  | none => none
  | some sub =>
    match fuel, sub.subPatterns with
    | _, [] => some w
    | 0, _ :: _ => none
    | fuel + 1, pattern :: patterns =>
      match (w.reply c (limitReached fuel)).unsubscribePattern c (order.first pattern patterns) with
      | none => none
      | some w => unsubscribeAllPatterns order w c limitReached fuel

def subTopics (w : Worker) (c : ClientId) : List Bytes :=
  ((w.heap c).map Subscriber.subTopics).getD []

def subPatterns (w : Worker) (c : ClientId) : List Bytes :=
  ((w.heap c).map Subscriber.subPatterns).getD []

def processUnSubscribe (order : BeginOrder Bytes) (w : Worker) (c : ClientId) (limitReached : Nat → Bool)
    (args : List Bytes) : Option Worker :=
  if args = [] then
    w.unsubscribeAllTopics order c limitReached (w.subTopics c).length
  else
    -- the replies come before the client is removed
    w.processEach (fun i w topic => (w.reply c (limitReached i)).unsubscribeTopic c topic) args

def processPUnSubscribe (order : BeginOrder Bytes) (w : Worker) (c : ClientId) (limitReached : Nat → Bool)
    (args : List Bytes) : Option Worker :=
  if args = [] then
    w.unsubscribeAllPatterns order c limitReached (w.subPatterns c).length
  else
    w.processEach (fun i w pattern => (w.reply c (limitReached i)).unsubscribePattern c pattern) args

def delete (order : BeginOrder Bytes) (w : Worker) (c : ClientId) : Option Worker :=
  match w.unsubscribeAllTopics order c (fun _ => false) (w.subTopics c).length with
  | none => none
  | some w =>
    match w.unsubscribeAllPatterns order c (fun _ => false) (w.subPatterns c).length with
    | none => none
    | some w => some { w with heap := Function.update w.heap c none }

def freeClient (order : BeginOrder Bytes) (w : Worker) (c : ClientId) : Option Worker :=
  if c ∈ w.clients then
    { w with clients := w.clients.erase c }.delete order c
  else
    some w

def freeClientsInAsyncFreeQueue (order : BeginOrder Bytes) (w : Worker) : Option Worker :=
  match w.clientsToClose.foldlM (delete order) w with
  | none => none
  | some w => some { w with clientsToClose := [] }

/--
`PublishMessage` of a message with this topic: the worker after it and the clients it is given to, in order.
The pattern matching of `stringmatchlen` is a parameter.
-/
def publishMessage (stringMatch : Bytes → Bytes → Bool) (w : Worker) (topic : Bytes) (limitReached : Nat → Bool)
    : Option (Worker × List Delivery) :=
  let direct := ((w.clientsByTopic topic).getD []).map fun c => (c, Delivery.message c)
  let matching := (w.pubsubPatterns.filter fun entry => stringMatch entry.1 topic).map fun entry =>
    (entry.2, Delivery.patternMessage entry.2 entry.1)
  go 0 w (direct ++ matching)
where
  go (i : Nat) (w : Worker) : List (ClientId × Delivery) → Option (Worker × List Delivery)
    | [] => some (w, [])
    | (c, delivery) :: rest =>
      match w.heap c with
      | none => none
      | some _ =>
        match go (i + 1) (w.reply c (limitReached i)) rest with
        | none => none
        | some (w, deliveries) => some (w, delivery :: deliveries)

inductive Label
  | getNewConnection (c : ClientId)
  | subscribe (c : ClientId) (args : List Bytes) (limitReached : Nat → Bool)
  | psubscribe (c : ClientId) (args : List Bytes) (limitReached : Nat → Bool)
  | unsubscribe (order : BeginOrder Bytes) (c : ClientId) (args : List Bytes) (limitReached : Nat → Bool)
  | punsubscribe (order : BeginOrder Bytes) (c : ClientId) (args : List Bytes) (limitReached : Nat → Bool)
  | freeClient (order : BeginOrder Bytes) (c : ClientId)
  | freeClientAsync (c : ClientId)
  | freeClientsInAsyncFreeQueue (order : BeginOrder Bytes)
  | publishMessage (topic : Bytes) (limitReached : Nat → Bool)

def step (stringMatch : Bytes → Bytes → Bool) (w : Worker) : Label → Option Worker
  | .getNewConnection c => some (w.getNewConnection c)
  | .subscribe c args limitReached => w.processSubscribe c limitReached args
  | .psubscribe c args limitReached => w.processPSubscribe c limitReached args
  | .unsubscribe order c args limitReached => w.processUnSubscribe order c limitReached args
  | .punsubscribe order c args limitReached => w.processPUnSubscribe order c limitReached args
  | .freeClient order c => w.freeClient order c
  | .freeClientAsync c => some (w.freeClientAsync c)
  | .freeClientsInAsyncFreeQueue order => w.freeClientsInAsyncFreeQueue order
  | .publishMessage topic limitReached => (w.publishMessage stringMatch topic limitReached).map Prod.fst

def Legal (w : Worker) : Label → Prop
  | .getNewConnection c => w.heap c = none
  | .subscribe c _ _ => w.heap c ≠ none
  | .psubscribe c _ _ => w.heap c ≠ none
  | .unsubscribe _ c _ _ => w.heap c ≠ none
  | .punsubscribe _ c _ _ => w.heap c ≠ none
  | .freeClient _ c => w.heap c ≠ none
  | .freeClientAsync c => w.heap c ≠ none
  | .freeClientsInAsyncFreeQueue _ => True
  | .publishMessage _ _ => True

def Step (stringMatch : Bytes → Bytes → Bool) (w : Worker) (l : Label) (w' : Worker) : Prop :=
  w.Legal l ∧ w.step stringMatch l = some w'

end Worker
end Kids
