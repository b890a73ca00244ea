import Kids.Lib.Run
import Kids.Client.Framing

/-!
The numbers in the confirmations of SUBSCRIBE, PSUBSCRIBE, UNSUBSCRIBE and PUNSUBSCRIBE, over any sequence of these
commands.
-/

namespace Kids

open Bytes

/--
A confirmation with the number in it. `after` is history: the subscriptions as they are when the item that is
confirmed has been processed.
-/
structure Confirmation where
  kindbulk : Bytes
  name : Bytes
  count : Nat
  after : Subscriber

namespace Confirmation

def encoding (c : Confirmation) : Bytes :=
  Session.notification c.kindbulk c.name c.count

def Right (c : Confirmation) : Prop :=
  c.count = c.after.count

end Confirmation

def subscribeConfirmations (k : SubscriptionKind) (sub : Subscriber) : List Bytes → List Confirmation
  | [] => []
  | name :: names =>
    let sub := sub.insert k name
    ⟨k.subscribebulk, name, sub.count, sub⟩ :: subscribeConfirmations k sub names

def unsubscribeConfirmations (k : SubscriptionKind) (sub : Subscriber) : List Bytes → List Confirmation
  | [] => []
  | name :: names =>
    -- the number is taken before the name goes
    ⟨k.unsubscribebulk, name, sub.count, sub.erase k name⟩ :: unsubscribeConfirmations k (sub.erase k name) names

inductive SubscriptionCall
  | subscribe (k : SubscriptionKind) (args : List Bytes)
  | unsubscribe (k : SubscriptionKind) (args : List Bytes)

namespace SubscriptionCall

def process (env : CommandEnv) (s : Session) : SubscriptionCall → Option Session
  | subscribe .topic args => s.processSubscribe env args
  | subscribe .pattern args => s.processPSubscribe env args
  | unsubscribe .topic args => s.processUnSubscribe env args
  | unsubscribe .pattern args => s.processPUnSubscribe env args

-- without arguments everything of the kind is unsubscribed
def unsubscribed (sub : Subscriber) (k : SubscriptionKind) (args : List Bytes) : List Bytes :=
  if args = [] then sub.names k else args

def confirmations (order : BeginOrder Bytes) (sub : Subscriber) : SubscriptionCall → List Confirmation
  | subscribe k args => subscribeConfirmations k sub args
  | unsubscribe k args => unsubscribeConfirmations k sub (if args = [] then order.walk (sub.names k) else args)

def apply (sub : Subscriber) : SubscriptionCall → Subscriber
  | subscribe k args => args.foldl (fun sub name => sub.insert k name) sub
  | unsubscribe k args => (unsubscribed sub k args).foldl (fun sub name => sub.erase k name) sub

def replies (order : BeginOrder Bytes) (sub : Subscriber) (call : SubscriptionCall) : List Bytes :=
  match call with
  | subscribe k [] => [Session.errorReply k.wrongNumber]
  | _ => (call.confirmations order sub).map Confirmation.encoding

/--
What the call unsubscribes is not subscribed to.
-/
def Absent (sub : Subscriber) : SubscriptionCall → Prop
  | subscribe _ _ => True
  | unsubscribe k args => ∀ name ∈ unsubscribed sub k args, name ∉ sub.names k

end SubscriptionCall

-- each call has the environment of its command
def confirmationsOf (sub : Subscriber) : List (CommandEnv × SubscriptionCall) → List Confirmation
  | [] => []
  | (env, call) :: calls => call.confirmations env.order sub ++ confirmationsOf (call.apply sub) calls

def repliesOf (sub : Subscriber) : List (CommandEnv × SubscriptionCall) → List Bytes
  | [] => []
  | (env, call) :: calls => call.replies env.order sub ++ repliesOf (call.apply sub) calls

theorem encoding_subscribeConfirmations (k : SubscriptionKind) (sub : Subscriber) (names : List Bytes)
    : (subscribeConfirmations k sub names).map Confirmation.encoding = Session.subscribeReplies k sub names := by
  induction names generalizing sub with
  | nil => rfl
  | cons name names ih =>
    unfold subscribeConfirmations Session.subscribeReplies
    rw [List.map_cons, ih]
    rfl

theorem encoding_unsubscribeConfirmations (k : SubscriptionKind) (sub : Subscriber) (names : List Bytes)
    : (unsubscribeConfirmations k sub names).map Confirmation.encoding = Session.unsubscribeReplies k sub names := by
  induction names generalizing sub with
  | nil => rfl
  | cons name names ih =>
    unfold unsubscribeConfirmations Session.unsubscribeReplies
    rw [List.map_cons, ih]
    rfl

theorem Subscriber.erase_erase (sub : Subscriber) (k : SubscriptionKind) (a b : Bytes)
    : (sub.erase k a).erase k b = (sub.erase k b).erase k a := by
  unfold Subscriber.erase
  cases k with
  | topic => simp only [Subscriber.setNames, Subscriber.names, List.erase_comm]
  | pattern => simp only [Subscriber.setNames, Subscriber.names, List.erase_comm]

-- what is left does not depend on the order in which the names go
theorem Subscriber.foldl_erase_perm {names names' : List Bytes} (h : names.Perm names') (k : SubscriptionKind)
    (sub : Subscriber)
    : names.foldl (fun sub name => sub.erase k name) sub = names'.foldl (fun sub name => sub.erase k name) sub :=
  h.foldl_eq' (fun a _ b _ sub => sub.erase_erase k a b) sub

theorem Subscriber.foldl_erase_of_mem {sub : Subscriber} (h : name ∈ sub.names k)
    : ((sub.erase k name).names k).foldl (fun sub name => sub.erase k name) (sub.erase k name) =
        (sub.names k).foldl (fun sub name => sub.erase k name) sub := by
  rw [Session.names_erase, Subscriber.foldl_erase_perm (List.perm_cons_erase h), List.foldl_cons]

namespace Session

theorem makes_subscribeArgs (k : SubscriptionKind) (env : CommandEnv) (s : Session) (args : List Bytes)
    : Makes s (s.subscribeNames k env args) ((SubscriptionCall.subscribe k args).replies env.order s.sub).flatten
        ((SubscriptionCall.subscribe k args).apply s.sub) := by
  unfold subscribeNames
  cases args with
  | nil =>
    rw [if_pos rfl]
    unfold SubscriptionCall.replies
    rw [List.flatten_singleton]
    apply makes_call env s (.replyErrorFormat k.wrongNumber)
  | cons name names =>
    rw [if_neg (List.cons_ne_nil _ _)]
    unfold SubscriptionCall.replies SubscriptionCall.confirmations
    rw [encoding_subscribeConfirmations]
    apply makes_subscribeEach

theorem makes_unsubscribeArgs (k : SubscriptionKind) (env : CommandEnv) (s : Session) (args : List Bytes)
    : Makes s (s.unsubscribeNames k env args) ((SubscriptionCall.unsubscribe k args).replies env.order s.sub).flatten
        ((SubscriptionCall.unsubscribe k args).apply s.sub) := by
  unfold unsubscribeNames SubscriptionCall.replies SubscriptionCall.confirmations SubscriptionCall.apply
    SubscriptionCall.unsubscribed
  dsimp only
  rw [encoding_unsubscribeConfirmations]
  split
  . rw [unsubscribeAll_eq, ← Subscriber.foldl_erase_perm (env.order.walk_perm (s.sub.names k))]
    apply makes_unsubscribeEach
  . apply makes_unsubscribeEach

theorem makes_subscriptionCall (env : CommandEnv) (s : Session) (call : SubscriptionCall)
    : Makes s (call.process env s) (call.replies env.order s.sub).flatten (call.apply s.sub) := by
  cases call with
  | subscribe k args =>
    cases k with
    | topic => apply makes_subscribeArgs .topic env s args
    | pattern => apply makes_subscribeArgs .pattern env s args
  | unsubscribe k args =>
    cases k with
    | topic => apply makes_unsubscribeArgs .topic env s args
    | pattern => apply makes_unsubscribeArgs .pattern env s args

theorem makes_subscriptionCalls (s : Session) (calls : List (CommandEnv × SubscriptionCall))
    : Makes s (calls.foldlM (fun s call => call.2.process call.1 s) s) (repliesOf s.sub calls).flatten
        (calls.foldl (fun sub call => call.2.apply sub) s.sub) := by
  induction calls generalizing s with
  | nil => apply makes_nil
  | cons call calls ih =>
    rw [List.foldlM_cons, List.foldl_cons]
    unfold repliesOf
    rw [List.flatten_append]
    apply Makes.bind (makes_subscriptionCall call.1 s call.2)
    intro s1 h1
    rw [← h1]
    apply ih

end Session

theorem Subscriber.count_erase (sub : Subscriber) (k : SubscriptionKind) (name : Bytes)
    : sub.count = (sub.erase k name).count ↔ name ∉ sub.names k := by
  have hlength (names : List Bytes) : names.length = (names.erase name).length ↔ name ∉ names := by
    by_cases hmem : name ∈ names
    . have hpos := List.length_pos_of_mem hmem
      rw [List.length_erase_of_mem hmem]
      apply iff_of_false
      . omega
      . apply not_not_intro hmem
    . rw [List.erase_of_not_mem hmem]
      apply iff_of_true rfl hmem
  cases k with
  | topic =>
    rw [← hlength]
    unfold Subscriber.count Subscriber.erase Subscriber.setNames Subscriber.names
    dsimp only
    omega
  | pattern =>
    rw [← hlength]
    unfold Subscriber.count Subscriber.erase Subscriber.setNames Subscriber.names
    dsimp only
    omega

theorem Subscriber.erase_absent {sub : Subscriber} (h : name ∉ sub.names k) : sub.erase k name = sub := by
  unfold Subscriber.erase
  rw [List.erase_of_not_mem h]
  cases k with
  | topic => rfl
  | pattern => rfl

theorem right_subscribeConfirmations (k : SubscriptionKind) (sub : Subscriber) (names : List Bytes)
    : ∀ c ∈ subscribeConfirmations k sub names, c.Right := by
  induction names generalizing sub with
  | nil => nofun
  | cons name names ih =>
    unfold subscribeConfirmations
    rw [List.forall_mem_cons]
    constructor
    . rfl
    . apply ih

theorem right_unsubscribeConfirmations_iff (k : SubscriptionKind) (sub : Subscriber) (names : List Bytes)
    : (∀ c ∈ unsubscribeConfirmations k sub names, c.Right) ↔ ∀ name ∈ names, name ∉ sub.names k := by
  induction names generalizing sub with
  | nil => exact iff_of_true (List.forall_mem_nil _) (List.forall_mem_nil _)
  | cons name names ih =>
    unfold unsubscribeConfirmations
    rw [List.forall_mem_cons, List.forall_mem_cons]
    unfold Confirmation.Right
    rw [Subscriber.count_erase]
    -- a name that is absent leaves the subscriptions as they are for the next one
    apply and_congr_right
    intro habsent
    rw [Subscriber.erase_absent habsent]
    apply ih

theorem right_confirmations_iff (order : BeginOrder Bytes) (sub : Subscriber) (call : SubscriptionCall)
    : (∀ c ∈ call.confirmations order sub, c.Right) ↔ call.Absent sub := by
  cases call with
  | subscribe k args =>
    apply iff_of_true
    . apply right_subscribeConfirmations
    . trivial
  | unsubscribe k args =>
    apply (right_unsubscribeConfirmations_iff k sub _).trans
    unfold SubscriptionCall.Absent SubscriptionCall.unsubscribed
    dsimp only
    split
    . simp only [(order.walk_perm (sub.names k)).mem_iff]
    . rfl

/--
Over any sequence of the commands, every confirmation has the number of subscriptions that are left after its item
exactly if only items are unsubscribed that are not subscribed to.
-/
theorem right_confirmationsOf_iff (sub : Subscriber) (calls : List (CommandEnv × SubscriptionCall))
    : (∀ c ∈ confirmationsOf sub calls, c.Right) ↔
        Run.Meets (fun sub call => some (SubscriptionCall.apply sub call.2)) (fun sub call => call.2.Absent sub) sub
          calls := by
  induction calls generalizing sub with
  | nil => exact iff_of_true (List.forall_mem_nil _) trivial
  | cons call calls ih =>
    unfold confirmationsOf Run.Meets
    rw [List.forall_mem_append, right_confirmations_iff, ih]
    apply and_congr_right
    intro _
    constructor
    . rintro h _ ⟨⟩
      apply h
    . intro h
      apply h _ rfl

-- the confirmation of the only subscription that goes says one
theorem right_fails_unsubscribe
    : ¬∀ env, ∀ c ∈ confirmationsOf ⟨[], []⟩
        [(env, .subscribe .topic [ofString "topic 1"]), (env, .unsubscribe .topic [ofString "topic 1"])], c.Right := by
  intro h
  have hlast := h ⟨fun _ => ⟨0, 0, 0⟩, 0, true, [], .insertion⟩
    ⟨SubscriptionKind.topic.unsubscribebulk, ofString "topic 1", 1, ⟨[], []⟩⟩ (.tail _ (.head _))
  cases hlast

end Kids
