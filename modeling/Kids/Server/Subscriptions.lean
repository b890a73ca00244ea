import Kids.Client.Confirmations
import Kids.Server.Broadcast

/-!
A command edits the subscriptions of its client in two places: the handlers of `pubsub.cc` keep the sets of the
client, and the tables of the worker. What the replies are made from and what the tables hold is the same.
-/

namespace Kids

namespace SubscriptionCall

/--
The calls that `ProcessCommand` makes of the handlers of `pubsub.cc`.
-/
def ofArgv (argv : List Bytes) : Option SubscriptionCall :=
  match Command.ofName (argv.headD []) with
  | .subscribe => some (.subscribe .topic argv.tail)
  | .psubscribe => some (.subscribe .pattern argv.tail)
  | .unsubscribe => some (.unsubscribe .topic argv.tail)
  | .punsubscribe => some (.unsubscribe .pattern argv.tail)
  | _ => none

end SubscriptionCall

namespace RequestEvent

-- the subscriptions of a client behind the event
def subscribed (sub : Subscriber) : RequestEvent → Subscriber
  | .command argv => ((SubscriptionCall.ofArgv argv).map (SubscriptionCall.apply sub)).getD sub
  | .protocolError _ => sub

end RequestEvent

namespace Worker

variable {w w' : Worker} {c : ClientId} {sub : Subscriber} {order : BeginOrder Bytes}

theorem subscribeTopic_heap (hc : w.heap c = some sub) (h : w.subscribeTopic c topic = some w')
    : w'.heap = Function.update w.heap c (some (sub.insert .topic topic)) := by
  unfold subscribeTopic at h
  rw [hc] at h
  dsimp only at h
  split at h
  . next htopic =>
    cases h
    have hcontains : (sub.names .topic).contains topic = true := List.contains_iff_mem.mpr htopic
    unfold Subscriber.insert
    rw [if_pos hcontains, ← hc, Function.update_eq_self]
  . next htopic =>
    cases h
    have hcontains : ¬(sub.names .topic).contains topic = true := fun h => htopic (List.contains_iff_mem.mp h)
    unfold Subscriber.insert
    rw [if_neg hcontains]
    rfl

theorem subscribePattern_heap (hc : w.heap c = some sub) (h : w.subscribePattern c pattern = some w')
    : w'.heap = Function.update w.heap c (some (sub.insert .pattern pattern)) := by
  unfold subscribePattern at h
  rw [hc] at h
  dsimp only at h
  split at h
  . next hpattern =>
    cases h
    have hcontains : (sub.names .pattern).contains pattern = true := List.contains_iff_mem.mpr hpattern
    unfold Subscriber.insert
    rw [if_pos hcontains, ← hc, Function.update_eq_self]
  . next hpattern =>
    cases h
    have hcontains : ¬(sub.names .pattern).contains pattern = true := fun h => hpattern (List.contains_iff_mem.mp h)
    unfold Subscriber.insert
    rw [if_neg hcontains]
    rfl

theorem unsubscribeTopic_heap (hc : w.heap c = some sub) (h : w.unsubscribeTopic c topic = some w')
    : w'.heap = Function.update w.heap c (some (sub.erase .topic topic)) := by
  unfold unsubscribeTopic at h
  rw [hc] at h
  dsimp only at h
  split at h
  . split at h
    . cases h
    . cases h
      rfl
  . next htopic =>
    cases h
    rw [Subscriber.erase_absent (show topic ∉ sub.names .topic from htopic), ← hc, Function.update_eq_self]

theorem unsubscribePattern_heap (hc : w.heap c = some sub) (h : w.unsubscribePattern c pattern = some w')
    : w'.heap = Function.update w.heap c (some (sub.erase .pattern pattern)) := by
  unfold unsubscribePattern at h
  rw [hc] at h
  dsimp only at h
  split at h
  . cases h
    rfl
  . next hpattern =>
    cases h
    rw [Subscriber.erase_absent (show pattern ∉ sub.names .pattern from hpattern), ← hc, Function.update_eq_self]

theorem processEach_heap {body : Nat → Worker → Bytes → Option Worker} (f : Subscriber → Bytes → Subscriber)
    (hbody : ∀ i w arg w' sub, w.heap c = some sub → body i w arg = some w' →
      w'.heap = Function.update w.heap c (some (f sub arg)))
    (hc : w.heap c = some sub) (h : w.processEach body args = some w')
    : w'.heap = Function.update w.heap c (some (args.foldl f sub)) := by
  unfold processEach at h
  generalize 0 = i at h
  induction args generalizing i w sub with
  | nil =>
    cases h
    rw [List.foldl_nil, ← hc, Function.update_eq_self]
  | cons arg args ih =>
    unfold processEach.go at h
    split at h
    . cases h
    . next w1 hw1 =>
      have hheap := hbody i w arg w1 sub hc hw1
      have hc1 : w1.heap c = some (f sub arg) := by rw [hheap, Function.update_self]
      rw [ih hc1 (i + 1) h, hheap, Function.update_idem, List.foldl_cons]

theorem unsubscribeAllTopics_heap (hc : w.heap c = some sub)
    (h : w.unsubscribeAllTopics order c limitReached fuel = some w')
    : w'.heap = Function.update w.heap c
        (some (sub.subTopics.foldl (fun sub name => sub.erase .topic name) sub)) := by
  induction fuel generalizing w sub with
  | zero =>
    unfold unsubscribeAllTopics at h
    rw [hc] at h
    dsimp only at h
    split at h
    . next hnil =>
      cases h
      rw [hnil, List.foldl_nil, ← hc, Function.update_eq_self]
    . cases h
    . next heq _ => cases heq
  | succ fuel ih =>
    unfold unsubscribeAllTopics at h
    rw [hc] at h
    dsimp only at h
    split at h
    . next hnil =>
      cases h
      rw [hnil, List.foldl_nil, ← hc, Function.update_eq_self]
    . next heq _ => cases heq
    . next topic topics heq htopics =>
      cases heq
      split at h
      . cases h
      . next w1 hw1 =>
        have hreply : (w.reply c (limitReached fuel)).heap c = some sub := by rwa [reply_heap]
        have hheap := unsubscribeTopic_heap hreply hw1
        rw [reply_heap] at hheap
        have hc1 : w1.heap c = some (sub.erase .topic (order.first topic topics)) := by rw [hheap, Function.update_self]
        have hmem : order.first topic topics ∈ sub.names .topic := by
          rw [show sub.names .topic = topic :: topics from htopics]
          exact order.mem topic topics
        rw [ih hc1 h, hheap, Function.update_idem]
        exact congrArg (fun sub => Function.update w.heap c (some sub)) (Subscriber.foldl_erase_of_mem hmem)

theorem unsubscribeAllPatterns_heap (hc : w.heap c = some sub)
    (h : w.unsubscribeAllPatterns order c limitReached fuel = some w')
    : w'.heap = Function.update w.heap c
        (some (sub.subPatterns.foldl (fun sub name => sub.erase .pattern name) sub)) := by
  induction fuel generalizing w sub with
  | zero =>
    unfold unsubscribeAllPatterns at h
    rw [hc] at h
    dsimp only at h
    split at h
    . next hnil =>
      cases h
      rw [hnil, List.foldl_nil, ← hc, Function.update_eq_self]
    . cases h
    . next heq _ => cases heq
  | succ fuel ih =>
    unfold unsubscribeAllPatterns at h
    rw [hc] at h
    dsimp only at h
    split at h
    . next hnil =>
      cases h
      rw [hnil, List.foldl_nil, ← hc, Function.update_eq_self]
    . next heq _ => cases heq
    . next pattern patterns heq hpatterns =>
      cases heq
      split at h
      . cases h
      . next w1 hw1 =>
        have hreply : (w.reply c (limitReached fuel)).heap c = some sub := by rwa [reply_heap]
        have hheap := unsubscribePattern_heap hreply hw1
        rw [reply_heap] at hheap
        have hc1 : w1.heap c = some (sub.erase .pattern (order.first pattern patterns)) := by rw [hheap, Function.update_self]
        have hmem : order.first pattern patterns ∈ sub.names .pattern := by
          rw [show sub.names .pattern = pattern :: patterns from hpatterns]
          exact order.mem pattern patterns
        rw [ih hc1 h, hheap, Function.update_idem]
        exact congrArg (fun sub => Function.update w.heap c (some sub)) (Subscriber.foldl_erase_of_mem hmem)

theorem processSubscribe_heap (hc : w.heap c = some sub) (h : w.processSubscribe c limitReached args = some w')
    : w'.heap = Function.update w.heap c (some ((SubscriptionCall.subscribe .topic args).apply sub)) := by
  unfold processSubscribe at h
  split at h
  . next hargs =>
    cases h
    rw [reply_heap, hargs]
    exact (Function.update_eq_self_iff.mpr hc.symm).symm
  . refine processEach_heap (fun sub name => sub.insert .topic name) ?_ hc h
    intro i w topic w' sub hc hw'
    obtain ⟨w1, hw1, rfl⟩ := Option.map_eq_some_iff.mp hw'
    rw [reply_heap]
    exact subscribeTopic_heap hc hw1

theorem processPSubscribe_heap (hc : w.heap c = some sub) (h : w.processPSubscribe c limitReached args = some w')
    : w'.heap = Function.update w.heap c (some ((SubscriptionCall.subscribe .pattern args).apply sub)) := by
  unfold processPSubscribe at h
  split at h
  . next hargs =>
    cases h
    rw [reply_heap, hargs]
    exact (Function.update_eq_self_iff.mpr hc.symm).symm
  . refine processEach_heap (fun sub name => sub.insert .pattern name) ?_ hc h
    intro i w pattern w' sub hc hw'
    obtain ⟨w1, hw1, rfl⟩ := Option.map_eq_some_iff.mp hw'
    rw [reply_heap]
    exact subscribePattern_heap hc hw1

theorem processUnSubscribe_heap (hc : w.heap c = some sub)
    (h : w.processUnSubscribe order c limitReached args = some w')
    : w'.heap = Function.update w.heap c (some ((SubscriptionCall.unsubscribe .topic args).apply sub)) := by
  unfold processUnSubscribe at h
  unfold SubscriptionCall.apply SubscriptionCall.unsubscribed
  dsimp only
  split at h
  . next hargs =>
    rw [if_pos hargs]
    exact unsubscribeAllTopics_heap hc h
  . next hargs =>
    rw [if_neg hargs]
    refine processEach_heap (fun sub name => sub.erase .topic name) ?_ hc h
    intro i w topic w' sub hc hw'
    have hheap := unsubscribeTopic_heap (by rwa [reply_heap]) hw'
    rwa [reply_heap] at hheap

theorem processPUnSubscribe_heap (hc : w.heap c = some sub)
    (h : w.processPUnSubscribe order c limitReached args = some w')
    : w'.heap = Function.update w.heap c (some ((SubscriptionCall.unsubscribe .pattern args).apply sub)) := by
  unfold processPUnSubscribe at h
  unfold SubscriptionCall.apply SubscriptionCall.unsubscribed
  dsimp only
  split at h
  . next hargs =>
    rw [if_pos hargs]
    exact unsubscribeAllPatterns_heap hc h
  . next hargs =>
    rw [if_neg hargs]
    refine processEach_heap (fun sub name => sub.erase .pattern name) ?_ hc h
    intro i w pattern w' sub hc hw'
    have hheap := unsubscribePattern_heap (by rwa [reply_heap]) hw'
    rwa [reply_heap] at hheap

theorem processEvent_heap (hc : w.heap c = some sub) (h : w.processEvent order c e = some w')
    : w'.heap = Function.update w.heap c (some (e.subscribed sub)) := by
  cases e with
  | protocolError err =>
    cases h
    exact (Function.update_eq_self_iff.mpr hc.symm).symm
  | command argv =>
    unfold processEvent at h
    unfold RequestEvent.subscribed SubscriptionCall.ofArgv
    dsimp only at h ⊢
    generalize Command.ofName (argv.headD []) = cmd at h ⊢
    cases cmd with
    | subscribe => exact processSubscribe_heap hc h
    | psubscribe => exact processPSubscribe_heap hc h
    | unsubscribe => exact processUnSubscribe_heap hc h
    | punsubscribe => exact processPUnSubscribe_heap hc h
    | _ =>
      cases h
      exact (Function.update_eq_self_iff.mpr hc.symm).symm

end Worker

namespace Session

variable {env : CommandEnv} {s s' : Session}

theorem subscribeEach_sub (h : s.subscribeEach k env names = some s')
    : s'.sub = names.foldl (fun sub name => sub.insert k name) s.sub := by
  induction names generalizing s with
  | nil =>
    cases h
    rfl
  | cons name names ih =>
    unfold subscribeEach at h
    obtain ⟨s1, h1, h⟩ := Option.bind_eq_some_iff.mp h
    rw [ih h, notifyClient_sub h1, List.foldl_cons]

theorem unsubscribeEach_sub (h : s.unsubscribeEach k env names = some s')
    : s'.sub = names.foldl (fun sub name => sub.erase k name) s.sub := by
  induction names generalizing s with
  | nil =>
    cases h
    rfl
  | cons name names ih =>
    unfold unsubscribeEach at h
    obtain ⟨s1, h1, h⟩ := Option.bind_eq_some_iff.mp h
    rw [ih h, unsubscribeName_sub h1, List.foldl_cons]

theorem subscribeNames_sub (h : s.subscribeNames k env args = some s')
    : s'.sub = (SubscriptionCall.subscribe k args).apply s.sub := by
  unfold subscribeNames at h
  split at h
  . next hargs =>
    rw [call_sub h, hargs]
    rfl
  . exact subscribeEach_sub h

theorem unsubscribeNames_sub (h : s.unsubscribeNames k env args = some s')
    : s'.sub = (SubscriptionCall.unsubscribe k args).apply s.sub := by
  unfold unsubscribeNames at h
  unfold SubscriptionCall.apply SubscriptionCall.unsubscribed
  dsimp only
  split at h
  . next hargs =>
    rw [if_pos hargs, ← Subscriber.foldl_erase_perm (env.order.walk_perm (s.sub.names k))]
    rw [unsubscribeAll_eq] at h
    exact unsubscribeEach_sub h
  . next hargs =>
    rw [if_neg hargs]
    exact unsubscribeEach_sub h

theorem handle_sub (h : s.handle env e = some s') : s'.sub = e.subscribed s.sub := by
  cases e with
  | protocolError err =>
    obtain ⟨s1, h1, h⟩ := Option.bind_eq_some_iff.mp h
    cases h
    cases err with
    | invalidMultibulkLength =>
      cases h1
      rfl
    | expectedDollar got =>
      have hsub : s1.sub = s.sub := call_sub h1
      exact hsub
    | invalidBulkLength =>
      have hsub : s1.sub = s.sub := call_sub h1
      exact hsub
  | command argv =>
    obtain ⟨⟨s1, b⟩, h1, rfl⟩ := Option.map_eq_some_iff.mp h
    unfold processCommand at h1
    unfold RequestEvent.subscribed SubscriptionCall.ofArgv
    dsimp only at h1 ⊢
    generalize Command.ofName (argv.headD []) = cmd at h1 ⊢
    have hmap {x : Option Session} {b' : Bool} (hx : x.map (., b') = some (s1, b)) : x = some s1 := by
      obtain ⟨s2, h2, heq⟩ := Option.map_eq_some_iff.mp hx
      cases heq
      exact h2
    cases cmd with
    | quit =>
      obtain ⟨s2, h2, heq⟩ := Option.bind_eq_some_iff.mp (hmap h1)
      cases heq
      have hsub := call_sub h2
      exact hsub
    | log =>
      have hlog := hmap h1
      unfold processLog at hlog
      split at hlog
      . exact call_sub hlog
      . split at hlog
        . exact call_sub hlog
        . exact call_sub hlog
    | subscribe => exact subscribeNames_sub (hmap h1)
    | psubscribe => exact subscribeNames_sub (hmap h1)
    | unsubscribe => exact unsubscribeNames_sub (hmap h1)
    | punsubscribe => exact unsubscribeNames_sub (hmap h1)
    | shutdown =>
      cases h1
      rfl
    | ping => exact call_sub (hmap h1)
    | info => exact call_sub (hmap h1)
    | select => exact call_sub (hmap h1)
    | hello => exact call_sub (hmap h1)
    | other => exact call_sub (hmap h1)

end Session

namespace Client

variable {peer peer' : Client}

theorem processRound_cases (h : peer.processRound env = some peer')
    : peer'.freed = peer.freed ∧
        ((peer.nextEvent = none ∧ peer'.session = peer.session) ∨
          ∃ e, peer.nextEvent = some e ∧ peer.session.handle env e = some peer'.session) := by
  unfold processRound at h
  unfold nextEvent
  split at h
  . next hstop =>
    cases h
    rw [if_pos hstop]
    exact ⟨rfl, .inl ⟨rfl, rfl⟩⟩
  . next hgo =>
    rw [if_neg hgo]
    cases hparse : peer.request.parseRequestBuffer with
    | none =>
      rw [hparse] at h
      cases h
    | some r =>
      obtain ⟨request, err, ret⟩ := r
      rw [hparse] at h
      cases err with
      | some err =>
        obtain ⟨session, hsession, rfl⟩ := Option.map_eq_some_iff.mp h
        exact ⟨rfl, .inr ⟨_, rfl, hsession⟩⟩
      | none =>
        cases ret with
        | false =>
          cases h
          exact ⟨rfl, .inl ⟨rfl, rfl⟩⟩
        | true =>
          dsimp only at h ⊢
          by_cases hargv : request.argv.length = 0
          . rw [if_pos hargv] at h ⊢
            cases h
            exact ⟨rfl, .inl ⟨rfl, rfl⟩⟩
          . rw [if_neg hargv] at h ⊢
            obtain ⟨⟨session, ret⟩, hcommand, rfl⟩ := Option.map_eq_some_iff.mp h
            refine ⟨rfl, .inr ⟨_, rfl, ?_⟩⟩
            unfold Session.handle
            dsimp only
            rw [hcommand]
            rfl

end Client

namespace Thread

variable {t t' : Thread} {peer peer' : Client}

theorem client_of_processRound (h : t.processRound env c = some t') (hpeer : t.client c = some peer)
    (hround : peer.processRound env = some peer')
    : t'.client c = some peer' ∧ ∀ d, d ≠ c → t'.client d = t.client d := by
  obtain ⟨peer1, peer1', hpeer1, hround1, -, -, -, hcases⟩ := processRound_cases h
  obtain rfl : peer = peer1 := Option.some.inj (hpeer.symm.trans hpeer1)
  obtain rfl : peer' = peer1' := Option.some.inj (hround.symm.trans hround1)
  obtain ⟨sub, hsub, rfl⟩ := client_eq_some hpeer
  obtain ⟨hfreed, hevents⟩ := Client.processRound_cases hround
  have hclient (hheap : t'.tables.heap = Function.update t.tables.heap c (some peer'.session.sub))
      (hself : (t'.endpoint c).request = peer'.request ∧ (t'.endpoint c).reply = peer'.session.reply)
      (hothers : ∀ d, d ≠ c → t'.endpoint d = t.endpoint d)
      : t'.client c = some peer' ∧ ∀ d, d ≠ c → t'.client d = t.client d := by
    constructor
    . unfold client
      rw [hheap, Function.update_self, Option.map_some, hself.1, hself.2]
      have hopen : peer'.freed = false := hfreed
      rw [← hopen]
    . intro d hd
      unfold client
      rw [hheap, Function.update_of_ne hd, hothers d hd]
  obtain ⟨hnone, htables, hendpoint⟩ | ⟨e, tables, hevent, htables, htables', hendpoint⟩ := hcases
  . obtain ⟨-, hsession⟩ | ⟨e, hsome, -⟩ := hevents
    . refine hclient ?_ ?_ ?_
      . rw [htables, hsession]
        exact (Function.update_eq_self_iff.mpr hsub.symm).symm
      . rw [hendpoint, Function.update_self]
        exact ⟨rfl, rfl⟩
      . intro d hd
        rw [hendpoint, Function.update_of_ne hd]
    . rw [hnone] at hsome
      cases hsome
  . obtain ⟨hnone, -⟩ | ⟨e', hsome, hhandle⟩ := hevents
    . rw [hevent] at hnone
      cases hnone
    . obtain rfl : e = e' := Option.some.inj (hevent.symm.trans hsome)
      refine hclient ?_ ?_ ?_
      . rw [htables', Worker.reply_heap, Worker.processEvent_heap hsub htables, Session.handle_sub hhandle]
      . rw [hendpoint, Function.update_self]
        exact ⟨rfl, rfl⟩
      . intro d hd
        rw [hendpoint, Function.update_of_ne hd]

theorem processRound_of_sound (hsound : t.tables.Sound) (hpeer : t.client c = some peer)
    (hround : peer.processRound env = some peer') : ∃ t', t.processRound env c = some t' := by
  unfold processRound
  simp only [hpeer, hround]
  cases hevent : peer.nextEvent with
  | none => exact ⟨_, rfl⟩
  | some e =>
    obtain ⟨tables, htables, -⟩ := hsound.processEvent env.order (client_ne_none hpeer) e
    simp only [htables]
    exact ⟨_, rfl⟩

end Thread

namespace Server

variable {W : Nat} {s : Server W} {peer peer' : Client}

/--
In every state of the server, what the handlers of a client can do to it the worker does: its tables take the
round, they stay sound, the client is as its handlers have left it, and every other client is as before.
-/
theorem round_agrees (h : Run.Reaches (Step queueLimit stringMatch) (init a : Server W) ls s) (w : Fin W)
    (hpeer : (s.thread w).client c = some peer) (hround : peer.processRound env = some peer')
    : ∃ t, (s.thread w).processRound env c = some t ∧ t.tables.Sound ∧ t.client c = some peer' ∧
        ∀ d, d ≠ c → t.client d = (s.thread w).client d := by
  have hsound := (Inv.of_reaches h).sound w
  obtain ⟨t, ht⟩ := Thread.processRound_of_sound hsound hpeer hround
  obtain ⟨hself, hothers⟩ := Thread.client_of_processRound ht hpeer hround
  exact ⟨t, ht, (Thread.Keeps.processRound ht).sound hsound, hself, hothers⟩

-- the round that subscribes
theorem round_agrees_subscribing
    : ∃ (s : Server 1) (peer peer' : Client), Run.Reaches (Step 10 fun _ _ => true) (init 0) (subscribing.take 2) s ∧
        (s.thread 0).client 1 = some peer ∧ peer.processRound ⟨fun _ => ⟨0, 0, 0⟩, 0, true, [], .insertion⟩ = some peer' ∧
        ∃ t, (s.thread 0).processRound ⟨fun _ => ⟨0, 0, 0⟩, 0, true, [], .insertion⟩ 1 = some t ∧ t.client 1 = some peer' := by
  obtain ⟨s, hreach, hsome⟩ := Run.Reaches.exists_of_any (legalStep 10 fun _ _ => true) (init 0) (subscribing.take 2)
    (fun s => (((s.thread 0).client 1).bind (Client.processRound ⟨fun _ => ⟨0, 0, 0⟩, 0, true, [], .insertion⟩)).isSome = true)
    (fun _ _ _ => step_of_legalStep) (by decide +kernel)
  obtain ⟨peer', hpeer'⟩ := Option.isSome_iff_exists.mp hsome
  obtain ⟨peer, hpeer, hround⟩ := Option.bind_eq_some_iff.mp hpeer'
  obtain ⟨t, ht, -, hself, -⟩ := round_agrees hreach 0 hpeer hround
  exact ⟨s, peer, peer', hreach, hpeer, hround, t, ht, hself⟩

end Server
end Kids
