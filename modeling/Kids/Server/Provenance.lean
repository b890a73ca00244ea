import Kids.Server.Requests
import Kids.Server.Subscriptions

/-!
Why a client was told something. An answer is made with the subscriptions that the requests before it have left, and
a message comes for one of them.
-/

namespace Kids

namespace Output

def subscribed (sub : Subscriber) : Output → Subscriber
  | answer _ _ e => e.subscribed sub
  | publish _ _ => sub

end Output

-- the subscriptions of a client that was told this
def subscriptionsOf (outputs : List Output) : Subscriber :=
  outputs.foldl Output.subscribed ⟨[], []⟩

theorem subscriptionsOf_concat (outputs : List Output) (o : Output)
    : subscriptionsOf (outputs ++ [o]) = o.subscribed (subscriptionsOf outputs) := by
  unfold subscriptionsOf
  rw [List.foldl_append]
  rfl

-- only the requests count
theorem subscriptionsOf_eq (p : Endpoint)
    : subscriptionsOf p.outputs = p.answered.foldl (fun sub e => e.subscribed sub) ⟨[], []⟩ := by
  unfold subscriptionsOf Endpoint.answered
  rw [List.foldl_filterMap]
  congr 1
  funext sub o
  cases o <;> rfl

theorem mem_insert {sub : Subscriber} (h : name ∈ (sub.insert k' name').names k)
    : name ∈ sub.names k ∨ name = name' := by
  unfold Subscriber.insert at h
  split at h
  . exact .inl h
  . cases k with
    | topic => cases k' with
      | topic => simpa [Subscriber.setNames, Subscriber.names] using h
      | pattern => exact .inl h
    | pattern => cases k' with
      | topic => exact .inl h
      | pattern => simpa [Subscriber.setNames, Subscriber.names] using h

theorem mem_erase {sub : Subscriber} (h : name ∈ (sub.erase k' name').names k) : name ∈ sub.names k := by
  unfold Subscriber.erase at h
  cases k with
  | topic => cases k' with
    | topic => exact List.mem_of_mem_erase h
    | pattern => exact h
  | pattern => cases k' with
    | topic => exact h
    | pattern => exact List.mem_of_mem_erase h

theorem mem_apply {sub : Subscriber} {call : SubscriptionCall} (h : name ∈ (call.apply sub).names k)
    : name ∈ sub.names k ∨ ∃ k args, call = .subscribe k args ∧ name ∈ args := by
  cases call with
  | subscribe k' args =>
    have hfold (args : List Bytes) (sub : Subscriber)
        (h : name ∈ (args.foldl (fun sub name => sub.insert k' name) sub).names k)
        : name ∈ sub.names k ∨ name ∈ args := by
      induction args generalizing sub with
      | nil => exact .inl h
      | cons arg args ih =>
        obtain hsub | hargs := ih _ h
        . obtain hsub | rfl := mem_insert hsub
          . exact .inl hsub
          . exact .inr List.mem_cons_self
        . exact .inr (List.mem_cons_of_mem _ hargs)
    obtain hsub | hargs := hfold args sub h
    . exact .inl hsub
    . exact .inr ⟨k', args, rfl, hargs⟩
  | unsubscribe k' args =>
    have hfold (args : List Bytes) (sub : Subscriber)
        (h : name ∈ (args.foldl (fun sub name => sub.erase k' name) sub).names k) : name ∈ sub.names k := by
      induction args generalizing sub with
      | nil => exact h
      | cons arg args ih => exact mem_erase (ih _ h)
    exact .inl (hfold _ sub h)

theorem mem_subscriptionsOf {os : List Output} (h : name ∈ (subscriptionsOf os).names k)
    : ∃ env sub argv, .answer env sub (.command argv) ∈ os ∧ name ∈ argv := by
  induction os using List.reverseRecOn with
  | nil => cases k <;> cases h
  | append_singleton os o ih =>
    rw [subscriptionsOf_concat] at h
    have hstep : name ∈ (subscriptionsOf os).names k ∨
        ∃ env sub argv, o = .answer env sub (.command argv) ∧ name ∈ argv := by
      cases o with
      | publish d m => exact .inl h
      | answer env sub e =>
        cases e with
        | protocolError err => exact .inl h
        | command argv =>
          change name ∈ (((SubscriptionCall.ofArgv argv).map (SubscriptionCall.apply _)).getD _).names k at h
          cases hcall : SubscriptionCall.ofArgv argv with
          | none =>
            rw [hcall] at h
            exact .inl h
          | some call =>
            rw [hcall] at h
            obtain hsub | ⟨k, args, rfl, hargs⟩ := mem_apply h
            . exact .inl hsub
            . refine .inr ⟨env, sub, argv, rfl, ?_⟩
              have htail : args = argv.tail := by
                unfold SubscriptionCall.ofArgv at hcall
                split at hcall <;> cases hcall <;> rfl
              rw [htail] at hargs
              exact List.mem_of_mem_tail hargs
    obtain hsub | ⟨env, sub, argv, rfl, hargv⟩ := hstep
    . obtain ⟨env, sub, argv, hmem, hargv⟩ := ih hsub
      exact ⟨env, sub, argv, List.mem_append_left _ hmem, hargv⟩
    . exact ⟨env, sub, argv, List.mem_append_right _ List.mem_cons_self, hargv⟩

namespace Delivery

/--
The client with these subscriptions is to get the message in this way.
-/
def Due (stringMatch : Bytes → Bytes → Bool) (sub : Subscriber) (m : Message) : Delivery → Prop
  | message _ => m.topic.data ∈ sub.subTopics
  | patternMessage _ pattern => pattern ∈ sub.subPatterns ∧ stringMatch pattern m.topic.data = true

theorem due_of_mem {w w' : Worker} {m : Message} {d : Delivery} (hsound : w.Sound)
    (hpublish : w.publishMessage stringMatch m.topic.data limitReached = some (w', deliveries)) (hd : d ∈ deliveries)
    (hsub : w.heap d.client = some sub) : d.Due stringMatch sub m := by
  obtain ⟨w1, deliveries1, heq, -, hmessage, hpattern⟩ := hsound.publishMessage stringMatch m.topic.data limitReached
  rw [hpublish] at heq
  cases heq
  have hcount := List.count_pos_iff.mpr hd
  cases d with
  | message c =>
    rw [hmessage c] at hcount
    have htopic : m.topic.data ∈ w.subTopics c := by
      by_contra hnot
      rw [if_neg hnot] at hcount
      exact absurd hcount (Nat.lt_irrefl 0)
    have heq : w.subTopics c = sub.subTopics := Worker.subTopics_of_heap hsub
    rwa [heq] at htopic
  | patternMessage c pattern =>
    rw [hpattern c pattern] at hcount
    have hboth : pattern ∈ w.subPatterns c ∧ stringMatch pattern m.topic.data = true := by
      by_contra hnot
      rw [if_neg hnot] at hcount
      exact absurd hcount (Nat.lt_irrefl 0)
    have heq : w.subPatterns c = sub.subPatterns := Worker.subPatterns_of_heap hsub
    rwa [heq] at hboth

end Delivery

namespace Output

def Explained (stringMatch : Bytes → Bytes → Bool) (c : ClientId) (sub : Subscriber) : Output → Prop
  | answer _ before _ => before = sub
  | publish d m => d.client = c ∧ d.Due stringMatch sub m

end Output

namespace Endpoint

structure Explained (stringMatch : Bytes → Bytes → Bool) (c : ClientId) (held : Option Subscriber) (p : Endpoint)
    : Prop where
  current : ∀ sub, held = some sub → sub = subscriptionsOf p.outputs
  told : ∀ os o, os ++ [o] <+: p.outputs → o.Explained stringMatch c (subscriptionsOf os)

namespace Explained

variable {p q : Endpoint}

theorem init (fd : Int) : (Endpoint.init fd).Explained stringMatch c (some ⟨[], []⟩) where
  current := by
    intro sub hsub
    cases hsub
    rfl
  told := by
    intro os o h
    have hnil := List.prefix_nil.mp h
    exact absurd hnil (List.append_ne_nil_of_right_ne_nil _ (List.cons_ne_nil _ _))

theorem mono (h : p.Explained stringMatch c held) (houtputs : q.outputs = p.outputs)
    (hheld : ∀ sub, held' = some sub → held = some sub) : q.Explained stringMatch c held' where
  current := by
    intro sub hsub
    rw [houtputs]
    exact h.current sub (hheld sub hsub)
  told := by
    rw [houtputs]
    exact h.told

theorem concat (h : p.Explained stringMatch c held) (houtputs : q.outputs = p.outputs ++ [o])
    (ho : o.Explained stringMatch c (subscriptionsOf p.outputs)) (hheld : held = some sub)
    (hheld' : held' = some (o.subscribed sub)) : q.Explained stringMatch c held' where
  current := by
    intro sub' hsub'
    rw [houtputs, subscriptionsOf_concat, ← h.current sub hheld]
    exact Option.some.inj (hsub'.symm.trans hheld')
  told := by
    rw [houtputs]
    intro os o' hprefix
    obtain heq | hprefix := List.prefix_concat_iff.mp hprefix
    . obtain ⟨rfl, rfl⟩ := List.concat_inj.mp (by simpa using heq)
      exact ho
    . exact h.told os o' hprefix

end Explained
end Endpoint

namespace Thread

variable {t t' : Thread}

def Explained (stringMatch : Bytes → Bytes → Bool) (t : Thread) : Prop :=
  ∀ c, (t.endpoint c).Explained stringMatch c (t.tables.heap c)

-- clients may go, and nobody is told anything
theorem Explained.mono (h : t.Explained stringMatch) (houtputs : ∀ c, (t'.endpoint c).outputs = (t.endpoint c).outputs)
    (hheap : ∀ c sub, t'.tables.heap c = some sub → t.tables.heap c = some sub) : t'.Explained stringMatch :=
  fun c => (h c).mono (houtputs c) (hheap c)

theorem heap_freeClient (hsound : t.tables.Sound) (hlive : t.tables.heap c ≠ none) (h : t.freeClient c = some t')
    (d : ClientId) (sub : Subscriber) (hd : t'.tables.heap d = some sub) : t.tables.heap d = some sub := by
  obtain ⟨tables, htables, rfl⟩ := freeClient_cases h
  unfold Worker.freeClient at htables
  split at htables
  . have hindexed : Worker.Indexed { t.tables with clients := t.tables.clients.erase c } :=
      hsound.indexed.of_heap_eq rfl rfl rfl
    obtain ⟨w, hw, -, hheap, -⟩ := hindexed.delete .insertion hlive
    obtain rfl : w = tables := Option.some.inj (hw.symm.trans htables)
    change w.heap d = some sub at hd
    rw [hheap] at hd
    by_cases hdc : d = c
    . subst hdc
      rw [Function.update_self] at hd
      cases hd
    . rwa [Function.update_of_ne hdc] at hd
  . cases htables
    exact hd

theorem heap_freeClientsInAsyncFreeQueue (hsound : t.tables.Sound) (h : t.freeClientsInAsyncFreeQueue = some t')
    (d : ClientId) (sub : Subscriber) (hd : t'.tables.heap d = some sub) : t.tables.heap d = some sub := by
  obtain ⟨tables, htables, rfl⟩ := Option.map_eq_some_iff.mp h
  have hnodup := hsound.owned.nodup
  rw [List.nodup_append] at hnodup
  have hlive : ∀ c ∈ t.tables.clientsToClose, t.tables.heap c ≠ none := by
    intro c hc
    exact (hsound.owned.live_iff c).mpr (List.mem_append_right _ hc)
  obtain ⟨w, hw, -, hheap, -⟩ := hsound.indexed.deleteAll .insertion hnodup.2.1 hlive
  unfold Worker.freeClientsInAsyncFreeQueue at htables
  rw [hw] at htables
  cases htables
  change w.heap d = some sub at hd
  rw [hheap] at hd
  split at hd
  . cases hd
  . exact hd

namespace Explained

theorem getNewConnection (h : t.Explained stringMatch) (d : ClientId) (fd : Int)
    : (t.getNewConnection d fd).Explained stringMatch := by
  intro c
  unfold Thread.getNewConnection
  by_cases hc : c = d
  . subst hc
    rw [endpoint_setEndpoint_self, tables_setEndpoint]
    unfold Worker.getNewConnection
    dsimp only
    rw [Function.update_self]
    exact .init fd
  . rw [endpoint_setEndpoint_of_ne _ _ hc, tables_setEndpoint]
    unfold Worker.getNewConnection
    dsimp only
    rw [Function.update_of_ne hc]
    exact h c

theorem setEndpoint (h : t.Explained stringMatch) (p : Endpoint) (hp : p.outputs = (t.endpoint d).outputs)
    : (t.setEndpoint d p).Explained stringMatch := by
  refine h.mono ?_ fun _ _ => id
  intro c
  by_cases hc : c = d
  . subst hc
    rw [endpoint_setEndpoint_self, hp]
  . rw [endpoint_setEndpoint_of_ne _ _ hc]

theorem freeClient (h : t.Explained stringMatch) (hsound : t.tables.Sound) (hlive : t.tables.heap d ≠ none)
    (hfree : t.freeClient d = some t') : t'.Explained stringMatch := by
  apply h.mono _ (heap_freeClient hsound hlive hfree)
  obtain ⟨tables, -, rfl⟩ := freeClient_cases hfree
  exact fun _ => rfl

theorem readRequest (h : t.Explained stringMatch) (hsound : t.tables.Sound) (hlive : t.tables.heap d ≠ none)
    (hread : t.readRequest d r = some t') : t'.Explained stringMatch := by
  obtain rfl | hfree | ⟨buf, req, -, -, -, ⟨-, hfree⟩ | ⟨-, rfl⟩⟩ := readRequest_cases hread
  . exact h
  . exact h.freeClient hsound hlive hfree
  . exact freeClient (by exact h.setEndpoint _ (by rfl)) (by exact hsound) (by exact hlive) hfree
  . exact h.setEndpoint (d := d) { t.endpoint d with
      request := { (t.endpoint d).request with req := req }, received := (t.endpoint d).received ++ buf } rfl

theorem sendReply (h : t.Explained stringMatch) (hsound : t.tables.Sound) (hlive : t.tables.heap d ≠ none)
    (hsend : t.sendReply d rs = some t') : t'.Explained stringMatch := by
  obtain ⟨sent, -, ⟨-, hfree⟩ | ⟨-, rfl⟩⟩ := sendReply_cases hsend
  . exact freeClient (by exact h.setEndpoint _ (by rfl)) (by exact hsound) (by exact hlive) hfree
  . exact h.setEndpoint _ rfl

theorem processRound (h : t.Explained stringMatch) (hround : t.processRound env d = some t')
    : t'.Explained stringMatch := by
  obtain ⟨peer, peer', hpeer, -, -, -, -, hcases⟩ := processRound_cases hround
  obtain ⟨sub, hsub, rfl⟩ := client_eq_some hpeer
  obtain ⟨-, htables, hendpoint⟩ | ⟨e, tables, -, htables, htables', hendpoint⟩ := hcases
  . refine h.mono ?_ ?_
    . intro c
      rw [hendpoint]
      by_cases hc : c = d
      . subst hc
        rw [Function.update_self]
      . rw [Function.update_of_ne hc]
    . rw [htables]
      exact fun _ _ => id
  . have hheap : t'.tables.heap = Function.update t.tables.heap d (some (e.subscribed sub)) := by
      rw [htables', Worker.reply_heap]
      exact Worker.processEvent_heap hsub htables
    intro c
    by_cases hc : c = d
    . subst hc
      refine (h c).concat (o := .answer env sub e) ?_ ((h c).current sub hsub) hsub ?_
      . rw [hendpoint, Function.update_self]
      . rw [hheap, Function.update_self]
        rfl
    . rw [hendpoint, hheap, Function.update_of_ne hc, Function.update_of_ne hc]
      exact h c

theorem publishMessage (h : t.Explained stringMatch) (hsound : t.tables.Sound)
    (hpublish : t.publishMessage stringMatch env m = some t') : t'.Explained stringMatch := by
  obtain ⟨tables, deliveries, hdeliveries, hdeliver⟩ := publishMessage_cases hpublish
  refine (deliverAll_invariant (fun t' => t'.tables.heap = t.tables.heap ∧ t'.Explained stringMatch) hdeliver
    ⟨rfl, h⟩ ?_).2
  intro t1 d t2 ⟨hheap, h1⟩ hd hstep
  obtain ⟨sub, session, hsub, -, htables, -, -, -, hendpoint⟩ := deliver_cases hstep
  have hheap2 : t2.tables.heap = t1.tables.heap := by
    rw [htables, Worker.reply_heap]
  have hdue : d.Due stringMatch sub m := Delivery.due_of_mem hsound hdeliveries hd (by rwa [← hheap])
  refine ⟨hheap2.trans hheap, ?_⟩
  intro c
  rw [hendpoint, hheap2]
  by_cases hc : c = d.client
  . subst hc
    rw [Function.update_self]
    refine (h1 d.client).concat rfl ⟨rfl, ?_⟩ hsub hsub
    rwa [← (h1 d.client).current sub hsub]
  . rw [Function.update_of_ne hc]
    exact h1 c

end Explained
end Thread

namespace Server

variable {W : Nat} {s s' : Server W}

theorem explained_step (hsound : ∀ w, (s.thread w).tables.Sound) (h : (s.thread v).Explained stringMatch)
    (hstep : Step queueLimit stringMatch s l s') : (s'.thread v).Explained stringMatch := by
  have hset {notify : Notify W} {w : Fin W} {t : Thread}
      (ht : (s.thread w).Explained stringMatch → t.Explained stringMatch)
      : (({ s with notify := notify }.setThread w t).thread v).Explained stringMatch := by
    by_cases hv : v = w
    . subst hv
      rw [thread_setThread_self]
      exact ht h
    . rwa [thread_setThread_of_ne _ _ hv]
  cases hstep.transition with
  | getNewConnection w d fd hw hfresh => exact hset fun h => h.getNewConnection d fd
  | readRequest w d r t hw hlive ht => exact hset fun h => h.readRequest (hsound w) hlive ht
  | round w env d t htask hlogged ht => exact hset fun h => h.processRound ht
  | refused w env d m t htask hlogged hsender hfull ht =>
    apply hset
    intro h
    have hin : ((s.thread w).countIn m).Explained stringMatch := h
    exact hin.processRound ht
  | accepted w env d m htask hlogged hsender hroom => exact hset fun h => h
  | returned w env d t htask hsender ht => exact hset fun h => h.processRound ht
  | push => exact h
  | sendReply w d rs t hw hlive hwritable ht => exact hset fun h => h.sendReply (hsound w) hlive ht
  | cron w t hw hsender ht =>
    apply hset
    intro h
    apply h.mono _ (Thread.heap_freeClientsInAsyncFreeQueue (hsound w) ht)
    obtain ⟨tables, -, rfl⟩ := Option.map_eq_some_iff.mp ht
    exact fun _ => rfl
  | publish w env q m notify t hnext hn ht => exact hset fun h => h.publishMessage (hsound w) ht
  | wrongNotice => exact h
  | quiet => exact h

theorem explained_of_reaches (h : Run.Reaches (Step queueLimit stringMatch) (init a : Server W) ls s) (w : Fin W)
    : (s.thread w).Explained stringMatch := by
  refine (h.invariant (fun s : Server W => Inv queueLimit a s ∧ (s.thread w).Explained stringMatch) ⟨.init a, ?_⟩
    ?_).2
  . intro c
    have hinit : (Endpoint.init 0).Explained stringMatch c (some ⟨[], []⟩) := .init 0
    exact hinit.mono rfl fun _ h => nomatch h
  . intro s l s' ⟨hinv, hs⟩ hstep
    exact ⟨hinv.step hstep, explained_step hinv.sound hs hstep⟩

/--
In every state of the server, the subscriptions that a worker holds for a client are those that the requests answered
so far ask for, one after the other; each answer was made with the subscriptions that the requests before it ask for;
and each message was given to the client for one of the subscriptions that it had then.
-/
theorem subscriptions_explained (h : Run.Reaches (Step queueLimit stringMatch) (init a : Server W) ls s) (w : Fin W)
    (c : ClientId)
    : (∀ sub, (s.thread w).tables.heap c = some sub →
        sub = ((s.thread w).endpoint c).answered.foldl (fun sub e => e.subscribed sub) ⟨[], []⟩) ∧
      ∀ os o, os ++ [o] <+: ((s.thread w).endpoint c).outputs → o.Explained stringMatch c (subscriptionsOf os) := by
  obtain ⟨hcurrent, htold⟩ := explained_of_reaches h w c
  refine ⟨?_, htold⟩
  rwa [subscriptionsOf_eq] at hcurrent

theorem subscriptions_explained_publishing
    : ∃ (s : Server 1) (sub : Subscriber), Run.Reaches (Step 10 fun _ _ => true) (init 0) (subscribing ++ publishing) s ∧
        (s.thread 0).tables.heap 1 = some sub ∧ sub.subTopics = [[97]] ∧
        sub = ((s.thread 0).endpoint 1).answered.foldl (fun sub e => e.subscribed sub) ⟨[], []⟩ := by
  obtain ⟨s, hreach, htopics⟩ := Run.Reaches.exists_of_any (legalStep 10 fun _ _ => true) (init 0)
    (subscribing ++ publishing) (fun s => ((s.thread 0).tables.heap 1).map Subscriber.subTopics = some [[97]])
    (fun _ _ _ => step_of_legalStep) (by decide +kernel)
  obtain ⟨sub, hsub, htopics⟩ := Option.map_eq_some_iff.mp htopics
  exact ⟨s, sub, hreach, hsub, htopics, (subscriptions_explained hreach 0 1).1 sub hsub⟩

end Server
end Kids
