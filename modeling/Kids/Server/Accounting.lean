import Mathlib.Algebra.BigOperators.Fin
import Kids.Server.Requests

/-!
What a client is promised: a message that was acknowledged with `:1` is in the queue, once and in the order of the
acknowledgements, and the counters of the workers add up.
-/

namespace Kids

namespace Output

-- the message of a `log` that was answered with `:1`
def acknowledged : Output → Option Message
  | .answer env _ e => if env.putMessage then e.logged else none
  | .publish _ _ => none

end Output

namespace Endpoint

def acknowledged (p : Endpoint) : List Message :=
  p.outputs.filterMap Output.acknowledged

-- the message of the `log` that the next round dispatches
def nextLogged (p : Endpoint) : Option Message :=
  (Client.nextEvent ⟨p.request, ⟨p.reply, ⟨[], []⟩⟩, false⟩).bind RequestEvent.logged

theorem nextLogged_eq (p : Endpoint) (sub : Subscriber)
    : (Client.nextEvent ⟨p.request, ⟨p.reply, sub⟩, false⟩).bind RequestEvent.logged = p.nextLogged := rfl

theorem nextLogged_congr {p q : Endpoint} (h : q.request = p.request) : q.nextLogged = p.nextLogged := by
  unfold nextLogged Client.nextEvent
  rw [h]

end Endpoint

namespace Thread

variable {t t' : Thread}

theorem nextLogged_of_client (h : ((t.client c).bind Client.nextEvent).bind RequestEvent.logged = some m)
    : (t.endpoint c).nextLogged = some m := by
  cases hpeer : t.client c with
  | none =>
    rw [hpeer] at h
    cases h
  | some peer =>
    obtain ⟨sub, -, rfl⟩ := client_eq_some hpeer
    rw [hpeer] at h
    exact h

theorem logged_eq_nextLogged (h : t.processRound env c = some t')
    : ((t.client c).bind Client.nextEvent).bind RequestEvent.logged = (t.endpoint c).nextLogged := by
  obtain ⟨peer, -, hpeer, -⟩ := processRound_cases h
  obtain ⟨sub, -, rfl⟩ := client_eq_some hpeer
  rw [hpeer]
  rfl

theorem acknowledged_processRound (h : t.processRound env d = some t')
    : (t'.endpoint d).acknowledged =
          (t.endpoint d).acknowledged ++ (if env.putMessage then (t.endpoint d).nextLogged else none).toList ∧
        ∀ c, c ≠ d → t'.endpoint c = t.endpoint c := by
  obtain ⟨peer, peer', hpeer, -, -, -, -, hcases⟩ := processRound_cases h
  obtain ⟨sub, -, rfl⟩ := client_eq_some hpeer
  obtain ⟨hnone, -, hendpoint⟩ | ⟨e, tables, hevent, -, -, hendpoint⟩ := hcases
  . constructor
    . rw [hendpoint, Function.update_self, ← Endpoint.nextLogged_eq _ sub, hnone]
      unfold Endpoint.acknowledged
      rw [Option.bind_none, ite_self]
      exact (List.append_nil _).symm
    . intro c hc
      rw [hendpoint, Function.update_of_ne hc]
  . constructor
    . rw [hendpoint, Function.update_self, ← Endpoint.nextLogged_eq _ sub, hevent]
      unfold Endpoint.acknowledged
      rw [List.filterMap_append, Option.bind_some]
      congr 1
    . intro c hc
      rw [hendpoint, Function.update_of_ne hc]

/--
Nothing is acknowledged, and no `log` in a buffer changes.
-/
structure Unacknowledged (t t' : Thread) : Prop where
  request_eq : ∀ c, (t'.endpoint c).request = (t.endpoint c).request
  acknowledged_eq : ∀ c, (t'.endpoint c).acknowledged = (t.endpoint c).acknowledged

theorem Unacknowledged.refl (t : Thread) : Unacknowledged t t :=
  ⟨fun _ => rfl, fun _ => rfl⟩

theorem unacknowledged_deliver (h : t.deliver env m d = some t') : Unacknowledged t t' := by
  obtain ⟨sub, session, -, -, -, -, -, -, hendpoint⟩ := deliver_cases h
  have hsplit (c : ClientId) : t'.endpoint c = t.endpoint c ∨
      c = d.client ∧ (t'.endpoint c).request = (t.endpoint c).request ∧
        (t'.endpoint c).acknowledged = (t.endpoint c).acknowledged := by
    rw [hendpoint]
    by_cases hc : c = d.client
    . subst hc
      rw [Function.update_self]
      refine .inr ⟨rfl, rfl, ?_⟩
      unfold Endpoint.acknowledged
      rw [List.filterMap_append]
      exact List.append_nil _
    . rw [Function.update_of_ne hc]
      exact .inl rfl
  constructor
  . intro c
    obtain heq | ⟨-, hrequest, -⟩ := hsplit c
    . rw [heq]
    . exact hrequest
  . intro c
    obtain heq | ⟨-, -, hacknowledged⟩ := hsplit c
    . rw [heq]
    . exact hacknowledged

theorem unacknowledged_publishMessage (h : t.publishMessage stringMatch env m = some t') : Unacknowledged t t' := by
  obtain ⟨tables, deliveries, -, hdeliver⟩ := publishMessage_cases h
  refine deliverAll_invariant (Unacknowledged t) hdeliver ⟨fun _ => rfl, fun _ => rfl⟩ ?_
  intro t1 d t2 h1 _ hstep
  have h2 := unacknowledged_deliver hstep
  exact ⟨fun c => (h2.request_eq c).trans (h1.request_eq c), fun c => (h2.acknowledged_eq c).trans (h1.acknowledged_eq c)⟩

-- a read and a write leave what was acknowledged
theorem acknowledged_readRequest (h : t.readRequest d r = some t') (c : ClientId)
    : (t'.endpoint c).acknowledged = (t.endpoint c).acknowledged := by
  obtain rfl | hfree | ⟨buf, req, -, -, -, hcases⟩ := readRequest_cases h
  . rfl
  . obtain ⟨tables, -, rfl⟩ := freeClient_cases hfree
    rfl
  . have hset : t'.endpoint = (t.setEndpoint d { t.endpoint d with
        request := { (t.endpoint d).request with req := req }, received := (t.endpoint d).received ++ buf }).endpoint := by
      obtain ⟨-, hfree⟩ | ⟨-, rfl⟩ := hcases
      . obtain ⟨tables, -, rfl⟩ := freeClient_cases hfree
        rfl
      . rfl
    rw [hset]
    by_cases hc : c = d
    . subst hc
      rw [endpoint_setEndpoint_self]
      rfl
    . rw [endpoint_setEndpoint_of_ne _ _ hc]

theorem task_readRequest (h : t.readRequest d r = some t') : t'.task = t.task ∨ t'.task = .processing d := by
  obtain rfl | hfree | ⟨buf, req, -, -, -, ⟨-, hfree⟩ | ⟨-, rfl⟩⟩ := readRequest_cases h
  . exact .inl rfl
  . obtain ⟨tables, -, rfl⟩ := freeClient_cases hfree
    exact .inl rfl
  . obtain ⟨tables, -, rfl⟩ := freeClient_cases hfree
    exact .inl rfl
  . exact .inr rfl

theorem unacknowledged_sendReply (h : t.sendReply d rs = some t') : Unacknowledged t t' ∧ t'.task = t.task := by
  obtain ⟨sent, -, hcases⟩ := sendReply_cases h
  have hset : t'.endpoint = (t.setEndpoint d { t.endpoint d with
      reply := sent.client, written := (t.endpoint d).written ++ sent.bytes }).endpoint ∧ t'.task = t.task := by
    obtain ⟨-, hfree⟩ | ⟨-, rfl⟩ := hcases
    . obtain ⟨tables, -, rfl⟩ := freeClient_cases hfree
      exact ⟨rfl, rfl⟩
    . exact ⟨rfl, rfl⟩
  have hsame (c : ClientId) : (t'.endpoint c).request = (t.endpoint c).request ∧
      (t'.endpoint c).acknowledged = (t.endpoint c).acknowledged := by
    rw [hset.1]
    by_cases hc : c = d
    . subst hc
      rw [endpoint_setEndpoint_self]
      exact ⟨rfl, rfl⟩
    . rw [endpoint_setEndpoint_of_ne _ _ hc]
      exact ⟨rfl, rfl⟩
  exact ⟨⟨fun c => (hsame c).1, fun c => (hsame c).2⟩, hset.2⟩

theorem stat_readRequest (h : t.readRequest d r = some t') : t'.stat = t.stat := by
  obtain rfl | hfree | ⟨buf, req, -, -, -, ⟨-, hfree⟩ | ⟨-, rfl⟩⟩ := readRequest_cases h
  . rfl
  . obtain ⟨tables, -, rfl⟩ := freeClient_cases hfree
    rfl
  . obtain ⟨tables, -, rfl⟩ := freeClient_cases hfree
    rfl
  . rfl

theorem stat_sendReply (h : t.sendReply d rs = some t') : t'.stat = t.stat := by
  obtain ⟨sent, -, ⟨-, hfree⟩ | ⟨-, rfl⟩⟩ := sendReply_cases h
  . obtain ⟨tables, -, rfl⟩ := freeClient_cases hfree
    rfl
  . rfl

end Thread

namespace Server

variable {W : Nat} {s s' : Server W}

-- what the worker `w` has pushed, in order
def pushedBy (s : Server W) (w : Fin W) : List Message :=
  (s.log.filter fun entry => entry.1 = w).map Prod.snd

theorem push_sender {notify notify' : Notify W} (h : notify.push w a = some notify')
    : notify'.sender = Function.update notify.sender w (.adding 0) ∧ notify'.refused = notify.refused := by
  unfold Notify.push at h
  split at h
  . split at h
    . cases h
    . cases h
      exact ⟨rfl, rfl⟩
  . cases h

/--
The worker is in the push of a message only in the `PutMessage` of the client whose next command is its `log`, and
after the push that message is behind what the client was acknowledged.
-/
structure Acknowledges (s : Server W) (w : Fin W) : Prop where
  acknowledged : ∀ c, ((s.thread w).endpoint c).acknowledged.Sublist (s.pushedBy w)
  pushing : ∀ m, s.notify.sender w = .pushing m →
    ∃ c, (s.thread w).task = .logging c ∧ ((s.thread w).endpoint c).nextLogged = some m
  logging : ∀ c, (s.thread w).task = .logging c → ∃ m, ((s.thread w).endpoint c).nextLogged = some m ∧
    ((∀ m, s.notify.sender w ≠ .pushing m) →
      (((s.thread w).endpoint c).acknowledged ++ [m]).Sublist (s.pushedBy w))

namespace Acknowledges

-- a step that leaves the log and the push of the worker alone
theorem of_unacknowledged (h : s.Acknowledges w) (hthread : (s.thread w).Unacknowledged (s'.thread w))
    (htask : (s'.thread w).task = (s.thread w).task) (hlog : s'.pushedBy w = s.pushedBy w)
    (hpushing : ∀ m, s'.notify.sender w = .pushing m ↔ s.notify.sender w = .pushing m) : s'.Acknowledges w where
  acknowledged c := by
    rw [hthread.acknowledged_eq, hlog]
    exact h.acknowledged c
  pushing m hm := by
    obtain ⟨c, hc, hnext⟩ := h.pushing m ((hpushing m).mp hm)
    refine ⟨c, htask.trans hc, ?_⟩
    rw [Endpoint.nextLogged_congr (hthread.request_eq c)]
    exact hnext
  logging c hc := by
    obtain ⟨m, hnext, hpushed⟩ := h.logging c (htask.symm.trans hc)
    refine ⟨m, ?_, ?_⟩
    . rw [Endpoint.nextLogged_congr (hthread.request_eq c)]
      exact hnext
    . intro hnot
      rw [hthread.acknowledged_eq, hlog]
      exact hpushed fun m hm => hnot m ((hpushing m).mpr hm)

-- a worker that is in no `PutMessage` afterwards
theorem of_idle (hacknowledged : ∀ c, ((s'.thread w).endpoint c).acknowledged.Sublist (s'.pushedBy w))
    (htask : ∀ c, (s'.thread w).task ≠ .logging c) (hsender : ∀ m, s'.notify.sender w ≠ .pushing m)
    : s'.Acknowledges w where
  acknowledged := hacknowledged
  pushing m hm := absurd hm (hsender m)
  logging c hc := absurd hc (htask c)

theorem init (a : Addr) (w : Fin W) : (Server.init a : Server W).Acknowledges w :=
  of_idle (fun _ => List.Sublist.refl []) (fun _ h => nomatch h) (fun _ h => nomatch h)

-- another worker's callback
theorem of_other (h : s.Acknowledges w) (hthread : s'.thread w = s.thread w) (hlog : s'.pushedBy w = s.pushedBy w)
    (hpushing : ∀ m, s'.notify.sender w = .pushing m ↔ s.notify.sender w = .pushing m) : s'.Acknowledges w := by
  apply h.of_unacknowledged _ _ hlog hpushing
  . rw [hthread]
    exact .refl _
  . rw [hthread]

-- a round of the worker that is in no push
theorem processRound {t : Thread} (h : s.Acknowledges w) (env : CommandEnv)
    (hnot : ∀ m, s.notify.sender w ≠ .pushing m)
    (hpushed : (((s.thread w).endpoint d).acknowledged ++
      (if env.putMessage then ((s.thread w).endpoint d).nextLogged else none).toList).Sublist (s.pushedBy w))
    (hendpoint : t.endpoint = (s.thread w).endpoint) (ht : t.processRound env d = some (s'.thread w))
    (hlog : s'.pushedBy w = s.pushedBy w) (hsender : s'.notify.sender w = s.notify.sender w)
    : s'.Acknowledges w := by
  obtain ⟨peer, peer', -, -, htask, -⟩ := Thread.processRound_cases ht
  obtain ⟨hself, hothers⟩ := Thread.acknowledged_processRound ht
  refine of_idle ?_ ?_ (by rwa [hsender])
  . intro c
    rw [hlog]
    by_cases hc : c = d
    . rw [hc, hself, hendpoint]
      exact hpushed
    . rw [hothers c hc, hendpoint]
      exact h.acknowledged c
  . intro c
    rw [htask]
    split
    . exact fun heq => nomatch heq
    . exact fun heq => nomatch heq

theorem not_pushing_of_processing (h : s.Acknowledges w) (htask : (s.thread w).task = .processing c) (m : Message)
    : s.notify.sender w ≠ .pushing m := by
  intro hm
  obtain ⟨d, hd, -⟩ := h.pushing m hm
  rw [htask] at hd
  cases hd

theorem step (h : s.Acknowledges w) (hstep : Step queueLimit stringMatch s l s') : s'.Acknowledges w := by
  have hpoll (hw : s.Waiting w) (m : Message) : s.notify.sender w ≠ .pushing m := by
    rw [(s.senderIdle_iff w).mp hw.2.1]
    exact fun heq => nomatch heq
  have htask_poll (hw : s.Waiting w) (c : ClientId) : (s.thread w).task ≠ .logging c := by
    rw [hw.1]
    exact fun heq => nomatch heq
  cases hstep.transition with
  | getNewConnection v d fd hv hfresh =>
    by_cases hw : w = v
    . subst hw
      refine of_idle ?_ ?_ (hpoll hv)
      . intro c
        rw [thread_setThread_self]
        by_cases hc : c = d
        . subst hc
          unfold Thread.getNewConnection
          rw [Thread.endpoint_setEndpoint_self]
          exact List.nil_sublist _
        . unfold Thread.getNewConnection
          rw [Thread.endpoint_setEndpoint_of_ne _ _ hc]
          exact h.acknowledged c
      . rw [thread_setThread_self]
        exact htask_poll hv
    . exact h.of_other (thread_setThread_of_ne _ _ hw) rfl (fun _ => .rfl)
  | readRequest v d r t hv hlive ht =>
    by_cases hw : w = v
    . subst hw
      refine of_idle ?_ ?_ (hpoll hv)
      . intro c
        rw [thread_setThread_self, Thread.acknowledged_readRequest ht]
        exact h.acknowledged c
      . intro c
        rw [thread_setThread_self]
        obtain htask | htask := Thread.task_readRequest ht
        . rw [htask]
          exact htask_poll hv c
        . rw [htask]
          exact fun heq => nomatch heq
    . exact h.of_other (thread_setThread_of_ne _ _ hw) rfl (fun _ => .rfl)
  | round v env d t htask hlogged ht =>
    by_cases hw : w = v
    . subst hw
      have hnone := (Thread.logged_eq_nextLogged ht).symm.trans hlogged
      refine h.processRound env (h.not_pushing_of_processing htask) ?_ rfl
        (ht.trans (congrArg some (thread_setThread_self ..).symm)) rfl rfl
      rw [hnone, ite_self]
      exact (List.append_nil _).symm ▸ h.acknowledged d
    . exact h.of_other (thread_setThread_of_ne _ _ hw) rfl (fun _ => .rfl)
  | refused v env d m t htask hlogged hsender hfull ht =>
    by_cases hw : w = v
    . subst hw
      refine h.processRound { env with putMessage := false } (t := (s.thread w).countIn m)
        (h.not_pushing_of_processing htask) ?_ rfl (ht.trans (congrArg some (thread_setThread_self ..).symm)) rfl rfl
      exact (List.append_nil _).symm ▸ h.acknowledged d
    . exact h.of_other (thread_setThread_of_ne _ _ hw) rfl (fun _ => .rfl)
  | accepted v env d m htask hlogged hsender hroom =>
    by_cases hw : w = v
    . subst hw
      have hnext := Thread.nextLogged_of_client hlogged
      have hpushing : (s.notify.setSender w (.pushing m)).sender w = .pushing m := Function.update_self ..
      constructor
      . intro c
        rw [thread_setThread_self]
        exact h.acknowledged c
      . intro m' hm'
        cases hpushing.symm.trans hm'
        refine ⟨d, ?_, ?_⟩
        . rw [thread_setThread_self]
        . rw [thread_setThread_self]
          exact hnext
      . intro c hc
        rw [thread_setThread_self] at hc ⊢
        cases hc
        exact ⟨m, hnext, fun hnot => absurd hpushing (hnot m)⟩
    . refine h.of_other (thread_setThread_of_ne _ _ hw) rfl ?_
      intro m'
      change (Function.update s.notify.sender v _) w = _ ↔ _
      rw [Function.update_of_ne hw]
  | returned v env d t htask hsender ht =>
    by_cases hw : w = v
    . subst hw
      have hnot (m : Message) : s.notify.sender w ≠ .pushing m := by
        rw [hsender]
        exact fun heq => nomatch heq
      obtain ⟨m, hnext, hpushed⟩ := h.logging d htask
      refine h.processRound { env with putMessage := true } hnot ?_ rfl
        (ht.trans (congrArg some (thread_setThread_self ..).symm)) rfl rfl
      rw [hnext]
      exact hpushed hnot
    . exact h.of_other (thread_setThread_of_ne _ _ hw) rfl (fun _ => .rfl)
  | push v a m notify hsender hfresh hn =>
    have hpushing (m' : Message) : notify.sender w = .pushing m' ↔ w ≠ v ∧ s.notify.sender w = .pushing m' := by
      rw [(push_sender hn).1]
      by_cases hw : w = v
      . subst hw
        rw [Function.update_self]
        exact iff_of_false (fun heq => nomatch heq) (fun heq => heq.1 rfl)
      . rw [Function.update_of_ne hw]
        exact (and_iff_right hw).symm
    by_cases hw : w = v
    . subst hw
      have hpushed : pushedBy { s with notify := notify, log := s.log ++ [(w, m)] } w = s.pushedBy w ++ [m] := by
        unfold pushedBy
        simp
      constructor
      . intro c
        rw [hpushed]
        exact (h.acknowledged c).trans (List.sublist_append_left _ _)
      . intro m' hm'
        exact absurd rfl ((hpushing m').mp hm').1
      . intro c hc
        obtain ⟨d, hd, hnext⟩ := h.pushing m hsender
        cases hd.symm.trans hc
        refine ⟨m, hnext, fun _ => ?_⟩
        rw [hpushed]
        exact (h.acknowledged c).append (List.Sublist.refl [m])
    . refine h.of_other rfl ?_ fun m' => (hpushing m').trans (and_iff_right hw)
      unfold pushedBy
      rw [List.filter_append, List.filter_cons_of_neg (by simpa using fun heq => hw heq.symm), List.filter_nil,
        List.append_nil]
  | sendReply v d rs t hv hlive hwritable ht =>
    by_cases hw : w = v
    . subst hw
      obtain ⟨hthread, htask⟩ := Thread.unacknowledged_sendReply ht
      rw [← thread_setThread_self s w t] at hthread htask
      exact h.of_unacknowledged hthread htask rfl (fun _ => .rfl)
    . exact h.of_other (thread_setThread_of_ne _ _ hw) rfl (fun _ => .rfl)
  | cron v t hv hsender ht =>
    by_cases hw : w = v
    . subst hw
      obtain ⟨tables, -, rfl⟩ := Option.map_eq_some_iff.mp ht
      refine of_idle ?_ ?_ ?_
      . intro c
        rw [thread_setThread_self]
        exact h.acknowledged c
      . rw [thread_setThread_self]
        exact htask_poll hv
      . intro m
        change (Function.update s.notify.sender w _) w ≠ _
        rw [Function.update_self]
        exact fun heq => nomatch heq
    . refine h.of_other (thread_setThread_of_ne _ _ hw) rfl ?_
      intro m'
      change (Function.update s.notify.sender v _) w = _ ↔ _
      rw [Function.update_of_ne hw]
  | publish v env q m notify t hnext hn ht =>
    obtain ⟨-, hsender, -⟩ := nextMessage_cases hnext hn
    have hpushing (m' : Message) : notify.sender w = .pushing m' ↔ s.notify.sender w = .pushing m' := by
      rw [hsender]
    by_cases hw : w = v
    . subst hw
      obtain ⟨tables, deliveries, -, hdeliver⟩ := Thread.publishMessage_cases ht
      have htask := (Thread.deliverAll_publishes hdeliver).task_eq
      have hthread := Thread.unacknowledged_publishMessage ht
      rw [← thread_setThread_self { s with notify := notify } w t] at hthread htask
      exact h.of_unacknowledged hthread htask rfl hpushing
    . exact h.of_other (thread_setThread_of_ne _ _ hw) rfl hpushing
  | wrongNotice v env q notify hnext hn =>
    obtain ⟨-, hsender, -⟩ := nextMessage_cases hnext hn
    refine h.of_other rfl rfl fun m => ?_
    change notify.sender w = _ ↔ _
    rw [hsender]
  | quiet l notify hquiet => exact h.of_other rfl rfl (hquiet.pushing_iff w)

theorem of_reaches (h : Run.Reaches (Step queueLimit stringMatch) (Server.init a : Server W) ls s) (w : Fin W)
    : s.Acknowledges w :=
  h.invariant (Acknowledges · w) (init a w) fun _ _ _ => step

end Acknowledges

theorem pushedBy_sublist (s : Server W) (w : Fin W) : (s.pushedBy w).Sublist (s.log.map Prod.snd) :=
  List.filter_sublist.map _

/--
What a client was acknowledged is in the queue in the order of the acknowledgements, and is published in this
order by every worker for which no notice is left.
-/
theorem acknowledged_published (h : Run.Reaches (Step queueLimit stringMatch) (init a : Server W) ls s) (w : Fin W)
    (c : ClientId)
    : ((s.thread w).endpoint c).acknowledged.Sublist (s.pushedBy w) ∧
        (s.log.map Prod.snd = s.notify.queue.pushed) ∧
        ∀ v, s.Settled v →
          ((s.thread w).endpoint c).acknowledged.Sublist ((s.thread v).published.map Prod.fst) := by
  have hacknowledged := (Acknowledges.of_reaches h w).acknowledged c
  have hinv := Inv.of_reaches h
  refine ⟨hacknowledged, hinv.log_eq, ?_⟩
  intro v hv
  rw [hinv.published_of_settled hv]
  exact hacknowledged.trans (s.pushedBy_sublist w)

-- a request that publishes, from its logging to the notices, and to its answer
def publishRound (thread : Fin 1) (a : Addr) : List (Label 1) := [
  .processRound thread ⟨fun _ => ⟨0, 0, 0⟩, 0, true, [], .insertion⟩,
  .push thread a,
  .addNotify thread, .addNotify thread, .addNotify thread,
  .notifyNewMessage thread true, .notifyNewMessage thread true, .notifyNewMessage thread true,
  .notifyNewMessage thread true, .notifyNewMessage thread true,
  .processRound thread ⟨fun _ => ⟨0, 0, 0⟩, 0, true, [], .insertion⟩
]

/--
A client publishes `b` and `c` in one read, and the worker then publishes both.
-/
def publishingTwice (thread : Fin 1) : List (Label 1) :=
  subscribing ++ [
    .readRequest thread 1 (.data (Bytes.ofString "*3\r\n$7\r\npublish\r\n$1\r\na\r\n$1\r\nb\r\n" ++
      Bytes.ofString "*3\r\n$7\r\npublish\r\n$1\r\na\r\n$1\r\nc\r\n"))
  ] ++ publishRound thread 1 ++ publishRound thread 2 ++ [
    .processRound thread ⟨fun _ => ⟨0, 0, 0⟩, 0, true, [], .insertion⟩,
    .readNotice thread thread true,
    .publishMessage thread ⟨fun _ => ⟨0, 0, 0⟩, 0, true, [], .insertion⟩,
    .readNotice thread thread true,
    .publishMessage thread ⟨fun _ => ⟨0, 0, 0⟩, 0, true, [], .insertion⟩
  ]

theorem acknowledged_published_publishing
    : ∃ s : Server 1, Run.Reaches (Step 10 fun _ _ => true) (init 0) (publishingTwice 0) s ∧
        ((s.thread 0).endpoint 1).acknowledged = [.ofBytes 97 98, .ofBytes 97 99] ∧
        [Message.ofBytes 97 98, .ofBytes 97 99].Sublist ((s.thread 0).published.map Prod.fst) := by
  obtain ⟨s, hreach, hsettled, hacknowledged⟩ := Run.Reaches.exists_of_any (legalStep 10 fun _ _ => true) (init 0)
    (publishingTwice 0)
    (fun s => s.Settled 0 ∧ ((s.thread 0).endpoint 1).acknowledged = [.ofBytes 97 98, .ofBytes 97 99])
    (fun _ _ _ => step_of_legalStep) (by decide +kernel)
  obtain ⟨-, -, hall⟩ := acknowledged_published hreach 0 1
  refine ⟨s, hreach, hacknowledged, ?_⟩
  rw [← hacknowledged]
  exact hall 0 hsettled

/--
The counters of a worker: what it has published went out once for each delivery.
-/
structure CountsOut (t : Thread) : Prop where
  msgOut : t.stat.msgOut = (t.published.map fun p => p.2.length).sum
  msgOutTraffic : t.stat.msgOutTraffic = (t.published.map fun p => p.2.length * p.1.memory).sum

namespace CountsOut

variable {t t' : Thread}

theorem of_keeps (h : CountsOut t) (hkeeps : t.Keeps t') : CountsOut t' := by
  obtain ⟨hout, htraffic⟩ := Prod.mk.inj hkeeps.out_eq
  constructor
  . rw [hout, hkeeps.published_eq, h.msgOut]
  . rw [htraffic, hkeeps.published_eq, h.msgOutTraffic]

theorem publishMessage (h : CountsOut t) (hpublish : t.publishMessage stringMatch env m = some t') : CountsOut t' := by
  obtain ⟨tables, deliveries, -, hdeliver⟩ := Thread.publishMessage_cases hpublish
  have hpublishes := Thread.deliverAll_publishes hdeliver
  constructor
  . rw [hpublishes.msgOut_eq, hpublishes.published_eq, List.map_append, List.sum_append, h.msgOut]
    simp
  . rw [hpublishes.msgOutTraffic_eq, hpublishes.published_eq, List.map_append, List.sum_append, h.msgOutTraffic]
    simp

theorem of_reaches (h : Run.Reaches (Step queueLimit stringMatch) (init a : Server W) ls s) (w : Fin W)
    : CountsOut (s.thread w) := by
  apply h.invariant (fun s : Server W => CountsOut (s.thread w)) ⟨rfl, rfl⟩
  intro s l s' hs hstep
  obtain ⟨hkeeps, -⟩ | ⟨env, m, hpublish, -⟩ := hstep.transition.thread w
  . exact hs.of_keeps hkeeps
  . exact hs.publishMessage hpublish

end CountsOut

def msgIn (s : Server W) : Nat :=
  ∑ w, (s.thread w).stat.msgIn

def pushes : Sender → Nat
  | .pushing _ => 1
  | _ => 0

-- the workers that are between the check of the queue's size and the push
def inPush (s : Server W) : Nat :=
  ∑ w, pushes (s.notify.sender w)

theorem sum_update (f : Fin W → Nat) (w : Fin W) (n : Nat)
    : ∑ v, Function.update f w n v + f w = ∑ v, f v + n := by
  rw [Finset.sum_update_of_mem (Finset.mem_univ w),
    Finset.sum_eq_add_sum_sdiff_singleton_of_mem (Finset.mem_univ w) f]
  omega

theorem msgIn_setThread (s : Server W) (w : Fin W) (t : Thread)
    : (s.setThread w t).msgIn + (s.thread w).stat.msgIn = s.msgIn + t.stat.msgIn := by
  rw [msgIn, msgIn, ← sum_update (fun v => (s.thread v).stat.msgIn) w t.stat.msgIn]
  congr 2
  funext v
  by_cases hv : v = w
  . subst hv
    rw [thread_setThread_self, Function.update_self]
  . rw [thread_setThread_of_ne _ _ hv, Function.update_of_ne hv]

theorem inPush_setSender (s : Server W) (notify : Notify W) (h : notify.sender = Function.update s.notify.sender w pc)
    : inPush { s with notify := notify } + pushes (s.notify.sender w) = s.inPush + pushes pc := by
  rw [inPush, inPush, ← sum_update (fun v => pushes (s.notify.sender v)) w (pushes pc)]
  congr 2
  funext v
  change pushes (notify.sender v) = _
  rw [h]
  by_cases hv : v = w
  . subst hv
    rw [Function.update_self, Function.update_self]
  . rw [Function.update_of_ne hv, Function.update_of_ne hv]

/--
A message that came in was pushed, refused, or is about to be pushed.
-/
def CountsIn (s : Server W) : Prop :=
  s.msgIn = s.log.length + s.notify.refused + s.inPush

namespace CountsIn

theorem of_msgIn (h : s.CountsIn) {t : Thread} (hstat : t.stat.msgIn = (s.thread w).stat.msgIn)
    : (s.setThread w t).CountsIn := by
  have hin := s.msgIn_setThread w t
  rw [hstat] at hin
  unfold CountsIn at h ⊢
  change _ = s.log.length + s.notify.refused + s.inPush
  omega

theorem of_notify (h : s.CountsIn) (notify : Notify W) (hrefused : notify.refused = s.notify.refused)
    (hpushing : ∀ w m, notify.sender w = .pushing m ↔ s.notify.sender w = .pushing m)
    : CountsIn { s with notify := notify } := by
  unfold CountsIn at h ⊢
  have hpush : inPush { s with notify := notify } = s.inPush := by
    refine Finset.sum_congr rfl fun w _ => ?_
    have hw := hpushing w
    change pushes (notify.sender w) = _
    generalize notify.sender w = pc at hw
    generalize s.notify.sender w = pc' at hw
    cases pc with
    | pushing m => rw [(hw m).mp rfl]
    | _ => cases pc' with
      | pushing m => cases (hw m).mpr rfl
      | _ => rfl
  rw [hpush]
  change s.msgIn = s.log.length + notify.refused + s.inPush
  rw [hrefused]
  exact h

theorem step (h : s.CountsIn) (hstep : Step queueLimit stringMatch s l s') : s'.CountsIn := by
  cases hstep.transition with
  | getNewConnection w c fd hw hfresh => exact h.of_msgIn rfl
  | readRequest w c r t hw hlive ht => exact h.of_msgIn (congrArg WorkerStat.msgIn (Thread.stat_readRequest ht))
  | round w env c t htask hlogged ht =>
    obtain ⟨-, -, -, -, -, hstat, -⟩ := Thread.processRound_cases ht
    exact h.of_msgIn (congrArg WorkerStat.msgIn hstat)
  | refused w env c m t htask hlogged hsender hfull ht =>
    obtain ⟨-, -, -, -, -, hstat, -⟩ := Thread.processRound_cases ht
    have hin := msgIn_setThread { s with notify := s.notify.refuse } w t
    have hcount : t.stat.msgIn = (s.thread w).stat.msgIn + 1 := congrArg WorkerStat.msgIn hstat
    unfold CountsIn at h ⊢
    change _ + (s.thread w).stat.msgIn = s.msgIn + _ at hin
    change _ = s.log.length + (s.notify.refused + 1) + s.inPush
    omega
  | accepted w env c m htask hlogged hsender hroom =>
    have hpush := s.inPush_setSender (s.notify.setSender w (.pushing m)) rfl
    have hin := msgIn_setThread { s with notify := s.notify.setSender w (.pushing m) } w
      { (s.thread w).countIn m with task := .logging c }
    rw [hsender] at hpush
    unfold CountsIn at h ⊢
    change _ + 0 = _ + 1 at hpush
    change _ + (s.thread w).stat.msgIn = s.msgIn + ((s.thread w).stat.msgIn + 1) at hin
    change _ = s.log.length + s.notify.refused + inPush { s with notify := s.notify.setSender w (.pushing m) }
    omega
  | returned w env c t htask hsender ht =>
    obtain ⟨-, -, -, -, -, hstat, -⟩ := Thread.processRound_cases ht
    exact h.of_msgIn (congrArg WorkerStat.msgIn hstat)
  | push w a m notify hsender hfresh hn =>
    have hpush := s.inPush_setSender notify (push_sender hn).1
    rw [hsender] at hpush
    unfold CountsIn at h ⊢
    change _ + 1 = _ + 0 at hpush
    change s.msgIn = (s.log ++ [(w, m)]).length + notify.refused + inPush { s with notify := notify }
    rw [(push_sender hn).2, List.length_append, List.length_singleton]
    omega
  | sendReply w c rs t hw hlive hwritable ht => exact h.of_msgIn (congrArg WorkerStat.msgIn (Thread.stat_sendReply ht))
  | cron w t hw hsender ht =>
    obtain ⟨tables, -, rfl⟩ := Option.map_eq_some_iff.mp ht
    refine (h.of_notify (s.notify.setSender w (.notifying 0 false)) rfl ?_).of_msgIn rfl
    intro v m
    change Function.update _ _ _ _ = _ ↔ _
    by_cases hv : v = w
    . subst hv
      rw [Function.update_self, hsender]
      exact iff_of_false (fun heq => nomatch heq) (fun heq => nomatch heq)
    . rw [Function.update_of_ne hv]
  | publish w env q m notify t hnext hn ht =>
    obtain ⟨-, hsender, hrefused⟩ := nextMessage_cases hnext hn
    obtain ⟨tables, deliveries, -, hdeliver⟩ := Thread.publishMessage_cases ht
    have hnotify := h.of_notify notify hrefused fun v m => by rw [hsender]
    exact hnotify.of_msgIn (Thread.deliverAll_publishes hdeliver).msgIn_eq
  | wrongNotice w env q notify hnext hn =>
    obtain ⟨-, hsender, hrefused⟩ := nextMessage_cases hnext hn
    exact h.of_notify notify hrefused fun v m => by rw [hsender]
  | quiet l notify hquiet => exact h.of_notify notify hquiet.refused_eq hquiet.pushing_iff

theorem of_reaches (h : Run.Reaches (Step queueLimit stringMatch) (init a : Server W) ls s) : s.CountsIn := by
  apply h.invariant CountsIn _ fun _ _ _ => step
  have hin : (init a : Server W).msgIn = 0 := Finset.sum_eq_zero fun _ _ => rfl
  have hpush : (init a : Server W).inPush = 0 := Finset.sum_eq_zero fun _ _ => rfl
  unfold CountsIn
  rw [hin, hpush]
  rfl

end CountsIn

end Server
end Kids
