import Kids.Server.Thread
import Kids.Worker.PubSubSafety

/-!
What each callback of a worker thread does to the tables of the worker and to its clients.
-/

namespace Kids

namespace Worker

theorem Sound.processEvent (order : BeginOrder Bytes) (h : Sound w) (hc : w.heap c ≠ none) (e : RequestEvent)
    : ∃ w', w.processEvent order c e = some w' ∧ Sound w' := by
  cases e with
  | protocolError err => exact ⟨w, rfl, h⟩
  | command argv =>
    unfold Worker.processEvent
    dsimp only
    generalize Command.ofName (argv.headD []) = cmd
    cases cmd with
    | subscribe => exact h.processSubscribe hc _ _
    | psubscribe => exact h.processPSubscribe hc _ _
    | unsubscribe => exact h.processUnSubscribe order hc _ _
    | punsubscribe => exact h.processPUnSubscribe order hc _ _
    | _ => exact ⟨w, rfl, h⟩

theorem Sound.of_some {x : Option Worker} (h : ∃ w', x = some w' ∧ Sound w') (hx : x = some w) : Sound w := by
  obtain ⟨w', hw', hsound⟩ := h
  rw [hx] at hw'
  cases hw'
  exact hsound

end Worker

namespace Endpoint

/--
The messages that the client was told in this way, in order.
-/
def told (p : Endpoint) (d : Delivery) : List Message :=
  p.outputs.filterMap fun
    | .publish d' m => if d' = d then some m else none
    | .answer _ _ _ => none

theorem told_publish (p : Endpoint) (reply : Reply) (d e : Delivery) (m : Message)
    : told { p with reply := reply, outputs := p.outputs ++ [.publish d m] } e = p.told e ++ if d = e then [m] else [] := by
  unfold told
  rw [List.filterMap_append]
  by_cases hd : d = e
  . simp [hd]
  . simp [hd]

theorem told_answer (p : Endpoint) (request : Request) (reply : Reply) (env : CommandEnv) (sub : Subscriber)
    (e : RequestEvent) (d : Delivery)
    : told { p with request := request, reply := reply, outputs := p.outputs ++ [.answer env sub e] } d = p.told d := by
  unfold told
  rw [List.filterMap_append]
  simp

end Endpoint

namespace Thread

variable {t t' : Thread} {peer : Client}

@[simp]
theorem endpoint_setEndpoint_self (t : Thread) (c : ClientId) (p : Endpoint) : (t.setEndpoint c p).endpoint c = p :=
  Function.update_self ..

@[simp]
theorem endpoint_setEndpoint_of_ne (t : Thread) (p : Endpoint) (h : d ≠ c)
    : (t.setEndpoint c p).endpoint d = t.endpoint d :=
  Function.update_of_ne h ..

@[simp]
theorem tables_setEndpoint (t : Thread) (c : ClientId) (p : Endpoint) : (t.setEndpoint c p).tables = t.tables := rfl

@[simp]
theorem task_setEndpoint (t : Thread) (c : ClientId) (p : Endpoint) : (t.setEndpoint c p).task = t.task := rfl

@[simp]
theorem stat_setEndpoint (t : Thread) (c : ClientId) (p : Endpoint) : (t.setEndpoint c p).stat = t.stat := rfl

@[simp]
theorem published_setEndpoint (t : Thread) (c : ClientId) (p : Endpoint)
    : (t.setEndpoint c p).published = t.published := rfl

@[simp]
theorem endpoint_settle (t : Thread) (c : ClientId) : (t.settle c).endpoint = t.endpoint := rfl

@[simp]
theorem task_settle (t : Thread) (c : ClientId) : (t.settle c).task = t.task := rfl

@[simp]
theorem stat_settle (t : Thread) (c : ClientId) : (t.settle c).stat = t.stat := rfl

@[simp]
theorem published_settle (t : Thread) (c : ClientId) : (t.settle c).published = t.published := rfl

@[simp]
theorem heap_settle (t : Thread) (c : ClientId) : (t.settle c).tables.heap = t.tables.heap :=
  Worker.reply_heap ..

@[simp]
theorem clientsByTopic_settle (t : Thread) (c : ClientId)
    : (t.settle c).tables.clientsByTopic = t.tables.clientsByTopic :=
  Worker.reply_clientsByTopic ..

@[simp]
theorem pubsubPatterns_settle (t : Thread) (c : ClientId)
    : (t.settle c).tables.pubsubPatterns = t.tables.pubsubPatterns :=
  Worker.reply_pubsubPatterns ..

theorem client_eq_some (h : t.client c = some peer)
    : ∃ sub, t.tables.heap c = some sub ∧ peer = ⟨(t.endpoint c).request, ⟨(t.endpoint c).reply, sub⟩, false⟩ := by
  obtain ⟨sub, hsub, rfl⟩ := Option.map_eq_some_iff.mp h
  exact ⟨sub, hsub, rfl⟩

theorem client_ne_none (h : t.client c = some peer) : t.tables.heap c ≠ none := by
  obtain ⟨sub, hsub, -⟩ := client_eq_some h
  rw [hsub]
  exact Option.some_ne_none sub

theorem deliver_cases (h : t.deliver env m d = some t')
    : ∃ sub session, t.tables.heap d.client = some sub ∧
        Session.call env ⟨(t.endpoint d.client).reply, sub⟩ (d.call m) = some session ∧
        t'.tables = (t.tables.reply d.client session.reply.closeAsap) ∧ t'.task = t.task ∧
        t'.stat = { t.stat with
          msgOut := t.stat.msgOut + 1, msgOutTraffic := t.stat.msgOutTraffic + m.memory } ∧
        t'.published = t.published ∧
        t'.endpoint = Function.update t.endpoint d.client { t.endpoint d.client with
          reply := session.reply
          outputs := (t.endpoint d.client).outputs ++ [.publish d m] } := by
  unfold deliver at h
  split at h
  . cases h
  . next peer hpeer =>
    obtain ⟨sub, hsub, rfl⟩ := client_eq_some hpeer
    dsimp only at h
    split at h
    . cases h
    . next session hsession =>
      cases h
      refine ⟨sub, session, hsub, hsession, ?_, rfl, rfl, rfl, rfl⟩
      simp only [settle, endpoint_setEndpoint_self, tables_setEndpoint]

theorem deliverAll_invariant (P : Thread → Prop) {deliveries : List Delivery}
    (h : deliveries.foldlM (deliver env m) t = some t') (ht : P t)
    (hstep : ∀ t d t', P t → d ∈ deliveries → t.deliver env m d = some t' → P t')
    : P t' := by
  induction deliveries generalizing t with
  | nil =>
    cases h
    exact ht
  | cons d deliveries ih =>
    rw [List.foldlM_cons] at h
    obtain ⟨t1, ht1, hrest⟩ := Option.bind_eq_some_iff.mp h
    apply ih hrest (hstep t d t1 ht List.mem_cons_self ht1)
    intro t d t' hpt hd hdeliver
    exact hstep t d t' hpt (List.mem_cons_of_mem _ hd) hdeliver

/--
What the deliveries of a message leave alone, and what they do to the clients that they reach.
-/
structure Publishes (m : Message) (deliveries : List Delivery) (t t' : Thread) : Prop where
  heap_eq : t'.tables.heap = t.tables.heap
  task_eq : t'.task = t.task
  published_eq : t'.published = t.published
  msgIn_eq : t'.stat.msgIn = t.stat.msgIn
  msgOut_eq : t'.stat.msgOut = t.stat.msgOut + deliveries.length
  msgOutTraffic_eq : t'.stat.msgOutTraffic = t.stat.msgOutTraffic + deliveries.length * m.memory
  told_eq : ∀ d, (t'.endpoint d.client).told d = (t.endpoint d.client).told d ++ List.replicate (deliveries.count d) m
  sound : t.tables.Sound → t'.tables.Sound

theorem deliverAll_publishes {deliveries : List Delivery} (h : deliveries.foldlM (deliver env m) t = some t')
    : Publishes m deliveries t t' := by
  induction deliveries generalizing t with
  | nil =>
    cases h
    exact ⟨rfl, rfl, rfl, rfl, rfl, by simp, fun d => by simp, id⟩
  | cons d deliveries ih =>
    rw [List.foldlM_cons] at h
    obtain ⟨t1, ht1, hrest⟩ := Option.bind_eq_some_iff.mp h
    obtain ⟨sub, session, hsub, -, htables, htask, hstat, hpublished, hendpoint⟩ := deliver_cases ht1
    have hp := ih hrest
    refine ⟨?_, hp.task_eq.trans htask, hp.published_eq.trans hpublished, ?_, ?_, ?_, ?_, ?_⟩
    . rw [hp.heap_eq, htables, Worker.reply_heap]
    . rw [hp.msgIn_eq, hstat]
    . rw [hp.msgOut_eq, hstat, List.length_cons]
      dsimp only
      omega
    . rw [hp.msgOutTraffic_eq, hstat, List.length_cons, Nat.succ_mul]
      dsimp only
      omega
    . intro e
      rw [hp.told_eq e, hendpoint]
      by_cases hc : e.client = d.client
      . rw [hc, Function.update_self, Endpoint.told_publish, List.append_assoc]
        by_cases hd : d = e
        . rw [hd, if_pos rfl, List.count_cons_self, List.replicate_succ, List.singleton_append]
        . rw [if_neg hd, List.nil_append, List.count_cons_of_ne hd]
      . have hne : d ≠ e := fun heq => hc (congrArg Delivery.client heq.symm)
        rw [Function.update_of_ne hc, List.count_cons_of_ne hne]
    . intro hsound
      apply hp.sound
      rw [htables]
      exact hsound.reply _ _

theorem publishMessage_cases (h : t.publishMessage stringMatch env m = some t')
    : ∃ tables deliveries, t.tables.publishMessage stringMatch m.topic.data (fun _ => false) = some (tables, deliveries) ∧
        deliveries.foldlM (deliver env m) { t with published := t.published ++ [(m, deliveries)] } = some t' := by
  unfold publishMessage at h
  split at h
  . cases h
  . next tables deliveries hdeliveries => exact ⟨tables, deliveries, hdeliveries, h⟩

theorem freeClient_cases (h : t.freeClient c = some t')
    : ∃ tables, t.tables.freeClient .insertion c = some tables ∧ t' = { t with tables := tables } := by
  obtain ⟨tables, htables, rfl⟩ := Option.map_eq_some_iff.mp h
  exact ⟨tables, htables, rfl⟩

theorem readRequest_cases (h : t.readRequest c r = some t')
    : t' = t ∨ t.freeClient c = some t' ∨
        ∃ buf req, r = .data buf ∧ buf ≠ [] ∧ (t.endpoint c).request.req.append buf = some req ∧
          let t1 := t.setEndpoint c { t.endpoint c with
            request := { (t.endpoint c).request with req := req }, received := (t.endpoint c).received ++ buf }
          (maxQuerybufLen < req.size ∧ t1.freeClient c = some t') ∨
            (req.size ≤ maxQuerybufLen ∧ t' = { t1 with task := .processing c }) := by
  cases r with
  | again =>
    cases h
    exact .inl rfl
  | failed => exact .inr (.inl h)
  | data buf =>
    unfold readRequest at h
    dsimp only at h
    split at h
    . exact .inr (.inl h)
    . next hlen =>
      split at h
      . cases h
      . next req hreq =>
        refine .inr (.inr ⟨buf, req, rfl, ?_, hreq, ?_⟩)
        . rintro rfl
          exact hlen rfl
        . split at h
          . next hbig => exact .inl ⟨hbig, h⟩
          . next hsmall =>
            cases h
            exact .inr ⟨Nat.le_of_not_lt hsmall, rfl⟩

theorem sendReply_cases (h : t.sendReply c rs = some t')
    : ∃ sent, (t.endpoint c).reply.sendReply rs = some sent ∧
        let t1 := t.setEndpoint c { t.endpoint c with
          reply := sent.client, written := (t.endpoint c).written ++ sent.bytes }
        (sent.freed = true ∧ t1.freeClient c = some t') ∨ (sent.freed = false ∧ t' = t1) := by
  unfold sendReply at h
  dsimp only at h
  split at h
  . cases h
  . next reply bytes freed hsent =>
    refine ⟨⟨reply, bytes, freed⟩, hsent, ?_⟩
    split at h
    . next hfreed => exact .inl ⟨hfreed, h⟩
    . next hfreed =>
      cases h
      exact .inr ⟨by simpa using hfreed, rfl⟩

theorem processRound_cases (h : t.processRound env c = some t')
    : ∃ peer peer', t.client c = some peer ∧ peer.processRound env = some peer' ∧
        t'.task = (if peer.loops then .processing c else .waiting) ∧ t'.stat = t.stat ∧ t'.published = t.published ∧
        ((peer.nextEvent = none ∧ t'.tables = t.tables ∧
            t'.endpoint = Function.update t.endpoint c { t.endpoint c with
              request := peer'.request, reply := peer'.session.reply }) ∨
          ∃ e tables, peer.nextEvent = some e ∧ t.tables.processEvent env.order c e = some tables ∧
            t'.tables = tables.reply c peer'.session.reply.closeAsap ∧
            t'.endpoint = Function.update t.endpoint c { t.endpoint c with
              request := peer'.request
              reply := peer'.session.reply
              outputs := (t.endpoint c).outputs ++ [.answer env peer.session.sub e] }) := by
  unfold processRound at h
  split at h
  . cases h
  . next peer hpeer =>
    split at h
    . cases h
    . next peer' hpeer' =>
      refine ⟨peer, peer', hpeer, hpeer', ?_⟩
      split at h
      . next hevent =>
        cases h
        exact ⟨rfl, rfl, rfl, .inl ⟨hevent, rfl, rfl⟩⟩
      . next e hevent =>
        split at h
        . cases h
        . next tables htables =>
          cases h
          refine ⟨rfl, rfl, rfl, .inr ⟨e, tables, hevent, htables, ?_, rfl⟩⟩
          simp only [settle, endpoint_setEndpoint_self]
          rfl

/--
What a callback that publishes no message leaves alone.
-/
structure Keeps (t t' : Thread) : Prop where
  sound : t.tables.Sound → t'.tables.Sound
  published_eq : t'.published = t.published
  out_eq : (t'.stat.msgOut, t'.stat.msgOutTraffic) = (t.stat.msgOut, t.stat.msgOutTraffic)
  told_eq : ∀ d, t.tables.heap d.client ≠ none → (t'.endpoint d.client).told d = (t.endpoint d.client).told d

namespace Keeps

theorem refl (t : Thread) : Keeps t t :=
  ⟨id, rfl, rfl, fun _ _ => rfl⟩

theorem trans {t1 : Thread} (h1 : Keeps t t1) (h2 : Keeps t1 t') (hheap : t1.tables.heap = t.tables.heap)
    : Keeps t t' where
  sound hsound := h2.sound (h1.sound hsound)
  published_eq := h2.published_eq.trans h1.published_eq
  out_eq := h2.out_eq.trans h1.out_eq
  told_eq d hd := by
    rw [h2.told_eq d (by rwa [hheap]), h1.told_eq d hd]

theorem freeClient (hlive : t.tables.heap c ≠ none) (h : t.freeClient c = some t') : Keeps t t' := by
  obtain ⟨tables, htables, rfl⟩ := freeClient_cases h
  exact ⟨fun hsound => .of_some (hsound.freeClient .insertion hlive) htables, rfl, rfl, fun _ _ => rfl⟩

theorem setEndpoint (p : Endpoint) (hp : p.outputs = (t.endpoint c).outputs) : Keeps t (t.setEndpoint c p) where
  sound := id
  published_eq := rfl
  out_eq := rfl
  told_eq d _ := by
    by_cases hd : d.client = c
    . unfold Endpoint.told
      rw [hd, endpoint_setEndpoint_self, hp]
    . rw [endpoint_setEndpoint_of_ne t p hd]

theorem getNewConnection (hfresh : t.tables.heap c = none) (fd : Int) : Keeps t (t.getNewConnection c fd) where
  sound h := h.getNewConnection hfresh
  published_eq := rfl
  out_eq := rfl
  told_eq d hd := by
    have hne : d.client ≠ c := by
      rintro rfl
      exact hd hfresh
    unfold Thread.getNewConnection
    rw [endpoint_setEndpoint_of_ne _ _ hne]

theorem readRequest (hlive : t.tables.heap c ≠ none) (h : t.readRequest c r = some t') : Keeps t t' := by
  obtain rfl | hfree | ⟨buf, req, -, -, -, ⟨-, hfree⟩ | ⟨-, rfl⟩⟩ := readRequest_cases h
  . exact .refl _
  . exact .freeClient hlive hfree
  . have hkeeps := freeClient (by exact hlive) hfree
    exact (setEndpoint _ (by rfl)).trans hkeeps rfl
  . obtain ⟨hsound, hpublished, hout, htold⟩ := setEndpoint (t := t) (c := c)
      { t.endpoint c with
        request := { (t.endpoint c).request with req := req }, received := (t.endpoint c).received ++ buf } rfl
    exact ⟨hsound, hpublished, hout, htold⟩

theorem sendReply (hlive : t.tables.heap c ≠ none) (h : t.sendReply c rs = some t') : Keeps t t' := by
  obtain ⟨sent, -, ⟨-, hfree⟩ | ⟨-, rfl⟩⟩ := sendReply_cases h
  . have hkeeps := freeClient (by exact hlive) hfree
    exact (setEndpoint _ (by rfl)).trans hkeeps rfl
  . exact setEndpoint _ rfl

theorem processRound (h : t.processRound env c = some t') : Keeps t t' := by
  obtain ⟨peer, peer', hpeer, -, -, hstat, hpublished, hcases⟩ := processRound_cases h
  obtain ⟨-, htables, hendpoint⟩ | ⟨e, tables, -, htables, htables', hendpoint⟩ := hcases
  . refine ⟨?_, hpublished, by rw [hstat], ?_⟩
    . rw [htables]
      exact id
    . intro d _
      rw [hendpoint]
      by_cases hd : d.client = c
      . rw [hd, Function.update_self]
        rfl
      . rw [Function.update_of_ne hd]
  . refine ⟨?_, hpublished, by rw [hstat], ?_⟩
    . intro hsound
      rw [htables']
      exact (Worker.Sound.of_some (hsound.processEvent env.order (client_ne_none hpeer) e) htables).reply c _
    . intro d _
      rw [hendpoint]
      by_cases hd : d.client = c
      . rw [hd, Function.update_self, Endpoint.told_answer]
      . rw [Function.update_of_ne hd]

theorem countIn (t : Thread) (m : Message) : Keeps t (t.countIn m) :=
  ⟨id, rfl, rfl, fun _ _ => rfl⟩

theorem freeClientsInAsyncFreeQueue (h : t.freeClientsInAsyncFreeQueue = some t') : Keeps t t' := by
  obtain ⟨tables, htables, rfl⟩ := Option.map_eq_some_iff.mp h
  exact ⟨fun hsound => .of_some (hsound.freeClientsInAsyncFreeQueue .insertion) htables, rfl, rfl, fun _ _ => rfl⟩

end Keeps

end Thread
end Kids
