import Kids.Server.Stream

/-!
What the steps of the server do to one of its connections.
-/

namespace Kids

open Bytes

namespace ReadResult

def bytes : ReadResult → Bytes
  | .data buf => buf
  | _ => []

end ReadResult

namespace Endpoint

/--
A step of a connection that reads these bytes. What was written and told before stays so.
-/
structure Traffic (p q : Endpoint) (read : Bytes) : Prop where
  received_eq : q.received = p.received ++ read
  written_prefix : p.written <+: q.written
  outputs_prefix : p.outputs <+: q.outputs

theorem Traffic.of_eq {p q : Endpoint} (hreceived : q.received = p.received) (hwritten : q.written = p.written)
    (houtputs : q.outputs = p.outputs) : Traffic p q [] := by
  refine ⟨?_, ?_, ?_⟩
  . rw [hreceived, List.append_nil]
  . rw [hwritten]
  . rw [houtputs]

end Endpoint

namespace Thread

open Endpoint

variable {t t' : Thread}

theorem traffic_update {q : Endpoint} (h : t'.endpoint = Function.update t.endpoint d q)
    (hq : Traffic (t.endpoint d) q buf) (c : ClientId)
    : Traffic (t.endpoint c) (t'.endpoint c) (if d = c then buf else []) := by
  rw [h]
  by_cases hd : d = c
  . subst hd
    rw [if_pos rfl, Function.update_self]
    exact hq
  . rw [if_neg hd, Function.update_of_ne (Ne.symm hd)]
    exact .of_eq rfl rfl rfl

theorem traffic_readRequest (h : t.readRequest d r = some t') (c : ClientId)
    : Traffic (t.endpoint c) (t'.endpoint c) (if d = c then r.bytes else []) := by
  cases r with
  | again =>
    cases h
    exact traffic_update (Function.update_eq_self d _).symm (.of_eq rfl rfl rfl) c
  | failed =>
    rw [freeClient_endpoint h]
    exact traffic_update (Function.update_eq_self d _).symm (.of_eq rfl rfl rfl) c
  | data buf =>
    unfold readRequest at h
    dsimp only at h
    split at h
    . next hlen =>
      obtain rfl : buf = [] := List.length_eq_zero_iff.mp hlen
      rw [freeClient_endpoint h]
      exact traffic_update (Function.update_eq_self d _).symm (.of_eq rfl rfl rfl) c
    . split at h
      . cases h
      . next req hreq =>
        have hread : Traffic (t.endpoint d) { t.endpoint d with
            request := { (t.endpoint d).request with req := req }, received := (t.endpoint d).received ++ buf } buf :=
          ⟨rfl, List.prefix_rfl, List.prefix_rfl⟩
        split at h
        . exact traffic_update (freeClient_endpoint h) hread c
        . cases h
          exact traffic_update rfl hread c

theorem traffic_sendReply (h : t.sendReply d rs = some t') (c : ClientId)
    : Traffic (t.endpoint c) (t'.endpoint c) [] := by
  obtain ⟨sent, -, hcases⟩ := sendReply_cases h
  have hsent : Traffic (t.endpoint d) { t.endpoint d with
      reply := sent.client, written := (t.endpoint d).written ++ sent.bytes } [] :=
    ⟨(List.append_nil _).symm, List.prefix_append _ _, List.prefix_rfl⟩
  have htraffic : Traffic (t.endpoint c) (t'.endpoint c) (if d = c then [] else []) := by
    obtain ⟨-, hfree⟩ | ⟨-, rfl⟩ := hcases
    . exact traffic_update (freeClient_endpoint hfree) hsent c
    . exact traffic_update rfl hsent c
  rwa [ite_self] at htraffic

theorem traffic_processRound (h : t.processRound env d = some t') (c : ClientId)
    : Traffic (t.endpoint c) (t'.endpoint c) [] := by
  obtain ⟨peer, peer', -, -, -, -, -, hcases⟩ := processRound_cases h
  have htraffic : Traffic (t.endpoint c) (t'.endpoint c) (if d = c then [] else []) := by
    obtain ⟨-, -, hendpoint⟩ | ⟨e, tables, -, -, -, hendpoint⟩ := hcases
    . exact traffic_update hendpoint (.of_eq rfl rfl rfl) c
    . exact traffic_update hendpoint ⟨(List.append_nil _).symm, List.prefix_rfl, List.prefix_append _ _⟩ c
  rwa [ite_self] at htraffic

theorem traffic_publishMessage (h : t.publishMessage stringMatch env m = some t') (c : ClientId)
    : Traffic (t.endpoint c) (t'.endpoint c) [] := by
  obtain ⟨tables, deliveries, -, hdeliver⟩ := publishMessage_cases h
  refine deliverAll_invariant (fun t' => Traffic (t.endpoint c) (t'.endpoint c) []) hdeliver (.of_eq rfl rfl rfl) ?_
  intro t1 d t2 ht1 _ hstep
  obtain ⟨sub, session, -, -, -, -, -, -, hendpoint⟩ := deliver_cases hstep
  have htold := traffic_update hendpoint ⟨(List.append_nil _).symm, List.prefix_rfl, List.prefix_append _ _⟩ c
  rw [ite_self] at htold
  refine ⟨?_, ht1.written_prefix.trans htold.written_prefix, ht1.outputs_prefix.trans htold.outputs_prefix⟩
  rw [htold.received_eq, ht1.received_eq, List.append_nil]

end Thread

namespace Server

variable {W : Nat} {s s' : Server W}

namespace Label

-- what the step reads from the client
def reads (w : Fin W) (c : ClientId) : Label W → Bytes
  | .readRequest v d r => if v = w ∧ d = c then r.bytes else []
  | _ => []

def connects (w : Fin W) (c : ClientId) : Label W → Bool
  | .getNewConnection v d _ => v = w ∧ d = c
  | _ => false

end Label

theorem traffic_setThread {notify : Notify W} {v : Fin W} {t : Thread}
    (ht : v = w → Endpoint.Traffic ((s.thread v).endpoint c) (t.endpoint c) buf) (hbuf : v ≠ w → buf = [])
    : Endpoint.Traffic ((s.thread w).endpoint c) ((({ s with notify := notify }.setThread v t).thread w).endpoint c)
        buf := by
  by_cases hv : v = w
  . subst hv
    rw [thread_setThread_self]
    exact ht rfl
  . rw [thread_setThread_of_ne _ _ (Ne.symm hv), hbuf hv]
    exact .of_eq rfl rfl rfl

-- the steps that read nothing from a client
theorem traffic_transition (h : Transition queueLimit stringMatch s l s')
    (hconnect : ∀ v d fd, l ≠ .getNewConnection v d fd)
    (hread : ∀ v d r, l ≠ .readRequest v d r) (w : Fin W) (c : ClientId)
    : Endpoint.Traffic ((s.thread w).endpoint c) ((s'.thread w).endpoint c) [] := by
  have hsame : Endpoint.Traffic ((s.thread w).endpoint c) ((s.thread w).endpoint c) [] := .of_eq rfl rfl rfl
  cases h with
  | getNewConnection v d fd hw hfresh => exact absurd rfl (hconnect v d fd)
  | readRequest v d r t hw hlive ht => exact absurd rfl (hread v d r)
  | round v env d t htask hlogged ht => exact traffic_setThread (fun _ => Thread.traffic_processRound ht c) fun _ => rfl
  | refused v env d m t htask hlogged hsender hfull ht =>
    refine traffic_setThread (fun _ => ?_) fun _ => rfl
    exact Thread.traffic_processRound (t := (s.thread v).countIn m) ht c
  | accepted v env d m htask hlogged hsender hroom =>
    exact traffic_setThread (fun _ => .of_eq rfl rfl rfl) fun _ => rfl
  | returned v env d t htask hsender ht =>
    exact traffic_setThread (fun _ => Thread.traffic_processRound ht c) fun _ => rfl
  | push => exact hsame
  | sendReply v d rs t hw hlive hwritable ht =>
    exact traffic_setThread (fun _ => Thread.traffic_sendReply ht c) fun _ => rfl
  | cron v t hw hsender ht =>
    obtain ⟨tables, -, rfl⟩ := Option.map_eq_some_iff.mp ht
    exact traffic_setThread (fun _ => .of_eq rfl rfl rfl) fun _ => rfl
  | publish v env q m notify t hnext hn ht =>
    exact traffic_setThread (fun _ => Thread.traffic_publishMessage ht c) fun _ => rfl
  | wrongNotice => exact hsame
  | quiet => exact hsame

theorem traffic_step (hstep : Step queueLimit stringMatch s l s')
    (hconnect : l.connects w c = true → Endpoint.Traffic ((s.thread w).endpoint c) (.init 0) [])
    : Endpoint.Traffic ((s.thread w).endpoint c) ((s'.thread w).endpoint c) (l.reads w c) := by
  cases l with
  | getNewConnection v d fd =>
    obtain ⟨-, t, ht, rfl⟩ := callback_cases hstep.2
    cases ht
    refine traffic_setThread ?_ fun _ => rfl
    intro hv
    unfold Thread.getNewConnection
    by_cases hd : c = d
    . rw [hd, Thread.endpoint_setEndpoint_self]
      obtain ⟨hreceived, hwritten, houtputs⟩ := hconnect (by simp [Label.connects, hv, hd])
      rw [← hv, hd] at hreceived hwritten houtputs
      exact ⟨hreceived, hwritten, houtputs⟩
    . rw [Thread.endpoint_setEndpoint_of_ne _ _ hd]
      exact .of_eq rfl rfl rfl
  | readRequest v d r =>
    obtain ⟨-, t, ht, rfl⟩ := callback_cases hstep.2
    refine traffic_setThread ?_ fun hv => if_neg fun h => hv h.1
    intro hv
    have htraffic := Thread.traffic_readRequest ht c
    unfold Label.reads
    dsimp only
    by_cases hd : d = c
    . rw [if_pos ⟨hv, hd⟩]
      rwa [if_pos hd] at htraffic
    . rw [if_neg fun h => hd h.2]
      rwa [if_neg hd] at htraffic
  | _ => exact traffic_transition hstep.transition nofun nofun w c

end Server
end Kids
