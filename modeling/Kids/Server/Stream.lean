import Kids.Server.Broadcast
import Kids.Server.Says

/-!
The byte stream to a client of the server: what its socket has taken and what is still in `rep_` are the answers
to its requests and the published messages, in the order in which the client was told them.
-/

namespace Kids

open Bytes

namespace Output

def encoding : Output → Bytes
  | .answer env sub e => (Session.replies env sub e).flatten
  | .publish d m => (d.call m).encoding

end Output

namespace Endpoint

def said (p : Endpoint) : Bytes :=
  (p.outputs.map Output.encoding).flatten

structure Streamed (p : Endpoint) : Prop where
  wf : p.reply.out.Wf
  stream : p.written ++ p.reply.out.unsent = p.said

namespace Streamed

variable {p : Endpoint}

theorem init (fd : Int) : (Endpoint.init fd).Streamed where
  wf := .inl rfl
  stream := rfl

theorem of_eq {q : Endpoint} (h : p.Streamed) (hreply : q.reply = p.reply) (hwritten : q.written = p.written)
    (houtputs : q.outputs = p.outputs) : q.Streamed where
  wf := by
    rw [hreply]
    exact h.wf
  stream := by
    unfold said
    rw [hreply, hwritten, houtputs]
    exact h.stream

theorem extend {reply : Reply} {o : Output} (h : p.Streamed) (hopen : p.reply.Open)
    (hext : Session.Extended p.reply reply o.encoding) (request : Request)
    : Streamed { p with request := request, reply := reply, outputs := p.outputs ++ [o] } where
  wf := .inl hext.flushed
  stream := by
    have hstream := h.stream
    have hdata := hext.data_eq
    unfold Reply.rep at hdata
    unfold Outgoing.unsent said at hstream ⊢
    rw [hopen.flushed, List.drop_zero] at hstream
    dsimp only
    rw [hext.flushed, List.drop_zero, hdata, ← List.append_assoc, hstream]
    simp

theorem sendReply (h : p.Streamed) (hsent : p.reply.sendReply rs = some sent)
    : Streamed { p with reply := sent.client, written := p.written ++ sent.bytes } := by
  unfold Reply.sendReply at hsent
  split at hsent
  . cases hsent
  . next out bytes failed hw =>
    have hspec := Outgoing.WriteSpec.of_writeAll Reply.clearRep Reply.data_clearRep p.reply.out 0 rs h.wf hw
    have hstream := h.stream
    rw [hspec.unsent_eq, ← List.append_assoc] at hstream
    dsimp only at hsent
    split at hsent
    . cases hsent
      exact ⟨hspec.wf, hstream⟩
    . split at hsent
      . cases hsent
        exact ⟨hspec.wf, hstream⟩
      . cases hsent
        exact ⟨hspec.wf, hstream⟩

end Streamed
end Endpoint

namespace Thread

variable {t t' : Thread}

theorem deliverAll_outputs {deliveries : List Delivery} (h : deliveries.foldlM (deliver env m) t = some t')
    (c : ClientId)
    : (t'.endpoint c).outputs =
        (t.endpoint c).outputs ++ (deliveries.filter fun d => d.client = c).map (.publish . m) := by
  induction deliveries generalizing t with
  | nil =>
    cases h
    simp
  | cons d deliveries ih =>
    rw [List.foldlM_cons] at h
    obtain ⟨t1, ht1, hrest⟩ := Option.bind_eq_some_iff.mp h
    obtain ⟨sub, session, -, -, -, -, -, -, hendpoint⟩ := deliver_cases ht1
    rw [ih hrest, hendpoint]
    by_cases hc : d.client = c
    . subst hc
      rw [Function.update_self, List.filter_cons_of_pos (by simp)]
      simp
    . rw [Function.update_of_ne (Ne.symm hc), List.filter_cons_of_neg (by simpa using hc)]

theorem deliver_streamed (h : t.deliver env m d = some t') (hs : (t.endpoint c).Streamed)
    (hopen : (t.endpoint c).reply.Open) : (t'.endpoint c).Streamed ∧ (t'.endpoint c).reply.Open := by
  obtain ⟨sub, session, -, hcall, -, -, -, -, hendpoint⟩ := deliver_cases h
  rw [hendpoint]
  by_cases hc : c = d.client
  . subst hc
    rw [Function.update_self]
    have happ := (Session.call_appends hopen hcall).1
    exact ⟨hs.extend hopen ⟨happ.data_eq, happ.sentlen_eq.trans hopen.flushed⟩ _, hopen.appended happ⟩
  . rw [Function.update_of_ne hc]
    exact ⟨hs, hopen⟩

-- the client is open whenever it is told something
def Heard (c : ClientId) (t t' : Thread) : Prop :=
  (t.endpoint c).outputs.length < (t'.endpoint c).outputs.length → (t.endpoint c).reply.Open

theorem publishMessage_streamed (h : t.publishMessage stringMatch env m = some t') (hs : (t.endpoint c).Streamed)
    (hheard : Heard c t t') : (t'.endpoint c).Streamed := by
  obtain ⟨tables, deliveries, -, hdeliver⟩ := publishMessage_cases h
  have houtputs := deliverAll_outputs hdeliver c
  dsimp only at houtputs
  by_cases hmem : ∃ d ∈ deliveries, d.client = c
  . have hopen : (t.endpoint c).reply.Open := by
      apply hheard
      obtain ⟨d, hd, hc⟩ := hmem
      rw [houtputs, List.length_append, List.length_map]
      have : d ∈ deliveries.filter fun d => d.client = c := List.mem_filter.mpr ⟨hd, by simpa using hc⟩
      have := List.length_pos_of_mem this
      omega
    refine (deliverAll_invariant (fun t => (t.endpoint c).Streamed ∧ (t.endpoint c).reply.Open) hdeliver
      ⟨hs, hopen⟩ ?_).1
    intro t d t' ht _ hstep
    exact deliver_streamed hstep ht.1 ht.2
  . have hsame : t'.endpoint c = t.endpoint c := by
      refine deliverAll_invariant (fun t' => t'.endpoint c = t.endpoint c) hdeliver rfl ?_
      intro t1 d t2 ht1 hd hstep
      obtain ⟨sub, session, -, -, -, -, -, -, hendpoint⟩ := deliver_cases hstep
      rw [hendpoint, Function.update_of_ne, ht1]
      rintro rfl
      exact hmem ⟨d, hd, rfl⟩
    rw [hsame]
    exact hs

theorem processRound_streamed (h : t.processRound env d = some t') (hs : (t.endpoint c).Streamed)
    (hheard : Heard c t t') : (t'.endpoint c).Streamed := by
  obtain ⟨peer, peer', hpeer, hround, -, -, -, hcases⟩ := processRound_cases h
  obtain ⟨sub, -, rfl⟩ := client_eq_some hpeer
  obtain ⟨-, hevents⟩ := Client.processRound_cases hround
  unfold Heard at hheard
  by_cases hc : c = d
  . subst hc
    obtain ⟨hnone, -, hendpoint⟩ | ⟨e, tables, hevent, -, -, hendpoint⟩ := hcases
    . obtain ⟨-, hsession⟩ | ⟨e, hsome, -⟩ := hevents
      . rw [hendpoint, Function.update_self, hsession]
        exact hs.of_eq rfl rfl rfl
      . rw [hnone] at hsome
        cases hsome
    . obtain ⟨hnone, -⟩ | ⟨e', hsome, hhandle⟩ := hevents
      . rw [hevent] at hnone
        cases hnone
      . obtain rfl : e = e' := Option.some.inj (hevent.symm.trans hsome)
        rw [hendpoint, Function.update_self] at hheard ⊢
        have hopen := hheard (by simp)
        exact hs.extend hopen (Session.handle_extended hopen hhandle) _
  . obtain ⟨-, -, hendpoint⟩ | ⟨e, tables, -, -, -, hendpoint⟩ := hcases
    . rwa [hendpoint, Function.update_of_ne hc]
    . rwa [hendpoint, Function.update_of_ne hc]

theorem freeClient_endpoint (h : t.freeClient c = some t') : t'.endpoint = t.endpoint := by
  obtain ⟨tables, -, rfl⟩ := freeClient_cases h
  rfl

theorem readRequest_streamed (h : t.readRequest d r = some t') (hs : (t.endpoint c).Streamed)
    : (t'.endpoint c).Streamed := by
  obtain rfl | hfree | ⟨buf, req, -, -, -, hcases⟩ := readRequest_cases h
  . exact hs
  . rw [freeClient_endpoint hfree]
    exact hs
  . have hset : t'.endpoint = (t.setEndpoint d { t.endpoint d with
        request := { (t.endpoint d).request with req := req }, received := (t.endpoint d).received ++ buf }).endpoint := by
      obtain ⟨-, hfree⟩ | ⟨-, rfl⟩ := hcases
      . exact freeClient_endpoint hfree
      . rfl
    rw [hset]
    by_cases hc : c = d
    . subst hc
      rw [endpoint_setEndpoint_self]
      exact hs.of_eq rfl rfl rfl
    . rwa [endpoint_setEndpoint_of_ne _ _ hc]

theorem sendReply_streamed (h : t.sendReply d rs = some t') (hs : (t.endpoint c).Streamed)
    : (t'.endpoint c).Streamed := by
  obtain ⟨sent, hsent, hcases⟩ := sendReply_cases h
  have hset : t'.endpoint = (t.setEndpoint d { t.endpoint d with
      reply := sent.client, written := (t.endpoint d).written ++ sent.bytes }).endpoint := by
    obtain ⟨-, hfree⟩ | ⟨-, rfl⟩ := hcases
    . exact freeClient_endpoint hfree
    . rfl
  rw [hset]
  by_cases hc : c = d
  . subst hc
    rw [endpoint_setEndpoint_self]
    exact hs.sendReply hsent
  . rwa [endpoint_setEndpoint_of_ne _ _ hc]

end Thread

namespace Server

variable {W : Nat} {s s' : Server W}

/--
A step in which the client `c` of the worker `w` is not told anything in the middle of a write, or when it is
about to be closed.
-/
def Opened (queueLimit : Nat) (stringMatch : Bytes → Bytes → Bool) (w : Fin W) (c : ClientId) (s : Server W)
    (l : Label W) (s' : Server W) : Prop :=
  Step queueLimit stringMatch s l s' ∧ (s.thread w).Heard c (s'.thread w)

theorem streamed_step (h : ((s.thread v).endpoint c).Streamed) (hstep : Opened queueLimit stringMatch v c s l s')
    : ((s'.thread v).endpoint c).Streamed := by
  obtain ⟨hstep, hheard⟩ := hstep
  have hset {notify : Notify W} {w : Fin W} {t : Thread}
      (heq : s' = { s with notify := notify }.setThread w t)
      (hsame : ((s.thread w).endpoint c).Streamed → (s.thread w).Heard c t → (t.endpoint c).Streamed)
      : ((s'.thread v).endpoint c).Streamed := by
    subst heq
    by_cases hv : v = w
    . subst hv
      rw [thread_setThread_self] at hheard ⊢
      exact hsame h hheard
    . rwa [thread_setThread_of_ne _ _ hv]
  cases hstep.transition with
  | getNewConnection w d fd hw hfresh =>
    apply hset rfl
    intro hs _
    unfold Thread.getNewConnection
    by_cases hc : c = d
    . subst hc
      rw [Thread.endpoint_setEndpoint_self]
      exact .init fd
    . rwa [Thread.endpoint_setEndpoint_of_ne _ _ hc]
  | readRequest w d r t hw hlive ht => exact hset rfl fun hs _ => Thread.readRequest_streamed ht hs
  | round w env d t htask hlogged ht => exact hset rfl (Thread.processRound_streamed ht)
  | refused w env d m t htask hlogged hsender hfull ht =>
    apply hset rfl
    intro hs hheard
    exact Thread.processRound_streamed (t := (s.thread w).countIn m) ht hs hheard
  | accepted w env d m htask hlogged hsender hroom => exact hset rfl fun hs _ => hs
  | returned w env d t htask hsender ht => exact hset rfl (Thread.processRound_streamed ht)
  | push => exact h
  | sendReply w d rs t hw hlive hwritable ht => exact hset rfl fun hs _ => Thread.sendReply_streamed ht hs
  | cron w t hw hsender ht =>
    apply hset rfl
    intro hs _
    obtain ⟨tables, -, rfl⟩ := Option.map_eq_some_iff.mp ht
    exact hs
  | publish w env q m notify t hnext hn ht => exact hset rfl (Thread.publishMessage_streamed ht)
  | wrongNotice => exact h
  | quiet => exact h

theorem streamed_of_reaches (h : Run.Reaches (Opened queueLimit stringMatch w c) (init a : Server W) ls s)
    : ((s.thread w).endpoint c).Streamed :=
  h.invariant (fun s : Server W => ((s.thread w).endpoint c).Streamed) (.init 0) fun _ _ _ => streamed_step

/--
For a client that is open whenever it is told something, the bytes that its socket has taken, followed by those
that wait in `rep_`, are the answers and messages that it was told, each whole and in order.
-/
theorem stream_of_opened (h : Run.Reaches (Opened queueLimit stringMatch w c) (init a : Server W) ls s)
    : ((s.thread w).endpoint c).written ++ ((s.thread w).endpoint c).reply.out.unsent =
        ((s.thread w).endpoint c).said :=
  (streamed_of_reaches h).stream

instance (c : Reply) : Decidable c.Open :=
  decidable_of_iff (c.closeAfterReply = false ∧ 0 < c.fd ∧ c.out.sentlen = 0)
    ⟨fun h => ⟨h.1, h.2.1, h.2.2⟩, fun h => ⟨h.opened, h.fd_pos, h.flushed⟩⟩

instance (c : ClientId) (t t' : Thread) : Decidable (Thread.Heard c t t') :=
  inferInstanceAs (Decidable (_ → _))

def openedStep (queueLimit : Nat) (stringMatch : Bytes → Bytes → Bool) (w : Fin W) (c : ClientId) (s : Server W)
    (l : Label W) : Option (Server W) :=
  (s.legalStep queueLimit stringMatch l).filter fun s' => decide ((s.thread w).Heard c (s'.thread w))

theorem opened_of_openedStep (h : openedStep queueLimit stringMatch w c s l = some s')
    : Opened queueLimit stringMatch w c s l s' := by
  obtain ⟨hstep, hheard⟩ := Option.filter_eq_some_iff.mp h
  exact ⟨step_of_legalStep hstep, of_decide_eq_true hheard⟩

-- the answer to `subscribe`, and a message that is pushed to the client before its own `publish` is answered
theorem stream_of_opened_published
    : ∃ s : Server 1, Run.Reaches (Opened 10 (fun _ _ => true) 0 1) (init 0)
          (subscribing ++ [.sendReply 0 1 [.wrote 100]] ++ publishing) s ∧
        ((s.thread 0).endpoint 1).written ++ ((s.thread 0).endpoint 1).reply.out.unsent =
          ofString "*3\r\n$9\r\nsubscribe\r\n$1\r\na\r\n:1\r\n:1\r\n*3\r\n$7\r\nmessage\r\n$1\r\na\r\n$1\r\nb\r\n" := by
  obtain ⟨s, hreach, hsaid⟩ := Run.Reaches.exists_of_any (openedStep 10 (fun _ _ => true) 0 1) (init 0)
    (subscribing ++ [.sendReply 0 1 [.wrote 100]] ++ publishing) (fun s => ((s.thread 0).endpoint 1).said =
      ofString "*3\r\n$9\r\nsubscribe\r\n$1\r\na\r\n:1\r\n:1\r\n*3\r\n$7\r\nmessage\r\n$1\r\na\r\n$1\r\nb\r\n")
    (fun _ _ _ => opened_of_openedStep) (by decide +kernel)
  exact ⟨s, hreach, (stream_of_opened hreach).trans hsaid⟩

end Server
end Kids
