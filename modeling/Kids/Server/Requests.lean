import Kids.Client.Chunking
import Kids.Server.Broadcast
import Kids.Server.Subscriptions

/-!
The requests of a client of the server: what it has been answered are the commands and the protocol error that its
byte stream reads as, in order, however the stream came in and whatever the worker did in between.
-/

namespace Kids

open Bytes

namespace Session

theorem processCommand_ret {s : Session} {r : Session × Bool} (h : s.processCommand env argv = some r)
    : r.2 = !Request.isQuit argv := by
  have hname : Command.ofName (argv.headD []) = .quit ↔ Request.isQuit argv = true := by
    unfold Request.isQuit Command.ofName Command.names
    rw [List.find?_cons]
    dsimp only
    cases hquit : strcaseeq (argv.headD []) (ofString "quit") with
    | true => exact iff_of_true rfl rfl
    | false =>
      dsimp only
      refine iff_of_false ?_ Bool.false_ne_true
      split
      . next entry hentry =>
        have hmem := List.mem_of_find?_eq_some hentry
        simp only [List.mem_cons, List.not_mem_nil, or_false] at hmem
        rcases hmem with rfl | rfl | rfl | rfl | rfl | rfl | rfl | rfl | rfl | rfl | rfl
        all_goals
          intro heq
          cases heq
      . intro heq
        cases heq
  have hmap {x : Option Session} {b : Bool} (hx : x.map (., b) = some r) : r.2 = b := by
    obtain ⟨s1, -, rfl⟩ := Option.map_eq_some_iff.mp hx
    rfl
  unfold processCommand at h
  dsimp only at h
  generalize Command.ofName (argv.headD []) = cmd at h hname
  cases cmd with
  | quit => rw [hmap h, hname.mp rfl, Bool.not_true]
  | shutdown =>
    cases h
    rw [Bool.eq_false_iff.mpr fun hq => Command.noConfusion (hname.mpr hq), Bool.not_false]
  | _ => rw [hmap h, Bool.eq_false_iff.mpr fun hq => Command.noConfusion (hname.mpr hq), Bool.not_false]

end Session

namespace Client

variable {peer peer' : Client}

theorem parseArguments_ret {c : Request} {r : Request.ParseResult} (h : c.parseArguments pos = some r)
    (hret : r.ret = true) : r.err = none := by
  unfold Request.parseArguments at h
  dsimp only at h
  split at h
  . cases h
    cases hret
  . split at h
    . cases h
    . cases h
      rfl

theorem parseRequestBuffer_ret {c : Request} {r : Request.ParseResult} (h : c.parseRequestBuffer = some r)
    (hret : r.ret = true) : r.err = none := by
  unfold Request.parseRequestBuffer at h
  split at h
  . split at h
    . cases h
      rfl
    . split at h
      . cases h
        rfl
      . split at h
        . cases h
          cases hret
        . split at h
          . cases h
            cases hret
          . split at h
            . split at h
              . cases h
              . cases h
                rfl
            . exact parseArguments_ret h hret
  . exact parseArguments_ret h hret

/--
What a round does to the reading of the request stream.
-/
structure Reads (peer : Client) (request : Request) : Prop where
  steps : ∃ rest, requestMachine.Steps peer.request.control peer.request.req.data peer.nextEvent.toList
      request.control rest ∧
    (request.closeAfterReply = false → rest = request.req.data) ∧
    (peer.loops = false → requestMachine.next request.control rest = none)
  wf : request.closeAfterReply = false → request.Wf
  size_le : request.req.size ≤ peer.request.req.size

theorem wf_reset (c : Request) : c.resetArgumentVector.Wf :=
  ⟨fun _ => ⟨rfl, rfl⟩, fun h => absurd rfl h⟩

theorem processRound_reads (h : peer.processRound env = some peer') (hopen : peer.request.closeAfterReply = false)
    (hwf : peer.request.Wf) (hsmall : peer.request.req.size ≤ maxQuerybufLen) : Reads peer peer'.request := by
  have hbound : peer.request.req.size + 1 < uint32Size := by
    simp only [maxQuerybufLen] at hsmall
    simp only [uint32Size]
    omega
  unfold processRound at h
  by_cases hempty : peer.request.req.size = 0
  . rw [if_pos (.inl hempty)] at h
    cases h
    have hdata : peer.request.req.data = [] := List.length_eq_zero_iff.mp hempty
    have hnone : peer.nextEvent = none := by
      unfold nextEvent
      rw [if_pos (.inl hempty)]
    refine ⟨⟨[], ?_, fun _ => hdata.symm, fun _ => Request.next_nil _⟩, fun _ => hwf, Nat.le_refl _⟩
    rw [hnone, hdata]
    exact .refl _ _
  . have hgo : ¬(peer.request.req.size = 0 ∨ peer.request.closeAfterReply = true) := by
      simp [hempty, hopen]
    rw [if_neg hgo] at h
    obtain ⟨⟨request, err, ret⟩, hparse, hspec⟩ := Request.parseRequestBuffer_spec peer.request hwf hopen hbound
    have hloops : peer.loops = ret := by
      unfold loops
      rw [if_neg hgo, hparse]
    rw [hparse] at h
    cases hspec with
    | error e rest herr hret hclosed hreq hsteps =>
      dsimp only at herr hret hclosed hreq hsteps
      subst herr hret
      obtain ⟨session, -, rfl⟩ := Option.map_eq_some_iff.mp h
      have hevent : peer.nextEvent = some (.protocolError e) := by
        unfold nextEvent
        rw [if_neg hgo, hparse]
      refine ⟨⟨rest, ?_, ?_, fun _ => Request.next_closed hclosed⟩, ?_, by rw [hreq]⟩
      . rw [hevent]
        exact hsteps
      . dsimp only
        rw [hclosed]
        intro hfalse
        cases hfalse
      . dsimp only
        rw [hclosed]
        intro hfalse
        cases hfalse
    | waiting herr hret hwf' hopen' hle hcompl =>
      dsimp only at herr hret hwf' hopen' hle hcompl
      subst herr hret
      cases h
      have hevent : peer.nextEvent = none := by
        unfold nextEvent
        rw [if_neg hgo, hparse]
      refine ⟨⟨request.req.data, ?_, fun _ => rfl, fun _ => hcompl.waits⟩, fun _ => hwf', hle⟩
      rw [hevent]
      exact hcompl.steps
    | skip hret hargv hopen' hlt hsteps =>
      dsimp only at hret hargv hopen' hlt hsteps
      obtain rfl : err = none := parseRequestBuffer_ret hparse hret
      subst hret
      dsimp only at h
      have hempty' : request.argv.length = 0 := by rw [hargv, List.length_nil]
      rw [if_pos hempty'] at h
      cases h
      have hevent : peer.nextEvent = none := by
        unfold nextEvent
        rw [if_neg hgo, hparse]
        dsimp only
        rw [if_pos hempty']
      refine ⟨⟨request.req.data, ?_, fun _ => rfl, ?_⟩, fun _ => wf_reset request, Nat.le_of_lt hlt⟩
      . rw [hevent]
        exact hsteps
      . rw [hloops]
        intro hfalse
        cases hfalse
    | command hret hargv hopen' hlt hsteps =>
      dsimp only at hret hargv hopen' hlt hsteps
      obtain rfl : err = none := parseRequestBuffer_ret hparse hret
      subst hret
      dsimp only at h
      have hargv' : ¬request.argv.length = 0 := fun hzero => hargv (List.length_eq_zero_iff.mp hzero)
      rw [if_neg hargv'] at h
      obtain ⟨⟨session, ret⟩, hcommand, rfl⟩ := Option.map_eq_some_iff.mp h
      have hret := Session.processCommand_ret hcommand
      dsimp only at hret
      have hevent : peer.nextEvent = some (.command request.argv) := by
        unfold nextEvent
        rw [if_neg hgo, hparse]
        dsimp only
        rw [if_neg hargv']
      by_cases hquit : Request.isQuit request.argv = true
      . rw [hquit, Bool.not_true] at hret
        subst hret
        have hrequest : request.processCommand.1 = { request with closeAfterReply := true } := by
          unfold Request.processCommand
          rw [if_pos hquit]
        dsimp only
        rw [if_neg Bool.false_ne_true, hrequest]
        have hdispatch : RequestControl.dispatch request.control =
            { request with closeAfterReply := true }.control := by
          simp [RequestControl.dispatch, Request.control, hquit, RequestControl.close]
        rw [hdispatch] at hsteps
        refine ⟨⟨request.req.data, ?_, fun _ => rfl, fun _ => Request.next_closed rfl⟩, ?_, Nat.le_of_lt hlt⟩
        . rw [hevent]
          exact hsteps
        . intro hfalse
          cases hfalse
      . rw [Bool.not_eq_true] at hquit
        rw [hquit, Bool.not_false] at hret
        subst hret
        dsimp only
        rw [if_pos rfl]
        have hdispatch : RequestControl.dispatch request.control = request.resetArgumentVector.control := by
          simp [RequestControl.dispatch, Request.control, hquit, RequestControl.init, Request.resetArgumentVector, hopen']
        rw [hdispatch] at hsteps
        refine ⟨⟨request.req.data, ?_, fun _ => rfl, ?_⟩, fun _ => wf_reset request, Nat.le_of_lt hlt⟩
        . rw [hevent]
          exact hsteps
        . rw [hloops]
          intro hfalse
          cases hfalse

-- a closing client has nothing dispatched any more
theorem processRound_closing (h : peer.processRound env = some peer') (hclosing : peer.request.closeAfterReply = true)
    : peer' = peer ∧ peer.nextEvent = none ∧ peer.loops = false := by
  unfold processRound at h
  unfold nextEvent loops
  rw [if_pos (.inr hclosing)] at h
  rw [if_pos (.inr hclosing), if_pos (.inr hclosing)]
  cases h
  exact ⟨rfl, rfl, rfl⟩

end Client

namespace Endpoint

/--
The requests that the client was answered.
-/
def answered (p : Endpoint) : List RequestEvent :=
  p.outputs.filterMap fun
    | .answer _ _ e => some e
    | .publish _ _ => none

/--
The parser is where it is after the events that were answered. A client that is in `ProcessRequestBuffer` may have
more of them in its buffer, and so may one whose buffer is over the limit, which is not processed any more.
-/
structure Parsed (p : Endpoint) (busy : Prop) : Prop where
  steps : ∃ rest, requestMachine.Steps .init p.received p.answered p.request.control rest ∧
    (p.request.closeAfterReply = false → rest = p.request.req.data) ∧
    (¬busy → p.request.req.size ≤ maxQuerybufLen → requestMachine.next p.request.control rest = none)
  wf : p.request.closeAfterReply = false → p.request.Wf
  small : busy → p.request.req.size ≤ maxQuerybufLen

namespace Parsed

variable {p q : Endpoint} {busy busy' : Prop}

theorem init (fd : Int) (hbusy : ¬busy) : (Endpoint.init fd).Parsed busy where
  steps := ⟨[], .refl _ _, fun _ => rfl, fun _ _ => Request.next_nil _⟩
  wf _ := ⟨fun _ => ⟨rfl, rfl⟩, fun h => absurd rfl h⟩
  small h := absurd h hbusy

theorem of_eq (h : p.Parsed busy) (hrequest : q.request = p.request) (hreceived : q.received = p.received)
    (hanswered : q.answered = p.answered) (hbusy : busy' ↔ busy) : q.Parsed busy' where
  steps := by
    obtain ⟨rest, hsteps, hrest, hidle⟩ := h.steps
    refine ⟨rest, ?_, ?_, ?_⟩
    . rw [hrequest, hreceived, hanswered]
      exact hsteps
    . rw [hrequest]
      exact hrest
    . rw [hrequest]
      exact fun hnot => hidle fun hb => hnot (hbusy.mpr hb)
  wf := by
    rw [hrequest]
    exact h.wf
  small hb := by
    rw [hrequest]
    exact h.small (hbusy.mp hb)

theorem answered_isPrefix (h : p.Parsed busy) (hcompletes : requestMachine.Completes .init p.received evs r b)
    : p.answered <+: evs := by
  obtain ⟨rest, hsteps, -⟩ := h.steps
  obtain ⟨evs', rfl, -⟩ := hsteps.completes hcompletes
  exact List.prefix_append _ _

theorem completes_of_idle (h : p.Parsed busy) (hnot : ¬busy) (hsmall : p.request.req.size ≤ maxQuerybufLen)
    : ∃ q b, requestMachine.Completes .init p.received p.answered q b := by
  obtain ⟨rest, hsteps, -, hidle⟩ := h.steps
  exact ⟨_, _, hsteps, hidle hnot hsmall⟩

-- the bytes of a read go behind what is left; they are processed if the buffer is not over the limit
theorem read (h : p.Parsed busy) (hreq : p.request.req.append buf = some req)
    (hbusy : busy' ↔ req.size ≤ maxQuerybufLen)
    : Parsed { p with request := { p.request with req := req }, received := p.received ++ buf } busy' where
  steps := by
    obtain ⟨rest, hsteps, hrest, -⟩ := h.steps
    refine ⟨rest ++ buf, hsteps.append buf, ?_, ?_⟩
    . intro hopen
      rw [hrest hopen]
      exact (Buffer.data_append hreq).symm
    . intro hnot hsmall
      exact absurd (hbusy.mpr hsmall) hnot
  wf hopen := ⟨(h.wf hopen).idle, (h.wf hopen).busy⟩
  small hb := hbusy.mp hb

theorem processRound {peer' : Client} (h : p.Parsed True) (sub : Subscriber)
    (hround : Client.processRound env ⟨p.request, ⟨p.reply, sub⟩, false⟩ = some peer')
    (hrequest : q.request = peer'.request) (hreceived : q.received = p.received)
    (hanswered : q.answered =
      p.answered ++ (Client.nextEvent ⟨p.request, ⟨p.reply, sub⟩, false⟩).toList)
    (hbusy : busy ↔ Client.loops ⟨p.request, ⟨p.reply, sub⟩, false⟩ = true) : q.Parsed busy := by
  obtain ⟨rest, hsteps, hrest, -⟩ := h.steps
  by_cases hclosing : p.request.closeAfterReply = true
  . obtain ⟨rfl, hevent, hloops⟩ := Client.processRound_closing hround hclosing
    dsimp only at hrequest
    rw [hevent, Option.toList_none, List.append_nil] at hanswered
    have hnot : ¬busy := by
      rw [hbusy, hloops]
      exact Bool.false_ne_true
    refine ⟨⟨rest, ?_, ?_, ?_⟩, ?_, fun hb => absurd hb hnot⟩
    . rw [hrequest, hreceived, hanswered]
      exact hsteps
    . rw [hrequest]
      exact hrest
    . intro _ _
      rw [hrequest]
      exact Request.next_closed hclosing
    . rw [hrequest]
      exact h.wf
  . rw [Bool.not_eq_true] at hclosing
    have hsmall := h.small trivial
    obtain ⟨⟨rest', hsteps', hrest', hidle⟩, hwf, hle⟩ :=
      Client.processRound_reads hround hclosing (h.wf hclosing) hsmall
    dsimp only at hsteps' hle
    rw [hrest hclosing] at hsteps
    refine ⟨⟨rest', ?_, ?_, ?_⟩, ?_, ?_⟩
    . rw [hrequest, hreceived, hanswered]
      exact hsteps.trans hsteps'
    . rw [hrequest]
      exact hrest'
    . intro hnot _
      rw [hrequest]
      apply hidle
      rw [Bool.eq_false_iff]
      exact fun hloops => hnot (hbusy.mpr hloops)
    . rw [hrequest]
      exact hwf
    . intro _
      rw [hrequest]
      exact Nat.le_trans hle hsmall

end Parsed
end Endpoint
def Task.About (c : ClientId) (task : Task) : Prop :=
  task = .processing c ∨ task = .logging c

namespace Thread

variable {t t' : Thread}

theorem not_about_waiting (c : ClientId) : ¬Task.About c .waiting := by
  rintro (h | h) <;> cases h

theorem about_processing_iff (c d : ClientId) : Task.About c (.processing d) ↔ c = d := by
  unfold Task.About
  constructor
  . rintro (h | h)
    . cases h
      rfl
    . cases h
  . rintro rfl
    exact .inl rfl

theorem about_logging_iff (c d : ClientId) : Task.About c (.logging d) ↔ c = d := by
  unfold Task.About
  constructor
  . rintro (h | h)
    . cases h
    . cases h
      rfl
  . rintro rfl
    exact .inr rfl

def Parsed (t : Thread) : Prop :=
  ∀ c, (t.endpoint c).Parsed (t.task.About c)

theorem Parsed.of_waiting (h : t.Parsed) (hwaiting : t.task = .waiting) (c : ClientId)
    : (t.endpoint c).Parsed False :=
  (h c).of_eq rfl rfl rfl (by rw [hwaiting]; exact (iff_false_intro (not_about_waiting c)).symm)

theorem Parsed.getNewConnection (h : t.Parsed) (hwaiting : t.task = .waiting) (d : ClientId) (fd : Int)
    : (t.getNewConnection d fd).Parsed := by
  intro c
  have htask : ¬(t.getNewConnection d fd).task.About c := by
    unfold Thread.getNewConnection
    rw [task_setEndpoint, hwaiting]
    exact not_about_waiting c
  by_cases hc : c = d
  . subst hc
    unfold Thread.getNewConnection at htask ⊢
    rw [endpoint_setEndpoint_self]
    exact .init fd htask
  . refine (h.of_waiting hwaiting c).of_eq ?_ ?_ ?_ (iff_false_intro htask)
    all_goals
      unfold Thread.getNewConnection
      rw [endpoint_setEndpoint_of_ne _ _ hc]

theorem Parsed.freeClient (h : t.Parsed) (hfree : t.freeClient d = some t') : t'.Parsed := by
  obtain ⟨tables, -, rfl⟩ := freeClient_cases hfree
  exact h

theorem Parsed.readRequest (h : t.Parsed) (hwaiting : t.task = .waiting) (hread : t.readRequest d r = some t')
    : t'.Parsed := by
  obtain rfl | hfree | ⟨buf, req, -, -, hreq, hcases⟩ := readRequest_cases hread
  . exact h
  . exact h.freeClient hfree
  . have hset (task : Task) (htask : ∀ c, task.About c ↔ c = d ∧ req.size ≤ maxQuerybufLen)
        : Parsed { t.setEndpoint d { t.endpoint d with
            request := { (t.endpoint d).request with req := req }
            received := (t.endpoint d).received ++ buf } with task := task } := by
      intro c
      by_cases hc : c = d
      . subst hc
        dsimp only
        rw [endpoint_setEndpoint_self]
        exact (h.of_waiting hwaiting c).read hreq (by rw [htask c]; simp)
      . dsimp only
        rw [endpoint_setEndpoint_of_ne _ _ hc]
        refine (h.of_waiting hwaiting c).of_eq rfl rfl rfl ?_
        rw [htask c]
        exact iff_false_intro fun hb => hc hb.1
    obtain ⟨hbig, hfree⟩ | ⟨hsmall, rfl⟩ := hcases
    . refine Parsed.freeClient ?_ hfree
      have hparsed := hset t.task fun c => by
        rw [hwaiting]
        exact iff_of_false (not_about_waiting c) fun hb => absurd hb.2 (Nat.not_le_of_lt hbig)
      exact hparsed
    . apply hset
      intro c
      rw [about_processing_iff]
      exact (and_iff_left hsmall).symm

theorem answered_publish (p : Endpoint) (outputs : List Output) (h : ∀ o ∈ outputs, ∃ d m, o = .publish d m)
    (houtputs : q.outputs = p.outputs ++ outputs) : Endpoint.answered q = p.answered := by
  unfold Endpoint.answered
  rw [houtputs, List.filterMap_append]
  have hnil : outputs.filterMap (fun
      | .answer _ _ e => some e
      | .publish _ _ => none) = [] := by
    rw [List.filterMap_eq_nil_iff]
    intro o ho
    obtain ⟨d, m, rfl⟩ := h o ho
    rfl
  rw [hnil, List.append_nil]

theorem Parsed.deliver (h : t.Parsed) (hdeliver : t.deliver env m d = some t') : t'.Parsed := by
  intro c
  obtain ⟨sub, session, -, -, -, htask, -, -, hendpoint⟩ := deliver_cases hdeliver
  rw [htask, hendpoint]
  by_cases hc : c = d.client
  . subst hc
    rw [Function.update_self]
    refine (h d.client).of_eq rfl rfl ?_ Iff.rfl
    exact answered_publish _ [.publish d m] (fun o ho => ⟨d, m, List.mem_singleton.mp ho⟩) rfl
  . rw [Function.update_of_ne hc]
    exact h c

theorem Parsed.publishMessage (h : t.Parsed) (hpublish : t.publishMessage stringMatch env m = some t') : t'.Parsed := by
  obtain ⟨tables, deliveries, -, hdeliver⟩ := publishMessage_cases hpublish
  exact deliverAll_invariant Parsed hdeliver h fun t d t' ht _ hstep => ht.deliver hstep

theorem Parsed.sendReply (h : t.Parsed) (hsend : t.sendReply d rs = some t') : t'.Parsed := by
  obtain ⟨sent, -, hcases⟩ := sendReply_cases hsend
  have hset : (t.setEndpoint d { t.endpoint d with
      reply := sent.client, written := (t.endpoint d).written ++ sent.bytes }).Parsed := by
    intro c
    by_cases hc : c = d
    . subst hc
      rw [endpoint_setEndpoint_self, task_setEndpoint]
      exact (h c).of_eq rfl rfl rfl Iff.rfl
    . rw [endpoint_setEndpoint_of_ne _ _ hc, task_setEndpoint]
      exact h c
  obtain ⟨-, hfree⟩ | ⟨-, rfl⟩ := hcases
  . exact hset.freeClient hfree
  . exact hset

theorem Parsed.processRound (h : t.Parsed) (htask : t.task.About d) (hround : t.processRound env d = some t')
    : t'.Parsed := by
  obtain ⟨peer, peer', hpeer, hround, htask', -, -, hcases⟩ := processRound_cases hround
  obtain ⟨sub, -, rfl⟩ := client_eq_some hpeer
  have hothers : ∀ c, c ≠ d → ¬t.task.About c ∧ ¬t'.task.About c := by
    intro c hc
    constructor
    . obtain htask | htask := htask
      . rw [htask, about_processing_iff]
        exact hc
      . rw [htask, about_logging_iff]
        exact hc
    . rw [htask']
      split
      . rw [about_processing_iff]
        exact hc
      . exact not_about_waiting c
  have hself : t'.task.About d ↔ Client.loops ⟨(t.endpoint d).request, ⟨(t.endpoint d).reply, sub⟩, false⟩ = true := by
    rw [htask']
    split
    . next hloops => exact iff_of_true (.inl rfl) hloops
    . next hloops => exact iff_of_false (not_about_waiting d) hloops
  have hd : (t.endpoint d).Parsed True := (h d).of_eq rfl rfl rfl (iff_true_intro htask).symm
  intro c
  by_cases hc : c = d
  . subst hc
    obtain ⟨hnone, -, hendpoint⟩ | ⟨e, tables, hevent, -, -, hendpoint⟩ := hcases
    . refine hd.processRound sub hround ?_ ?_ ?_ hself
      . rw [hendpoint, Function.update_self]
      . rw [hendpoint, Function.update_self]
      . rw [hendpoint, Function.update_self, hnone, Option.toList_none, List.append_nil]
        rfl
    . refine hd.processRound sub hround ?_ ?_ ?_ hself
      . rw [hendpoint, Function.update_self]
      . rw [hendpoint, Function.update_self]
      . rw [hendpoint, Function.update_self, hevent]
        unfold Endpoint.answered
        rw [List.filterMap_append]
        rfl
  . have hsame : t'.endpoint c = t.endpoint c := by
      obtain ⟨-, -, hendpoint⟩ | ⟨e, tables, -, -, -, hendpoint⟩ := hcases
      . rw [hendpoint, Function.update_of_ne hc]
      . rw [hendpoint, Function.update_of_ne hc]
    rw [hsame]
    exact (h c).of_eq rfl rfl rfl (iff_of_false (hothers c hc).2 (hothers c hc).1)

end Thread
namespace Server

variable {W : Nat} {s s' : Server W}

theorem parsed_step (h : ∀ w, (s.thread w).Parsed) (hstep : Step queueLimit stringMatch s l s') (v : Fin W)
    : (s'.thread v).Parsed := by
  have hset {notify : Notify W} {w : Fin W} {t : Thread} (ht : t.Parsed)
      : (({ s with notify := notify }.setThread w t).thread v).Parsed := by
    by_cases hv : v = w
    . subst hv
      rwa [thread_setThread_self]
    . rw [thread_setThread_of_ne _ _ hv]
      exact h v
  cases hstep.transition with
  | getNewConnection w d fd hw hfresh => exact hset ((h w).getNewConnection hw.1 d fd)
  | readRequest w d r t hw hlive ht => exact hset ((h w).readRequest hw.1 ht)
  | round w env d t htask hlogged ht => exact hset ((h w).processRound (.inl htask) ht)
  | refused w env d m t htask hlogged hsender hfull ht =>
    have hin : ((s.thread w).countIn m).Parsed := h w
    exact hset (hin.processRound (.inl htask) ht)
  | accepted w env d m htask hlogged hsender hroom =>
    apply hset
    intro c
    refine (h w c).of_eq rfl rfl rfl ?_
    rw [htask, Thread.about_processing_iff]
    exact Thread.about_logging_iff c d
  | returned w env d t htask hsender ht => exact hset ((h w).processRound (.inr htask) ht)
  | push => exact h v
  | sendReply w d rs t hw hlive hwritable ht => exact hset ((h w).sendReply ht)
  | cron w t hw hsender ht =>
    apply hset
    obtain ⟨tables, -, rfl⟩ := Option.map_eq_some_iff.mp ht
    exact h w
  | publish w env q m notify t hnext hn ht => exact hset ((h w).publishMessage ht)
  | wrongNotice => exact h v
  | quiet => exact h v

theorem parsed_of_reaches (h : Run.Reaches (Step queueLimit stringMatch) (init a : Server W) ls s) (w : Fin W)
    : (s.thread w).Parsed :=
  h.invariant (fun s : Server W => ∀ w, (s.thread w).Parsed)
    (fun _ c => .init 0 (Thread.not_about_waiting c)) (fun _ _ _ => parsed_step) w

/--
A client is answered what its byte stream reads as, one event after the other. When the worker is not in its
`ProcessRequestBuffer`, and its buffer is not over the limit, it is answered everything that it has asked for.
-/
theorem requests_answered (h : Run.Reaches (Step queueLimit stringMatch) (init a : Server W) ls s) (w : Fin W)
    (c : ClientId)
    : (∀ evs q b, requestMachine.Completes .init ((s.thread w).endpoint c).received evs q b →
        ((s.thread w).endpoint c).answered <+: evs) ∧
      (¬(s.thread w).task.About c → ((s.thread w).endpoint c).request.req.size ≤ maxQuerybufLen →
        (∃ q b, requestMachine.Completes .init ((s.thread w).endpoint c).received
          ((s.thread w).endpoint c).answered q b) ∧
        (((s.thread w).endpoint c).received.length ≤ maxQuerybufLen →
          ∃ request, Request.init.feed ((s.thread w).endpoint c).received =
            some (request, ((s.thread w).endpoint c).answered))) := by
  have hparsed := parsed_of_reaches h w c
  refine ⟨fun evs q b => hparsed.answered_isPrefix, ?_⟩
  intro hnot hsmall
  obtain ⟨q, b, hcompletes⟩ := hparsed.completes_of_idle hnot hsmall
  refine ⟨⟨q, b, hcompletes⟩, ?_⟩
  intro hlen
  obtain ⟨request, evs, b, hfeed, -, -, hfed⟩ := Request.feed_spec .init [] ((s.thread w).endpoint c).received
    Request.waits_init (by
      simp only [maxQuerybufLen] at hlen
      simp only [Request.init, Buffer.size, Buffer.data_empty, List.length_nil, uint32Size]
      omega)
  obtain ⟨rfl, -, -⟩ := hcompletes.unique hfed
  exact ⟨request, hfeed⟩

/--
The requests of `subscribing` and `publishing` in three reads, two of which end inside a request.
-/
def readInParts (thread : Fin 1) : List (Label 1) := [
  .getNewConnection thread 1 5,
  .readRequest thread 1 (.data (ofString "*2\r\n$9\r\nsubsc")),
  .processRound thread ⟨fun _ => ⟨0, 0, 0⟩, 0, true, [], .insertion⟩,
  .readRequest thread 1 (.data (ofString "ribe\r\n$1\r\na\r\n*3\r\n$7\r\npub")),
  .processRound thread ⟨fun _ => ⟨0, 0, 0⟩, 0, true, [], .insertion⟩,
  .processRound thread ⟨fun _ => ⟨0, 0, 0⟩, 0, true, [], .insertion⟩,
  .readRequest thread 1 (.data (ofString "lish\r\n$1\r\na\r\n$1\r\nb\r\n"))
] ++ publishing.tail

theorem requests_answered_published
    : ∃ s : Server 1, Run.Reaches (Step 10 fun _ _ => true) (init 0) (readInParts 0) s ∧
        ∃ request, Request.init.feed ((s.thread 0).endpoint 1).received =
          some (request, ((s.thread 0).endpoint 1).answered) ∧ ((s.thread 0).endpoint 1).answered.length = 2 := by
  obtain ⟨s, hs, htask, hsize, hlen, hanswered⟩ := Run.Reaches.exists_of_any (legalStep 10 fun _ _ => true) (init 0)
    (readInParts 0) (fun s => (s.thread 0).task = .waiting ∧
      ((s.thread 0).endpoint 1).request.req.size ≤ maxQuerybufLen ∧
      ((s.thread 0).endpoint 1).received.length ≤ maxQuerybufLen ∧ ((s.thread 0).endpoint 1).answered.length = 2)
    (fun _ _ _ => step_of_legalStep) (by decide +kernel)
  have hnot : ¬(s.thread 0).task.About 1 := by
    rw [htask]
    exact Thread.not_about_waiting 1
  obtain ⟨request, hfeed⟩ := ((requests_answered hs 0 1).2 hnot hsize).2 hlen
  exact ⟨s, hs, request, hfeed, hanswered⟩

end Server
end Kids
