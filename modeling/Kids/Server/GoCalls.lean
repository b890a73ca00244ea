import Kids.GoClient.Pairing
import Kids.GoClient.Request
import Kids.Server.Accounting
import Kids.Server.Provenance
import Kids.Server.Stream

/-!
A Go client of the server. What it reads from the server are the replies to its calls, one for each and in the order
of the calls, and the messages between them.
-/

namespace Kids

open Bytes

namespace Delivery

def pushed (m : Message) : Delivery → GoClient.Pushed
  | message _ => .message m.topic.data m.content.data
  | patternMessage _ pattern => .pmessage m.topic.data m.content.data pattern

theorem encoding_pushed (m : Message) (d : Delivery) : (d.pushed m).encoding = (d.call m).encoding := by
  cases d <;> rfl

end Delivery

namespace Output

-- what a message is on the `Logs` channel
def log : Output → Option GoClient.Log
  | answer _ _ _ => none
  | publish d m => some (d.pushed m).log

/--
The frame is what the client is told, as the client's calls see it.
-/
def Sends : Output → GoClient.Frame → Prop
  | answer env sub e, .reply call a => e = .command call.argv ∧ a = call.answer env sub
  | publish d m, .push p => p = d.pushed m
  | _, _ => False

end Output

namespace GoClient

-- the message of a call of `Log` that returns no error
def Frame.logged : Frame → Option (Bytes × Bytes)
  | .reply (.log topic data) a =>
    if (Call.log topic data).returns a.fields = .done then some (topic, data) else none
  | _ => none

def entry (m : Message) : Bytes × Bytes :=
  (m.topic.data, m.content.data)

end GoClient

namespace Output

variable {o : Output} {f : GoClient.Frame}

theorem Sends.encoding_eq (h : o.Sends f) : o.encoding = f.encoding := by
  cases o with
  | answer env sub e => cases f with
    | reply call a =>
      obtain ⟨rfl, rfl⟩ := h
      exact call.replies_argv env sub
    | push p => cases h
  | publish d m => cases f with
    | reply call a => cases h
    | push p =>
      obtain rfl : p = d.pushed m := h
      exact (d.encoding_pushed m).symm

theorem Sends.log_eq (h : o.Sends f) : o.log = f.log := by
  cases o with
  | answer env sub e => cases f with
    | reply call a => rfl
    | push p => cases h
  | publish d m => cases f with
    | reply call a => cases h
    | push p =>
      obtain rfl : p = d.pushed m := h
      rfl

theorem Sends.logged_eq (h : o.Sends f) (hfits : ∀ call, f.call = some call → call.Fits)
    : o.acknowledged.map GoClient.entry = f.logged := by
  cases o with
  | answer env sub e => cases f with
    | reply call a =>
      obtain ⟨rfl, rfl⟩ := h
      cases call with
      | log topic data =>
        have htopic := hfits _ rfl topic (List.mem_cons_of_mem _ List.mem_cons_self)
        have hdata := hfits _ rfl data (List.mem_cons_of_mem _ (List.mem_cons_of_mem _ List.mem_cons_self))
        have hlen : topic.length < 2 ^ 31 ∧ data.length < 2 ^ 31 := by
          simp only [maxBulkLen] at htopic hdata
          omega
        have hname : Command.ofName (ofString "LOG") = .log := by decide
        unfold acknowledged RequestEvent.logged GoClient.Frame.logged GoClient.Call.answer GoClient.Call.argv
        dsimp only
        rw [if_pos hname, dif_pos hlen]
        cases env.putMessage with
        | true => rfl
        | false => rfl
      | _ =>
        unfold acknowledged RequestEvent.logged GoClient.Frame.logged GoClient.Call.argv
        dsimp only
        rw [ite_self]
        rfl
    | push p => cases h
  | publish d m => cases f with
    | reply call a => cases h
    | push p => rfl

end Output

theorem exists_frames {outputs : List Output} {calls : List GoClient.Call}
    (h : outputs.filterMap (fun | .answer _ _ e => some e | .publish _ _ => none) <+:
      calls.map fun call => .command call.argv)
    : ∃ frames, List.Forall₂ Output.Sends outputs frames ∧ frames.filterMap GoClient.Frame.call <+: calls ∧
        (outputs.filterMap (fun | .answer _ _ e => some e | .publish _ _ => none) =
          calls.map (fun call => .command call.argv) → frames.filterMap GoClient.Frame.call = calls) := by
  induction outputs generalizing calls with
  | nil =>
    refine ⟨[], .nil, List.nil_prefix, ?_⟩
    intro heq
    exact (List.map_eq_nil_iff.mp heq.symm).symm
  | cons o outputs ih =>
    cases o with
    | publish d m =>
      obtain ⟨frames, hsends, hcalls, hall⟩ := ih h
      exact ⟨.push (d.pushed m) :: frames, .cons rfl hsends, hcalls, hall⟩
    | answer env sub e =>
      cases calls with
      | nil => exact absurd (List.prefix_nil.mp h) (List.cons_ne_nil _ _)
      | cons call calls =>
        obtain ⟨rfl, hrest⟩ := List.cons_prefix_cons.mp h
        obtain ⟨frames, hsends, hcalls, hall⟩ := ih hrest
        refine ⟨.reply call (call.answer env sub) :: frames, .cons ⟨rfl, rfl⟩ hsends,
          List.cons_prefix_cons.mpr ⟨rfl, hcalls⟩, ?_⟩
        intro heq
        exact congrArg (call :: .) (hall (List.cons.inj heq).2)

theorem filterMap_eq_of_forall₂ {R : α → β → Prop} {f : α → Option γ} {g : β → Option γ} (h : List.Forall₂ R as bs)
    (heq : ∀ a b, R a b → b ∈ bs → f a = g b) : as.filterMap f = bs.filterMap g := by
  induction h with
  | nil => rfl
  | cons hab _ ih =>
    rw [List.filterMap_cons, List.filterMap_cons, heq _ _ hab List.mem_cons_self,
      ih fun a b hr hb => heq a b hr (List.mem_cons_of_mem _ hb)]

namespace Server

variable {W : Nat} {s : Server W} {p : Endpoint} {calls : List GoClient.Call} {frames : List GoClient.Frame}

-- the pattern of a message is one that the client has named
theorem fits_pushed (hfits : ∀ call ∈ calls, call.Fits)
    (htold : ∀ os o, os ++ [o] <+: p.outputs → o.Explained stringMatch c (subscriptionsOf os))
    (hanswered : p.answered <+: calls.map fun call => .command call.argv) (hmem : .publish d m ∈ p.outputs)
    : (d.pushed m).Fits := by
  have hdata (data : Sds) : data.data.length < uint32Size := by
    have := data.len_lt
    simp only [uint32Size]
    omega
  cases d with
  | message c =>
    refine List.forall_mem_cons.mpr ⟨hdata _, ?_⟩
    exact List.forall_mem_singleton.mpr (hdata _)
  | patternMessage c' pattern =>
    refine List.forall_mem_cons.mpr ⟨?_, List.forall_mem_cons.mpr ⟨hdata _, List.forall_mem_singleton.mpr (hdata _)⟩⟩
    obtain ⟨os, rest, houtputs⟩ := List.append_of_mem hmem
    obtain ⟨-, hpattern, -⟩ := htold os (.publish (.patternMessage c' pattern) m) ⟨rest, by rw [houtputs]; simp⟩
    obtain ⟨env, sub, argv, hanswer, hargv⟩ := mem_subscriptionsOf (k := .pattern) hpattern
    have hcommand : RequestEvent.command argv ∈ p.answered := by
      unfold Endpoint.answered
      rw [List.mem_filterMap]
      refine ⟨.answer env sub (.command argv), ?_, rfl⟩
      rw [houtputs]
      exact List.mem_append_left _ hanswer
    obtain ⟨call, hcall, heq⟩ := List.mem_map.mp (hanswered.mem hcommand)
    cases heq
    have hlen := hfits call hcall pattern hargv
    simp only [maxBulkLen] at hlen
    simp only [uint32Size]
    omega

theorem fits_frames (hsends : List.Forall₂ Output.Sends p.outputs frames) (hfits : ∀ call ∈ calls, call.Fits)
    (htold : ∀ os o, os ++ [o] <+: p.outputs → o.Explained stringMatch c (subscriptionsOf os))
    (hanswered : p.answered <+: calls.map fun call => .command call.argv)
    (hcalls : frames.filterMap GoClient.Frame.call <+: calls) : ∀ f ∈ frames, f.Fits := by
  intro f hf
  obtain ⟨i, hi, rfl⟩ := List.getElem_of_mem hf
  have hlen := hsends.length_eq
  have hsend := hsends.get (by omega) hi
  have hmem := List.getElem_mem (l := p.outputs) (n := i) (by omega)
  simp only [List.get_eq_getElem] at hsend
  generalize frames[i] = f at hf hsend
  generalize p.outputs[i] = o at hsend hmem
  cases f with
  | reply call a => cases o with
    | answer env sub e =>
      obtain ⟨rfl, rfl⟩ := hsend
      apply GoClient.Call.fits_answer
      apply hfits
      exact hcalls.mem (List.mem_filterMap.mpr ⟨_, hf, rfl⟩)
    | publish d m => cases hsend
  | push pushed => cases o with
    | answer env sub e => cases hsend
    | publish d m =>
      obtain rfl : pushed = d.pushed m := hsend
      exact fits_pushed hfits htold hanswered hmem

/--
A Go client whose calls the server reads, and which is open whenever it is told something, is sent frames: one reply
to each call, in order and for all of them once they have been read, and the messages that it was told. The calls of
`Log` that return no error are those of acknowledged messages, which are published by every worker for which no notice
is left. From the bytes that have been written, `recvResponse` takes the frames one by one.
-/
theorem go_client_served (h : Run.Reaches (Opened queueLimit stringMatch w c) (init a : Server W) ls s)
    (hfits : ∀ call ∈ calls, call.Fits)
    (hreceived : ((s.thread w).endpoint c).received <+: (calls.map GoClient.Call.request).flatten)
    : ∃ frames : List GoClient.Frame,
        frames.filterMap GoClient.Frame.call <+: calls ∧
        (¬(s.thread w).task.About c → ((s.thread w).endpoint c).request.req.size ≤ maxQuerybufLen →
          ((s.thread w).endpoint c).received = (calls.map GoClient.Call.request).flatten →
          frames.filterMap GoClient.Frame.call = calls) ∧
        frames.filterMap GoClient.Frame.log = ((s.thread w).endpoint c).outputs.filterMap Output.log ∧
        frames.filterMap GoClient.Frame.logged = ((s.thread w).endpoint c).acknowledged.map GoClient.entry ∧
        (∀ v, s.Settled v → (frames.filterMap GoClient.Frame.logged).Sublist
          ((s.thread v).published.map fun p => GoClient.entry p.1)) ∧
        ((s.thread w).endpoint c).written ++ ((s.thread w).endpoint c).reply.out.unsent =
          (frames.map GoClient.Frame.encoding).flatten ∧
        ∀ k ≤ frames.length, ((frames.take k).map GoClient.Frame.encoding).flatten <+:
            ((s.thread w).endpoint c).written →
          ∃ resps, GoClient.recvResponses k ((s.thread w).endpoint c).written = .ok resps ∧
            resps.map Prod.fst = (frames.take k).map GoClient.Frame.fields := by
  have hsteps := h.mono fun _ _ _ hstep => hstep.1
  have hstream := (streamed_of_reaches h).stream
  have hparsed := parsed_of_reaches hsteps w c
  have htold := (explained_of_reaches hsteps w c).told
  have hacknowledged := (Acknowledges.of_reaches hsteps w).acknowledged c
  have hinv := Inv.of_reaches hsteps
  generalize (s.thread w).endpoint c = p at hstream hparsed htold hacknowledged hreceived ⊢
  obtain ⟨evs, q, b, hcompletes, hevs, hall⟩ := GoClient.Call.completes_requests hfits hreceived
  have hanswered := (hparsed.answered_isPrefix hcompletes).trans hevs
  obtain ⟨frames, hsends, hcalls, hwhole⟩ := exists_frames hanswered
  have hfit := fits_frames hsends hfits htold hanswered hcalls
  have hlogged : frames.filterMap GoClient.Frame.logged = p.acknowledged.map GoClient.entry := by
    unfold Endpoint.acknowledged
    rw [List.map_filterMap]
    symm
    apply filterMap_eq_of_forall₂ hsends
    intro o f hsend hf
    apply hsend.logged_eq
    intro call hcall
    exact hfits call (hcalls.mem (List.mem_filterMap.mpr ⟨f, hf, hcall⟩))
  have hencoding : p.outputs.map Output.encoding = frames.map GoClient.Frame.encoding := by
    rw [← List.filterMap_eq_map, ← List.filterMap_eq_map]
    apply filterMap_eq_of_forall₂ hsends
    intro o f hsend _
    exact congrArg some hsend.encoding_eq
  refine ⟨frames, hcalls, ?_, ?_, hlogged, ?_, ?_, ?_⟩
  . intro hnot hsmall hread
    obtain ⟨q', b', hcompletes'⟩ := hparsed.completes_of_idle hnot hsmall
    exact hwhole ((hcompletes'.unique hcompletes).1.trans (hall hread))
  . symm
    apply filterMap_eq_of_forall₂ hsends
    exact fun _ _ hsend _ => hsend.log_eq
  . intro v hv
    have hpublished : p.acknowledged.Sublist ((s.thread v).published.map Prod.fst) := by
      rw [hinv.published_of_settled hv]
      exact hacknowledged.trans (s.pushedBy_sublist w)
    have hentries := hpublished.map GoClient.entry
    rw [List.map_map] at hentries
    rw [hlogged]
    exact hentries
  . rw [hstream, ← hencoding]
    rfl
  . intro k hk hprefix
    obtain ⟨rest, hrest⟩ := hprefix
    obtain ⟨resps, hresps, hfields⟩ := GoClient.recvResponses_frames rest fun f hf => hfit f (List.mem_of_mem_take hf)
    rw [List.length_take, Nat.min_eq_left hk, hrest] at hresps
    exact ⟨resps, hresps, hfields⟩

/--
A Go client that subscribes to a topic, logs a message to it and reads both replies and the message.
-/
def calling (thread : Fin 1) : List (Label 1) := [
  .getNewConnection thread 1 5,
  .readRequest thread 1 (.data (GoClient.Call.subscribe [97]).request),
  .processRound thread ⟨fun _ => ⟨0, 0, 0⟩, 0, true, [], .insertion⟩,
  .processRound thread ⟨fun _ => ⟨0, 0, 0⟩, 0, true, [], .insertion⟩,
  .sendReply thread 1 [.wrote 100],
  .readRequest thread 1 (.data (GoClient.Call.log [97] [98]).request)
] ++ publishing.tail ++ [.sendReply thread 1 [.wrote 100]]

theorem go_client_served_calling
    : ∃ (s : Server 1) (frames : List GoClient.Frame),
        Run.Reaches (Opened 10 (fun _ _ => true) 0 1) (init 0) (calling 0) s ∧
        frames.filterMap GoClient.Frame.call = [.subscribe [97], .log [97] [98]] ∧
        frames.filterMap GoClient.Frame.log = [⟨[], [97], [98]⟩] ∧
        ∃ resps, GoClient.recvResponses frames.length ((s.thread 0).endpoint 1).written = .ok resps ∧
          resps.map Prod.fst = frames.map GoClient.Frame.fields := by
  obtain ⟨s, hreach, hreceived, htask, hsize, hlog, hunsent⟩ := Run.Reaches.exists_of_any
    (openedStep 10 (fun _ _ => true) 0 1) (init 0) (calling 0) (fun s => ((s.thread 0).endpoint 1).received =
        ([.subscribe [97], .log [97] [98]].map GoClient.Call.request).flatten ∧ (s.thread 0).task = .waiting ∧
      ((s.thread 0).endpoint 1).request.req.size ≤ maxQuerybufLen ∧
      ((s.thread 0).endpoint 1).outputs.filterMap Output.log = [⟨[], [97], [98]⟩] ∧
      ((s.thread 0).endpoint 1).reply.out.unsent = [])
    (fun _ _ _ => opened_of_openedStep) (by decide +kernel)
  have hfits : ∀ call ∈ [GoClient.Call.subscribe [97], .log [97] [98]], call.Fits := by
    refine List.forall_mem_cons.mpr ⟨?_, List.forall_mem_singleton.mpr ?_⟩
    . unfold GoClient.Call.Fits
      decide
    . unfold GoClient.Call.Fits
      decide
  have hnot : ¬(s.thread 0).task.About 1 := by
    rw [htask]
    exact Thread.not_about_waiting 1
  obtain ⟨frames, -, hcalls, hlogs, -, -, hstream, hread⟩ := go_client_served hreach hfits (hreceived ▸ List.prefix_rfl)
  rw [hunsent, List.append_nil] at hstream
  have hall := hread frames.length (Nat.le_refl _) (by rw [List.take_length, hstream])
  rw [List.take_length] at hall
  exact ⟨s, frames, hreach, hcalls hnot hsize hreceived, hlogs.trans hlog, hall⟩

end Server
end Kids
