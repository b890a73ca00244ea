import Kids.Server.Accounting
import Kids.Server.Provenance
import Kids.Server.Stream
import Kids.Store.Forwarding
import Kids.Store.NetworkStore
import Kids.Store.ReplyLines

/-!
The answers to a client that only logs, and what a network store takes them for.
-/

namespace Kids

open Bytes

namespace Output

/--
The answer to the `LOG` of a message.
-/
def AnswersLog (o : Output) (m : Message) : Prop :=
  ∃ env sub, o = .answer env sub (.command (logCommand m))

-- the message of a `log` that was answered with an error
def refused : Output → Option Message
  | .answer env _ e => if env.putMessage then none else e.logged
  | .publish _ _ => none

-- the answer to a `log`, as a line
def logLine : Output → Bytes
  | .answer env _ _ => if env.putMessage then ofString ":1" else ofString "-ERR Some thing bad happens!"
  | .publish _ _ => []

end Output

theorem logged_logCommand (m : Message) : RequestEvent.logged (.command (logCommand m)) = some m := by
  have hlog : Command.ofName (ofString "LOG") = .log := by decide
  unfold RequestEvent.logged logCommand
  dsimp only
  rw [if_pos hlog, dif_pos ⟨m.topic.len_lt, m.content.len_lt⟩]

theorem subscribed_logCommand (sub : Subscriber) (m : Message)
    : RequestEvent.subscribed sub (.command (logCommand m)) = sub := by
  have hlog : Command.ofName (ofString "LOG") = .log := by decide
  unfold RequestEvent.subscribed SubscriptionCall.ofArgv logCommand
  dsimp only [List.headD_cons]
  rw [hlog]
  rfl

namespace Output.AnswersLog

variable {o : Output} {m : Message}

theorem encoding_eq (h : o.AnswersLog m) : o.encoding = o.logLine ++ crlf := by
  obtain ⟨env, sub, rfl⟩ := h
  have hlog : Command.ofName (ofString "LOG") = .log := by decide
  have hreplies : Session.replies env sub (.command (logCommand m)) =
      if env.putMessage then [Reply.repCone] else [Session.errorReply (ofString "Some thing bad happens!")] := by
    unfold Session.replies Session.commandReplies logCommand
    dsimp only [List.headD_cons]
    rw [hlog]
    rfl
  unfold encoding logLine
  dsimp only
  rw [hreplies]
  split
  . rfl
  . unfold Session.errorReply
    rw [cstr_eq_self _ (by decide)]
    rfl

theorem replyText (h : o.AnswersLog m) : ReplyText o.logLine := by
  obtain ⟨env, sub, rfl⟩ := h
  unfold logLine
  dsimp only
  split
  . exact ⟨by decide, by decide, by decide, by decide⟩
  . exact ⟨by decide, by decide, by decide, by decide⟩

theorem processResult (h : o.AnswersLog m) {s : NetworkStore} (hout : s.outstanding = m :: rest)
    (hthere : (frames (s.answered ++ [m])).length ≤ s.wire.length)
    : s.processResult o.logLine = { s with
        state := .free
        answered := s.answered ++ [m]
        outstanding := rest
        acked := s.acked ++ o.acknowledged.toList
        rejected := s.rejected ++ o.refused.toList } := by
  obtain ⟨env, sub, rfl⟩ := h
  unfold NetworkStore.processResult NetworkStore.onMsgSent acknowledged refused
  dsimp only
  rw [hout, logged_logCommand]
  dsimp only
  rw [if_neg (Nat.not_lt.mpr hthere)]
  by_cases hput : env.putMessage = true
  . have hline : ¬ofString "-ERR" <+: (answer env sub (.command (logCommand m))).logLine := by
      unfold logLine
      dsimp only
      rw [if_pos hput]
      decide
    rw [if_neg hline, if_pos hput, if_pos hput, Option.toList_none, List.append_nil]
    rfl
  . have hline : ofString "-ERR" <+: (answer env sub (.command (logCommand m))).logLine := by
      unfold logLine
      dsimp only
      rw [if_neg hput]
      decide
    rw [if_pos hline, if_neg hput, if_neg hput, Option.toList_none, List.append_nil]
    rfl

theorem processResults {os : List Output} {ms : List Message} (h : List.Forall₂ AnswersLog os ms) {s : NetworkStore}
    (hout : s.outstanding = ms ++ rest) (hthere : (frames (s.answered ++ ms)).length ≤ s.wire.length)
    : ∃ state, (os.map Output.logLine).foldl NetworkStore.processResult s = { s with
        state := state
        answered := s.answered ++ ms
        outstanding := rest
        acked := s.acked ++ os.filterMap acknowledged
        rejected := s.rejected ++ os.filterMap refused } := by
  induction h generalizing s with
  | nil =>
    refine ⟨s.state, ?_⟩
    obtain rfl : s.outstanding = rest := hout
    rw [List.filterMap_nil, List.filterMap_nil, List.append_nil, List.append_nil, List.append_nil]
    rfl
  | @cons o m os ms ho _ ih =>
    rw [← List.singleton_append, ← List.append_assoc] at hthere
    have hfirst : (frames (s.answered ++ [m])).length ≤ s.wire.length := by
      apply Nat.le_trans _ hthere
      rw [frames_append (s.answered ++ [m]), List.length_append]
      exact Nat.le_add_right _ _
    have hstep := ho.processResult hout hfirst
    obtain ⟨state, hrest⟩ := ih (s := s.processResult o.logLine) (by rw [hstep]; rfl) (by rw [hstep]; exact hthere)
    refine ⟨state, ?_⟩
    rw [List.map_cons, List.foldl_cons, hrest, hstep]
    cases hack : o.acknowledged <;> cases href : o.refused <;> simp [hack, href]

end Output.AnswersLog

theorem exists_answersLog {os : List Output} {ms : List Message} (h : List.Forall₂ Output.AnswersLog os ms)
    : ∀ o ∈ os, ∃ m, o.AnswersLog m := by
  induction h with
  | nil => exact fun _ h => absurd h List.not_mem_nil
  | cons ho _ ih => exact List.forall_mem_cons.mpr ⟨⟨_, ho⟩, ih⟩

-- the answers to logs are lines
theorem encodings_eq_lines {os : List Output} (h : ∀ o ∈ os, ∃ m, o.AnswersLog m)
    : (os.map Output.encoding).flatten = ((os.map Output.logLine).map (. ++ crlf)).flatten := by
  rw [List.map_map]
  congr 1
  apply List.map_congr_left
  intro o ho
  obtain ⟨m, hm⟩ := h o ho
  exact hm.encoding_eq

theorem replyText_of_mem {os : List Output} (h : ∀ o ∈ os, ∃ m, o.AnswersLog m)
    : ∀ text ∈ os.map Output.logLine, ReplyText text := by
  intro text htext
  obtain ⟨o, ho, rfl⟩ := List.mem_map.mp htext
  obtain ⟨m, hm⟩ := h o ho
  exact hm.replyText

-- a client that has only logged is subscribed to nothing
theorem subscriptionsOf_logs {os : List Output} {ms : List Message} (h : List.Forall₂ Output.AnswersLog os ms)
    : subscriptionsOf os = ⟨[], []⟩ := by
  unfold subscriptionsOf
  induction h with
  | nil => rfl
  | @cons o m os ms ho _ ih =>
    obtain ⟨env, sub, rfl⟩ := ho
    have hstep : Output.subscribed ⟨[], []⟩ (.answer env sub (.command (logCommand m))) = ⟨[], []⟩ :=
      subscribed_logCommand _ m
    rw [List.foldl_cons, hstep]
    exact ih

theorem events_of_logs {os : List Output} {ms : List Message} (h : List.Forall₂ Output.AnswersLog os ms)
    : os.filterMap (fun | .answer _ _ e => some e | .publish _ _ => none) =
        ms.map fun m => RequestEvent.command (logCommand m) := by
  induction h with
  | nil => rfl
  | @cons o m os ms ho _ ih =>
    obtain ⟨env, sub, rfl⟩ := ho
    rw [List.filterMap_cons, List.map_cons]
    exact congrArg (RequestEvent.command (logCommand m) :: .) ih

theorem forall₂_answersLog {outputs : List Output} {ms : List Message}
    (htold : ∀ os o, os ++ [o] <+: outputs → o.Explained stringMatch c (subscriptionsOf os))
    (hanswered : outputs.filterMap (fun | .answer _ _ e => some e | .publish _ _ => none) <+:
      ms.map fun m => .command (logCommand m))
    : List.Forall₂ Output.AnswersLog outputs (ms.take outputs.length) ∧ outputs.length ≤ ms.length := by
  induction outputs using List.reverseRecOn with
  | nil => exact ⟨.nil, Nat.zero_le _⟩
  | append_singleton os o ih =>
    rw [List.filterMap_append] at hanswered
    obtain ⟨hos, hle⟩ := ih (fun os' o' h => htold os' o' (h.trans (List.prefix_append os [o])))
      ((List.prefix_append _ _).trans hanswered)
    have hwhy := htold os o List.prefix_rfl
    rw [subscriptionsOf_logs hos] at hwhy
    cases o with
    | publish d m =>
      obtain ⟨-, hdue⟩ := hwhy
      cases d with
      | message => exact absurd hdue List.not_mem_nil
      | patternMessage => exact absurd hdue.1 List.not_mem_nil
    | answer env sub e =>
      rw [events_of_logs hos] at hanswered
      change _ ++ [e] <+: _ at hanswered
      have hlen := hanswered.length_le
      rw [List.length_append, List.length_map, List.length_take, Nat.min_eq_left hle, List.length_map,
        List.length_singleton] at hlen
      have hget := hanswered.getElem (i := os.length) (by simp; omega)
      rw [List.getElem_append_right (by simp), List.getElem_map] at hget
      simp only [List.length_map, List.length_take, Nat.min_eq_left hle, Nat.sub_self, List.getElem_singleton] at hget
      refine ⟨?_, by simpa using hlen⟩
      rw [List.length_append, List.length_singleton, List.take_succ_eq_append_getElem (by omega)]
      exact List.rel_append hos (.cons ⟨env, sub, by rw [hget]⟩ .nil)

namespace Server

variable {W : Nat} {s : Server W}

theorem told_logs (h : Run.Reaches (Opened queueLimit stringMatch w c) (init a : Server W) ls s) {ms : List Message}
    (hfits : ∀ m ∈ ms, m.FitsBulk) (hreceived : ((s.thread w).endpoint c).received <+: frames ms)
    : List.Forall₂ Output.AnswersLog ((s.thread w).endpoint c).outputs
          (ms.take ((s.thread w).endpoint c).outputs.length) ∧
        ((s.thread w).endpoint c).outputs.length ≤ ms.length ∧
        frames (ms.take ((s.thread w).endpoint c).outputs.length) <+: ((s.thread w).endpoint c).received ∧
        (¬(s.thread w).task.About c → ((s.thread w).endpoint c).request.req.size ≤ maxQuerybufLen →
          ((s.thread w).endpoint c).received = frames ms → ((s.thread w).endpoint c).outputs.length = ms.length) := by
  have hsteps := h.mono fun _ _ _ hstep => hstep.1
  have hparsed := parsed_of_reaches hsteps w c
  have htold := (explained_of_reaches hsteps w c).told
  obtain ⟨evs, q, b, hcompletes, hevs, hall⟩ := (RequestControl.reads_frames ms hfits).completes_part
    (Request.next_nil _) ⟨rfl, by simp⟩ hreceived
  have hanswered := hparsed.answered_isPrefix hcompletes
  obtain ⟨hlogs, hle⟩ := forall₂_answersLog htold (hanswered.trans hevs)
  have hevents : ((s.thread w).endpoint c).answered = _ := events_of_logs hlogs
  refine ⟨hlogs, hle, ?_, ?_⟩
  . have hcount := hanswered.length_le
    rw [hevents, List.length_map, List.length_take, Nat.min_eq_left hle] at hcount
    have hthere := RequestControl.frames_of_completes ms hfits hreceived hcompletes
    refine List.IsPrefix.trans ?_ hthere
    rw [← Nat.min_eq_left hcount, ← List.take_take]
    exact frames_take_prefix _ _
  intro hnot hsmall hread
  obtain ⟨q', b', hidle⟩ := hparsed.completes_of_idle hnot hsmall
  have hdone := (hidle.unique hcompletes).1.trans (hall hread)
  have hlen := congrArg List.length (hevents.symm.trans hdone)
  rw [List.length_map, List.length_map, List.length_take] at hlen
  omega

end Server
end Kids
