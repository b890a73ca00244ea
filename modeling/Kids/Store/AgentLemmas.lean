import Kids.Store.Agent

/-!
What `Log` and `SendRequest` do to the request buffer of an agent, as long as it does not outgrow its
counters.
-/

namespace Kids

open Bytes

def Message.FitsBulk (msg : Message) : Prop :=
  msg.topic.len ≤ maxBulkLen.toNat ∧ msg.content.len ≤ maxBulkLen.toNat

theorem frames_append (msgs more : List Message) : frames (msgs ++ more) = frames msgs ++ frames more := by
  simp [frames]

theorem frames_concat (msgs : List Message) (msg : Message) : frames (msgs ++ [msg]) = frames msgs ++ frame msg := by
  simp [frames]

theorem frames_take_prefix (msgs : List Message) (n : Nat) : frames (msgs.take n) <+: frames msgs := by
  conv => rhs; rw [← List.take_append_drop n msgs, frames_append]
  exact List.prefix_append _ _

theorem frame_ne_nil (msg : Message) : frame msg ≠ [] := by
  simp [frame, commandEncoding, headerLine]

theorem length_frame (msg : Message)
    : (frame msg).length = msg.topic.len + (decimal msg.topic.len).length + msg.content.len +
        (decimal msg.content.len).length + 23 := by
  have hdecimal : decimal 3 = [51] := by
    rw [decimal]
    rfl
  simp only [frame, logCommand, commandEncoding, bulkEncoding, List.length_append, length_headerLine,
    List.map_cons, List.map_nil, List.flatten_cons, List.flatten_nil, length_crlf, Sds.len, ofString]
  simp [hdecimal]
  omega

namespace Agent

def logParts (msg : Message) : List Bytes :=
  [ofString "*3\r\n$3\r\nLOG\r\n$" ++ decimal msg.topic.len ++ crlf, msg.topic.data, crlf,
    headerLine dollar msg.content.len, msg.content.data, crlf]

theorem flatten_logParts (msg : Message) : (logParts msg).flatten = frame msg := by
  have hdecimal : decimal 3 = [51] := by
    rw [decimal]
    rfl
  simp [logParts, frame, logCommand, commandEncoding, bulkEncoding, headerLine, hdecimal, ofString, Sds.len, crlf,
    dollar, cr, lf]

theorem log_eq (a : Agent) (ae : Bool) (msg : Message)
    : a.log ae msg =
        match a.setWriteEvent ae with
        | none => some a
        | some a =>
          match a.req.appendAll (logParts msg) with
          | none => none
          | some req => some { a with out.buf := req } := by
  have hnul : nul ∉ ofString "*3\r\n$3\r\nLOG\r\n$" ++ decimal msg.topic.len ++ crlf := by
    have := not_mem_decimal msg.topic.len nul (by decide)
    simp only [List.mem_append, not_or]
    exact ⟨⟨by decide, this⟩, by decide⟩
  unfold log
  rw [Buffer.vaprintf_eq, cstr_eq_self _ hnul]
  rw [Buffer.vaprintf_eq, cstr_eq_self _ (headerLine_noNul dollar msg.content.len (by decide))]
  rfl

structure Room (a : Agent) (ae : Bool) (msg : Message) : Prop where
  fd_pos : 0 < a.fd
  armable : a.req.size = 0 → ae = true
  fits : a.req.size + (frame msg).length < intBound

theorem setWriteEvent_isSome {a : Agent} (hfd : 0 < a.fd) (hae : a.req.size = 0 → ae = true)
    : (a.setWriteEvent ae).isSome = true := by
  unfold setWriteEvent
  rw [if_neg (by omega)]
  by_cases hempty : a.req.size = 0
  . rw [if_neg (by simp [hempty]), if_pos (hae hempty)]
    rfl
  . rw [if_pos hempty]
    rfl

theorem log_spec (a : Agent) (ae : Bool) (msg : Message) (h : a.Room ae msg)
    (harmed : a.req.size ≠ 0 → a.writable = true)
    : ∃ a', a.log ae msg = some a' ∧ a'.req.data = a.req.data ++ frame msg ∧
        a'.out.sentlen = a.out.sentlen ∧ a'.writable = true := by
  have hevent : ∃ a1, a.setWriteEvent ae = some a1 ∧ a1.out = a.out ∧ a1.writable = true := by
    have := h.fd_pos
    unfold setWriteEvent
    rw [if_neg (by omega)]
    by_cases hempty : a.req.size = 0
    . rw [if_neg (by simp [hempty]), if_pos (h.armable hempty)]
      exact ⟨_, rfl, rfl, rfl⟩
    . rw [if_pos hempty]
      exact ⟨a, rfl, rfl, harmed hempty⟩
  obtain ⟨a1, ha1, hout, hwritable⟩ := hevent
  have hroom : a1.req.data.length + (logParts msg).flatten.length + 1 < uint32Size := by
    have := h.fits
    rw [flatten_logParts]
    unfold Agent.req Buffer.size at this
    unfold Agent.req
    rw [hout]
    simp only [intBound] at this
    simp only [uint32Size]
    omega
  obtain ⟨req, hreq, hdata⟩ := a1.req.appendAll_spec (logParts msg) hroom
  rw [log_eq, ha1]
  dsimp only
  rw [hreq]
  refine ⟨_, rfl, ?_, by rw [hout], hwritable⟩
  rw [← flatten_logParts]
  unfold Agent.req at hdata ⊢
  rw [hout] at hdata
  exact hdata

theorem log_cases {a a' : Agent} (hlog : a.log ae msg = some a')
    : (a.setWriteEvent ae).isSome = true ∧ a'.req.data = a.req.data ++ frame msg ∧
          a'.out.sentlen = a.out.sentlen ∧ a'.fd = a.fd ∨
        (a.setWriteEvent ae).isSome = false ∧ a' = a := by
  rw [log_eq] at hlog
  cases hevent : a.setWriteEvent ae with
  | none =>
    rw [hevent] at hlog
    cases hlog
    exact .inr ⟨rfl, rfl⟩
  | some a1 =>
    have hsame : a1.out = a.out ∧ a1.fd = a.fd := by
      unfold setWriteEvent at hevent
      split at hevent
      . cases hevent
      . split at hevent
        . cases hevent
          exact ⟨rfl, rfl⟩
        . split at hevent
          . cases hevent
            exact ⟨rfl, rfl⟩
          . cases hevent
    obtain ⟨hout, hfd⟩ := hsame
    rw [hevent] at hlog
    dsimp only at hlog
    split at hlog
    . cases hlog
    . next req hreq =>
      cases hlog
      have hdata := Buffer.data_appendAll hreq
      rw [flatten_logParts] at hdata
      unfold Agent.req at hdata ⊢
      rw [hout] at hdata
      refine .inl ⟨rfl, hdata, ?_, hfd⟩
      dsimp only
      rw [hout]

theorem data_log {a a' : Agent} (hlog : a.log ae msg = some a') (hfd : 0 < a.fd) (hae : ae = true)
    : a'.req.data = a.req.data ++ frame msg ∧ a'.fd = a.fd := by
  have hevent := setWriteEvent_isSome hfd fun _ => hae
  obtain ⟨-, hdata, -, hfd'⟩ | ⟨hnone, -⟩ := log_cases hlog
  . exact ⟨hdata, hfd'⟩
  . rw [hevent] at hnone
    cases hnone

theorem unsent_sendRequest {a : Agent} (hwf : a.out.Wf) (h : a.sendRequest rs = some r)
    : a.out.unsent = r.bytes ++ r.agent.out.unsent ∧ r.agent.out.Wf := by
  unfold sendRequest at h
  split at h
  . cases h
  . next out bytes failed hw =>
    have hspec := Outgoing.WriteSpec.of_writeAll Buffer.clear Buffer.data_clear _ _ rs hwf hw
    dsimp only at h
    split at h
    . cases h
      exact ⟨hspec.unsent_eq, hspec.wf⟩
    . split at h
      . cases h
        exact ⟨hspec.unsent_eq, hspec.wf⟩
      . cases h
        exact ⟨hspec.unsent_eq, hspec.wf⟩

theorem out_parseReplyBuffer {a a' : Agent} (h : a.parseReplyBuffer = some (a', line)) : a'.out = a.out := by
  unfold parseReplyBuffer at h
  split at h
  . cases h
    rfl
  . split at h
    . cases h
      rfl
    . split at h
      . cases h
      . cases h
        rfl

theorem out_processReplyBuffer_go {a a' : Agent} (h : processReplyBuffer.go a = some (a', lines)) : a'.out = a.out := by
  induction a using processReplyBuffer.go.induct generalizing a' lines with
  | case1 a hempty =>
    rw [processReplyBuffer.go, if_pos hempty] at h
    cases h
    rfl
  | case2 a hsome hnone =>
    rw [processReplyBuffer.go, if_neg hsome] at h
    split at h
    . cases h
    . next heq => rw [hnone] at heq; cases heq
    . next heq => rw [hnone] at heq; cases heq
  | case3 a hsome a1 hwaits =>
    rw [processReplyBuffer.go, if_neg hsome] at h
    split at h
    . cases h
    . next heq =>
      cases h
      exact out_parseReplyBuffer heq
    . next heq => rw [hwaits] at heq; cases heq
  | case4 a hsome a1 line hline ih =>
    rw [processReplyBuffer.go, if_neg hsome] at h
    split at h
    . cases h
    . next heq => rw [hline] at heq; cases heq
    . next heq =>
      obtain ⟨⟨a2, lines'⟩, hgo, hpair⟩ := Option.map_eq_some_iff.mp h
      cases hpair
      rw [hline] at heq
      cases heq
      exact (ih hgo).trans (out_parseReplyBuffer hline)

-- the replies are in the other buffer
theorem out_readReply {a : Agent} (h : a.readReply r = some replies) : replies.agent.out = a.out := by
  unfold readReply at h
  split at h
  . cases h
    rfl
  . cases h
    rfl
  . split at h
    . cases h
      rfl
    . split at h
      . cases h
      . dsimp only at h
        split at h
        . cases h
          rfl
        . obtain ⟨⟨a', lines⟩, hprocess, rfl⟩ := Option.map_eq_some_iff.mp h
          obtain ⟨⟨a1, lines1⟩, hgo, hpair⟩ := Option.map_eq_some_iff.mp hprocess
          have hout := out_processReplyBuffer_go hgo
          cases hpair
          dsimp only
          split
          . exact hout
          . exact hout

theorem sendRequest_spec (a : Agent) (rs : List WriteResult) (hwf : a.out.Wf) (hsize : a.req.size < intBound)
    (harmed : a.writable = true ↔ a.req.size ≠ 0)
    : ∃ r, a.sendRequest rs = some r ∧ r.agent.out.Wf ∧ r.agent.req.size < intBound ∧
        a.out.unsent = r.bytes ++ r.agent.out.unsent ∧
        (r.disconnect = false → (r.agent.writable = true ↔ r.agent.req.size ≠ 0)) := by
  obtain ⟨⟨out, bytes, failed⟩, hw, hspec⟩ :=
    a.out.writeAll_spec Buffer.clear Buffer.data_clear 0 rs hwf hsize
  have hwf' := hspec.wf
  have hle : out.buf.size < intBound := by
    apply Nat.lt_of_le_of_lt
    . exact hspec.size_le
    . exact hsize
  unfold sendRequest
  rw [hw]
  dsimp only
  split
  . exact ⟨_, rfl, hspec.wf, hle, hspec.unsent_eq, fun h => by cases h⟩
  . split
    . next hsent =>
      refine ⟨_, rfl, hspec.wf, hle, hspec.unsent_eq, ?_⟩
      intro _
      unfold Outgoing.Wf at hwf'
      unfold Agent.req at hsent ⊢
      dsimp only at hwf' hsent ⊢
      simp only [Bool.false_eq_true, false_iff]
      omega
    . next hsent =>
      refine ⟨_, rfl, hspec.wf, hle, hspec.unsent_eq, ?_⟩
      intro _
      -- something is left to send, so the buffer is still the one that was armed
      have hne : out.buf.size ≠ 0 := by
        unfold Outgoing.Wf at hwf'
        unfold Agent.req at hsent
        dsimp only at hwf' hsent
        omega
      have hsame : out.buf.data = a.req.data := by
        cases hspec.data_eq with
        | inl hsame => exact hsame
        | inr hnil => exact absurd (List.length_eq_zero_iff.mpr hnil) hne
      have hsize : out.buf.size = a.req.size := by
        unfold Buffer.size
        rw [hsame]
      rw [hsize] at hne
      unfold Agent.req at harmed hne ⊢
      simp only [harmed, hsize, Agent.req]

end Agent
end Kids
