import Kids.Client.Reply
import Kids.Lib.Run
import Kids.Util.Ll2string

/-!
What a client has written, followed by what it still has to write, is what it was asked to say, for as
long as no reply arrives in the middle of a partial write.
-/

namespace Kids

open Bytes

namespace Reply

@[simp]
theorem data_clearRep (rep : Buffer) : (clearRep rep).data = [] := by
  unfold clearRep
  split
  . rfl
  . rfl

structure Ready (c : Reply) (n : Nat) : Prop where
  opened : c.closeAfterReply = false
  fd_pos : 0 < c.fd
  flushed : c.out.sentlen = 0
  fits : c.rep.size + n < intBound

structure Appended (c c' : Reply) (d : Bytes) : Prop where
  data_eq : c'.rep.data = c.rep.data ++ d
  sentlen_eq : c'.out.sentlen = c.out.sentlen
  fd_eq : c'.fd = c.fd
  close_eq : c'.closeAfterReply = c.closeAfterReply

theorem Appended.trans (h1 : Appended c c1 d) (h2 : Appended c1 c2 e) : Appended c c2 (d ++ e) where
  data_eq := by rw [h2.data_eq, h1.data_eq, List.append_assoc]
  sentlen_eq := h2.sentlen_eq.trans h1.sentlen_eq
  fd_eq := h2.fd_eq.trans h1.fd_eq
  close_eq := h2.close_eq.trans h1.close_eq

theorem Ready.mono (h : Ready c n) (hle : m ≤ n) : Ready c m where
  opened := h.opened
  fd_pos := h.fd_pos
  flushed := h.flushed
  fits := by
    have := h.fits
    omega

theorem Ready.appended (h : Ready c n) (happ : Appended c c' d) (hle : d.length + m ≤ n) : Ready c' m where
  opened := happ.close_eq.trans h.opened
  fd_pos := by
    rw [happ.fd_eq]
    exact h.fd_pos
  flushed := happ.sentlen_eq.trans h.flushed
  fits := by
    have := h.fits
    unfold Buffer.size at this ⊢
    rw [happ.data_eq, List.length_append]
    omega

-- the limits change nothing but `lastSoftLimit` and `closeAsap`
theorem checkOutputBufferLimits_eq (env : ReplyEnv) (c : Reply)
    : ∃ l, (c.checkOutputBufferLimits env).1 = { c with lastSoftLimit := l } := by
  unfold checkOutputBufferLimits
  generalize env.nlimit (if env.subscribed then .pubsub else .normal) = limits
  dsimp only
  split
  . split
    . exact ⟨_, rfl⟩
    . exact ⟨c.lastSoftLimit, rfl⟩
  . exact ⟨_, rfl⟩

theorem asyncClose_eq (env : ReplyEnv) (c : Reply)
    : ∃ l b, c.asyncCloseOnOutputBufferLimitsReached env = { c with lastSoftLimit := l, closeAsap := b } := by
  obtain ⟨l, hl⟩ := c.checkOutputBufferLimits_eq env
  unfold asyncCloseOnOutputBufferLimitsReached
  split
  . exact ⟨c.lastSoftLimit, c.closeAsap, rfl⟩
  . dsimp only
    rw [hl]
    split
    . exact ⟨l, true, rfl⟩
    . exact ⟨l, c.closeAsap, rfl⟩

theorem asyncClose_appended (env : ReplyEnv) (h : Appended c c' d)
    : Appended c (c'.asyncCloseOnOutputBufferLimitsReached env) d := by
  obtain ⟨l, b, heq⟩ := c'.asyncClose_eq env
  rw [heq]
  exact ⟨h.data_eq, h.sentlen_eq, h.fd_eq, h.close_eq⟩

theorem replyParts_spec (env : ReplyEnv) (c : Reply) (parts : List Bytes) (h : c.Ready parts.flatten.length)
    : ∃ c', c.replyParts env parts = some c' ∧ Appended c c' parts.flatten := by
  have hfits := h.fits
  have hroom : c.rep.data.length + parts.flatten.length + 1 < uint32Size := by
    unfold Buffer.size at hfits
    simp only [intBound] at hfits
    simp only [uint32Size]
    omega
  obtain ⟨rep, hrep, hdata⟩ := c.rep.appendAll_spec parts hroom
  have hfd := h.fd_pos
  unfold replyParts setWriteEvent
  rw [if_neg (by simp [h.opened])]
  rw [if_neg (by omega)]
  rw [if_neg (by simp [h.flushed])]
  dsimp only [Reply.rep] at hrep ⊢
  rw [hrep]
  refine ⟨_, rfl, ?_⟩
  apply asyncClose_appended
  exact ⟨hdata, rfl, rfl, rfl⟩

theorem reply_spec (env : ReplyEnv) (c : Reply) (data : Bytes) (h : c.Ready data.length)
    : ∃ c', c.reply env data = some c' ∧ Appended c c' data := by
  have hspec := replyParts_spec env c [data] (by simpa using h)
  simpa [reply] using hspec

theorem replyBulk_spec (env : ReplyEnv) (c : Reply) (data : Bytes) (h : c.Ready (bulkEncoding data).length)
    : ∃ c', c.replyBulk env data = some c' ∧ Appended c c' (bulkEncoding data) := by
  unfold replyBulk
  -- no digit is a NUL, so the header goes through `append_printf` as it is
  rw [Buffer.vaprintf_eq, cstr_eq_self _ (headerLine_noNul dollar data.length (by decide))]
  generalize hparts : [headerLine dollar data.length, data, crlf] = parts
  have hflat : parts.flatten = bulkEncoding data := by
    rw [← hparts]
    simp [bulkEncoding]
  rw [← hflat] at h ⊢
  exact replyParts_spec env c parts h

theorem replyLine_spec (env : ReplyEnv) (c : Reply) (start w : Bytes)
    (h : c.Ready (start ++ cstr w ++ crlf).length)
    : ∃ c', c.replyParts env [start, Buffer.vaprintf w, crlf] = some c' ∧
        Appended c c' (start ++ cstr w ++ crlf) := by
  rw [Buffer.vaprintf_eq]
  have hspec := replyParts_spec env c [start, cstr w, crlf] (by simpa using h)
  simpa using hspec

-- the buffer of `ReplyLongLong` has room for every number
theorem ll2string_eq (value : Int64) : Kids.ll2string 127 value = ll2string value.toInt := by
  have hlength := Kids.ll2string.length_text_le value
  rw [Kids.ll2string_eq_text (by omega), Kids.ll2string.text_eq]
  rfl

theorem replyLongLong_eq (env : ReplyEnv) (c : Reply) (ll : Int)
    : c.replyLongLong env ll = c.reply env (ofString ":" ++ ll2string ll ++ crlf) := by
  unfold replyLongLong
  split
  . next h =>
    rw [h]
    congr 1
    simp [repCzero, ofString, ll2string, decimal, crlf, cr, lf]
  . split
    . next h =>
      rw [h]
      congr 1
      simp [repCone, ofString, ll2string, decimal, crlf, cr, lf]
    . rfl

theorem bind_appended {x : Option Reply} {f : Reply → Option Reply}
    (h1 : ∃ c1, x = some c1 ∧ Appended c c1 d)
    (h2 : ∀ c1, Appended c c1 d → ∃ c2, f c1 = some c2 ∧ Appended c1 c2 e)
    : ∃ c2, x >>= f = some c2 ∧ Appended c c2 (d ++ e) := by
  obtain ⟨c1, rfl, happ1⟩ := h1
  obtain ⟨c2, hf, happ2⟩ := h2 c1 happ1
  exact ⟨c2, hf, happ1.trans happ2⟩

theorem replyBulk₂_spec (env : ReplyEnv) (c : Reply) (d e : Bytes)
    (h : c.Ready (bulkEncoding d ++ bulkEncoding e).length)
    : ∃ c', (c.replyBulk env d >>= fun c => c.replyBulk env e) = some c' ∧
        Appended c c' (bulkEncoding d ++ bulkEncoding e) := by
  rw [List.length_append] at h
  apply bind_appended
  . apply replyBulk_spec
    apply h.mono
    omega
  . intro c1 happ
    apply replyBulk_spec
    exact h.appended happ (Nat.le_refl _)

theorem receiveMessage_spec (env : ReplyEnv) (c : Reply) (topic content : Bytes)
    (h : c.Ready (ReplyCall.receiveMessage topic content).encoding.length)
    : ∃ c', c.receiveMessage env topic content = some c' ∧
        Appended c c' (ReplyCall.receiveMessage topic content).encoding := by
  have hencoding : (ReplyCall.receiveMessage topic content).encoding =
      repMbulk3 ++ (repMessagebulk ++ (bulkEncoding topic ++ bulkEncoding content)) := by
    simp [ReplyCall.encoding, repMbulk3, repMessagebulk, ofString]
  rw [hencoding] at h ⊢
  simp only [List.length_append] at h
  unfold receiveMessage
  apply bind_appended
  . apply reply_spec
    apply h.mono
    omega
  . intro c1 happ1
    have h1 := h.appended happ1 (Nat.le_refl _)
    apply bind_appended
    . apply reply_spec
      apply h1.mono
      omega
    . intro c2 happ2
      apply replyBulk₂_spec
      rw [List.length_append]
      exact h1.appended happ2 (Nat.le_refl _)

theorem receivePatternMessage_spec (env : ReplyEnv) (c : Reply) (topic content pattern : Bytes)
    (h : c.Ready (ReplyCall.receivePatternMessage topic content pattern).encoding.length)
    : ∃ c', c.receivePatternMessage env topic content pattern = some c' ∧
        Appended c c' (ReplyCall.receivePatternMessage topic content pattern).encoding := by
  have hencoding : (ReplyCall.receivePatternMessage topic content pattern).encoding =
      repMbulk4 ++ (repPmessagebulk ++ (bulkEncoding pattern ++ (bulkEncoding topic ++ bulkEncoding content))) := by
    simp [ReplyCall.encoding, repMbulk4, repPmessagebulk, ofString]
  rw [hencoding] at h ⊢
  simp only [List.length_append] at h
  unfold receivePatternMessage
  apply bind_appended
  . apply reply_spec
    apply h.mono
    omega
  . intro c1 happ1
    have h1 := h.appended happ1 (Nat.le_refl _)
    apply bind_appended
    . apply reply_spec
      apply h1.mono
      omega
    . intro c2 happ2
      have h2 := h1.appended happ2 (Nat.le_refl _)
      apply bind_appended
      . apply replyBulk_spec
        apply h2.mono
        omega
      . intro c3 happ3
        apply replyBulk₂_spec
        rw [List.length_append]
        exact h2.appended happ3 (Nat.le_refl _)

theorem run_spec (env : ReplyEnv) (c : Reply) (r : ReplyCall) (h : c.Ready r.encoding.length)
    : ∃ c', r.run env c = some c' ∧ Appended c c' r.encoding := by
  cases r with
  | reply data => exact reply_spec env c data h
  | replyBulk data => exact replyBulk_spec env c data h
  | replyStatusFormat w => exact replyLine_spec env c (ofString "+") w h
  | replyErrorFormat w => exact replyLine_spec env c (ofString "-ERR ") w h
  | replyLongLong ll =>
    unfold ReplyCall.run
    dsimp only
    rw [replyLongLong_eq]
    exact reply_spec env c _ h
  | receiveMessage topic content => exact receiveMessage_spec env c topic content h
  | receivePatternMessage topic content pattern => exact receivePatternMessage_spec env c topic content pattern h

theorem sendReply_spec (c : Reply) (rs : List WriteResult) (hwf : c.out.Wf) (hsize : c.rep.size < intBound)
    : ∃ r, c.sendReply rs = some r ∧ r.client.closeAfterReply = c.closeAfterReply ∧
        ∃ failed, Outgoing.WriteSpec c.out ⟨r.client.out, r.bytes, failed⟩ := by
  obtain ⟨⟨out, bytes, failed⟩, hw, hspec⟩ := c.out.writeAll_spec clearRep data_clearRep 0 rs hwf hsize
  unfold sendReply
  rw [hw]
  dsimp only
  split
  . exact ⟨_, rfl, rfl, failed, hspec⟩
  . split
    . exact ⟨_, rfl, rfl, failed, hspec⟩
    . exact ⟨_, rfl, rfl, failed, hspec⟩

theorem run_closing (env : ReplyEnv) (c : Reply) (r : ReplyCall) (h : c.closeAfterReply = true)
    : r.run env c = some c := by
  have hparts (parts : List Bytes) : c.replyParts env parts = some c := by
    unfold replyParts
    rw [if_pos h]
  cases r with
  | replyLongLong ll =>
    unfold ReplyCall.run
    dsimp only
    rw [replyLongLong_eq]
    apply hparts
  | _ => simp [ReplyCall.run, reply, replyBulk, replyStatusFormat, replyErrorFormat, receiveMessage,
      receivePatternMessage, hparts]

end Reply

namespace Connection

def encodings (s : Connection) : Bytes :=
  (s.calls.map ReplyCall.encoding).flatten

def Delivered (s : Connection) : Prop :=
  s.client.closeAfterReply = false → s.written ++ s.client.out.unsent = s.encodings

def Flushed (s : Connection) : Event → Prop
  | .call _ r => s.freed = false → s.client.closeAfterReply = false → s.client.Ready r.encoding.length
  | _ => True

structure Inv (s : Connection) : Prop where
  wf : s.client.out.Wf
  size_lt : s.client.rep.size < intBound
  delivered : s.Delivered

theorem inv_init (fd : Int) : (init fd).Inv where
  wf := .inl rfl
  size_lt := show 0 < intBound by decide
  delivered := fun _ => rfl

theorem Inv.call (env : ReplyEnv) (h : Inv s)
    (hr : s.client.closeAfterReply = false → s.client.Ready r.encoding.length)
    : ∃ client, r.run env s.client = some client ∧ Inv { s with client := client, calls := s.calls ++ [r] } := by
  by_cases hclose : s.client.closeAfterReply = false
  . have hready := hr hclose
    obtain ⟨client, hrun, happ⟩ := Reply.run_spec env s.client r hready
    have hsent : client.out.sentlen = 0 := happ.sentlen_eq.trans hready.flushed
    refine ⟨client, hrun, .inl hsent, ?_, ?_⟩
    . have := hready.fits
      unfold Buffer.size at this ⊢
      dsimp only
      rw [happ.data_eq, List.length_append]
      exact this
    . intro _
      have hdelivered := h.delivered hclose
      have hdata := happ.data_eq
      unfold Reply.rep at hdata
      unfold Outgoing.unsent at hdelivered ⊢
      rw [hready.flushed, List.drop_zero] at hdelivered
      dsimp only
      rw [hsent, List.drop_zero, hdata, ← List.append_assoc, hdelivered]
      simp [encodings]
  . -- a closing client says nothing any more
    simp only [Bool.not_eq_false] at hclose
    refine ⟨s.client, Reply.run_closing env s.client r hclose, h.wf, h.size_lt, ?_⟩
    intro hopen
    dsimp only at hopen
    rw [hclose] at hopen
    cases hopen

theorem Inv.sendReply (rs : List WriteResult) (h : Inv s)
    : ∃ r, s.client.sendReply rs = some r ∧
        Inv { s with client := r.client, freed := r.freed, written := s.written ++ r.bytes } := by
  obtain ⟨r, hr, hclose, failed, hspec⟩ := s.client.sendReply_spec rs h.wf h.size_lt
  refine ⟨r, hr, hspec.wf, ?_, ?_⟩
  . apply Nat.lt_of_le_of_lt
    . exact hspec.size_le
    . exact h.size_lt
  . intro hopen
    have hdelivered := h.delivered (hclose.symm.trans hopen)
    rw [hspec.unsent_eq] at hdelivered
    dsimp only
    rw [List.append_assoc]
    exact hdelivered

theorem Inv.step (h : Inv s) (hflushed : Flushed s e) : ∃ t, step s e = some t ∧ Inv t := by
  unfold Connection.step
  by_cases hfreed : s.freed = true
  . rw [if_pos hfreed]
    exact ⟨s, rfl, h⟩
  . rw [if_neg hfreed]
    simp only [Bool.not_eq_true] at hfreed
    cases e with
    | call env r =>
      obtain ⟨client, hrun, hinv⟩ := h.call env (hflushed hfreed)
      dsimp only
      rw [hrun]
      exact ⟨_, rfl, hinv⟩
    | sendReply rs =>
      obtain ⟨r, hr, hinv⟩ := h.sendReply rs
      dsimp only
      rw [hr]
      exact ⟨_, rfl, hinv⟩
    | closeAfterReply => exact ⟨_, rfl, h.wf, h.size_lt, fun hopen => by cases hopen⟩

/--
In every run in which each reply to an open client finds `rep_` untouched by a partial write, the
bytes written and the unsent bytes are at all times the encodings of the replies in call order.
-/
theorem delivered_of_flushed (fd : Int) (es : List Event) (h : Run.Meets step Flushed (init fd) es)
    : Run.Along step Delivered (init fd) es := by
  have hinv : Run.Along step Inv (init fd) es := by
    apply Run.Along.of_meets (fun _ => True) (inv_init fd) (fun _ _ => trivial) h
    intro s e hs _ hflushed
    exact hs.step hflushed
  exact hinv.mono fun _ hs => hs.delivered

theorem delivered_of_flushed_pong
    : Run.Meets step Flushed (init 5) [
          .call ⟨fun _ => ⟨0, 0, 0⟩, 0, false⟩ (.reply (ofString "+PONG\r\n")),
          .sendReply [.wrote 3],
          .sendReply [.wrote 16],
          .call ⟨fun _ => ⟨0, 0, 0⟩, 0, false⟩ (.reply (ofString "+PONG\r\n"))] ∧
        Run.Along step Delivered (init 5) [
          .call ⟨fun _ => ⟨0, 0, 0⟩, 0, false⟩ (.reply (ofString "+PONG\r\n")),
          .sendReply [.wrote 3],
          .sendReply [.wrote 16],
          .call ⟨fun _ => ⟨0, 0, 0⟩, 0, false⟩ (.reply (ofString "+PONG\r\n"))] := by
  have hmeets : Run.Meets step Flushed (init 5) [
      .call ⟨fun _ => ⟨0, 0, 0⟩, 0, false⟩ (.reply (ofString "+PONG\r\n")),
      .sendReply [.wrote 3],
      .sendReply [.wrote 16],
      .call ⟨fun _ => ⟨0, 0, 0⟩, 0, false⟩ (.reply (ofString "+PONG\r\n"))] := by
    refine ⟨fun _ _ => ⟨rfl, by decide, rfl, by decide⟩, ?_⟩
    intro t1 h1
    cases h1
    refine ⟨trivial, ?_⟩
    intro t2 h2
    cases h2
    refine ⟨trivial, ?_⟩
    intro t3 h3
    cases h3
    exact ⟨fun _ _ => ⟨rfl, by decide, rfl, by decide⟩, fun _ _ => trivial⟩
  exact ⟨hmeets, delivered_of_flushed 5 _ hmeets⟩

theorem delivered_fails_partial
    : ¬ Run.Along step Delivered (init 5) [
          .call ⟨fun _ => ⟨0, 0, 0⟩, 0, false⟩ (.reply (ofString "+PONG\r\n")),
          .sendReply [.wrote 3],
          .call ⟨fun _ => ⟨0, 0, 0⟩, 0, false⟩ (.reply (ofString "+PONG\r\n"))] := by
  rintro ⟨-, t1, h1, -, t2, h2, -, t3, h3, hdelivered⟩
  cases h1
  cases h2
  cases h3
  exact absurd (hdelivered rfl) (by decide)

end Connection
end Kids
