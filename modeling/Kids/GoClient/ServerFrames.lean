import Kids.Client.Framing
import Kids.GoClient.Response

/-!
The frames that the server pushes, and those it confirms subscriptions with, as `recvResponse` reads them.
-/

namespace Kids

open Bytes

namespace Reply

/--
Neither closing nor in the middle of a write, so that a reply is not dropped.
-/
structure Open (c : Reply) : Prop where
  opened : c.closeAfterReply = false
  fd_pos : 0 < c.fd
  flushed : c.out.sentlen = 0

theorem Open.appended (h : Open c) (happ : Appended c c' d) : Open c' where
  opened := happ.close_eq.trans h.opened
  fd_pos := by
    rw [happ.fd_eq]
    exact h.fd_pos
  flushed := happ.sentlen_eq.trans h.flushed

theorem Open.replyParts {env : ReplyEnv} {parts : List Bytes} (h : Open c) (hrun : c.replyParts env parts = some c')
    : Appended c c' parts.flatten := by
  unfold Reply.replyParts setWriteEvent at hrun
  rw [if_neg (by rw [h.opened]; exact Bool.false_ne_true), if_neg (by have := h.fd_pos; omega),
    if_neg (not_not_intro h.flushed)] at hrun
  dsimp only at hrun
  split at hrun
  . cases hrun
  . next rep hrep =>
    cases hrun
    exact asyncClose_appended env ⟨Buffer.data_appendAll hrep, rfl, rfl, rfl⟩

-- from an open client, `x` comes with `d` behind its replies
def Appends (c : Reply) (x : Option Reply) (d : Bytes) : Prop :=
  c.Open → Run.Ensures x (fun c' => Appended c c' d)

theorem Appends.bind {f : Reply → Option Reply} (h1 : Appends c x d) (h2 : ∀ c1, Appends c1 (f c1) e)
    : Appends c (x >>= f) (d ++ e) := by
  intro hopen
  refine (h1 hopen).bind fun c1 happ1 => ?_
  intro c2 hc2
  exact happ1.trans (h2 c1 (hopen.appended happ1) c2 hc2)

theorem appends_reply (env : ReplyEnv) (c : Reply) (data : Bytes) : Appends c (c.reply env data) data := by
  intro hopen c' hc'
  have happ := hopen.replyParts hc'
  rwa [List.flatten_cons, List.flatten_nil, List.append_nil] at happ

theorem appends_replyBulk (env : ReplyEnv) (c : Reply) (data : Bytes)
    : Appends c (c.replyBulk env data) (bulkEncoding data) := by
  intro hopen c' hc'
  have happ := hopen.replyParts hc'
  rw [Buffer.vaprintf_eq, cstr_eq_self _ (headerLine_noNul dollar data.length (by decide))] at happ
  simpa [bulkEncoding] using happ

theorem appends_run (env : ReplyEnv) (c : Reply) (r : ReplyCall) : Appends c (r.run env c) r.encoding := by
  cases r with
  | reply data => exact appends_reply env c data
  | replyBulk data => exact appends_replyBulk env c data
  | replyStatusFormat w =>
    intro hopen c' hc'
    have happ := hopen.replyParts hc'
    rw [Buffer.vaprintf_eq] at happ
    simpa [ReplyCall.encoding] using happ
  | replyErrorFormat w =>
    intro hopen c' hc'
    have happ := hopen.replyParts hc'
    rw [Buffer.vaprintf_eq] at happ
    simpa [ReplyCall.encoding] using happ
  | replyLongLong ll =>
    unfold ReplyCall.run ReplyCall.encoding
    dsimp only
    rw [replyLongLong_eq]
    exact appends_reply env c _
  | receiveMessage topic content =>
    have hencoding : (ReplyCall.receiveMessage topic content).encoding =
        repMbulk3 ++ (repMessagebulk ++ (bulkEncoding topic ++ bulkEncoding content)) := by
      simp [ReplyCall.encoding, repMbulk3, repMessagebulk, ofString]
    rw [hencoding]
    apply (appends_reply env c _).bind
    intro c1
    apply (appends_reply env c1 _).bind
    intro c2
    apply (appends_replyBulk env c2 _).bind
    intro c3
    exact appends_replyBulk env c3 _
  | receivePatternMessage topic content pattern =>
    have hencoding : (ReplyCall.receivePatternMessage topic content pattern).encoding =
        repMbulk4 ++ (repPmessagebulk ++ (bulkEncoding pattern ++ (bulkEncoding topic ++ bulkEncoding content))) := by
      simp [ReplyCall.encoding, repMbulk4, repPmessagebulk, ofString]
    rw [hencoding]
    apply (appends_reply env c _).bind
    intro c1
    apply (appends_reply env c1 _).bind
    intro c2
    apply (appends_replyBulk env c2 _).bind
    intro c3
    apply (appends_replyBulk env c3 _).bind
    intro c4
    exact appends_replyBulk env c4 _

end Reply

namespace Session

theorem call_appends {env : CommandEnv} {s s' : Session} {r : ReplyCall} (hopen : s.reply.Open)
    (hrun : s.call env r = some s') : Reply.Appended s.reply s'.reply r.encoding ∧ s'.sub = s.sub := by
  obtain ⟨c', hc', rfl⟩ := Option.map_eq_some_iff.mp hrun
  exact ⟨Reply.appends_run (s.replyEnv env) s.reply r hopen c' hc', rfl⟩

theorem notifyClient_appends {env : CommandEnv} {s s' : Session} {kindbulk name : Bytes} (hopen : s.reply.Open)
    (hrun : s.notifyClient env kindbulk name = some s')
    : Reply.Appended s.reply s'.reply (notification kindbulk name s.sub.count) := by
  unfold notifyClient at hrun
  obtain ⟨s1, h1, hrun⟩ := Option.bind_eq_some_iff.mp hrun
  obtain ⟨happ1, hsub1⟩ := call_appends hopen h1
  have hopen1 := hopen.appended happ1
  obtain ⟨s2, h2, hrun⟩ := Option.bind_eq_some_iff.mp hrun
  obtain ⟨happ2, hsub2⟩ := call_appends hopen1 h2
  have hopen2 := hopen1.appended happ2
  obtain ⟨s3, h3, hrun⟩ := Option.bind_eq_some_iff.mp hrun
  obtain ⟨happ3, hsub3⟩ := call_appends hopen2 h3
  obtain ⟨happ4, -⟩ := call_appends (hopen2.appended happ3) hrun
  rw [hsub3, hsub2, hsub1] at happ4
  exact happ1.trans (happ2.trans (happ3.trans happ4))

end Session

namespace SubscriptionKind

def subscribeWord : SubscriptionKind → Bytes
  | topic => ofString "subscribe"
  | pattern => ofString "psubscribe"

def unsubscribeWord : SubscriptionKind → Bytes
  | topic => ofString "unsubscribe"
  | pattern => ofString "punsubscribe"

-- the lengths that stand in the constants are those of the words
theorem subscribebulk_eq (k : SubscriptionKind) : k.subscribebulk = bulkEncoding k.subscribeWord := by
  cases k with
  | topic => simp [subscribebulk, subscribeWord, bulkEncoding, headerLine, ofString, decimal, crlf, cr, lf, dollar]
  | pattern => simp [subscribebulk, subscribeWord, bulkEncoding, headerLine, ofString, decimal, crlf, cr, lf, dollar]

theorem unsubscribebulk_eq (k : SubscriptionKind) : k.unsubscribebulk = bulkEncoding k.unsubscribeWord := by
  cases k with
  | topic => simp [unsubscribebulk, unsubscribeWord, bulkEncoding, headerLine, ofString, decimal, crlf, cr, lf, dollar]
  | pattern => simp [unsubscribebulk, unsubscribeWord, bulkEncoding, headerLine, ofString, decimal, crlf, cr, lf, dollar]

end SubscriptionKind

namespace GoClient

/--
A message that is pushed to a subscriber, or one of the four confirmations with the number of subscriptions.
-/
inductive ServerFrame
  | message (topic content : Bytes)
  | pmessage (topic content pattern : Bytes)
  | subscribed (k : SubscriptionKind) (name : Bytes) (count : Nat)
  | unsubscribed (k : SubscriptionKind) (name : Bytes) (count : Nat)

namespace ServerFrame

def run (env : CommandEnv) (s : Session) : ServerFrame → Option Session
  | .message topic content => s.call env (.receiveMessage topic content)
  | .pmessage topic content pattern => s.call env (.receivePatternMessage topic content pattern)
  | .subscribed k name _ => s.notifyClient env k.subscribebulk name
  | .unsubscribed k name _ => s.notifyClient env k.unsubscribebulk name

-- the number of a confirmation is that of the subscriptions
def Counts (sub : Subscriber) : ServerFrame → Prop
  | .message .. => True
  | .pmessage .. => True
  | .subscribed _ _ count => sub.count = count
  | .unsubscribed _ _ count => sub.count = count

def bulks : ServerFrame → List Bytes
  | .message topic content => [topic, content]
  | .pmessage topic content pattern => [pattern, topic, content]
  | .subscribed _ name _ => [name]
  | .unsubscribed _ name _ => [name]

/--
What the fields of a frame are for the client.
-/
def fields : ServerFrame → List Bytes
  | .message topic content => [ofString "message", topic, content]
  | .pmessage topic content pattern => [ofString "pmessage", pattern, topic, content]
  | .subscribed k name count => [k.subscribeWord, name, Reply.ll2string count]
  | .unsubscribed k name count => [k.unsubscribeWord, name, Reply.ll2string count]

/--
The server has put these bytes behind the replies of a client for the frame. A bulk is as long as the `uint32_t`
of `ReplyBulk` can say.
-/
structure Emitted (f : ServerFrame) (bytes : Bytes) : Prop where
  emitted : ∃ env s s', s.reply.Open ∧ f.Counts s.sub ∧ f.run env s = some s' ∧
    s'.reply.rep.data = s.reply.rep.data ++ bytes
  fits : ∀ data ∈ f.bulks, data.length < uint32Size

def encoding : ServerFrame → Bytes
  | .message topic content => (ReplyCall.receiveMessage topic content).encoding
  | .pmessage topic content pattern => (ReplyCall.receivePatternMessage topic content pattern).encoding
  | .subscribed k name count => Session.notification k.subscribebulk name count
  | .unsubscribed k name count => Session.notification k.unsubscribebulk name count

theorem Emitted.encoding_eq {f : ServerFrame} {bytes : Bytes} (h : f.Emitted bytes) : bytes = f.encoding := by
  obtain ⟨env, s, s', hopen, hcount, hrun, hdata⟩ := h.emitted
  have happ : Reply.Appended s.reply s'.reply f.encoding := by
    cases f with
    | message topic content => exact (Session.call_appends hopen hrun).1
    | pmessage topic content pattern => exact (Session.call_appends hopen hrun).1
    | subscribed k name count =>
      have happ := Session.notifyClient_appends hopen hrun
      rwa [hcount] at happ
    | unsubscribed k name count =>
      have happ := Session.notifyClient_appends hopen hrun
      rwa [hcount] at happ
  exact List.append_cancel_left (hdata.symm.trans happ.data_eq)

-- a client that has room for the frame is sent it
theorem emitted_of_ready {f : ServerFrame} {s : Session} (env : CommandEnv) (hready : s.reply.Ready f.encoding.length)
    (hcount : f.Counts s.sub) (hfits : ∀ data ∈ f.bulks, data.length < uint32Size) : f.Emitted f.encoding := by
  have hopen : s.reply.Open := ⟨hready.opened, hready.fd_pos, hready.flushed⟩
  have hmakes : Session.Makes s (f.run env s) f.encoding s.sub := by
    cases f with
    | message topic content => exact Session.makes_call env s _
    | pmessage topic content pattern => exact Session.makes_call env s _
    | subscribed k name count =>
      have h := Session.makes_notifyClient env s k.subscribebulk name
      rwa [hcount] at h
    | unsubscribed k name count =>
      have h := Session.makes_notifyClient env s k.unsubscribebulk name
      rwa [hcount] at h
  obtain ⟨s', hrun, happ, -⟩ := hmakes hready
  exact ⟨⟨env, s, s', hopen, hcount, hrun, happ.data_eq⟩, hfits⟩

end ServerFrame

section

variable {name data rest : Bytes} {count : Nat}

theorem lf_not_mem_ll2string (n : Int) : lf ∉ Reply.ll2string n := by
  unfold Reply.ll2string
  have hdecimal := not_mem_decimal n.natAbs lf (by decide)
  split
  . rw [List.mem_append, not_or]
    exact ⟨by decide, hdecimal⟩
  . exact hdecimal

theorem readArgv_ll2string (n : Int)
    : readArgv ((ReplyCall.replyLongLong n).encoding ++ rest) = .ok (Reply.ll2string n, rest) :=
  readArgv_integer (lf_not_mem_ll2string n)

theorem recvResponse_notification {kindbulk word : Bytes} (hkind : kindbulk = bulkEncoding word)
    (hword : word.length < uint32Size) (hname : name.length < uint32Size)
    : recvResponse (Session.notification kindbulk name count ++ rest) =
        .ok ([word, name, Reply.ll2string count], rest) := by
  have hheader : Reply.repMbulk3 = headerLine multiBulkSign 3 := by
    simp [Reply.repMbulk3, headerLine, ofString, decimal, crlf, cr, lf, multiBulkSign]
  unfold Session.notification
  rw [hheader, hkind]
  simp only [List.append_assoc]
  refine recvResponse_multibulk (by decide) ?_
  refine readArgvs_cons (readArgv_bulk hword) ?_
  refine readArgvs_cons (readArgv_bulk hname) ?_
  exact readArgvs_cons (readArgv_ll2string count) rfl

theorem recvResponse_encoding {f : ServerFrame} (h : ∀ data ∈ f.bulks, data.length < uint32Size)
    : recvResponse (f.encoding ++ rest) = .ok (f.fields, rest) := by
  cases f with
  | message topic content =>
    have hstart : ofString "*3\r\n$7\r\nmessage\r\n" = headerLine multiBulkSign 3 ++ bulkEncoding (ofString "message") := by
      simp [headerLine, bulkEncoding, ofString, decimal, crlf, cr, lf, dollar, multiBulkSign]
    simp only [ServerFrame.bulks, List.forall_mem_cons] at h
    obtain ⟨htopic, hcontent, -⟩ := h
    unfold ServerFrame.encoding ReplyCall.encoding
    dsimp only
    rw [hstart]
    simp only [List.append_assoc]
    refine recvResponse_multibulk (by decide) ?_
    refine readArgvs_cons (readArgv_bulk (by decide)) ?_
    refine readArgvs_cons (readArgv_bulk htopic) ?_
    exact readArgvs_cons (readArgv_bulk hcontent) rfl
  | pmessage topic content pattern =>
    have hstart : ofString "*4\r\n$8\r\npmessage\r\n" = headerLine multiBulkSign 4 ++ bulkEncoding (ofString "pmessage") := by
      simp [headerLine, bulkEncoding, ofString, decimal, crlf, cr, lf, dollar, multiBulkSign]
    simp only [ServerFrame.bulks, List.forall_mem_cons] at h
    obtain ⟨hpattern, htopic, hcontent, -⟩ := h
    unfold ServerFrame.encoding ReplyCall.encoding
    dsimp only
    rw [hstart]
    simp only [List.append_assoc]
    refine recvResponse_multibulk (by decide) ?_
    refine readArgvs_cons (readArgv_bulk (by decide)) ?_
    refine readArgvs_cons (readArgv_bulk hpattern) ?_
    refine readArgvs_cons (readArgv_bulk htopic) ?_
    exact readArgvs_cons (readArgv_bulk hcontent) rfl
  | subscribed k name count =>
    have hword : k.subscribeWord.length < uint32Size := by cases k <;> decide
    exact recvResponse_notification k.subscribebulk_eq hword (h name List.mem_cons_self)
  | unsubscribed k name count =>
    have hword : k.unsubscribeWord.length < uint32Size := by cases k <;> decide
    exact recvResponse_notification k.unsubscribebulk_eq hword (h name List.mem_cons_self)

end

/--
The fields of each frame, and what is before the reader once it is read.
-/
def decoded : List (ServerFrame × Bytes) → Bytes → List (List Bytes × Bytes)
  | [], _ => []
  | (f, _) :: frames, rest => (f.fields, (frames.map Prod.snd).flatten ++ rest) :: decoded frames rest

/--
The client reads what the server has emitted, frame by frame.
-/
theorem recvResponses_emitted {frames : List (ServerFrame × Bytes)} (h : ∀ e ∈ frames, e.1.Emitted e.2) (rest : Bytes)
    : recvResponses frames.length ((frames.map Prod.snd).flatten ++ rest) = .ok (decoded frames rest) := by
  induction frames with
  | nil => rfl
  | cons e frames ih =>
    obtain ⟨f, bytes⟩ := e
    obtain ⟨hemitted, hrest⟩ := List.forall_mem_cons.mp h
    have heq : bytes = f.encoding := hemitted.encoding_eq
    subst heq
    rw [List.map_cons, List.flatten_cons, List.append_assoc, List.length_cons]
    unfold recvResponses
    rw [recvResponse_encoding hemitted.fits, ok_bind]
    dsimp only
    rw [ih hrest]
    rfl

-- a message with a line break in its topic and no content, and a confirmation without subscriptions
theorem recvResponses_emitted_two
    : recvResponses 2 ((ServerFrame.message [cr, lf] []).encoding ++
        (ServerFrame.unsubscribed .pattern [nul] 0).encoding) =
      .ok [([ofString "message", [cr, lf], []], (ServerFrame.unsubscribed .pattern [nul] 0).encoding),
        ([ofString "punsubscribe", [nul], Reply.ll2string 0], [])] := by
  have env : CommandEnv := ⟨fun _ => ⟨0, 0, 0⟩, 0, true, [], .insertion⟩
  have hemitted : ∀ f : ServerFrame, f.Counts ⟨[], []⟩ → f.encoding.length < intBound →
      (∀ data ∈ f.bulks, data.length < uint32Size) → f.Emitted f.encoding := by
    intro f hcount hlen hfits
    have hready : (⟨.init 5, ⟨[], []⟩⟩ : Session).reply.Ready f.encoding.length :=
      ⟨rfl, by decide, rfl, by rwa [show (Reply.init 5).rep.size = 0 from rfl, Nat.zero_add]⟩
    exact ServerFrame.emitted_of_ready env hready hcount hfits
  have hzero : decimal 0 = [48] := by
    rw [decimal]
    rfl
  have htwo : decimal 2 = [50] := by
    rw [decimal]
    rfl
  have hone : decimal 1 = [49] := by
    rw [decimal]
    rfl
  have hcount : Reply.ll2string ((0 : Nat) : Int) = [48] := hzero
  have hmessage : (ServerFrame.message [cr, lf] []).Emitted (ServerFrame.message [cr, lf] []).encoding := by
    refine hemitted _ trivial ?_ (by decide)
    simp only [ServerFrame.encoding, ReplyCall.encoding, bulkEncoding, headerLine, List.length_cons, List.length_nil,
      Nat.zero_add, Nat.reduceAdd, hzero, htwo]
    decide
  have hconfirmed : (ServerFrame.unsubscribed .pattern [nul] 0).Emitted
      (ServerFrame.unsubscribed .pattern [nul] 0).encoding := by
    refine hemitted _ rfl ?_ (by decide)
    simp only [ServerFrame.encoding, Session.notification, ReplyCall.encoding, bulkEncoding, headerLine, List.length_cons,
      List.length_nil, Nat.zero_add, hone, hcount]
    decide
  have h := @recvResponses_emitted [(.message [cr, lf] [], _), (.unsubscribed .pattern [nul] 0, _)]
    (List.forall_mem_cons.mpr ⟨hmessage, List.forall_mem_cons.mpr ⟨hconfirmed, List.forall_mem_nil _⟩⟩) []
  simp only [List.map_cons, List.map_nil, List.flatten_cons, List.flatten_nil, List.append_nil, decoded] at h
  exact h

end GoClient
end Kids
