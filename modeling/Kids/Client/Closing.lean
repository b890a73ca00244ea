import Kids.Client.EventLoop
import Kids.Client.Framing

/-!
Closing a client. A client marked `CLIENT_CLOSE_AFTER_REPLY` has something left to send, and is freed when
it is sent.
-/

namespace Kids

open Bytes

namespace Reply

/--
What holds of the replies of a client that has not been freed.
-/
structure Good (c : Reply) : Prop where
  fd_pos : 0 < c.fd
  wf : c.out.Wf
  armed : c.rep.data ≠ [] → c.writable = true
  closing : c.closeAfterReply = true → c.rep.data ≠ []

theorem good_init (fd : Int) (hfd : 0 < fd) : Good (init fd) where
  fd_pos := hfd
  wf := .inl rfl
  armed := fun h => absurd rfl h
  closing := fun h => by cases h

theorem Good.asyncClose (env : ReplyEnv) (h : Good c) : Good (c.asyncCloseOnOutputBufferLimitsReached env) := by
  obtain ⟨l, b, heq⟩ := c.asyncClose_eq env
  rw [heq]
  exact ⟨h.fd_pos, h.wf, h.armed, h.closing⟩

theorem Good.replyParts_cases (env : ReplyEnv) (parts : List Bytes) (h : Good c)
    (hc' : c.replyParts env parts = some c')
    : (c' = c ∧ (c.closeAfterReply = true ∨ c.out.sentlen ≠ 0)) ∨
        (c.closeAfterReply = false ∧ ∃ rep, c.rep.appendAll parts = some rep ∧
          c' = ({ c with out.buf := rep, writable := true }.asyncCloseOnOutputBufferLimitsReached env) ∧
          c.out.sentlen = 0) := by
  unfold Reply.replyParts setWriteEvent at hc'
  split at hc'
  . next hclose =>
    cases hc'
    exact .inl ⟨rfl, .inl hclose⟩
  . next hopen =>
    rw [if_neg (by have := h.fd_pos; omega)] at hc'
    split at hc'
    . next hc1 =>
      split at hc1
      . next hsent =>
        cases hc'
        exact .inl ⟨rfl, .inr hsent⟩
      . cases hc1
    . next c1 hc1 =>
      split at hc1
      . cases hc1
      . next hsent =>
        cases hc1
        split at hc'
        . cases hc'
        . next rep hrep =>
          cases hc'
          exact .inr ⟨by simpa using hopen, rep, hrep, rfl, by simpa using hsent⟩

theorem Good.replyParts (env : ReplyEnv) (parts : List Bytes) (h : Good c)
    : Run.Ensures (c.replyParts env parts) Good := by
  intro c' hc'
  rcases h.replyParts_cases env parts hc' with ⟨rfl, -⟩ | ⟨hopen, rep, -, rfl, hsent⟩
  . exact h
  . apply Good.asyncClose
    refine ⟨h.fd_pos, .inl hsent, fun _ => rfl, ?_⟩
    intro hclose
    dsimp only at hclose
    rw [hopen] at hclose
    cases hclose

theorem Good.replyParts_ne_nil (env : ReplyEnv) (parts : List Bytes) (h : Good c) (hparts : parts.flatten ≠ [])
    : Run.Ensures (c.replyParts env parts) (fun c' => c'.rep.data ≠ []) := by
  intro c' hc'
  rcases h.replyParts_cases env parts hc' with ⟨rfl, hclose | hsent⟩ | ⟨-, rep, hrep, rfl, -⟩
  . exact h.closing hclose
  . -- a partial write leaves something to send
    cases h.wf with
    | inl hzero => exact absurd hzero hsent
    | inr hlt =>
      apply List.ne_nil_of_length_pos
      exact Nat.lt_of_le_of_lt (Nat.zero_le _) hlt
  . obtain ⟨l, b, heq⟩ := asyncClose_eq env { c with out.buf := rep, writable := true }
    rw [heq]
    change rep.data ≠ []
    rw [Buffer.data_appendAll hrep]
    exact List.append_ne_nil_of_right_ne_nil _ hparts

theorem Good.run (env : ReplyEnv) (r : ReplyCall) (h : Good c) : Run.Ensures (r.run env c) Good := by
  cases r with
  | reply data => exact h.replyParts env _
  | replyBulk data => exact h.replyParts env _
  | replyStatusFormat w => exact h.replyParts env _
  | replyErrorFormat w => exact h.replyParts env _
  | replyLongLong ll =>
    unfold ReplyCall.run
    dsimp only
    rw [replyLongLong_eq]
    exact h.replyParts env _
  | receiveMessage topic content =>
    unfold ReplyCall.run receiveMessage reply replyBulk
    refine Run.Ensures.bind (h.replyParts env _) ?_
    intro c1 h1
    refine Run.Ensures.bind (h1.replyParts env _) ?_
    intro c2 h2
    refine Run.Ensures.bind (h2.replyParts env _) ?_
    intro c3 h3
    exact h3.replyParts env _
  | receivePatternMessage topic content pattern =>
    unfold ReplyCall.run receivePatternMessage reply replyBulk
    refine Run.Ensures.bind (h.replyParts env _) ?_
    intro c1 h1
    refine Run.Ensures.bind (h1.replyParts env _) ?_
    intro c2 h2
    refine Run.Ensures.bind (h2.replyParts env _) ?_
    intro c3 h3
    refine Run.Ensures.bind (h3.replyParts env _) ?_
    intro c4 h4
    exact h4.replyParts env _

end Reply

namespace Session

def Good (s : Session) : Prop :=
  s.reply.Good

theorem Good.call (env : CommandEnv) (r : ReplyCall) (h : Good s) : Run.Ensures (s.call env r) Good :=
  (Reply.Good.run (s.replyEnv env) r h).map fun _ hgood => hgood

theorem Good.notifyClient (env : CommandEnv) (kindbulk name : Bytes) (h : Good s)
    : Run.Ensures (s.notifyClient env kindbulk name) Good := by
  unfold Session.notifyClient
  refine Run.Ensures.bind (h.call env _) ?_
  intro s1 h1
  refine Run.Ensures.bind (h1.call env _) ?_
  intro s2 h2
  refine Run.Ensures.bind (h2.call env _) ?_
  intro s3 h3
  exact h3.call env _

theorem Good.subscribeEach (k : SubscriptionKind) (env : CommandEnv) (names : List Bytes) (h : Good s)
    : Run.Ensures (s.subscribeEach k env names) Good := by
  induction names generalizing s with
  | nil => exact .of_some h
  | cons name names ih =>
    unfold Session.subscribeEach
    refine Run.Ensures.bind (Good.notifyClient (s := ⟨s.reply, s.sub.insert k name⟩) env _ _ h) ?_
    intro s1 h1
    exact ih h1

theorem Good.unsubscribeName (k : SubscriptionKind) (env : CommandEnv) (name : Bytes) (h : Good s)
    : Run.Ensures (s.unsubscribeName k env name) Good := by
  unfold Session.unsubscribeName
  refine Run.Ensures.bind (h.notifyClient env _ _) ?_
  intro s1 h1
  exact .of_some h1

theorem Good.unsubscribeEach (k : SubscriptionKind) (env : CommandEnv) (names : List Bytes) (h : Good s)
    : Run.Ensures (s.unsubscribeEach k env names) Good := by
  induction names generalizing s with
  | nil => exact .of_some h
  | cons name names ih =>
    unfold Session.unsubscribeEach
    refine Run.Ensures.bind (h.unsubscribeName k env name) ?_
    intro s1 h1
    exact ih h1

theorem Good.subscribeNames (k : SubscriptionKind) (env : CommandEnv) (args : List Bytes) (h : Good s)
    : Run.Ensures (s.subscribeNames k env args) Good := by
  unfold Session.subscribeNames
  split
  . exact h.call env _
  . exact h.subscribeEach k env args

theorem Good.unsubscribeNames (k : SubscriptionKind) (env : CommandEnv) (args : List Bytes) (h : Good s)
    : Run.Ensures (s.unsubscribeNames k env args) Good := by
  unfold Session.unsubscribeNames
  split
  . rw [Session.unsubscribeAll_eq]
    exact h.unsubscribeEach k env _
  . exact h.unsubscribeEach k env args

theorem Good.processLog (env : CommandEnv) (args : List Bytes) (h : Good s)
    : Run.Ensures (s.processLog env args) Good := by
  unfold Session.processLog
  split
  . exact h.call env _
  . split
    . exact h.call env _
    . exact h.call env _

theorem Good.close (h : Good s) (hne : s.reply.rep.data ≠ []) : Good { s with reply.closeAfterReply := true } :=
  ⟨h.fd_pos, h.wf, h.armed, fun _ => hne⟩

-- a reply, and the mark after it
theorem Good.replyAndClose (env : CommandEnv) (r : ReplyCall) (parts : List Bytes) (h : Good s)
    (hr : r.run (s.replyEnv env) s.reply = s.reply.replyParts (s.replyEnv env) parts) (hparts : parts.flatten ≠ [])
    : Run.Ensures (do let s ← s.call env r; some { s with reply.closeAfterReply := true }) Good := by
  have hne : Run.Ensures (s.call env r) (fun s' => s'.reply.rep.data ≠ []) := by
    unfold Session.call
    rw [hr]
    exact (Reply.Good.replyParts_ne_nil _ parts h hparts).map fun _ hdata => hdata
  intro s' hs'
  obtain ⟨s1, hs1, heq⟩ := Option.bind_eq_some_iff.mp hs'
  cases heq
  exact (h.call env r s1 hs1).close (hne s1 hs1)

theorem Good.processCommand (env : CommandEnv) (argv : List Bytes) (h : Good s)
    : Run.Ensures (s.processCommand env argv) (fun r => Good r.1) := by
  unfold Session.processCommand
  dsimp only
  split
  . exact (h.replyAndClose env (.reply repOk) [repOk] rfl (by decide)).map fun _ hgood => hgood
  . exact (h.call env _).map fun _ hgood => hgood
  . exact (h.call env _).map fun _ hgood => hgood
  . exact (h.processLog env _).map fun _ hgood => hgood
  . exact (h.subscribeNames .topic env _).map fun _ hgood => hgood
  . exact (h.subscribeNames .pattern env _).map fun _ hgood => hgood
  . exact (h.unsubscribeNames .topic env _).map fun _ hgood => hgood
  . exact (h.unsubscribeNames .pattern env _).map fun _ hgood => hgood
  . exact .of_some h
  . exact (h.call env _).map fun _ hgood => hgood
  . exact (h.call env _).map fun _ hgood => hgood
  . exact (h.call env _).map fun _ hgood => hgood

theorem Good.processProtocolError (env : CommandEnv) (err : ProtocolError) (h : Good s)
    (herr : err = .invalidMultibulkLength → s.reply.rep.data ≠ [])
    : Run.Ensures (s.processProtocolError env err) Good := by
  cases err with
  | invalidMultibulkLength => exact .of_some (h.close (herr rfl))
  | expectedDollar got =>
    apply h.replyAndClose env _ _ rfl
    simp [ofString]
  | invalidBulkLength =>
    apply h.replyAndClose env _ _ rfl
    simp [ofString]

end Session

namespace Client

/--
A client that is to be closed still has a reply to send, and the event that sends it.
-/
def OnItsWay (c : Client) : Prop :=
  c.session.reply.closeAfterReply = true → c.freed = false →
    0 < c.session.reply.rep.size ∧ c.session.reply.writable = true

/--
`req_` starts with the line of an argument vector whose length is not a number, or too large a one.
-/
def badHeader (c : Request) : Bool :=
  c.argc = 0 &&
    match strchr c.req.data cr with
    | none => false
    | some newline =>
      if c.req.size < newline + 2 then
        false
      else
        match string2ll (c.req.data.drop 1) (sizeT ((newline : Int) - 1)) with
        | none => true
        | some ll => ll > maxMultibulkLen

/--
A bad length of an argument vector finds a reply that is still to be sent, and the writes of one event
do not empty `rep_` for a client that waits for `Worker::Cron` as well.
-/
def Allowed (c : Client) : Label → Prop
  | .processRound _ => badHeader c.request = true → 0 < c.session.reply.rep.size
  | .sendReply rs =>
    c.session.reply.closeAfterReply = true → c.session.reply.closeAsap = true →
      ∀ w, c.session.reply.out.writeAll Reply.clearRep 0 rs = some w → 0 < w.out.buf.size
  | _ => True

theorem parseArgs_err (data : Bytes) (n pos : Nat) (curArglen : Option Nat) (argv : List Bytes)
    : (Request.parseArgs data n pos curArglen argv).err ≠ some .invalidMultibulkLength := by
  induction n generalizing pos curArglen argv with
  | zero =>
    intro h
    cases h
  | succ n ih =>
    unfold Request.parseArgs
    split
    . intro h
      cases h
    . next err herr =>
      intro h
      simp only [Option.some.injEq] at h
      subst h
      -- the header of an argument has errors of its own
      unfold Request.readArglen at herr
      split at herr
      . cases herr
      . split at herr
        . cases herr
        . split at herr
          . cases herr
          . dsimp only at herr
            split at herr
            . cases herr
            . split at herr
              . cases herr
              . split at herr
                . cases herr
                . cases herr
    . split
      . intro h
        cases h
      . apply ih

theorem parseArguments_err {c : Request} (h : c.parseArguments pos = some p)
    : p.err ≠ some .invalidMultibulkLength := by
  have hargs := parseArgs_err c.req.data (c.argc - c.argv.length) pos c.curArglen c.argv
  unfold Request.parseArguments at h
  dsimp only at h
  split at h
  . next err herr =>
    cases h
    intro heq
    cases heq
    exact hargs herr
  . split at h
    . cases h
    . cases h
      intro heq
      cases heq

theorem badHeader_of_parse {c : Request} (h : c.parseRequestBuffer = some p)
    (herr : p.err = some .invalidMultibulkLength)
    : badHeader c = true := by
  unfold Request.parseRequestBuffer at h
  unfold badHeader
  split at h
  . next hargc =>
    rw [hargc]
    simp only [decide_true, Bool.true_and]
    cases hnewline : c.req.data.strchr cr with
    | none =>
      rw [hnewline] at h
      cases h
      cases herr
    | some newline =>
      rw [hnewline] at h
      dsimp only at h ⊢
      split at h
      . cases h
        cases herr
      . next hroom =>
        rw [if_neg hroom]
        cases hll : string2ll (c.req.data.drop 1) (sizeT ((newline : Int) - 1)) with
        | none => rfl
        | some ll =>
          rw [hll] at h
          dsimp only at h ⊢
          split at h
          . next hlarge => simpa using hlarge
          . split at h
            . split at h
              . cases h
              . cases h
                cases herr
            . exact absurd herr (parseArguments_err h)
  . exact absurd herr (parseArguments_err h)

def Inv (c : Client) : Prop :=
  c.freed = false → c.session.Good

section

variable {c : Client}

theorem Inv.onItsWay (h : Inv c) : OnItsWay c := by
  intro hclose hfreed
  have hgood := h hfreed
  have hne := hgood.closing hclose
  exact ⟨List.length_pos_iff.mpr hne, hgood.armed hne⟩

theorem inv_freeClient (h : c.session.Good) : Inv c.freeClient := by
  unfold freeClient
  split
  . exact fun _ => h
  . exact fun hfreed => by cases hfreed

theorem inv_readRequest (r : ReadResult) (h : c.session.Good) : Run.Ensures (c.readRequest r) Inv := by
  unfold readRequest
  split
  . exact .of_some fun _ => h
  . exact .of_some (inv_freeClient h)
  . split
    . exact .of_some (inv_freeClient h)
    . split
      . intro c' hc'
        cases hc'
      . apply Run.Ensures.of_some
        split
        . exact inv_freeClient h
        . exact fun _ => h

theorem inv_processRound (env : CommandEnv) (h : c.session.Good)
    (hbad : badHeader c.request = true → 0 < c.session.reply.rep.size)
    : Run.Ensures (c.processRound env) Inv := by
  unfold processRound
  split
  . exact .of_some fun _ => h
  . split
    . intro c' hc'
      cases hc'
    . next request err ret hparse =>
      apply Run.Ensures.map
      . apply h.processProtocolError env err
        intro herr
        apply List.length_pos_iff.mp
        apply hbad
        apply badHeader_of_parse hparse
        rw [herr]
      . exact fun s hs _ => hs
    . exact .of_some fun _ => h
    . split
      . exact .of_some fun _ => h
      . exact (h.processCommand env _).map fun r hr _ => hr

theorem sendReply_cases {c : Reply} (h : c.Good) (hwritable : c.writable = true) (hr : c.sendReply rs = some r)
    : (∃ w, c.out.writeAll Reply.clearRep 0 rs = some w ∧ w.out.buf.data = [] ∧ c.closeAfterReply = true ∧
          r.freed = true ∧ r.client.closeAsap = c.closeAsap) ∨
        r.client.Good := by
  unfold Reply.sendReply at hr
  split at hr
  . cases hr
  . next out bytes failed hw =>
    have hwf : out.Wf := (Outgoing.WriteSpec.of_writeAll _ Reply.data_clearRep _ 0 rs h.wf hw).wf
    by_cases hdrained : out.buf.data = []
    . by_cases hclose : c.closeAfterReply = true
      . left
        refine ⟨_, hw, hdrained, hclose, ?_⟩
        dsimp only at hr
        split at hr
        . cases hr
          exact ⟨rfl, rfl⟩
        . rw [if_pos (by simp [Reply.rep, Buffer.size, hdrained])] at hr
          cases hr
          exact ⟨hclose, rfl⟩
      . right
        dsimp only at hr
        split at hr
        . cases hr
          exact ⟨h.fd_pos, hwf, fun _ => hwritable, fun hc => absurd hc hclose⟩
        . rw [if_pos (by simp [Reply.rep, Buffer.size, hdrained])] at hr
          cases hr
          exact ⟨h.fd_pos, hwf, fun hne => absurd hdrained hne, fun hc => absurd hc hclose⟩
    . right
      have hleft : ¬ out.buf.size ≤ out.sentlen := by
        have := List.length_pos_iff.mpr hdrained
        unfold Outgoing.Wf Buffer.size at hwf
        unfold Buffer.size
        omega
      dsimp only at hr
      split at hr
      . cases hr
        exact ⟨h.fd_pos, hwf, fun _ => hwritable, fun _ => hdrained⟩
      . split at hr
        . next hsent => exact absurd hsent hleft
        . cases hr
          exact ⟨h.fd_pos, hwf, fun _ => hwritable, fun _ => hdrained⟩

theorem inv_sendReply (rs : List WriteResult) (h : c.session.Good) (hallowed : Allowed c (.sendReply rs))
    : Run.Ensures (c.sendReply rs) Inv := by
  intro c' hc'
  unfold sendReply at hc'
  split at hc'
  . next hwritable =>
    obtain ⟨r, hr, rfl⟩ := Option.map_eq_some_iff.mp hc'
    rcases sendReply_cases h hwritable hr with ⟨w, hw, hdrained, hclose, hfreed, hasap⟩ | hgood
    . -- all is sent, so the client goes, unless it is in the queue of `Worker::Cron`
      have hasap' : r.client.closeAsap = false := by
        rw [hasap, Bool.eq_false_iff]
        intro hboth
        have hpos := hallowed hclose hboth w hw
        unfold Buffer.size at hpos
        rw [hdrained] at hpos
        exact absurd hpos (by decide)
      dsimp only
      rw [if_pos hfreed]
      unfold freeClient
      rw [if_neg (by simp [hasap'])]
      exact fun hfreed => by cases hfreed
    . dsimp only
      split
      . exact inv_freeClient hgood
      . exact fun _ => hgood
  . cases hc'
    exact fun _ => h

theorem freed_of_sendReply (hclose : c.session.reply.closeAfterReply = true)
    (hasap : c.session.reply.closeAsap = false) (hwritable : c.session.reply.writable = true)
    (hw : c.session.reply.out.writeAll Reply.clearRep 0 rs = some w) (hsent : w.out.buf.size = 0)
    : ∃ c', c.sendReply rs = some c' ∧ c'.freed = true := by
  obtain ⟨out, bytes, failed⟩ := w
  dsimp only at hsent
  unfold sendReply Reply.sendReply
  rw [if_pos hwritable, hw]
  dsimp only
  split
  . refine ⟨_, rfl, ?_⟩
    simp [freeClient, hasap]
  . split
    . refine ⟨_, rfl, ?_⟩
      simp [freeClient, hasap, hclose]
    . next hleft =>
      change ¬ out.buf.size ≤ out.sentlen at hleft
      omega

theorem inv_step (l : Label) (h : Inv c) (hallowed : c.freed = false → Allowed c l)
    : Run.Ensures (c.step l) Inv := by
  unfold step
  split
  . exact .of_some h
  . next hfreed =>
    simp only [Bool.not_eq_true] at hfreed
    have hgood := h hfreed
    have hallowed := hallowed hfreed
    cases l with
    | readRequest r => exact inv_readRequest r hgood
    | processRound env => exact inv_processRound env hgood hallowed
    | receiveMessage env topic content => exact (hgood.call env _).map fun s hs _ => hs
    | receivePatternMessage env topic content pattern => exact (hgood.call env _).map fun s hs _ => hs
    | sendReply rs => exact inv_sendReply rs hgood hallowed
    | cron =>
      apply Run.Ensures.of_some
      unfold cron
      split
      . exact fun hfreed => by cases hfreed
      . exact fun _ => hgood

end

/--
A step that the condition allows.
-/
def Step (c : Client) (l : Label) (c' : Client) : Prop :=
  (c.freed = false → Allowed c l) ∧ c.step l = some c'

/--
In every run whose steps are all allowed, a client that is to be closed has a reply to send and an armed
event, or it has been freed.
-/
theorem onItsWay_of_reaches (fd : Int) (hfd : 0 < fd) (h : Run.Reaches Step (init fd) ls c) : OnItsWay c := by
  apply Inv.onItsWay
  apply h.invariant Inv
  . exact fun _ => Reply.good_init fd hfd
  . intro c l c' hinv hstep
    exact inv_step l hinv hstep.1 c' hstep.2

theorem onItsWay_of_reaches_quit
    : ∃ c, Run.Reaches Step (init 5) [
          .readRequest (.data (ofString "*1\r\n$4\r\nQUIT\r\n")),
          .processRound ⟨fun _ => ⟨0, 0, 0⟩, 0, true, [], .insertion⟩,
          .sendReply [.wrote 2]] c ∧
        c.session.reply.closeAfterReply = true ∧ OnItsWay c := by
  have hrun : ∃ c, Run.Reaches Step (init 5) [
      .readRequest (.data (ofString "*1\r\n$4\r\nQUIT\r\n")),
      .processRound ⟨fun _ => ⟨0, 0, 0⟩, 0, true, [], .insertion⟩,
      .sendReply [.wrote 2]] c ∧ c.session.reply.closeAfterReply = true := by
    refine ⟨_, .snoc (.snoc (.snoc .nil ⟨fun _ => trivial, rfl⟩) ⟨fun _ => ?_, rfl⟩) ⟨fun _ => ?_, rfl⟩, rfl⟩
    . intro _ hasap
      exact absurd hasap (by decide)
    . intro hbad
      exact absurd hbad (by decide)
  obtain ⟨c, hreaches, hclose⟩ := hrun
  exact ⟨c, hreaches, hclose, onItsWay_of_reaches 5 (by decide) hreaches⟩

/--
A length that is not a number is not answered, so nothing is sent and the client stays.
-/
theorem onItsWay_fails_invalidMultibulkLength
    : ∃ c, Run.Reaches (fun c l c' => step c l = some c') (init 5) [
          .readRequest (.data (ofString "*x\r\n")),
          .processRound ⟨fun _ => ⟨0, 0, 0⟩, 0, true, [], .insertion⟩] c ∧
        ¬ OnItsWay c := by
  refine ⟨_, .snoc (.snoc .nil rfl) rfl, ?_⟩
  intro h
  exact absurd (h rfl rfl).1 (by decide)

end Client
end Kids
