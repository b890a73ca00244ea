import Kids.GoClient.ServerFrames
import Kids.Server.Subscriptions

/-!
What the handlers of a client that is not in the middle of a write put behind its replies. There is no bound on
what fits here: a session that the handler comes back with has room for it.
-/

namespace Kids

open Bytes

namespace Session

/--
Whatever `x` is, `d` is behind the replies of the open client `s` in it.
-/
def Says (s : Session) (x : Option Session) (d : Bytes) : Prop :=
  s.reply.Open → Run.Ensures x (fun s' => Reply.Appended s.reply s'.reply d)

variable {env : CommandEnv} {s : Session} {x : Option Session}

theorem Says.bind {f : Session → Option Session} (h1 : Says s x d)
    (h2 : ∀ s1, x = some s1 → Says s1 (f s1) e) : Says s (x >>= f) (d ++ e) := by
  intro hopen s2 hs2
  obtain ⟨s1, hs1, hf⟩ := Option.bind_eq_some_iff.mp hs2
  have happ := h1 hopen s1 hs1
  exact happ.trans (h2 s1 hs1 (hopen.appended happ) s2 hf)

theorem says_nil (s : Session) : Says s (some s) [] := by
  intro _ s' hs'
  cases hs'
  exact ⟨by simp, rfl, rfl, rfl⟩

theorem says_call (env : CommandEnv) (s : Session) (r : ReplyCall) : Says s (s.call env r) r.encoding :=
  fun hopen _ hs' => (call_appends hopen hs').1

theorem says_notifyClient (env : CommandEnv) (s : Session) (kindbulk name : Bytes)
    : Says s (s.notifyClient env kindbulk name) (notification kindbulk name s.sub.count) :=
  fun hopen _ hs' => notifyClient_appends hopen hs'

theorem says_subscribeEach (k : SubscriptionKind) (env : CommandEnv) (s : Session) (names : List Bytes)
    : Says s (s.subscribeEach k env names) (subscribeReplies k s.sub names).flatten := by
  induction names generalizing s with
  | nil => exact says_nil s
  | cons name names ih =>
    unfold subscribeEach subscribeReplies
    rw [List.flatten_cons]
    apply Says.bind (says_notifyClient env { s with sub := s.sub.insert k name } k.subscribebulk name)
    intro s1 h1
    have hsub : s1.sub = s.sub.insert k name := notifyClient_sub h1
    rw [← hsub]
    exact ih s1

theorem says_unsubscribeName (k : SubscriptionKind) (env : CommandEnv) (s : Session) (name : Bytes)
    : Says s (s.unsubscribeName k env name) (notification k.unsubscribebulk name s.sub.count) := by
  intro hopen s' hs'
  unfold unsubscribeName at hs'
  obtain ⟨s1, h1, heq⟩ := Option.bind_eq_some_iff.mp hs'
  cases heq
  have happ := notifyClient_appends hopen h1
  exact happ

theorem says_unsubscribeEach (k : SubscriptionKind) (env : CommandEnv) (s : Session) (names : List Bytes)
    : Says s (s.unsubscribeEach k env names) (unsubscribeReplies k s.sub names).flatten := by
  induction names generalizing s with
  | nil => exact says_nil s
  | cons name names ih =>
    unfold unsubscribeEach unsubscribeReplies
    rw [List.flatten_cons]
    apply Says.bind (says_unsubscribeName k env s name)
    intro s1 h1
    rw [← unsubscribeName_sub h1]
    exact ih s1

theorem says_subscribeNames (k : SubscriptionKind) (env : CommandEnv) (s : Session) (args : List Bytes)
    : Says s (s.subscribeNames k env args)
        (if args = [] then [errorReply k.wrongNumber] else subscribeReplies k s.sub args).flatten := by
  unfold subscribeNames
  split
  . rw [List.flatten_singleton]
    exact says_call env s (.replyErrorFormat k.wrongNumber)
  . exact says_subscribeEach k env s args

theorem says_unsubscribeNames (k : SubscriptionKind) (env : CommandEnv) (s : Session) (args : List Bytes)
    : Says s (s.unsubscribeNames k env args)
        (unsubscribeReplies k s.sub (if args = [] then env.order.walk (s.sub.names k) else args)).flatten := by
  unfold unsubscribeNames
  split
  . rw [unsubscribeAll_eq]
    exact says_unsubscribeEach k env s _
  . exact says_unsubscribeEach k env s args

theorem says_processLog (env : CommandEnv) (s : Session) (args : List Bytes)
    : Says s (s.processLog env args)
        (if args.length ≠ 2 then
          [errorReply (ofString "invalid argments of log")]
        else if env.putMessage then
          [Reply.repCone]
        else
          [errorReply (ofString "Some thing bad happens!")]).flatten := by
  unfold processLog
  split
  . rw [List.flatten_singleton]
    apply says_call
  . split
    . rw [List.flatten_singleton]
      apply says_call
    . rw [List.flatten_singleton]
      apply says_call

/--
What an event leaves behind: the replies with `d` at their end, still not in the middle of a write.
-/
structure Extended (c c' : Reply) (d : Bytes) : Prop where
  data_eq : c'.rep.data = c.rep.data ++ d
  flushed : c'.out.sentlen = 0

theorem handle_extended {s' : Session} {e : RequestEvent} (hopen : s.reply.Open) (h : s.handle env e = some s')
    : Extended s.reply s'.reply (replies env s.sub e).flatten := by
  have hflushed := hopen.flushed
  have hsaid {x : Option Session} {s1 : Session} {d : Bytes} (hx : Says s x d) (heq : x = some s1)
      : Extended s.reply s1.reply d := by
    have happ := hx hopen s1 heq
    exact ⟨happ.data_eq, happ.sentlen_eq.trans hflushed⟩
  cases e with
  | protocolError err =>
    obtain ⟨s1, h1, heq⟩ := Option.bind_eq_some_iff.mp h
    cases heq
    have hclose {d : Bytes} (hext : Extended s.reply s1.reply d)
        : Extended s.reply { s1.reply with closeAfterReply := true } d :=
      ⟨hext.data_eq, hext.flushed⟩
    cases err with
    | invalidMultibulkLength =>
      cases h1
      exact hclose ⟨by simp [replies], hflushed⟩
    | expectedDollar got =>
      unfold replies
      rw [List.flatten_singleton]
      exact hclose (hsaid (says_call env s (.replyErrorFormat (protocolErrorText got))) h1)
    | invalidBulkLength =>
      unfold replies
      rw [List.flatten_singleton]
      exact hclose (hsaid (says_call env s (.replyErrorFormat (ofString "Protocol error: invalid bulk length"))) h1)
  | command argv =>
    obtain ⟨⟨s1, b⟩, h1, rfl⟩ := Option.map_eq_some_iff.mp h
    have hmap {x : Option Session} {b' : Bool} {d : Bytes} (hx : Says s x d) (heq : x.map (., b') = some (s1, b))
        : Extended s.reply s1.reply d := by
      obtain ⟨s2, h2, heq⟩ := Option.map_eq_some_iff.mp heq
      cases heq
      exact hsaid hx h2
    unfold processCommand at h1
    unfold replies commandReplies
    dsimp only at h1 ⊢
    generalize Command.ofName (argv.headD []) = cmd at h1 ⊢
    cases cmd with
    | quit =>
      obtain ⟨s2, h2, heq⟩ := Option.map_eq_some_iff.mp h1
      cases heq
      obtain ⟨s3, h3, heq⟩ := Option.bind_eq_some_iff.mp h2
      cases heq
      dsimp only
      rw [List.flatten_singleton]
      obtain ⟨hdata, hsent⟩ := hsaid (says_call env s (.reply repOk)) h3
      exact ⟨hdata, hsent⟩
    | log => exact hmap (says_processLog env s argv.tail) h1
    | subscribe => exact hmap (says_subscribeNames .topic env s argv.tail) h1
    | psubscribe => exact hmap (says_subscribeNames .pattern env s argv.tail) h1
    | unsubscribe => exact hmap (says_unsubscribeNames .topic env s argv.tail) h1
    | punsubscribe => exact hmap (says_unsubscribeNames .pattern env s argv.tail) h1
    | shutdown =>
      cases h1
      exact ⟨by simp, hflushed⟩
    | ping =>
      dsimp only
      rw [List.flatten_singleton]
      exact hmap (says_call env s (.reply repPong)) h1
    | info =>
      dsimp only
      rw [List.flatten_singleton]
      exact hmap (says_call env s (.replyBulk env.info)) h1
    | select =>
      dsimp only
      rw [List.flatten_singleton]
      exact hmap (says_call env s (.reply repOk)) h1
    | hello =>
      dsimp only
      rw [List.flatten_singleton]
      exact hmap (says_call env s (.replyStatusFormat (ofString "World!"))) h1
    | other =>
      dsimp only
      rw [List.flatten_singleton]
      exact hmap (says_call env s (.replyErrorFormat (otherText (argv.headD [])))) h1

end Session
end Kids
