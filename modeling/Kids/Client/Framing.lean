import Kids.Client.Command
import Kids.Client.ReplyLemmas

/-!
Reply framing. What a command or a protocol error appends to `rep_` is the number of replies that the
client waits for, each of them well formed, unless a line reply carries a line break of the request.
-/

namespace Kids

open Bytes

/--
The well-formed replies.
-/
inductive Resp : Bytes → Prop
  | status (line : Bytes) : cr ∉ line → lf ∉ line → Resp (ofString "+" ++ line ++ crlf)
  | error (line : Bytes) : cr ∉ line → lf ∉ line → Resp (ofString "-" ++ line ++ crlf)
  | integer (n : Int) : Resp (ofString ":" ++ Reply.ll2string n ++ crlf)
  | bulk (data : Bytes) : Resp (bulkEncoding data)
  | multibulk (elems : List Bytes) : (∀ e ∈ elems, Resp e) → Resp (headerLine 42 elems.length ++ elems.flatten)

namespace Resp

theorem line_of_error (h : Resp (ofString "-" ++ b)) : ∃ line, b = line ++ crlf ∧ cr ∉ line ∧ lf ∉ line := by
  generalize hr : ofString "-" ++ b = r at h
  have hhead : r.head? = some 45 := by
    rw [← hr]
    rfl
  cases h with
  | error line hcr hlf =>
    rw [List.append_assoc] at hr
    exact ⟨line, List.append_cancel_left hr, hcr, hlf⟩
  -- the first byte of every other reply is another one
  | status line => exact absurd (Option.some.inj hhead) (by decide : (43 : UInt8) ≠ 45)
  | integer n => exact absurd (Option.some.inj hhead) (by decide : (58 : UInt8) ≠ 45)
  | bulk data => exact absurd (Option.some.inj hhead) (by decide : (36 : UInt8) ≠ 45)
  | multibulk elems => exact absurd (Option.some.inj hhead) (by decide : (42 : UInt8) ≠ 45)

theorem errorReply_iff (w : Bytes)
    : Resp (ofString "-ERR " ++ cstr w ++ crlf) ↔ cr ∉ cstr w ∧ lf ∉ cstr w := by
  have hsplit : ofString "-ERR " ++ cstr w ++ crlf = ofString "-" ++ (ofString "ERR " ++ cstr w ++ crlf) := by
    rw [show ofString "-ERR " = ofString "-" ++ ofString "ERR " from rfl]
    simp only [List.append_assoc]
  rw [hsplit]
  constructor
  . intro h
    obtain ⟨line, heq, hcr, hlf⟩ := line_of_error h
    obtain rfl := List.append_cancel_right heq
    simp only [List.mem_append, not_or] at hcr hlf
    exact ⟨hcr.2, hlf.2⟩
  . rintro ⟨hcr, hlf⟩
    rw [← List.append_assoc]
    apply Resp.error
    . rw [List.mem_append, not_or]
      exact ⟨by decide, hcr⟩
    . rw [List.mem_append, not_or]
      exact ⟨by decide, hlf⟩

end Resp

/--
`count` replies, all of them multi-bulks if `multibulk` is set.
-/
structure Expected where
  count : Nat
  multibulk : Bool

def Expected.Allows (e : Expected) (r : Bytes) : Prop :=
  Resp r ∧ (e.multibulk = true → r.head? = some 42)

def Expected.Framed (e : Expected) (b : Bytes) : Prop :=
  ∃ rs : List Bytes, rs.length = e.count ∧ (∀ r ∈ rs, e.Allows r) ∧ rs.flatten = b

namespace Expected

def one : Expected := ⟨1, false⟩

theorem framed_one_iff (b : Bytes) : one.Framed b ↔ Resp b := by
  constructor
  . rintro ⟨rs, hlen, hall, rfl⟩
    obtain ⟨r, rfl⟩ := List.length_eq_one_iff.mp hlen
    simpa using (hall r (by simp)).1
  . intro h
    refine ⟨[b], rfl, ?_, by simp⟩
    intro r hr
    rw [List.mem_singleton.mp hr]
    exact ⟨h, by simp [one]⟩

end Expected

namespace Session

def expectedOfCommand (sub : Subscriber) (argv : List Bytes) : Expected :=
  let subscribing := if argv.tail = [] then .one else ⟨argv.tail.length, true⟩
  let unsubscribing := fun k =>
    -- without arguments there is one reply for each subscription that is dropped
    if argv.tail = [] then ⟨(sub.names k).length, true⟩ else ⟨argv.tail.length, true⟩
  match Command.ofName (argv.headD []) with
  | .quit | .ping | .info | .log | .select | .hello | .other => .one
  | .subscribe | .psubscribe => subscribing
  | .unsubscribe => unsubscribing .topic
  | .punsubscribe => unsubscribing .pattern
  | .shutdown => ⟨0, false⟩

def expected (sub : Subscriber) : RequestEvent → Expected
  | .command argv => expectedOfCommand sub argv
  | .protocolError _ => .one

def notification (kindbulk name : Bytes) (count : Nat) : Bytes :=
  Reply.repMbulk3 ++ (kindbulk ++ (bulkEncoding name ++ (ReplyCall.replyLongLong count).encoding))

def subscribeReplies (k : SubscriptionKind) (sub : Subscriber) : List Bytes → List Bytes
  | [] => []
  | name :: names =>
    notification k.subscribebulk name (sub.insert k name).count :: subscribeReplies k (sub.insert k name) names

def unsubscribeReplies (k : SubscriptionKind) (sub : Subscriber) : List Bytes → List Bytes
  | [] => []
  | name :: names =>
    notification k.unsubscribebulk name sub.count :: unsubscribeReplies k (sub.erase k name) names

def errorReply (w : Bytes) : Bytes :=
  ofString "-ERR " ++ cstr w ++ crlf

def commandReplies (env : CommandEnv) (sub : Subscriber) (argv : List Bytes) : List Bytes :=
  let args := argv.tail
  let subscribing := fun (k : SubscriptionKind) =>
    if args = [] then [errorReply k.wrongNumber] else subscribeReplies k sub args
  let unsubscribing := fun (k : SubscriptionKind) =>
    unsubscribeReplies k sub (if args = [] then env.order.walk (sub.names k) else args)
  match Command.ofName (argv.headD []) with
  | .quit => [repOk]
  | .ping => [repPong]
  | .info => [bulkEncoding env.info]
  | .log =>
    if args.length ≠ 2 then
      [errorReply (ofString "invalid argments of log")]
    else if env.putMessage then
      [Reply.repCone]
    else
      [errorReply (ofString "Some thing bad happens!")]
  | .subscribe => subscribing .topic
  | .psubscribe => subscribing .pattern
  | .unsubscribe => unsubscribing .topic
  | .punsubscribe => unsubscribing .pattern
  | .shutdown => []
  | .select => [repOk]
  | .hello => [ofString "+" ++ cstr (ofString "World!") ++ crlf]
  | .other => [errorReply (otherText (argv.headD []))]

/--
The replies to an event, one list element each.
-/
def replies (env : CommandEnv) (sub : Subscriber) : RequestEvent → List Bytes
  | .command argv => commandReplies env sub argv
  | .protocolError .invalidMultibulkLength => []
  | .protocolError (.expectedDollar got) => [errorReply (protocolErrorText got)]
  | .protocolError .invalidBulkLength => [errorReply (ofString "Protocol error: invalid bulk length")]

/--
With room for `d`, `x` is a session that has appended `d` to the replies of `s` and has the
subscriptions `sub`.
-/
def Makes (s : Session) (x : Option Session) (d : Bytes) (sub : Subscriber) : Prop :=
  s.reply.Ready d.length → ∃ s', x = some s' ∧ Reply.Appended s.reply s'.reply d ∧ s'.sub = sub

theorem Makes.bind {s : Session} {sub1 : Subscriber} (h1 : Makes s x d sub1)
    (h2 : ∀ s1, s1.sub = sub1 → Makes s1 (f s1) e sub2)
    : Makes s (x >>= f) (d ++ e) sub2 := by
  intro hr
  rw [List.length_append] at hr
  obtain ⟨s1, rfl, happ1, hsub1⟩ := h1 (hr.mono (Nat.le_add_right _ _))
  obtain ⟨s2, hf, happ2, hsub2⟩ := h2 s1 hsub1 (hr.appended happ1 (Nat.le_refl _))
  exact ⟨s2, hf, happ1.trans happ2, hsub2⟩

theorem makes_nil (s : Session) : Makes s (some s) [] s.sub := by
  intro _
  exact ⟨s, rfl, ⟨by simp, rfl, rfl, rfl⟩, rfl⟩

theorem makes_call (env : CommandEnv) (s : Session) (r : ReplyCall) : Makes s (s.call env r) r.encoding s.sub := by
  intro hr
  obtain ⟨reply, hrun, happ⟩ := Reply.run_spec (s.replyEnv env) s.reply r hr
  unfold call
  rw [hrun]
  exact ⟨_, rfl, happ, rfl⟩

theorem makes_notifyClient (env : CommandEnv) (s : Session) (kindbulk name : Bytes)
    : Makes s (s.notifyClient env kindbulk name) (notification kindbulk name s.sub.count) s.sub := by
  unfold notifyClient notification
  apply Makes.bind (makes_call env s _)
  intro s1 h1
  rw [← h1]
  apply Makes.bind (makes_call env s1 _)
  intro s2 h2
  rw [← h2]
  apply Makes.bind (makes_call env s2 _)
  intro s3 h3
  rw [← h3]
  apply makes_call

theorem makes_subscribeEach (k : SubscriptionKind) (env : CommandEnv) (s : Session) (names : List Bytes)
    : Makes s (s.subscribeEach k env names) (subscribeReplies k s.sub names).flatten
        (names.foldl (fun sub name => sub.insert k name) s.sub) := by
  induction names generalizing s with
  | nil => exact makes_nil s
  | cons name names ih =>
    unfold subscribeEach subscribeReplies
    rw [List.flatten_cons]
    apply Makes.bind
    . exact makes_notifyClient env { s with sub := s.sub.insert k name } k.subscribebulk name
    . intro s1 h1
      dsimp only at h1
      rw [List.foldl_cons, ← h1]
      apply ih

theorem makes_unsubscribeName (k : SubscriptionKind) (env : CommandEnv) (s : Session) (name : Bytes)
    : Makes s (s.unsubscribeName k env name) (notification k.unsubscribebulk name s.sub.count)
        (s.sub.erase k name) := by
  intro hr
  obtain ⟨s1, hs1, happ, hsub⟩ := makes_notifyClient env s k.unsubscribebulk name hr
  unfold unsubscribeName
  rw [hs1]
  refine ⟨_, rfl, happ, ?_⟩
  rw [hsub]

theorem makes_unsubscribeEach (k : SubscriptionKind) (env : CommandEnv) (s : Session) (names : List Bytes)
    : Makes s (s.unsubscribeEach k env names) (unsubscribeReplies k s.sub names).flatten
        (names.foldl (fun sub name => sub.erase k name) s.sub) := by
  induction names generalizing s with
  | nil => exact makes_nil s
  | cons name names ih =>
    unfold unsubscribeEach unsubscribeReplies
    rw [List.flatten_cons]
    apply Makes.bind (makes_unsubscribeName k env s name)
    intro s1 h1
    rw [List.foldl_cons, ← h1]
    apply ih

section

variable {env : CommandEnv} {s s' : Session}

theorem call_sub (h : s.call env r = some s') : s'.sub = s.sub := by
  obtain ⟨reply, -, rfl⟩ := Option.map_eq_some_iff.mp h
  rfl

theorem notifyClient_sub (h : s.notifyClient env kindbulk name = some s') : s'.sub = s.sub := by
  unfold notifyClient at h
  obtain ⟨s1, h1, h⟩ := Option.bind_eq_some_iff.mp h
  obtain ⟨s2, h2, h⟩ := Option.bind_eq_some_iff.mp h
  obtain ⟨s3, h3, h⟩ := Option.bind_eq_some_iff.mp h
  rw [call_sub h, call_sub h3, call_sub h2, call_sub h1]

theorem unsubscribeName_sub (h : s.unsubscribeName k env name = some s') : s'.sub = s.sub.erase k name := by
  unfold unsubscribeName at h
  obtain ⟨s1, h1, h⟩ := Option.bind_eq_some_iff.mp h
  cases h
  rw [← notifyClient_sub h1]

end

theorem names_erase (sub : Subscriber) (k : SubscriptionKind) (name : Bytes)
    : (sub.erase k name).names k = (sub.names k).erase name := by
  cases k <;> rfl

theorem unsubscribeAll_eq_visit (k : SubscriptionKind) (env : CommandEnv) (fuel : Nat) (s : Session)
    (hfuel : (s.sub.names k).length = fuel)
    : s.unsubscribeAll k env fuel = s.unsubscribeEach k env (env.order.visit fuel (s.sub.names k)) := by
  induction fuel generalizing s with
  | zero =>
    rw [List.eq_nil_of_length_eq_zero hfuel]
    unfold unsubscribeAll
    rw [List.eq_nil_of_length_eq_zero hfuel]
    rfl
  | succ fuel ih =>
    cases hnames : s.sub.names k with
    | nil =>
      rw [hnames] at hfuel
      cases hfuel
    | cons name names =>
      unfold unsubscribeAll BeginOrder.visit unsubscribeEach
      rw [hnames]
      apply Option.bind_congr
      intro s1 h1
      have hleft : s1.sub.names k = (name :: names).erase (env.order.first name names) := by
        rw [unsubscribeName_sub h1, names_erase, hnames]
      rw [← hleft]
      apply ih
      rw [hnames] at hfuel
      rw [hleft, List.length_erase_of_mem (env.order.mem name names), hfuel]
      rfl

theorem unsubscribeAll_eq (k : SubscriptionKind) (env : CommandEnv) (s : Session)
    : s.unsubscribeAll k env (s.sub.names k).length = s.unsubscribeEach k env (env.order.walk (s.sub.names k)) :=
  unsubscribeAll_eq_visit k env _ s rfl

theorem makes_subscribeNames (k : SubscriptionKind) (env : CommandEnv) (s : Session) (args : List Bytes)
    : ∃ sub, Makes s (s.subscribeNames k env args)
        (if args = [] then [errorReply k.wrongNumber] else subscribeReplies k s.sub args).flatten sub := by
  unfold subscribeNames
  split
  . rw [List.flatten_singleton]
    exact ⟨_, makes_call env s (.replyErrorFormat k.wrongNumber)⟩
  . exact ⟨_, makes_subscribeEach k env s args⟩

theorem makes_unsubscribeNames (k : SubscriptionKind) (env : CommandEnv) (s : Session) (args : List Bytes)
    : ∃ sub, Makes s (s.unsubscribeNames k env args)
        (unsubscribeReplies k s.sub (if args = [] then env.order.walk (s.sub.names k) else args)).flatten sub := by
  unfold unsubscribeNames
  split
  . rw [unsubscribeAll_eq]
    exact ⟨_, makes_unsubscribeEach k env s _⟩
  . exact ⟨_, makes_unsubscribeEach k env s args⟩

theorem makes_processLog (env : CommandEnv) (s : Session) (args : List Bytes)
    : Makes s (s.processLog env args)
        (if args.length ≠ 2 then
          [errorReply (ofString "invalid argments of log")]
        else if env.putMessage then
          [Reply.repCone]
        else
          [errorReply (ofString "Some thing bad happens!")]).flatten s.sub := by
  unfold processLog
  split
  . rw [List.flatten_singleton]
    apply makes_call
  . split
    . rw [List.flatten_singleton]
      apply makes_call
    . rw [List.flatten_singleton]
      apply makes_call

theorem processCommand_spec (env : CommandEnv) (s : Session) (argv : List Bytes)
    (hr : s.reply.Ready (commandReplies env s.sub argv).flatten.length)
    : ∃ r, s.processCommand env argv = some r ∧
        r.1.reply.rep.data = s.reply.rep.data ++ (commandReplies env s.sub argv).flatten := by
  have hmap {x : Option Session} {d : Bytes} {sub : Subscriber} (hmakes : Makes s x d sub) (b : Bool)
      (hr : s.reply.Ready d.length)
      : ∃ r, x.map (., b) = some r ∧ r.1.reply.rep.data = s.reply.rep.data ++ d := by
    obtain ⟨s', rfl, happ, -⟩ := hmakes hr
    exact ⟨_, rfl, happ.data_eq⟩
  unfold commandReplies at hr ⊢
  unfold processCommand
  dsimp only at hr ⊢
  generalize Command.ofName (argv.headD []) = cmd at hr ⊢
  cases cmd with
  | quit =>
    dsimp only at hr ⊢
    rw [List.flatten_singleton] at hr ⊢
    obtain ⟨s', hs', happ, -⟩ := makes_call env s (.reply repOk) hr
    unfold processQuit
    rw [hs']
    exact ⟨_, rfl, happ.data_eq⟩
  | ping | info | select | hello =>
    dsimp only at hr ⊢
    rw [List.flatten_singleton] at hr ⊢
    exact hmap (makes_call env s _) true hr
  | other =>
    dsimp only at hr ⊢
    rw [List.flatten_singleton] at hr ⊢
    exact hmap (makes_call env s (.replyErrorFormat _)) true hr
  | log => exact hmap (makes_processLog env s argv.tail) true hr
  | subscribe =>
    obtain ⟨sub, hmakes⟩ := makes_subscribeNames .topic env s argv.tail
    exact hmap hmakes true hr
  | psubscribe =>
    obtain ⟨sub, hmakes⟩ := makes_subscribeNames .pattern env s argv.tail
    exact hmap hmakes true hr
  | unsubscribe =>
    obtain ⟨sub, hmakes⟩ := makes_unsubscribeNames .topic env s argv.tail
    exact hmap hmakes true hr
  | punsubscribe =>
    obtain ⟨sub, hmakes⟩ := makes_unsubscribeNames .pattern env s argv.tail
    exact hmap hmakes true hr
  | shutdown => exact ⟨_, rfl, by simp⟩

theorem handle_spec (env : CommandEnv) (s : Session) (e : RequestEvent)
    (hr : s.reply.Ready (replies env s.sub e).flatten.length)
    : ∃ s', s.handle env e = some s' ∧
        s'.reply.rep.data = s.reply.rep.data ++ (replies env s.sub e).flatten := by
  cases e with
  | command argv =>
    obtain ⟨r, hcmd, hdata⟩ := processCommand_spec env s argv hr
    unfold handle
    dsimp only
    rw [hcmd]
    exact ⟨r.1, rfl, hdata⟩
  | protocolError err =>
    have hcall {w : Bytes} (hr : s.reply.Ready (errorReply w).length)
        (heq : s.replyProtocolError env err = s.call env (.replyErrorFormat w))
        : ∃ s', s.processProtocolError env err = some s' ∧
            s'.reply.rep.data = s.reply.rep.data ++ errorReply w := by
      obtain ⟨s', hs', happ, -⟩ := makes_call env s (.replyErrorFormat w) hr
      unfold processProtocolError
      rw [heq, hs']
      exact ⟨_, rfl, happ.data_eq⟩
    cases err with
    | invalidMultibulkLength => exact ⟨_, rfl, (List.append_nil _).symm⟩
    | expectedDollar got =>
      unfold replies at hr ⊢
      rw [List.flatten_singleton] at hr ⊢
      exact hcall hr rfl
    | invalidBulkLength =>
      unfold replies at hr ⊢
      rw [List.flatten_singleton] at hr ⊢
      exact hcall hr rfl

theorem resp_of_eq_bulk (data : Bytes) (h : r = bulkEncoding data) : Resp r := by
  rw [h]
  exact .bulk data

theorem resp_subscribebulk (k : SubscriptionKind) : Resp k.subscribebulk := by
  cases k with
  | topic =>
    apply resp_of_eq_bulk (ofString "subscribe")
    simp [SubscriptionKind.subscribebulk, bulkEncoding, headerLine, ofString, decimal, crlf, cr, lf, dollar]
  | pattern =>
    apply resp_of_eq_bulk (ofString "psubscribe")
    simp [SubscriptionKind.subscribebulk, bulkEncoding, headerLine, ofString, decimal, crlf, cr, lf, dollar]

theorem resp_unsubscribebulk (k : SubscriptionKind) : Resp k.unsubscribebulk := by
  cases k with
  | topic =>
    apply resp_of_eq_bulk (ofString "unsubscribe")
    simp [SubscriptionKind.unsubscribebulk, bulkEncoding, headerLine, ofString, decimal, crlf, cr, lf, dollar]
  | pattern =>
    apply resp_of_eq_bulk (ofString "punsubscribe")
    simp [SubscriptionKind.unsubscribebulk, bulkEncoding, headerLine, ofString, decimal, crlf, cr, lf, dollar]

theorem resp_notification (hkind : Resp kindbulk) (name : Bytes) (count : Nat)
    : Resp (notification kindbulk name count) := by
  have hheader : Reply.repMbulk3 = headerLine 42 3 := by
    simp [Reply.repMbulk3, headerLine, ofString, decimal, crlf, cr, lf]
  have helems : notification kindbulk name count =
      headerLine 42 [kindbulk, bulkEncoding name, (ReplyCall.replyLongLong count).encoding].length ++
        [kindbulk, bulkEncoding name, (ReplyCall.replyLongLong count).encoding].flatten := by
    simp [notification, hheader]
  rw [helems]
  apply Resp.multibulk
  intro e he
  simp only [List.mem_cons, List.not_mem_nil, or_false] at he
  rcases he with rfl | rfl | rfl
  . exact hkind
  . exact .bulk name
  . exact .integer count

theorem allows_notification (hkind : Resp kindbulk) (name : Bytes) (count n : Nat) (multibulk : Bool)
    : Expected.Allows ⟨n, multibulk⟩ (notification kindbulk name count) :=
  ⟨resp_notification hkind name count, fun _ => rfl⟩

theorem framed_subscribeReplies (k : SubscriptionKind) (sub : Subscriber) (names : List Bytes)
    : Expected.Framed ⟨names.length, true⟩ (subscribeReplies k sub names).flatten := by
  refine ⟨subscribeReplies k sub names, ?_, ?_, rfl⟩
  . induction names generalizing sub with
    | nil => rfl
    | cons name names ih =>
      unfold subscribeReplies
      rw [List.length_cons, ih]
      rfl
  . generalize names.length = n
    induction names generalizing sub with
    | nil => simp [subscribeReplies]
    | cons name names ih =>
      unfold subscribeReplies
      rw [List.forall_mem_cons]
      refine ⟨?_, ih (sub.insert k name)⟩
      apply allows_notification
      apply resp_subscribebulk

theorem framed_unsubscribeReplies (k : SubscriptionKind) (sub : Subscriber) (names : List Bytes)
    : Expected.Framed ⟨names.length, true⟩ (unsubscribeReplies k sub names).flatten := by
  refine ⟨unsubscribeReplies k sub names, ?_, ?_, rfl⟩
  . induction names generalizing sub with
    | nil => rfl
    | cons name names ih =>
      unfold unsubscribeReplies
      rw [List.length_cons, ih]
      rfl
  . generalize names.length = n
    induction names generalizing sub with
    | nil => simp [unsubscribeReplies]
    | cons name names ih =>
      unfold unsubscribeReplies
      rw [List.forall_mem_cons]
      refine ⟨?_, ih (sub.erase k name)⟩
      apply allows_notification
      apply resp_unsubscribebulk

def NoBreak (b : Bytes) : Prop :=
  cr ∉ b ∧ lf ∉ b

instance (b : Bytes) : Decidable (NoBreak b) :=
  inferInstanceAs (Decidable (cr ∉ b ∧ lf ∉ b))

theorem noBreak_of_strcaseeq (h : strcaseeq name t = true) (ht : NoBreak ((cstr t).map tolower))
    : NoBreak (cstr name) := by
  unfold strcaseeq at h
  rw [beq_iff_eq] at h
  rw [← h] at ht
  constructor
  . intro hcr
    exact ht.1 (List.mem_map.mpr ⟨cr, hcr, rfl⟩)
  . intro hlf
    exact ht.2 (List.mem_map.mpr ⟨lf, hlf, rfl⟩)

theorem noBreak_of_known (h : Command.ofName name ≠ .other) : NoBreak (cstr name) := by
  have htable : ∀ entry ∈ Command.names, NoBreak ((cstr (ofString entry.1)).map tolower) := by
    decide +kernel
  unfold Command.ofName at h
  split at h
  . next entry hentry =>
    have hmem := List.mem_of_find?_eq_some hentry
    have heq := List.find?_some hentry
    exact noBreak_of_strcaseeq heq (htable entry hmem)
  . exact absurd rfl h

theorem cstr_otherText (name : Bytes)
    : ∃ start stop, NoBreak start ∧ NoBreak stop ∧ cstr (otherText name) = start ++ cstr name ++ stop := by
  have hname : nul ∉ cstr name := by
    intro hmem
    have := List.mem_takeWhile_imp hmem
    simp at this
  have hcstr {start stop : Bytes} (hstart : nul ∉ start) (hstop : nul ∉ stop)
      : cstr (start ++ cstr name ++ stop) = start ++ cstr name ++ stop := by
    apply cstr_eq_self
    simp only [List.mem_append, not_or]
    exact ⟨⟨hstart, hname⟩, hstop⟩
  unfold otherText
  split
  . exact ⟨_, _, by decide, by decide, hcstr (by decide) (by decide)⟩
  . exact ⟨_, _, by decide, by decide, hcstr (by decide) (by decide)⟩

theorem noBreak_append_iff : NoBreak (b ++ c) ↔ NoBreak b ∧ NoBreak c := by
  unfold NoBreak
  simp only [List.mem_append, not_or]
  constructor
  . rintro ⟨⟨h1, h2⟩, h3, h4⟩
    exact ⟨⟨h1, h3⟩, h2, h4⟩
  . rintro ⟨⟨h1, h3⟩, h2, h4⟩
    exact ⟨⟨h1, h2⟩, h3, h4⟩

theorem noBreak_otherText_iff (name : Bytes) : NoBreak (cstr (otherText name)) ↔ NoBreak (cstr name) := by
  obtain ⟨start, stop, hstart, hstop, heq⟩ := cstr_otherText name
  rw [heq]
  rw [noBreak_append_iff]
  rw [noBreak_append_iff]
  simp [hstart, hstop]

theorem noBreak_protocolErrorText_iff (got : UInt8) : NoBreak (cstr (protocolErrorText got)) ↔ NoBreak [got] := by
  have hstart : nul ∉ ofString "Protocol error: expected '$', got '" := by decide
  unfold protocolErrorText cstr
  rw [List.append_assoc]
  rw [List.takeWhile_append_of_pos]
  . rw [noBreak_append_iff]
    by_cases hgot : got = nul
    . -- a NUL ends the text, and is no line break
      rw [hgot]
      decide
    . rw [List.singleton_append, List.takeWhile_cons_of_pos (by simpa using hgot)]
      rw [← List.singleton_append, noBreak_append_iff]
      have hends : NoBreak (ofString "Protocol error: expected '$', got '") ∧
          NoBreak (List.takeWhile (fun b => decide (b ≠ nul)) (ofString "'")) := by
        decide
      constructor
      . rintro ⟨-, hbyte, -⟩
        exact hbyte
      . intro hbyte
        exact ⟨hends.1, hbyte, hends.2⟩
  . intro b hb
    simp only [ne_eq, decide_eq_true_eq]
    rintro rfl
    exact hstart hb

/--
The client gets a reply to the event: a command that was read has a name, and an invalid length of the
argument vector is not answered.
-/
def Answered : RequestEvent → Prop
  | .command argv => argv ≠ []
  | .protocolError err => err ≠ .invalidMultibulkLength

def Clean : RequestEvent → Prop
  | .command argv => NoBreak (cstr (argv.headD []))
  | .protocolError (.expectedDollar got) => NoBreak [got]
  | .protocolError _ => True

theorem framed_errorReply_iff (w : Bytes) : Expected.one.Framed (errorReply w) ↔ NoBreak (cstr w) := by
  rw [Expected.framed_one_iff]
  apply Resp.errorReply_iff

theorem framed_commandReplies_of_known (env : CommandEnv) (sub : Subscriber) (argv : List Bytes)
    (h : Command.ofName (argv.headD []) ≠ .other)
    : (expectedOfCommand sub argv).Framed (commandReplies env sub argv).flatten := by
  have herror {w : Bytes} (hw : NoBreak (cstr w)) : Expected.one.Framed [errorReply w].flatten := by
    rw [List.flatten_singleton]
    exact (framed_errorReply_iff w).mpr hw
  have hline {r : Bytes} (hr : Resp r) : Expected.one.Framed [r].flatten := by
    rw [List.flatten_singleton]
    exact (Expected.framed_one_iff r).mpr hr
  have hsubscribe (k : SubscriptionKind) (hk : NoBreak (cstr k.wrongNumber))
      : (if argv.tail = [] then Expected.one else ⟨argv.tail.length, true⟩).Framed
          (if argv.tail = [] then [errorReply k.wrongNumber] else subscribeReplies k sub argv.tail).flatten := by
    split
    . exact herror hk
    . apply framed_subscribeReplies
  have hunsubscribe (k : SubscriptionKind)
      : (if argv.tail = [] then (⟨(sub.names k).length, true⟩ : Expected) else ⟨argv.tail.length, true⟩).Framed
          (unsubscribeReplies k sub (if argv.tail = [] then env.order.walk (sub.names k) else argv.tail)).flatten := by
    split
    . rw [← (env.order.walk_perm (sub.names k)).length_eq]
      apply framed_unsubscribeReplies
    . apply framed_unsubscribeReplies
  have hok : Resp repOk := .status (ofString "OK") (by decide) (by decide)
  unfold expectedOfCommand commandReplies
  dsimp only
  generalize Command.ofName (argv.headD []) = cmd at h ⊢
  cases cmd with
  | quit | select => exact hline hok
  | ping => exact hline (.status (ofString "PONG") (by decide) (by decide))
  | info => exact hline (.bulk env.info)
  | log =>
    dsimp only
    split
    . exact herror (by decide)
    . split
      . apply hline
        have hone : Reply.repCone = ofString ":" ++ Reply.ll2string 1 ++ crlf := by
          simp [Reply.repCone, ofString, Reply.ll2string, decimal, crlf, cr, lf]
        rw [hone]
        exact .integer 1
      . exact herror (by decide)
  | subscribe => exact hsubscribe .topic (by decide)
  | psubscribe => exact hsubscribe .pattern (by decide)
  | unsubscribe => exact hunsubscribe .topic
  | punsubscribe => exact hunsubscribe .pattern
  | shutdown => exact ⟨[], rfl, by simp, rfl⟩
  | hello => exact hline (.status (cstr (ofString "World!")) (by decide) (by decide))
  | other => exact absurd rfl h

theorem framed_replies_iff (env : CommandEnv) (sub : Subscriber) (e : RequestEvent) (he : Answered e)
    : (expected sub e).Framed (replies env sub e).flatten ↔ Clean e := by
  cases e with
  | command argv =>
    unfold expected replies Clean
    dsimp only
    by_cases hknown : Command.ofName (argv.headD []) = .other
    . unfold expectedOfCommand commandReplies
      rw [hknown]
      dsimp only
      rw [List.flatten_singleton]
      rw [framed_errorReply_iff]
      apply noBreak_otherText_iff
    . constructor
      . intro _
        exact noBreak_of_known hknown
      . intro _
        exact framed_commandReplies_of_known env sub argv hknown
  | protocolError err =>
    cases err with
    | invalidMultibulkLength => exact absurd rfl he
    | expectedDollar got =>
      unfold expected replies Clean
      dsimp only
      rw [List.flatten_singleton]
      rw [framed_errorReply_iff]
      apply noBreak_protocolErrorText_iff
    | invalidBulkLength =>
      unfold expected replies Clean
      dsimp only
      rw [List.flatten_singleton]
      rw [framed_errorReply_iff]
      decide

/--
A command or a protocol error that is answered, on a client whose replies are not suppressed and fit
`rep_`, appends the expected number of well-formed replies exactly if no line break comes into a line.
-/
theorem framed_iff_clean (env : CommandEnv) (s : Session) (e : RequestEvent) (he : Answered e)
    (hr : s.reply.Ready (replies env s.sub e).flatten.length)
    : ∃ s' d, s.handle env e = some s' ∧ s'.reply.rep.data = s.reply.rep.data ++ d ∧
        ((expected s.sub e).Framed d ↔ Clean e) := by
  obtain ⟨s', hs', hdata⟩ := handle_spec env s e hr
  exact ⟨s', _, hs', hdata, framed_replies_iff env s.sub e he⟩

theorem framed_iff_clean_ping
    : Answered (.command [ofString "PING"]) ∧
        Reply.Ready (.init 5) (replies ⟨fun _ => ⟨0, 0, 0⟩, 0, true, [], .insertion⟩ ⟨[], []⟩
          (.command [ofString "PING"])).flatten.length ∧
        ∃ s' d, handle ⟨fun _ => ⟨0, 0, 0⟩, 0, true, [], .insertion⟩ ⟨.init 5, ⟨[], []⟩⟩ (.command [ofString "PING"]) = some s' ∧
          s'.reply.rep.data = [] ++ d ∧
          ((expected ⟨[], []⟩ (.command [ofString "PING"])).Framed d ↔ Clean (.command [ofString "PING"])) := by
  have he : Answered (.command [ofString "PING"]) := List.cons_ne_nil _ _
  have hr : Reply.Ready (.init 5) (replies ⟨fun _ => ⟨0, 0, 0⟩, 0, true, [], .insertion⟩ ⟨[], []⟩
      (.command [ofString "PING"])).flatten.length := ⟨rfl, by decide, rfl, by decide⟩
  exact ⟨he, hr, framed_iff_clean ⟨fun _ => ⟨0, 0, 0⟩, 0, true, [], .insertion⟩ ⟨.init 5, ⟨[], []⟩⟩ _ he hr⟩

/--
The name `a\r\nb`, and an argument header that starts with the `\r` of its line.
-/
theorem framed_fails_lineBreak
    : (∃ s' d, handle ⟨fun _ => ⟨0, 0, 0⟩, 0, true, [], .insertion⟩ ⟨.init 5, ⟨[], []⟩⟩ (.command [[97, 13, 10, 98]]) = some s' ∧
          s'.reply.rep.data = [] ++ d ∧ ¬ (expected ⟨[], []⟩ (.command [[97, 13, 10, 98]])).Framed d) ∧
        (∃ s' d, handle ⟨fun _ => ⟨0, 0, 0⟩, 0, true, [], .insertion⟩ ⟨.init 5, ⟨[], []⟩⟩
            (.protocolError (.expectedDollar 13)) = some s' ∧
          s'.reply.rep.data = [] ++ d ∧ ¬ (expected ⟨[], []⟩ (.protocolError (.expectedDollar 13))).Framed d) := by
  have hfails (e : RequestEvent) (he : Answered e) (hclean : ¬ Clean e)
      (hr : Reply.Ready (.init 5) (replies ⟨fun _ => ⟨0, 0, 0⟩, 0, true, [], .insertion⟩ ⟨[], []⟩ e).flatten.length)
      : ∃ s' d, handle ⟨fun _ => ⟨0, 0, 0⟩, 0, true, [], .insertion⟩ ⟨.init 5, ⟨[], []⟩⟩ e = some s' ∧
          s'.reply.rep.data = [] ++ d ∧ ¬ (expected ⟨[], []⟩ e).Framed d := by
    obtain ⟨s', hs', hdata⟩ := handle_spec ⟨fun _ => ⟨0, 0, 0⟩, 0, true, [], .insertion⟩ ⟨.init 5, ⟨[], []⟩⟩ e hr
    refine ⟨s', _, hs', hdata, ?_⟩
    rw [framed_replies_iff _ _ e he]
    exact hclean
  constructor
  . apply hfails
    . exact List.cons_ne_nil _ _
    . unfold Clean
      decide
    . exact ⟨rfl, by decide, rfl, by decide⟩
  . apply hfails
    . intro h
      cases h
    . unfold Clean
      decide
    . exact ⟨rfl, by decide +kernel, rfl, by decide⟩

end Session
end Kids
