import Kids.Lib.Run
import Kids.Client.ReplyLemmas

/-!
The soft limit of the reply buffer over the whole life of a client: what `last_soft_limit_` says against the time
for which the buffer has really been at the limit.
-/

namespace Kids

open Bytes

/--
The replies that a call is made of. Each of them appends its parts and then looks at the limits.
-/
def ReplyCall.replies : ReplyCall → List (List Bytes)
  | .reply data => [[data]]
  | .replyBulk data => [[Buffer.vaprintf (headerLine dollar data.length), data, crlf]]
  | .replyStatusFormat w => [[ofString "+", Buffer.vaprintf w, crlf]]
  | .replyErrorFormat w => [[ofString "-ERR ", Buffer.vaprintf w, crlf]]
  | .replyLongLong ll => [[ofString ":" ++ Reply.ll2string ll ++ crlf]]
  | .receiveMessage topic content => [
      [Reply.repMbulk3],
      [Reply.repMessagebulk],
      [Buffer.vaprintf (headerLine dollar topic.length), topic, crlf],
      [Buffer.vaprintf (headerLine dollar content.length), content, crlf]
    ]
  | .receivePatternMessage topic content pattern => [
      [Reply.repMbulk4],
      [Reply.repPmessagebulk],
      [Buffer.vaprintf (headerLine dollar pattern.length), pattern, crlf],
      [Buffer.vaprintf (headerLine dollar topic.length), topic, crlf],
      [Buffer.vaprintf (headerLine dollar content.length), content, crlf]
    ]

theorem ReplyCall.run_eq_foldlM (env : ReplyEnv) (c : Reply) (r : ReplyCall)
    : r.run env c = r.replies.foldlM (Reply.replyParts env) c := by
  have hone (parts : List Bytes) : [parts].foldlM (Reply.replyParts env) c = c.replyParts env parts := by
    simp
  cases r with
  | reply data => exact (hone _).symm
  | replyBulk data => exact (hone _).symm
  | replyStatusFormat w => exact (hone _).symm
  | replyErrorFormat w => exact (hone _).symm
  | replyLongLong ll =>
    unfold ReplyCall.run
    dsimp only
    rw [Reply.replyLongLong_eq]
    exact (hone _).symm
  | receiveMessage topic content =>
    simp [ReplyCall.run, ReplyCall.replies, Reply.receiveMessage, Reply.reply, Reply.replyBulk]
  | receivePatternMessage topic content pattern =>
    simp [ReplyCall.run, ReplyCall.replies, Reply.receivePatternMessage, Reply.reply, Reply.replyBulk]

namespace Reply

-- the limits that apply to the client
def limits (env : ReplyEnv) : LimitConfig :=
  env.nlimit (if env.subscribed then .pubsub else .normal)

theorem limitReached_mono (h : m ≤ n) (hreached : limitReached m limit = true) : limitReached n limit = true := by
  unfold limitReached at hreached ⊢
  rw [decide_eq_true_iff] at hreached ⊢
  constructor
  . apply hreached.1
  . have := hreached.2
    omega

def softReached (env : ReplyEnv) (c : Reply) : Bool :=
  limitReached c.rep.size (limits env).softLimitBytes

def hardReached (env : ReplyEnv) (c : Reply) : Bool :=
  limitReached c.rep.size (limits env).hardLimitBytes

-- the soft limit has been seen before, and longer ago than allowed
def expired (env : ReplyEnv) (c : Reply) : Bool :=
  c.lastSoftLimit ≠ 0 ∧ (limits env).softLimitSeconds < env.unixtime - c.lastSoftLimit

def seenSince (env : ReplyEnv) (c : Reply) : Int :=
  if c.softReached env then
    if c.lastSoftLimit = 0 then env.unixtime else c.lastSoftLimit
  else
    0

theorem checkOutputBufferLimits_spec (env : ReplyEnv) (c : Reply)
    : c.checkOutputBufferLimits env =
        ({ c with lastSoftLimit := c.seenSince env }, c.softReached env && c.expired env || c.hardReached env) := by
  unfold checkOutputBufferLimits seenSince expired
  change (if c.softReached env = true then _ else _) = _
  cases c.softReached env with
  | false => rfl
  | true =>
    rw [if_pos rfl, if_pos rfl]
    by_cases hlast : c.lastSoftLimit = 0
    . rw [if_pos hlast, if_pos hlast]
      simp [hlast, hardReached, limits]
    . rw [if_neg hlast, if_neg hlast]
      simp [hlast, hardReached, limits, Int.lt_iff_le_and_ne]

theorem asyncClose_open (env : ReplyEnv) (c : Reply) (hopen : c.closeAsap = false)
    : c.asyncCloseOnOutputBufferLimitsReached env =
        { c with
            lastSoftLimit := c.seenSince env
            closeAsap := c.softReached env && c.expired env || c.hardReached env
        } := by
  unfold asyncCloseOnOutputBufferLimitsReached
  rw [hopen, checkOutputBufferLimits_spec]
  dsimp only
  split
  . contradiction
  . split
    . next hreached => rw [hreached]
    . next hreached => rw [Bool.eq_false_iff.mpr hreached, hopen]

-- `c1` has the parts in its buffer, and has not looked at the limits yet
structure Grown (c c1 : Reply) (parts : List Bytes) : Prop where
  size_eq : c1.rep.size = c.rep.size + parts.flatten.length
  sentlen_eq : c1.out.sentlen = 0
  lastSoftLimit_eq : c1.lastSoftLimit = c.lastSoftLimit
  closeAsap_eq : c1.closeAsap = c.closeAsap

/--
A client that takes replies: nothing of its buffer is sent yet.
-/
def Accepts (c : Reply) : Prop :=
  c.closeAfterReply = false ∧ 0 < c.fd ∧ c.out.sentlen = 0

theorem replyParts_cases (env : ReplyEnv) (c : Reply) (parts : List Bytes) (h : c.replyParts env parts = some c')
    : c' = c ∨ c.Accepts ∧ ∃ c1, Grown c c1 parts ∧ c' = c1.asyncCloseOnOutputBufferLimitsReached env := by
  unfold replyParts setWriteEvent at h
  split at h
  . cases h
    exact .inl rfl
  . next hopened =>
    split at h
    . cases h
      exact .inl rfl
    . next hwrite =>
      split at hwrite
      . cases hwrite
      . next hfd =>
        split at hwrite
        . cases hwrite
        . next hflushed =>
          cases hwrite
          split at h
          . cases h
          . next rep hrep =>
            cases h
            have hsent : c.out.sentlen = 0 := by omega
            have hsize : rep.size = c.rep.size + parts.flatten.length := by
              unfold Buffer.size
              rw [Buffer.data_appendAll hrep, List.length_append]
              rfl
            refine .inr ⟨⟨by simpa using hopened, by omega, hsent⟩, _, ?_, rfl⟩
            exact ⟨hsize, hsent, rfl, rfl⟩

theorem sendReply_frame (c : Reply) (rs : List WriteResult) (hwf : c.out.Wf) (h : c.sendReply rs = some sent)
    : sent.client.out.Wf ∧ sent.client.rep.size ≤ c.rep.size ∧ sent.client.lastSoftLimit = c.lastSoftLimit ∧
        sent.client.closeAsap = c.closeAsap := by
  unfold sendReply at h
  split at h
  . cases h
  . next out bytes failed hwritten =>
    have hspec := Outgoing.WriteSpec.of_writeAll clearRep data_clearRep c.out 0 rs hwf hwritten
    have hkept : out.Wf ∧ out.buf.size ≤ c.rep.size := ⟨hspec.wf, hspec.size_le⟩
    dsimp only at h
    split at h
    . cases h
      exact ⟨hkept.1, hkept.2, rfl, rfl⟩
    . split at h
      . cases h
        exact ⟨hkept.1, hkept.2, rfl, rfl⟩
      . cases h
        exact ⟨hkept.1, hkept.2, rfl, rfl⟩

end Reply

/--
A client with the clock of its worker.
-/
structure Watched where
  client : Reply
  subscribed : Bool
  unixtime : Int
  freed : Bool

namespace Watched

def init (fd unixtime : Int) : Watched where
  client := .init fd
  subscribed := false
  unixtime := unixtime
  freed := false

inductive Event
  | reply (parts : List Bytes)
  | sendReply (rs : List WriteResult)
  | subscribe (subscribed : Bool)
  | tick (seconds : Nat)
  | closeAfterReply

variable (nlimit : LimitType → LimitConfig)

def env (s : Watched) : ReplyEnv :=
  ⟨nlimit, s.unixtime, s.subscribed⟩

def step (s : Watched) (e : Event) : Option Watched :=
  -- a deleted client has no more events
  if s.freed then
    some s
  else
    match e with
    | .reply parts => (s.client.replyParts (s.env nlimit) parts).map fun client => { s with client := client }
    | .sendReply rs => (s.client.sendReply rs).map fun sent => { s with client := sent.client, freed := sent.freed }
    | .subscribe subscribed => some { s with subscribed := subscribed }
    | .tick seconds => some { s with unixtime := s.unixtime + seconds }
    | .closeAfterReply => some { s with client.closeAfterReply := true }

def Step (s : Watched) (e : Event) (t : Watched) : Prop :=
  s.step nlimit e = some t

def AtLimit (s : Watched) : Prop :=
  s.client.softReached (s.env nlimit) = true

/--
The run of `es` from `start` to `s` has ended with a stretch that began at time `t0`, in which the buffer was at the
limit in every state.
-/
def Since (start : Watched) (es : List Event) (s : Watched) (t0 : Int) : Prop :=
  ∃ es1 es2 u, es = es1 ++ es2 ∧ Run.Reaches (Step nlimit) start es1 u ∧ u.unixtime = t0 ∧ u.AtLimit nlimit ∧
    Run.Reaches (fun s e t => Step nlimit s e t ∧ s.AtLimit nlimit ∧ t.AtLimit nlimit) u es2 s

def Continuous (start : Watched) (es : List Event) (s : Watched) : Prop :=
  ∃ t0, Since nlimit start es s t0 ∧ (Reply.limits (s.env nlimit)).softLimitSeconds < s.unixtime - t0

/--
The step schedules the client for closing, and it does not do so for the hard limit.
-/
structure SoftClosed (s t : Watched) : Prop where
  before : s.client.closeAsap = false
  after : t.client.closeAsap = true
  hard : t.client.hardReached (t.env nlimit) = false

/--
While the soft limit is remembered to be reached, no step lifts the buffer from below the limit back to it.
-/
def Fresh (s : Watched) (e : Event) : Prop :=
  s.freed = false → s.client.closeAsap = false → s.client.lastSoftLimit ≠ 0 → ¬s.AtLimit nlimit →
    match e with
    | .reply parts => s.client.Accepts →
        ¬Reply.limitReached (s.client.rep.size + parts.flatten.length) (Reply.limits (s.env nlimit)).softLimitBytes
    | .subscribe subscribed => ¬AtLimit nlimit { s with subscribed := subscribed }
    | _ => True

variable {nlimit} {start s t : Watched}

theorem Since.extend (h : Since nlimit start es s t0) (hs : s.AtLimit nlimit) (hstep : Step nlimit s e t)
    (ht : t.AtLimit nlimit) : Since nlimit start (es ++ [e]) t t0 := by
  obtain ⟨es1, es2, u, rfl, hstart, hu, hlimit, hstretch⟩ := h
  refine ⟨es1, es2 ++ [e], u, ?_, hstart, hu, hlimit, ?_⟩
  . apply List.append_assoc
  . apply Run.Reaches.snoc hstretch
    exact ⟨hstep, hs, ht⟩

theorem Since.begin (h : Run.Reaches (Step nlimit) start es s) (hs : s.AtLimit nlimit)
    : Since nlimit start es s s.unixtime :=
  ⟨es, [], s, by simp, h, rfl, hs, .nil⟩

/--
What is remembered while the buffer is at the limit is the time at which a stretch began that has not ended yet.
-/
structure Remembers (nlimit : LimitType → LimitConfig) (start : Watched) (es : List Event) (s : Watched) : Prop where
  run : Run.Reaches (Step nlimit) start es s
  wf : s.client.out.Wf
  since : s.client.closeAsap = false → s.client.lastSoftLimit ≠ 0 → s.AtLimit nlimit →
    Since nlimit start es s s.client.lastSoftLimit

theorem remembers_init (fd unixtime : Int) : Remembers nlimit (init fd unixtime) [] (init fd unixtime) where
  run := .nil
  wf := .inl rfl
  since := fun _ hlast _ => absurd rfl hlast

theorem Remembers.keep (h : Remembers nlimit start es s) (hstep : Step nlimit s e t) (hwf : t.client.out.Wf)
    (hasap : t.client.closeAsap = s.client.closeAsap) (hlast : t.client.lastSoftLimit = s.client.lastSoftLimit)
    (hlimit : s.client.closeAsap = false → s.client.lastSoftLimit ≠ 0 → t.AtLimit nlimit → s.AtLimit nlimit)
    : Remembers nlimit start (es ++ [e]) t where
  run := .snoc h.run hstep
  wf := hwf
  since := by
    rw [hasap, hlast]
    intro hopen hne ht
    have hs := hlimit hopen hne ht
    exact (h.since hopen hne hs).extend hs hstep ht

theorem SoftClosed.of_eq (h : SoftClosed nlimit s t) (hasap : t.client.closeAsap = s.client.closeAsap) : False := by
  have hafter := h.after
  rw [hasap, h.before] at hafter
  cases hafter

theorem Remembers.accept (h : Remembers nlimit start es s) (hstep : Step nlimit s (.reply parts) t)
    (hfreed : s.freed = false)
    (hfresh : Fresh nlimit s (.reply parts)) (haccepts : s.client.Accepts) (hgrown : s.client.Grown c1 parts)
    (ht : t = { s with client := c1.asyncCloseOnOutputBufferLimitsReached (s.env nlimit) })
    : Remembers nlimit start (es ++ [.reply parts]) t ∧
        (SoftClosed nlimit s t → Continuous nlimit start (es ++ [.reply parts]) t) := by
  by_cases hasap : c1.closeAsap = true
  . -- the client is scheduled already, so that the limits are not looked at
    have hsame : t = { s with client := c1 } := by
      rw [ht]
      unfold Reply.asyncCloseOnOutputBufferLimitsReached
      rw [if_pos hasap]
    have hclosed : t.client.closeAsap = s.client.closeAsap := by
      rw [hsame]
      apply hgrown.closeAsap_eq
    constructor
    . apply h.keep hstep
      . rw [hsame]
        exact .inl hgrown.sentlen_eq
      . apply hclosed
      . rw [hsame]
        apply hgrown.lastSoftLimit_eq
      . intro hopen
        rw [← hgrown.closeAsap_eq, hasap] at hopen
        cases hopen
    . intro hsoft
      exact absurd hclosed hsoft.of_eq
  . have hopen := Bool.eq_false_iff.mpr hasap
    rw [Reply.asyncClose_open _ _ hopen] at ht
    have hrun := Run.Reaches.snoc h.run hstep
    have hwf : t.client.out.Wf := by
      rw [ht]
      exact .inl hgrown.sentlen_eq
    have hlimit : t.AtLimit nlimit ↔ c1.softReached (s.env nlimit) = true := by rw [ht]; rfl
    have hlast : t.client.lastSoftLimit = c1.seenSince (s.env nlimit) := by rw [ht]
    have hreached : SoftClosed nlimit s t → (c1.softReached (s.env nlimit) && c1.expired (s.env nlimit)) = true := by
      intro hsoft
      have hafter := hsoft.after
      have hhard := hsoft.hard
      rw [ht] at hafter hhard
      have hno : c1.hardReached (s.env nlimit) = false := hhard
      rw [hno, Bool.or_false] at hafter
      exact hafter
    unfold Reply.seenSince at hlast
    cases hsoft : c1.softReached (s.env nlimit) with
    | false =>
      rw [hsoft] at hlast hreached hlimit
      refine ⟨⟨hrun, hwf, ?_⟩, ?_⟩
      . intro _ hne
        exact absurd hlast hne
      . intro hclosed
        cases hreached hclosed
    | true =>
      rw [hsoft] at hlast hreached hlimit
      have hat : t.AtLimit nlimit := hlimit.mpr rfl
      by_cases hzero : c1.lastSoftLimit = 0
      . -- a stretch begins
        rw [if_pos rfl, if_pos hzero] at hlast
        refine ⟨⟨hrun, hwf, ?_⟩, ?_⟩
        . intro _ _ _
          have hnow : t.client.lastSoftLimit = t.unixtime := by
            rw [hlast, ht]
            rfl
          rw [hnow]
          apply Since.begin hrun hat
        . intro hclosed
          have hexpired := hreached hclosed
          unfold Reply.expired at hexpired
          simp [hzero] at hexpired
      . -- the stretch goes on, since this reply has not lifted the buffer to the limit
        rw [if_pos rfl, if_neg hzero, hgrown.lastSoftLimit_eq] at hlast
        have hbefore : s.AtLimit nlimit := by
          by_contra hnot
          apply hfresh hfreed _ _ hnot haccepts
          . rw [← hgrown.size_eq]
            apply hsoft
          . rw [← hgrown.closeAsap_eq]
            apply hopen
          . rw [← hgrown.lastSoftLimit_eq]
            apply hzero
        have hsince : Since nlimit start es s s.client.lastSoftLimit := by
          apply h.since _ _ hbefore
          . rw [← hgrown.closeAsap_eq]
            apply hopen
          . rw [← hgrown.lastSoftLimit_eq]
            apply hzero
        have hlonger := hsince.extend hbefore hstep hat
        refine ⟨⟨hrun, hwf, fun _ _ _ => hlast ▸ hlonger⟩, ?_⟩
        intro hclosed
        have hexpired := hreached hclosed
        unfold Reply.expired at hexpired
        simp only [Bool.true_and, decide_eq_true_iff] at hexpired
        refine ⟨_, hlonger, ?_⟩
        rw [← hgrown.lastSoftLimit_eq, ht]
        apply hexpired.2

theorem Remembers.step (h : Remembers nlimit start es s) (hstep : Step nlimit s e t) (hfresh : Fresh nlimit s e)
    : Remembers nlimit start (es ++ [e]) t ∧ (SoftClosed nlimit s t → Continuous nlimit start (es ++ [e]) t) := by
  -- only a reply looks at the limits
  have hother (hwf : t.client.out.Wf) (hasap : t.client.closeAsap = s.client.closeAsap)
      (hlast : t.client.lastSoftLimit = s.client.lastSoftLimit)
      (hlimit : s.client.closeAsap = false → s.client.lastSoftLimit ≠ 0 → t.AtLimit nlimit → s.AtLimit nlimit)
      : Remembers nlimit start (es ++ [e]) t ∧ (SoftClosed nlimit s t → Continuous nlimit start (es ++ [e]) t) :=
    ⟨h.keep hstep hwf hasap hlast hlimit, fun hsoft => absurd hasap hsoft.of_eq⟩
  have hnext := hstep
  unfold Step Watched.step at hnext
  split at hnext
  . cases hnext
    exact hother h.wf rfl rfl fun _ _ => id
  . next hfreed =>
    have hfreed := Bool.eq_false_iff.mpr hfreed
    cases e with
    | reply parts =>
      obtain ⟨client, hreply, rfl⟩ := Option.map_eq_some_iff.mp hnext
      obtain rfl | ⟨haccepts, c1, hgrown, rfl⟩ := Reply.replyParts_cases _ _ _ hreply
      . exact hother h.wf rfl rfl fun _ _ => id
      . exact h.accept hstep hfreed hfresh haccepts hgrown rfl
    | sendReply rs =>
      obtain ⟨sent, hsend, rfl⟩ := Option.map_eq_some_iff.mp hnext
      obtain ⟨hwf, hsize, hlast, hasap⟩ := Reply.sendReply_frame _ _ h.wf hsend
      exact hother hwf hasap hlast fun _ _ => Reply.limitReached_mono hsize
    | subscribe subscribed =>
      cases hnext
      refine hother h.wf rfl rfl fun hopen hne ht => ?_
      by_contra hnot
      apply hfresh hfreed hopen hne hnot ht
    | tick seconds =>
      cases hnext
      exact hother h.wf rfl rfl fun _ _ => id
    | closeAfterReply =>
      cases hnext
      exact hother h.wf rfl rfl fun _ _ => id

theorem remembers_run {fd unixtime : Int}
    (h : Run.Reaches (fun s e t => Step nlimit s e t ∧ Fresh nlimit s e) (init fd unixtime) es s)
    : Remembers nlimit (init fd unixtime) es s := by
  induction h with
  | nil => apply remembers_init
  | snoc _ hstep ih => exact (ih.step hstep.1 hstep.2).1

/--
A client is scheduled for closing by the soft limit only after a stretch longer than allowed in which its buffer was
at the limit all the time, provided that no step lifts the buffer back to a limit that is remembered to be reached.
-/
theorem softLimit_continuous (nlimit : LimitType → LimitConfig) (fd unixtime : Int)
    (hrun : Run.Reaches (fun s e t => Step nlimit s e t ∧ Fresh nlimit s e) (init fd unixtime) es s)
    (hstep : Step nlimit s e t) (hfresh : Fresh nlimit s e) (hclosed : SoftClosed nlimit s t)
    : Continuous nlimit (init fd unixtime) (es ++ [e]) t :=
  ((remembers_run hrun).step hstep hfresh).2 hclosed

-- a soft limit of two bytes for one second
def twoBytes : LimitType → LimitConfig :=
  fun _ => ⟨0, 2, 1⟩

theorem clientRepBufBytes_lt : clientRepBufBytes < uint32Size := by
  decide

-- the client with these bytes in its buffer
def holding (data : Bytes) (h : data.length ≤ clientRepBufBytes) (lastSoftLimit unixtime : Int) (closeAsap writable : Bool)
    : Watched where
  client := { Reply.init 5 with
    out.buf := ⟨data, clientRepBufBytes, h, clientRepBufBytes_lt⟩
    closeAsap := closeAsap
    lastSoftLimit := lastSoftLimit
    writable := writable
  }
  subscribed := false
  unixtime := unixtime
  freed := false

-- the buffer stays at the limit from second 10 to second 12
theorem softLimit_continuous_stays
    : Continuous twoBytes (init 5 10) ([.reply [[97, 98]]] ++ [.tick 2] ++ [.reply [[99]]])
        (holding [97, 98, 99] (by decide) 10 12 true true) := by
  apply softLimit_continuous twoBytes 5 10 (s := holding [97, 98] (by decide) 10 12 false true)
  . have hfirst : Step twoBytes (init 5 10) (.reply [[97, 98]]) (holding [97, 98] (by decide) 10 10 false true) := rfl
    have htick : Step twoBytes (holding [97, 98] (by decide) 10 10 false true) (.tick 2)
        (holding [97, 98] (by decide) 10 12 false true) := rfl
    apply Run.Reaches.snoc
    . apply Run.Reaches.single
      refine ⟨hfirst, ?_⟩
      intro _ _ hlast
      exact absurd rfl hlast
    . refine ⟨htick, ?_⟩
      intro _ _ _ _
      trivial
  . rfl
  . intro _ _ _ hnot
    exact absurd rfl hnot
  . exact ⟨rfl, rfl, rfl⟩

theorem Since.eq_unixtime (h : Since nlimit start (es ++ [e]) t t0) (hrun : Run.Reaches (Step nlimit) start es s)
    (hs : ¬s.AtLimit nlimit) : t0 = t.unixtime := by
  obtain ⟨es1, es2, u, hsplit, hstart, hu, -, hstretch⟩ := h
  cases hstretch with
  | nil => exact hu.symm
  | snoc hbefore hlast =>
    rw [← List.append_assoc] at hsplit
    obtain ⟨rfl, -⟩ := List.append_inj' hsplit rfl
    have hreached := hstart.trans (hbefore.mono fun _ _ _ h => h.1)
    have hfun : ∀ s l t u, Step nlimit s l t → Step nlimit s l u → t = u :=
      fun _ _ _ _ ht hu => Option.some.inj (ht.symm.trans hu)
    obtain rfl := Run.Reaches.unique hfun hreached hrun
    exact absurd hlast.2.1 hs

-- two bytes are sent at once, and five seconds later two more close the client
theorem softLimit_fails_drained
    : ∃ es e s t, Run.Reaches (Step twoBytes) (init 5 10) es s ∧ Step twoBytes s e t ∧ SoftClosed twoBytes s t ∧
        ¬Continuous twoBytes (init 5 10) (es ++ [e]) t := by
  have hrun : Run.Reaches (Step twoBytes) (init 5 10) ([.reply [[97, 98]]] ++ [.sendReply [.wrote 2]] ++ [.tick 5])
      (holding [] (by decide) 10 15 false false) := by
    have hfirst : Step twoBytes (init 5 10) (.reply [[97, 98]]) (holding [97, 98] (by decide) 10 10 false true) := rfl
    have hsend : Step twoBytes (holding [97, 98] (by decide) 10 10 false true) (.sendReply [.wrote 2])
        (holding [] (by decide) 10 10 false false) := rfl
    have htick : Step twoBytes (holding [] (by decide) 10 10 false false) (.tick 5)
        (holding [] (by decide) 10 15 false false) := rfl
    exact .snoc (.snoc (.single hfirst) hsend) htick
  refine ⟨_, .reply [[99, 100]], _, holding [99, 100] (by decide) 10 15 true true, hrun, rfl, ⟨rfl, rfl, rfl⟩, ?_⟩
  rintro ⟨t0, hsince, hlong⟩
  have hbelow : ¬AtLimit twoBytes (holding [] (by decide) 10 15 false false) := by
    intro hat
    cases hat
  rw [hsince.eq_unixtime hrun hbelow] at hlong
  revert hlong
  decide

end Watched
end Kids
