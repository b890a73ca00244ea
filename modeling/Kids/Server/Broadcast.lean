import Kids.Server.ThreadLemmas
import Kids.Server.Transition

/-!
The server as a broadcast: every worker publishes the messages of the queue in the order in which they were
pushed, and a client is told those that it has subscribed to.
-/

namespace Kids

/--
A client's subscription to a topic or to a pattern.
-/
inductive Subscription
  | topic (c : ClientId) (name : Bytes)
  | pattern (c : ClientId) (name : Bytes)

namespace Subscription

def client : Subscription → ClientId
  | topic c _ => c
  | pattern c _ => c

def delivery : Subscription → Delivery
  | topic c _ => .message c
  | pattern c name => .patternMessage c name

def covers (stringMatch : Bytes → Bytes → Bool) : Subscription → Message → Bool
  | topic _ name, m => m.topic.data = name
  | pattern _ name, m => stringMatch name m.topic.data

def Held (w : Worker) : Subscription → Prop
  | topic c name => name ∈ w.subTopics c
  | pattern c name => name ∈ w.subPatterns c

instance (w : Worker) (σ : Subscription) : Decidable (σ.Held w) :=
  match σ with
  | topic c name => inferInstanceAs (Decidable (name ∈ w.subTopics c))
  | pattern c name => inferInstanceAs (Decidable (name ∈ w.subPatterns c))

theorem client_delivery (σ : Subscription) : σ.delivery.client = σ.client := by
  cases σ <;> rfl

-- of the messages that it covers, a subscription gets one copy each
theorem count_deliveries {w w' : Worker} {m : Message} (σ : Subscription) (hsound : w.Sound)
    (hpublish : w.publishMessage stringMatch m.topic.data limitReached = some (w', deliveries))
    (hcovers : σ.covers stringMatch m = true)
    : deliveries.count σ.delivery = if σ.Held w then 1 else 0 := by
  obtain ⟨w1, deliveries1, heq, -, hmessage, hpattern⟩ := hsound.publishMessage stringMatch m.topic.data limitReached
  rw [hpublish] at heq
  cases heq
  cases σ with
  | topic c name =>
    have htopic : m.topic.data = name := by simpa [covers] using hcovers
    exact htopic ▸ hmessage c
  | pattern c name =>
    have hmatch : stringMatch name m.topic.data = true := hcovers
    have hcount := hpattern c name
    simp only [hmatch, and_true] at hcount
    exact hcount

end Subscription

namespace Server

variable {W : Nat} {s s' : Server W}

theorem mqNext_results {q q' : MessageQueue W} (h : q.mqNext i = some (q', r))
    : q'.results = Function.update q.results i (q.results i ++ r.toList) ∧ q'.pushed = q.pushed := by
  unfold MessageQueue.mqNext at h
  split at h
  . cases h
  . split at h
    . cases h
      refine ⟨?_, rfl⟩
      simp
    . split at h
      . cases h
      . cases h
        exact ⟨rfl, rfl⟩

theorem nextMessage_cases {notify notify' : Notify W} (hnext : notify.queue.mqNext c = some (q, r))
    (h : notify.nextMessage c = some notify')
    : notify'.queue = q ∧ notify'.sender = notify.sender ∧ notify'.refused = notify.refused := by
  unfold Notify.nextMessage at h
  rw [hnext] at h
  split at h
  . cases h
  . cases h
    exact ⟨rfl, rfl, rfl⟩

theorem thread_setThread_self (s : Server W) (w : Fin W) (t : Thread) : (s.setThread w t).thread w = t :=
  Function.update_self ..

theorem thread_setThread_of_ne (s : Server W) (t : Thread) (h : v ≠ w) : (s.setThread w t).thread v = s.thread v :=
  Function.update_of_ne h ..

theorem Transition.notify (h : Transition queueLimit stringMatch s l s')
    : s'.notify = s.notify ∨ ∃ l, s.notify.Step queueLimit l s'.notify := by
  cases h with
  | getNewConnection => exact .inl rfl
  | readRequest => exact .inl rfl
  | round => exact .inl rfl
  | refused w env c m t htask hlogged hsender hfull ht =>
    refine .inr ⟨.putMessage w m, trivial, ?_⟩
    simp only [Notify.step, Notify.putMessage, hsender]
    rw [if_pos hfull]
    rfl
  | accepted w env c m htask hlogged hsender hroom =>
    refine .inr ⟨.putMessage w m, trivial, ?_⟩
    simp only [Notify.step, Notify.putMessage, hsender]
    rw [if_neg (Nat.not_le_of_lt hroom)]
    rfl
  | returned => exact .inl rfl
  | push w a m notify hsender hfresh hn => exact .inr ⟨.push w a, hfresh, hn⟩
  | sendReply => exact .inl rfl
  | cron w t hw hsender ht =>
    refine .inr ⟨.cron w, trivial, ?_⟩
    simp only [Notify.step, Notify.cron, hsender]
    rfl
  | publish w env q m notify t hnext hn ht => exact .inr ⟨.nextMessage w.castSucc, trivial, hn⟩
  | wrongNotice w env q notify hnext hn => exact .inr ⟨.nextMessage w.castSucc, trivial, hn⟩
  | quiet l notify hquiet => exact .inr hquiet.step

theorem Transition.thread (h : Transition queueLimit stringMatch s l s') (v : Fin W)
    : ((s.thread v).Keeps (s'.thread v) ∧
          s'.notify.queue.results v.castSucc = s.notify.queue.results v.castSucc) ∨
        ∃ env m, (s.thread v).publishMessage stringMatch env m = some (s'.thread v) ∧
          s'.notify.queue.results v.castSucc = s.notify.queue.results v.castSucc ++ [m] := by
  have hset {notify : Notify W} {w : Fin W} {t : Thread} (hkeeps : (s.thread w).Keeps t)
      : (s.thread v).Keeps (({ s with notify := notify }.setThread w t).thread v) := by
    by_cases hv : v = w
    . subst hv
      rwa [thread_setThread_self]
    . rw [thread_setThread_of_ne _ _ hv]
      exact .refl _
  cases h with
  | getNewConnection w c fd hw hfresh => exact .inl ⟨hset (.getNewConnection hfresh fd), rfl⟩
  | readRequest w c r t hw hlive ht => exact .inl ⟨hset (.readRequest hlive ht), rfl⟩
  | round w env c t htask hlogged ht => exact .inl ⟨hset (.processRound ht), rfl⟩
  | refused w env c m t htask hlogged hsender hfull ht =>
    exact .inl ⟨hset ((Thread.Keeps.countIn _ m).trans (.processRound ht) rfl), rfl⟩
  | accepted w env c m htask hlogged hsender hroom =>
    obtain ⟨hsound, hpublished, hout, htold⟩ := Thread.Keeps.countIn (s.thread w) m
    exact .inl ⟨hset ⟨hsound, hpublished, hout, htold⟩, rfl⟩
  | returned w env c t htask hsender ht => exact .inl ⟨hset (.processRound ht), rfl⟩
  | push w a m notify hsender hfresh hn =>
    refine .inl ⟨.refl _, ?_⟩
    unfold Notify.push at hn
    rw [hsender] at hn
    dsimp only at hn
    split at hn
    . cases hn
    . next q hq =>
      cases hn
      exact congrFun (MessageQueue.mqPush_frame hq).2.1 v.castSucc
  | sendReply w c rs t hw hlive hwritable ht => exact .inl ⟨hset (.sendReply hlive ht), rfl⟩
  | cron w t hw hsender ht => exact .inl ⟨hset (.freeClientsInAsyncFreeQueue ht), rfl⟩
  | publish w env q m notify t hnext hn ht =>
    obtain ⟨hqueue, -⟩ := nextMessage_cases hnext hn
    have hresults : notify.queue.results = _ := hqueue ▸ (mqNext_results hnext).1
    by_cases hv : v = w
    . subst hv
      refine .inr ⟨env, m, ?_, ?_⟩
      . rwa [thread_setThread_self]
      . change notify.queue.results v.castSucc = _
        rw [hresults, Function.update_self]
        rfl
    . refine .inl ⟨?_, ?_⟩
      . rw [thread_setThread_of_ne _ _ hv]
        exact .refl _
      . change notify.queue.results v.castSucc = _
        rw [hresults, Function.update_of_ne (fun heq => hv (Fin.castSucc_injective W heq))]
  | wrongNotice w env q notify hnext hn =>
    obtain ⟨hqueue, -⟩ := nextMessage_cases hnext hn
    refine .inl ⟨.refl _, ?_⟩
    change notify.queue.results v.castSucc = _
    rw [hqueue, (mqNext_results hnext).1, Option.toList_none, List.append_nil, Function.update_eq_self]
  | quiet l notify hquiet => exact .inl ⟨.refl _, hquiet.results_eq v⟩

theorem Transition.log (h : Transition queueLimit stringMatch s l s')
    : (s'.notify.queue.pushed = s.notify.queue.pushed ∧ s'.log = s.log) ∨
        ∃ w m, s.notify.sender w = .pushing m ∧ s'.notify.queue.pushed = s.notify.queue.pushed ++ [m] ∧
          s'.log = s.log ++ [(w, m)] := by
  cases h with
  | push w a m notify hsender hfresh hn =>
    refine .inr ⟨w, m, hsender, ?_, rfl⟩
    unfold Notify.push at hn
    rw [hsender] at hn
    dsimp only at hn
    split at hn
    . cases hn
    . next q hq =>
      cases hn
      exact (MessageQueue.mqPush_frame hq).2.2
  | publish w env q m notify t hnext hn ht =>
    refine .inl ⟨?_, rfl⟩
    change notify.queue.pushed = _
    rw [(nextMessage_cases hnext hn).1, (mqNext_results hnext).2]
  | wrongNotice w env q notify hnext hn =>
    refine .inl ⟨?_, rfl⟩
    change notify.queue.pushed = _
    rw [(nextMessage_cases hnext hn).1, (mqNext_results hnext).2]
  | quiet l notify hquiet => exact .inl ⟨hquiet.pushed_eq, rfl⟩
  | _ => exact .inl ⟨rfl, rfl⟩

/--
The queue and the notices are in a state of their own system, and every worker has published what it has read.
-/
structure Inv (queueLimit : Nat) (a : Addr) (s : Server W) : Prop where
  reaches : ∃ ls, Run.Reaches (Notify.Step queueLimit) (.init a) ls s.notify
  sound : ∀ w, (s.thread w).tables.Sound
  published_eq : ∀ w, (s.thread w).published.map Prod.fst = s.notify.queue.results w.castSucc
  log_eq : s.log.map Prod.snd = s.notify.queue.pushed

namespace Inv

theorem init (a : Addr) : Inv queueLimit a (Server.init a : Server W) where
  reaches := ⟨[], .nil⟩
  sound _ := Worker.Sound.init
  published_eq _ := rfl
  log_eq := rfl

theorem balanced (h : Inv queueLimit a s) : Notify.Balanced a s.notify := by
  obtain ⟨ls, hreach⟩ := h.reaches
  exact .of_reaches hreach

theorem step (h : Inv queueLimit a s) (hstep : Step queueLimit stringMatch s l s') : Inv queueLimit a s' := by
  have htransition := hstep.transition
  refine ⟨?_, ?_, ?_, ?_⟩
  . obtain ⟨ls, hreach⟩ := h.reaches
    obtain heq | ⟨l, hl⟩ := htransition.notify
    . rw [heq]
      exact ⟨ls, hreach⟩
    . exact ⟨_, hreach.snoc hl⟩
  . intro w
    obtain ⟨hkeeps, -⟩ | ⟨env, m, hpublish, -⟩ := htransition.thread w
    . exact hkeeps.sound (h.sound w)
    . obtain ⟨tables, deliveries, -, hdeliver⟩ := Thread.publishMessage_cases hpublish
      exact (Thread.deliverAll_publishes hdeliver).sound (h.sound w)
  . intro w
    obtain ⟨hkeeps, hresults⟩ | ⟨env, m, hpublish, hresults⟩ := htransition.thread w
    . rw [hkeeps.published_eq, hresults, h.published_eq]
    . obtain ⟨tables, deliveries, -, hdeliver⟩ := Thread.publishMessage_cases hpublish
      rw [(Thread.deliverAll_publishes hdeliver).published_eq, hresults, ← h.published_eq]
      simp only [List.map_append, List.map_cons, List.map_nil]
  . obtain ⟨hpushed, hlog⟩ | ⟨w, m, -, hpushed, hlog⟩ := htransition.log
    . rw [hlog, hpushed, h.log_eq]
    . rw [hlog, hpushed, ← h.log_eq, List.map_append]
      rfl

theorem of_reaches (h : Run.Reaches (Step queueLimit stringMatch) (Server.init a : Server W) ls s)
    : Inv queueLimit a s :=
  h.invariant (Inv queueLimit a) (init a) fun _ _ _ => step

theorem published_isPrefix (h : Inv queueLimit a s) (w : Fin W)
    : (s.thread w).published.map Prod.fst <+: s.log.map Prod.snd := by
  rw [h.published_eq, h.log_eq]
  exact h.balanced.results_isPrefix w.castSucc

end Inv

/--
No `PutMessage` is running, and the worker has read every notice and the messages that they are about.
-/
structure Settled (s : Server W) (w : Fin W) : Prop where
  returned : ∀ v, (s.notify.sender v).inPutMessage = false
  read : ∀ v, s.notify.channel w.castSucc v = ⟨0, 0⟩
  handled : s.handlerIdle w = true

deriving instance DecidableEq for Channel

instance (s : Server W) (w : Fin W) : Decidable (s.Settled w) :=
  decidable_of_iff ((∀ v, (s.notify.sender v).inPutMessage = false) ∧
      (∀ v, s.notify.channel w.castSucc v = ⟨0, 0⟩) ∧ s.handlerIdle w = true)
    ⟨fun h => ⟨h.1, h.2.1, h.2.2⟩, fun h => ⟨h.returned, h.read, h.handled⟩⟩

theorem handlerIdle_iff (s : Server W) (w : Fin W)
    : s.handlerIdle w = true ↔ s.notify.handler w.castSucc = .idle := by
  unfold handlerIdle
  split
  . next h => simp [h]
  . next h => simp [h]

theorem Inv.published_of_settled (h : Inv queueLimit a s) (hw : s.Settled w)
    : (s.thread w).published.map Prod.fst = s.log.map Prod.snd := by
  have hread := h.balanced.bytesRead_eq hw.returned hw.read
  have hresults := h.balanced.read_eq w.castSucc
  rw [(s.handlerIdle_iff w).mp hw.handled] at hresults
  simp only [Handler.count, Nat.add_zero] at hresults
  rw [h.published_eq, h.log_eq]
  exact (h.balanced.results_isPrefix w.castSucc).eq_of_length (by omega)

/--
In every state of the server: each worker has published a beginning of what was pushed, in that order, so
that two workers agree on what both have published; a worker that has read a notice gets a message; and a
worker for which no notice is left has published everything.
-/
theorem total_order (h : Run.Reaches (Step queueLimit stringMatch) (init a : Server W) ls s)
    : (∀ w, (s.thread w).published.map Prod.fst <+: s.log.map Prod.snd) ∧
      (∀ v w, (s.thread v).published.map Prod.fst <+: (s.thread w).published.map Prod.fst ∨
        (s.thread w).published.map Prod.fst <+: (s.thread v).published.map Prod.fst) ∧
      (∀ w, s.handlerIdle w = false → ∃ q m, s.notify.queue.mqNext w.castSucc = some (q, some m)) ∧
      ∀ w, s.Settled w → (s.thread w).published.map Prod.fst = s.log.map Prod.snd := by
  have hinv := Inv.of_reaches h
  refine ⟨hinv.published_isPrefix, ?_, ?_, fun w => hinv.published_of_settled⟩
  . intro v w
    exact List.prefix_or_prefix_of_prefix (hinv.published_isPrefix v) (hinv.published_isPrefix w)
  . intro w hw
    unfold handlerIdle at hw
    split at hw
    . cases hw
    . next hhandler =>
      obtain ⟨q, m, hnext, -⟩ := hinv.balanced.mqNext hhandler
      exact ⟨q, m, hnext⟩

theorem total_order_published
    : ∃ s : Server 1, Run.Reaches (Step 10 fun _ _ => true) (init 0) (subscribing ++ publishing) s ∧
        s.Settled 0 ∧ (s.thread 0).published.map Prod.fst = s.log.map Prod.snd ∧ s.log = [(0, .ofBytes 97 98)] := by
  obtain ⟨s, hreach, hsettled, hlog⟩ := Run.Reaches.exists_of_any (legalStep 10 fun _ _ => true) (init 0)
    (subscribing ++ publishing) (fun s => s.Settled 0 ∧ s.log = [(0, .ofBytes 97 98)])
    (fun _ _ _ => step_of_legalStep) (by decide +kernel)
  obtain ⟨-, -, -, hall⟩ := total_order hreach
  exact ⟨s, hreach, hsettled, hall 0 hsettled, hlog⟩

theorem Inv.told_step (h : Inv queueLimit a s) (hstep : Step queueLimit stringMatch s l s') (w : Fin W)
    (σ : Subscription) (hlive : (s.thread w).tables.heap σ.client ≠ none)
    : ∃ new, (s'.thread w).published.map Prod.fst = (s.thread w).published.map Prod.fst ++ new ∧
        (((s'.thread w).endpoint σ.client).told σ.delivery).filter (σ.covers stringMatch) =
          (((s.thread w).endpoint σ.client).told σ.delivery).filter (σ.covers stringMatch) ++
            if σ.Held (s.thread w).tables then new.filter (σ.covers stringMatch) else [] := by
  rw [← σ.client_delivery] at hlive ⊢
  obtain ⟨hkeeps, -⟩ | ⟨env, m, hpublish, -⟩ := hstep.transition.thread w
  . refine ⟨[], ?_, ?_⟩
    . rw [hkeeps.published_eq, List.append_nil]
    . rw [hkeeps.told_eq σ.delivery hlive, List.filter_nil, ite_self, List.append_nil]
  . obtain ⟨tables, deliveries, hdeliveries, hdeliver⟩ := Thread.publishMessage_cases hpublish
    have hpublishes := Thread.deliverAll_publishes hdeliver
    refine ⟨[m], ?_, ?_⟩
    . rw [hpublishes.published_eq, List.map_append]
      rfl
    . rw [hpublishes.told_eq, List.filter_append, List.filter_replicate]
      congr 1
      by_cases hcovers : σ.covers stringMatch m = true
      . rw [if_pos hcovers, σ.count_deliveries (h.sound w) hdeliveries hcovers, List.filter_cons_of_pos hcovers]
        by_cases hheld : σ.Held (s.thread w).tables
        . rw [if_pos hheld, if_pos hheld]
          rfl
        . rw [if_neg hheld, if_neg hheld]
          rfl
      . rw [if_neg hcovers, List.filter_cons_of_neg hcovers, List.filter_nil, ite_self]

/--
While a client has a subscription, it is told exactly what its worker publishes and the subscription covers,
once each and in order: from then on all that is pushed, when no notice is left. While the connected client
does not have it, it is told nothing of this.
-/
theorem told_within (hs : Run.Reaches (Step queueLimit stringMatch) (init a : Server W) ks s) (w : Fin W)
    (σ : Subscription) (held : Bool)
    (h : Run.Reaches (Run.Within (Step queueLimit stringMatch) fun s =>
      (s.thread w).tables.heap σ.client ≠ none ∧ (σ.Held (s.thread w).tables ↔ held = true)) s ls s')
    : ∃ new, (s'.thread w).published.map Prod.fst = (s.thread w).published.map Prod.fst ++ new ∧
        (((s'.thread w).endpoint σ.client).told σ.delivery).filter (σ.covers stringMatch) =
          (((s.thread w).endpoint σ.client).told σ.delivery).filter (σ.covers stringMatch) ++
            (if held then new.filter (σ.covers stringMatch) else []) ∧
        (s'.Settled w → new = (s'.log.map Prod.snd).drop (s.thread w).published.length) := by
  have hnew (s' : Server W) (hs' : Inv queueLimit a s') (new : List Message)
      (hpublished : (s'.thread w).published.map Prod.fst = (s.thread w).published.map Prod.fst ++ new)
      (hsettled : s'.Settled w) : new = (s'.log.map Prod.snd).drop (s.thread w).published.length := by
    rw [← hs'.published_of_settled hsettled, hpublished, List.drop_left' (List.length_map _)]
  have hrun : ∃ new, (s'.thread w).published.map Prod.fst = (s.thread w).published.map Prod.fst ++ new ∧
      (((s'.thread w).endpoint σ.client).told σ.delivery).filter (σ.covers stringMatch) =
        (((s.thread w).endpoint σ.client).told σ.delivery).filter (σ.covers stringMatch) ++
          (if held then new.filter (σ.covers stringMatch) else []) := by
    induction h with
    | nil => exact ⟨[], by simp, by simp⟩
    | @snoc ls t u l hreach hstep ih =>
      obtain ⟨new, hpublished, htold⟩ := ih
      obtain ⟨hstep, ⟨hlive, hheld⟩, -⟩ := hstep
      have hinv := Inv.of_reaches (hs.trans hreach.of_within)
      obtain ⟨new', hpublished', htold'⟩ := hinv.told_step hstep w σ hlive
      refine ⟨new ++ new', ?_, ?_⟩
      . rw [hpublished', hpublished, List.append_assoc]
      . rw [htold', htold, List.append_assoc]
        congr 1
        cases held with
        | true => rw [if_pos (hheld.mpr rfl), if_pos rfl, if_pos rfl, List.filter_append]
        | false => rw [if_neg (fun hh => Bool.false_ne_true (hheld.mp hh)), if_neg Bool.false_ne_true,
            if_neg Bool.false_ne_true, List.append_nil]
  obtain ⟨new, hpublished, htold⟩ := hrun
  exact ⟨new, hpublished, htold, hnew s' (.of_reaches (hs.trans h.of_within)) new hpublished⟩

theorem told_within_published
    : ∃ s s' : Server 1, Run.Reaches (Step 10 fun _ _ => true) (init 0) subscribing s ∧
        Run.Reaches (Run.Within (Step 10 fun _ _ => true) fun s => (s.thread 0).tables.heap 1 ≠ none ∧
          ((Subscription.topic 1 [97]).Held (s.thread 0).tables ↔ true = true)) s publishing s' ∧
        (((s'.thread 0).endpoint 1).told (.message 1)).filter ((Subscription.topic 1 [97]).covers fun _ _ => true) =
          [.ofBytes 97 98] := by
  obtain ⟨s, hs, htold, hrun⟩ := Run.Reaches.exists_of_any (legalStep 10 fun _ _ => true) (init 0) subscribing
    (fun s => (((s.thread 0).endpoint 1).told (.message 1) = [] ∧ (s.thread 0).published.length = 0) ∧
      (publishing.foldlM (Run.stepWithin (legalStep 10 fun _ _ => true) fun s => (s.thread 0).tables.heap 1 ≠ none ∧
        ((Subscription.topic 1 [97]).Held (s.thread 0).tables ↔ true = true)) s).any fun t =>
          decide (t.Settled 0 ∧ t.log = [(0, .ofBytes 97 98)]))
    (fun _ _ _ => step_of_legalStep) (by decide +kernel)
  obtain ⟨s', hs', hsettled, hlog⟩ := Run.Reaches.exists_of_any _ s publishing (fun t : Server 1 =>
    t.Settled 0 ∧ t.log = [(0, .ofBytes 97 98)])
    (fun _ _ _ => Run.within_of_stepWithin fun _ _ _ => step_of_legalStep) hrun
  obtain ⟨new, -, hnew, hall⟩ := told_within hs 0 (.topic 1 [97]) true hs'
  refine ⟨s, s', hs, hs', ?_⟩
  rw [hall hsettled, htold.2, hlog] at hnew
  refine hnew.trans ?_
  rw [show (Subscription.topic 1 [97]).delivery = .message 1 from rfl] at hnew ⊢
  rw [show (Subscription.topic 1 [97]).client = 1 from rfl, htold.1]
  decide

end Server
end Kids
