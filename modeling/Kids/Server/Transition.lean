import Kids.Notify.Protocol
import Kids.Server.Basic

/-!
What a step of the server can be. The invariants of the server are proved by cases on it.
-/

namespace Kids
namespace Server

variable {W : Nat}

/--
A step of the queue and the notices that no worker sees in its own state.
-/
structure Quiet (queueLimit : Nat) (notify notify' : Notify W) : Prop where
  step : ∃ l, notify.Step queueLimit l notify'
  pushed_eq : notify'.queue.pushed = notify.queue.pushed
  results_eq : ∀ w : Fin W, notify'.queue.results w.castSucc = notify.queue.results w.castSucc
  refused_eq : notify'.refused = notify.refused
  pushing_iff : ∀ w m, notify'.sender w = .pushing m ↔ notify.sender w = .pushing m
  inPutMessage : ∀ w, (notify'.sender w).inPutMessage = true → (notify.sender w).inPutMessage = true

inductive Transition (queueLimit : Nat) (stringMatch : Bytes → Bytes → Bool) (s : Server W)
    : Label W → Server W → Prop
  | getNewConnection (w : Fin W) (c : ClientId) (fd : Int) (hw : s.Waiting w)
      (hfresh : (s.thread w).tables.heap c = none)
      : Transition queueLimit stringMatch s (.getNewConnection w c fd)
          (s.setThread w ((s.thread w).getNewConnection c fd))
  | readRequest (w : Fin W) (c : ClientId) (r : ReadResult) (t : Thread) (hw : s.Waiting w)
      (hlive : (s.thread w).tables.heap c ≠ none) (ht : (s.thread w).readRequest c r = some t)
      : Transition queueLimit stringMatch s (.readRequest w c r) (s.setThread w t)
  | round (w : Fin W) (env : CommandEnv) (c : ClientId) (t : Thread) (htask : (s.thread w).task = .processing c)
      (hlogged : (((s.thread w).client c).bind Client.nextEvent).bind RequestEvent.logged = none)
      (ht : (s.thread w).processRound env c = some t)
      : Transition queueLimit stringMatch s (.processRound w env) (s.setThread w t)
  | refused (w : Fin W) (env : CommandEnv) (c : ClientId) (m : Message) (t : Thread)
      (htask : (s.thread w).task = .processing c)
      (hlogged : (((s.thread w).client c).bind Client.nextEvent).bind RequestEvent.logged = some m)
      (hsender : s.notify.sender w = .idle) (hfull : queueLimit ≤ s.notify.queue.size)
      (ht : ((s.thread w).countIn m).processRound { env with putMessage := false } c = some t)
      : Transition queueLimit stringMatch s (.processRound w env)
          ({ s with notify := s.notify.refuse }.setThread w t)
  | accepted (w : Fin W) (env : CommandEnv) (c : ClientId) (m : Message) (htask : (s.thread w).task = .processing c)
      (hlogged : (((s.thread w).client c).bind Client.nextEvent).bind RequestEvent.logged = some m)
      (hsender : s.notify.sender w = .idle) (hroom : s.notify.queue.size < queueLimit)
      : Transition queueLimit stringMatch s (.processRound w env)
          ({ s with notify := s.notify.setSender w (.pushing m) }.setThread w
            { (s.thread w).countIn m with task := .logging c })
  | returned (w : Fin W) (env : CommandEnv) (c : ClientId) (t : Thread) (htask : (s.thread w).task = .logging c)
      (hsender : s.notify.sender w = .idle)
      (ht : (s.thread w).processRound { env with putMessage := true } c = some t)
      : Transition queueLimit stringMatch s (.processRound w env) (s.setThread w t)
  | push (w : Fin W) (a : Addr) (m : Message) (notify : Notify W) (hsender : s.notify.sender w = .pushing m)
      (hfresh : s.notify.queue.heap a = none) (hn : s.notify.push w a = some notify)
      : Transition queueLimit stringMatch s (.push w a) { s with notify := notify, log := s.log ++ [(w, m)] }
  | sendReply (w : Fin W) (c : ClientId) (rs : List WriteResult) (t : Thread) (hw : s.Waiting w)
      (hlive : (s.thread w).tables.heap c ≠ none) (hwritable : ((s.thread w).endpoint c).reply.writable = true)
      (ht : (s.thread w).sendReply c rs = some t)
      : Transition queueLimit stringMatch s (.sendReply w c rs) (s.setThread w t)
  | cron (w : Fin W) (t : Thread) (hw : s.Waiting w) (hsender : s.notify.sender w = .idle)
      (ht : (s.thread w).freeClientsInAsyncFreeQueue = some t)
      : Transition queueLimit stringMatch s (.cron w)
          ({ s with notify := s.notify.setSender w (.notifying 0 false) }.setThread w t)
  | publish (w : Fin W) (env : CommandEnv) (q : MessageQueue W) (m : Message) (notify : Notify W) (t : Thread)
      (hnext : s.notify.queue.mqNext w.castSucc = some (q, some m))
      (hn : s.notify.nextMessage w.castSucc = some notify)
      (ht : (s.thread w).publishMessage stringMatch env m = some t)
      : Transition queueLimit stringMatch s (.publishMessage w env) ({ s with notify := notify }.setThread w t)
  | wrongNotice (w : Fin W) (env : CommandEnv) (q : MessageQueue W) (notify : Notify W)
      (hnext : s.notify.queue.mqNext w.castSucc = some (q, none))
      (hn : s.notify.nextMessage w.castSucc = some notify)
      : Transition queueLimit stringMatch s (.publishMessage w env) { s with notify := notify }
  | quiet (l : Label W) (notify : Notify W) (hquiet : Quiet queueLimit s.notify notify)
      : Transition queueLimit stringMatch s l { s with notify := notify }

theorem senderIdle_iff (s : Server W) (w : Fin W) : s.senderIdle w = true ↔ s.notify.sender w = .idle := by
  unfold senderIdle
  split
  . next h => simp [h]
  . next h =>
    constructor
    . intro heq
      cases heq
    . intro heq
      exact absurd heq h

namespace Quiet

variable {notify notify' : Notify W}

-- a step of a sender that is not in its push before it and not after it
theorem of_setSender (hstep : ∃ l, notify.Step queueLimit l notify') (hqueue : notify'.queue = notify.queue)
    (hrefused : notify'.refused = notify.refused) (hsender : notify'.sender = Function.update notify.sender w pc)
    (hpushing : ∀ m, pc ≠ .pushing m ∧ notify.sender w ≠ .pushing m)
    (hput : pc.inPutMessage = true → (notify.sender w).inPutMessage = true)
    : Quiet queueLimit notify notify' where
  step := hstep
  pushed_eq := by rw [hqueue]
  results_eq _ := by rw [hqueue]
  refused_eq := hrefused
  pushing_iff v m := by
    rw [hsender]
    by_cases hv : v = w
    . subst hv
      rw [Function.update_self]
      exact iff_of_false (hpushing m).1 (hpushing m).2
    . rw [Function.update_of_ne hv]
  inPutMessage v := by
    rw [hsender]
    by_cases hv : v = w
    . subst hv
      rwa [Function.update_self]
    . rw [Function.update_of_ne hv]
      exact id

theorem of_sender_eq (hstep : ∃ l, notify.Step queueLimit l notify')
    (hpushed : notify'.queue.pushed = notify.queue.pushed)
    (hresults : ∀ w : Fin W, notify'.queue.results w.castSucc = notify.queue.results w.castSucc)
    (hrefused : notify'.refused = notify.refused) (hsender : notify'.sender = notify.sender)
    : Quiet queueLimit notify notify' where
  step := hstep
  pushed_eq := hpushed
  results_eq := hresults
  refused_eq := hrefused
  pushing_iff _ _ := by rw [hsender]
  inPutMessage _ := by
    rw [hsender]
    exact id

theorem addNotify (h : notify.addNotify w = some notify') : Quiet queueLimit notify notify' := by
  have hstep : ∃ l, notify.Step queueLimit l notify' := ⟨.addNotify w, trivial, h⟩
  unfold Notify.addNotify at h
  split at h
  . next k hw =>
    have hnot (pc : Sender) (hpc : ∀ m, pc ≠ .pushing m) (m : Message)
        : pc ≠ .pushing m ∧ notify.sender w ≠ .pushing m := by
      refine ⟨hpc m, ?_⟩
      rw [hw]
      intro heq
      cases heq
    split at h
    . cases h
      refine of_setSender hstep rfl rfl rfl (hnot (.adding (k + 1)) ?_) ?_
      . intro m heq
        cases heq
      . rw [hw]
        exact id
    . cases h
      refine of_setSender hstep rfl rfl rfl (hnot (.notifying 0 true) ?_) ?_
      . intro m heq
        cases heq
      . rw [hw]
        exact fun _ => rfl
  . cases h

theorem notifyNewMessage (h : notify.notifyNewMessage w ok = some notify') : Quiet queueLimit notify notify' := by
  have hstep : ∃ l, notify.Step queueLimit l notify' := ⟨.notifyNewMessage w ok, trivial, h⟩
  unfold Notify.notifyNewMessage at h
  split at h
  . next k put hw =>
    have hnot (pc : Sender) (hpc : ∀ m, pc ≠ .pushing m) (m : Message)
        : pc ≠ .pushing m ∧ notify.sender w ≠ .pushing m := by
      refine ⟨hpc m, ?_⟩
      rw [hw]
      intro heq
      cases heq
    split at h
    . dsimp only at h
      split at h
      . cases h
        exact of_sender_eq hstep rfl (fun _ => rfl) rfl rfl
      . cases h
        refine of_setSender hstep rfl rfl rfl (hnot (.notifying (k + 1) put) ?_) ?_
        . intro m heq
          cases heq
        . rw [hw]
          exact id
    . cases h
      refine of_setSender hstep rfl rfl rfl (hnot .idle ?_) ?_
      . intro m heq
        cases heq
      . intro hidle
        cases hidle
  . cases h

theorem readNotice (h : notify.readNotice c w free ok = some notify') : Quiet queueLimit notify notify' := by
  have hstep : ∃ l, notify.Step queueLimit l notify' := ⟨.readNotice c w free ok, trivial, h⟩
  unfold Notify.readNotice at h
  split at h
  . dsimp only at h
    split at h
    . cases h
      exact of_sender_eq hstep rfl (fun _ => rfl) rfl rfl
    . cases h
      exact of_sender_eq hstep rfl (fun _ => rfl) rfl rfl
  . cases h

theorem storerNextMessage (h : notify.nextMessage (Fin.last W) = some notify') : Quiet queueLimit notify notify' := by
  have hstep : ∃ l, notify.Step queueLimit l notify' := ⟨.nextMessage (Fin.last W), trivial, h⟩
  unfold Notify.nextMessage at h
  split at h
  . cases h
  . split at h
    . cases h
    . next q msg hnext =>
      cases h
      have hne : ∀ w : Fin W, w.castSucc ≠ Fin.last W := fun w => (Fin.castSucc_lt_last w).ne
      unfold MessageQueue.mqNext at hnext
      split at hnext
      . cases hnext
      . split at hnext
        . cases hnext
          exact of_sender_eq hstep rfl (fun _ => rfl) rfl rfl
        . split at hnext
          . cases hnext
          . cases hnext
            refine of_sender_eq hstep rfl ?_ rfl rfl
            intro w
            exact Function.update_of_ne (hne w) _ _

theorem master (h : notify.master = some notify') : Quiet queueLimit notify notify' := by
  have hstep : ∃ l, notify.Step queueLimit l notify' := ⟨.master, trivial, h⟩
  unfold Notify.master at h
  split at h
  . next q _ hq =>
    cases h
    obtain ⟨-, hresults, hpushed⟩ := MessageQueue.master_frame hq
    exact of_sender_eq hstep hpushed (fun w => congrFun hresults w.castSucc) rfl rfl
  . cases h

theorem readStat (h : notify.readStat = some notify') : Quiet queueLimit notify notify' := by
  have hstep : ∃ l, notify.Step queueLimit l notify' := ⟨.readStat, trivial, h⟩
  unfold Notify.readStat at h
  split at h
  . cases h
    exact of_sender_eq hstep rfl (fun _ => rfl) rfl rfl
  . cases h

theorem storeStat (h : notify.storeStat = some notify') : Quiet queueLimit notify notify' := by
  have hstep : ∃ l, notify.Step queueLimit l notify' := ⟨.storeStat, trivial, h⟩
  unfold Notify.storeStat at h
  split at h
  . cases h
  . cases h
    exact of_sender_eq hstep rfl (fun _ => rfl) rfl rfl

end Quiet

theorem callback_cases {s s' : Server W} {w : Fin W} {t : Option Thread} (h : s.callback w t = some s')
    : s.Waiting w ∧ ∃ t', t = some t' ∧ s' = s.setThread w t' := by
  unfold callback at h
  split at h
  . next hw =>
    obtain ⟨t', rfl, rfl⟩ := Option.map_eq_some_iff.mp h
    exact ⟨hw, t', rfl, rfl⟩
  . cases h

theorem quiet_cases {s s' : Server W} {x : Option (Notify W)} {l : Label W}
    (hquiet : ∀ notify, x = some notify → Quiet queueLimit s.notify notify)
    (h : (x.map fun notify => { s with notify := notify }) = some s')
    : Transition queueLimit stringMatch s l s' := by
  obtain ⟨notify, hnotify, rfl⟩ := Option.map_eq_some_iff.mp h
  exact .quiet l notify (hquiet notify hnotify)

theorem putMessage_cases {notify notify' : Notify W} (h : notify.putMessage queueLimit w m = some notify')
    : notify.sender w = .idle ∧
        (queueLimit ≤ notify.queue.size → notify' = notify.refuse) ∧
        (¬queueLimit ≤ notify.queue.size → notify' = notify.setSender w (.pushing m)) := by
  unfold Notify.putMessage at h
  split at h
  . next hidle =>
    split at h
    . next hfull =>
      cases h
      exact ⟨hidle, fun _ => rfl, fun hroom => absurd hfull hroom⟩
    . next hroom =>
      cases h
      exact ⟨hidle, fun hfull => absurd hfull hroom, fun _ => rfl⟩
  . cases h

theorem processRound_cases {s s' : Server W} (h : s.processRound queueLimit env w = some s')
    : Transition queueLimit stringMatch s (.processRound w env) s' := by
  unfold processRound at h
  dsimp only at h
  split at h
  . cases h
  . next c htask =>
    split at h
    . next hlogged =>
      obtain ⟨t, ht, rfl⟩ := Option.map_eq_some_iff.mp h
      exact .round w env c t htask hlogged ht
    . next m hlogged =>
      split at h
      . cases h
      . next notify hput =>
        obtain ⟨hsender, hrefused, haccepted⟩ := putMessage_cases hput
        split at h
        . next hfull =>
          obtain ⟨t, ht, rfl⟩ := Option.map_eq_some_iff.mp h
          rw [hrefused hfull]
          exact .refused w env c m t htask hlogged hsender hfull ht
        . next hroom =>
          cases h
          rw [haccepted hroom]
          exact .accepted w env c m htask hlogged hsender (Nat.lt_of_not_le hroom)
  . next c htask =>
    split at h
    . next hidle =>
      obtain ⟨t, ht, rfl⟩ := Option.map_eq_some_iff.mp h
      exact .returned w env c t htask ((s.senderIdle_iff w).mp hidle) ht
    . cases h

theorem publishMessage_cases {s s' : Server W} (h : s.publishMessage stringMatch env w = some s')
    : Transition queueLimit stringMatch s (.publishMessage w env) s' := by
  unfold publishMessage at h
  split at h
  . next q m notify hnext hn =>
    obtain ⟨t, ht, rfl⟩ := Option.map_eq_some_iff.mp h
    exact .publish w env q m notify t hnext hn ht
  . next q notify hnext hn =>
    cases h
    exact .wrongNotice w env q notify hnext hn
  . cases h

theorem cron_cases {s s' : Server W} (h : s.cron w = some s')
    : Transition queueLimit stringMatch s (.cron w) s' := by
  unfold cron at h
  split at h
  . next hw =>
    split at h
    . next t notify ht hn =>
      cases h
      unfold Notify.cron at hn
      split at hn
      . next hsender =>
        cases hn
        exact .cron w t hw hsender ht
      . cases hn
    . cases h
  . cases h

theorem push_cases {s s' : Server W} (hfresh : s.notify.queue.heap a = none) (h : s.push w a = some s')
    : Transition queueLimit stringMatch s (.push w a) s' := by
  unfold push at h
  split at h
  . next m hsender =>
    obtain ⟨notify, hn, rfl⟩ := Option.map_eq_some_iff.mp h
    exact .push w a m notify hsender hfresh hn
  . cases h

theorem Step.transition {s s' : Server W} (h : Step queueLimit stringMatch s l s')
    : Transition queueLimit stringMatch s l s' := by
  obtain ⟨hlegal, hstep⟩ := h
  cases l with
  | getNewConnection w c fd =>
    obtain ⟨hw, t, ht, rfl⟩ := callback_cases hstep
    cases ht
    exact .getNewConnection w c fd hw hlegal
  | readRequest w c r =>
    obtain ⟨hw, t, ht, rfl⟩ := callback_cases hstep
    exact .readRequest w c r t hw hlegal ht
  | processRound w env => exact processRound_cases hstep
  | push w a => exact push_cases hlegal hstep
  | addNotify w => exact quiet_cases (fun _ => Quiet.addNotify) hstep
  | notifyNewMessage w ok => exact quiet_cases (fun _ => Quiet.notifyNewMessage) hstep
  | sendReply w c rs =>
    obtain ⟨hw, t, ht, rfl⟩ := callback_cases hstep
    exact .sendReply w c rs t hw hlegal.1 hlegal.2 ht
  | cron w => exact cron_cases hstep
  | readNotice w v ok =>
    change s.readNotice w v ok = some s' at hstep
    unfold readNotice at hstep
    split at hstep
    . exact quiet_cases (fun _ => Quiet.readNotice) hstep
    . cases hstep
  | publishMessage w env => exact publishMessage_cases hstep
  | storerReadNotice v free ok => exact quiet_cases (fun _ => Quiet.readNotice) hstep
  | storerNextMessage => exact quiet_cases (fun _ => Quiet.storerNextMessage) hstep
  | master => exact quiet_cases (fun _ => Quiet.master) hstep
  | readStat => exact quiet_cases (fun _ => Quiet.readStat) hstep
  | storeStat => exact quiet_cases (fun _ => Quiet.storeStat) hstep

end Server
end Kids
