import Kids.Notify.Basic
import Kids.MessageQueue.Safety
import Mathlib.Algebra.BigOperators.Fin

/-!
No notice is lost and none is made up: a consumer that has read a byte finds a message, and a consumer
without a notice on the way has all of them.
-/

namespace Kids

namespace Channel

def total (channel : Channel) : Nat :=
  channel.waitToNotify + channel.inFlight

end Channel

def Sender.owes (c : Fin n) : Sender → Nat
  | .adding k => if k ≤ c.val then 1 else 0
  | _ => 0

def Handler.count : Handler → Nat
  | .idle => 0
  | .notified => 1

namespace Notify

variable {W : Nat} {s s' : Notify W}

theorem sum_update (f : Fin n → α) (g : α → Nat) (i : Fin n) (x : α)
    : ∑ j, g (Function.update f i x j) + g (f i) = ∑ j, g (f j) + g x := by
  have hcomp : ∀ j, g (Function.update f i x j) = Function.update (fun j => g (f j)) i (g x) j := by
    intro j
    by_cases hj : j = i
    . subst hj
      simp
    . simp [hj]
  simp only [hcomp]
  rw [Finset.sum_update_of_mem (Finset.mem_univ i), Finset.sdiff_singleton_eq_erase,
    ← Finset.add_sum_erase _ _ (Finset.mem_univ i)]
  omega

def pending (s : Notify W) (c : Fin (W + 1)) : Nat :=
  ∑ w, (s.channel c w).total

def owed (s : Notify W) (c : Fin (W + 1)) : Nat :=
  ∑ w, (s.sender w).owes c

theorem pending_setChannel (s : Notify W) (c c' : Fin (W + 1)) (w : Fin W) (channel : Channel)
    : (s.setChannel c w channel).pending c' + (if c' = c then (s.channel c w).total else 0) =
        s.pending c' + (if c' = c then channel.total else 0) := by
  by_cases hc : c' = c
  . subst hc
    simp only [pending, setChannel, Function.update_self, if_true]
    exact sum_update (s.channel c') Channel.total w channel
  . simp only [pending, setChannel, Function.update_of_ne hc, if_neg hc]

theorem owed_setSender (s : Notify W) (w : Fin W) (pc : Sender) (c : Fin (W + 1))
    : (s.setSender w pc).owed c + (s.sender w).owes c = s.owed c + pc.owes c :=
  sum_update s.sender (Sender.owes c) w pc

structure Balanced (a : Addr) (s : Notify W) : Prop where
  reaches : ∃ ls, Run.Reaches MessageQueue.Step (.mqOpen a) ls s.queue
  read_add_pending : ∀ c, s.bytesRead c + s.pending c = s.addNotifyCalls c
  add_owed : ∀ c, s.addNotifyCalls c + s.owed c = s.queue.pushed.length
  read_eq : ∀ c, s.bytesRead c = (s.queue.results c).length + (s.handler c).count
  no_wrongNotice : s.wrongNotice = false

namespace Balanced

theorem init (a : Addr) : Balanced a (Notify.init a : Notify W) where
  reaches := ⟨[], .nil⟩
  read_add_pending c := by simp [Notify.init, pending, Channel.total]
  add_owed c := by simp [Notify.init, owed, Sender.owes, MessageQueue.mqOpen]
  read_eq c := by simp [Notify.init, Handler.count, MessageQueue.mqOpen]
  no_wrongNotice := rfl

theorem setSender (h : Balanced a s) (howes : ∀ c : Fin (W + 1), pc.owes c = (s.sender w).owes c)
    : Balanced a (s.setSender w pc) where
  reaches := h.reaches
  read_add_pending := h.read_add_pending
  add_owed c := by
    have hsum := owed_setSender s w pc c
    have hadd := h.add_owed c
    have heq := howes c
    simp only [Notify.setSender] at hsum ⊢
    omega
  read_eq := h.read_eq
  no_wrongNotice := h.no_wrongNotice

theorem putMessage (h : Balanced a s) (hstep : s.putMessage queueLimit w m = some s') : Balanced a s' := by
  unfold Notify.putMessage at hstep
  split at hstep
  . next hw =>
    split at hstep
    . cases hstep
      exact { h with }
    . cases hstep
      refine h.setSender ?_
      intro c
      rw [hw]
      rfl
  . cases hstep

theorem push (h : Balanced a s) (hfresh : s.queue.heap b = none) (hstep : s.push w b = some s')
    : Balanced a s' := by
  unfold Notify.push at hstep
  split at hstep
  . next m hw =>
    split at hstep
    . cases hstep
    . next queue hpush =>
      cases hstep
      obtain ⟨ls, hreach⟩ := h.reaches
      obtain ⟨-, hresults, hpushed⟩ := MessageQueue.mqPush_frame hpush
      have hqueue : MessageQueue.Step s.queue (.push b m) queue := ⟨hfresh, hpush⟩
      refine ⟨⟨_, hreach.snoc hqueue⟩, h.read_add_pending, ?_, ?_, h.no_wrongNotice⟩
      . intro c
        have hadd := h.add_owed c
        have hsum := owed_setSender { s with queue := queue } w (.adding 0) c
        simp only [Notify.setSender, owed, hw, Sender.owes, Nat.zero_le, if_true] at hsum hadd ⊢
        rw [hpushed, List.length_append, List.length_singleton]
        omega
      . intro c
        simp only [Notify.setSender, hresults]
        exact h.read_eq c
  . cases hstep

theorem addNotify (h : Balanced a s) (hstep : s.addNotify w = some s') : Balanced a s' := by
  unfold Notify.addNotify at hstep
  split at hstep
  . next k hw =>
    split at hstep
    . next hk =>
      cases hstep
      refine ⟨h.reaches, ?_, ?_, h.read_eq, h.no_wrongNotice⟩
      . intro c
        have hread := h.read_add_pending c
        have hsum := pending_setChannel s ⟨k, hk⟩ c w
          { s.channel ⟨k, hk⟩ w with waitToNotify := (s.channel ⟨k, hk⟩ w).waitToNotify + 1 }
        change s.bytesRead c + (s.setChannel _ w _).pending c = Function.update s.addNotifyCalls _ _ c
        by_cases hc : c = ⟨k, hk⟩
        . subst hc
          simp only [if_true, Channel.total, Function.update_self] at hsum ⊢
          simp only [Notify.setChannel] at hsum ⊢
          omega
        . simp only [if_neg hc, Function.update_of_ne hc, Nat.add_zero] at hsum ⊢
          omega
      . intro c
        have hadd := h.add_owed c
        have hsum := owed_setSender s w (.adding (k + 1)) c
        change Function.update s.addNotifyCalls _ _ c + (s.setSender w (.adding (k + 1))).owed c = _
        simp only [hw, Sender.owes] at hsum
        by_cases hc : c = ⟨k, hk⟩
        . subst hc
          rw [if_pos (Nat.le_refl k), if_neg (Nat.not_succ_le_self k)] at hsum
          simp only [Function.update_self, Notify.setChannel, Notify.setSender] at hsum ⊢
          omega
        . have hne : c.val ≠ k := fun heq => hc (Fin.ext heq)
          have hiff : (if k + 1 ≤ c.val then 1 else 0) = if k ≤ c.val then 1 else 0 := by
            split <;> split <;> omega
          rw [hiff] at hsum
          simp only [Function.update_of_ne hc, Notify.setChannel, Notify.setSender] at hsum ⊢
          omega
    . next hk =>
      cases hstep
      refine h.setSender ?_
      intro c
      have := c.isLt
      simp only [hw, Sender.owes]
      rw [if_neg (by omega)]
  . cases hstep

theorem notifyNewMessage (h : Balanced a s) (hstep : s.notifyNewMessage w ok = some s') : Balanced a s' := by
  unfold Notify.notifyNewMessage at hstep
  split at hstep
  . next k put hw =>
    split at hstep
    . next hk =>
      dsimp only at hstep
      split at hstep
      . next hwait =>
        cases hstep
        simp only [Bool.and_eq_true, decide_eq_true_eq] at hwait
        refine ⟨h.reaches, ?_, h.add_owed, h.read_eq, h.no_wrongNotice⟩
        intro c
        have hread := h.read_add_pending c
        have hsum := pending_setChannel s ⟨k, hk⟩ c w
          ⟨(s.channel ⟨k, hk⟩ w).waitToNotify - 1, (s.channel ⟨k, hk⟩ w).inFlight + 1⟩
        have htotal : Channel.total ⟨(s.channel ⟨k, hk⟩ w).waitToNotify - 1, (s.channel ⟨k, hk⟩ w).inFlight + 1⟩ =
            (s.channel ⟨k, hk⟩ w).total := by
          simp only [Channel.total]
          omega
        rw [htotal] at hsum
        rw [Nat.add_right_cancel hsum]
        exact hread
      . cases hstep
        refine h.setSender ?_
        intro c
        rw [hw]
        rfl
    . cases hstep
      refine h.setSender ?_
      intro c
      rw [hw]
      rfl
  . cases hstep

theorem cron (h : Balanced a s) (hstep : s.cron w = some s') : Balanced a s' := by
  unfold Notify.cron at hstep
  split at hstep
  . next hw =>
    cases hstep
    refine h.setSender ?_
    intro c
    rw [hw]
    rfl
  . cases hstep

theorem readNotice (h : Balanced a s) (hstep : s.readNotice c w free ok = some s') : Balanced a s' := by
  unfold Notify.readNotice at hstep
  split at hstep
  . next hidle =>
    dsimp only at hstep
    split at hstep
    . next hread =>
      cases hstep
      refine ⟨h.reaches, ?_, h.add_owed, ?_, h.no_wrongNotice⟩
      . intro c'
        have hbal := h.read_add_pending c'
        have hsum := pending_setChannel s c c' w
          { s.channel c w with inFlight := (s.channel c w).inFlight - 1 }
        change Function.update s.bytesRead _ _ c' + (s.setChannel c w _).pending c' = s.addNotifyCalls c'
        by_cases hc : c' = c
        . subst hc
          simp only [if_true, Channel.total, Function.update_self] at hsum ⊢
          simp only [Notify.setChannel] at hsum ⊢
          omega
        . simp only [if_neg hc, Function.update_of_ne hc, Nat.add_zero] at hsum ⊢
          omega
      . intro c'
        have heq := h.read_eq c'
        simp only [Notify.setChannel]
        by_cases hc : c' = c
        . subst hc
          simp only [hidle, Handler.count, Function.update_self] at heq ⊢
          omega
        . simp only [Function.update_of_ne hc]
          exact heq
    . cases hstep
      exact h
  . cases hstep

theorem results_lt (h : Balanced a s) (hc : s.handler c = .notified)
    : (s.queue.results c).length < s.queue.pushed.length := by
  have hread := h.read_eq c
  have hpending := h.read_add_pending c
  have howed := h.add_owed c
  rw [hc] at hread
  simp only [Handler.count] at hread
  omega

theorem mqNext (h : Balanced a s) (hc : s.handler c = .notified)
    : ∃ t m, s.queue.mqNext c = some (t, some m) ∧ t.pushed = s.queue.pushed ∧
        t.results = Function.update s.queue.results c (s.queue.results c ++ [m]) ∧
        t.results c <+: t.pushed := by
  obtain ⟨ls, hreach⟩ := h.reaches
  exact MessageQueue.mqNext_of_lt hreach (h.results_lt hc)

theorem nextMessage (h : Balanced a s) (hstep : s.nextMessage c = some s') : Balanced a s' := by
  unfold Notify.nextMessage at hstep
  split at hstep
  . cases hstep
  . next hc =>
    obtain ⟨t, m, hnext, hpushed, hresults, -⟩ := h.mqNext hc
    obtain ⟨ls, hreach⟩ := h.reaches
    simp only [hnext, Option.some.injEq] at hstep
    subst hstep
    have hqueue : MessageQueue.Step s.queue (.next c) t := by
      refine ⟨trivial, ?_⟩
      simp only [MessageQueue.step, hnext, Option.map_some]
    refine ⟨⟨_, hreach.snoc hqueue⟩, h.read_add_pending, ?_, ?_, ?_⟩
    . simp only [hpushed]
      exact h.add_owed
    . intro c'
      have heq := h.read_eq c'
      simp only [hresults]
      by_cases hc' : c' = c
      . subst hc'
        simp only [hc, Handler.count, Function.update_self, List.length_append, List.length_singleton] at heq ⊢
        omega
      . simp only [Function.update_of_ne hc']
        exact heq
    . simp only [h.no_wrongNotice, Option.isNone_some, Bool.or_false]

theorem master (h : Balanced a s) (hstep : s.master = some s') : Balanced a s' := by
  unfold Notify.master at hstep
  split at hstep
  . next queue _ hmaster =>
    cases hstep
    obtain ⟨-, hresults, hpushed⟩ := MessageQueue.master_frame hmaster
    obtain ⟨ls, hreach⟩ := h.reaches
    have hqueue : MessageQueue.Step s.queue .master queue := ⟨trivial, hmaster⟩
    refine ⟨⟨_, hreach.snoc hqueue⟩, h.read_add_pending, ?_, ?_, h.no_wrongNotice⟩
    . simp only [hpushed]
      exact h.add_owed
    . simp only [hresults]
      exact h.read_eq
  . cases hstep

theorem readStat (h : Balanced a s) (hstep : s.readStat = some s') : Balanced a s' := by
  unfold Notify.readStat at hstep
  split at hstep
  . cases hstep
    exact ⟨h.reaches, h.read_add_pending, h.add_owed, h.read_eq, h.no_wrongNotice⟩
  . cases hstep

theorem storeStat (h : Balanced a s) (hstep : s.storeStat = some s') : Balanced a s' := by
  unfold Notify.storeStat at hstep
  split at hstep
  . cases hstep
  . cases hstep
    exact ⟨h.reaches, h.read_add_pending, h.add_owed, h.read_eq, h.no_wrongNotice⟩

theorem step (h : Balanced a s) (hstep : Step queueLimit s l s') : Balanced a s' := by
  obtain ⟨hlegal, hstep⟩ := hstep
  cases l with
  | putMessage => exact h.putMessage hstep
  | push => exact h.push hlegal hstep
  | addNotify => exact h.addNotify hstep
  | notifyNewMessage => exact h.notifyNewMessage hstep
  | cron => exact h.cron hstep
  | readNotice => exact h.readNotice hstep
  | nextMessage => exact h.nextMessage hstep
  | master => exact h.master hstep
  | readStat => exact h.readStat hstep
  | storeStat => exact h.storeStat hstep

theorem of_reaches (h : Run.Reaches (Step queueLimit) (Notify.init a) ls s) : Balanced a s :=
  h.invariant (Balanced a) (init a) fun _ _ _ ht hstep => ht.step hstep

theorem bytesRead_eq (h : Balanced a s) (hidle : ∀ w, (s.sender w).inPutMessage = false)
    (hc : ∀ w, s.channel c w = ⟨0, 0⟩)
    : s.bytesRead c = s.queue.pushed.length := by
  have hpending : s.pending c = 0 := by
    simp [pending, hc, Channel.total]
  have howed : s.owed c = 0 := by
    apply Finset.sum_eq_zero
    intro w _
    have hw := hidle w
    cases hpc : s.sender w with
    | adding k => simp [hpc, Sender.inPutMessage] at hw
    | _ => rfl
  have hread := h.read_add_pending c
  have hadd := h.add_owed c
  omega

theorem results_isPrefix (h : Balanced a s) (c : Fin (W + 1)) : s.queue.results c <+: s.queue.pushed := by
  obtain ⟨ls, hreach⟩ := h.reaches
  obtain ⟨log, addrs, hok⟩ := MessageQueue.consistent_of_reaches hreach
  rw [hok.results_eq, hok.pushed_eq]
  exact log.read_isPrefix c

end Balanced

/--
In every state that the workers, the storer and the master can reach: the notices of a consumer are all
read, in a socket or in a slot, and there are no more of them than pushes; a consumer that has read a byte
gets a message from `MQNext`; and when no `PutMessage` is running, a consumer without a notice in a slot
or in a socket has got every message, in the order of the pushes, except for the last one if it is between
its `read` and its `MQNext`, which then returns it. The queue behind it is a state of the message queue's
own system.
-/
theorem notices_balance (h : Run.Reaches (Step queueLimit) (init a : Notify W) ls s)
    : (∀ c, s.bytesRead c + ∑ w, (s.channel c w).inFlight + ∑ w, (s.channel c w).waitToNotify =
          s.addNotifyCalls c ∧
        s.addNotifyCalls c ≤ s.queue.pushed.length) ∧
      (∀ c, s.handler c = .notified → ∃ t m, s.queue.mqNext c = some (t, some m)) ∧
      s.wrongNotice = false ∧
      ((∀ w, (s.sender w).inPutMessage = false) → ∀ c, (∀ w, s.channel c w = ⟨0, 0⟩) →
        (s.handler c = .idle → s.queue.results c = s.queue.pushed) ∧
        (s.handler c = .notified →
          ∃ t m, s.queue.mqNext c = some (t, some m) ∧ t.results c = s.queue.pushed)) ∧
      ∃ ks, Run.Reaches MessageQueue.Step (.mqOpen a) ks s.queue := by
  have hbal := Balanced.of_reaches h
  refine ⟨?_, ?_, hbal.no_wrongNotice, ?_, hbal.reaches⟩
  . intro c
    have hread := hbal.read_add_pending c
    have hadd := hbal.add_owed c
    simp only [pending, Channel.total, Finset.sum_add_distrib] at hread
    omega
  . intro c hc
    obtain ⟨t, m, hnext, -⟩ := hbal.mqNext hc
    exact ⟨t, m, hnext⟩
  . intro hidle c hempty
    have hall := hbal.bytesRead_eq hidle hempty
    have hread := hbal.read_eq c
    constructor
    . intro hc
      rw [hc] at hread
      simp only [Handler.count] at hread
      exact (hbal.results_isPrefix c).eq_of_length (by omega)
    . intro hc
      rw [hc] at hread
      simp only [Handler.count] at hread
      obtain ⟨t, m, hnext, hpushed, hresults, hisPrefix⟩ := hbal.mqNext hc
      refine ⟨t, m, hnext, ?_⟩
      rw [← hpushed]
      apply hisPrefix.eq_of_length
      rw [hresults, hpushed, Function.update_self, List.length_append, List.length_singleton]
      omega

theorem notices_balance_notified
    : ∃ s : Notify 1,
        Run.Reaches (Step 1) (init 0)
          [.putMessage 0 ⟨⟨[97], by decide⟩, ⟨[98], by decide⟩⟩, .push 0 1, .addNotify 0, .addNotify 0, .addNotify 0,
            .notifyNewMessage 0 true, .readNotice 0 0 true true] s ∧
        s.handler 0 = .notified ∧ (∃ t m, s.queue.mqNext 0 = some (t, some m)) ∧ s.wrongNotice = false := by
  have hreach : ∃ s : Notify 1,
      Run.Reaches (Step 1) (init 0)
        [.putMessage 0 ⟨⟨[97], by decide⟩, ⟨[98], by decide⟩⟩, .push 0 1, .addNotify 0, .addNotify 0, .addNotify 0,
          .notifyNewMessage 0 true, .readNotice 0 0 true true] s ∧
      s.handler 0 = .notified :=
    ⟨_, .snoc (.snoc (.snoc (.snoc (.snoc (.snoc (.single ⟨trivial, rfl⟩) ⟨rfl, rfl⟩) ⟨trivial, rfl⟩) ⟨trivial, rfl⟩)
      ⟨trivial, rfl⟩) ⟨trivial, rfl⟩) ⟨trivial, rfl⟩, rfl⟩
  obtain ⟨s, hreach, hc⟩ := hreach
  obtain ⟨-, hnext, hwrong, -⟩ := notices_balance hreach
  exact ⟨s, hreach, hc, hnext 0 hc, hwrong⟩

end Notify
end Kids
