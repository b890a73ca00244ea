import Kids.Notify.Protocol
import Mathlib.Algebra.Order.BigOperators.Group.Finset

/-!
How far `queue_limit` can be passed. `Master::PutMessage` looks at the size of the queue and pushes in two
steps, so that every worker that is between them may add one more message.
-/

namespace Kids

def Sender.waiting : Sender → Nat
  | .pushing _ => 1
  | _ => 0

def Sender.entered : Sender → Nat
  | .adding _ => 1
  | .notifying _ true => 1
  | _ => 0

namespace MessageQueue

variable {W : Nat} {q q' : MessageQueue W}

theorem size_mqPush (h : q.mqPush a m = some q') : q'.size = q.size + 1 := by
  unfold mqPush at h
  split at h
  . cases h
  . cases h
    rfl

theorem size_mqNext (h : q.mqNext i = some (q', msg)) : q'.size = q.size ∧ q'.pushed = q.pushed := by
  unfold mqNext at h
  split at h
  . cases h
  . split at h
    . cases h
      exact ⟨rfl, rfl⟩
    . split at h
      . cases h
      . cases h
        exact ⟨rfl, rfl⟩

theorem size_freeOldest (h : q.freeOldest positions p count memoryFreed = some q') : q'.size = q.size := by
  unfold freeOldest at h
  split at h
  . cases h
    rfl
  . split at h
    . cases h
    . split at h
      . cases h
      . cases h
        rfl

theorem size_master_le (h : q.master = some q') : q'.size ≤ q.size := by
  unfold master at h
  split at h
  . cases h
    apply Nat.le_refl
  . split at h
    all_goals
      cases h
      apply Nat.le_refl
  . exact Nat.le_of_eq (size_freeOldest h)
  . cases h
    apply Nat.sub_le

-- `queue->size -= count` does not wrap
theorem Consistent.count_le_size (h : Consistent q log addrs) : q.gc.count ≤ q.size := by
  have := h.gcOk.size_eq
  omega

end MessageQueue

namespace Notify

variable {W : Nat}

theorem sender_setSender (s : Notify W) (w : Fin W) (pc : Sender)
    : (s.setSender w pc).sender = Function.update s.sender w pc :=
  rfl

/--
The value with which a step makes a call of `Master::PutMessage` return, and the worker that gets it.
-/
def returns (queueLimit : Nat) (s : Notify W) : Label W → Option (Fin W × Bool)
  | .putMessage w _ =>
    match s.sender w with
    | .idle => if s.queue.size ≥ queueLimit then some (w, false) else none
    | _ => none
  | .notifyNewMessage w _ =>
    match s.sender w with
    | .notifying k true => if k < W + 1 then none else some (w, true)
    | _ => none
  | _ => none

/--
All that a step can do to the senders, to the counters of the queue and to the calls that were refused, with what it
returns.
-/
inductive Effect (queueLimit : Nat) (s s' : Notify W) (l : Label W) : Option (Fin W × Bool) → Prop
  | refuse (w : Fin W) (hfull : queueLimit ≤ s.queue.size) (hs : s' = s.refuse)
    : Effect queueLimit s s' l (some (w, false))
  | enter (w : Fin W) (m : Message) (hw : s.sender w = .idle) (hroom : s.queue.size < queueLimit)
      (hs : s' = s.setSender w (.pushing m))
    : Effect queueLimit s s' l none
  | append (w : Fin W) (m : Message) (hw : s.sender w = .pushing m) (hsize : s'.queue.size = s.queue.size + 1)
      (hpushed : s'.queue.pushed = s.queue.pushed ++ [m])
      (hsender : s'.sender = Function.update s.sender w (.adding 0)) (hrefused : s'.refused = s.refused)
      (hdrop : s'.msgDrop = s.msgDrop)
    : Effect queueLimit s s' l none
  | move (w : Fin W) (pc : Sender) (hwaiting : pc.waiting = (s.sender w).waiting)
      (hentered : pc.entered = (s.sender w).entered) (hqueue : s'.queue = s.queue)
      (hsender : s'.sender = Function.update s.sender w pc) (hrefused : s'.refused = s.refused)
      (hdrop : s'.msgDrop = s.msgDrop)
    : Effect queueLimit s s' l none
  | done (w : Fin W) (k : Nat) (hw : s.sender w = .notifying k true) (hs : s' = s.setSender w .idle)
    : Effect queueLimit s s' l (some (w, true))
  | other (hsender : s'.sender = s.sender) (hsize : s'.queue.size ≤ s.queue.size)
      (hpushed : s'.queue.pushed = s.queue.pushed) (hrefused : s'.refused = s.refused)
      (hdrop : l ≠ .storeStat → s'.msgDrop = s.msgDrop)
    : Effect queueLimit s s' l none

namespace Effect

variable {queueLimit : Nat} {s s' : Notify W} {l : Label W}

theorem moved {pc : Sender} (pc' : Sender) (hw : s.sender w = pc) (hwaiting : pc'.waiting = pc.waiting)
    (hentered : pc'.entered = pc.entered) (hqueue : s'.queue = s.queue)
    (hsender : s'.sender = Function.update s.sender w pc') (hrefused : s'.refused = s.refused)
    (hdrop : s'.msgDrop = s.msgDrop) : Effect queueLimit s s' l none := by
  apply move w pc' _ _ hqueue hsender hrefused hdrop
  . rw [hw, hwaiting]
  . rw [hw, hentered]

theorem putMessage (hstep : s.putMessage queueLimit w m = some s')
    : Effect queueLimit s s' (.putMessage w m) (s.returns queueLimit (.putMessage w m)) := by
  unfold Notify.putMessage at hstep
  split at hstep
  . next hw =>
    simp only [returns, hw]
    split at hstep
    . next hfull =>
      cases hstep
      rw [if_pos hfull]
      apply refuse w hfull rfl
    . next hroom =>
      cases hstep
      rw [if_neg hroom]
      apply enter w m hw (by omega) rfl
  . cases hstep

theorem push (hstep : s.push w a = some s') : Effect queueLimit s s' (.push w a) none := by
  unfold Notify.push at hstep
  split at hstep
  . next m hw =>
    split at hstep
    . cases hstep
    . next queue hpush =>
      cases hstep
      obtain ⟨-, -, hpushed⟩ := MessageQueue.mqPush_frame hpush
      exact .append w m hw (MessageQueue.size_mqPush hpush) hpushed rfl rfl rfl
  . cases hstep

theorem addNotify (hstep : s.addNotify w = some s') : Effect queueLimit s s' (.addNotify w) none := by
  unfold Notify.addNotify at hstep
  split at hstep
  . next k hw =>
    split at hstep
    . cases hstep
      exact moved (.adding (k + 1)) hw rfl rfl rfl rfl rfl rfl
    . cases hstep
      exact moved (.notifying 0 true) hw rfl rfl rfl rfl rfl rfl
  . cases hstep

theorem notifyNewMessage (hstep : s.notifyNewMessage w ok = some s')
    : Effect queueLimit s s' (.notifyNewMessage w ok) (s.returns queueLimit (.notifyNewMessage w ok)) := by
  unfold Notify.notifyNewMessage at hstep
  split at hstep
  . next k put hw =>
    have hnone : k < W + 1 → s.returns queueLimit (.notifyNewMessage w ok) = none := by
      intro hk
      simp only [returns, hw]
      cases put with
      | false => rfl
      | true => exact if_pos hk
    split at hstep
    . next hk =>
      rw [hnone hk]
      dsimp only at hstep
      split at hstep
      . cases hstep
        exact .other rfl (Nat.le_refl _) rfl rfl fun _ => rfl
      . cases hstep
        cases put with
        | false => exact moved (.notifying (k + 1) false) hw rfl rfl rfl rfl rfl rfl
        | true => exact moved (.notifying (k + 1) true) hw rfl rfl rfl rfl rfl rfl
    . next hk =>
      cases hstep
      simp only [returns, hw]
      cases put with
      | false => exact moved .idle hw rfl rfl rfl rfl rfl rfl
      | true =>
        simp only [if_neg hk]
        exact .done w k hw rfl
  . cases hstep

theorem cron (hstep : s.cron w = some s') : Effect queueLimit s s' (.cron w) none := by
  unfold Notify.cron at hstep
  split at hstep
  . next hw =>
    cases hstep
    exact moved (.notifying 0 false) hw rfl rfl rfl rfl rfl rfl
  . cases hstep

theorem readNotice (hstep : s.readNotice c w free ok = some s') : Effect queueLimit s s' (.readNotice c w free ok) none := by
  unfold Notify.readNotice at hstep
  split at hstep
  . dsimp only at hstep
    split at hstep
    . cases hstep
      exact .other rfl (Nat.le_refl _) rfl rfl fun _ => rfl
    . cases hstep
      exact .other rfl (Nat.le_refl _) rfl rfl fun _ => rfl
  . cases hstep

theorem nextMessage (hstep : s.nextMessage c = some s') : Effect queueLimit s s' (.nextMessage c) none := by
  unfold Notify.nextMessage at hstep
  split at hstep
  . cases hstep
  . split at hstep
    . cases hstep
    . next queue msg hnext =>
      cases hstep
      obtain ⟨hsize, hpushed⟩ := MessageQueue.size_mqNext hnext
      exact .other rfl (Nat.le_of_eq hsize) hpushed rfl fun _ => rfl

theorem master (hstep : s.master = some s') : Effect queueLimit s s' .master none := by
  unfold Notify.master at hstep
  split at hstep
  . next queue _ hmaster =>
    cases hstep
    obtain ⟨-, -, hpushed⟩ := MessageQueue.master_frame hmaster
    exact .other rfl (MessageQueue.size_master_le hmaster) hpushed rfl fun _ => rfl
  . cases hstep

theorem readStat (hstep : s.readStat = some s') : Effect queueLimit s s' .readStat none := by
  unfold Notify.readStat at hstep
  split at hstep
  . cases hstep
    exact .other rfl (Nat.le_refl _) rfl rfl fun _ => rfl
  . cases hstep

theorem storeStat (hstep : s.storeStat = some s') : Effect queueLimit s s' .storeStat none := by
  unfold Notify.storeStat at hstep
  split at hstep
  . cases hstep
  . cases hstep
    exact .other rfl (Nat.le_refl _) rfl rfl fun h => absurd rfl h

theorem step (hstep : s.step queueLimit l = some s') : Effect queueLimit s s' l (s.returns queueLimit l) := by
  cases l with
  | putMessage => exact putMessage hstep
  | push => exact push hstep
  | addNotify => exact addNotify hstep
  | notifyNewMessage => exact notifyNewMessage hstep
  | cron => exact cron hstep
  | readNotice => exact readNotice hstep
  | nextMessage => exact nextMessage hstep
  | master => exact master hstep
  | readStat => exact readStat hstep
  | storeStat => exact storeStat hstep

end Effect

/--
A step increments `msg_drop` once for the call that it refuses, but for the step of the master that overwrites it.
-/
theorem msgDrop_step {s s' : Notify W} (hl : l ≠ .storeStat) (hstep : s.step queueLimit l = some s')
    : s'.msgDrop + s.refused = s.msgDrop + s'.refused := by
  have heffect := Effect.step hstep
  generalize s.returns queueLimit l = r at heffect
  cases heffect with
  | refuse w hfull hs =>
    subst hs
    change s.msgDrop + 1 + s.refused = s.msgDrop + (s.refused + 1)
    omega
  | enter w m hw hroom hs =>
    rw [hs]
    rfl
  | append w m hw hsize hpushed hsender hrefused hdrop =>
    rw [hdrop, hrefused]
  | move w pc hwaiting hentered hqueue hsender hrefused hdrop =>
    rw [hdrop, hrefused]
  | done w k hw hs =>
    rw [hs]
    rfl
  | other hsender hsize hpushed hrefused hdrop =>
    rw [hdrop hl, hrefused]

end Notify

/--
The second field is history: what the calls of `PutMessage` have returned to each worker.
-/
structure PutCalls (W : Nat) where
  notify : Notify W
  returned : Fin W → List Bool

namespace PutCalls

variable {W : Nat} {s s' : PutCalls W}

def init (a : Addr) : PutCalls W :=
  ⟨.init a, fun _ => []⟩

def record (returned : Fin W → List Bool) : Option (Fin W × Bool) → Fin W → List Bool
  | none => returned
  | some (w, b) => Function.update returned w (returned w ++ [b])

def step (queueLimit : Nat) (s : PutCalls W) (l : Notify.Label W) : Option (PutCalls W) :=
  match s.notify.step queueLimit l with
  | none => none
  | some notify => some ⟨notify, record s.returned (s.notify.returns queueLimit l)⟩

def Step (queueLimit : Nat) (s : PutCalls W) (l : Notify.Label W) (s' : PutCalls W) : Prop :=
  s.notify.Legal l ∧ s.step queueLimit l = some s'

def waiting (s : Notify W) : Nat :=
  ∑ w, (s.sender w).waiting

def entered (s : Notify W) : Nat :=
  ∑ w, (s.sender w).entered

theorem waiting_moved {s s' : Notify W} (hsender : s'.sender = Function.update s.sender w pc)
    : waiting s' + (s.sender w).waiting = waiting s + pc.waiting := by
  unfold waiting
  rw [hsender]
  exact Notify.sum_update s.sender Sender.waiting w pc

theorem entered_moved {s s' : Notify W} (hsender : s'.sender = Function.update s.sender w pc)
    : entered s' + (s.sender w).entered = entered s + pc.entered := by
  unfold entered
  rw [hsender]
  exact Notify.sum_update s.sender Sender.entered w pc

theorem waiting_le (s : Notify W) : waiting s ≤ W := by
  have hle : ∀ w, (s.sender w).waiting ≤ 1 := by
    intro w
    cases s.sender w with
    | pushing => apply Nat.le_refl
    | _ => apply Nat.zero_le
  have hsum := Finset.sum_le_card_nsmul Finset.univ (fun w => (s.sender w).waiting) 1 fun w _ => hle w
  simpa [waiting] using hsum

theorem count_record (returned : Fin W → List Bool) (w : Fin W) (b b' : Bool)
    : ∑ v, (record returned (some (w, b)) v).count b' =
        ∑ v, (returned v).count b' + (if b = b' then 1 else 0) := by
  have hsum := Notify.sum_update returned (List.count b') w (returned w ++ [b])
  have hcount : (returned w ++ [b]).count b' = (returned w).count b' + (if b = b' then 1 else 0) := by
    rw [List.count_append, List.count_singleton]
    simp
  rw [hcount] at hsum
  simp only [record]
  omega

/--
The counts of a state: the bound with the workers between the check and the push, and what has been returned.
-/
structure Counted (queueLimit : Nat) (s : PutCalls W) : Prop where
  size_lt : s.notify.queue.size + waiting s.notify = 0 ∨
    s.notify.queue.size + waiting s.notify < queueLimit + W
  refused_eq : s.notify.refused = ∑ w, (s.returned w).count false
  pushed_eq : s.notify.queue.pushed.length = ∑ w, (s.returned w).count true + entered s.notify

theorem Counted.init (queueLimit : Nat) (a : Addr) : Counted queueLimit (PutCalls.init a : PutCalls W) where
  size_lt := by
    left
    simp [PutCalls.init, Notify.init, MessageQueue.mqOpen, waiting, Sender.waiting]
  refused_eq := by simp [PutCalls.init, Notify.init]
  pushed_eq := by simp [PutCalls.init, Notify.init, MessageQueue.mqOpen, entered, Sender.entered]

theorem Counted.effect {notify : Notify W} (h : Counted queueLimit s)
    (heffect : Notify.Effect queueLimit s.notify notify l r)
    : Counted queueLimit ⟨notify, record s.returned r⟩ := by
  obtain ⟨hsize, hrefused, hpushed⟩ := h
  change _ = _ + entered s.notify at hpushed
  cases heffect with
  | refuse w hfull hs =>
    subst hs
    have hfalse := count_record s.returned w false false
    have htrue := count_record s.returned w false true
    refine ⟨hsize, ?_, ?_⟩
    . rw [hfalse, ← hrefused]
      rfl
    . rw [htrue]
      exact hpushed
  | enter w m hw hroom hs =>
    subst hs
    have hle := waiting_le (s.notify.setSender w (.pushing m))
    have hentered := entered_moved (Notify.sender_setSender s.notify w (.pushing m))
    rw [hw] at hentered
    change _ + 0 = _ + 0 at hentered
    refine ⟨Or.inr ?_, hrefused, ?_⟩
    . dsimp only [Notify.setSender] at hle ⊢
      omega
    . dsimp only [Notify.setSender, record] at hentered ⊢
      omega
  | append w m hw hsize' hpushed' hsender hrefused' _ =>
    have hwaiting := waiting_moved hsender
    have hentered := entered_moved hsender
    rw [hw] at hwaiting hentered
    change _ + 1 = _ + 0 at hwaiting
    change _ + 0 = _ + 1 at hentered
    refine ⟨?_, hrefused'.trans hrefused, ?_⟩
    . dsimp only
      omega
    . dsimp only [record]
      rw [hpushed', List.length_append, List.length_singleton]
      omega
  | move w pc hwaiting hentered hqueue hsender hrefused' _ =>
    have hwaiting' := waiting_moved hsender
    have hentered' := entered_moved hsender
    refine ⟨?_, hrefused'.trans hrefused, ?_⟩
    . dsimp only
      rw [hqueue]
      omega
    . dsimp only [record]
      rw [hqueue]
      omega
  | done w k hw hs =>
    subst hs
    have hwaiting := waiting_moved (Notify.sender_setSender s.notify w .idle)
    have hentered := entered_moved (Notify.sender_setSender s.notify w .idle)
    have hfalse := count_record s.returned w true false
    have htrue := count_record s.returned w true true
    rw [hw] at hwaiting hentered
    change _ + 0 = _ + 0 at hwaiting
    change _ + 1 = _ + 0 at hentered
    refine ⟨?_, ?_, ?_⟩
    . dsimp only [Notify.setSender] at hwaiting ⊢
      omega
    . rw [hfalse]
      exact hrefused
    . rw [htrue]
      dsimp only [Notify.setSender] at hentered ⊢
      rw [if_pos rfl]
      omega
  | other hsender hsize' hpushed' hrefused' _ =>
    have hwaiting : waiting notify = waiting s.notify := by
      unfold waiting
      rw [hsender]
    have hentered : entered notify = entered s.notify := by
      unfold entered
      rw [hsender]
    refine ⟨?_, hrefused'.trans hrefused, ?_⟩
    . dsimp only
      omega
    . rw [hpushed']
      exact hpushed.trans (congrArg _ hentered.symm)

theorem Counted.step (h : Counted queueLimit s) (hstep : Step queueLimit s l s') : Counted queueLimit s' := by
  obtain ⟨-, hstep⟩ := hstep
  unfold PutCalls.step at hstep
  split at hstep
  . cases hstep
  . next notify hnotify =>
    cases hstep
    exact h.effect (.step hnotify)

theorem Counted.of_reaches (h : Run.Reaches (Step queueLimit) (PutCalls.init a) ls s) : Counted queueLimit s :=
  h.invariant (Counted queueLimit) (.init queueLimit a) fun _ _ _ ht hstep => ht.step hstep

theorem reaches_notify (h : Run.Reaches (Step queueLimit) (init a) ls s)
    : Run.Reaches (Notify.Step queueLimit) (.init a) ls s.notify := by
  induction h with
  | nil => exact .nil
  | snoc _ hstep ih =>
    obtain ⟨hlegal, hstep⟩ := hstep
    refine .snoc ih ⟨hlegal, ?_⟩
    unfold PutCalls.step at hstep
    split at hstep
    . cases hstep
    . next notify hnotify =>
      cases hstep
      exact hnotify

theorem reaches_of_notify {notify : Notify W} (h : Run.Reaches (Notify.Step queueLimit) (.init a) ls notify)
    : ∃ returned, Run.Reaches (Step queueLimit) (init a) ls ⟨notify, returned⟩ := by
  induction h with
  | nil => exact ⟨_, .nil⟩
  | @snoc ls t u l _ hstep ih =>
    obtain ⟨hlegal, hstep⟩ := hstep
    obtain ⟨returned, ih⟩ := ih
    refine ⟨record returned (t.returns queueLimit l), .snoc ih ⟨hlegal, ?_⟩⟩
    simp only [PutCalls.step, hstep]

theorem step_full (hidle : s.notify.sender w = .idle) (hfull : queueLimit ≤ s.notify.queue.size) (m : Message)
    : s.step queueLimit (.putMessage w m) =
        some ⟨s.notify.refuse, Function.update s.returned w (s.returned w ++ [false])⟩ := by
  simp only [PutCalls.step, Notify.step, Notify.putMessage, Notify.returns, hidle, ge_iff_le, if_pos hfull, record]

/--
With any interleaving of the workers, the storer and the master, the queue is never longer than the limit and
one message less than there are workers; a call that finds the limit reached returns `false` and changes
nothing but `msg_drop`, which it increments by one. No other step changes `msg_drop`, except that the master writes
back the copy that it has. Over the run every call that returned `true` has pushed one message, the others that have
pushed are still in `PutMessage`, and the counter that the master lowers is never below what it takes off.
-/
theorem putMessage_bounded (h : Run.Reaches (Step queueLimit) (init a : PutCalls W) ls s)
    : s.notify.queue.size ≤ queueLimit + W - 1 ∧
      (∀ w m, s.notify.sender w = .idle → queueLimit ≤ s.notify.queue.size →
        s.step queueLimit (.putMessage w m) =
          some ⟨{ s.notify with msgDrop := s.notify.msgDrop + 1, refused := s.notify.refused + 1 },
            Function.update s.returned w (s.returned w ++ [false])⟩) ∧
      (∀ l notify, l ≠ .storeStat → s.notify.step queueLimit l = some notify →
        notify.msgDrop + s.notify.refused = s.notify.msgDrop + notify.refused) ∧
      s.notify.refused = ∑ w, (s.returned w).count false ∧
      s.notify.queue.pushed.length =
        ∑ w, (s.returned w).count true + ∑ w, (s.notify.sender w).entered ∧
      s.notify.queue.gc.count ≤ s.notify.queue.size := by
  have hcounted := Counted.of_reaches h
  have hsize := hcounted.size_lt
  have hbalanced := Notify.Balanced.of_reaches (reaches_notify h)
  refine ⟨by omega, ?_, ?_, hcounted.refused_eq, hcounted.pushed_eq, ?_⟩
  . intro w m hidle hfull
    exact step_full hidle hfull m
  . intro l notify hl hstep
    exact Notify.msgDrop_step hl hstep
  . obtain ⟨ks, hreach⟩ := hbalanced.reaches
    obtain ⟨log, addrs, hok⟩ := MessageQueue.consistent_of_reaches hreach
    exact hok.count_le_size

theorem putMessage_bounded_raced
    : ∃ s : PutCalls 2,
        Run.Reaches (Step 1) (init 0)
          [.putMessage 0 ⟨⟨[97], by decide⟩, ⟨[98], by decide⟩⟩, .putMessage 1 ⟨⟨[97], by decide⟩, ⟨[99], by decide⟩⟩,
            .push 1 1, .push 0 2] s ∧
        s.notify.queue.size = 2 ∧ s.notify.queue.size ≤ 1 + 2 - 1 := by
  have hreach : ∃ s : PutCalls 2,
      Run.Reaches (Step 1) (init 0)
        [.putMessage 0 ⟨⟨[97], by decide⟩, ⟨[98], by decide⟩⟩, .putMessage 1 ⟨⟨[97], by decide⟩, ⟨[99], by decide⟩⟩,
          .push 1 1, .push 0 2] s ∧
      s.notify.queue.size = 2 :=
    ⟨_, .snoc (.snoc (.snoc (.single ⟨trivial, rfl⟩) ⟨trivial, rfl⟩) ⟨by rfl, rfl⟩) ⟨by rfl, rfl⟩, rfl⟩
  obtain ⟨s, hreach, hsize⟩ := hreach
  exact ⟨s, hreach, hsize, (putMessage_bounded hreach).1⟩

end PutCalls
end Kids
