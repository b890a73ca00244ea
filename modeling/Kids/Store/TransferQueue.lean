import Kids.Lib.Run
import Kids.Store.BufferStore

/-!
The queue of a `BufferStore` that is opened and closed any number of times. Both stores below it are given by
their operations, so that nothing is assumed about their answers.
-/

namespace Kids

structure OldStoreOps (τ : Type) extends StoreOps τ where
  haveOldMessage : τ → Bool × τ
  getOldestMessages : τ → List Message × τ
  deleteOldestMessages : τ → τ

/--
The queue belongs to the pointer alone, so that it is lost where the pointer is set anew.
-/
structure TransferStore (σ τ : Type) where
  isOpen : Bool
  state : BufferState
  primary : σ
  secondary : τ
  msgToTransfer : MsgQueue
  stat : BufferStat

namespace TransferStore

variable {σ τ : Type}

-- the constructor does not set `state_`
def init (state : BufferState) (primary : σ) (secondary : τ) (stat : BufferStat) : TransferStore σ τ where
  isOpen := false
  state := state
  primary := primary
  secondary := secondary
  msgToTransfer := .null
  stat := stat

def maxMsgPerCron : Nat := 100

variable (ops : StoreOps σ) (old : OldStoreOps τ) (topicMatch : Bytes → Bool)

-- `none` is an access to a queue that is NULL or deleted
def close (s : TransferStore σ τ) : Option (TransferStore σ τ) :=
  if s.isOpen then
    let s := { s with primary := ops.close s.primary, secondary := old.close s.secondary, isOpen := false }
    match s.msgToTransfer with
    | .null => some s
    | .deleted => none
    | .queue [] => some s
    | .queue (_ :: msgs) => some { s with
        msgToTransfer := .deleted
        stat := { s.stat with msgDrop := s.stat.msgDrop + UInt64.ofNat (msgs.length + 1) }
      }
  else
    some s

def openClosed (s : TransferStore σ τ) : Bool × TransferStore σ τ :=
  match ops.open_ s.primary with
  | (true, primary) =>
    match old.haveOldMessage s.secondary with
    | (true, secondary) => (true, { s with
        isOpen := true
        state := .transfering
        primary := primary
        secondary := secondary
        msgToTransfer := .queue []
      })
    | (false, secondary) => (true, { s with
        isOpen := true
        state := .toPrimary
        primary := primary
        secondary := secondary
      })
  | (false, primary) =>
    match old.open_ s.secondary with
    | (true, secondary) => (true, { s with
        isOpen := true
        state := .toSecondary
        primary := primary
        secondary := secondary
      })
    | (false, secondary) => (false, { s with isOpen := false, primary := primary, secondary := secondary })

def open_ (s : TransferStore σ τ) : Option (Bool × TransferStore σ τ) :=
  (s.close ops old).map (openClosed ops old)

def addToPrimary (s : TransferStore σ τ) (m : Message) : TransferStore σ τ :=
  let switch (primary : σ) : TransferStore σ τ :=
    { s with primary := primary, secondary := (old.open_ s.secondary).2, state := .toSecondary }
  match s.state with
  | .toPrimary =>
    match ops.isOpen s.primary with
    | (false, primary) => switch primary
    | (true, primary) =>
      match ops.addMessage m primary with
      | (false, primary) => switch primary
      | (true, primary) => { s with primary := primary }
  | _ => s

def openSecondary (secondary : τ) : τ :=
  match old.isOpen secondary with
  | (true, secondary) => secondary
  | (false, secondary) => (old.open_ secondary).2

def addToSecondary (s : TransferStore σ τ) (m : Message) : Bool × TransferStore σ τ :=
  match s.state with
  | .toPrimary => (true, s)
  | _ =>
    match old.addMessage m (openSecondary old s.secondary) with
    | (true, secondary) => (true, { s with secondary := secondary })
    | (false, secondary) => (false, { s with
        secondary := secondary
        stat := { s.stat with msgDrop := s.stat.msgDrop + 1 }
      })

def addMessage (s : TransferStore σ τ) (m : Message) : Bool × TransferStore σ τ :=
  if topicMatch m.topic.data then
    (s.addToPrimary ops old m).addToSecondary old m
  else
    (false, s)

def cronPrimaryOpen (s : TransferStore σ τ) : TransferStore σ τ :=
  match s.state with
  | .toPrimary => { s with secondary := (old.isOpen s.secondary).2 }
  | .toSecondary =>
    match ops.isOpen s.primary with
    | (true, primary) => { s with primary := primary, state := .transfering, msgToTransfer := .queue [] }
    | (false, primary) => { s with primary := primary }
  | .transfering => s

def cronTransfer (s : TransferStore σ τ) (queue : List Message) : TransferStore σ τ :=
  let t := BufferStore.transfer ops maxMsgPerCron queue s.primary
  { s with
    primary := t.primary
    msgToTransfer := .queue t.queue
    stat := { s.stat with msgBuffer := s.stat.msgBuffer - UInt64.ofNat (t.sent.length + t.refused.length) }
  }

def cronReadFile (s : TransferStore σ τ) : TransferStore σ τ :=
  if s.msgToTransfer.msgs = [] then
    match old.haveOldMessage s.secondary with
    | (true, secondary) =>
      let (msgs, secondary) := old.getOldestMessages (old.close secondary)
      { s with secondary := old.deleteOldestMessages secondary, msgToTransfer := .queue msgs }
    | (false, secondary) => { s with secondary := secondary }
  else
    s

def cronFinish (s : TransferStore σ τ) : TransferStore σ τ :=
  if s.msgToTransfer.msgs = [] then
    match old.haveOldMessage s.secondary with
    | (true, secondary) => { s with secondary := secondary }
    | (false, secondary) => { s with state := .toPrimary, secondary := old.close secondary, msgToTransfer := .null }
  else
    s

def cronTransfering (s : TransferStore σ τ) : Option (TransferStore σ τ) :=
  match s.state with
  | .transfering =>
    match s.msgToTransfer with
    | .queue queue => some (((s.cronTransfer ops queue).cronReadFile old).cronFinish old)
    | _ => none
  | _ => some s

def cron (s : TransferStore σ τ) : Option (TransferStore σ τ) :=
  if s.isOpen then
    ((s.cronPrimaryOpen ops old).cronTransfering ops old).map fun s =>
      { s with primary := ops.cron s.primary, secondary := old.cron s.secondary }
  else
    some s

inductive Call
  | open_
  | close
  | addMessage (m : Message)
  | cron

def call (s : TransferStore σ τ) : Call → Option (TransferStore σ τ)
  | .open_ => (s.open_ ops old).map (·.2)
  | .close => s.close ops old
  | .addMessage m => some (s.addMessage ops old topicMatch m).2
  | .cron => s.cron ops old

def Transfering (s : TransferStore σ τ) : Prop :=
  s.isOpen = true ∧ s.state = .transfering

/--
There is a queue exactly while messages are transferred, and it is not deleted.
-/
structure Tracked (s : TransferStore σ τ) : Prop where
  transfering : s.msgToTransfer ≠ .null ↔ s.Transfering
  live : s.msgToTransfer ≠ .deleted

/--
The calls that do not leave a queue behind: a store in a transfer is not closed, and it is opened only if the
transfer begins anew.
-/
def Keeps (s : TransferStore σ τ) : Call → Prop
  | .close => ¬s.Transfering
  | .open_ => s.Transfering →
      (ops.open_ (ops.close s.primary)).1 = true ∧ (old.haveOldMessage (old.close s.secondary)).1 = true
  | _ => True

variable {ops old topicMatch} {s t : TransferStore σ τ}

theorem Tracked.of_null (hnull : s.msgToTransfer = .null) (h : ¬s.Transfering) : Tracked s := by
  constructor
  . apply iff_of_false
    . apply not_not_intro hnull
    . apply h
  . rw [hnull]
    nofun

theorem Tracked.of_queue (hqueue : s.msgToTransfer = .queue msgs) (h : s.Transfering) : Tracked s := by
  constructor
  . apply iff_of_true
    . rw [hqueue]
      nofun
    . apply h
  . rw [hqueue]
    nofun

theorem Tracked.null (h : Tracked s) (hs : ¬s.Transfering) : s.msgToTransfer = .null := by
  by_contra hne
  apply hs
  apply h.transfering.mp hne

theorem Tracked.queue (h : Tracked s) (hs : s.Transfering) : ∃ msgs, s.msgToTransfer = .queue msgs := by
  have hne := h.transfering.mpr hs
  have hlive := h.live
  cases hq : s.msgToTransfer with
  | null => exact absurd hq hne
  | deleted => exact absurd hq hlive
  | queue msgs => exact ⟨msgs, rfl⟩

theorem tracked_init (state : BufferState) (primary : σ) (secondary : τ) (stat : BufferStat)
    : Tracked (init state primary secondary stat) := by
  apply Tracked.of_null
  . rfl
  . nofun

theorem tracked_openClosed_iff (ops : StoreOps σ) (old : OldStoreOps τ) (s : TransferStore σ τ)
    : Tracked (s.openClosed ops old).2 ↔
        (s.msgToTransfer ≠ .null → (ops.open_ s.primary).1 = true ∧ (old.haveOldMessage s.secondary).1 = true) := by
  unfold openClosed
  split
  . next primary hopen =>
    rw [hopen]
    split
    . next secondary hold =>
      rw [hold]
      apply iff_of_true
      . apply Tracked.of_queue
        . rfl
        . exact ⟨rfl, rfl⟩
      . exact fun _ => ⟨rfl, rfl⟩
    . next secondary hold =>
      rw [hold]
      constructor
      . intro h hne
        cases (h.transfering.mp hne).2
      . intro h
        apply Tracked.of_null
        . by_contra hne
          cases (h hne).2
        . nofun
  . next primary hopen =>
    rw [hopen]
    have hclosed : ∀ t : TransferStore σ τ, t.msgToTransfer = s.msgToTransfer → ¬t.Transfering →
        (Tracked t ↔ (s.msgToTransfer ≠ .null → false = true ∧ (old.haveOldMessage s.secondary).1 = true)) := by
      intro t hmsgs ht
      constructor
      . intro h hne
        exact absurd (h.transfering.mp (hmsgs ▸ hne)) ht
      . intro h
        apply Tracked.of_null
        . by_contra hne
          cases (h (hmsgs ▸ hne)).1
        . apply ht
    split
    . apply hclosed
      . rfl
      . nofun
    . apply hclosed
      . rfl
      . nofun

theorem close_eq (h : Tracked s) (hs : ¬s.Transfering) (ops : StoreOps σ) (old : OldStoreOps τ)
    : ∃ t, s.close ops old = some t ∧ t.msgToTransfer = .null ∧ ¬t.Transfering := by
  have hnull := h.null hs
  unfold close
  split
  . dsimp only
    rw [hnull]
    exact ⟨_, rfl, rfl, nofun⟩
  . exact ⟨s, rfl, hnull, hs⟩

theorem close_transfering (h : Tracked s) (hs : s.Transfering) (ops : StoreOps σ) (old : OldStoreOps τ)
    : ∃ t, s.close ops old = some t ∧ t.msgToTransfer ≠ .null ∧ ¬t.Transfering ∧ t.primary = ops.close s.primary ∧
        t.secondary = old.close s.secondary := by
  obtain ⟨msgs, hqueue⟩ := h.queue hs
  unfold close
  rw [if_pos hs.1]
  dsimp only
  rw [hqueue]
  cases msgs with
  | nil => exact ⟨_, rfl, nofun, nofun, rfl, rfl⟩
  | cons m msgs => exact ⟨_, rfl, nofun, nofun, rfl, rfl⟩

theorem addMessage_frame (ops : StoreOps σ) (old : OldStoreOps τ) (topicMatch : Bytes → Bool) (s : TransferStore σ τ)
    (m : Message)
    : (s.addMessage ops old topicMatch m).2.msgToTransfer = s.msgToTransfer ∧
        ((s.addMessage ops old topicMatch m).2.Transfering ↔ s.Transfering) := by
  unfold addMessage
  split
  . have hsecond : ∀ t : TransferStore σ τ, (t.addToSecondary old m).2.msgToTransfer = t.msgToTransfer ∧
        ((t.addToSecondary old m).2.Transfering ↔ t.Transfering) := by
      intro t
      unfold addToSecondary
      split
      . exact ⟨rfl, .rfl⟩
      . split
        . exact ⟨rfl, .rfl⟩
        . exact ⟨rfl, .rfl⟩
    have hfirst : (s.addToPrimary ops old m).msgToTransfer = s.msgToTransfer ∧
        ((s.addToPrimary ops old m).Transfering ↔ s.Transfering) := by
      unfold addToPrimary Transfering
      dsimp only
      split
      . next hstate =>
        rw [hstate]
        split
        . exact ⟨rfl, by simp⟩
        . split
          . exact ⟨rfl, by simp⟩
          . exact ⟨rfl, by simp⟩
      . exact ⟨rfl, .rfl⟩
    obtain ⟨hmsgs, hiff⟩ := hsecond (s.addToPrimary ops old m)
    exact ⟨hmsgs.trans hfirst.1, hiff.trans hfirst.2⟩
  . exact ⟨rfl, .rfl⟩

theorem tracked_cronPrimaryOpen (h : Tracked s) (hopen : s.isOpen = true) (ops : StoreOps σ) (old : OldStoreOps τ)
    : Tracked (s.cronPrimaryOpen ops old) ∧ (s.cronPrimaryOpen ops old).isOpen = true := by
  unfold cronPrimaryOpen
  split
  . next hstate => exact ⟨⟨h.transfering, h.live⟩, hopen⟩
  . next hstate =>
    have hs : ¬s.Transfering := by
      intro hs
      cases hstate.symm.trans hs.2
    split
    . exact ⟨.of_queue rfl ⟨hopen, rfl⟩, hopen⟩
    . exact ⟨.of_null (h.null hs) hs, hopen⟩
  . exact ⟨h, hopen⟩

/--
In the middle of a tick of a transfer.
-/
def Ongoing (s : TransferStore σ τ) : Prop :=
  s.Transfering ∧ ∃ msgs, s.msgToTransfer = .queue msgs

theorem ongoing_cronReadFile (h : Ongoing s) (old : OldStoreOps τ) : Ongoing (s.cronReadFile old) := by
  unfold cronReadFile
  split
  . split
    . exact ⟨h.1, _, rfl⟩
    . exact ⟨h.1, h.2⟩
  . exact h

theorem tracked_cronFinish (h : Ongoing s) (old : OldStoreOps τ) : Tracked (s.cronFinish old) := by
  obtain ⟨hs, msgs, hqueue⟩ := h
  unfold cronFinish
  split
  . split
    . exact .of_queue hqueue hs
    . exact .of_null rfl nofun
  . exact .of_queue hqueue hs

theorem tracked_cronTransfering (h : Tracked s) (hopen : s.isOpen = true) (ops : StoreOps σ) (old : OldStoreOps τ)
    : ∃ t, s.cronTransfering ops old = some t ∧ Tracked t := by
  unfold cronTransfering
  split
  . next hstate =>
    have hs : s.Transfering := ⟨hopen, hstate⟩
    obtain ⟨msgs, hqueue⟩ := h.queue hs
    rw [hqueue]
    refine ⟨_, rfl, ?_⟩
    apply tracked_cronFinish
    apply ongoing_cronReadFile
    exact ⟨hs, _, rfl⟩
  . exact ⟨s, rfl, h⟩

theorem tracked_cron (h : Tracked s) (ops : StoreOps σ) (old : OldStoreOps τ)
    : ∃ t, s.cron ops old = some t ∧ Tracked t := by
  unfold cron
  split
  . next hopen =>
    obtain ⟨hfirst, hstill⟩ := tracked_cronPrimaryOpen h hopen ops old
    obtain ⟨t, ht, htracked⟩ := tracked_cronTransfering hfirst hstill ops old
    rw [ht]
    exact ⟨_, rfl, htracked.transfering, htracked.live⟩
  . exact ⟨s, rfl, h⟩

theorem tracked_open_iff (h : Tracked s) (ops : StoreOps σ) (old : OldStoreOps τ)
    : ∃ t, s.open_ ops old = some t ∧ (Tracked t.2 ↔ s.Keeps ops old .open_) := by
  unfold open_
  by_cases hs : s.Transfering
  . -- the queue that `Close` has left is in the way unless a new one takes its place
    obtain ⟨t, ht, hne, -, hprimary, hsecondary⟩ := close_transfering h hs ops old
    rw [ht]
    refine ⟨_, rfl, ?_⟩
    rw [tracked_openClosed_iff, hprimary, hsecondary]
    constructor
    . exact fun hfresh _ => hfresh hne
    . exact fun hkeeps _ => hkeeps hs
  . obtain ⟨t, ht, hnull, -⟩ := close_eq h hs ops old
    rw [ht]
    refine ⟨_, rfl, ?_⟩
    rw [tracked_openClosed_iff]
    apply iff_of_true
    . exact fun hne => absurd hnull hne
    . exact fun htransfering => absurd htransfering hs

theorem tracked_call_iff (topicMatch : Bytes → Bool) (h : Tracked s) (c : Call)
    : ∃ t, s.call ops old topicMatch c = some t ∧ (Tracked t ↔ s.Keeps ops old c) := by
  cases c with
  | open_ =>
    obtain ⟨t, ht, hiff⟩ := tracked_open_iff h ops old
    exact ⟨t.2, by rw [call, ht, Option.map_some], hiff⟩
  | close =>
    by_cases hs : s.Transfering
    . obtain ⟨t, ht, hne, hclosed, -⟩ := close_transfering h hs ops old
      refine ⟨t, ht, iff_of_false ?_ (not_not_intro hs)⟩
      intro htracked
      apply hclosed
      apply htracked.transfering.mp hne
    . obtain ⟨t, ht, hnull, hclosed⟩ := close_eq h hs ops old
      exact ⟨t, ht, iff_of_true (.of_null hnull hclosed) hs⟩
  | addMessage m =>
    obtain ⟨hmsgs, hiff⟩ := addMessage_frame ops old topicMatch s m
    refine ⟨_, rfl, iff_of_true ?_ trivial⟩
    constructor
    . rw [hmsgs, hiff]
      apply h.transfering
    . rw [hmsgs]
      apply h.live
  | cron =>
    obtain ⟨t, ht, htracked⟩ := tracked_cron h ops old
    exact ⟨t, ht, iff_of_true htracked trivial⟩

/--
Over any calls and any answers of the two stores, the queue lives as long as the transfer and is only used while it
lives, exactly if no call ends a transfer by closing the store.
-/
theorem tracked_run_iff (ops : StoreOps σ) (old : OldStoreOps τ) (topicMatch : Bytes → Bool) (state : BufferState)
    (primary : σ) (secondary : τ) (stat : BufferStat) (calls : List Call)
    : Run.Along (call ops old topicMatch) Tracked (init state primary secondary stat) calls ↔
        Run.Meets (call ops old topicMatch) (Keeps ops old) (init state primary secondary stat) calls := by
  apply Run.Along.iff_meets (fun _ => True) (fun _ => True)
  . trivial
  . apply tracked_init
  . exact fun _ _ => trivial
  . intro s c _ hs _
    obtain ⟨t, ht, hiff⟩ := tracked_call_iff topicMatch hs c
    exact ⟨t, ht, trivial, hiff⟩

-- both stores are up, and the primary one takes nothing
def refusingOps : StoreOps Unit where
  open_ := fun s => (true, s)
  isOpen := fun s => (true, s)
  addMessage := fun _ s => (false, s)
  close := fun s => s
  cron := fun s => s

-- one file with messages
def oneFileOps (msgs : List Message) : OldStoreOps Bool where
  open_ := fun s => (true, s)
  isOpen := fun s => (true, s)
  addMessage := fun _ s => (true, s)
  close := fun s => s
  cron := fun s => s
  haveOldMessage := fun s => (s, s)
  getOldestMessages := fun s => (if s then msgs else [], s)
  deleteOldestMessages := fun _ => false

-- the queue that the first `Close` deletes is looked at by the second
theorem tracked_fails_closed_twice
    : ¬Run.Along (call refusingOps (oneFileOps [.ofBytes 97 98, .ofBytes 97 99]) fun _ => true) Tracked
        (init .toPrimary () true ⟨0, 0, 0⟩) [.open_, .cron, .close, .open_, .close] := by
  rintro ⟨-, s, hopen, -, t, hcron, -, u, hclose, -, v, hreopen, -, w, hagain, -⟩
  cases hopen
  cases hcron
  cases hclose
  cases hreopen
  cases hagain

end TransferStore
end Kids
