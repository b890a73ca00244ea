import Kids.Store.BufferStore
import Kids.Store.FileStoreLemmas
import Kids.Lib.Run

/-!
Where the messages are that a `BufferStore` has taken. Each of them is with the primary store, in a file, in
memory or counted as dropped, except for those that the primary store refuses while they are transferred.
-/

namespace Kids
namespace BufferStore

variable {σ : Type} {ops : StoreOps σ} {conf : BufferConfig} {s t : BufferStore σ}

structure Accounted (s : BufferStore σ) : Prop where
  wf : s.secondary.Wf
  count_eq : ∀ m, s.accepted.count m = s.toPrimary.count m + s.secondary.messages.count m +
    s.msgToTransfer.msgs.count m + s.discarded.count m + s.refused.count m
  queue_of_transfering : s.isOpen = true → s.state = .transfering → ∃ queue, s.msgToTransfer = .queue queue
  no_queue : s.state ≠ .transfering → s.msgToTransfer.msgs = []

def Conserved (s : BufferStore σ) : Prop :=
  s.accepted.Perm (s.toPrimary ++ s.secondary.messages ++ s.msgToTransfer.msgs ++ s.discarded)

def PrimaryTakes (ops : StoreOps σ) : Nat → List Message → σ → Prop
  | 0, _, _ => True
  | _, [], _ => True
  | budget + 1, m :: queue, primary =>
    (ops.addMessage m primary).1 = true ∧ PrimaryTakes ops budget queue (ops.addMessage m primary).2

/--
`msg_drop` counts each message that was discarded or could not be kept.
-/
def CountsDrops (before : UInt64) (s : BufferStore σ) : Prop :=
  s.stat.msgDrop = before + UInt64.ofNat (s.discarded.length + s.declined.length)

-- the tick has nothing left in memory and goes on to read a file
def LoadsFile (ops : StoreOps σ) (conf : BufferConfig) (s : BufferStore σ) : Prop :=
  s.isOpen = true ∧
    (s.state = .toSecondary ∧ (ops.isOpen s.primary).1 = true ∨
      s.state = .transfering ∧ (transfer ops conf.maxMsgPerCron s.msgToTransfer.msgs s.primary).queue = [])

-- a tick that goes on to read a file closes the one that is open, so that it is not rotated
def RotationDefined (ops : StoreOps σ) (conf : BufferConfig) (s : BufferStore σ) : Label → Prop
  | .cron _ => s.isOpen = true → s.secondary.isOpen = true → s.secondary.rotateInterval = 0 → LoadsFile ops conf s
  | _ => True

def TransferTaken (ops : StoreOps σ) (conf : BufferConfig) (s : BufferStore σ) : Label → Prop
  | .cron _ =>
    s.isOpen = true → s.state = .transfering → PrimaryTakes ops conf.maxMsgPerCron s.msgToTransfer.msgs s.primary
  | _ => True

theorem conserved_iff (h : Accounted s) : Conserved s ↔ s.refused = [] := by
  unfold Conserved
  rw [List.perm_iff_count]
  constructor
  . intro hcount
    rw [List.eq_nil_iff_forall_not_mem]
    intro m hm
    have hpos := List.count_pos_iff.mpr hm
    have hall := h.count_eq m
    have hpart := hcount m
    simp only [List.count_append] at hpart
    omega
  . intro hrefused m
    have hall := h.count_eq m
    rw [hrefused] at hall
    simp only [List.count_append, List.count_nil] at hall ⊢
    omega

theorem transfer_count (ops : StoreOps σ) (budget : Nat) (queue : List Message) (primary : σ) (m : Message)
    : queue.count m = (transfer ops budget queue primary).queue.count m +
        (transfer ops budget queue primary).sent.count m + (transfer ops budget queue primary).refused.count m := by
  induction budget generalizing queue primary with
  | zero => simp [transfer]
  | succ budget ih =>
    cases queue with
    | nil => simp [transfer]
    | cons m' queue =>
      unfold transfer
      split
      . next primary' _ =>
        have hrest := ih queue primary'
        simp only [List.count_cons]
        omega
      . simp only [List.count_cons, List.count_nil]
        omega

theorem transfer_refused_iff (ops : StoreOps σ) (budget : Nat) (queue : List Message) (primary : σ)
    : (transfer ops budget queue primary).refused = [] ↔ PrimaryTakes ops budget queue primary := by
  induction budget generalizing queue primary with
  | zero => simp [transfer, PrimaryTakes]
  | succ budget ih =>
    cases queue with
    | nil => simp [transfer, PrimaryTakes]
    | cons m queue =>
      unfold transfer PrimaryTakes
      split
      . next primary' hadd =>
        rw [hadd]
        simpa using ih queue primary'
      . next primary' hadd =>
        rw [hadd]
        simp

-- the primary store is in use and takes the message
def TakesDirectly (ops : StoreOps σ) (s : BufferStore σ) (m : Message) : Prop :=
  s.state = .toPrimary ∧ (ops.isOpen s.primary).1 = true ∧ (ops.addMessage m (ops.isOpen s.primary).2).1 = true

-- the message goes to a file
def WritesFile (ops : StoreOps σ) (conf : BufferConfig) (s : BufferStore σ) (m : Message) : Prop :=
  conf.topicMatch m.topic.data = true ∧ conf.secondaryTopicMatch m.topic.data = true ∧ ¬TakesDirectly ops s m

theorem Accounted.addToPrimary (h : Accounted s) (ops : StoreOps σ) (conf : BufferConfig) (env : Env) (m : Message)
    : (∃ t, s.addToPrimary ops conf env m = (false, t) ∧ t.refused = s.refused ∧
          Accounted { t with accepted := t.accepted ++ [m] }) ∨
        ∃ t, s.addToPrimary ops conf env m = (true, t) ∧ t.refused = s.refused ∧ Accounted t ∧
          ¬TakesDirectly ops s m := by
  have hswitch : ∀ primary : σ, s.state = .toPrimary → Accounted { s with
      primary := primary
      secondary := s.secondary.open_ conf.makeName env
      state := .toSecondary } := by
    intro primary hstate
    refine ⟨h.wf.open_ _ _, ?_, ?_, ?_⟩
    . intro m'
      rw [FileStore.count_open h.wf]
      exact h.count_eq m'
    . intro _ hcontra
      cases hcontra
    . intro _
      apply h.no_queue
      rw [hstate]
      simp
  unfold BufferStore.addToPrimary
  dsimp only
  split
  . next hstate =>
    split
    . next p hp =>
      refine .inr ⟨_, rfl, rfl, hswitch _ hstate, ?_⟩
      rintro ⟨-, hopen, -⟩
      rw [hp] at hopen
      cases hopen
    . next p hp =>
      split
      . next p' hp' =>
        refine .inr ⟨_, rfl, rfl, hswitch _ hstate, ?_⟩
        rintro ⟨-, -, htakes⟩
        rw [hp] at htakes
        dsimp only at htakes
        rw [hp'] at htakes
        cases htakes
      . refine .inl ⟨_, rfl, rfl, h.wf, ?_, h.queue_of_transfering, h.no_queue⟩
        intro m'
        have hall := h.count_eq m'
        simp only [List.count_append] at hall ⊢
        omega
  . next hstate => exact .inr ⟨s, rfl, rfl, h, fun htakes => hstate htakes.1⟩

theorem Accounted.addToSecondary (h : Accounted s) (conf : BufferConfig) (env : Env)
    (hm : conf.secondaryTopicMatch m.topic.data = true → File.NonEmpty m)
    : ∃ taken t, s.addToSecondary conf env m = some (taken, t) ∧ t.refused = s.refused ∧
        Accounted { t with accepted := if taken then t.accepted ++ [m] else t.accepted } := by
  have hopened : ∃ fs name,
      (if s.secondary.isOpen then s.secondary else s.secondary.open_ conf.makeName env) = fs ∧
        fs.secondaryFile = some name ∧ fs.Wf ∧ ∀ m', fs.messages.count m' = s.secondary.messages.count m' := by
    split
    . next hopen =>
      obtain ⟨name, hname⟩ := Option.isSome_iff_exists.mp hopen
      exact ⟨_, name, rfl, hname, h.wf, fun _ => rfl⟩
    . exact ⟨_, _, rfl, rfl, h.wf.open_ _ _, FileStore.count_open h.wf _ _⟩
  obtain ⟨fs, name, hfs, hname, hwf, hcount⟩ := hopened
  unfold BufferStore.addToSecondary
  rw [hfs]
  dsimp only
  split
  . next hmatch =>
    obtain ⟨hwf', hcount'⟩ := hwf.addMessage hname (hm hmatch) env
    rw [hname]
    refine ⟨true, _, rfl, rfl, hwf', ?_, h.queue_of_transfering, h.no_queue⟩
    intro m'
    have hall := h.count_eq m'
    simp only [if_true, List.count_append, hcount', hcount] at hall ⊢
    omega
  . refine ⟨false, _, rfl, rfl, hwf, ?_, h.queue_of_transfering, h.no_queue⟩
    intro m'
    rw [hcount]
    exact h.count_eq m'

theorem Accounted.addMessage (h : Accounted s) (ops : StoreOps σ) (conf : BufferConfig) (env : Env)
    (hm : WritesFile ops conf s m → File.NonEmpty m)
    : ∃ t, s.addMessage ops conf env m = some t ∧ t.refused = s.refused ∧ Accounted t := by
  unfold BufferStore.addMessage doAddMessage
  split
  . next hmatch =>
    rcases h.addToPrimary ops conf env m with ⟨t, ht, hrefused, hok⟩ | ⟨t, ht, hrefused, hok, hnot⟩
    . rw [ht]
      exact ⟨_, rfl, hrefused, hok⟩
    . obtain ⟨taken, u, hu, hrefused', hok'⟩ := hok.addToSecondary conf env fun hsecondary => hm ⟨hmatch, hsecondary, hnot⟩
      simp only [ht, hu]
      cases taken with
      | true => exact ⟨_, rfl, hrefused'.trans hrefused, hok'⟩
      | false => exact ⟨_, rfl, hrefused'.trans hrefused, hok'⟩
  . exact ⟨s, rfl, rfl, h⟩

theorem Accounted.cronPrimaryOpen (h : Accounted s) (ops : StoreOps σ)
    : Accounted (s.cronPrimaryOpen ops) ∧ (s.cronPrimaryOpen ops).refused = s.refused ∧
        (s.cronPrimaryOpen ops).isOpen = s.isOpen ∧
        (s.state = .transfering → s.cronPrimaryOpen ops = s) ∧
        (s.state ≠ .transfering → (s.cronPrimaryOpen ops).msgToTransfer.msgs = []) := by
  unfold BufferStore.cronPrimaryOpen
  split
  . next hstate =>
    have hqueue := h.no_queue (by rw [hstate]; simp)
    split
    . refine ⟨⟨h.wf, ?_, ?_, ?_⟩, rfl, rfl, ?_, fun _ => rfl⟩
      . intro m
        have hall := h.count_eq m
        rw [hqueue] at hall
        exact hall
      . intro _ _
        exact ⟨[], rfl⟩
      . intro _
        rfl
      . intro htransfering
        rw [hstate] at htransfering
        cases htransfering
    . refine ⟨{ h with }, rfl, rfl, ?_, fun _ => hqueue⟩
      intro htransfering
      rw [hstate] at htransfering
      cases htransfering
  . exact ⟨h, rfl, rfl, fun _ => rfl, h.no_queue⟩

theorem Accounted.cronTransfer (h : Accounted s) (ops : StoreOps σ) (conf : BufferConfig)
    (hstate : s.state = .transfering)
    (hqueue : s.msgToTransfer = .queue queue)
    : Accounted (s.cronTransfer ops conf queue) := by
  refine ⟨h.wf, ?_, ?_, ?_⟩
  . intro m
    have hall := h.count_eq m
    have htransfer := transfer_count ops conf.maxMsgPerCron queue s.primary m
    rw [hqueue] at hall
    simp only [BufferStore.cronTransfer, MsgQueue.msgs, List.count_append] at hall ⊢
    omega
  . intro _ _
    exact ⟨_, rfl⟩
  . intro hne
    exact absurd hstate hne

theorem Accounted.cronReadFile (h : Accounted s) (env : Env) (hstate : s.state = .transfering)
    (hqueue : s.msgToTransfer = .queue queue)
    : ∃ t queue', s.cronReadFile env queue = some t ∧ t.refused = s.refused ∧
        t.msgToTransfer = .queue queue' ∧ Accounted t := by
  unfold BufferStore.cronReadFile
  split
  . have hclosed : (s.secondary.close env).secondaryFile = none := by
      unfold FileStore.close
      split
      . next hnone => exact hnone
      . rfl
    obtain ⟨msgs, hget, hwf, hcount⟩ := (h.wf.close env).takeOldest hclosed
    dsimp only
    rw [hget]
    refine ⟨_, _, rfl, rfl, rfl, hwf, ?_, ?_, ?_⟩
    . intro m
      have hall := h.count_eq m
      have hclose := FileStore.count_close h.wf env m
      have htake := hcount m
      rw [hqueue] at hall
      simp only [MsgQueue.msgs, List.count_append] at hall ⊢
      omega
    . intro _ _
      exact ⟨_, rfl⟩
    . intro hne
      exact absurd hstate hne
  . exact ⟨s, queue, rfl, rfl, hqueue, h⟩

theorem Accounted.cronFinish (h : Accounted s) (env : Env) (hqueue : s.msgToTransfer = .queue queue)
    : Accounted (s.cronFinish env queue) := by
  unfold BufferStore.cronFinish
  split
  . next hempty =>
    refine ⟨h.wf.close env, ?_, ?_, fun _ => rfl⟩
    . intro m
      have hall := h.count_eq m
      rw [hqueue, hempty.1] at hall
      rw [FileStore.count_close h.wf]
      exact hall
    . intro _ hcontra
      cases hcontra
  . exact h

theorem isOpen_close (fs : FileStore) (env : Env) : (fs.close env).isOpen = false := by
  unfold FileStore.close FileStore.isOpen
  split
  . next hnone => rw [hnone]; rfl
  . rfl

theorem rotateInterval_close (fs : FileStore) (env : Env) : (fs.close env).rotateInterval = fs.rotateInterval := by
  unfold FileStore.close
  split <;> rfl

theorem deleteOldestMessages_frame (fs : FileStore)
    : fs.deleteOldestMessages.isOpen = fs.isOpen ∧ fs.deleteOldestMessages.rotateInterval = fs.rotateInterval := by
  unfold FileStore.deleteOldestMessages
  split
  . exact ⟨rfl, rfl⟩
  . exact ⟨rfl, rfl⟩

theorem cronReadFile_secondary (h : s.cronReadFile env queue = some t)
    : t.secondary.rotateInterval = s.secondary.rotateInterval ∧
        (queue = [] → s.secondary.haveOldMessage = true → t.secondary.isOpen = false) ∧
        (queue ≠ [] ∨ s.secondary.haveOldMessage = false → t = s) := by
  unfold BufferStore.cronReadFile at h
  split at h
  . next hread =>
    dsimp only at h
    split at h
    . cases h
    . cases h
      obtain ⟨hopen, hinterval⟩ := deleteOldestMessages_frame (s.secondary.close env)
      refine ⟨hinterval.trans (rotateInterval_close _ _), fun _ _ => hopen.trans (isOpen_close _ _), ?_⟩
      rintro (hne | hnone)
      . exact absurd hread.1 hne
      . exact absurd (hread.2.symm.trans hnone) (by decide)
  . next hread =>
    cases h
    refine ⟨rfl, ?_, fun _ => rfl⟩
    exact fun hqueue hold => absurd ⟨hqueue, hold⟩ hread

theorem cronFinish_secondary (s : BufferStore σ) (env : Env) (queue : List Message)
    : (s.cronFinish env queue).secondary.rotateInterval = s.secondary.rotateInterval ∧
        (s.secondary.isOpen = false → (s.cronFinish env queue).secondary.isOpen = false) ∧
        (queue = [] → s.secondary.haveOldMessage = false → (s.cronFinish env queue).secondary.isOpen = false) ∧
        (queue ≠ [] → s.cronFinish env queue = s) := by
  unfold BufferStore.cronFinish
  split
  . next hfinish =>
    refine ⟨rotateInterval_close _ _, fun _ => isOpen_close _ _, fun _ _ => isOpen_close _ _, ?_⟩
    exact fun hne => absurd hfinish.1 hne
  . next hfinish =>
    refine ⟨rfl, id, ?_, fun _ => rfl⟩
    intro hqueue hnone
    refine absurd ⟨hqueue, ?_⟩ hfinish
    rw [hnone]
    exact Bool.false_ne_true

theorem cronTransfering_secondary (h : s.cronTransfering ops conf env = some t)
    : t.secondary.rotateInterval = s.secondary.rotateInterval ∧
        (t.secondary.isOpen = true → t.secondary = s.secondary) ∧
        (t.secondary.isOpen = true ↔ s.secondary.isOpen = true ∧ ¬(s.state = .transfering ∧
          (transfer ops conf.maxMsgPerCron s.msgToTransfer.msgs s.primary).queue = [])) := by
  unfold BufferStore.cronTransfering at h
  split at h
  . next hstate =>
    split at h
    . next queue hqueue =>
      dsimp only at h
      split at h
      . cases h
      . next u hu =>
        cases h
        obtain ⟨hinterval, hread, hskip⟩ := cronReadFile_secondary hu
        obtain ⟨hinterval', hclosed, hfinish, hleave⟩ := cronFinish_secondary u env u.msgToTransfer.msgs
        refine ⟨hinterval'.trans hinterval, ?_⟩
        rw [hqueue]
        change _ ∧ (_ ↔ _ ∧ ¬(_ ∧ (transfer ops conf.maxMsgPerCron queue s.primary).queue = []))
        rw [and_iff_right hstate]
        by_cases hsent : (transfer ops conf.maxMsgPerCron queue s.primary).queue = []
        . have hnot : ¬(u.cronFinish env u.msgToTransfer.msgs).secondary.isOpen = true := by
            rw [Bool.not_eq_true]
            cases hold : s.secondary.haveOldMessage with
            | true => exact hclosed (hread hsent hold)
            | false =>
              obtain rfl := hskip (.inr hold)
              exact hfinish hsent hold
          exact ⟨fun hopen => absurd hopen hnot, iff_of_false hnot fun hand => hand.2 hsent⟩
        . obtain rfl := hskip (.inl hsent)
          rw [hleave hsent]
          exact ⟨fun _ => rfl, (and_iff_left hsent).symm⟩
    . cases h
  . next hstate =>
    cases h
    refine ⟨rfl, fun _ => rfl, (and_iff_left ?_).symm⟩
    exact fun hand => hstate hand.1

theorem cronFinish_refused (s : BufferStore σ) (env : Env) (queue : List Message)
    : (s.cronFinish env queue).refused = s.refused := by
  unfold BufferStore.cronFinish
  split <;> rfl

theorem Accounted.cronTransfering (h : Accounted s) (ops : StoreOps σ) (conf : BufferConfig) (env : Env)
    (hopen : s.isOpen = true)
    : ∃ t, s.cronTransfering ops conf env = some t ∧ Accounted t ∧
        t.refused = s.refused ++
          if s.state = .transfering then (transfer ops conf.maxMsgPerCron s.msgToTransfer.msgs s.primary).refused
          else [] := by
  unfold BufferStore.cronTransfering
  split
  . next hstate =>
    obtain ⟨queue, hqueue⟩ := h.queue_of_transfering hopen hstate
    have htransfer := h.cronTransfer ops conf hstate hqueue
    have hmsgs : (s.cronTransfer ops conf queue).msgToTransfer =
        .queue (transfer ops conf.maxMsgPerCron queue s.primary).queue := rfl
    obtain ⟨t, queue', ht, hrefused, hqueue', hok⟩ := htransfer.cronReadFile env hstate hmsgs
    refine ⟨t.cronFinish env queue', ?_, hok.cronFinish env hqueue', ?_⟩
    . simp only [hqueue, hmsgs, MsgQueue.msgs, ht, hqueue']
    . rw [cronFinish_refused, hrefused, if_pos hstate, hqueue]
      rfl
  . next hstate =>
    refine ⟨s, rfl, h, ?_⟩
    rw [if_neg (by simpa using hstate), List.append_nil]

theorem transfer_nil (ops : StoreOps σ) (budget : Nat) (primary : σ)
    : transfer ops budget [] primary = ⟨[], primary, [], []⟩ := by
  cases budget <;> rfl

theorem cronPrimaryOpen_secondary (ops : StoreOps σ) (s : BufferStore σ)
    : (s.cronPrimaryOpen ops).secondary = s.secondary := by
  unfold BufferStore.cronPrimaryOpen
  split
  . split <;> rfl
  . rfl

theorem loadsFile_iff (hopen : s.isOpen = true)
    : LoadsFile ops conf s ↔ (s.cronPrimaryOpen ops).state = .transfering ∧
        (transfer ops conf.maxMsgPerCron (s.cronPrimaryOpen ops).msgToTransfer.msgs
          (s.cronPrimaryOpen ops).primary).queue = [] := by
  unfold LoadsFile BufferStore.cronPrimaryOpen
  rw [and_iff_right hopen]
  cases hstate : s.state with
  | toPrimary => simp [hstate]
  | toSecondary =>
    dsimp only
    split
    . next p hp => simp [hp, MsgQueue.msgs, transfer_nil]
    . next p hp => simp [hp]
  | transfering => simp [hstate]

theorem Accounted.cron_isSome_iff (h : Accounted s) (ops : StoreOps σ) (conf : BufferConfig) (env : Env)
    : (s.cron ops conf env).isSome = true ↔ RotationDefined ops conf s (.cron env) := by
  unfold BufferStore.cron RotationDefined
  split
  . next hopen =>
    obtain ⟨hok, -, hopen', -⟩ := h.cronPrimaryOpen ops
    obtain ⟨t, ht, -⟩ := hok.cronTransfering ops conf env (hopen'.trans hopen)
    obtain ⟨hinterval, -, hiff⟩ := cronTransfering_secondary ht
    rw [cronPrimaryOpen_secondary] at hinterval hiff
    rw [ht, loadsFile_iff hopen]
    simp only [hopen, true_implies, Option.isSome_map, FileStore.cron_isSome_iff, hinterval, hiff]
    constructor
    . intro hdefined hfile hzero
      by_contra hnot
      exact hdefined ⟨hfile, hnot⟩ hzero
    . rintro hloads ⟨hfile, hnot⟩ hzero
      exact hnot (hloads hfile hzero)
  . next hclosed => exact iff_of_true rfl fun hopen => absurd hopen hclosed

theorem Accounted.cron (h : Accounted s) (ht : s.cron ops conf env = some t)
    : Accounted t ∧ (t.refused = s.refused ↔ TransferTaken ops conf s (.cron env)) := by
  unfold BufferStore.cron at ht
  unfold TransferTaken
  split at ht
  . next hopen =>
    obtain ⟨hok, hrefused, hopen', hsame, hempty⟩ := h.cronPrimaryOpen ops
    obtain ⟨u, hu, hok', hrefused'⟩ := hok.cronTransfering ops conf env (hopen'.trans hopen)
    rw [hu] at ht
    obtain ⟨fs, hfs, rfl⟩ := Option.map_eq_some_iff.mp ht
    refine ⟨⟨hok'.wf.cron hfs, ?_, hok'.queue_of_transfering, hok'.no_queue⟩, ?_⟩
    . intro m
      rw [FileStore.count_cron hok'.wf hfs]
      exact hok'.count_eq m
    . rw [hrefused', hrefused, List.append_right_eq_self]
      by_cases hstate : s.state = .transfering
      . rw [hsame hstate, if_pos hstate, transfer_refused_iff]
        simp [hopen, hstate]
      . -- a transfer that has only begun has nothing in memory
        rw [hempty hstate]
        simp only [hstate, false_implies, implies_true, iff_true]
        split
        . rw [transfer_refused_iff]
          cases conf.maxMsgPerCron <;> trivial
        . rfl
  . next hclosed =>
    cases ht
    refine ⟨h, ?_⟩
    simp [hclosed]

theorem Accounted.close (h : Accounted s) (ops : StoreOps σ) (env : Env)
    : Accounted (s.close ops env) ∧ (s.close ops env).refused = s.refused := by
  unfold BufferStore.close
  split
  . dsimp only
    split
    . next m msgs hqueue =>
      refine ⟨⟨h.wf.close env, ?_, ?_, fun _ => rfl⟩, rfl⟩
      . intro m'
        have hall := h.count_eq m'
        have hclose := FileStore.count_close h.wf env m'
        rw [hqueue] at hall
        simp only [MsgQueue.msgs, List.count_append, List.count_nil] at hall ⊢
        omega
      . intro hcontra
        cases hcontra
    . refine ⟨⟨h.wf.close env, ?_, ?_, h.no_queue⟩, rfl⟩
      . intro m
        rw [FileStore.count_close h.wf]
        exact h.count_eq m
      . intro hcontra
        cases hcontra
  . exact ⟨h, rfl⟩

def Label.NonEmpty : Label → Prop
  | .addMessage _ m => m.topic.data ≠ [] ∧ m.content.data ≠ []
  | _ => True

theorem Accounted.keeps (h : Accounted s)
    (hl : ∀ env m, l = .addMessage env m → WritesFile ops conf s m → File.NonEmpty m) (ht : s.step ops conf l = some t)
    : Accounted t := by
  cases l with
  | addMessage env m =>
    obtain ⟨u, hu, -, hok⟩ := h.addMessage ops conf env (hl env m rfl)
    obtain rfl := Option.some.inj (ht.symm.trans hu)
    exact hok
  | cron env => exact (h.cron ht).1
  | close env =>
    cases ht
    exact (h.close ops env).1

theorem Accounted.step (h : Accounted s) (hl : l.NonEmpty) (ht : s.step ops conf l = some t)
    : Accounted t ∧ (t.refused = s.refused ↔ TransferTaken ops conf s l) := by
  cases l with
  | addMessage env m =>
    obtain ⟨u, hu, hrefused, hok⟩ := h.addMessage ops conf env fun _ => hl
    obtain rfl := Option.some.inj (ht.symm.trans hu)
    exact ⟨hok, fun _ => trivial, fun _ => hrefused⟩
  | cron env => exact h.cron ht
  | close env =>
    obtain ⟨hok, hrefused⟩ := h.close ops env
    cases ht
    exact ⟨hok, fun _ => trivial, fun _ => hrefused⟩

theorem Accounted.step_isSome_iff (h : Accounted s) (ops : StoreOps σ) (conf : BufferConfig) (hl : l.NonEmpty)
    : (s.step ops conf l).isSome = true ↔ RotationDefined ops conf s l := by
  cases l with
  | addMessage env m =>
    obtain ⟨t, ht, -⟩ := h.addMessage ops conf env fun _ => hl
    exact iff_of_true (Option.isSome_of_eq_some ht) trivial
  | cron env => exact h.cron_isSome_iff ops conf env
  | close env => exact iff_of_true rfl trivial

section CountsDrops

variable {before : UInt64}

theorem CountsDrops.addToPrimary (h : CountsDrops before s) (ht : s.addToPrimary ops conf env m = (more, t))
    : CountsDrops before t := by
  unfold BufferStore.addToPrimary at ht
  dsimp only at ht
  split at ht
  . split at ht
    . cases ht
      exact h
    . split at ht
      . cases ht
        exact h
      . cases ht
        exact h
  . cases ht
    exact h

theorem CountsDrops.addToSecondary (h : CountsDrops before s) (ht : s.addToSecondary conf env m = some (kept, t))
    : CountsDrops before t := by
  unfold BufferStore.addToSecondary at ht
  dsimp only at ht
  split at ht
  . split at ht
    . cases ht
    . cases ht
      exact h
  . cases ht
    unfold CountsDrops at h ⊢
    dsimp only
    rw [h, List.length_append, List.length_singleton, ← Nat.add_assoc, UInt64.ofNat_add _ 1, UInt64.add_assoc]
    rfl

theorem CountsDrops.addMessage (h : CountsDrops before s) (ht : s.addMessage ops conf env m = some t)
    : CountsDrops before t := by
  unfold BufferStore.addMessage doAddMessage at ht
  split at ht
  . cases hu : s.addToPrimary ops conf env m with
    | mk more u =>
      have hcounts := h.addToPrimary hu
      rw [hu] at ht
      cases more with
      | false =>
        cases ht
        exact hcounts
      | true =>
        dsimp only at ht
        split at ht
        . cases ht
        . next v hv =>
          have hadded := hcounts.addToSecondary hv
          cases ht
          exact hadded
        . next v hv =>
          cases ht
          exact hcounts.addToSecondary hv
  . cases ht
    exact h

theorem CountsDrops.cronPrimaryOpen (h : CountsDrops before s) (ops : StoreOps σ)
    : CountsDrops before (s.cronPrimaryOpen ops) := by
  unfold BufferStore.cronPrimaryOpen
  split
  . split <;> exact h
  . exact h

theorem CountsDrops.cronReadFile (h : CountsDrops before s) (ht : s.cronReadFile env queue = some t)
    : CountsDrops before t := by
  unfold BufferStore.cronReadFile at ht
  split at ht
  . dsimp only at ht
    split at ht
    . cases ht
    . cases ht
      exact h
  . cases ht
    exact h

theorem CountsDrops.cronFinish (h : CountsDrops before s) (env : Env) (queue : List Message)
    : CountsDrops before (s.cronFinish env queue) := by
  unfold BufferStore.cronFinish
  split <;> exact h

theorem CountsDrops.cronTransfering (h : CountsDrops before s) (ht : s.cronTransfering ops conf env = some t)
    : CountsDrops before t := by
  unfold BufferStore.cronTransfering at ht
  split at ht
  . split at ht
    . next queue _ =>
      have hsent : CountsDrops before (s.cronTransfer ops conf queue) := h
      dsimp only at ht
      split at ht
      . cases ht
      . next u hu =>
        cases ht
        exact (hsent.cronReadFile hu).cronFinish env _
    . cases ht
  . cases ht
    exact h

theorem CountsDrops.cron (h : CountsDrops before s) (ht : s.cron ops conf env = some t) : CountsDrops before t := by
  unfold BufferStore.cron at ht
  split at ht
  . split at ht
    . cases ht
    . next u hu =>
      have hcounts := (h.cronPrimaryOpen ops).cronTransfering hu
      obtain ⟨fs, -, rfl⟩ := Option.map_eq_some_iff.mp ht
      exact hcounts
  . cases ht
    exact h

theorem CountsDrops.close (h : CountsDrops before s) (ops : StoreOps σ) (env : Env)
    : CountsDrops before (s.close ops env) := by
  unfold BufferStore.close
  split
  . dsimp only
    split
    . unfold CountsDrops at h ⊢
      dsimp only
      rw [h, UInt64.add_assoc, ← UInt64.ofNat_add, List.length_append, List.length_cons]
      congr 2
      omega
    . exact h
  . exact h

theorem CountsDrops.step (h : CountsDrops before s) (ht : s.step ops conf l = some t) : CountsDrops before t := by
  cases l with
  | addMessage env m => exact h.addMessage ht
  | cron env => exact h.cron ht
  | close env =>
    cases ht
    exact h.close ops env

theorem countsDrops_open (ops : StoreOps σ) (conf : BufferConfig) (primary : σ) (fs : FileStore) (stat : BufferStat)
    (env : Env)
    : CountsDrops stat.msgDrop (BufferStore.open_ ops conf primary fs stat env) := by
  unfold BufferStore.open_ CountsDrops
  dsimp only
  split
  . split <;> simp
  . simp

end CountsDrops

theorem Accounted.of_open (ops : StoreOps σ) (conf : BufferConfig) (primary : σ) (stat : BufferStat) (env : Env)
    (hwf : fs.Wf) (hempty : fs.messages = [])
    : Accounted (BufferStore.open_ ops conf primary fs stat env) ∧
        (BufferStore.open_ ops conf primary fs stat env).refused = [] := by
  unfold BufferStore.open_
  dsimp only
  split
  . split
    . refine ⟨⟨hwf, ?_, fun _ _ => ⟨[], rfl⟩, fun _ => rfl⟩, rfl⟩
      intro m
      simp [MsgQueue.msgs, hempty]
    . refine ⟨⟨hwf, ?_, ?_, fun _ => rfl⟩, rfl⟩
      . intro m
        simp [MsgQueue.msgs, hempty]
      . intro _ hcontra
        cases hcontra
  . refine ⟨⟨hwf.open_ _ _, ?_, ?_, fun _ => rfl⟩, rfl⟩
    . intro m
      rw [FileStore.count_open hwf, hempty]
      simp [MsgQueue.msgs]
    . intro _ hcontra
      cases hcontra

theorem Accounted.open_ (ops : StoreOps σ) (conf : BufferConfig) (primary : σ) (fs : FileStore) (stat : BufferStat)
    (env : Env) (hdir : fs.directory = []) (hclosed : fs.secondaryFile = none)
    : Accounted (BufferStore.open_ ops conf primary fs stat env) ∧
        (BufferStore.open_ ops conf primary fs stat env).refused = [] := by
  apply Accounted.of_open
  . refine ⟨⟨by simp [hdir], by simp [hdir]⟩, ?_⟩
    intro name hname
    rw [hclosed] at hname
    cases hname
  . simp [FileStore.messages, FileStore.dirMessages, hdir]

/--
A buffer store on an empty directory conserves its messages all along a run, and counts what it drops, if and only
if, in each `Cron` in the middle of a transfer, the primary store takes every message that it is given, and no
`Cron` divides by a rotate interval of 0.
-/
theorem conserved_iff_transferTaken (ops : StoreOps σ) (conf : BufferConfig) (primary : σ) (fs : FileStore)
    (stat : BufferStat) (env : Env) (hdir : fs.directory = []) (hclosed : fs.secondaryFile = none)
    (ls : List Label) (hls : ∀ l ∈ ls, l.NonEmpty)
    : Run.Along (step ops conf) (fun s => Conserved s ∧ CountsDrops stat.msgDrop s)
          (open_ ops conf primary fs stat env) ls ↔
        Run.Meets (step ops conf) (fun s l => TransferTaken ops conf s l ∧ RotationDefined ops conf s l)
          (open_ ops conf primary fs stat env) ls := by
  obtain ⟨hok, hrefused⟩ := Accounted.open_ ops conf primary fs stat env hdir hclosed
  have hcounts := countsDrops_open ops conf primary fs stat env
  apply Run.Along.iff_meets_within (fun s => (Accounted s ∧ CountsDrops stat.msgDrop s) ∧ s.refused = [])
    (fun _ l => l.NonEmpty) ⟨⟨hok, hcounts⟩, hrefused⟩ (Run.Meets.of_forall hls _)
  . rintro s ⟨⟨hs, hcounts⟩, hnone⟩
    exact ⟨(conserved_iff hs).mpr hnone, hcounts⟩
  . rintro s l ⟨⟨hs, hcounts⟩, hnone⟩ hl ⟨htaken, hdefined⟩
    obtain ⟨t, ht⟩ := Option.isSome_iff_exists.mp ((hs.step_isSome_iff ops conf hl).mpr hdefined)
    obtain ⟨hok', hiff⟩ := hs.step hl ht
    exact ⟨t, ht, ⟨hok', hcounts.step ht⟩, (hiff.mpr htaken).trans hnone⟩
  . rintro s l t ⟨⟨hs, -⟩, hnone⟩ hl hnot ht ⟨hconserved, -⟩
    obtain ⟨hok', hiff⟩ := hs.step hl ht
    refine hnot ⟨hiff.mp ?_, (hs.step_isSome_iff ops conf hl).mp (Option.isSome_of_eq_some ht)⟩
    rw [hnone]
    exact (conserved_iff hok').mp hconserved

-- a file that is read is closed, so that the tick does not rotate it
theorem cron_after_read (fs : FileStore) (conf : BufferConfig) (env : Env)
    : (fs.close env).deleteOldestMessages.cron conf.makeName env = some (fs.close env).deleteOldestMessages := by
  apply FileStore.cron_of_closed
  rw [(deleteOldestMessages_frame _).1, isOpen_close]

theorem cron_load (conf : BufferConfig) {p : σ} (hopen : s.isOpen = true) (hstate : s.state = .toSecondary)
    (hprimary : ops.isOpen s.primary = (true, p)) (hhave : s.secondary.haveOldMessage = true)
    (hget : (s.secondary.close env).getOldestMessages = some (m :: msgs))
    : ∃ t, s.cron ops conf env = some t ∧ t.isOpen = true ∧ t.state = .transfering ∧
        t.msgToTransfer = .queue (m :: msgs) ∧ t.primary = ops.cron p ∧ t.accepted = s.accepted ∧
        t.toPrimary = s.toPrimary ∧
        t.secondary = (s.secondary.close env).deleteOldestMessages := by
  have hrotate := cron_after_read s.secondary conf env
  simp [cron, hopen, cronPrimaryOpen, hstate, hprimary, cronTransfering, cronTransfer, transfer_nil, cronReadFile,
    MsgQueue.msgs, hhave, hget, cronFinish, hrotate]

def scripted : StoreOps (List Bool) where
  open_ answers := (answers.headD false, answers.tail)
  isOpen answers := (answers.headD false, answers.tail)
  addMessage _ answers := (answers.headD false, answers.tail)
  close answers := answers
  cron answers := answers

def anyTopic : BufferConfig where
  maxMsgPerCron := 100
  topicMatch := fun _ => true
  secondaryTopicMatch := fun _ => true
  makeName := fun now => [.ofNat now]

theorem getMessages_one (hm : File.NonEmpty m) : File.getMessages (File.addMessage [] m) = some [m] := by
  have h := File.getMessages_flatten [m] (by simpa using hm) []
  rw [List.append_nil, File.getMessages_nil] at h
  rw [File.addMessage_eq]
  simpa using h

theorem conserved_iff_transferTaken_load
    : Run.Along (step scripted anyTopic) (fun s => Conserved s ∧ CountsDrops 0 s)
        (open_ scripted anyTopic [false, true] ⟨[], none, 600, 0⟩ ⟨0, 0, 0⟩ ⟨1, 1, 0, 1⟩)
        [.addMessage ⟨1, 1, 0, 1⟩ ⟨⟨[97], by decide⟩, ⟨[98], by decide⟩⟩, .cron ⟨2, 2, 0, 2⟩] := by
  apply (conserved_iff_transferTaken scripted anyTopic [false, true] ⟨[], none, 600, 0⟩ ⟨0, 0, 0⟩ ⟨1, 1, 0, 1⟩
    rfl rfl _ (by simp [Label.NonEmpty])).mpr
  refine ⟨⟨trivial, trivial⟩, ?_⟩
  intro s hs
  cases hs
  refine ⟨⟨?_, ?_⟩, fun _ _ => trivial⟩
  . intro _ hstate
    cases hstate
  . intro _ _ hzero
    cases hzero

theorem conserved_fails_refused
    : ¬Run.Along (step scripted anyTopic) Conserved
        (open_ scripted anyTopic [false, true, false] ⟨[], none, 600, 0⟩ ⟨0, 0, 0⟩ ⟨1, 1, 0, 1⟩)
        [.addMessage ⟨1, 1, 0, 1⟩ ⟨⟨[97], by decide⟩, ⟨[98], by decide⟩⟩, .cron ⟨2, 2, 0, 2⟩, .cron ⟨3, 3, 0, 3⟩] := by
  rintro ⟨-, s1, h1, -, s2, h2, hconserved, s3, h3, hend⟩
  have hm : Label.NonEmpty (.addMessage ⟨1, 1, 0, 1⟩ ⟨⟨[97], by decide⟩, ⟨[98], by decide⟩⟩) := ⟨by simp, by simp⟩
  obtain ⟨hok, -⟩ := Accounted.open_ scripted anyTopic [false, true, false] ⟨[], none, 600, 0⟩ ⟨0, 0, 0⟩
    ⟨1, 1, 0, 1⟩ rfl rfl
  obtain ⟨hok1, -⟩ := hok.step hm h1
  obtain ⟨hok2, -⟩ := hok1.cron h2
  obtain ⟨hok3, hiff⟩ := hok2.cron h3
  have hfacts : s1.isOpen = true ∧ s1.state = .toSecondary ∧ scripted.isOpen s1.primary = (true, [false]) ∧
      s1.secondary.haveOldMessage = true ∧
      (s1.secondary.close ⟨2, 2, 0, 2⟩).getOldestMessages = some [⟨⟨[97], by decide⟩, ⟨[98], by decide⟩⟩] := by
    cases h1
    exact ⟨rfl, rfl, rfl, rfl, getMessages_one hm⟩
  obtain ⟨u, hu, hopen, hstate, hqueue, hprimary, -⟩ :=
    cron_load anyTopic hfacts.1 hfacts.2.1 hfacts.2.2.1 hfacts.2.2.2.1 hfacts.2.2.2.2
  obtain rfl := Option.some.inj (h2.symm.trans hu)
  have htaken := hiff.mp (((conserved_iff hok3).mp hend).trans ((conserved_iff hok2).mp hconserved).symm)
  have hfalse := htaken hopen hstate
  rw [hqueue, hprimary] at hfalse
  exact absurd hfalse.1 (by decide)

end BufferStore
end Kids
