import Kids.Store.BufferRun
import Kids.Store.FileOrder

/-!
The order in which a `BufferStore` hands its messages to the primary store. What was handed over, what waits
in memory and what waits in the files, in the order in which they were created, is in the order in which the
messages were taken.
-/

namespace Kids
namespace BufferStore

variable {σ : Type} {ops : StoreOps σ} {conf : BufferConfig} {s t : BufferStore σ} {opens : Prop}

def InOrder (s : BufferStore σ) : Prop :=
  s.toPrimary.Sublist s.accepted

-- the primary store that an open store is opened with again
def primaryClosed (ops : StoreOps σ) (s : BufferStore σ) : σ :=
  if s.isOpen then ops.close s.primary else s.primary

/--
The call opens a file of the secondary store.
-/
def OpensFile (ops : StoreOps σ) (conf : BufferConfig) (s : BufferStore σ) : Call → Prop
  | .addMessage _ m => conf.topicMatch m.topic.data = true ∧
      (s.state = .toPrimary ∧ ¬TakesDirectly ops s m ∨ s.state ≠ .toPrimary ∧ s.secondary.isOpen = false)
  | .cron env => s.isOpen = true ∧ s.secondary.Due env ∧ ¬LoadsFile ops conf s
  | .close _ => False
  | .open_ _ => (ops.open_ (primaryClosed ops s)).1 = false

-- the clock does not go back, neither for the change times nor for the names of the files
def Timely (ops : StoreOps σ) (conf : BufferConfig) (s : BufferStore σ) (c : Call) : Prop :=
  s.secondary.InTime conf.makeName c.env (OpensFile ops conf s c)

-- when a tick reads a file, no other file has the change time of the oldest one
def LoadsOldest (ops : StoreOps σ) (conf : BufferConfig) (s : BufferStore σ) : Call → Prop
  | .cron env => LoadsFile ops conf s → FileStore.UniqueOldest (s.secondary.close env).directory
  | _ => True

structure Ordered (conf : BufferConfig) (s : BufferStore σ) (order : List FileStore.LogFile) : Prop where
  created : s.secondary.Created conf.makeName order
  waiting : (s.toPrimary ++ s.msgToTransfer.msgs ++ FileStore.written order).Sublist s.accepted
  direct : s.state = .toPrimary → order = [] ∧ s.msgToTransfer.msgs = []

theorem Ordered.inOrder (h : Ordered conf s order) : InOrder s := by
  have hprefix : s.toPrimary.Sublist (s.toPrimary ++ s.msgToTransfer.msgs ++ FileStore.written order) := by
    rw [List.append_assoc]
    apply List.sublist_append_left
  exact hprefix.trans h.waiting

-- the files may change as long as the messages in them stay in their order
theorem Ordered.of_files (h : Ordered conf s order) (hcreated : fs.Created conf.makeName order')
    (hmessages : FileStore.written order' = FileStore.written order) (primary : σ)
    {state : BufferState} (hstate : state ≠ .toPrimary)
    : Ordered conf { s with primary := primary, secondary := fs, state := state } order' := by
  refine ⟨hcreated, ?_, fun hcontra => absurd hcontra hstate⟩
  rw [hmessages]
  exact h.waiting

theorem Ordered.addToPrimary (h : Ordered conf s order) (hin : s.secondary.InTime conf.makeName env opens)
    (hopens : s.state = .toPrimary → ¬TakesDirectly ops s m → opens) (ht : s.addToPrimary ops conf env m = (more, t))
    : (more = false → Ordered conf { t with accepted := t.accepted ++ [m] } order) ∧
        (more = true → t.state ≠ .toPrimary ∧ t.secondary.InTime conf.makeName env opens ∧
          (t.secondary.isOpen = false → s.state ≠ .toPrimary ∧ s.secondary.isOpen = false) ∧
          ∃ order', Ordered conf t order') := by
  have hswitch : ∀ primary : σ, s.state = .toPrimary → ¬TakesDirectly ops s m →
      ∃ order', Ordered conf { s with
        primary := primary, secondary := s.secondary.open_ conf.makeName env, state := .toSecondary } order' := by
    intro primary hstate hnot
    obtain ⟨order', hcreated, hmessages⟩ := h.created.open_ hin (hopens hstate hnot)
    exact ⟨order', h.of_files hcreated hmessages primary (by simp)⟩
  unfold BufferStore.addToPrimary at ht
  dsimp only at ht
  split at ht
  . next hstate =>
    obtain ⟨rfl, hmsgs⟩ := h.direct hstate
    split at ht
    . next p hp =>
      cases ht
      refine ⟨by simp, fun _ => ⟨by simp, hin.open_, nofun, hswitch p hstate ?_⟩⟩
      rintro ⟨-, hopen, -⟩
      rw [hp] at hopen
      cases hopen
    . next p hp =>
      split at ht
      . next p' hp' =>
        cases ht
        refine ⟨by simp, fun _ => ⟨by simp, hin.open_, nofun, hswitch p' hstate ?_⟩⟩
        rintro ⟨-, -, htakes⟩
        rw [hp] at htakes
        dsimp only at htakes
        rw [hp'] at htakes
        cases htakes
      . cases ht
        refine ⟨fun _ => ⟨h.created, ?_, fun _ => ⟨rfl, hmsgs⟩⟩, by simp⟩
        have hwaiting := h.waiting
        simp only [hmsgs, FileStore.written, List.flatMap_nil, List.append_nil] at hwaiting ⊢
        exact hwaiting.append_right [m]
  . next hstate =>
    cases ht
    exact ⟨by simp, fun _ => ⟨hstate, hin, fun hclosed => ⟨hstate, hclosed⟩, order, h⟩⟩

theorem Ordered.addToSecondary (h : Ordered conf s order) (hin : s.secondary.InTime conf.makeName env opens)
    (hopens : s.secondary.isOpen = false → opens) (hstate : s.state ≠ .toPrimary)
    (ht : s.addToSecondary conf env m = some (kept, t))
    : ∃ order', Ordered conf { t with accepted := if kept then t.accepted ++ [m] else t.accepted } order' := by
  have hopened : ∃ fs order', (if s.secondary.isOpen then s.secondary else s.secondary.open_ conf.makeName env) = fs ∧
      fs.InTime conf.makeName env opens ∧ fs.Created conf.makeName order' ∧
      FileStore.written order' = FileStore.written order := by
    split
    . exact ⟨_, order, rfl, hin, h.created, rfl⟩
    . next hclosed =>
      obtain ⟨order', hcreated, hmessages⟩ := h.created.open_ hin (hopens (by simpa using hclosed))
      exact ⟨_, order', rfl, hin.open_, hcreated, hmessages⟩
  obtain ⟨fs, order', hfs, hin', hcreated, hmessages⟩ := hopened
  unfold BufferStore.addToSecondary at ht
  rw [hfs] at ht
  dsimp only at ht
  split at ht
  . split at ht
    . cases ht
    . next name hname =>
      cases ht
      obtain ⟨order'', hcreated', hmessages'⟩ := hcreated.addMessage hin' hname m
      refine ⟨order'', hcreated', ?_, fun hcontra => absurd hcontra hstate⟩
      simp only [if_true]
      rw [hmessages', hmessages, ← List.append_assoc]
      exact h.waiting.append_right [m]
  . cases ht
    refine ⟨order', hcreated, ?_, fun hcontra => absurd hcontra hstate⟩
    rw [hmessages]
    exact h.waiting

theorem Ordered.addMessage (h : Ordered conf s order)
    (hin : s.secondary.InTime conf.makeName env (OpensFile ops conf s (.addMessage env m)))
    (ht : s.addMessage ops conf env m = some t)
    : ∃ order', Ordered conf t order' := by
  unfold BufferStore.addMessage doAddMessage at ht
  split at ht
  . next hmatch =>
    cases hprimary : s.addToPrimary ops conf env m with
    | mk more u =>
      obtain ⟨hdone, hgoes⟩ := h.addToPrimary hin (fun hstate hnot => ⟨hmatch, .inl ⟨hstate, hnot⟩⟩) hprimary
      rw [hprimary] at ht
      cases more with
      | false =>
        cases ht
        exact ⟨order, hdone rfl⟩
      | true =>
        obtain ⟨hstate, hin', hclosed, order', hu⟩ := hgoes rfl
        have hopens : u.secondary.isOpen = false → OpensFile ops conf s (.addMessage env m) :=
          fun hfile => ⟨hmatch, .inr (hclosed hfile)⟩
        dsimp only at ht
        cases hsecondary : u.addToSecondary conf env m with
        | none =>
          rw [hsecondary] at ht
          cases ht
        | some r =>
          obtain ⟨kept, v⟩ := r
          have hv := hu.addToSecondary hin' hopens hstate hsecondary
          rw [hsecondary] at ht
          cases kept with
          | true =>
            cases ht
            exact hv
          | false =>
            cases ht
            exact hv
  . cases ht
    exact ⟨order, h⟩

theorem transfer_append (ops : StoreOps σ) (budget : Nat) (queue : List Message) (primary : σ)
    : queue = (transfer ops budget queue primary).sent ++ (transfer ops budget queue primary).refused ++
        (transfer ops budget queue primary).queue := by
  induction budget generalizing queue primary with
  | zero => simp [transfer]
  | succ budget ih =>
    cases queue with
    | nil => simp [transfer]
    | cons m queue =>
      unfold transfer
      split
      . next primary' _ =>
        have hrest := ih queue primary'
        simp only [List.cons_append]
        rw [← hrest]
      . simp

theorem Ordered.cronPrimaryOpen (h : Ordered conf s order) (ops : StoreOps σ)
    : Ordered conf (s.cronPrimaryOpen ops) order := by
  unfold BufferStore.cronPrimaryOpen
  split
  . next hstate =>
    split
    . refine ⟨h.created, ?_, by simp⟩
      refine List.Sublist.trans ?_ h.waiting
      apply List.Sublist.append_right
      simp [MsgQueue.msgs]
    . refine ⟨h.created, h.waiting, ?_⟩
      intro hcontra
      cases hstate.symm.trans hcontra
  . exact h

theorem Ordered.cronTransfer (h : Ordered conf s order) (hstate : s.state ≠ .toPrimary)
    (hqueue : s.msgToTransfer = .queue queue)
    (ops : StoreOps σ)
    : Ordered conf (s.cronTransfer ops conf queue) order := by
  refine ⟨h.created, ?_, fun hcontra => absurd hcontra hstate⟩
  have hwaiting := h.waiting
  rw [hqueue] at hwaiting
  refine List.Sublist.trans ?_ hwaiting
  apply List.Sublist.append_right
  simp only [BufferStore.cronTransfer, MsgQueue.msgs]
  conv => rhs; rw [transfer_append ops conf.maxMsgPerCron queue s.primary]
  simp only [List.append_assoc]
  apply List.Sublist.append_left
  apply List.Sublist.append_left
  apply List.sublist_append_right

theorem Ordered.cronReadFile (h : Ordered conf s order) (hin : s.secondary.InTime conf.makeName env opens)
    (hstate : s.state ≠ .toPrimary) (hqueue : s.msgToTransfer = .queue queue)
    (hunique : queue = [] → FileStore.UniqueOldest (s.secondary.close env).directory)
    (ht : s.cronReadFile env queue = some t)
    : t.state ≠ .toPrimary ∧ t.secondary.InTime conf.makeName env opens ∧ ∃ order', Ordered conf t order' := by
  unfold BufferStore.cronReadFile at ht
  split at ht
  . next hempty =>
    obtain ⟨order', hcreated, hmessages⟩ := h.created.close hin
    have hclosed : (s.secondary.close env).secondaryFile = none := by
      unfold FileStore.close
      split
      . next hnone => exact hnone
      . rfl
    obtain ⟨msgs, order'', hget, hcreated', hmessages'⟩ := hcreated.takeOldest hclosed (hunique hempty.1)
    dsimp only at ht
    rw [hget] at ht
    cases ht
    refine ⟨hstate, hin.close.deleteOldestMessages, order'', hcreated', ?_, fun hcontra => absurd hcontra hstate⟩
    have hwaiting := h.waiting
    rw [hqueue, ← hmessages, hempty.1] at hwaiting
    refine List.Sublist.trans ?_ hwaiting
    rw [hempty.1]
    simp only [MsgQueue.msgs, List.nil_append, List.append_nil, List.append_assoc]
    exact hmessages'.append_left _
  . cases ht
    exact ⟨hstate, hin, order, h⟩

theorem Ordered.cronFinish (h : Ordered conf s order) (hin : s.secondary.InTime conf.makeName env opens)
    (queue : List Message)
    : (s.cronFinish env queue).secondary.InTime conf.makeName env opens ∧ ∃ order', Ordered conf (s.cronFinish env queue) order' := by
  unfold BufferStore.cronFinish
  split
  . next hempty =>
    have horder := h.created.nil_of_not_haveOldMessage hempty.2
    subst horder
    rw [h.created.close_of_nil]
    refine ⟨hin, [], h.created, ?_, fun _ => ⟨rfl, rfl⟩⟩
    refine List.Sublist.trans ?_ h.waiting
    apply List.Sublist.append_right
    simp [MsgQueue.msgs]
  . exact ⟨hin, order, h⟩

theorem Ordered.cronTransfering (h : Ordered conf s order) (hin : s.secondary.InTime conf.makeName env opens)
    (hunique : s.state = .transfering →
      (transfer ops conf.maxMsgPerCron s.msgToTransfer.msgs s.primary).queue = [] →
        FileStore.UniqueOldest (s.secondary.close env).directory)
    (ht : s.cronTransfering ops conf env = some t)
    : t.secondary.InTime conf.makeName env opens ∧ ∃ order', Ordered conf t order' := by
  unfold BufferStore.cronTransfering at ht
  split at ht
  . next hstate =>
    have hne : s.state ≠ .toPrimary := by
      rw [hstate]
      simp
    split at ht
    . next queue hqueue =>
      have htransfer := h.cronTransfer hne hqueue ops
      dsimp only at ht
      split at ht
      . cases ht
      . next u hu =>
        cases ht
        have hempty := hunique hstate
        rw [hqueue] at hempty
        obtain ⟨-, hin', order', hok⟩ := htransfer.cronReadFile hin hne rfl hempty hu
        exact hok.cronFinish hin' _
    . cases ht
  . cases ht
    exact ⟨hin, order, h⟩

theorem Ordered.secondaryCron (h : Ordered conf s order) (hin : s.secondary.InTime conf.makeName env opens)
    (hopens : s.secondary.Due env → opens) (hcron : s.secondary.cron conf.makeName env = some fs) (primary : σ)
    : ∃ order', Ordered conf { s with primary := primary, secondary := fs } order' := by
  by_cases hstate : s.state = .toPrimary
  . -- nothing is open that could be rotated
    obtain ⟨rfl, -⟩ := h.direct hstate
    obtain rfl := Option.some.inj (hcron.symm.trans (h.created.cron_of_nil env))
    exact ⟨[], h.created, h.waiting, h.direct⟩
  . obtain ⟨order', hcreated, hmessages⟩ := h.created.cron hin hopens hcron
    exact ⟨order', h.of_files hcreated hmessages primary hstate⟩

theorem Ordered.cron (h : Ordered conf s order)
    (hin : s.secondary.InTime conf.makeName env (OpensFile ops conf s (.cron env)))
    (hunique : LoadsFile ops conf s → FileStore.UniqueOldest (s.secondary.close env).directory)
    (ht : s.cron ops conf env = some t)
    : ∃ order', Ordered conf t order' := by
  unfold BufferStore.cron at ht
  split at ht
  . next hopen =>
    split at ht
    . cases ht
    . next u hu =>
      obtain ⟨fs, hfs, rfl⟩ := Option.map_eq_some_iff.mp ht
      have hsecondary := cronPrimaryOpen_secondary ops s
      have hin' : (s.cronPrimaryOpen ops).secondary.InTime conf.makeName env (OpensFile ops conf s (.cron env)) :=
        hsecondary ▸ hin
      have hunique' : (s.cronPrimaryOpen ops).state = .transfering →
          (transfer ops conf.maxMsgPerCron (s.cronPrimaryOpen ops).msgToTransfer.msgs
            (s.cronPrimaryOpen ops).primary).queue = [] →
          FileStore.UniqueOldest ((s.cronPrimaryOpen ops).secondary.close env).directory := by
        intro hstate hempty
        rw [hsecondary]
        exact hunique ((loadsFile_iff hopen).mpr ⟨hstate, hempty⟩)
      have hopens : u.secondary.Due env → OpensFile ops conf s (.cron env) := by
        intro hdue
        obtain ⟨-, hsame, hiff⟩ := cronTransfering_secondary hu
        have hfile := hsame hdue.1
        rw [hsecondary] at hfile
        refine ⟨hopen, hfile ▸ hdue, ?_⟩
        rw [loadsFile_iff hopen]
        exact (hiff.mp hdue.1).2
      obtain ⟨hinu, order', hok⟩ := (h.cronPrimaryOpen ops).cronTransfering hin' hunique' hu
      exact hok.secondaryCron hinu hopens hfs _
  . cases ht
    exact ⟨order, h⟩

theorem Ordered.closeAgain (h : Ordered conf s order) (hin : s.secondary.InTime conf.makeName env opens)
    (ht : s.closeAgain ops env = some t)
    : t.secondary.InTime conf.makeName env opens ∧ ∃ order', Ordered conf t order' := by
  have hclose : ∃ order', (s.secondary.close env).Created conf.makeName order' ∧
      FileStore.written order' = FileStore.written order ∧ (order = [] → order' = []) := by
    cases order with
    | nil =>
      refine ⟨[], ?_, rfl, fun _ => rfl⟩
      rw [h.created.close_of_nil]
      exact h.created
    | cons e order =>
      obtain ⟨order', hcreated, hmessages⟩ := h.created.close hin
      exact ⟨order', hcreated, hmessages, by simp⟩
  obtain ⟨order', hcreated, hmessages, hnil⟩ := hclose
  have hdirect : s.state = .toPrimary → order' = [] := fun hstate => hnil (h.direct hstate).1
  unfold BufferStore.closeAgain at ht
  split at ht
  . cases ht
  . cases ht
    unfold BufferStore.close
    split
    . dsimp only
      split
      . next hqueue =>
        refine ⟨hin.close, order', hcreated, ?_, fun hstate => ⟨hdirect hstate, rfl⟩⟩
        rw [hmessages]
        refine List.Sublist.trans ?_ h.waiting
        apply List.Sublist.append_right
        simp [MsgQueue.msgs]
      . refine ⟨hin.close, order', hcreated, ?_, fun hstate => ⟨hdirect hstate, (h.direct hstate).2⟩⟩
        rw [hmessages]
        exact h.waiting
    . exact ⟨hin, order, h⟩

def ClosedEmpty (s : BufferStore σ) : Prop :=
  s.isOpen = false → s.msgToTransfer.msgs = []

theorem msgs_closeAgain (h : ClosedEmpty s) (ht : s.closeAgain ops env = some t) : t.msgToTransfer.msgs = [] := by
  unfold BufferStore.closeAgain at ht
  split at ht
  . cases ht
  . cases ht
    unfold BufferStore.close
    split
    . dsimp only
      split
      . rfl
      . next hqueue =>
        cases hmsgs : s.msgToTransfer with
        | null | deleted => rfl
        | queue msgs =>
          cases msgs with
          | nil => rfl
          | cons m msgs => exact absurd hmsgs (hqueue m msgs)
    . next hclosed => exact h (by simpa using hclosed)

theorem primary_closeAgain (ht : s.closeAgain ops env = some t) : t.primary = primaryClosed ops s := by
  unfold BufferStore.closeAgain at ht
  split at ht
  . cases ht
  . cases ht
    unfold BufferStore.close primaryClosed
    split
    . dsimp only
      split <;> rfl
    . rfl

theorem Ordered.reopen (h : Ordered conf s order)
    (hin : s.secondary.InTime conf.makeName env (OpensFile ops conf s (.open_ env))) (hempty : ClosedEmpty s)
    (ht : s.reopen ops conf env = some t)
    : t.isOpen = true ∧ ∃ order', Ordered conf t order' := by
  unfold BufferStore.reopen at ht
  cases hclose : s.closeAgain ops env with
  | none =>
    rw [hclose] at ht
    cases ht
  | some u =>
    rw [hclose] at ht
    cases ht
    have hmsgs := msgs_closeAgain hempty hclose
    obtain ⟨hin', order', hok⟩ := h.closeAgain hin hclose
    unfold BufferStore.reopenClosed
    dsimp only
    split
    . split
      . refine ⟨rfl, order', hok.created, ?_, by simp⟩
        refine List.Sublist.trans ?_ hok.waiting
        apply List.Sublist.append_right
        simp [MsgQueue.msgs]
      . next hold =>
        have horder : order' = [] := hok.created.nil_of_not_haveOldMessage hold
        exact ⟨rfl, order', hok.created, hok.waiting, fun _ => ⟨horder, hmsgs⟩⟩
    . next hopened =>
      have hopens : OpensFile ops conf s (.open_ env) := by
        unfold OpensFile
        rw [← primary_closeAgain hclose]
        simpa using hopened
      obtain ⟨order'', hcreated, hmessages⟩ := hok.created.open_ hin' hopens
      refine ⟨rfl, order'', hcreated, ?_, by simp⟩
      rw [hmessages]
      exact hok.waiting

theorem ordered_call (h : ∃ order, Ordered conf s order) (hempty : ClosedEmpty s) (htimely : Timely ops conf s c)
    (hloads : LoadsOldest ops conf s c) (ht : s.call ops conf c = some t)
    : (∃ order, Ordered conf t order) ∧ ClosedEmpty t := by
  obtain ⟨order, h⟩ := h
  cases c with
  | addMessage env m =>
    obtain ⟨hopen, -, -, hqueue, -⟩ := addMessage_cases ht
    refine ⟨h.addMessage htimely ht, ?_⟩
    unfold ClosedEmpty
    rw [hopen, hqueue]
    exact hempty
  | cron env =>
    refine ⟨h.cron htimely hloads ht, ?_⟩
    intro hclosed
    cases cron_closed ht hclosed
    exact hempty hclosed
  | close env =>
    exact ⟨(h.closeAgain htimely ht).2, fun _ => msgs_closeAgain hempty ht⟩
  | open_ env =>
    obtain ⟨hopen, hok⟩ := h.reopen htimely hempty ht
    refine ⟨hok, ?_⟩
    intro hclosed
    cases hopen.symm.trans hclosed

theorem ordered_open (ops : StoreOps σ) (conf : BufferConfig) (primary : σ) (fs : FileStore) (stat : BufferStat)
    (env : Env)
    (hdir : fs.directory = []) (hclosed : fs.secondaryFile = none)
    : (∃ order, Ordered conf (open_ ops conf primary fs stat env) order) ∧
        ClosedEmpty (open_ ops conf primary fs stat env) := by
  have hcreated : fs.Created conf.makeName [] := by
    refine ⟨List.nodup_nil, ?_, List.Pairwise.nil, by simp, ?_, ?_⟩
    . rw [hdir]
      exact List.Perm.refl _
    . intro name hname
      cases hclosed.symm.trans hname
    . intro name hname
      cases hclosed.symm.trans hname
  have hin : fs.InTime conf.makeName env True := ⟨by simp [hdir], by simp [hdir]⟩
  unfold BufferStore.open_
  dsimp only
  split
  . split
    . exact ⟨⟨[], hcreated, List.Sublist.refl _, by simp⟩, by simp [ClosedEmpty]⟩
    . exact ⟨⟨[], hcreated, List.Sublist.refl _, fun _ => ⟨rfl, rfl⟩⟩, by simp [ClosedEmpty]⟩
  . obtain ⟨order, hopened, hwritten⟩ := hcreated.open_ hin trivial
    refine ⟨⟨order, hopened, ?_, by simp⟩, by simp [ClosedEmpty]⟩
    rw [hwritten]
    exact List.Sublist.refl _

/--
A buffer store on an empty directory hands its messages over in the order in which it took them, in every run
in which the clock does not go back and each tick that reads a file finds one oldest file.
-/
theorem inOrder_of_reaches (ops : StoreOps σ) (conf : BufferConfig) (primary : σ) (fs : FileStore) (stat : BufferStat)
    (env : Env) (hdir : fs.directory = []) (hclosed : fs.secondaryFile = none)
    (h : Run.Reaches (fun s c t => (Timely ops conf s c ∧ LoadsOldest ops conf s c) ∧ s.call ops conf c = some t)
      (open_ ops conf primary fs stat env) calls t)
    : InOrder t := by
  have hrun : (∃ order, Ordered conf t order) ∧ ClosedEmpty t := by
    apply h.invariant fun s : BufferStore σ => (∃ order, Ordered conf s order) ∧ ClosedEmpty s
    . exact ordered_open ops conf primary fs stat env hdir hclosed
    . rintro s c t ⟨hordered, hempty⟩ ⟨⟨htimely, hloads⟩, ht⟩
      exact ordered_call hordered hempty htimely hloads ht
  obtain ⟨⟨order, hordered⟩, -⟩ := hrun
  exact hordered.inOrder

theorem cron_next (conf : BufferConfig) {p : σ} (hopen : s.isOpen = true) (hstate : s.state = .transfering)
    (hqueue : s.msgToTransfer = .queue [m]) (hadd : ops.addMessage m s.primary = (true, p))
    (hbudget : conf.maxMsgPerCron = budget + 1) (hhave : s.secondary.haveOldMessage = true)
    (hget : (s.secondary.close env).getOldestMessages = some (m' :: msgs))
    : ∃ t, s.cron ops conf env = some t ∧ t.isOpen = true ∧ t.state = .transfering ∧
        t.msgToTransfer = .queue (m' :: msgs) ∧ t.primary = ops.cron p ∧ t.accepted = s.accepted ∧
        t.toPrimary = s.toPrimary ++ [m] ∧ t.secondary = (s.secondary.close env).deleteOldestMessages := by
  have hrotate := cron_after_read s.secondary conf env
  simp [cron, hopen, cronPrimaryOpen, hstate, cronTransfering, hqueue, cronTransfer, hbudget, transfer, hadd, transfer_nil,
    cronReadFile, MsgQueue.msgs, hhave, hget, cronFinish, hrotate]

theorem cron_last (conf : BufferConfig) (env : Env) {p : σ} (hopen : s.isOpen = true) (hstate : s.state = .transfering)
    (hqueue : s.msgToTransfer = .queue [m]) (hadd : ops.addMessage m s.primary = (true, p))
    (hbudget : conf.maxMsgPerCron = budget + 1) (hhave : s.secondary.haveOldMessage = false)
    : ∃ t, s.cron ops conf env = some t ∧ t.accepted = s.accepted ∧ t.toPrimary = s.toPrimary ++ [m] := by
  have hrotate := FileStore.cron_of_closed (isOpen_close s.secondary env) conf.makeName env
  simp [cron, hopen, cronPrimaryOpen, hstate, cronTransfering, hqueue, cronTransfer, hbudget, transfer, hadd, transfer_nil,
    cronReadFile, MsgQueue.msgs, hhave, cronFinish, hrotate]

def first : Message :=
  .ofBytes 97 49

def second : Message :=
  .ofBytes 97 50

-- two files with one message each are loaded one after the other, and handed over
theorem drain_two {s : BufferStore (List Bool)} (e1 e2 e3 : Env) (files files' : FileStore)
    (hopen : s.isOpen = true) (hstate : s.state = .toSecondary) (hprimary : s.primary = [true, true, true])
    (hhave : s.secondary.haveOldMessage = true) (hget : (s.secondary.close e1).getOldestMessages = some [m])
    (hfiles : (s.secondary.close e1).deleteOldestMessages = files) (hhave' : files.haveOldMessage = true)
    (hget' : (files.close e2).getOldestMessages = some [m'])
    (hfiles' : (files.close e2).deleteOldestMessages = files') (hdone : files'.haveOldMessage = false)
    : ∃ t u v, s.cron scripted anyTopic e1 = some t ∧ t.secondary = files ∧ t.cron scripted anyTopic e2 = some u ∧
        u.secondary = files' ∧ u.cron scripted anyTopic e3 = some v ∧ v.accepted = s.accepted ∧
        v.toPrimary = s.toPrimary ++ [m, m'] := by
  have hup : scripted.isOpen s.primary = (true, [true, true]) := by
    rw [hprimary]
    rfl
  obtain ⟨t, ht, hopent, hstatet, hqueuet, hprimaryt, hacceptedt, htoPrimaryt, hfilest⟩ :=
    cron_load anyTopic hopen hstate hup hhave hget
  rw [hfiles] at hfilest
  have htakes : scripted.addMessage m t.primary = (true, [true]) := by
    rw [hprimaryt]
    rfl
  obtain ⟨u, hu, hopenu, hstateu, hqueueu, hprimaryu, hacceptedu, htoPrimaryu, hfilesu⟩ :=
    cron_next anyTopic hopent hstatet hqueuet htakes rfl (by rwa [hfilest]) (by rwa [hfilest])
  rw [hfilest, hfiles'] at hfilesu
  have htakes' : scripted.addMessage m' u.primary = (true, []) := by
    rw [hprimaryu]
    rfl
  obtain ⟨v, hv, hacceptedv, htoPrimaryv⟩ :=
    cron_last anyTopic e3 hopenu hstateu hqueueu htakes' rfl (by rwa [hfilesu])
  refine ⟨t, u, v, ht, hfilest, hu, hfilesu, hv, ?_, ?_⟩
  . rw [hacceptedv, hacceptedu, hacceptedt]
  . rw [htoPrimaryv, htoPrimaryu, htoPrimaryt, List.append_assoc]
    rfl

-- a tick that finds no file open opens none
theorem timely_cron {s : BufferStore (List Bool)} (hclosed : s.secondary.isOpen = false)
    (hctime : ∀ entry ∈ s.secondary.directory, entry.ctime ≤ env.ctime) : Timely scripted anyTopic s (.cron env) := by
  refine ⟨hctime, ?_⟩
  rintro ⟨-, ⟨hopen, -⟩, -⟩
  rw [hclosed] at hopen
  cases hopen

theorem uniqueOldest_of_length_le {directory : List Entry} (h : directory.length ≤ 1)
    : FileStore.UniqueOldest directory := by
  intro e he _ e' he' _
  match directory, h, he, he' with
  | [entry], _, he, he' => rw [List.mem_singleton.mp he, List.mem_singleton.mp he']

theorem length_close_le (fs : FileStore) (env : Env) : (fs.close env).directory.length ≤ fs.directory.length := by
  unfold FileStore.close FileStore.closeFile FileStore.unlink
  split
  . exact Nat.le_refl _
  . dsimp only
    split
    . exact Nat.le_trans (List.length_filter_le _ _) (Nat.le_of_eq (List.length_map _))
    . exact Nat.le_of_eq (List.length_map _)

/--
The first message is in a file that is closed by a rotation, the second one in the next file. Both are loaded and
handed over.
-/
theorem inOrder_of_reaches_rotated
    : ∃ calls t, Run.Reaches (fun s c t => (Timely scripted anyTopic s c ∧ LoadsOldest scripted anyTopic s c) ∧
          s.call scripted anyTopic c = some t)
        (open_ scripted anyTopic [false, false, true, true, true] ⟨[], none, 600, 0⟩ ⟨0, 0, 0⟩ ⟨1, 1, 0, 1⟩) calls t ∧
        t.toPrimary = [first, second] ∧ InOrder t := by
  have hfirst := getMessages_one (m := first) ⟨by decide, by decide⟩
  have hsecond := getMessages_one (m := second) ⟨by decide, by decide⟩
  have hreach : ∃ calls s, Run.Reaches (fun s c t => (Timely scripted anyTopic s c ∧ LoadsOldest scripted anyTopic s c) ∧
        s.call scripted anyTopic c = some t)
      (open_ scripted anyTopic [false, false, true, true, true] ⟨[], none, 600, 0⟩ ⟨0, 0, 0⟩ ⟨1, 1, 0, 1⟩) calls s ∧
      s.isOpen = true ∧ s.state = .toSecondary ∧ s.primary = [true, true, true] ∧ s.toPrimary = [] ∧
      s.secondary = ⟨[⟨[88], 601, File.addMessage [] second⟩, ⟨[1], 600, File.addMessage [] first⟩],
        some [88], 600, 600⟩ := by
    have hadds : ∀ s env m, LoadsOldest scripted anyTopic s (.addMessage env m) := fun _ _ _ => trivial
    refine ⟨_, _, .snoc (l := .addMessage ⟨601, 601, 0, 601⟩ second) (.snoc (l := .cron ⟨600, 600, 0, 600⟩)
      (.single (l := .addMessage ⟨1, 1, 0, 1⟩ first) ⟨⟨⟨by decide, fun _ => by decide⟩, hadds _ _ _⟩, rfl⟩)
      ⟨⟨⟨by decide, fun _ => by decide⟩, ?_⟩, rfl⟩) ⟨⟨⟨by decide, ?_⟩, hadds _ _ _⟩, rfl⟩, ?_⟩
    . rintro ⟨-, ⟨-, hdown⟩ | ⟨hstate, -⟩⟩
      . cases hdown
      . cases hstate
    . rintro ⟨-, ⟨hstate, -⟩ | ⟨-, hclosed⟩⟩
      . cases hstate
      . cases hclosed
    . exact ⟨rfl, rfl, rfl, rfl, rfl⟩
  obtain ⟨calls, s, hs, hopen, hstate, hprimary, htoPrimary, hfiles⟩ := hreach
  obtain ⟨t, u, v, ht, hfilest, hu, hfilesu, hv, -, hdrained⟩ := drain_two ⟨602, 602, 0, 602⟩ ⟨603, 603, 0, 603⟩
    ⟨604, 604, 0, 604⟩ ⟨[⟨[88], 602, File.addMessage [] second⟩], none, 600, 600⟩ ⟨[], none, 600, 600⟩ hopen hstate hprimary
    (by rw [hfiles]; rfl) (by rw [hfiles]; exact hfirst) (by rw [hfiles]; rfl) rfl hsecond rfl rfl
  have htimely : Timely scripted anyTopic s (.cron ⟨602, 602, 0, 602⟩) := by
    refine ⟨by rw [hfiles]; decide, ?_⟩
    rintro ⟨-, ⟨-, -, hmod, -⟩, -⟩
    rw [hfiles] at hmod
    exact absurd hmod (by decide)
  have hloads : LoadsOldest scripted anyTopic s (.cron ⟨602, 602, 0, 602⟩) := by
    intro _
    rw [hfiles]
    change FileStore.UniqueOldest [⟨[88], 602, File.addMessage [] second⟩, ⟨[1], 600, File.addMessage [] first⟩]
    intro e he hmin e' he' hctime
    have holdest := hmin _ (List.mem_cons_of_mem _ (List.mem_singleton_self _))
    simp only [List.mem_cons, List.not_mem_nil, or_false] at he he'
    rcases he with rfl | rfl
    . exact absurd holdest (by decide)
    . rcases he' with rfl | rfl
      . exact absurd hctime (by decide)
      . rfl
  have hnext : ∀ (s : BufferStore (List Bool)) (files : FileStore) (env : Env), s.secondary = files →
      files.directory.length ≤ 1 → LoadsOldest scripted anyTopic s (.cron env) := by
    rintro s files env rfl hlen _
    exact uniqueOldest_of_length_le (Nat.le_trans (length_close_le _ _) hlen)
  have htimelyt : Timely scripted anyTopic t (.cron ⟨603, 603, 0, 603⟩) := by
    apply timely_cron
    . rw [hfilest]
      rfl
    . rw [hfilest]
      decide
  have htimelyu : Timely scripted anyTopic u (.cron ⟨604, 604, 0, 604⟩) := by
    apply timely_cron
    . rw [hfilesu]
      rfl
    . rw [hfilesu]
      decide
  have hstep : ∀ s e t, Timely scripted anyTopic s (.cron e) → LoadsOldest scripted anyTopic s (.cron e) →
      s.cron scripted anyTopic e = some t → (Timely scripted anyTopic s (.cron e) ∧ LoadsOldest scripted anyTopic s (.cron e)) ∧
        s.call scripted anyTopic (.cron e) = some t := fun _ _ _ h h' hcron => ⟨⟨h, h'⟩, hcron⟩
  have hrun := ((hs.snoc (hstep s _ t htimely hloads ht)).snoc
    (hstep t _ u htimelyt (hnext t _ _ hfilest (by decide)) hu)).snoc
    (hstep u _ v htimelyu (hnext u _ _ hfilesu (by decide)) hv)
  refine ⟨_, v, hrun, ?_, inOrder_of_reaches scripted anyTopic _ ⟨[], none, 600, 0⟩ ⟨0, 0, 0⟩ ⟨1, 1, 0, 1⟩ rfl rfl hrun⟩
  rw [hdrained, htoPrimary]
  rfl

/--
The first message is in a file that is closed by a rotation; the second one goes to the next file, which is
closed within the same second and comes first in the listing of the directory.
-/
theorem inOrder_fails_tie
    : ¬∀ calls t, Run.Reaches (fun s c t => Timely scripted anyTopic s c ∧ s.call scripted anyTopic c = some t)
        (open_ scripted anyTopic [false, false, true, true, true] ⟨[], none, 600, 0⟩ ⟨0, 0, 0⟩ ⟨1, 1, 0, 1⟩) calls t →
          InOrder t := by
  intro h
  have hfirst := getMessages_one (m := first) ⟨by decide, by decide⟩
  have hsecond := getMessages_one (m := second) ⟨by decide, by decide⟩
  have hreach : ∃ calls s, Run.Reaches (fun s c t => Timely scripted anyTopic s c ∧ s.call scripted anyTopic c = some t)
      (open_ scripted anyTopic [false, false, true, true, true] ⟨[], none, 600, 0⟩ ⟨0, 0, 0⟩ ⟨1, 1, 0, 1⟩) calls s ∧
      s.isOpen = true ∧ s.state = .toSecondary ∧ s.primary = [true, true, true] ∧ s.accepted = [first, second] ∧
      s.toPrimary = [] ∧ s.secondary = ⟨[⟨[88], 600, File.addMessage [] second⟩, ⟨[1], 600, File.addMessage [] first⟩],
        some [88], 600, 600⟩ := by
    refine ⟨_, _, .snoc (l := .addMessage ⟨600, 600, 0, 600⟩ second) (.snoc (l := .cron ⟨600, 600, 0, 600⟩)
      (.single (l := .addMessage ⟨1, 1, 0, 1⟩ first) ⟨⟨by decide, fun _ => by decide⟩, rfl⟩)
      ⟨⟨by decide, fun _ => by decide⟩, rfl⟩) ⟨⟨by decide, fun _ => by decide⟩, rfl⟩, ?_⟩
    exact ⟨rfl, rfl, rfl, rfl, rfl, rfl⟩
  obtain ⟨calls, s, hs, hopen, hstate, hprimary, haccepted, htoPrimary, hfiles⟩ := hreach
  obtain ⟨t, u, v, ht, hfilest, hu, hfilesu, hv, hacceptedv, hdrained⟩ := drain_two ⟨600, 600, 0, 600⟩
    ⟨601, 601, 0, 601⟩ ⟨602, 602, 0, 602⟩ ⟨[⟨[1], 600, File.addMessage [] first⟩], none, 600, 600⟩ ⟨[], none, 600, 600⟩
    hopen hstate hprimary (by rw [hfiles]; rfl) (by rw [hfiles]; exact hsecond) (by rw [hfiles]; rfl) rfl hfirst rfl rfl
  have htimely : Timely scripted anyTopic s (.cron ⟨600, 600, 0, 600⟩) := by
    unfold Timely
    rw [hfiles]
    exact ⟨by decide, fun _ => by decide⟩
  have htimelyt : Timely scripted anyTopic t (.cron ⟨601, 601, 0, 601⟩) := by
    apply timely_cron
    . rw [hfilest]
      rfl
    . rw [hfilest]
      decide
  have htimelyu : Timely scripted anyTopic u (.cron ⟨602, 602, 0, 602⟩) := by
    apply timely_cron
    . rw [hfilesu]
      rfl
    . rw [hfilesu]
      decide
  have hrun := ((hs.snoc ⟨htimely, ht⟩).snoc ⟨htimelyt, hu⟩).snoc ⟨htimelyu, hv⟩
  have hfalse := h _ v hrun
  unfold InOrder at hfalse
  rw [hacceptedv, haccepted, hdrained, htoPrimary] at hfalse
  exact absurd hfalse (by decide)

end BufferStore
end Kids
