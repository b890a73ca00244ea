import Kids.Store.BufferStoreLemmas

/-!
Whole runs of a `BufferStore`, through any number of `Close` and `Open` calls, and what each call does to
the counters and to the history. Opening the store again closes it first, if it is open.
-/

namespace Kids
namespace BufferStore

variable {σ : Type} (ops : StoreOps σ) (conf : BufferConfig)

-- `Close` looks at the size of a queue that an earlier `Close` may have deleted
def closeAgain (s : BufferStore σ) (env : Env) : Option (BufferStore σ) :=
  match s.isOpen, s.msgToTransfer with
  | true, .deleted => none
  | _, _ => some (s.close ops env)

def reopenClosed (s : BufferStore σ) (env : Env) : BufferStore σ :=
  let (opened, primary) := ops.open_ s.primary
  let s := { s with isOpen := true, primary := primary }
  if opened then
    if s.secondary.haveOldMessage then
      { s with state := .transfering, msgToTransfer := .queue [] }
    else
      { s with state := .toPrimary }
  else
    { s with state := .toSecondary, secondary := s.secondary.open_ conf.makeName env }

def reopen (s : BufferStore σ) (env : Env) : Option (BufferStore σ) :=
  (s.closeAgain ops env).map (reopenClosed ops conf . env)

inductive Call
  | addMessage (env : Env) (m : Message)
  | cron (env : Env)
  | close (env : Env)
  | open_ (env : Env)

def Call.env : Call → Env
  | .addMessage env _ => env
  | .cron env => env
  | .close env => env
  | .open_ env => env

def call (s : BufferStore σ) : Call → Option (BufferStore σ)
  | .addMessage env m => s.addMessage ops conf env m
  | .cron env => s.cron ops conf env
  | .close env => s.closeAgain ops env
  | .open_ env => s.reopen ops conf env

variable {ops conf} {s t : BufferStore σ}

theorem Accounted.reopenClosed (h : Accounted s) (hqueue : s.msgToTransfer.msgs = []) (ops : StoreOps σ)
    (conf : BufferConfig) (env : Env)
    : Accounted (reopenClosed ops conf s env) := by
  unfold BufferStore.reopenClosed
  dsimp only
  split
  . split
    . refine ⟨h.wf, ?_, fun _ _ => ⟨[], rfl⟩, fun _ => rfl⟩
      intro m
      have hall := h.count_eq m
      rw [hqueue] at hall
      exact hall
    . refine ⟨h.wf, h.count_eq, ?_, fun _ => hqueue⟩
      intro _ hcontra
      cases hcontra
  . refine ⟨h.wf.open_ _ _, ?_, ?_, fun _ => hqueue⟩
    . intro m
      rw [FileStore.count_open h.wf]
      exact h.count_eq m
    . intro _ hcontra
      cases hcontra

theorem history_reopenClosed (ops : StoreOps σ) (conf : BufferConfig) (s : BufferStore σ) (env : Env)
    : (reopenClosed ops conf s env).accepted = s.accepted ∧ (reopenClosed ops conf s env).toPrimary = s.toPrimary ∧
        (reopenClosed ops conf s env).discarded = s.discarded ∧ (reopenClosed ops conf s env).refused = s.refused ∧
        (reopenClosed ops conf s env).stat = s.stat := by
  unfold BufferStore.reopenClosed
  dsimp only
  split
  . split <;> exact ⟨rfl, rfl, rfl, rfl, rfl⟩
  . exact ⟨rfl, rfl, rfl, rfl, rfl⟩

theorem close_of_empty (ops : StoreOps σ) (s : BufferStore σ) (hqueue : s.msgToTransfer.msgs = []) (env : Env)
    : s.close ops env = s ∨ s.close ops env =
        { s with primary := ops.close s.primary, secondary := s.secondary.close env, isOpen := false } := by
  unfold BufferStore.close
  split
  . dsimp only
    split
    . next hsome =>
      rw [hsome] at hqueue
      cases hqueue
    . exact .inr rfl
  . exact .inl rfl

/--
What `AddMessage` may do to the history and the counters: the message is dropped, goes to the primary store
or goes to a file.
-/
inductive Added (s : BufferStore σ) (m : Message) (t : BufferStore σ) : Prop
  | dropped : t.accepted = s.accepted → t.toPrimary = s.toPrimary → t.stat.msgBuffer = s.stat.msgBuffer →
      t.stat.msgBufferSize = s.stat.msgBufferSize → Added s m t
  | toPrimary : t.accepted = s.accepted ++ [m] → t.toPrimary = s.toPrimary ++ [m] → t.stat = s.stat → Added s m t
  | toFile : t.accepted = s.accepted ++ [m] → t.toPrimary = s.toPrimary →
      t.stat.msgBuffer = s.stat.msgBuffer + 1 →
      t.stat.msgBufferSize = s.stat.msgBufferSize + UInt64.ofNat m.content.len → Added s m t

theorem addToPrimary_cases (ops : StoreOps σ) (conf : BufferConfig) (s : BufferStore σ) (env : Env) (m : Message)
    : ∃ more t, s.addToPrimary ops conf env m = (more, t) ∧ t.isOpen = s.isOpen ∧ t.accepted = s.accepted ∧ t.stat = s.stat ∧
        t.discarded = s.discarded ∧ t.refused = s.refused ∧ t.msgToTransfer = s.msgToTransfer ∧
        t.toPrimary = s.toPrimary ++ if more then [] else [m] := by
  unfold BufferStore.addToPrimary
  dsimp only
  split
  . split
    . exact ⟨true, _, rfl, rfl, rfl, rfl, rfl, rfl, rfl, by simp⟩
    . split
      . exact ⟨true, _, rfl, rfl, rfl, rfl, rfl, rfl, rfl, by simp⟩
      . exact ⟨false, _, rfl, rfl, rfl, rfl, rfl, rfl, rfl, by simp⟩
  . exact ⟨true, s, rfl, rfl, rfl, rfl, rfl, rfl, rfl, by simp⟩

theorem addToSecondary_cases (h : s.addToSecondary conf env m = some (kept, t))
    : t.isOpen = s.isOpen ∧ t.accepted = s.accepted ∧ t.toPrimary = s.toPrimary ∧ t.discarded = s.discarded ∧
        t.refused = s.refused ∧ t.msgToTransfer = s.msgToTransfer ∧
        (kept = true → t.stat.msgBuffer = s.stat.msgBuffer + 1 ∧
          t.stat.msgBufferSize = s.stat.msgBufferSize + UInt64.ofNat m.content.len) ∧
        (kept = false → t.stat.msgBuffer = s.stat.msgBuffer ∧ t.stat.msgBufferSize = s.stat.msgBufferSize) := by
  unfold BufferStore.addToSecondary at h
  dsimp only at h
  split at h
  . split at h
    . cases h
    . cases h
      simp
  . cases h
    simp

theorem addMessage_cases (h : s.addMessage ops conf env m = some t)
    : t.isOpen = s.isOpen ∧ t.discarded = s.discarded ∧ t.refused = s.refused ∧ t.msgToTransfer = s.msgToTransfer ∧
        Added s m t := by
  unfold BufferStore.addMessage doAddMessage at h
  split at h
  . obtain ⟨more, u, hu, hopen, haccepted, hstat, hdiscarded, hrefused, hqueue, hprimary⟩ :=
      addToPrimary_cases ops conf s env m
    rw [hu] at h
    cases more with
    | false =>
      cases h
      refine ⟨hopen, hdiscarded, hrefused, hqueue, ?_⟩
      apply Added.toPrimary
      . simp [haccepted]
      . simpa using hprimary
      . exact hstat
    | true =>
      dsimp only at h
      cases hsecondary : u.addToSecondary conf env m with
      | none =>
        rw [hsecondary] at h
        cases h
      | some r =>
        obtain ⟨kept, v⟩ := r
        rw [hsecondary] at h
        obtain ⟨hopen', haccepted', hprimary', hdiscarded', hrefused', hqueue', hkept, hdropped⟩ :=
          addToSecondary_cases hsecondary
        rw [if_pos rfl, List.append_nil] at hprimary
        rw [haccepted] at haccepted'
        rw [hprimary] at hprimary'
        rw [hstat] at hkept hdropped
        cases kept with
        | true =>
          cases h
          refine ⟨hopen'.trans hopen, hdiscarded'.trans hdiscarded, hrefused'.trans hrefused, hqueue'.trans hqueue, ?_⟩
          apply Added.toFile
          . simp [haccepted']
          . exact hprimary'
          . exact (hkept rfl).1
          . exact (hkept rfl).2
        | false =>
          cases h
          refine ⟨hopen'.trans hopen, hdiscarded'.trans hdiscarded, hrefused'.trans hrefused, hqueue'.trans hqueue, ?_⟩
          apply Added.dropped haccepted' hprimary'
          . exact (hdropped rfl).1
          . exact (hdropped rfl).2
  . cases h
    exact ⟨rfl, rfl, rfl, rfl, .dropped rfl rfl rfl rfl⟩

-- what a tick may do to the history and the counters, with the messages that it hands over
structure Ticked (s : BufferStore σ) (sent lost : List Message) (t : BufferStore σ) : Prop where
  isOpen : t.isOpen = s.isOpen
  accepted : t.accepted = s.accepted
  discarded : t.discarded = s.discarded
  toPrimary : t.toPrimary = s.toPrimary ++ sent
  refused : t.refused = s.refused ++ lost
  msgBuffer : t.stat.msgBuffer = s.stat.msgBuffer - UInt64.ofNat (sent.length + lost.length)
  msgBufferSize : t.stat.msgBufferSize = s.stat.msgBufferSize
  live : s.msgToTransfer ≠ .deleted → t.msgToTransfer ≠ .deleted

theorem Ticked.refl (s : BufferStore σ) : Ticked s [] [] s where
  isOpen := rfl
  accepted := rfl
  discarded := rfl
  toPrimary := (List.append_nil _).symm
  refused := (List.append_nil _).symm
  msgBuffer := by simp
  msgBufferSize := rfl
  live := id

theorem Ticked.cronReadFile (h : Ticked s sent lost t) (hread : t.cronReadFile env queue = some u)
    : Ticked s sent lost u := by
  unfold BufferStore.cronReadFile at hread
  split at hread
  . dsimp only at hread
    split at hread
    . cases hread
    . cases hread
      exact { h with live := fun _ => by simp }
  . cases hread
    exact h

theorem Ticked.cronFinish (h : Ticked s sent lost t) (env : Env) (queue : List Message)
    : Ticked s sent lost (t.cronFinish env queue) := by
  unfold BufferStore.cronFinish
  split
  . exact { h with live := fun _ => by simp }
  . exact h

theorem cronTransfering_ticked (h : s.cronTransfering ops conf env = some t)
    : s.state ≠ .transfering ∧ Ticked s [] [] t ∨
        s.state = .transfering ∧ ∃ queue, s.msgToTransfer = .queue queue ∧
          Ticked s (transfer ops conf.maxMsgPerCron queue s.primary).sent
            (transfer ops conf.maxMsgPerCron queue s.primary).refused t := by
  unfold BufferStore.cronTransfering at h
  split at h
  . next hstate =>
    split at h
    . next queue hqueue =>
      refine .inr ⟨hstate, queue, hqueue, ?_⟩
      have hticked : Ticked s (transfer ops conf.maxMsgPerCron queue s.primary).sent
          (transfer ops conf.maxMsgPerCron queue s.primary).refused (s.cronTransfer ops conf queue) :=
        ⟨rfl, rfl, rfl, rfl, rfl, rfl, rfl, fun _ => by simp [cronTransfer]⟩
      dsimp only at h
      split at h
      . cases h
      . next hread =>
        cases h
        exact (hticked.cronReadFile hread).cronFinish env _
    . cases h
  . next hstate =>
    cases h
    exact .inl ⟨hstate, Ticked.refl s⟩

theorem cronPrimaryOpen_ticked (h : Ticked (s.cronPrimaryOpen ops) sent lost t) : Ticked s sent lost t := by
  unfold BufferStore.cronPrimaryOpen at h
  split at h
  . split at h
    . exact { h with live := fun _ => h.live (by simp) }
    . exact { h with }
  . exact h

theorem cronPrimaryOpen_cases (ops : StoreOps σ) (s : BufferStore σ)
    : s.cronPrimaryOpen ops = s ∨ s.state = .toSecondary ∧
        ((s.cronPrimaryOpen ops).state = .toSecondary ∨ (s.cronPrimaryOpen ops).msgToTransfer = .queue []) := by
  unfold BufferStore.cronPrimaryOpen
  split
  . next hstate =>
    split
    . exact .inr ⟨hstate, .inr rfl⟩
    . exact .inr ⟨hstate, .inl hstate⟩
  . exact .inl rfl

theorem cron_ticked (h : s.cron ops conf env = some t)
    : (s.isOpen = true → s.state ≠ .transfering) ∧ Ticked s [] [] t ∨
        s.isOpen = true ∧ s.state = .transfering ∧ ∃ queue, s.msgToTransfer = .queue queue ∧
          Ticked s (transfer ops conf.maxMsgPerCron queue s.primary).sent
            (transfer ops conf.maxMsgPerCron queue s.primary).refused t := by
  unfold BufferStore.cron at h
  split at h
  . next hopen =>
    split at h
    . cases h
    . next u hu =>
      obtain ⟨fs, -, rfl⟩ := Option.map_eq_some_iff.mp h
      have hcases := cronTransfering_ticked hu
      rcases cronPrimaryOpen_cases ops s with hsame | ⟨hstate, hnext⟩
      . rw [hsame] at hcases
        rcases hcases with ⟨hstate, hticked⟩ | ⟨hstate, queue, hqueue, hticked⟩
        . exact .inl ⟨fun _ => hstate, { hticked with }⟩
        . exact .inr ⟨hopen, hstate, queue, hqueue, { hticked with }⟩
      . -- a transfer that starts in this tick has nothing to hand over yet
        refine .inl ⟨fun _ hcontra => ?_, ?_⟩
        . cases hstate.symm.trans hcontra
        . rcases hcases with ⟨-, hticked⟩ | ⟨hstate', queue, hqueue, hticked⟩
          . exact { cronPrimaryOpen_ticked hticked with }
          . rcases hnext with hcontra | hempty
            . cases hstate'.symm.trans hcontra
            . cases hqueue.symm.trans hempty
              rw [transfer_nil] at hticked
              exact { cronPrimaryOpen_ticked hticked with }
  . next hclosed =>
    cases h
    exact .inl ⟨fun hopen => absurd hopen hclosed, Ticked.refl s⟩

theorem cron_closed (h : s.cron ops conf env = some t) (hclosed : t.isOpen = false) : t = s := by
  have hopen : t.isOpen = s.isOpen := by
    rcases cron_ticked h with ⟨-, hticked⟩ | ⟨-, -, queue, -, hticked⟩
    . exact hticked.isOpen
    . exact hticked.isOpen
  unfold BufferStore.cron at h
  rw [← hopen, hclosed] at h
  cases h
  rfl

end BufferStore
end Kids
