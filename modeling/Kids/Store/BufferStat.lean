import Kids.Store.BufferRun

/-!
The counters `msg_buffer` and `msg_buffer_size` against the messages that wait in the files and in memory.
They grow when `FileStore` writes a message; `BufferStore` takes back one of them when it hands a message
over and neither when it is closed.
-/

namespace Kids
namespace BufferStore

variable {σ : Type} {ops : StoreOps σ} {conf : BufferConfig} {s t : BufferStore σ}

def stored (s : BufferStore σ) : List Message :=
  s.secondary.messages ++ s.msgToTransfer.msgs

def contentSize (msgs : List Message) : Nat :=
  (msgs.map fun m => m.content.len).sum

structure Counted (s : BufferStore σ) : Prop where
  msgBuffer : s.stat.msgBuffer.toNat = s.stored.length
  msgBufferSize : s.stat.msgBufferSize.toNat = contentSize s.stored

/--
What goes to a file can be read back, no tick divides by a rotate interval of 0, no message in memory is lost when
the store is closed, and the counter holds the messages that wait.
-/
def KeepsStored (ops : StoreOps σ) (conf : BufferConfig) (s : BufferStore σ) : Call → Prop
  | .addMessage _ m => (WritesFile ops conf s m → File.NonEmpty m) ∧ s.stored.length + 1 < 2 ^ 64
  | .cron env => RotationDefined ops conf s (.cron env)
  | .close _ => s.isOpen = true → s.msgToTransfer.msgs = []
  | .open_ _ => s.isOpen = true → s.msgToTransfer.msgs = []

-- no tick hands a message over, and the counter holds the size of what is written
def KeepsSize (s : BufferStore σ) : Call → Prop
  | .addMessage _ m => contentSize s.stored + m.content.len < 2 ^ 64
  | .cron _ => s.isOpen = true → s.state = .transfering → s.msgToTransfer.msgs = []
  | _ => True

theorem contentSize_append (l r : List Message) : contentSize (l ++ r) = contentSize l + contentSize r := by
  simp [contentSize]

theorem contentSize_singleton (m : Message) : contentSize [m] = m.content.len := by
  simp [contentSize]

theorem contentSize_perm (h : l.Perm r) : contentSize l = contentSize r :=
  (h.map _).sum_nat

theorem Accounted.perm (h : Accounted s)
    : s.accepted.Perm (s.toPrimary ++ s.stored ++ s.discarded ++ s.refused) := by
  rw [List.perm_iff_count]
  intro m
  have hall := h.count_eq m
  simp only [stored, List.count_append] at hall ⊢
  omega

theorem Accounted.length_eq (h : Accounted s)
    : s.accepted.length = s.toPrimary.length + s.stored.length + s.discarded.length + s.refused.length := by
  rw [h.perm.length_eq]
  simp only [List.length_append]

theorem Accounted.contentSize_eq (h : Accounted s)
    : contentSize s.accepted =
        contentSize s.toPrimary + contentSize s.stored + contentSize s.discarded + contentSize s.refused := by
  rw [contentSize_perm h.perm]
  simp only [contentSize_append]

structure Tallied (s : BufferStore σ) : Prop where
  accounted : Accounted s
  discarded : s.discarded = []
  closed : s.isOpen = false → s.msgToTransfer.msgs = []
  live : s.msgToTransfer ≠ .deleted
  msgBuffer : s.stat.msgBuffer.toNat = s.stored.length

theorem Tallied.of_history (h : Tallied s) (ht : Accounted t) (hdiscarded : t.discarded = s.discarded)
    (hclosed : t.isOpen = false → t.msgToTransfer.msgs = []) (hlive : t.msgToTransfer ≠ .deleted)
    (hmsgBuffer : t.stored.length + t.toPrimary.length + t.refused.length = t.accepted.length →
      t.stat.msgBuffer.toNat = t.stored.length)
    : Tallied t := by
  have hempty := hdiscarded.trans h.discarded
  refine ⟨ht, hempty, hclosed, hlive, ?_⟩
  apply hmsgBuffer
  have hlen := ht.length_eq
  rw [hempty] at hlen
  simp only [List.length_nil] at hlen
  omega

theorem Tallied.length_eq (h : Tallied s)
    : s.accepted.length = s.toPrimary.length + s.stat.msgBuffer.toNat + s.refused.length := by
  have hlen := h.accounted.length_eq
  rw [h.discarded, ← h.msgBuffer] at hlen
  simpa using hlen

theorem Tallied.addMessage (h : Tallied s) (hm : WritesFile ops conf s m → File.NonEmpty m)
    (hroom : s.stored.length + 1 < 2 ^ 64) (ht : s.addMessage ops conf env m = some t) : Tallied t := by
  obtain ⟨u, hu, -, haccounted⟩ := h.accounted.addMessage ops conf env hm
  cases ht.symm.trans hu
  obtain ⟨hopen, hdiscarded, hrefused, hqueue, hadded⟩ := addMessage_cases ht
  have hlen := h.length_eq
  rw [← h.msgBuffer] at hroom
  apply h.of_history haccounted hdiscarded
  . rw [hopen, hqueue]
    exact h.closed
  . rw [hqueue]
    exact h.live
  . intro hlen'
    cases hadded with
    | dropped haccepted hprimary hstat _ =>
      rw [haccepted, hprimary, hrefused] at hlen'
      rw [hstat]
      omega
    | toPrimary haccepted hprimary hstat =>
      rw [haccepted, hprimary, hrefused] at hlen'
      simp only [List.length_append] at hlen'
      rw [hstat]
      omega
    | toFile haccepted hprimary hstat _ =>
      rw [haccepted, hprimary, hrefused, List.length_append, List.length_singleton] at hlen'
      rw [hstat, UInt64.toNat_add, UInt64.toNat_one, Nat.mod_eq_of_lt hroom]
      omega

theorem toNat_sub_ofNat {a : UInt64} (h : n ≤ a.toNat) : (a - UInt64.ofNat n).toNat = a.toNat - n := by
  have hlt := a.toNat_lt
  have hn : (UInt64.ofNat n).toNat = n := by
    rw [UInt64.toNat_ofNat', Nat.mod_eq_of_lt (by omega)]
  rw [UInt64.toNat_sub_of_le _ _ (UInt64.le_iff_toNat_le.mpr (by omega)), hn]

theorem Tallied.cron (h : Tallied s) (ht : s.cron ops conf env = some t) : Tallied t := by
  obtain ⟨haccounted, -⟩ := h.accounted.cron ht
  have hticked : ∃ sent lost, Ticked s sent lost t := by
    rcases cron_ticked ht with ⟨-, hticked⟩ | ⟨-, -, queue, -, hticked⟩
    . exact ⟨_, _, hticked⟩
    . exact ⟨_, _, hticked⟩
  obtain ⟨sent, lost, hticked⟩ := hticked
  have hlen := h.length_eq
  apply h.of_history haccounted hticked.discarded
  . intro hclosed
    cases cron_closed ht hclosed
    exact h.closed hclosed
  . exact hticked.live h.live
  . intro hlen'
    rw [hticked.accepted, hticked.toPrimary, hticked.refused, List.length_append, List.length_append] at hlen'
    rw [hticked.msgBuffer, toNat_sub_ofNat (by omega)]
    omega

-- the counters and the history are not touched by opening and closing
structure Untouched (s t : BufferStore σ) : Prop where
  accepted : t.accepted = s.accepted
  toPrimary : t.toPrimary = s.toPrimary
  discarded : t.discarded = s.discarded
  refused : t.refused = s.refused
  stat : t.stat = s.stat

theorem Tallied.untouched (h : Tallied s) (ht : Accounted t) (hsame : Untouched s t)
    (hclosed : t.isOpen = false → t.msgToTransfer.msgs = []) (hlive : t.msgToTransfer ≠ .deleted)
    : Tallied t := by
  have hlen := h.length_eq
  apply h.of_history ht hsame.discarded hclosed hlive
  intro hlen'
  rw [hsame.accepted, hsame.toPrimary, hsame.refused] at hlen'
  rw [hsame.stat]
  omega

theorem Tallied.closeAgain (h : Tallied s) (hempty : s.isOpen = true → s.msgToTransfer.msgs = []) (ops : StoreOps σ)
    (env : Env)
    : ∃ t, s.closeAgain ops env = some t ∧ Tallied t ∧ Untouched s t ∧ t.msgToTransfer.msgs = [] := by
  have hmsgs : s.msgToTransfer.msgs = [] := by
    cases hopen : s.isOpen with
    | true => exact hempty hopen
    | false => exact h.closed hopen
  refine ⟨s.close ops env, ?_, ?_⟩
  . unfold BufferStore.closeAgain
    split
    . next hdeleted => exact absurd hdeleted h.live
    . rfl
  . have haccounted := (h.accounted.close ops env).1
    rcases close_of_empty ops s hmsgs env with hclose | hclose
    . rw [hclose]
      exact ⟨h, ⟨rfl, rfl, rfl, rfl, rfl⟩, hmsgs⟩
    . rw [hclose] at haccounted ⊢
      have hsame : Untouched s
          { s with primary := ops.close s.primary, secondary := s.secondary.close env, isOpen := false } :=
        ⟨rfl, rfl, rfl, rfl, rfl⟩
      exact ⟨h.untouched haccounted hsame (fun _ => hmsgs) h.live, hsame, hmsgs⟩

theorem Tallied.reopen (h : Tallied s) (hempty : s.isOpen = true → s.msgToTransfer.msgs = []) (ops : StoreOps σ)
    (conf : BufferConfig) (env : Env)
    : ∃ t, s.reopen ops conf env = some t ∧ Tallied t ∧ Untouched s t := by
  obtain ⟨u, hu, htallied, hsame, hmsgs⟩ := h.closeAgain hempty ops env
  have haccounted := htallied.accounted.reopenClosed hmsgs ops conf env
  obtain ⟨haccepted, hprimary, hdiscarded, hrefused, hstat⟩ := history_reopenClosed ops conf u env
  refine ⟨reopenClosed ops conf u env, ?_, ?_, ?_⟩
  . unfold BufferStore.reopen
    rw [hu]
    rfl
  . apply htallied.untouched haccounted ⟨haccepted, hprimary, hdiscarded, hrefused, hstat⟩
    . unfold BufferStore.reopenClosed
      dsimp only
      split
      . split <;> simp
      . simp
    . have hlive := htallied.live
      unfold BufferStore.reopenClosed
      dsimp only
      split
      . split
        . simp
        . exact hlive
      . exact hlive
  . exact ⟨haccepted.trans hsame.accepted, hprimary.trans hsame.toPrimary, hdiscarded.trans hsame.discarded,
      hrefused.trans hsame.refused, hstat.trans hsame.stat⟩

theorem Tallied.call (h : Tallied s) (ops : StoreOps σ) (conf : BufferConfig) (hkeeps : KeepsStored ops conf s c)
    : ∃ t, s.call ops conf c = some t ∧ Tallied t := by
  cases c with
  | addMessage env m =>
    obtain ⟨t, ht, -⟩ := h.accounted.addMessage ops conf env hkeeps.1
    exact ⟨t, ht, h.addMessage hkeeps.1 hkeeps.2 ht⟩
  | cron env =>
    obtain ⟨t, ht⟩ := Option.isSome_iff_exists.mp ((h.accounted.cron_isSome_iff ops conf env).mpr hkeeps)
    exact ⟨t, ht, h.cron ht⟩
  | close env =>
    obtain ⟨t, ht, htallied, -⟩ := h.closeAgain hkeeps ops env
    exact ⟨t, ht, htallied⟩
  | open_ env =>
    obtain ⟨t, ht, htallied, -⟩ := h.reopen hkeeps ops conf env
    exact ⟨t, ht, htallied⟩

structure Sized (s : BufferStore σ) : Prop extends Tallied s where
  msgBufferSize : s.stat.msgBufferSize.toNat = contentSize s.stored

theorem Tallied.contentSize_eq (h : Tallied s)
    : contentSize s.accepted = contentSize s.toPrimary + contentSize s.stored + contentSize s.refused := by
  have hsize := h.accounted.contentSize_eq
  rw [h.discarded] at hsize
  simpa [contentSize] using hsize

theorem Sized.addMessage (h : Sized s) (hm : WritesFile ops conf s m → File.NonEmpty m) (hroom : s.stored.length + 1 < 2 ^ 64)
    (hsize : contentSize s.stored + m.content.len < 2 ^ 64) (ht : s.addMessage ops conf env m = some t)
    : Sized t := by
  have htallied := h.toTallied.addMessage hm hroom ht
  obtain ⟨-, -, hrefused, -, hadded⟩ := addMessage_cases ht
  have hall := h.toTallied.contentSize_eq
  have hall' := htallied.contentSize_eq
  have hbefore := h.msgBufferSize
  refine { htallied with msgBufferSize := ?_ }
  cases hadded with
  | dropped haccepted hprimary _ hstat =>
    rw [haccepted, hprimary, hrefused] at hall'
    rw [hstat]
    omega
  | toPrimary haccepted hprimary hstat =>
    rw [haccepted, hprimary, hrefused, contentSize_append, contentSize_append] at hall'
    rw [hstat]
    omega
  | toFile haccepted hprimary _ hstat =>
    rw [haccepted, hprimary, hrefused, contentSize_append, contentSize_singleton] at hall'
    rw [hstat, UInt64.toNat_add, UInt64.toNat_ofNat', Nat.mod_eq_of_lt (by omega), Nat.mod_eq_of_lt (by omega)]
    omega

theorem Sized.cron (h : Sized s) (hidle : s.isOpen = true → s.state = .transfering → s.msgToTransfer.msgs = [])
    (ht : s.cron ops conf env = some t) : Sized t := by
  have htallied := h.toTallied.cron ht
  have hticked : Ticked s [] [] t := by
    rcases cron_ticked ht with ⟨-, hticked⟩ | ⟨hopen, hstate, queue, hqueue, hticked⟩
    . exact hticked
    . have hempty := hidle hopen hstate
      rw [hqueue] at hempty
      cases hempty
      rwa [transfer_nil] at hticked
  have hall := h.toTallied.contentSize_eq
  have hall' := htallied.contentSize_eq
  have hbefore := h.msgBufferSize
  refine { htallied with msgBufferSize := ?_ }
  rw [hticked.accepted, hticked.toPrimary, hticked.refused, List.append_nil, List.append_nil] at hall'
  rw [hticked.msgBufferSize]
  omega

theorem Sized.untouched (h : Sized s) (htallied : Tallied t) (hsame : Untouched s t) : Sized t := by
  have hall := h.toTallied.contentSize_eq
  have hall' := htallied.contentSize_eq
  have hbefore := h.msgBufferSize
  refine { htallied with msgBufferSize := ?_ }
  rw [hsame.accepted, hsame.toPrimary, hsame.refused] at hall'
  rw [hsame.stat]
  omega

theorem Sized.call (h : Sized s) (ops : StoreOps σ) (conf : BufferConfig)
    (hkeeps : KeepsStored ops conf s c ∧ KeepsSize s c)
    : ∃ t, s.call ops conf c = some t ∧ Sized t := by
  cases c with
  | addMessage env m =>
    obtain ⟨t, ht, -⟩ := h.accounted.addMessage ops conf env hkeeps.1.1
    exact ⟨t, ht, h.addMessage hkeeps.1.1 hkeeps.1.2 hkeeps.2 ht⟩
  | cron env =>
    obtain ⟨t, ht⟩ := Option.isSome_iff_exists.mp ((h.accounted.cron_isSome_iff ops conf env).mpr hkeeps.1)
    exact ⟨t, ht, h.cron hkeeps.2 ht⟩
  | close env =>
    obtain ⟨t, ht, htallied, hsame, -⟩ := h.toTallied.closeAgain hkeeps.1 ops env
    exact ⟨t, ht, h.untouched htallied hsame⟩
  | open_ env =>
    obtain ⟨t, ht, htallied, hsame⟩ := h.toTallied.reopen hkeeps.1 ops conf env
    exact ⟨t, ht, h.untouched htallied hsame⟩

theorem history_open (ops : StoreOps σ) (conf : BufferConfig) (primary : σ) (fs : FileStore) (stat : BufferStat)
    (env : Env)
    : (open_ ops conf primary fs stat env).accepted = [] ∧ (open_ ops conf primary fs stat env).toPrimary = [] ∧
        (open_ ops conf primary fs stat env).discarded = [] ∧ (open_ ops conf primary fs stat env).isOpen = true ∧
        (open_ ops conf primary fs stat env).stat = stat ∧
        (open_ ops conf primary fs stat env).msgToTransfer ≠ .deleted := by
  unfold BufferStore.open_
  dsimp only
  split
  . split <;> simp
  . simp

theorem Sized.open_ (ops : StoreOps σ) (conf : BufferConfig) (primary : σ) (fs : FileStore) (env : Env)
    (hnames : (fs.directory.map Entry.name).Nodup) (hempty : ∀ entry ∈ fs.directory, entry.data = [])
    (hclosed : fs.secondaryFile = none)
    : Sized (open_ ops conf primary fs ⟨0, 0, 0⟩ env) := by
  have hmessages : fs.messages = [] := by
    unfold FileStore.messages FileStore.dirMessages
    rw [List.flatMap_eq_nil_iff]
    intro entry hentry
    exact (FileStore.Written.empty (hempty entry hentry)).2
  have hwf : fs.Wf := by
    refine ⟨⟨hnames, ?_⟩, ?_⟩
    . intro entry hentry
      exact (FileStore.Written.empty (hempty entry hentry)).1
    . intro name hname
      cases hclosed.symm.trans hname
  obtain ⟨haccounted, hrefused⟩ := Accounted.of_open ops conf primary ⟨0, 0, 0⟩ env hwf hmessages
  obtain ⟨haccepted, hprimary, hdiscarded, hopen, hstat, hlive⟩ := history_open ops conf primary fs ⟨0, 0, 0⟩ env
  have hstored : (BufferStore.open_ ops conf primary fs ⟨0, 0, 0⟩ env).stored = [] := by
    have hlen := haccounted.length_eq
    rw [haccepted, hprimary, hdiscarded, hrefused] at hlen
    apply List.eq_nil_of_length_eq_zero
    simpa using hlen.symm
  refine ⟨⟨haccounted, hdiscarded, ?_, hlive, ?_⟩, ?_⟩
  . intro hcontra
    cases hopen.symm.trans hcontra
  . rw [hstat, hstored]
    rfl
  . rw [hstat, hstored]
    rfl

/--
On a directory with nothing in its files, `msg_buffer` is right all along a run in which what goes to the files can
be read back, no message in memory is lost by closing the store and no tick divides by a rotate interval of 0; both
counters are right if, moreover, no tick hands a message over.
-/
theorem counted_of_meets (ops : StoreOps σ) (conf : BufferConfig) (primary : σ) (fs : FileStore) (env : Env)
    (hnames : (fs.directory.map Entry.name).Nodup) (hempty : ∀ entry ∈ fs.directory, entry.data = [])
    (hclosed : fs.secondaryFile = none) (calls : List Call)
    : (Run.Meets (call ops conf) (KeepsStored ops conf) (open_ ops conf primary fs ⟨0, 0, 0⟩ env) calls →
          Run.Along (call ops conf) (fun s => s.stat.msgBuffer.toNat = s.stored.length)
            (open_ ops conf primary fs ⟨0, 0, 0⟩ env) calls) ∧
        (Run.Meets (call ops conf) (fun s c => KeepsStored ops conf s c ∧ KeepsSize s c)
            (open_ ops conf primary fs ⟨0, 0, 0⟩ env) calls →
          Run.Along (call ops conf) Counted (open_ ops conf primary fs ⟨0, 0, 0⟩ env) calls) := by
  have hinit := Sized.open_ ops conf primary fs env hnames hempty hclosed
  constructor
  . intro hmeets
    have hrun : Run.Along (call ops conf) Tallied (open_ ops conf primary fs ⟨0, 0, 0⟩ env) calls := by
      apply Run.Along.of_meets (fun _ => True) hinit.toTallied (fun _ _ => trivial) hmeets
      intro s c hs _ hkeeps
      exact hs.call ops conf hkeeps
    exact hrun.mono fun s hs => hs.msgBuffer
  . intro hmeets
    have hrun : Run.Along (call ops conf) Sized (open_ ops conf primary fs ⟨0, 0, 0⟩ env) calls := by
      apply Run.Along.of_meets (fun _ => True) hinit (fun _ _ => trivial) hmeets
      intro s c hs _ hkeeps
      exact hs.call ops conf hkeeps
    exact hrun.mono fun s hs => ⟨hs.msgBuffer, hs.msgBufferSize⟩

def logA : Message :=
  .ofBytes 97 98

-- one message is written to a file, loaded and handed over
def handOver : List Call :=
  [.addMessage ⟨1, 1, 0, 1⟩ logA, .cron ⟨2, 2, 0, 2⟩, .cron ⟨3, 3, 0, 3⟩]

theorem nonEmpty_logA : File.NonEmpty logA :=
  ⟨by decide, by decide⟩

-- the state in which the message is in memory, and none is in a file
theorem loaded (h1 : (open_ scripted anyTopic (false :: true :: answers) ⟨[], none, 600, 0⟩ ⟨0, 0, 0⟩ ⟨1, 1, 0, 1⟩).call
      scripted anyTopic (.addMessage ⟨1, 1, 0, 1⟩ logA) = some s1)
    (h2 : s1.call scripted anyTopic (.cron ⟨2, 2, 0, 2⟩) = some s2)
    : s1.state = .toSecondary ∧ s1.secondary.rotateInterval = 600 ∧ s1.accepted = [logA] ∧ s1.toPrimary = [] ∧
        s1.stat.msgBufferSize = 1 ∧ s2.isOpen = true ∧ s2.state = .transfering ∧ s2.msgToTransfer = .queue [logA] ∧
        s2.primary = answers ∧ s2.secondary = ⟨[], none, 600, 1⟩ := by
  have hread : s1.isOpen = true ∧ scripted.isOpen s1.primary = (true, answers) ∧
      s1.secondary.haveOldMessage = true ∧ (s1.secondary.close ⟨2, 2, 0, 2⟩).getOldestMessages = some [logA] ∧
      (s1.secondary.close ⟨2, 2, 0, 2⟩).deleteOldestMessages = ⟨[], none, 600, 1⟩ := by
    cases h1
    exact ⟨rfl, rfl, rfl, getMessages_one nonEmpty_logA, rfl⟩
  have hwritten : s1.state = .toSecondary ∧ s1.secondary.rotateInterval = 600 ∧ s1.accepted = [logA] ∧
      s1.toPrimary = [] ∧ s1.stat.msgBufferSize = 1 := by
    cases h1
    exact ⟨rfl, rfl, rfl, rfl, rfl⟩
  obtain ⟨hopen, hprimary, hold, hget, hrest⟩ := hread
  obtain ⟨hstate, hinterval, haccepted, htoPrimary, hsize⟩ := hwritten
  obtain ⟨u, hu, hopen', hstate', hqueue, hprimary', -, -, hsecondary⟩ := cron_load anyTopic hopen hstate hprimary hold hget
  obtain rfl := Option.some.inj (h2.symm.trans hu)
  exact ⟨hstate, hinterval, haccepted, htoPrimary, hsize, hopen', hstate', hqueue, hprimary', hsecondary.trans hrest⟩

theorem stored_down (answers : List Bool)
    : (open_ scripted anyTopic (false :: answers) ⟨[], none, 600, 0⟩ ⟨0, 0, 0⟩ ⟨1, 1, 0, 1⟩).stored = [] := by
  have hsized := Sized.open_ scripted anyTopic (false :: answers) ⟨[], none, 600, 0⟩ ⟨1, 1, 0, 1⟩ List.nodup_nil nofun rfl
  exact List.eq_nil_of_length_eq_zero hsized.msgBuffer.symm

theorem keepsStored_logA (s : BufferStore (List Bool)) (env : Env) (hroom : s.stored.length + 1 < 2 ^ 64)
    : KeepsStored scripted anyTopic s (.addMessage env logA) :=
  ⟨fun _ => nonEmpty_logA, hroom⟩

/--
The message goes to a file and is loaded. Then it is handed over, or another one goes to a file.
-/
theorem counted_of_meets_buffered
    : Run.Along (call scripted anyTopic) (fun s => s.stat.msgBuffer.toNat = s.stored.length)
          (open_ scripted anyTopic [false, true, true] ⟨[], none, 600, 0⟩ ⟨0, 0, 0⟩ ⟨1, 1, 0, 1⟩) handOver ∧
        Run.Along (call scripted anyTopic) Counted
          (open_ scripted anyTopic [false, true] ⟨[], none, 600, 0⟩ ⟨0, 0, 0⟩ ⟨1, 1, 0, 1⟩)
          [.addMessage ⟨1, 1, 0, 1⟩ logA, .cron ⟨2, 2, 0, 2⟩, .addMessage ⟨3, 3, 0, 3⟩ logA] := by
  constructor
  . apply (counted_of_meets scripted anyTopic [false, true, true] ⟨[], none, 600, 0⟩ ⟨1, 1, 0, 1⟩ List.nodup_nil nofun
      rfl _).1
    refine ⟨keepsStored_logA _ _ (by rw [stored_down]; decide), fun s1 h1 => ⟨?_, fun s2 h2 => ⟨?_, fun _ _ => trivial⟩⟩⟩
    . intro _ _ hzero
      cases h1
      cases hzero
    . intro _ hfile
      obtain ⟨-, -, -, -, -, -, -, -, -, hsecondary⟩ := loaded h1 h2
      rw [hsecondary] at hfile
      cases hfile
  . apply (counted_of_meets scripted anyTopic [false, true] ⟨[], none, 600, 0⟩ ⟨1, 1, 0, 1⟩ List.nodup_nil nofun
      rfl _).2
    refine ⟨⟨keepsStored_logA _ _ (by rw [stored_down]; decide), by unfold KeepsSize; rw [stored_down]; decide⟩,
      fun s1 h1 => ⟨⟨?_, ?_⟩, fun s2 h2 => ?_⟩⟩
    . intro _ _ hzero
      cases h1
      cases hzero
    . intro _ hstate
      cases h1
      cases hstate
    . obtain ⟨-, -, -, -, -, -, -, hqueue, -, hsecondary⟩ := loaded h1 h2
      have hstored : s2.stored = [logA] := by
        unfold stored
        rw [hqueue, hsecondary]
        rfl
      refine ⟨⟨keepsStored_logA _ _ (by rw [hstored]; decide), ?_⟩, fun _ _ => trivial⟩
      change contentSize s2.stored + logA.content.len < 2 ^ 64
      rw [hstored]
      decide

-- the second run starts with a message that an earlier process has left
theorem counted_fails_handOver_and_leftover
    : ¬Run.Along (call scripted anyTopic) Counted
          (open_ scripted anyTopic [false, true, true] ⟨[], none, 600, 0⟩ ⟨0, 0, 0⟩ ⟨1, 1, 0, 1⟩) handOver ∧
        ¬Run.Along (call scripted anyTopic) Counted
          (open_ scripted anyTopic [true] ⟨[⟨[1], 1, File.addMessage [] logA⟩], none, 600, 0⟩ ⟨0, 0, 0⟩ ⟨2, 2, 0, 2⟩) [] := by
  have hget := getMessages_one nonEmpty_logA
  constructor
  . rintro ⟨-, s1, h1, -, s2, h2, -, s3, h3, hend⟩
    obtain ⟨hok, -⟩ := Accounted.open_ scripted anyTopic [false, true, true] ⟨[], none, 600, 0⟩ ⟨0, 0, 0⟩ ⟨1, 1, 0, 1⟩
      rfl rfl
    obtain ⟨t1, ht1, -, hok1⟩ := hok.addMessage scripted anyTopic ⟨1, 1, 0, 1⟩ fun _ => nonEmpty_logA
    obtain rfl := Option.some.inj (h1.symm.trans ht1)
    obtain ⟨hok2, -⟩ := hok1.cron h2
    obtain ⟨hok3, -⟩ := hok2.cron h3
    obtain ⟨hstate, -, haccepted, htoPrimary, hsize, hopen', hstate', hqueue, hprimary', -⟩ := loaded h1 h2
    have htick : Ticked s1 [] [] s2 := by
      rcases cron_ticked h2 with ⟨-, htick⟩ | ⟨-, hcontra, -⟩
      . exact htick
      . cases hstate.symm.trans hcontra
    have htick' : Ticked s2 [logA] [] s3 := by
      rcases cron_ticked h3 with ⟨hcontra, -⟩ | ⟨-, -, queue, hqueue', htick'⟩
      . exact absurd hstate' (hcontra hopen')
      . cases hqueue.symm.trans hqueue'
        rw [hprimary'] at htick'
        exact htick'
    have hlen := hok3.length_eq
    rw [htick'.accepted, htick.accepted, haccepted, htick'.toPrimary] at hlen
    have hstored : s3.stored = [] := by
      apply List.eq_nil_of_length_eq_zero
      simp only [List.length_append, List.length_singleton] at hlen
      omega
    have hfalse := hend.msgBufferSize
    rw [hstored, htick'.msgBufferSize, htick.msgBufferSize, hsize] at hfalse
    exact absurd hfalse (by decide)
  . intro hcontra
    have hlen := hcontra.here.msgBuffer
    simp [open_, scripted, stored, FileStore.haveOldMessage, FileStore.findOldestFile, FileStore.messages,
      FileStore.dirMessages, FileStore.entryMessages, hget, MsgQueue.msgs] at hlen

end BufferStore
end Kids
