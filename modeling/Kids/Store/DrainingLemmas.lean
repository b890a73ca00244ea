import Kids.Store.Draining
import Kids.Store.FileLemmas

/-!
When the transfer comes to its end: exactly when every entry that `stat` finds can be removed and read.
-/

namespace Kids
namespace BufferDir

section

variable {d : BufferDir} {entries : List DirEntry} {entry : DirEntry} {env : Env} {name : Bytes}

theorem older_some (ctime : Int) {oldest : DirEntry} (entry : DirEntry) (h : oldest.ctime ≠ none)
    : ∃ c e, older (ctime, some oldest) entry = (c, some e) ∧ e.ctime ≠ none ∧ (e = oldest ∨ e = entry) := by
  unfold older
  split
  . exact ⟨_, _, rfl, h, .inl rfl⟩
  . next hctime =>
    split
    . exact ⟨_, _, rfl, by rw [hctime]; nofun, .inr rfl⟩
    . exact ⟨_, _, rfl, h, .inl rfl⟩

theorem foldl_older_some (entries : List DirEntry) (ctime : Int) {oldest : DirEntry} (h : oldest.ctime ≠ none)
    : ∃ e, (entries.foldl older (ctime, some oldest)).2 = some e ∧ e.ctime ≠ none ∧ (e = oldest ∨ e ∈ entries) := by
  induction entries generalizing ctime oldest with
  | nil => exact ⟨oldest, rfl, h, .inl rfl⟩
  | cons entry entries ih =>
    obtain ⟨c, e, hold, hctime, hmem⟩ := older_some ctime entry h
    rw [List.foldl_cons, hold]
    obtain ⟨e', he', hctime', hmem'⟩ := ih c hctime
    refine ⟨e', he', hctime', ?_⟩
    rcases hmem' with rfl | hmem'
    . rcases hmem with hmem | rfl
      . exact .inl hmem
      . exact .inr List.mem_cons_self
    . exact .inr (List.mem_cons_of_mem _ hmem')

theorem findOldestFile_cases (entries : List DirEntry)
    : (findOldestFile entries = none ∧ ∀ e ∈ entries, e.ctime = none) ∨
      ∃ e, findOldestFile entries = some e ∧ e ∈ entries ∧ e.ctime ≠ none := by
  unfold findOldestFile
  induction entries with
  | nil => exact .inl ⟨rfl, nofun⟩
  | cons entry entries ih =>
    rw [List.foldl_cons]
    cases hctime : entry.ctime with
    | none =>
      have hold : older (-1, none) entry = (-1, none) := by
        unfold older
        rw [hctime]
      rw [hold]
      obtain ⟨hnone, hall⟩ | ⟨e, he, hmem, hstat⟩ := ih
      . exact .inl ⟨hnone, List.forall_mem_cons.mpr ⟨hctime, hall⟩⟩
      . exact .inr ⟨e, he, List.mem_cons_of_mem _ hmem, hstat⟩
    | some c =>
      have hold : older (-1, none) entry = (c, some entry) := by
        unfold older
        rw [hctime]
        exact if_pos (.inr rfl)
      rw [hold]
      obtain ⟨e, he, hstat, hmem⟩ := foldl_older_some entries c (show entry.ctime ≠ none by rw [hctime]; nofun)
      refine .inr ⟨e, he, ?_, hstat⟩
      rcases hmem with rfl | hmem
      . exact List.mem_cons_self
      . exact List.mem_cons_of_mem _ hmem

theorem haveOldMessage_iff : d.haveOldMessage = true ↔ ∃ e ∈ d.entries, e.ctime ≠ none := by
  unfold haveOldMessage
  obtain ⟨hnone, hall⟩ | ⟨e, he, hmem, hstat⟩ := findOldestFile_cases d.entries
  . rw [hnone]
    refine iff_of_false Bool.false_ne_true ?_
    rintro ⟨e, hmem, hstat⟩
    exact hstat (hall e hmem)
  . rw [he]
    exact iff_of_true rfl ⟨e, hmem, hstat⟩

-- every entry that `stat` finds can be read and removed
def Drainable (d : BufferDir) : Prop :=
  ∀ e ∈ d.entries, e.ctime ≠ none → e.Drainable

def Undrainable (d : BufferDir) : Prop :=
  ∃ e ∈ d.entries, e.ctime ≠ none ∧ ¬e.Drainable

theorem not_drainable_iff : ¬d.Drainable ↔ d.Undrainable := by
  unfold Drainable Undrainable
  simp only [not_forall, exists_prop]

theorem drainable_empty (name : Bytes) (ctime : Option Int) : DirEntry.Drainable ⟨name, ctime, .stream [], true⟩ := by
  refine ⟨rfl, nofun, ?_⟩
  rintro data ⟨⟩
  rw [File.getMessages_nil]
  nofun

-- an entry that the close keeps differs in its change time
theorem closeEntry_cases (env : Env) (name : Bytes) (entry : DirEntry)
    : (closeEntry env name entry = none ∧ entry.Drainable) ∨
      ∃ e, closeEntry env name entry = some e ∧ (e.ctime ≠ none ↔ entry.ctime ≠ none) ∧
        (e.Drainable ↔ entry.Drainable) := by
  unfold closeEntry
  split
  . split
    . next hempty =>
      obtain ⟨name, ctime, opened, unlinks⟩ := entry
      obtain ⟨rfl, rfl⟩ := hempty
      exact .inl ⟨rfl, drainable_empty name ctime⟩
    . exact .inr ⟨_, rfl, by simp, Iff.rfl⟩
  . exact .inr ⟨entry, rfl, Iff.rfl, Iff.rfl⟩

theorem drainable_close (h : d.Drainable) (env : Env) : (d.close env).Drainable := by
  unfold close
  split
  . exact h
  . next name _ =>
    intro e he hstat
    obtain ⟨entry, hentry, hclose⟩ := List.mem_filterMap.mp he
    obtain ⟨hnone, -⟩ | ⟨e', he', hstat', hiff⟩ := closeEntry_cases env name entry
    . rw [hnone] at hclose
      cases hclose
    . rw [he'] at hclose
      cases hclose
      exact hiff.mpr (h entry hentry (hstat'.mp hstat))

theorem undrainable_close (h : d.Undrainable) (env : Env) : (d.close env).Undrainable := by
  unfold close
  split
  . exact h
  . next name _ =>
    obtain ⟨entry, hentry, hstat, hnot⟩ := h
    obtain ⟨-, hdrainable⟩ | ⟨e, he, hstat', hiff⟩ := closeEntry_cases env name entry
    . exact absurd hdrainable hnot
    . exact ⟨e, List.mem_filterMap.mpr ⟨entry, hentry, he⟩, hstat'.mpr hstat, mt hiff.mp hnot⟩

theorem isOpen_close (d : BufferDir) (env : Env) : (d.close env).isOpen = false := by
  unfold close isOpen
  split
  . next h => rw [h]; rfl
  . rfl

theorem length_close (d : BufferDir) (env : Env) : (d.close env).entries.length ≤ d.entries.length := by
  unfold close
  split
  . exact Nat.le_refl _
  . exact List.length_filterMap_le _ _

theorem length_close_lt (hold : d.haveOldMessage = true) (hnone : (d.close env).haveOldMessage = false)
    : (d.close env).entries.length < d.entries.length := by
  obtain ⟨entry, hentry, hstat⟩ := haveOldMessage_iff.mp hold
  have hgone : ∀ e ∈ (d.close env).entries, ¬e.ctime ≠ none := by
    intro e he hstat
    rw [haveOldMessage_iff.mpr ⟨e, he, hstat⟩] at hnone
    cases hnone
  unfold close at hgone ⊢
  split at hgone
  . exact absurd hstat (hgone entry hentry)
  . next name hname =>
    dsimp only at hgone ⊢
    rw [List.length_filterMap_lt_length_iff_exists]
    obtain ⟨hclose, -⟩ | ⟨e, he, hiff, -⟩ := closeEntry_cases env name entry
    . exact ⟨entry, hentry, hclose⟩
    . exact absurd (hiff.mpr hstat) (hgone e (List.mem_filterMap.mpr ⟨entry, hentry, he⟩))

theorem close_of_closed (h : d.isOpen = false) (env : Env) : d.close env = d := by
  unfold isOpen at h
  unfold close
  split
  . rfl
  . next hname =>
    rw [hname] at h
    cases h

theorem cron_of_closed (makeName : Nat → Bytes) (h : d.isOpen = false) (tick : TickEnv)
    : d.cron makeName tick = some d := by
  have hnot : ¬d.isOpen = true := by
    rw [h]
    exact Bool.false_ne_true
  unfold cron
  rw [if_neg fun hand => hnot hand.1, if_neg fun hand => hnot hand.1]

theorem rotateInterval_close (d : BufferDir) (env : Env) : (d.close env).rotateInterval = d.rotateInterval := by
  unfold close
  split <;> rfl

theorem cron_isSome (makeName : Nat → Bytes) (h : d.isOpen = true → d.rotateInterval ≠ 0) (tick : TickEnv)
    : ∃ d', d.cron makeName tick = some d' := by
  unfold cron
  rw [if_neg fun hzero => h hzero.1 hzero.2]
  split
  . exact ⟨_, rfl⟩
  . exact ⟨_, rfl⟩

theorem cron_of_zero (makeName : Nat → Bytes) (hopen : d.isOpen = true) (hzero : d.rotateInterval = 0) (tick : TickEnv)
    : d.cron makeName tick = none :=
  if_pos ⟨hopen, hzero⟩

theorem cron_cases (h : d.cron makeName tick = some d')
    : (d.isOpen = true → d.rotateInterval ≠ 0) ∧ (d' = d.open_ makeName tick ∨ d' = d) := by
  unfold cron at h
  split at h
  . cases h
  . next hzero =>
    refine ⟨fun hopen hinterval => hzero ⟨hopen, hinterval⟩, ?_⟩
    split at h
    . cases h
      exact .inl rfl
    . cases h
      exact .inr rfl

theorem rotateInterval_cron (h : d.cron makeName tick = some d') : d'.rotateInterval = d.rotateInterval := by
  obtain ⟨-, rfl | rfl⟩ := cron_cases h
  . unfold open_
    dsimp only
    split
    . exact rotateInterval_close d tick.env
    . exact rotateInterval_close d tick.env
  . rfl

theorem mem_openFile_cases (he : entry ∈ openFile entries env name)
    : entry ∈ entries ∨ entry = ⟨name, some env.ctime, .stream [], true⟩ := by
  unfold openFile at he
  split at he
  . exact .inl he
  . rw [List.mem_append, List.mem_cons] at he
    rcases he with he | rfl | he
    . exact .inl (List.mem_of_mem_take he)
    . exact .inr rfl
    . exact .inl (List.mem_of_mem_drop he)

theorem mem_openFile (he : entry ∈ entries) : entry ∈ openFile entries env name := by
  unfold openFile
  split
  . exact he
  . rw [← List.take_append_drop env.slot entries, List.mem_append] at he
    rcases he with he | he
    . exact List.mem_append_left _ he
    . exact List.mem_append_right _ (List.mem_cons_of_mem _ he)

-- the file that a rotation begins is empty
theorem drainable_cron (h : d.Drainable) (hcron : d.cron makeName tick = some d') : d'.Drainable := by
  have hclose := drainable_close h tick.env
  obtain ⟨-, rfl | rfl⟩ := cron_cases hcron
  . unfold open_
    dsimp only
    split
    . intro e he hstat
      rcases mem_openFile_cases he with he | rfl
      . exact hclose e he hstat
      . exact drainable_empty _ _
    . exact hclose
  . exact h

theorem undrainable_cron (h : d.Undrainable) (hcron : d.cron makeName tick = some d') : d'.Undrainable := by
  have hclose := undrainable_close h tick.env
  obtain ⟨-, rfl | rfl⟩ := cron_cases hcron
  . unfold open_
    dsimp only
    split
    . obtain ⟨e, he, hstat, hnot⟩ := hclose
      exact ⟨e, mem_openFile he, hstat, hnot⟩
    . exact hclose
  . exact h

-- the oldest entry is read and removed
theorem readOldest_drainable (h : d.Drainable) (hold : d.haveOldMessage = true)
    : ∃ msgs, d.getOldestMessages = some msgs ∧ d.deleteOldestMessages.Drainable ∧
        d.deleteOldestMessages.entries.length < d.entries.length ∧
        d.deleteOldestMessages.secondaryFile = d.secondaryFile := by
  obtain ⟨hnone, -⟩ | ⟨e, he, hmem, hstat⟩ := findOldestFile_cases d.entries
  . unfold haveOldMessage at hold
    rw [hnone] at hold
    cases hold
  . obtain ⟨hunlinks, hwaits, hdata⟩ := h e hmem hstat
    have hget : ∃ msgs, d.getOldestMessages = some msgs := by
      unfold getOldestMessages
      rw [he]
      dsimp only
      cases hopened : e.opened with
      | waits => exact absurd hopened hwaits
      | failed => exact ⟨[], rfl⟩
      | stream data => exact Option.ne_none_iff_exists'.mp (hdata data hopened)
    obtain ⟨msgs, hmsgs⟩ := hget
    have hdelete : d.deleteOldestMessages = { d with entries := d.entries.erase e } := by
      unfold deleteOldestMessages
      rw [he]
      exact if_pos hunlinks
    refine ⟨msgs, hmsgs, ?_, ?_, ?_⟩
    . rw [hdelete]
      exact fun e' he' => h e' (List.mem_of_mem_erase he')
    . have hpos := List.length_pos_of_mem hmem
      rw [hdelete]
      dsimp only
      rw [List.length_erase_of_mem hmem]
      omega
    . rw [hdelete]

theorem undrainable_deleteOldestMessages (h : d.Undrainable) {msgs : List Message}
    (hget : d.getOldestMessages = some msgs) : d.deleteOldestMessages.Undrainable := by
  obtain ⟨e, hmem, hstat, hnot⟩ := h
  unfold deleteOldestMessages
  split
  . exact ⟨e, hmem, hstat, hnot⟩
  . next oldest hold =>
    split
    . next hunlinks =>
      -- what is removed was read
      have hne : e ≠ oldest := by
        rintro rfl
        unfold getOldestMessages at hget
        rw [hold] at hget
        dsimp only at hget
        refine hnot ⟨hunlinks, ?_, ?_⟩
        . intro hwaits
          rw [hwaits] at hget
          cases hget
        . intro data hdata
          rw [hdata] at hget
          dsimp only at hget
          rw [hget]
          nofun
      exact ⟨e, (List.mem_erase_of_ne hne).mpr hmem, hstat, hnot⟩
    . exact ⟨e, hmem, hstat, hnot⟩

theorem Undrainable.haveOldMessage (h : d.Undrainable) : d.haveOldMessage = true := by
  obtain ⟨e, hmem, hstat, -⟩ := h
  exact haveOldMessage_iff.mpr ⟨e, hmem, hstat⟩

end

end BufferDir

namespace Draining

variable {σ : Type} {ops : StoreOps σ} {makeName : Nat → Bytes} {s t : Draining σ} {tick : TickEnv}

theorem length_transfer_le (ops : StoreOps σ) (budget : Nat) (queue : List Message) (primary : σ)
    : (BufferStore.transfer ops budget queue primary).queue.length ≤ queue.length := by
  induction budget generalizing queue primary with
  | zero => exact Nat.le_refl _
  | succ budget ih =>
    unfold BufferStore.transfer
    cases queue with
    | nil => exact Nat.le_refl _
    | cons m queue =>
      dsimp only
      split
      . exact Nat.le_succ_of_le (ih _ _)
      . exact Nat.le_succ _

-- whether the primary store takes it or not, the first message goes
theorem length_transfer_lt (ops : StoreOps σ) {budget : Nat} {queue : List Message} (hbudget : 0 < budget)
    (hqueue : queue ≠ []) (primary : σ)
    : (BufferStore.transfer ops budget queue primary).queue.length < queue.length := by
  obtain ⟨budget, rfl⟩ := Nat.exists_eq_succ_of_ne_zero (Nat.ne_of_gt hbudget)
  unfold BufferStore.transfer
  cases queue with
  | nil => exact absurd rfl hqueue
  | cons m queue =>
    dsimp only
    split
    . exact Nat.lt_succ_of_le (length_transfer_le ops _ _ _)
    . exact Nat.lt_succ_self _

theorem transfer_queue_eq_nil_iff (ops : StoreOps σ) (budget : Nat) (queue : List Message) (primary : σ)
    : (BufferStore.transfer ops budget queue primary).queue = [] ↔
        queue.length ≤ budget ∧ Takes ops queue.dropLast primary := by
  induction budget generalizing queue primary with
  | zero =>
    unfold BufferStore.transfer
    cases queue with
    | nil => simp [Takes]
    | cons m queue => simp
  | succ budget ih =>
    cases queue with
    | nil => simp [BufferStore.transfer, Takes]
    | cons m queue =>
      unfold BufferStore.transfer
      cases queue with
      | nil =>
        split
        . rw [ih]
          simp [Takes]
        . simp [Takes]
      | cons m' queue =>
        rw [List.dropLast_cons_cons]
        split
        . next primary' hp =>
          dsimp only
          rw [ih]
          simp [Takes, hp]
        . next primary' hp => simp [Takes, hp]

theorem cronReadFile_reads (hqueue : s.queue = []) (hold : s.secondary.haveOldMessage = true)
    (hdrainable : s.secondary.Drainable) (env : Env)
    : ∃ t, s.cronReadFile env = some t ∧ t.state = s.state ∧ t.secondary.Drainable ∧
        t.secondary.entries.length < s.secondary.entries.length ∧ t.secondary.isOpen = false := by
  have hclosed := s.secondary.isOpen_close env
  have hkeeps := BufferDir.drainable_close hdrainable env
  have hshort := s.secondary.length_close env
  unfold cronReadFile
  rw [if_pos ⟨hqueue, hold⟩]
  dsimp only
  cases hstill : (s.secondary.close env).haveOldMessage with
  | true =>
    obtain ⟨msgs, hget, hdrainable', hless, hfile⟩ := BufferDir.readOldest_drainable hkeeps hstill
    rw [hget]
    refine ⟨_, rfl, rfl, hdrainable', Nat.lt_of_lt_of_le hless hshort, ?_⟩
    unfold BufferDir.isOpen at hclosed ⊢
    rw [hfile, hclosed]
  | false =>
    -- the close has removed the one file that there was
    have hnone : BufferDir.findOldestFile (s.secondary.close env).entries = none := by
      unfold BufferDir.haveOldMessage at hstill
      exact Option.not_isSome_iff_eq_none.mp (by rw [hstill]; exact Bool.false_ne_true)
    have hget : (s.secondary.close env).getOldestMessages = some [] := by
      unfold BufferDir.getOldestMessages
      rw [hnone]
    have hdelete : (s.secondary.close env).deleteOldestMessages = s.secondary.close env := by
      unfold BufferDir.deleteOldestMessages
      rw [hnone]
    rw [hget]
    refine ⟨_, rfl, rfl, ?_, ?_, ?_⟩
    . rwa [hdelete]
    . dsimp only
      rw [hdelete]
      exact BufferDir.length_close_lt hold hstill
    . dsimp only
      rwa [hdelete]

theorem cronTransfering_cases (ops : StoreOps σ) (h : s.state = .transfering) (hdrainable : s.secondary.Drainable)
    (env : Env)
    : ∃ t, s.cronTransfering ops env = some t ∧ t.secondary.Drainable ∧
        (t.state = .toPrimary ∧ t.secondary.isOpen = false ∨ t.state = .transfering ∧
          (t.secondary.entries.length < s.secondary.entries.length ∧ t.secondary.isOpen = false ∨
            t.secondary = s.secondary ∧ (s.cronTransfer ops).queue ≠ [] ∧
              t.queue.length < s.queue.length)) := by
  have hfinish : ∀ t : Draining σ, t.secondary.Drainable → t.state = .transfering →
      (t.cronFinish env).secondary.Drainable ∧
        ((t.cronFinish env).state = .toPrimary ∧ (t.cronFinish env).secondary.isOpen = false ∨
          t.cronFinish env = t ∧ (t.queue ≠ [] ∨ t.secondary.haveOldMessage = true)) := by
    intro t ht hstate
    unfold cronFinish
    split
    . exact ⟨BufferDir.drainable_close ht env, .inl ⟨rfl, t.secondary.isOpen_close env⟩⟩
    . next hmore =>
      rw [not_and_or, not_not] at hmore
      exact ⟨ht, .inr ⟨rfl, hmore⟩⟩
  unfold cronTransfering
  rw [h]
  dsimp only
  by_cases hread : (s.cronTransfer ops).queue = [] ∧ s.secondary.haveOldMessage = true
  . obtain ⟨t, ht, hstate, hdrainable', hless, hclosed⟩ :=
      cronReadFile_reads (s := s.cronTransfer ops) hread.1 hread.2 hdrainable env
    obtain ⟨hkeeps, hcases⟩ := hfinish t hdrainable' (hstate.trans h)
    rw [ht]
    refine ⟨_, rfl, hkeeps, hcases.imp_right ?_⟩
    rintro ⟨heq, -⟩
    dsimp only
    rw [heq]
    exact ⟨hstate.trans h, .inl ⟨hless, hclosed⟩⟩
  . have hskip : (s.cronTransfer ops).cronReadFile env = some (s.cronTransfer ops) := if_neg hread
    obtain ⟨hkeeps, hcases⟩ := hfinish (s.cronTransfer ops) hdrainable h
    rw [hskip]
    refine ⟨_, rfl, hkeeps, hcases.imp_right ?_⟩
    rintro ⟨heq, hmore⟩
    dsimp only
    rw [heq]
    have hleft : (s.cronTransfer ops).queue ≠ [] := by
      rcases hmore with hmore | hmore
      . exact hmore
      . exact fun hnil => hread ⟨hnil, hmore⟩
    refine ⟨h, .inr ⟨rfl, hleft, length_transfer_lt ops (by decide) ?_ s.primary⟩⟩
    -- what is left in the queue was there before
    intro hempty
    apply hleft
    unfold cronTransfer
    rw [hempty]
    rfl

theorem cron_eq_some {u : Draining σ} (h : s.cronTransfering ops tick.env = some u)
    (hcron : u.secondary.cron makeName tick = some d)
    : s.cron ops makeName tick = some { u with primary := ops.cron u.primary, secondary := d } := by
  unfold cron
  rw [h, Option.bind_some, hcron]
  rfl

theorem exists_of_cron (h : s.cron ops makeName tick = some t)
    : ∃ u d, s.cronTransfering ops tick.env = some u ∧ u.secondary.cron makeName tick = some d ∧
        t = { u with primary := ops.cron u.primary, secondary := d } := by
  unfold cron at h
  obtain ⟨u, hu, hcron⟩ := Option.bind_eq_some_iff.mp h
  obtain ⟨d, hd, rfl⟩ := Option.map_eq_some_iff.mp hcron
  exact ⟨u, d, hu, hd, rfl⟩

theorem cronFinish_secondary (h : s.secondary.isOpen = false) (env : Env)
    : (s.cronFinish env).secondary = s.secondary := by
  unfold cronFinish
  split
  . exact BufferDir.close_of_closed h env
  . rfl

theorem rotateInterval_cronTransfering {u : Draining σ} (h : s.cronTransfering ops env = some u)
    : u.secondary.rotateInterval = s.secondary.rotateInterval := by
  have hfinish : ∀ t : Draining σ, (t.cronFinish env).secondary.rotateInterval = t.secondary.rotateInterval := by
    intro t
    unfold cronFinish
    split
    . exact BufferDir.rotateInterval_close t.secondary env
    . rfl
  have hread : ∀ t v : Draining σ, t.cronReadFile env = some v →
      v.secondary.rotateInterval = t.secondary.rotateInterval := by
    intro t v hv
    unfold cronReadFile at hv
    split at hv
    . dsimp only at hv
      split at hv
      . cases hv
      . cases hv
        unfold BufferDir.deleteOldestMessages
        split
        . exact BufferDir.rotateInterval_close t.secondary env
        . split
          . exact BufferDir.rotateInterval_close t.secondary env
          . exact BufferDir.rotateInterval_close t.secondary env
    . cases hv
      rfl
  unfold cronTransfering at h
  split at h
  . obtain ⟨v, hv, rfl⟩ := Option.map_eq_some_iff.mp h
    exact (hfinish v).trans (hread (s.cronTransfer ops) v hv)
  . cases h
    rfl

theorem cronTransfering_keeps (h : s.state = .transfering) (hleft : (s.cronTransfer ops).queue ≠ []) (env : Env)
    : s.cronTransfering ops env = some (s.cronTransfer ops) := by
  have hskip : (s.cronTransfer ops).cronReadFile env = some (s.cronTransfer ops) := if_neg fun hand => hleft hand.1
  have hfinish : (s.cronTransfer ops).cronFinish env = s.cronTransfer ops := if_neg fun hand => hleft hand.1
  unfold cronTransfering
  rw [h]
  dsimp only
  rw [hskip, Option.map_some, hfinish]

theorem cron_reads (h : s.state = .transfering) (hqueue : s.queue = []) (hold : s.secondary.haveOldMessage = true)
    (hdrainable : s.secondary.Drainable) (tick : TickEnv)
    : ∃ t, s.cron ops makeName tick = some t ∧
        t.secondary.entries.length < s.secondary.entries.length := by
  have hnil : (s.cronTransfer ops).queue = [] := by
    unfold cronTransfer
    rw [hqueue]
    rfl
  obtain ⟨t, ht, -, -, hless, hclosed⟩ :=
    cronReadFile_reads (s := s.cronTransfer ops) hnil hold hdrainable tick.env
  have hsecondary := cronFinish_secondary hclosed tick.env
  have hu : s.cronTransfering ops tick.env = some (t.cronFinish tick.env) := by
    unfold cronTransfering
    rw [h]
    dsimp only
    rw [ht]
    rfl
  have hcron : (t.cronFinish tick.env).secondary.cron makeName tick = some t.secondary := by
    rw [hsecondary]
    exact BufferDir.cron_of_closed makeName hclosed tick
  exact ⟨_, cron_eq_some hu hcron, hless⟩

theorem cron_keeps (hdrainable : s.secondary.Drainable) (hcron : s.cron ops makeName tick = some t)
    : t.secondary.Drainable := by
  obtain ⟨u, d, hu, hd, rfl⟩ := exists_of_cron hcron
  cases hstate : s.state with
  | transfering =>
    obtain ⟨u', hu', hkeeps, -⟩ := cronTransfering_cases ops hstate hdrainable tick.env
    obtain rfl := Option.some.inj (hu.symm.trans hu')
    exact BufferDir.drainable_cron hkeeps hd
  | _ =>
    unfold cronTransfering at hu
    rw [hstate] at hu
    cases hu
    exact BufferDir.drainable_cron hdrainable hd

-- a tick that comes to its end has not divided by 0, and no later one will
theorem cron_closes (hcron : s.cron ops makeName tick = some t) : t.ClosesInTime ops := by
  obtain ⟨u, d, -, hd, rfl⟩ := exists_of_cron hcron
  intro hopen hzero
  rw [BufferDir.rotateInterval_cron hd] at hzero
  cases hfile : u.secondary.isOpen with
  | true => exact absurd hzero ((BufferDir.cron_cases hd).1 hfile)
  | false =>
    obtain rfl := Option.some.inj (hd.symm.trans (BufferDir.cron_of_closed makeName hfile tick))
    rw [hfile] at hopen
    cases hopen

/--
What is left to do. While a file is open for new messages, a tick may begin one more, but the queue is sent in the
meantime. When the first file is read, the open one is closed, and from there on no file is added.
-/
def remaining (s : Draining σ) : Nat × Nat × Nat :=
  (s.secondary.isOpen.toNat, if s.secondary.isOpen then 0 else s.secondary.entries.length, s.queue.length)

abbrev Less : Nat × Nat × Nat → Nat × Nat × Nat → Prop :=
  Prod.Lex (· < ·) (Prod.Lex (· < ·) (· < ·))

theorem less_wf : WellFounded Less :=
  (Prod.lex Nat.lt_wfRel (Prod.lex Nat.lt_wfRel Nat.lt_wfRel)).wf

theorem cron_decreases (ops : StoreOps σ) (makeName : Nat → Bytes) (h : s.state = .transfering)
    (hdrainable : s.secondary.Drainable) (hcloses : s.ClosesInTime ops) (tick : TickEnv)
    : ∃ t, s.cron ops makeName tick = some t ∧ (t.state = .toPrimary ∨
        (t.state = .transfering ∧ t.secondary.Drainable ∧ t.ClosesInTime ops) ∧ Less t.remaining s.remaining) := by
  obtain ⟨u, hu, hkeeps, hcases⟩ := cronTransfering_cases ops h hdrainable tick.env
  have hdefined : u.secondary.isOpen = true → u.secondary.rotateInterval ≠ 0 := by
    intro hopen hzero
    rw [rotateInterval_cronTransfering hu] at hzero
    rcases hcases with ⟨-, hclosed⟩ | ⟨-, ⟨-, hclosed⟩ | ⟨hsame, hleft, -⟩⟩
    . rw [hclosed] at hopen
      cases hopen
    . rw [hclosed] at hopen
      cases hopen
    . rw [hsame] at hopen
      exact hleft ((transfer_queue_eq_nil_iff ops maxMsgPerCron s.queue s.primary).mpr (hcloses hopen hzero))
  obtain ⟨d, hd⟩ := BufferDir.cron_isSome makeName hdefined tick
  have ht := cron_eq_some hu hd
  refine ⟨_, ht, hcases.imp And.left ?_⟩
  rintro ⟨hstate, hcases⟩
  refine ⟨⟨hstate, BufferDir.drainable_cron hkeeps hd, cron_closes ht⟩, ?_⟩
  unfold remaining
  dsimp only
  rcases hcases with ⟨hless, hclosed⟩ | ⟨hsame, -, hless⟩
  . obtain rfl := Option.some.inj (hd.symm.trans (BufferDir.cron_of_closed makeName hclosed tick))
    rw [hclosed]
    cases hopen : s.secondary.isOpen with
    | true => exact .left _ _ Nat.zero_lt_one
    | false => exact .right _ (.left _ _ hless)
  . rw [hsame] at hd
    cases hopen : s.secondary.isOpen with
    | true =>
      cases d.isOpen with
      | true => exact .right _ (.right _ hless)
      | false => exact .left _ _ Nat.zero_lt_one
    | false =>
      obtain rfl := Option.some.inj (hd.symm.trans (BufferDir.cron_of_closed makeName hopen tick))
      rw [hopen]
      exact .right _ (.right _ hless)

-- an entry that cannot be removed or read is there after every tick
theorem cronTransfering_stuck {u : Draining σ} (hstate : s.state = .transfering) (hstuck : s.secondary.Undrainable)
    (hu : s.cronTransfering ops env = some u) : u.state = .transfering ∧ u.secondary.Undrainable := by
  have hfinish : ∀ t : Draining σ, t.secondary.Undrainable → t.cronFinish env = t :=
    fun t ht => if_neg fun hand => hand.2 ht.haveOldMessage
  unfold cronTransfering at hu
  rw [hstate] at hu
  dsimp only at hu
  by_cases hread : (s.cronTransfer ops).queue = [] ∧ s.secondary.haveOldMessage = true
  . have hclose := BufferDir.undrainable_close hstuck env
    have heq : (s.cronTransfer ops).cronReadFile env =
        (s.secondary.close env).getOldestMessages.map fun msgs => { s.cronTransfer ops with
          secondary := (s.secondary.close env).deleteOldestMessages
          queue := (s.cronTransfer ops).queue ++ msgs
        } := by
      have hread' : (s.cronTransfer ops).queue = [] ∧ (s.cronTransfer ops).secondary.haveOldMessage = true := hread
      unfold cronReadFile
      rw [if_pos hread']
      change _ = (s.secondary.close env).getOldestMessages.map _
      dsimp only [cronTransfer]
      cases (s.secondary.close env).getOldestMessages with
      | none => rfl
      | some msgs => rfl
    rw [heq] at hu
    cases hget : (s.secondary.close env).getOldestMessages with
    | none =>
      rw [hget] at hu
      cases hu
    | some msgs =>
      have hdelete := BufferDir.undrainable_deleteOldestMessages hclose hget
      rw [hget, Option.map_some, Option.map_some, hfinish _ hdelete] at hu
      cases hu
      exact ⟨hstate, hdelete⟩
  . have hskip : (s.cronTransfer ops).cronReadFile env = some (s.cronTransfer ops) := if_neg hread
    rw [hskip, Option.map_some, hfinish (s.cronTransfer ops) hstuck] at hu
    cases hu
    exact ⟨hstate, hstuck⟩

theorem cron_stuck (h : s.state = .transfering ∧ s.secondary.Undrainable) (hcron : s.cron ops makeName tick = some t)
    : t.state = .transfering ∧ t.secondary.Undrainable := by
  obtain ⟨u, d, hu, hd, rfl⟩ := exists_of_cron hcron
  obtain ⟨hstate, hstuck⟩ := cronTransfering_stuck h.1 h.2 hu
  exact ⟨hstate, BufferDir.undrainable_cron hstuck hd⟩

-- the first tick divides by 0
theorem cron_of_not_closesInTime (makeName : Nat → Bytes) (h : s.state = .transfering)
    (hcloses : ¬s.ClosesInTime ops) (tick : TickEnv) : s.cron ops makeName tick = none := by
  unfold ClosesInTime at hcloses
  push Not at hcloses
  obtain ⟨hopen, hzero, hmany⟩ := hcloses
  have hleft : (s.cronTransfer ops).queue ≠ [] := by
    intro hnil
    obtain ⟨hlength, htakes⟩ := (transfer_queue_eq_nil_iff ops maxMsgPerCron s.queue s.primary).mp hnil
    exact hmany hlength htakes
  unfold cron
  rw [cronTransfering_keeps h hleft, Option.bind_some]
  change ((s.secondary.cron makeName tick).map _) = none
  rw [BufferDir.cron_of_zero makeName hopen hzero tick]
  rfl

theorem drains_of_drainable (ops : StoreOps σ) (makeName : Nat → Bytes) (h : s.state = .transfering)
    (hdrainable : s.secondary.Drainable) (hcloses : s.ClosesInTime ops) (ticks : Nat → TickEnv)
    : s.Drains ops makeName ticks := by
  constructor
  . intro n t ht hstate hqueue hold tick
    have hkeeps := Run.iterate_invariant ht hdrainable fun _ _ _ => cron_keeps
    obtain ⟨u, hu, hless⟩ := cron_reads hstate hqueue hold hkeeps tick
    exact ⟨u, hu, .inr hless⟩
  . exact Run.eventually_of_decreases less_wf remaining
      (fun s => s.state = .transfering ∧ s.secondary.Drainable ∧ s.ClosesInTime ops)
      (fun s => s.state = .toPrimary) (fun _ tick hs => cron_decreases ops makeName hs.1 hs.2.1 hs.2.2 tick)
      ⟨h, hdrainable, hcloses⟩ ticks

theorem not_drains_of_undrainable (ops : StoreOps σ) (makeName : Nat → Bytes) (h : s.state = .transfering)
    (hstuck : s.secondary.Undrainable) (ticks : Nat → TickEnv) : ¬s.Drains ops makeName ticks := by
  intro hdrains
  obtain ⟨n, t, ht, hfinished⟩ := hdrains.finishes
  have hstays := Run.iterate_invariant ht ⟨h, hstuck⟩ fun _ _ _ => cron_stuck
  rw [hstays.1] at hfinished
  cases hfinished

theorem not_drains_of_not_closesInTime (makeName : Nat → Bytes) (h : s.state = .transfering)
    (hcloses : ¬s.ClosesInTime ops) (ticks : Nat → TickEnv) : ¬s.Drains ops makeName ticks := by
  intro hdrains
  obtain ⟨n, t, ht, hfinished⟩ := hdrains.finishes
  have hstep : ∀ (u : Draining σ) (tick : TickEnv) (v : Draining σ), u.state = .transfering ∧ ¬u.ClosesInTime ops →
      u.cron ops makeName tick = some v → v.state = .transfering ∧ ¬v.ClosesInTime ops := by
    intro u tick v hu hv
    rw [cron_of_not_closesInTime makeName hu.1 hu.2 tick] at hv
    cases hv
  have hstays := Run.iterate_invariant ht ⟨h, hcloses⟩ hstep
  rw [hstays.1] at hfinished
  cases hfinished

/--
The transfer comes to its end exactly if nothing in the directory is in its way, and no tick divides by an interval
of 0.
-/
theorem drains_iff_drainable (ops : StoreOps σ) (makeName : Nat → Bytes) (h : s.state = .transfering)
    (ticks : Nat → TickEnv) : s.Drains ops makeName ticks ↔ s.secondary.Drainable ∧ s.ClosesInTime ops := by
  constructor
  . intro hdrains
    constructor
    . by_contra hnot
      exact not_drains_of_undrainable ops makeName h (BufferDir.not_drainable_iff.mp hnot) ticks hdrains
    . by_contra hnot
      exact not_drains_of_not_closesInTime makeName h hnot ticks hdrains
  . exact fun hand => drains_of_drainable ops makeName h hand.1 hand.2 ticks

-- a primary store that is up
def upOps : StoreOps Unit where
  open_ := fun s => (true, s)
  isOpen := fun s => (true, s)
  addMessage := fun _ s => (true, s)
  close := fun s => s
  cron := fun s => s

-- a tick that finds nothing to send
def transferOf (entries : List DirEntry) : Draining Unit where
  state := .transfering
  primary := ()
  queue := []
  secondary := { entries := entries, secondaryFile := none, rotateInterval := -1, lastRotate := 0 }

-- one file cannot be opened, the next one ends within a length
theorem drains_iff_drainable_files
    : (transferOf [⟨[97], some 1, .failed, true⟩, ⟨[98], some 2, .stream [1, 0], true⟩]).Drains
    upOps (fun _ => [99]) fun _ => ⟨⟨3, 3, 0, 3⟩, true⟩ := by
  refine (drains_iff_drainable upOps _ rfl _).mpr
    ⟨List.forall_mem_cons.mpr ⟨?_, List.forall_mem_singleton.mpr ?_⟩, ?_⟩
  . exact fun _ => ⟨rfl, nofun, nofun⟩
  . refine fun _ => ⟨rfl, nofun, ?_⟩
    rintro data ⟨⟩
    have hfailed : File.readMessage [1, 0] = .error .failed := rfl
    rw [File.getMessages_failed hfailed]
    nofun
  . exact fun hopen => nomatch hopen

-- `unlink` fails for a directory
theorem drains_fails_directory : ¬∀ entries : List DirEntry, (transferOf entries).secondary.haveOldMessage = true →
    ∀ ticks, (transferOf entries).Drains upOps (fun _ => [99]) ticks := by
  intro hall
  have hstuck : (transferOf [⟨[97], some 1, .stream [], false⟩]).secondary.Undrainable := by
    refine ⟨_, List.mem_singleton_self _, Option.some_ne_none 1, ?_⟩
    rintro ⟨hunlinks, -⟩
    cases hunlinks
  exact not_drains_of_undrainable upOps _ rfl hstuck (fun _ => ⟨⟨3, 3, 0, 3⟩, true⟩)
    (hall _ rfl _)

end Draining
end Kids
