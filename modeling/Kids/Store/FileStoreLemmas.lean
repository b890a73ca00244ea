import Kids.Store.FileStore
import Kids.Store.FileLemmas
import Mathlib.Data.List.Nodup
import Mathlib.Data.List.Count

/-!
The messages in the directory of a secondary `FileStore`. Opening, closing and rotating files does not
change them; adding a message and taking out the oldest file change them as they should.
-/

namespace Kids
namespace FileStore

variable {fs : FileStore} {directory : List Entry} {entry : Entry} {env : Env}

def entryMessages (entry : Entry) : List Message :=
  (File.getMessages entry.data).getD []

def dirMessages (directory : List Entry) : List Message :=
  directory.flatMap entryMessages

def messages (fs : FileStore) : List Message :=
  dirMessages fs.directory

def Written (entry : Entry) : Prop :=
  ∃ ms : List Message, (∀ m ∈ ms, File.NonEmpty m) ∧ entry.data = (ms.map File.record).flatten

structure DirOk (directory : List Entry) : Prop where
  nodup : (directory.map Entry.name).Nodup
  written : ∀ entry ∈ directory, Written entry

structure Wf (fs : FileStore) : Prop extends DirOk fs.directory where
  open_mem : ∀ name, fs.secondaryFile = some name → name ∈ fs.directory.map Entry.name

theorem entryMessages_of_data (entry : Entry) (hms : ∀ m ∈ ms, File.NonEmpty m)
    (hdata : entry.data = (ms.map File.record).flatten)
    : File.getMessages entry.data = some ms ∧ entryMessages entry = ms := by
  have hget : File.getMessages entry.data = some ms := by
    have h := File.getMessages_flatten ms hms []
    rw [List.append_nil, File.getMessages_nil] at h
    rw [hdata, h]
    simp
  refine ⟨hget, ?_⟩
  rw [entryMessages, hget]
  rfl

theorem Written.getMessages (h : Written entry) : File.getMessages entry.data = some (entryMessages entry) := by
  obtain ⟨ms, hms, hdata⟩ := h
  obtain ⟨hget, heq⟩ := entryMessages_of_data entry hms hdata
  rw [hget, heq]

theorem Written.empty (hdata : entry.data = []) : Written entry ∧ entryMessages entry = [] := by
  refine ⟨⟨[], by simp, by simpa using hdata⟩, ?_⟩
  rw [entryMessages, hdata, File.getMessages_nil]
  rfl

theorem Written.addMessage (h : Written entry) (hm : File.NonEmpty m) (ctime : Nat)
    : Written { entry with data := File.addMessage entry.data m, ctime := ctime } ∧
        entryMessages { entry with data := File.addMessage entry.data m, ctime := ctime } =
          entryMessages entry ++ [m] := by
  obtain ⟨ms, hms, hdata⟩ := h
  have hms' : ∀ m' ∈ ms ++ [m], File.NonEmpty m' := by
    intro m' hm'
    rcases List.mem_append.mp hm' with hm' | hm'
    . exact hms m' hm'
    . rw [List.mem_singleton.mp hm']
      exact hm
  have hdata' : File.addMessage entry.data m = ((ms ++ [m]).map File.record).flatten := by
    rw [File.addMessage_eq, hdata]
    simp
  refine ⟨⟨ms ++ [m], hms', hdata'⟩, ?_⟩
  rw [(entryMessages_of_data entry hms hdata).2]
  exact (entryMessages_of_data ⟨entry.name, ctime, File.addMessage entry.data m⟩ hms' hdata').2

theorem mem_unlink : e ∈ unlink directory name ↔ e ∈ directory ∧ e.name ≠ name := by
  simp [unlink]

-- a name belongs to one file, so taking it away takes one file away
theorem perm_unlink (hnodup : (directory.map Entry.name).Nodup) (hmem : entry ∈ directory)
    : directory.Perm (entry :: unlink directory entry.name) := by
  induction directory with
  | nil => cases hmem
  | cons e directory ih =>
    rw [List.map_cons, List.nodup_cons] at hnodup
    rcases List.mem_cons.mp hmem with rfl | hmem
    . have hrest : unlink directory entry.name = directory := by
        rw [unlink, List.filter_eq_self]
        intro e he
        have hne : e.name ≠ entry.name := by
          intro hname
          exact hnodup.1 (hname ▸ List.mem_map_of_mem he)
        simpa using hne
      rw [unlink, List.filter_cons_of_neg (by simp), ← unlink, hrest]
    . have hne : e.name ≠ entry.name := by
        intro hname
        exact hnodup.1 (hname ▸ List.mem_map_of_mem hmem)
      rw [unlink, List.filter_cons_of_pos (by simpa using hne), ← unlink]
      apply List.Perm.trans ((ih hnodup.2 hmem).cons e)
      apply List.Perm.swap

theorem nodup_unlink (hnodup : (directory.map Entry.name).Nodup) (name : Bytes)
    : ((unlink directory name).map Entry.name).Nodup := by
  apply List.Nodup.sublist _ hnodup
  apply List.Sublist.map
  apply List.filter_sublist

theorem count_dirMessages_of_perm (h : directory.Perm directory') (m : Message)
    : (dirMessages directory).count m = (dirMessages directory').count m := by
  unfold dirMessages
  exact (h.flatMap_right entryMessages).count_eq m

theorem count_dirMessages_unlink (hnodup : (directory.map Entry.name).Nodup) (hmem : entry ∈ directory) (m : Message)
    : (dirMessages directory).count m =
        (entryMessages entry).count m + (dirMessages (unlink directory entry.name)).count m := by
  rw [count_dirMessages_of_perm (perm_unlink hnodup hmem)]
  simp [dirMessages]

theorem DirOk.unlink (h : DirOk directory) (name : Bytes) : DirOk (unlink directory name) where
  nodup := nodup_unlink h.nodup name
  written entry hentry := h.written entry (mem_unlink.mp hentry).1

theorem map_update_perm (hnodup : (directory.map Entry.name).Nodup) (hmem : entry ∈ directory)
    (f : Entry → Entry)
    : (directory.map fun e => if e.name = entry.name then f e else e).Perm
        (f entry :: unlink directory entry.name) := by
  have hperm := (perm_unlink hnodup hmem).map fun e => if e.name = entry.name then f e else e
  rw [List.map_cons, if_pos rfl] at hperm
  have hrest : (unlink directory entry.name).map (fun e => if e.name = entry.name then f e else e) =
      unlink directory entry.name := by
    conv => rhs; rw [← List.map_id (unlink directory entry.name)]
    apply List.map_congr_left
    intro e he
    rw [if_neg (mem_unlink.mp he).2, id]
  rwa [hrest] at hperm

theorem names_map_update (f : Entry → Entry) (hf : ∀ e, (f e).name = e.name) (directory : List Entry) (name : Bytes)
    : (directory.map fun e => if e.name = name then f e else e).map Entry.name = directory.map Entry.name := by
  rw [List.map_map]
  apply List.map_congr_left
  intro e _
  simp only [Function.comp_apply]
  split
  . apply hf
  . rfl

theorem DirOk.touch (h : DirOk directory) (name : Bytes) (ctime : Nat)
    : DirOk (directory.map fun e => if e.name = name then { e with ctime := ctime } else e) := by
  constructor
  . rw [names_map_update (fun e => { e with ctime := ctime }) (fun _ => rfl)]
    exact h.nodup
  . intro entry hentry
    rw [List.mem_map] at hentry
    obtain ⟨e, he, rfl⟩ := hentry
    split
    . exact h.written e he
    . exact h.written e he

theorem dirMessages_touch (directory : List Entry) (name : Bytes) (ctime : Nat)
    : dirMessages (directory.map fun e => if e.name = name then { e with ctime := ctime } else e) =
        dirMessages directory := by
  unfold dirMessages
  rw [List.flatMap_map]
  congr 1
  funext e
  split <;> rfl

theorem exists_of_name_mem (hname : name ∈ directory.map Entry.name) : ∃ entry ∈ directory, entry.name = name := by
  simpa using hname

theorem data_of_size (hnodup : (directory.map Entry.name).Nodup) (hmem : entry ∈ directory)
    (hsize : size directory entry.name = 0)
    : entry.data = [] := by
  unfold size at hsize
  cases hfind : directory.find? (·.name = entry.name) with
  | none =>
    rw [List.find?_eq_none] at hfind
    simpa using hfind entry hmem
  | some e =>
    have hname : e.name = entry.name := by simpa using List.find?_some hfind
    obtain rfl := List.inj_on_of_nodup_map hnodup (List.mem_of_find?_eq_some hfind) hmem hname
    rw [hfind] at hsize
    exact List.eq_nil_of_length_eq_zero hsize

theorem count_unlink_empty (h : DirOk directory) (hsize : size directory name = 0) (m : Message)
    : (dirMessages (unlink directory name)).count m = (dirMessages directory).count m := by
  by_cases hname : name ∈ directory.map Entry.name
  . obtain ⟨entry, hmem, rfl⟩ := exists_of_name_mem hname
    have hdata := data_of_size h.nodup hmem hsize
    rw [count_dirMessages_unlink h.nodup hmem, (Written.empty hdata).2]
    simp
  . have hrest : FileStore.unlink directory name = directory := by
      rw [FileStore.unlink, List.filter_eq_self]
      intro e he
      have hne : e.name ≠ name := by
        intro heq
        exact hname (heq ▸ List.mem_map_of_mem he)
      simpa using hne
    rw [hrest]

theorem DirOk.closeFile (h : DirOk directory) (env : Env) (name : Bytes) : DirOk (closeFile directory env name) := by
  have htouch := h.touch name env.ctime
  unfold FileStore.closeFile
  dsimp only
  split
  . apply htouch.unlink
  . exact htouch

theorem count_closeFile (h : DirOk directory) (env : Env) (name : Bytes) (m : Message)
    : (dirMessages (closeFile directory env name)).count m = (dirMessages directory).count m := by
  have htouch := h.touch name env.ctime
  unfold FileStore.closeFile
  dsimp only
  split
  . next hsize => rw [count_unlink_empty htouch hsize, dirMessages_touch]
  . rw [dirMessages_touch]

theorem DirOk.openFile (h : DirOk directory) (env : Env) (name : Bytes)
    : DirOk (openFile directory env name) ∧ name ∈ (openFile directory env name).map Entry.name := by
  unfold FileStore.openFile
  split
  . next hany =>
    refine ⟨h, ?_⟩
    simpa using hany
  . next hany =>
    -- the place of the new file in the listing does not matter
    have hperm : (directory.take env.slot ++ ⟨name, env.ctime, []⟩ :: directory.drop env.slot).Perm
        (⟨name, env.ctime, []⟩ :: directory) := by
      apply List.perm_middle.trans
      rw [List.take_append_drop]
    refine ⟨⟨?_, ?_⟩, ?_⟩
    . rw [(hperm.map Entry.name).nodup_iff, List.map_cons, List.nodup_cons]
      refine ⟨?_, h.nodup⟩
      simpa using hany
    . intro entry hentry
      rw [hperm.mem_iff] at hentry
      rcases List.mem_cons.mp hentry with rfl | hentry
      . exact (Written.empty rfl).1
      . exact h.written entry hentry
    . simp

theorem count_openFile (directory : List Entry) (env : Env) (name : Bytes) (m : Message)
    : (dirMessages (openFile directory env name)).count m = (dirMessages directory).count m := by
  unfold FileStore.openFile
  split
  . rfl
  . have hempty : entryMessages ⟨name, env.ctime, []⟩ = [] := (Written.empty rfl).2
    have hsplit : dirMessages directory =
        dirMessages (directory.take env.slot) ++ dirMessages (directory.drop env.slot) := by
      rw [dirMessages, dirMessages, dirMessages, ← List.flatMap_append, List.take_append_drop]
    rw [hsplit, dirMessages, List.flatMap_append, List.flatMap_cons, hempty]
    rfl

theorem Wf.close (h : Wf fs) (env : Env) : Wf (fs.close env) := by
  unfold FileStore.close
  split
  . exact h
  . refine ⟨h.toDirOk.closeFile env _, ?_⟩
    intro name hname
    cases hname

theorem count_close (h : Wf fs) (env : Env) (m : Message)
    : (fs.close env).messages.count m = fs.messages.count m := by
  unfold FileStore.close
  split
  . rfl
  . apply count_closeFile h.toDirOk

theorem Wf.open_ (h : Wf fs) (makeName : Nat → Bytes) (env : Env) : Wf (fs.open_ makeName env) := by
  obtain ⟨hdir, hname⟩ := (h.close env).toDirOk.openFile env (makeName env.now)
  refine ⟨hdir, ?_⟩
  intro name hopen
  cases hopen
  exact hname

theorem count_open (h : Wf fs) (makeName : Nat → Bytes) (env : Env) (m : Message)
    : (fs.open_ makeName env).messages.count m = fs.messages.count m := by
  rw [← count_close h env m]
  apply count_openFile

-- the open file is rotated
def Due (fs : FileStore) (env : Env) : Prop :=
  fs.isOpen = true ∧ fs.rotateInterval ≠ -1 ∧ (env.unixtime : Int).tmod fs.rotateInterval = 0 ∧
    fs.lastRotate < env.unixtime

theorem cron_isSome_iff (makeName : Nat → Bytes) (env : Env)
    : (fs.cron makeName env).isSome = true ↔ (fs.isOpen = true → fs.rotateInterval ≠ 0) := by
  unfold cron
  split
  . next hzero => exact iff_of_false Bool.false_ne_true fun hne => hne hzero.1 hzero.2
  . next hzero =>
    refine iff_of_true ?_ fun hopen hinterval => hzero ⟨hopen, hinterval⟩
    split <;> rfl

theorem cron_cases (h : fs.cron makeName env = some fs')
    : (fs.Due env ∧ fs' = fs.open_ makeName env) ∨ fs' = fs := by
  unfold cron at h
  split at h
  . cases h
  . split at h
    . next hrotate =>
      cases h
      exact .inl ⟨hrotate, rfl⟩
    . cases h
      exact .inr rfl

theorem cron_of_closed (h : fs.isOpen = false) (makeName : Nat → Bytes) (env : Env)
    : fs.cron makeName env = some fs := by
  have hnot : ¬fs.isOpen = true := by
    rw [h]
    exact Bool.false_ne_true
  unfold cron
  rw [if_neg fun hand => hnot hand.1, if_neg fun hand => hnot hand.1]

theorem Wf.cron (h : Wf fs) (hcron : fs.cron makeName env = some fs') : Wf fs' := by
  obtain ⟨-, rfl⟩ | rfl := cron_cases hcron
  . apply h.open_
  . exact h

theorem count_cron (h : Wf fs) (hcron : fs.cron makeName env = some fs') (m : Message)
    : fs'.messages.count m = fs.messages.count m := by
  obtain ⟨-, rfl⟩ | rfl := cron_cases hcron
  . apply count_open h
  . rfl

theorem Wf.addMessage (h : Wf fs) (hopen : fs.secondaryFile = some name) (hm : File.NonEmpty m) (env : Env)
    : Wf (fs.addMessage env name m) ∧
        ∀ m', (fs.addMessage env name m).messages.count m' = fs.messages.count m' + [m].count m' := by
  obtain ⟨entry, hmem, rfl⟩ := exists_of_name_mem (h.open_mem name hopen)
  obtain ⟨hwritten, hmessages⟩ := (h.written entry hmem).addMessage hm env.ctime
  have hperm := map_update_perm h.nodup hmem fun e =>
    { e with data := File.addMessage e.data m, ctime := env.ctime }
  have hnames := names_map_update (fun e => { e with data := File.addMessage e.data m, ctime := env.ctime })
    (fun _ => rfl) fs.directory entry.name
  constructor
  . constructor
    . constructor
      . simp only [FileStore.addMessage]
        rw [hnames]
        exact h.nodup
      . intro e he
        rw [FileStore.addMessage, hperm.mem_iff] at he
        rcases List.mem_cons.mp he with rfl | he
        . exact hwritten
        . exact h.written e (mem_unlink.mp he).1
    . intro name hname
      simp only [FileStore.addMessage]
      rw [hnames]
      exact h.open_mem name hname
  . intro m'
    unfold messages
    rw [FileStore.addMessage, count_dirMessages_of_perm hperm, count_dirMessages_unlink h.nodup hmem]
    simp only [dirMessages, List.flatMap_cons, List.count_append, hmessages]
    omega

theorem foldl_oldest (oldest : Entry) (directory : List Entry)
    : ∃ entry, directory.foldl
          (fun oldest entry =>
            match oldest with
            | none => some entry
            | some oldest => if entry.ctime < oldest.ctime then some entry else some oldest)
          (some oldest) = some entry ∧
        entry ∈ oldest :: directory ∧ ∀ e ∈ oldest :: directory, entry.ctime ≤ e.ctime := by
  induction directory generalizing oldest with
  | nil => exact ⟨oldest, rfl, by simp, by simp⟩
  | cons next directory ih =>
    rw [List.foldl_cons]
    dsimp only
    split
    . next hlt =>
      obtain ⟨entry, heq, hmem, hle⟩ := ih next
      refine ⟨entry, heq, List.mem_cons_of_mem _ hmem, ?_⟩
      rw [List.forall_mem_cons]
      exact ⟨Nat.le_trans (hle next List.mem_cons_self) (Nat.le_of_lt hlt), hle⟩
    . next hge =>
      obtain ⟨entry, heq, hmem, hle⟩ := ih oldest
      rw [List.forall_mem_cons] at hle
      refine ⟨entry, heq, ?_, ?_⟩
      . rcases List.mem_cons.mp hmem with rfl | hmem
        . exact List.mem_cons_self
        . exact List.mem_cons_of_mem _ (List.mem_cons_of_mem _ hmem)
      . rw [List.forall_mem_cons, List.forall_mem_cons]
        exact ⟨hle.1, by omega, hle.2⟩

theorem findOldestFile_eq_none (h : findOldestFile directory = none) : directory = [] := by
  cases directory with
  | nil => rfl
  | cons oldest directory =>
    obtain ⟨entry, heq, -⟩ := foldl_oldest oldest directory
    cases heq.symm.trans h

theorem findOldestFile_eq_some (h : findOldestFile directory = some entry)
    : entry ∈ directory ∧ ∀ e ∈ directory, entry.ctime ≤ e.ctime := by
  cases directory with
  | nil => cases h
  | cons oldest directory =>
    obtain ⟨entry', heq, holdest⟩ := foldl_oldest oldest directory
    cases heq.symm.trans h
    exact holdest

theorem Wf.takeOldest (h : Wf fs) (hclosed : fs.secondaryFile = none)
    : ∃ msgs, fs.getOldestMessages = some msgs ∧ Wf fs.deleteOldestMessages ∧
        ∀ m, fs.messages.count m = msgs.count m + fs.deleteOldestMessages.messages.count m := by
  unfold getOldestMessages deleteOldestMessages
  cases hold : findOldestFile fs.directory with
  | none => exact ⟨[], rfl, h, by simp⟩
  | some entry =>
    have hmem := (findOldestFile_eq_some hold).1
    refine ⟨entryMessages entry, (h.written entry hmem).getMessages, ⟨h.toDirOk.unlink _, ?_⟩, ?_⟩
    . intro name hname
      rw [hclosed] at hname
      cases hname
    . intro m
      exact count_dirMessages_unlink h.nodup hmem m

end FileStore
end Kids
