import Kids.Store.FileStoreLemmas

/-!
The files of a secondary `FileStore` in the order in which they were created. The change times follow this
order, and the file that was opened last is at its end, as long as the clock does not go back. Taking the
oldest file then takes the first one, unless another file has the same change time.
-/

namespace Kids

theorem File.getMessages_prefix (ms : List Message)
    : ∃ msgs, File.getMessages (ms.map File.record).flatten = some msgs ∧ msgs <+: ms := by
  induction ms with
  | nil => exact ⟨[], File.getMessages_nil, List.prefix_refl _⟩
  | cons m ms ih =>
    rw [List.map_cons, List.flatten_cons]
    by_cases hm : File.NonEmpty m
    . obtain ⟨msgs, hmsgs, hprefix⟩ := ih
      refine ⟨m :: msgs, ?_, List.cons_prefix_cons.mpr ⟨rfl, hprefix⟩⟩
      rw [File.getMessages_cons (File.readMessage_record hm.1 hm.2 _), hmsgs]
      rfl
    . -- reading stops at a record with an empty part
      refine ⟨[], ?_, List.nil_prefix⟩
      apply File.getMessages_failed
      apply File.readMessage_empty
      unfold File.NonEmpty at hm
      rwa [not_and_or, not_not, not_not] at hm

namespace FileStore

-- a file with the messages that were written to it
structure LogFile where
  entry : Entry
  msgs : List Message
  data_eq : entry.data = (msgs.map File.record).flatten

theorem LogFile.msgs_of_data (file : LogFile) (hdata : file.entry.data = []) : file.msgs = [] := by
  have hflat := file.data_eq
  rw [hdata] at hflat
  cases hmsgs : file.msgs with
  | nil => rfl
  | cons m msgs =>
    rw [hmsgs] at hflat
    cases hflat

def written (order : List LogFile) : List Message :=
  order.flatMap LogFile.msgs

def names (order : List LogFile) : List Bytes :=
  order.map fun file => file.entry.name

/--
The clock is not behind the files, and, for a call that opens one, only the file that was opened last has the name
of this second.
-/
structure InTime (makeName : Nat → Bytes) (fs : FileStore) (env : Env) (opens : Prop) : Prop where
  ctime : ∀ entry ∈ fs.directory, entry.ctime ≤ env.ctime
  name : opens → makeName env.now ∈ fs.directory.map Entry.name → makeName env.now = makeName fs.lastRotate

def UniqueOldest (directory : List Entry) : Prop :=
  ∀ e ∈ directory, (∀ e' ∈ directory, e.ctime ≤ e'.ctime) → ∀ e' ∈ directory, e'.ctime = e.ctime → e' = e

structure Created (makeName : Nat → Bytes) (fs : FileStore) (order : List LogFile) : Prop where
  nodup : (names order).Nodup
  perm : (order.map LogFile.entry).Perm fs.directory
  sorted : order.Pairwise fun a b => a.entry.ctime ≤ b.entry.ctime
  newest : ∀ file ∈ order.dropLast, file.entry.name ≠ makeName fs.lastRotate
  open_mem : ∀ name, fs.secondaryFile = some name → name ∈ names order
  open_name : ∀ name, fs.secondaryFile = some name → name = makeName fs.lastRotate

variable {makeName : Nat → Bytes} {fs : FileStore} {directory : List Entry} {order : List LogFile} {env : Env} {opens : Prop}

theorem Created.mem (h : Created makeName fs order) (hfile : file ∈ order) : file.entry ∈ fs.directory :=
  h.perm.mem_iff.mp (List.mem_map_of_mem hfile)

-- the open file is the last one
theorem Created.open_last (h : Created makeName fs order) (hopen : fs.secondaryFile = some name)
    : ∃ older file, order = older ++ [file] ∧ file.entry.name = name := by
  obtain ⟨file, hmem, hname⟩ := List.mem_map.mp (h.open_mem name hopen)
  have hlast := h.newest file
  rcases List.eq_nil_or_concat' order with rfl | ⟨older, last, rfl⟩
  . cases hmem
  . rw [List.dropLast_concat] at hlast
    rcases List.mem_append.mp hmem with hold | hnew
    . exact absurd (hname.trans (h.open_name name hopen)) (hlast hold)
    . cases List.mem_singleton.mp hnew
      exact ⟨older, file, rfl, hname⟩

theorem name_ne_last (h : (names (older ++ [last])).Nodup) (hfile : file ∈ older)
    : file.entry.name ≠ last.entry.name := by
  unfold names at h
  rw [List.map_append, List.nodup_append] at h
  exact h.2.2 file.entry.name (List.mem_map.mpr ⟨file, hfile, rfl⟩) last.entry.name (by simp)

-- what is updated is the open file, so that the order of the change times stays
theorem Created.update (h : Created makeName fs (older ++ [file])) (hin : InTime makeName fs env opens)
    (f : Entry → Entry) (hname : file'.entry.name = file.entry.name) (hentry : file'.entry = f file.entry)
    (hctime : file'.entry.ctime = env.ctime) (hdir : fs'.directory =
      fs.directory.map fun entry => if entry.name = file.entry.name then f entry else entry)
    (hopen : ∀ name, fs'.secondaryFile = some name → fs.secondaryFile = some name) (hrotate : fs'.lastRotate = fs.lastRotate)
    : Created makeName fs' (older ++ [file']) := by
  have hnewest := h.newest
  rw [List.dropLast_concat] at hnewest
  have hnames : names (older ++ [file']) = names (older ++ [file]) := by
    unfold names
    rw [List.map_append, List.map_append, List.map_singleton, List.map_singleton, hname]
  refine ⟨hnames ▸ h.nodup, ?_, ?_, ?_, ?_, ?_⟩
  . have hmap : (older ++ [file']).map LogFile.entry = ((older ++ [file]).map LogFile.entry).map
        fun entry => if entry.name = file.entry.name then f entry else entry := by
      rw [List.map_append, List.map_append, List.map_append, List.map_map]
      congr 1
      . apply List.map_congr_left
        intro other hother
        simp [name_ne_last h.nodup hother]
      . simp [hentry]
    rw [hmap, hdir]
    exact h.perm.map _
  . have hsorted := List.pairwise_append.mp h.sorted
    refine List.pairwise_append.mpr ⟨hsorted.1, by simp, ?_⟩
    intro a ha b hb
    rw [List.mem_singleton.mp hb, hctime]
    exact hin.ctime _ (h.mem (List.mem_append_left _ ha))
  . rw [List.dropLast_concat, hrotate]
    exact hnewest
  . intro name hname
    rw [hnames]
    exact h.open_mem name (hopen name hname)
  . intro name hname
    rw [hrotate]
    exact h.open_name name (hopen name hname)

theorem Created.addMessage (h : Created makeName fs order) (hin : InTime makeName fs env opens)
    (hopen : fs.secondaryFile = some name) (m : Message)
    : ∃ order', Created makeName (fs.addMessage env name m) order' ∧ written order' = written order ++ [m] := by
  obtain ⟨older, file, rfl, rfl⟩ := h.open_last hopen
  have hdata : File.addMessage file.entry.data m = ((file.msgs ++ [m]).map File.record).flatten := by
    rw [File.addMessage_eq, file.data_eq]
    simp
  refine ⟨older ++ [⟨{ file.entry with data := File.addMessage file.entry.data m, ctime := env.ctime }, file.msgs ++ [m],
    hdata⟩], ?_, ?_⟩
  . exact h.update hin (fun entry => { entry with data := File.addMessage entry.data m, ctime := env.ctime }) rfl rfl rfl
      rfl (fun _ => id) rfl
  . simp [written]

theorem unlink_last (h : (names (older ++ [file])).Nodup)
    : unlink ((older ++ [file]).map LogFile.entry) file.entry.name = older.map LogFile.entry := by
  unfold unlink
  rw [List.map_append, List.filter_append, List.filter_eq_self.mpr]
  . simp
  . intro entry hentry
    obtain ⟨other, hother, rfl⟩ := List.mem_map.mp hentry
    simpa using name_ne_last h hother

-- a file that nothing was written to goes away
theorem Created.unlinkLast (h : Created makeName fs (older ++ [file])) (hclosed : fs.secondaryFile = none)
    : Created makeName { fs with directory := unlink fs.directory file.entry.name } older := by
  have hnewest := h.newest
  rw [List.dropLast_concat] at hnewest
  have hsub : older.Sublist (older ++ [file]) := List.sublist_append_left _ _
  refine ⟨h.nodup.sublist (hsub.map _), ?_, h.sorted.sublist hsub, ?_, ?_, ?_⟩
  . have hfilter := h.perm.filter fun entry => entry.name ≠ file.entry.name
    have hlast := unlink_last h.nodup
    unfold unlink at hlast ⊢
    rwa [hlast] at hfilter
  . intro other hother
    exact hnewest other (List.dropLast_subset older hother)
  . intro name hname
    cases hclosed.symm.trans hname
  . intro name hname
    cases hclosed.symm.trans hname

theorem Created.close (h : Created makeName fs order) (hin : InTime makeName fs env opens)
    : ∃ order', Created makeName (fs.close env) order' ∧ written order' = written order := by
  cases hopen : fs.secondaryFile with
  | none =>
    refine ⟨order, ?_, rfl⟩
    unfold FileStore.close
    rw [hopen]
    exact h
  | some name =>
    obtain ⟨older, file, rfl, rfl⟩ := h.open_last hopen
    have htouched : Created makeName { fs with
        directory := fs.directory.map fun e => if e.name = file.entry.name then { e with ctime := env.ctime } else e
        secondaryFile := none } (older ++ [⟨{ file.entry with ctime := env.ctime }, file.msgs, file.data_eq⟩]) := by
      refine h.update hin (fun entry => { entry with ctime := env.ctime }) rfl rfl rfl rfl ?_ rfl
      intro name hname
      cases hname
    unfold FileStore.close FileStore.closeFile
    rw [hopen]
    dsimp only
    split
    . next hsize =>
      refine ⟨older, htouched.unlinkLast rfl, ?_⟩
      have hmem := htouched.mem (List.mem_append_right older (List.mem_singleton_self _))
      have hnodup : ((fs.directory.map fun e =>
          if e.name = file.entry.name then { e with ctime := env.ctime } else e).map Entry.name).Nodup := by
        rw [← (htouched.perm.map Entry.name).nodup_iff, List.map_map]
        exact htouched.nodup
      have hdata := data_of_size hnodup hmem hsize
      have hmsgs := file.msgs_of_data hdata
      simp [written, hmsgs]
    . exact ⟨_, htouched, by simp [written]⟩

theorem mem_closeFile (h : entry ∈ closeFile directory env name)
    : (entry ∈ directory ∨ entry.ctime = env.ctime) ∧ entry.name ∈ directory.map Entry.name := by
  have htouched : entry ∈ directory.map fun e => if e.name = name then { e with ctime := env.ctime } else e := by
    unfold closeFile at h
    dsimp only at h
    split at h
    . exact (mem_unlink.mp h).1
    . exact h
  obtain ⟨e, he, rfl⟩ := List.mem_map.mp htouched
  split
  . exact ⟨.inr rfl, List.mem_map.mpr ⟨e, he, rfl⟩⟩
  . exact ⟨.inl he, List.mem_map_of_mem he⟩

theorem InTime.close (hin : InTime makeName fs env opens) : InTime makeName (fs.close env) env opens := by
  unfold FileStore.close
  split
  . exact hin
  . constructor
    . intro entry hentry
      rcases (mem_closeFile hentry).1 with hmem | htouched
      . exact hin.ctime entry hmem
      . exact Nat.le_of_eq htouched
    . intro hopens hname
      obtain ⟨entry, hentry, heq⟩ := exists_of_name_mem hname
      apply hin.name hopens
      rw [← heq]
      exact (mem_closeFile hentry).2

theorem InTime.open_ (hin : InTime makeName fs env opens) : InTime makeName (fs.open_ makeName env) env opens := by
  refine ⟨?_, fun _ _ => rfl⟩
  unfold FileStore.open_ FileStore.openFile
  dsimp only
  split
  . exact hin.close.ctime
  . intro entry hentry
    have hmem := List.perm_middle.mem_iff.mp hentry
    rw [List.take_append_drop] at hmem
    rcases List.mem_cons.mp hmem with rfl | hmem
    . exact Nat.le_refl _
    . exact hin.close.ctime entry hmem

theorem Created.open_ (h : Created makeName fs order) (hin : InTime makeName fs env opens) (hopens : opens)
    : ∃ order', Created makeName (fs.open_ makeName env) order' ∧ written order' = written order := by
  obtain ⟨order', hclosed, hwritten⟩ := h.close hin
  have hin' := hin.close
  have hnames : names order' = (order'.map LogFile.entry).map Entry.name := by simp [names]
  unfold FileStore.open_ FileStore.openFile
  dsimp only
  split
  . next hany =>
    -- the file of the same second is opened again
    have hmem : makeName env.now ∈ (fs.close env).directory.map Entry.name := by simpa using hany
    refine ⟨order', ⟨hclosed.nodup, hclosed.perm, hclosed.sorted, ?_, ?_, ?_⟩, hwritten⟩
    . rw [hin'.name hopens hmem]
      exact hclosed.newest
    . intro name hopen
      cases hopen
      rw [hnames, (hclosed.perm.map Entry.name).mem_iff]
      exact hmem
    . intro name hopen
      cases hopen
      rfl
  . next hany =>
    have hmem : makeName env.now ∉ names order' := by
      rw [hnames, (hclosed.perm.map Entry.name).mem_iff]
      simpa using hany
    refine ⟨order' ++ [⟨⟨makeName env.now, env.ctime, []⟩, [], rfl⟩], ⟨?_, ?_, ?_, ?_, ?_, ?_⟩, ?_⟩
    . unfold names
      rw [List.map_append, List.nodup_append]
      refine ⟨hclosed.nodup, by simp, ?_⟩
      intro a ha b hb hab
      rw [List.map_singleton, List.mem_singleton] at hb
      rw [hab, hb] at ha
      exact hmem ha
    . rw [List.map_append, List.map_singleton]
      apply (hclosed.perm.append_right _).trans
      apply (List.perm_append_singleton _ _).trans
      conv => lhs; rw [← List.take_append_drop env.slot (fs.close env).directory]
      exact List.perm_middle.symm
    . refine List.pairwise_append.mpr ⟨hclosed.sorted, by simp, ?_⟩
      intro a ha b hb
      rw [List.mem_singleton.mp hb]
      exact hin'.ctime _ (hclosed.mem ha)
    . rw [List.dropLast_concat]
      intro file hfile hname
      exact hmem (List.mem_map.mpr ⟨file, hfile, hname⟩)
    . intro name hopen
      cases hopen
      simp [names]
    . intro name hopen
      cases hopen
      rfl
    . simpa [written] using hwritten

theorem Created.cron (h : Created makeName fs order) (hin : InTime makeName fs env opens) (hopens : fs.Due env → opens)
    (hcron : fs.cron makeName env = some fs')
    : ∃ order', Created makeName fs' order' ∧ written order' = written order := by
  obtain ⟨hdue, rfl⟩ | rfl := cron_cases hcron
  . exact h.open_ hin (hopens hdue)
  . exact ⟨order, h, rfl⟩

theorem InTime.deleteOldestMessages (hin : InTime makeName fs env opens) : InTime makeName fs.deleteOldestMessages env opens := by
  unfold FileStore.deleteOldestMessages
  split
  . exact hin
  . constructor
    . intro entry hentry
      exact hin.ctime entry (mem_unlink.mp hentry).1
    . intro hopens hname
      obtain ⟨entry, hentry, heq⟩ := exists_of_name_mem hname
      apply hin.name hopens
      rw [← heq]
      exact List.mem_map_of_mem (mem_unlink.mp hentry).1

theorem Created.nil_of_not_haveOldMessage (h : Created makeName fs order) (hold : ¬fs.haveOldMessage = true)
    : order = [] := by
  have hnone : fs.directory = [] := by
    unfold FileStore.haveOldMessage at hold
    apply findOldestFile_eq_none
    simpa using hold
  have hperm := h.perm
  rw [hnone] at hperm
  exact List.map_eq_nil_iff.mp hperm.eq_nil

theorem Created.closed_of_nil (h : Created makeName fs []) : fs.secondaryFile = none := by
  cases hopen : fs.secondaryFile with
  | none => rfl
  | some name => cases h.open_mem name hopen

theorem Created.close_of_nil (h : Created makeName fs []) (env : Env) : fs.close env = fs := by
  unfold FileStore.close
  rw [h.closed_of_nil]

theorem Created.cron_of_nil (h : Created makeName fs []) (env : Env) : fs.cron makeName env = some fs := by
  apply cron_of_closed
  unfold FileStore.isOpen
  rw [h.closed_of_nil]
  rfl

theorem Created.takeOldest (h : Created makeName fs order) (hclosed : fs.secondaryFile = none)
    (hunique : UniqueOldest fs.directory)
    : ∃ msgs order', fs.getOldestMessages = some msgs ∧ Created makeName fs.deleteOldestMessages order' ∧
        (msgs ++ written order').Sublist (written order) := by
  unfold getOldestMessages deleteOldestMessages
  cases hold : findOldestFile fs.directory with
  | none => exact ⟨[], order, rfl, h, List.Sublist.refl _⟩
  | some entry =>
    obtain ⟨hmem, hmin⟩ := findOldestFile_eq_some hold
    cases order with
    | nil => cases h.perm.mem_iff.mpr hmem
    | cons first rest =>
      have hsorted := List.pairwise_cons.mp h.sorted
      have hfirst := h.mem (List.mem_cons_self (a := first) (l := rest))
      -- the first file has the least change time too, and there is only one such file
      have hle : first.entry.ctime ≤ entry.ctime := by
        obtain ⟨file, hfile, rfl⟩ := List.mem_map.mp (h.perm.mem_iff.mpr hmem)
        rcases List.mem_cons.mp hfile with rfl | hrest
        . exact Nat.le_refl _
        . exact hsorted.1 file hrest
      obtain rfl := hunique entry hmem hmin first.entry hfirst (Nat.le_antisymm hle (hmin first.entry hfirst))
      obtain ⟨msgs, hmsgs, hprefix⟩ := File.getMessages_prefix first.msgs
      rw [← first.data_eq] at hmsgs
      have hnodup : (fs.directory.map Entry.name).Nodup := by
        rw [← (h.perm.map Entry.name).nodup_iff, List.map_map]
        exact h.nodup
      refine ⟨msgs, rest, hmsgs, ⟨?_, ?_, hsorted.2, ?_, ?_, ?_⟩, ?_⟩
      . exact (List.nodup_cons.mp h.nodup).2
      . exact (h.perm.trans (perm_unlink hnodup hmem)).cons_inv
      . intro file hfile
        apply h.newest
        cases rest with
        | nil => cases hfile
        | cons => exact List.mem_cons_of_mem _ hfile
      . intro name hname
        cases hclosed.symm.trans hname
      . intro name hname
        cases hclosed.symm.trans hname
      . unfold written
        rw [List.flatMap_cons]
        exact hprefix.sublist.append_right _

end FileStore
end Kids
