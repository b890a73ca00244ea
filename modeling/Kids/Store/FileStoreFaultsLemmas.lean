import Kids.Store.FileStoreFaults
import Kids.Store.FileStoreLemmas
import Kids.Lib.Run

/-!
When the files of a secondary `FileStore` can be decoded although file operations fail. What `AddMessage`
returns is true to what is in the file, and reading the files gives the messages that were taken, unless an
`fwrite` fails or a message comes while no secondary file is open.
-/

namespace Kids

namespace File

-- the test for -1 never holds, so that a write never fails
theorem writeOutcome_eq (file : Bytes) (hdata : data ≠ []) (prependSize appendEol size written eol : Bool)
    : writeOutcome file data prependSize appendEol size written eol =
        (true, file ++ (if prependSize && size then sizeBytes data.length else []) ++ (if written then data else []) ++
          if appendEol && eol then [Bytes.lf] else []) := by
  have hsize : sizeBytes data.length ≠ [] := List.cons_ne_nil _ _
  unfold writeOutcome fwrite
  cases prependSize <;> cases appendEol <;> cases size <;> cases written <;> cases eol <;> simp [hdata, hsize]

theorem addMessageOutcome_eq (file : Bytes) (hm : NonEmpty m) (o : Outcome)
    : addMessageOutcome file m o =
        (true, file ++ ((if o.topicSize then sizeBytes m.topic.len else []) ++ (if o.topic then m.topic.data else []) ++
          (if o.contentSize then sizeBytes m.content.len else []) ++ if o.content then m.content.data else [])) := by
  unfold addMessageOutcome
  rw [writeOutcome_eq _ hm.1]
  dsimp only
  rw [writeOutcome_eq _ hm.2]
  simp [Sds.len]

theorem addMessageOutcome_whole (file : Bytes) (hm : NonEmpty m) (ho : o.whole = true)
    : addMessageOutcome file m o = (true, addMessage file m) := by
  unfold Outcome.whole at ho
  simp only [Bool.and_eq_true] at ho
  obtain ⟨⟨⟨h1, h2⟩, h3⟩, h4⟩ := ho
  rw [addMessageOutcome_eq _ hm, addMessage_eq]
  simp [h1, h2, h3, h4, record, field, Sds.len]

theorem addMessageOutcome_torn (file : Bytes) (hm : NonEmpty m) (ho : o.whole = false)
    : (addMessageOutcome file m o).2 ≠ file ++ record m := by
  rw [addMessageOutcome_eq _ hm]
  intro heq
  have hlen := congrArg List.length heq
  have htopic := List.length_pos_of_ne_nil hm.1
  have hcontent := List.length_pos_of_ne_nil hm.2
  unfold Outcome.whole at ho
  simp only [List.length_append, record, length_field, Sds.len, apply_ite List.length, length_sizeBytes, List.length_nil] at hlen
  grind

end File

namespace FileStore

variable {fs : FileStore} {directory : List Entry}

theorem contents_updateFile (hname : name ∈ directory.map Entry.name) (env : Env) (f : Bytes → Bytes)
    : contents (updateFile directory env name f) name = f (contents directory name) := by
  unfold contents updateFile
  induction directory with
  | nil => cases hname
  | cons entry directory ih =>
    rw [List.map_cons, List.find?_cons, List.find?_cons]
    by_cases hentry : entry.name = name
    . simp [hentry]
    . rw [List.map_cons, List.mem_cons] at hname
      simp only [hentry, if_false, decide_false]
      apply ih
      exact hname.resolve_left (Ne.symm hentry)

theorem readFiles_perm (h : DirOk fs.directory) (hn : fs.directory.length ≤ n)
    : ∃ msgs, readFiles n fs = some msgs ∧ msgs.Perm fs.messages := by
  induction n generalizing fs with
  | zero =>
    have hempty := List.eq_nil_of_length_eq_zero (Nat.le_zero.mp hn)
    refine ⟨[], rfl, ?_⟩
    simp [messages, dirMessages, hempty]
  | succ n ih =>
    unfold readFiles getOldestMessages deleteOldestMessages
    cases hold : findOldestFile fs.directory with
    | none =>
      have hempty := findOldestFile_eq_none hold
      obtain ⟨msgs, hmsgs, hperm⟩ := ih h (by simp [hempty])
      exact ⟨msgs, by simp [hmsgs], hperm⟩
    | some entry =>
      have hmem := (findOldestFile_eq_some hold).1
      have hperm := perm_unlink h.nodup hmem
      have hlen := hperm.length_eq
      rw [List.length_cons] at hlen
      have hunlink : DirOk ({ fs with directory := unlink fs.directory entry.name } : FileStore).directory :=
        h.unlink entry.name
      obtain ⟨msgs, hmsgs, hrest⟩ := ih hunlink (by dsimp only; omega)
      refine ⟨entryMessages entry ++ msgs, ?_, ?_⟩
      . simp [(h.written entry hmem).getMessages, hmsgs]
      . calc entryMessages entry ++ msgs
          _ |>.Perm (entryMessages entry ++ dirMessages (unlink fs.directory entry.name)) := hrest.append_left _
          _ |>.Perm (dirMessages fs.directory) := (hperm.flatMap_right entryMessages).symm

end FileStore

namespace SecondaryStore

variable {conf : SecondaryConfig} {s : SecondaryStore}

-- what a store keeps as long as it has told the truth
structure Kept (s : SecondaryStore) : Prop where
  wf : s.files.Wf
  count_eq : ∀ m, s.files.messages.count m = s.taken.count m
  no_topicFile : s.topicFile = []

def Inv (s : SecondaryStore) : Prop :=
  s.Truthful → s.Kept

theorem decodable_iff (h : Inv s) : s.Decodable ↔ s.Truthful := by
  refine ⟨fun hs => hs.truthful, ?_⟩
  intro htrue
  have hkept := h htrue
  obtain ⟨msgs, hread, hperm⟩ := FileStore.readFiles_perm hkept.wf.toDirOk (Nat.le_refl _)
  refine ⟨htrue, msgs, hread, hperm.trans ?_⟩
  rw [List.perm_iff_count]
  exact hkept.count_eq

theorem Inv.init (rotateInterval : Int) (lastRotate : Nat) : Inv (init rotateInterval lastRotate) := by
  intro _
  refine ⟨⟨⟨?_, ?_⟩, ?_⟩, ?_, rfl⟩
  . simp [SecondaryStore.init]
  . simp [SecondaryStore.init]
  . simp [SecondaryStore.init]
  . intro m
    rfl

-- calls that do not add a message keep everything, if only files are opened and closed
theorem Inv.of_files {files : FileStore} (h : Inv s) (hfiles : s.files.Wf → files.Wf)
    (hcount : s.files.Wf → ∀ m, files.messages.count m = s.files.messages.count m)
    : Inv { s with files := files } := by
  intro htrue
  have hkept := h htrue
  refine ⟨hfiles hkept.wf, ?_, hkept.no_topicFile⟩
  intro m
  rw [hcount hkept.wf]
  exact hkept.count_eq m

theorem Inv.close (h : Inv s) (env : Env) : Inv (s.close env) := by
  apply h.of_files
  . intro hwf
    exact hwf.close env
  . intro hwf
    exact FileStore.count_close hwf env

theorem Inv.open_ (h : Inv s) (conf : SecondaryConfig) (env : Env) (created : Bool)
    : Inv (s.open_ conf env created) := by
  unfold SecondaryStore.open_
  split
  . apply h.of_files
    . intro hwf
      exact hwf.open_ _ env
    . intro hwf
      exact FileStore.count_open hwf _ env
  . apply h.of_files
    . intro hwf
      exact { hwf.close env with }
    . intro hwf
      exact FileStore.count_close hwf env

theorem cron_cases (ht : s.cron conf env created = some t)
    : (s.files.isOpen = true → s.files.rotateInterval ≠ 0) ∧ (t = s.open_ conf env created ∨ t = s) := by
  unfold SecondaryStore.cron at ht
  split at ht
  . cases ht
  . next hzero =>
    refine ⟨fun hopen hinterval => hzero ⟨hopen, hinterval⟩, ?_⟩
    split at ht
    . cases ht
      exact .inl rfl
    . cases ht
      exact .inr rfl

theorem cron_isSome (s : SecondaryStore) (conf : SecondaryConfig) (env : Env) (created : Bool)
    (hinterval : s.files.isOpen = true → s.files.rotateInterval ≠ 0)
    : (s.cron conf env created).isSome = true := by
  unfold SecondaryStore.cron
  rw [if_neg fun hzero => hinterval hzero.1 hzero.2]
  split <;> rfl

theorem Inv.cron (h : Inv s) (ht : s.cron conf env created = some t) : Inv t := by
  obtain ⟨-, rfl | rfl⟩ := cron_cases ht
  . exact h.open_ conf env created
  . exact h

theorem calls_open (s : SecondaryStore) (conf : SecondaryConfig) (env : Env) (created : Bool)
    : (s.open_ conf env created).calls = s.calls := by
  unfold SecondaryStore.open_
  split <;> rfl

theorem calls_cron (ht : s.cron conf env created = some t) : t.calls = s.calls := by
  obtain ⟨-, rfl | rfl⟩ := cron_cases ht
  . apply calls_open
  . rfl

theorem appended_self (fs : FileStore) (m : Message) : appended fs fs m = false := by
  unfold appended
  split
  . rfl
  . simp [File.record, File.field, sizeBytes]

theorem doAddMessage_open (hkept : s.Kept) (hopen : s.files.secondaryFile = some name) (hm : File.NonEmpty m)
    (conf : SecondaryConfig) (env : Env) (o : Outcome)
    : ∃ t, s.doAddMessage conf env m o = (true, t) ∧ t.calls = s.calls ∧
        appended s.files t.files m = o.whole ∧
        (o.whole = true → t = { s with files := s.files.addMessage env name m }) := by
  have hname := hkept.wf.open_mem name hopen
  unfold doAddMessage
  split
  . next name' hopen' =>
    cases hopen.symm.trans hopen'
    refine ⟨_, Prod.ext ?_ (Eq.refl _), rfl, ?_, ?_⟩
    . rw [File.addMessageOutcome_eq _ hm]
    . unfold appended
      rw [hopen]
      simp only [FileStore.contents_updateFile hname]
      cases ho : o.whole with
      | true =>
        rw [File.addMessageOutcome_whole _ hm ho, File.addMessage_eq]
        simp
      | false =>
        have := File.addMessageOutcome_torn (FileStore.contents s.files.directory name) hm ho
        simpa using this
    . intro ho
      unfold FileStore.updateFile FileStore.addMessage
      simp only [File.addMessageOutcome_whole _ hm ho]
  . next hclosed => cases hopen.symm.trans hclosed

theorem doAddMessage_closed (hkept : s.Kept) (hclosed : s.files.secondaryFile = none) (hm : File.NonEmpty m)
    (conf : SecondaryConfig) (env : Env) (o : Outcome)
    : ∃ t, s.doAddMessage conf env m o = (o.opened, t) ∧ t.calls = s.calls ∧
        appended s.files t.files m = false ∧ (o.opened = false → t = s) := by
  have happended : ∀ after, appended s.files after m = false := by
    intro after
    unfold appended
    rw [hclosed]
  have hwrite : ∀ (s : SecondaryStore) (file : Option Bytes), (s.writeTopicFile env file m o).1 = true ∧
      (s.writeTopicFile env file m o).2.calls = s.calls := by
    intro s file
    unfold writeTopicFile
    cases file <;> simp [File.writeOutcome_eq _ hm.2]
  unfold doAddMessage
  simp only [hclosed, hkept.no_topicFile, List.lookup_nil]
  cases ho : o.opened with
  | false => exact ⟨s, rfl, rfl, happended _, fun _ => rfl⟩
  | true =>
    simp only [if_true]
    split
    all_goals
      refine ⟨_, Prod.ext (hwrite _ _).1 (Eq.refl _), ?_, happended _, ?_⟩
      . rw [(hwrite _ _).2]
      . simp

theorem taken_append (s : SecondaryStore) (call : AddCall)
    : ({ s with calls := s.calls ++ [call] } : SecondaryStore).taken =
        s.taken ++ if call.returned then [call.message] else [] := by
  unfold taken
  cases hreturned : call.returned <;> simp [hreturned]

theorem truthful_append (s : SecondaryStore) (call : AddCall)
    : ({ s with calls := s.calls ++ [call] } : SecondaryStore).Truthful ↔
        s.Truthful ∧ call.returned = call.appended := by
  unfold Truthful
  simp only [List.forall_mem_append, List.forall_mem_cons, List.not_mem_nil, false_implies, implies_true, and_true]

theorem Kept.addCall (h : Kept s) (hreturned : call.returned = false)
    : Kept { s with calls := s.calls ++ [call] } := by
  refine ⟨h.wf, ?_, h.no_topicFile⟩
  intro m
  rw [taken_append, hreturned]
  simpa using h.count_eq m

theorem Kept.addMessage (h : Kept s) (hopen : s.files.secondaryFile = some name) (hm : File.NonEmpty m) (env : Env)
    (appended : Bool)
    : Kept { s with files := s.files.addMessage env name m, calls := s.calls ++ [⟨m, true, appended⟩] } := by
  obtain ⟨hwf, hcount⟩ := h.wf.addMessage hopen hm env
  refine ⟨hwf, ?_, h.no_topicFile⟩
  intro m'
  have hall := h.count_eq m'
  have htaken := taken_append s ⟨m, true, appended⟩
  unfold taken at hall htaken ⊢
  rw [htaken, hcount, hall, List.count_append]
  simp

theorem logged_truthful (returned : Bool) (htrue : s.Truthful) (hcalls : t.calls = s.calls)
    (happended : appended s.files t.files m = a)
    : (s.logged m (returned, t)).Truthful ↔ returned = a := by
  have htrue' : t.Truthful := by
    unfold Truthful
    rw [hcalls]
    exact htrue
  unfold logged
  rw [truthful_append, happended]
  exact and_iff_right htrue'

theorem logged_of_open (hkept : s.Kept) (htrue : s.Truthful) (hopen : s.files.secondaryFile = some name)
    (hm : File.NonEmpty m) (conf : SecondaryConfig) (env : Env) (o : Outcome)
    : Inv (s.logged m (s.doAddMessage conf env m o)) ∧
        ((s.logged m (s.doAddMessage conf env m o)).Truthful ↔ o.whole = true) := by
  obtain ⟨t, ht, hcalls, happended, hwhole⟩ := doAddMessage_open hkept hopen hm conf env o
  have hiff := logged_truthful true htrue hcalls happended
  rw [ht]
  refine ⟨?_, hiff.trans eq_comm⟩
  intro htrue'
  unfold logged
  rw [hwhole (hiff.mp htrue').symm]
  exact hkept.addMessage hopen hm env _

theorem logged_of_closed (hkept : s.Kept) (htrue : s.Truthful) (hclosed : s.files.secondaryFile = none)
    (hm : File.NonEmpty m) (conf : SecondaryConfig) (env : Env) (o : Outcome)
    : Inv (s.logged m (s.doAddMessage conf env m o)) ∧
        ((s.logged m (s.doAddMessage conf env m o)).Truthful ↔ o.opened = false) := by
  obtain ⟨t, ht, hcalls, happended, hsame⟩ := doAddMessage_closed hkept hclosed hm conf env o
  have hiff := logged_truthful o.opened htrue hcalls happended
  rw [ht]
  refine ⟨?_, hiff⟩
  intro htrue'
  have hopened := hiff.mp htrue'
  unfold logged
  rw [hsame hopened]
  exact hkept.addCall hopened

theorem logged_of_mismatch (hkept : s.Kept) (htrue : s.Truthful) (m : Message)
    : Inv (s.logged m (false, s)) ∧ (s.logged m (false, s)).Truthful := by
  unfold logged
  refine ⟨fun _ => hkept.addCall rfl, ?_⟩
  rw [truthful_append, appended_self]
  exact ⟨htrue, rfl⟩

theorem step_addMessage (h : Inv s) (htrue : s.Truthful) (conf : SecondaryConfig) (env : Env) (hm : File.NonEmpty m)
    (o : Outcome)
    : Inv (s.logged m (s.addMessage conf env m o)) ∧
        ((s.logged m (s.addMessage conf env m o)).Truthful ↔ WritesWhole conf s (.addMessage env m o)) := by
  have hkept := h htrue
  unfold SecondaryStore.addMessage WritesWhole FileStore.isOpen
  split
  . next hmatch =>
    cases hfile : s.files.secondaryFile with
    | some name =>
      obtain ⟨hinv, hiff⟩ := logged_of_open hkept htrue hfile hm conf env o
      refine ⟨hinv, ?_⟩
      simp [hiff, hmatch]
    | none =>
      obtain ⟨hinv, hiff⟩ := logged_of_closed hkept htrue hfile hm conf env o
      refine ⟨hinv, ?_⟩
      simp [hiff, hmatch]
  . next hmatch =>
    obtain ⟨hinv, htrue'⟩ := logged_of_mismatch hkept htrue m
    refine ⟨hinv, ?_⟩
    simp [htrue', hmatch]

theorem step_truthful (h : Inv s) (htrue : s.Truthful) (hl : l.NonEmpty) (ht : s.step conf l = some t)
    : Inv t ∧ (t.Truthful ↔ WritesWhole conf s l) := by
  cases l with
  | open_ env created =>
    cases ht
    refine ⟨h.open_ conf env created, ?_⟩
    unfold Truthful
    rw [calls_open]
    exact ⟨fun _ => trivial, fun _ => htrue⟩
  | addMessage env m o =>
    cases ht
    exact step_addMessage h htrue conf env hl o
  | close env =>
    cases ht
    exact ⟨h.close env, fun _ => trivial, fun _ => htrue⟩
  | cron env created =>
    refine ⟨h.cron ht, ?_⟩
    unfold Truthful
    rw [calls_cron ht]
    exact ⟨fun _ => (cron_cases ht).1, fun _ => htrue⟩

theorem step_isSome (conf : SecondaryConfig) (h : WritesWhole conf s l) : (s.step conf l).isSome = true := by
  cases l with
  | cron env created => exact cron_isSome s conf env created h
  | _ => rfl

/--
The files stay decodable along a run if and only if each message that the store takes is written to an open
secondary file without a failing `fwrite`, or has no file to be written to, and no tick divides by an interval of 0.
-/
theorem decodable_along_iff (conf : SecondaryConfig) (rotateInterval : Int) (lastRotate : Nat) (ls : List Label)
    (hls : ∀ l ∈ ls, l.NonEmpty)
    : Run.Along (step conf) Decodable (init rotateInterval lastRotate) ls ↔
        Run.Meets (step conf) (WritesWhole conf) (init rotateInterval lastRotate) ls := by
  have hinit := Inv.init rotateInterval lastRotate
  have htrue : (init rotateInterval lastRotate).Truthful := by simp [Truthful, init]
  apply Run.Along.iff_meets_within (fun s => Inv s ∧ s.Truthful) (fun _ l => l.NonEmpty) ⟨hinit, htrue⟩
    (Run.Meets.of_forall hls _)
  . rintro s ⟨hinv, htrue⟩
    exact (decodable_iff hinv).mpr htrue
  . rintro s l ⟨hinv, htrue⟩ hl hwhole
    obtain ⟨t, ht⟩ := Option.isSome_iff_exists.mp (step_isSome conf hwhole)
    obtain ⟨hinv', hiff⟩ := step_truthful hinv htrue hl ht
    exact ⟨t, ht, hinv', hiff.mpr hwhole⟩
  . rintro s l t ⟨hinv, htrue⟩ hl hnot ht hdecodable
    obtain ⟨-, hiff⟩ := step_truthful hinv htrue hl ht
    exact hnot (hiff.mp hdecodable.truthful)

def byTopic : SecondaryConfig where
  makeName := fun now => [.ofNat now]
  topicMatch := fun _ => true
  topicName := fun topic _ => some topic

def logOutcome (contentSize : Bool) : Label :=
  .addMessage ⟨1, 1, 0, 1⟩ (.ofBytes 97 98) ⟨true, true, true, contentSize, true, true⟩

theorem decodable_along_iff_whole
    : Run.Along (step byTopic) Decodable (init 600 0) [.open_ ⟨1, 1, 0, 1⟩ true, logOutcome true] := by
  apply (decodable_along_iff byTopic 600 0 _ _).mpr
  . refine ⟨trivial, ?_⟩
    intro s hs
    cases hs
    exact ⟨fun _ => rfl, fun _ _ => trivial⟩
  . simp [logOutcome, Label.NonEmpty, Message.ofBytes]

-- a record without the size of its content, and a message that comes after `Open` has failed
theorem decodable_fails_torn_and_closed
    : ¬Run.Along (step byTopic) Decodable (init 600 0) [.open_ ⟨1, 1, 0, 1⟩ true, logOutcome false] ∧
        ¬Run.Along (step byTopic) Decodable (init 600 0) [.open_ ⟨1, 1, 0, 1⟩ false, logOutcome true] := by
  constructor
  . rintro ⟨-, s, hs, -, t, ht, hend⟩
    cases hs
    cases ht
    have := hend.truthful _ (List.mem_append_right _ List.mem_cons_self)
    revert this
    decide
  . rintro ⟨-, s, hs, -, t, ht, hend⟩
    cases hs
    cases ht
    have := hend.truthful _ (List.mem_append_right _ List.mem_cons_self)
    revert this
    decide

end SecondaryStore
end Kids
