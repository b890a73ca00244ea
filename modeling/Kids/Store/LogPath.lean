import Kids.Store.FileNameLemmas

/-!
Where the log files of a `FileStore` are: exactly when a topic stays under the directory that the path begins with, and
exactly which templates keep every topic there.
-/

namespace Kids

open Bytes Template LexicalPath

section

variable {mark pattern text s : Bytes} {tm : Tm}

theorem replaceMark_cases (hmark : IsTemplateMark mark) (s : Bytes)
    : (¬mark <:+: s ∧ ∀ text, replaceMark mark text s = s) ∨
      ∃ u v, s = u ++ mark ++ v ∧ ∀ text, replaceMark mark text s = u ++ text ++ v := by
  simp only [replaceMark_eq hmark.isMark.ne_nil]
  exact replaceFirst_cases hmark.isMark.ne_nil s

theorem noParent_replaceMark (hmark : IsTemplateMark mark) (htext : Plain text) (h : NoParent slash dot s)
    : NoParent slash dot (replaceMark mark text s) := by
  obtain ⟨-, hkeep⟩ | ⟨u, v, rfl, hput⟩ := replaceMark_cases hmark s
  . rwa [hkeep]
  . rw [hput]
    exact noParent_replace h hmark.slash_not_mem htext.slash_not_mem htext.sign (by decide)

theorem nul_not_mem_replaceMark (hmark : IsTemplateMark mark) (htext : nul ∉ text) (h : nul ∉ s)
    : nul ∉ replaceMark mark text s := by
  obtain ⟨-, hkeep⟩ | ⟨u, v, rfl, hput⟩ := replaceMark_cases hmark s
  . rwa [hkeep]
  . rw [hput]
    simp only [List.mem_append, not_or] at h ⊢
    exact ⟨⟨h.1.1, htext⟩, h.2⟩

-- a mark does not end in a slash
theorem exists_of_getLast_slash (hmark : IsTemplateMark mark) {u v : Bytes}
    (h : (u ++ mark ++ v).getLast? = some slash) : v.getLast? = some slash := by
  have hlast : mark.getLast? = some 93 := by
    cases hmark <;> rfl
  rw [List.getLast?_append] at h
  cases hv : v.getLast? with
  | some b =>
    rw [hv] at h
    exact h
  | none =>
    rw [hv, List.getLast?_append, hlast] at h
    cases h

theorem getLast_replaceMark (hmark : IsTemplateMark mark) (text : Bytes) (h : s.getLast? = some slash)
    : (replaceMark mark text s).getLast? = some slash := by
  obtain ⟨-, hkeep⟩ | ⟨u, v, rfl, hput⟩ := replaceMark_cases hmark s
  . rwa [hkeep]
  . rw [hput, List.getLast?_append, exists_of_getLast_slash hmark h]
    rfl

theorem isAbsolute_of_replaceMark (hmark : IsTemplateMark mark) (htext : Plain text)
    (h : IsAbsolute slash (replaceMark mark text s)) : IsAbsolute slash s := by
  obtain ⟨-, hkeep⟩ | ⟨u, v, rfl, hput⟩ := replaceMark_cases hmark s
  . rwa [hkeep] at h
  . rw [hput] at h
    cases u with
    | cons b u => exact h
    | nil =>
      obtain ⟨b, text, rfl⟩ := List.exists_cons_of_ne_nil htext.ne_nil
      obtain rfl := Option.some.inj h
      exact absurd List.mem_cons_self htext.slash_not_mem

theorem topicMark_infix_replaceMark_iff (hmark : IsTemplateMark mark) (hne : mark ≠ topicMark) (htext : Plain text)
    (s : Bytes) : topicMark <:+: replaceMark mark text s ↔ topicMark <:+: s := by
  rw [replaceMark_eq hmark.isMark.ne_nil]
  refine infix_replaceFirst_iff hmark.isMark IsTemplateMark.topic.isMark ?_ ?_ htext.ne_nil (htext.fresh .topic) s
  . exact fun hpre => hne (hmark.eq_of_starts .topic hpre)
  . exact fun hpre => hne (IsTemplateMark.topic.eq_of_starts hmark hpre).symm

-- the template once the date and the time are in their places
def stamp (tm : Tm) (pattern : Bytes) : Bytes :=
  replaceMark timeMark tm.time (replaceMark dateMark tm.date pattern)

theorem makeName_eq_stamp (pattern : Bytes) (tm : Tm) (topic : Bytes)
    : makeName pattern tm topic = replaceMark topicMark topic (stamp tm pattern) := rfl

theorem noParent_stamp (h : NoParent slash dot pattern) (tm : Tm) : NoParent slash dot (stamp tm pattern) :=
  noParent_replaceMark .time (plain_time tm) (noParent_replaceMark .date (plain_date tm) h)

theorem topicMark_infix_stamp_iff (tm : Tm) (pattern : Bytes)
    : topicMark <:+: stamp tm pattern ↔ topicMark <:+: pattern :=
  (topicMark_infix_replaceMark_iff .time (by decide) (plain_time tm) _).trans
    (topicMark_infix_replaceMark_iff .date (by decide) (plain_date tm) _)

theorem isAbsolute_of_stamp (tm : Tm) (h : IsAbsolute slash (stamp tm pattern)) : IsAbsolute slash pattern :=
  isAbsolute_of_replaceMark .date (plain_date tm) (isAbsolute_of_replaceMark .time (plain_time tm) h)

theorem getLast_stamp (tm : Tm) (h : pattern.getLast? = some slash) : (stamp tm pattern).getLast? = some slash :=
  getLast_replaceMark .time _ (getLast_replaceMark .date _ h)

theorem nul_not_mem_makeName (tm : Tm) {topic : Bytes} (hpattern : nul ∉ pattern) (htopic : nul ∉ topic)
    : nul ∉ makeName pattern tm topic :=
  nul_not_mem_replaceMark .topic htopic (nul_not_mem_replaceMark .time (plain_time tm).nul_not_mem
    (nul_not_mem_replaceMark .date (plain_date tm).nul_not_mem hpattern))

theorem makeName_of_no_topic (h : ¬topicMark <:+: pattern) (tm : Tm) (topic : Bytes)
    : makeName pattern tm topic = stamp tm pattern := by
  rw [← topicMark_infix_stamp_iff tm] at h
  rw [makeName_eq_stamp]
  obtain ⟨-, hkeep⟩ | ⟨u, v, hs, -⟩ := replaceMark_cases .topic (stamp tm pattern)
  . exact hkeep topic
  . exact absurd ⟨u, v, hs.symm⟩ h

end

-- `.` is where an empty directory is
theorem inside_findRoot_iff (pattern full : Bytes)
    : Inside slash dot (findRoot pattern) full ↔ Inside slash dot (rootPart pattern) full := by
  have hdot : normalise slash dot [dot] = normalise slash dot [] := rfl
  unfold Inside
  obtain ⟨hnil, hroot, -⟩ | ⟨hroot, -⟩ := rootPart_cases pattern
  . rw [hroot, hnil, hdot]
  . rw [hroot]

namespace LogStore

variable (s : LogStore)

-- the calendar time of a file
def tm (sys : System) : Tm :=
  sys.localtime (if s.fileTime sys = 0 then sys.now else s.fileTime sys)

def fullname (tm : Tm) (topic : Bytes) : Bytes :=
  makeName s.path tm topic ++ makeName s.name tm topic

/--
What the templates put behind the directory that the path begins with.
-/
def tail (tm : Tm) (topic : Bytes) : Bytes :=
  expand (texts tm topic) (s.path.drop (rootPart s.path).length) ++ expand (texts tm topic) s.name

def TakesTopic : Prop :=
  topicMark <:+: s.path ∨ topicMark <:+: s.name

/--
The directory is `/`, written in whatever way.
-/
def RootIsTop : Prop :=
  IsAbsolute slash (findRoot s.path) ∧ ∀ component ∈ (findRoot s.path).splitOn slash, component = [] ∨ component = [dot]

variable {s} {sys : System} {topic full : Bytes}

theorem nul_not_mem_cstr (topic : Bytes) : nul ∉ cstr topic := by
  intro hmem
  simpa using List.mem_takeWhile_imp hmem

theorem openFile_eq (s : LogStore) (sys : System) (topic : Bytes) : s.openFile sys topic =
    if sys.makePath (makeName s.path (s.tm sys) (cstr topic)) then some (s.fullname (s.tm sys) (cstr topic)) else none := by
  have hpath := nul_not_mem_makeName (s.tm sys) s.nul_path (nul_not_mem_cstr topic)
  have hname := nul_not_mem_makeName (s.tm sys) s.nul_name (nul_not_mem_cstr topic)
  have hfull : nul ∉ s.fullname (s.tm sys) (cstr topic) := by
    unfold fullname
    rw [List.mem_append, not_or]
    exact ⟨hpath, hname⟩
  unfold openFile File.open_
  unfold tm fullname at *
  dsimp only
  rw [if_neg Bool.false_ne_true, if_neg Bool.false_ne_true, cstr_eq_self _ hpath, cstr_eq_self _ hfull]

theorem openFile_eq_some (h : s.openFile sys topic = some full) : full = s.fullname (s.tm sys) (cstr topic) := by
  rw [openFile_eq] at h
  split at h
  . exact (Option.some.inj h).symm
  . cases h

theorem fullname_eq (s : LogStore) (tm : Tm) (topic : Bytes)
    : s.fullname tm topic = rootPart s.path ++ s.tail tm topic := by
  obtain ⟨rest, hpath, hmake⟩ := expand_rootPart s.path tm topic
  have hdrop : s.path.drop (rootPart s.path).length = rest :=
    (congrArg (List.drop (rootPart s.path).length) hpath).trans List.drop_left
  unfold fullname tail
  rw [hmake, makeName_eq_expand s.name, hdrop, List.append_assoc]

theorem noParent_rootPart (h : NoParent slash dot s.path) : NoParent slash dot (rootPart s.path) := by
  obtain ⟨rest, hpath, -⟩ := expand_rootPart s.path ⟨0, 0, 0, 0, 0, 0⟩ []
  rw [hpath] at h
  exact ((noParent_append_iff (rootPart_nil_or s.path) rest).mp h).1

theorem inside_fullname_iff (h : NoParent slash dot s.path) (tm : Tm) (topic : Bytes)
    : Inside slash dot (findRoot s.path) (s.fullname tm topic) ↔
        StaysUnder slash dot (rootPart s.path) (s.tail tm topic) := by
  rw [inside_findRoot_iff, fullname_eq]
  exact inside_append_iff (rootPart_nil_or s.path) (noParent_rootPart h) _

-- the path has to begin with what stands in front of the first mark
theorem not_isAbsolute_of_rootPart (h : rootPart s.path = []) : ¬IsAbsolute slash s.path := by
  obtain ⟨-, -, hnot⟩ | ⟨-, hlast⟩ := rootPart_cases s.path
  . obtain ⟨rest, hpath, -, hstart⟩ := beforeMarks_spec s.path
    have hhead := head_eq_of_mark hstart
    intro habsolute
    rw [hpath] at habsolute
    cases hbefore : beforeMarks s.path with
    | nil =>
      rw [hbefore] at habsolute
      exact absurd (hhead slash habsolute) (by decide)
    | cons b before =>
      rw [hbefore] at habsolute hnot
      obtain rfl := Option.some.inj habsolute
      exact hnot List.mem_cons_self
  . rw [h] at hlast
    cases hlast

theorem inside_of_not_takesTopic (hpath : NoParent slash dot s.path) (hname : NoParent slash dot s.name)
    (h : ¬s.TakesTopic) (tm : Tm) (topic : Bytes) : Inside slash dot (findRoot s.path) (s.fullname tm topic) := by
  unfold TakesTopic at h
  rw [not_or] at h
  have hlast := getLast_stamp tm s.slash_path
  have hfull : s.fullname tm topic = stamp tm s.path ++ stamp tm s.name := by
    unfold fullname
    rw [makeName_of_no_topic h.1, makeName_of_no_topic h.2]
  have hparent : NoParent slash dot (s.fullname tm topic) := by
    rw [hfull, noParent_append_iff (.inr hlast)]
    exact ⟨noParent_stamp hpath tm, noParent_stamp hname tm⟩
  rw [fullname_eq, noParent_append_iff (rootPart_nil_or s.path)] at hparent
  rw [inside_fullname_iff hpath]
  unfold StaysUnder
  rw [ups_of_noParent hparent.2]
  refine ⟨?_, fun _ => Nat.zero_le _, List.nil_suffix⟩
  intro hnil habsolute
  have htail : s.tail tm topic = s.fullname tm topic := by
    rw [fullname_eq, hnil]
    rfl
  rw [htail, hfull] at habsolute
  obtain ⟨b, stamped, hstamp⟩ := List.exists_cons_of_ne_nil (List.ne_nil_of_mem (List.mem_of_getLast? hlast))
  rw [hstamp] at habsolute
  refine not_isAbsolute_of_rootPart hnil (isAbsolute_of_stamp tm ?_)
  rw [hstamp]
  exact habsolute

theorem rootIsTop_iff (hpath : NoParent slash dot s.path) : s.RootIsTop ↔
    IsAbsolute slash (rootPart s.path) ∧ (walk (moves slash dot (rootPart s.path))).names = [] := by
  unfold RootIsTop
  obtain ⟨hnil, hroot, -⟩ | ⟨hroot, -⟩ := rootPart_cases s.path
  . rw [hnil, hroot]
    exact iff_of_false (fun h => absurd h.1 (by decide)) (fun h => absurd h.1 (by decide))
  . rw [hroot, names_eq_nil_iff (noParent_rootPart hpath)]

theorem inside_of_rootIsTop (hpath : NoParent slash dot s.path) (h : s.RootIsTop) (tm : Tm) (topic : Bytes)
    : Inside slash dot (findRoot s.path) (s.fullname tm topic) := by
  obtain ⟨habsolute, hnames⟩ := (rootIsTop_iff hpath).mp h
  rw [inside_fullname_iff hpath]
  unfold StaysUnder
  rw [hnames]
  refine ⟨?_, fun hnot => absurd habsolute hnot, by rw [List.take_nil]; exact List.nil_suffix⟩
  intro hnil
  rw [hnil] at habsolute
  cases habsolute

/--
A topic that climbs far enough, where what stands in front of it goes down no further for a topic that climbs more.
-/
theorem exists_climb_not_inside (front : Bytes → Bytes) {base a b : Bytes} {bound : Nat}
    (hbase : NoParent slash dot base)
    (htop : ¬(IsAbsolute slash base ∧ (walk (moves slash dot base)).names = []))
    (hb : NoParent slash dot (a ++ topicMark ++ b))
    (hbound : ∀ n name, slash ∉ name → (moves slash dot (front (climb slash dot n name))).countP Move.isDown ≤ bound)
    : ∃ topic, nul ∉ topic ∧ ¬Inside slash dot base (front topic ++ topic ++ b) := by
  obtain ⟨after, back, hsplit⟩ := List.exists_cons_of_ne_nil (List.splitOn_ne_nil slash b)
  -- longer than any name in the directory
  let name : Bytes := List.replicate ((walk (moves slash dot base)).names.flatten.length + 1) 120
  have hname : ∀ c ∈ name, c = 120 := fun c => List.eq_of_mem_replicate
  have hslash : slash ∉ name := fun hmem => absurd (hname slash hmem) (by decide)
  have hnew : name ++ after ∉ (walk (moves slash dot base)).names := by
    intro hmem
    have hlen := (List.sublist_flatten_of_mem hmem).length_le
    rw [List.length_append, List.length_replicate] at hlen
    omega
  refine ⟨climb slash dot (bound + 1) name, ?_, ?_⟩
  . unfold climb
    rw [List.mem_cons, List.mem_append, List.mem_flatten, not_or, not_or]
    refine ⟨by decide, ?_, fun hmem => absurd (hname nul hmem) (by decide)⟩
    rintro ⟨component, hcomponent, hmem⟩
    rw [List.eq_of_mem_replicate hcomponent] at hmem
    revert hmem
    decide
  . exact not_inside_climb (by decide) hbase htop (Nat.lt_succ_of_le (hbound _ _ hslash)) hsplit
      (noParent_behind hb IsTemplateMark.topic.slash_not_mem hsplit) hslash List.mem_cons_self (by decide) hnew

theorem stamp_cases (tm : Tm) (pattern : Bytes)
    : (¬topicMark <:+: pattern ∧ ∀ topic, makeName pattern tm topic = stamp tm pattern) ∨
      ∃ u v, stamp tm pattern = u ++ topicMark ++ v ∧ ∀ topic, makeName pattern tm topic = u ++ topic ++ v := by
  rw [← topicMark_infix_stamp_iff tm]
  simp only [makeName_eq_stamp]
  exact replaceMark_cases .topic (stamp tm pattern)

theorem exists_not_inside (hpath : NoParent slash dot s.path) (hname : NoParent slash dot s.name)
    (htopic : s.TakesTopic) (htop : ¬s.RootIsTop) (tm : Tm)
    : ∃ topic, nul ∉ topic ∧ ¬Inside slash dot (findRoot s.path) (s.fullname tm topic) := by
  have hdot : dot ≠ slash := by decide
  have hbase := noParent_rootPart hpath
  rw [rootIsTop_iff hpath] at htop
  have hparent : NoParent slash dot (stamp tm s.path ++ stamp tm s.name) :=
    (noParent_append_iff (.inr (getLast_stamp tm s.slash_path)) _).mpr ⟨noParent_stamp hpath tm, noParent_stamp hname tm⟩
  simp only [inside_findRoot_iff]
  unfold fullname
  obtain ⟨hno, hkeep⟩ | ⟨u, v, hstamp, hput⟩ := stamp_cases tm s.name
  . obtain ⟨hno', -⟩ | ⟨u, v, hstamp, hput⟩ := stamp_cases tm s.path
    . exact absurd htopic (not_or.mpr ⟨hno', hno⟩)
    . rw [hstamp, List.append_assoc] at hparent
      obtain ⟨topic, hnul, hescape⟩ := exists_climb_not_inside (fun _ => u) hbase htop hparent
        fun _ _ _ => Nat.le_refl _
      refine ⟨topic, hnul, ?_⟩
      rw [hput, hkeep, List.append_assoc]
      exact hescape
  . rw [hstamp, ← List.append_assoc, ← List.append_assoc] at hparent
    have hbound : ∃ bound, ∀ n name, slash ∉ name →
        (moves slash dot (makeName s.path tm (climb slash dot n name) ++ u)).countP Move.isDown ≤ bound := by
      obtain ⟨-, hkeep⟩ | ⟨u', v', -, hput'⟩ := stamp_cases tm s.path
      . refine ⟨(moves slash dot (stamp tm s.path ++ u)).countP Move.isDown, fun n name _ => ?_⟩
        rw [hkeep]
      . refine ⟨(moves slash dot u').length + ((v' ++ u).splitOn slash).length, fun n name hslash => ?_⟩
        rw [hput', List.append_assoc]
        exact countP_moves_climb_le hdot u' n hslash
    obtain ⟨bound, hbound⟩ := hbound
    obtain ⟨topic, hnul, hescape⟩ := exists_climb_not_inside (fun topic => makeName s.path tm topic ++ u)
      hbase htop hparent hbound
    refine ⟨topic, hnul, ?_⟩
    rw [hput, ← List.append_assoc, ← List.append_assoc]
    exact hescape

/--
A topic stays under the directory exactly if what the templates make of it does. All topics do exactly if the templates
leave the topic out, or there is nothing to leave.
-/
theorem inside_iff (s : LogStore) (hpath : NoParent slash dot s.path) (hname : NoParent slash dot s.name)
    : (∀ sys topic full, s.openFile sys topic = some full →
          (Inside slash dot (findRoot s.path) full ↔
            StaysUnder slash dot (rootPart s.path) (s.tail (s.tm sys) (cstr topic)))) ∧
        ((∀ sys topic full, s.openFile sys topic = some full → Inside slash dot (findRoot s.path) full) ↔
          ¬s.TakesTopic ∨ s.RootIsTop) := by
  constructor
  . intro sys topic full h
    rw [openFile_eq_some h]
    exact inside_fullname_iff hpath _ _
  . constructor
    . intro hall
      by_contra hnot
      rw [not_or, not_not] at hnot
      let sys : System := ⟨fun _ => ⟨0, 0, 0, 0, 0, 0⟩, 0, 0, fun _ => true⟩
      obtain ⟨topic, hnul, hescape⟩ := exists_not_inside hpath hname hnot.1 hnot.2 (s.tm sys)
      refine hescape (hall sys topic _ ?_)
      rw [openFile_eq, if_pos rfl, cstr_eq_self topic hnul]
    . intro h sys topic full hopen
      rw [openFile_eq_some hopen]
      rcases h with h | h
      . exact inside_of_not_takesTopic hpath hname h _ _
      . exact inside_of_rootIsTop hpath h _ _

-- the templates `/log/` and `[topic]`
def plainLog : LogStore where
  path := [47, 108, 111, 103, 47]
  name := [91, 116, 111, 112, 105, 99, 93]
  rotateInterval := -1
  slash_path := rfl
  nul_path := by decide
  nul_name := by decide

theorem inside_iff_plainLog
    : (∀ sys topic full, plainLog.openFile sys topic = some full →
          (Inside slash dot (findRoot plainLog.path) full ↔
            StaysUnder slash dot (rootPart plainLog.path) (plainLog.tail (plainLog.tm sys) (cstr topic)))) ∧
        ((∀ sys topic full, plainLog.openFile sys topic = some full → Inside slash dot (findRoot plainLog.path) full) ↔
          ¬plainLog.TakesTopic ∨ plainLog.RootIsTop) :=
  inside_iff plainLog (by decide) (by decide)

-- the topic `../x`
theorem inside_fails_parent : ¬∀ s : LogStore, NoParent slash dot s.path → NoParent slash dot s.name →
    ∀ sys topic full, s.openFile sys topic = some full → Inside slash dot (findRoot s.path) full := by
  intro hall
  let sys : System := ⟨fun _ => ⟨0, 0, 0, 0, 0, 0⟩, 0, 0, fun _ => true⟩
  have hopen : plainLog.openFile sys [46, 46, 47, 120] = some [47, 108, 111, 103, 47, 46, 46, 47, 120] := rfl
  obtain ⟨-, -, hnames⟩ := hall plainLog (by decide) (by decide) sys _ _ hopen
  revert hnames
  decide

end LogStore
end Kids
