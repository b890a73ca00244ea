import Kids.Lib.Template
import Kids.Store.FileName
import Mathlib.Data.List.Nodup

/-!
What `MakeName` and `FindRoot` do with a template.
-/

namespace Kids

open Bytes Template LexicalPath

section

variable {mark pattern text s : Bytes} {tm : Tm} {b : UInt8}

theorem isDigit_or_sign_of_mem_padded (width : Nat) (n : Int) : ∀ b ∈ padded width n, isDigit b = true ∨ b = 45 := by
  intro b hb
  unfold padded at hb
  rw [List.mem_append, List.mem_append] at hb
  rcases hb with (hb | hb) | hb
  . split at hb
    . exact .inr (List.mem_singleton.mp hb)
    . cases hb
  . rw [List.eq_of_mem_replicate hb]
    exact .inl rfl
  . exact .inl (isDigit_of_mem_decimal _ b hb)

-- what dates and times are made of
structure Plain (text : Bytes) : Prop where
  sign : 45 ∈ text
  digits : ∀ b ∈ text, isDigit b = true ∨ b = 45

theorem plain_join (width width' width'' : Nat) (n n' n'' : Int)
    : Plain (padded width n ++ 45 :: padded width' n' ++ 45 :: padded width'' n'') where
  sign := List.mem_append_left _ (List.mem_append_right _ List.mem_cons_self)
  digits := by
    intro b hb
    rw [List.mem_append, List.mem_append, List.mem_cons, List.mem_cons] at hb
    rcases hb with (hb | rfl | hb) | rfl | hb
    . exact isDigit_or_sign_of_mem_padded _ _ b hb
    . exact .inr rfl
    . exact isDigit_or_sign_of_mem_padded _ _ b hb
    . exact .inr rfl
    . exact isDigit_or_sign_of_mem_padded _ _ b hb

theorem plain_date (tm : Tm) : Plain tm.date := by
  apply plain_join

theorem plain_time (tm : Tm) : Plain tm.time := by
  apply plain_join

theorem Plain.ne_nil (h : Plain text) : text ≠ [] :=
  List.ne_nil_of_mem h.sign

theorem Plain.not_mem (h : Plain text) (hdigit : isDigit b = false) (hsign : b ≠ 45) : b ∉ text := by
  intro hb
  rcases h.digits b hb with hb | hb
  . rw [hdigit] at hb
    cases hb
  . exact hsign hb

theorem Plain.slash_not_mem (h : Plain text) : slash ∉ text :=
  h.not_mem rfl (by decide)

theorem Plain.nul_not_mem (h : Plain text) : nul ∉ text :=
  h.not_mem rfl (by decide)

theorem dateMark_eq : dateMark = [91, 100, 97, 116, 101, 93] := rfl

theorem timeMark_eq : timeMark = [91, 116, 105, 109, 101, 93] := rfl

theorem topicMark_eq : topicMark = [91, 116, 111, 112, 105, 99, 93] := rfl

inductive IsTemplateMark : Bytes → Prop
  | date : IsTemplateMark dateMark
  | time : IsTemplateMark timeMark
  | topic : IsTemplateMark topicMark

theorem IsTemplateMark.isMark (h : IsTemplateMark mark) : IsMark 91 mark := by
  cases h with
  | date => exact ⟨_, dateMark_eq, by decide⟩
  | time => exact ⟨_, timeMark_eq, by decide⟩
  | topic => exact ⟨_, topicMark_eq, by decide⟩

theorem IsTemplateMark.eq_of_starts {mark' : Bytes} (h : IsTemplateMark mark) (h' : IsTemplateMark mark')
    (hpre : mark <+: mark') : mark = mark' := by
  revert hpre
  cases h <;> cases h' <;> decide

theorem IsTemplateMark.not_plain (h : IsTemplateMark mark) : ∀ b ∈ mark, isDigit b = false ∧ b ≠ 45 := by
  cases h <;> decide +kernel

theorem IsTemplateMark.slash_not_mem (h : IsTemplateMark mark) : slash ∉ mark := by
  cases h <;> decide

theorem IsTemplateMark.nul_not_mem (h : IsTemplateMark mark) : nul ∉ mark := by
  cases h <;> decide

theorem Plain.fresh (h : Plain text) (hmark : IsTemplateMark mark) : ∀ c ∈ text, c ∉ mark := by
  intro c hc hmem
  have hnot := hmark.not_plain c hmem
  exact h.not_mem hnot.1 hnot.2 hc

theorem find_cases (hmark : mark ≠ []) (s : Bytes)
    : (find mark s = none ∧ ¬mark <:+: s) ∨
      ∃ u v, s = u ++ mark ++ v ∧ find mark s = some u.length ∧ ¬mark <:+: u := by
  induction s with
  | nil => exact .inl ⟨if_neg hmark, fun hocc => hmark (List.infix_nil.mp hocc)⟩
  | cons b s ih =>
    unfold find
    by_cases hpre : mark <+: b :: s
    . obtain ⟨v, hv⟩ := hpre
      exact .inr ⟨[], v, hv.symm, if_pos ⟨v, hv⟩, fun hocc => hmark (List.infix_nil.mp hocc)⟩
    . rw [if_neg hpre]
      obtain ⟨hfind, hnone⟩ | ⟨u, v, rfl, hfind, hnone⟩ := ih
      . refine .inl ⟨by rw [hfind]; rfl, fun hocc => ?_⟩
        exact (List.infix_cons_iff.mp hocc).elim hpre hnone
      . refine .inr ⟨b :: u, v, rfl, by rw [hfind]; rfl, fun hocc => ?_⟩
        rcases List.infix_cons_iff.mp hocc with hle | hocc
        . refine hpre (hle.trans ?_)
          rw [List.append_assoc]
          exact List.prefix_append (b :: u) _
        . exact hnone hocc

theorem replaceMark_eq (hmark : mark ≠ []) (text s : Bytes) : replaceMark mark text s = replaceFirst mark text s := by
  induction s with
  | nil =>
    unfold replaceMark find
    rw [if_neg hmark]
    rfl
  | cons b s ih =>
    unfold replaceMark find replaceFirst
    by_cases hpre : mark <+: b :: s
    . rw [if_pos hpre, if_pos hpre]
      dsimp only
      unfold replace
      rw [Nat.zero_add]
      rfl
    . rw [if_neg hpre, if_neg hpre, ← ih]
      unfold replaceMark
      cases find mark s with
      | none => rfl
      | some pos =>
        dsimp only [Option.map_some]
        unfold replace
        rw [List.take_succ_cons, Nat.add_right_comm, List.drop_succ_cons]
        rfl

def texts (tm : Tm) (topic : Bytes) : List (Bytes × Bytes) :=
  [(dateMark, tm.date), (timeMark, tm.time), (topicMark, topic)]

theorem isTemplateMark_of_mem_texts (topic : Bytes) : ∀ t ∈ texts tm topic, IsTemplateMark t.1 := by
  intro t ht
  unfold texts at ht
  rw [List.mem_cons, List.mem_cons, List.mem_singleton] at ht
  rcases ht with rfl | rfl | rfl
  . exact .date
  . exact .time
  . exact .topic

theorem marks_texts (tm : Tm) (topic : Bytes) : Marks 91 (texts tm topic) where
  isMark := fun t ht => (isTemplateMark_of_mem_texts topic t ht).isMark
  eq_of_starts := by
    intro t ht t' ht' hpre
    have hnodup : ((texts tm topic).map Prod.fst).Nodup := by
      change [dateMark, timeMark, topicMark].Nodup
      decide
    apply List.inj_on_of_nodup_map hnodup ht ht'
    exact (isTemplateMark_of_mem_texts topic t ht).eq_of_starts (isTemplateMark_of_mem_texts topic t' ht') hpre

theorem makeName_eq_expand (pattern : Bytes) (tm : Tm) (topic : Bytes)
    : makeName pattern tm topic = expand (texts tm topic) pattern := by
  have hmarks := marks_texts tm topic
  have hdate : (dateMark, tm.date) ∉ [(timeMark, tm.time), (topicMark, topic)] := by
    simp only [List.mem_cons, List.not_mem_nil, or_false, Prod.mk.injEq, not_or, not_and_or]
    exact ⟨.inl (by decide), .inl (by decide)⟩
  have htime : (timeMark, tm.time) ∉ [(topicMark, topic)] := by
    simp only [List.mem_cons, List.not_mem_nil, or_false, Prod.mk.injEq, not_and_or]
    exact .inl (by decide)
  have hfresh : ∀ text, Plain text → ∀ t ∈ texts tm topic, text ≠ [] ∧ ∀ c ∈ text, c ∉ t.1 :=
    fun text htext t ht => ⟨htext.ne_nil, htext.fresh (isTemplateMark_of_mem_texts topic t ht)⟩
  unfold texts at hmarks hfresh ⊢
  rw [expand_cons hmarks hdate fun t ht => hfresh _ (plain_date tm) t (List.mem_cons_of_mem _ ht)]
  rw [expand_cons hmarks.tail htime fun t ht =>
    hfresh _ (plain_time tm) t (List.mem_cons_of_mem _ (List.mem_cons_of_mem _ ht))]
  rw [expand_cons hmarks.tail.tail List.not_mem_nil nofun, expand_nil]
  unfold makeName
  dsimp only
  rw [replaceMark_eq IsTemplateMark.date.isMark.ne_nil, replaceMark_eq IsTemplateMark.time.isMark.ne_nil,
    replaceMark_eq IsTemplateMark.topic.isMark.ne_nil]

theorem cutAt_spec (hmark : IsTemplateMark mark) (s : Bytes)
    : ∃ rest, s = cutAt mark s ++ rest ∧ ¬mark <:+: cutAt mark s ∧ (rest = [] ∨ mark <+: rest) := by
  unfold cutAt
  obtain ⟨hfind, hnone⟩ | ⟨u, v, hs, hfind, hnone⟩ := find_cases hmark.isMark.ne_nil s
  . rw [hfind]
    exact ⟨[], (List.append_nil s).symm, hnone, .inl rfl⟩
  . have htake : s.take u.length = u := by
      rw [hs, List.append_assoc, List.take_left]
    rw [hfind]
    dsimp only
    rw [htake]
    exact ⟨mark ++ v, by rw [hs, List.append_assoc], hnone, .inr (List.prefix_append mark v)⟩

-- the part of the template in front of the first mark
def beforeMarks (pattern : Bytes) : Bytes :=
  cutAt topicMark (cutAt timeMark (cutAt dateMark pattern))

theorem beforeMarks_spec (pattern : Bytes) : ∃ rest, pattern = beforeMarks pattern ++ rest ∧
    (∀ mark, IsTemplateMark mark → ¬mark <:+: beforeMarks pattern) ∧
    (rest = [] ∨ ∃ mark, IsTemplateMark mark ∧ mark <+: rest) := by
  obtain ⟨rest1, h1, hdate, hstart1⟩ := cutAt_spec .date pattern
  obtain ⟨rest2, h2, htime, hstart2⟩ := cutAt_spec .time (cutAt dateMark pattern)
  obtain ⟨rest3, h3, htopic, hstart3⟩ := cutAt_spec .topic (cutAt timeMark (cutAt dateMark pattern))
  have hle3 : beforeMarks pattern <+: cutAt timeMark (cutAt dateMark pattern) := ⟨rest3, h3.symm⟩
  have hle2 : cutAt timeMark (cutAt dateMark pattern) <+: cutAt dateMark pattern := ⟨rest2, h2.symm⟩
  refine ⟨rest3 ++ (rest2 ++ rest1), ?_, ?_, ?_⟩
  . unfold beforeMarks
    rw [← List.append_assoc, ← List.append_assoc, ← h3, ← h2, ← h1]
  . intro mark hmark hocc
    cases hmark with
    | date => exact hdate (hocc.trans (hle3.trans hle2).isInfix)
    | time => exact htime (hocc.trans hle3.isInfix)
    | topic => exact htopic hocc
  . rcases hstart3 with rfl | hstart3
    . rcases hstart2 with rfl | hstart2
      . exact hstart1.imp_right fun hstart => ⟨_, .date, hstart⟩
      . exact .inr ⟨_, .time, hstart2.trans (List.prefix_append rest2 rest1)⟩
    . exact .inr ⟨_, .topic, hstart3.trans (List.prefix_append rest3 _)⟩

theorem head_eq_of_mark {rest : Bytes} (h : rest = [] ∨ ∃ mark, IsTemplateMark mark ∧ mark <+: rest)
    : ∀ c ∈ rest.head?, c = 91 := by
  rcases h with rfl | ⟨mark, hmark, v, rfl⟩
  . nofun
  . obtain ⟨w, hw, -⟩ := hmark.isMark
    rw [hw]
    rintro c ⟨⟩
    rfl

theorem throughSlash_spec (s : Bytes)
    : ∃ rest, s = (throughSlash s).getD [] ++ rest ∧ slash ∉ rest ∧
        ((throughSlash s = none ∧ slash ∉ s) ∨ ∃ root, throughSlash s = some root ∧ root.getLast? = some slash) := by
  have hsplit := List.takeWhile_append_dropWhile (p := fun b => decide (b ≠ slash)) (l := s.reverse)
  have hfront : slash ∉ s.reverse.takeWhile (· ≠ slash) := by
    intro hmem
    simpa using List.mem_takeWhile_imp hmem
  unfold throughSlash
  cases hdrop : s.reverse.dropWhile (· ≠ slash) with
  | nil =>
    have hnot : slash ∉ s := by
      rw [hdrop, List.append_nil] at hsplit
      rwa [hsplit, List.mem_reverse] at hfront
    exact ⟨s, rfl, hnot, .inl ⟨rfl, hnot⟩⟩
  | cons b rest =>
    have hb : b = slash := by
      have hhead := List.head?_dropWhile_not (fun b => decide (b ≠ slash)) s.reverse
      rw [hdrop] at hhead
      simpa using hhead
    refine ⟨(s.reverse.takeWhile (· ≠ slash)).reverse, ?_, by rwa [List.mem_reverse], .inr ⟨_, rfl, ?_⟩⟩
    . rw [Option.getD_some, ← List.reverse_append, ← hdrop, hsplit, List.reverse_reverse]
    . rw [List.reverse_cons, List.getLast?_concat, hb]

/--
The directory that the template begins with. It is empty where `FindRoot` gives `.` for it.
-/
def rootPart (pattern : Bytes) : Bytes :=
  (throughSlash (beforeMarks pattern)).getD []

theorem rootPart_cases (pattern : Bytes)
    : (rootPart pattern = [] ∧ findRoot pattern = [dot] ∧ slash ∉ beforeMarks pattern) ∨
      (findRoot pattern = rootPart pattern ∧ (rootPart pattern).getLast? = some slash) := by
  unfold rootPart findRoot
  obtain ⟨-, -, -, ⟨hnone, hnot⟩ | ⟨root, hroot, hlast⟩⟩ := throughSlash_spec (beforeMarks pattern)
  . refine .inl ⟨by rw [hnone]; rfl, ?_, hnot⟩
    unfold beforeMarks at hnone
    rw [hnone]
    rfl
  . refine .inr ⟨?_, by rw [hroot]; exact hlast⟩
    rw [hroot, Option.getD_some]
    unfold beforeMarks at hroot
    rw [hroot]

theorem rootPart_nil_or (pattern : Bytes) : rootPart pattern = [] ∨ (rootPart pattern).getLast? = some slash :=
  (rootPart_cases pattern).imp (·.1) (·.2)

theorem expand_rootPart (pattern : Bytes) (tm : Tm) (topic : Bytes)
    : ∃ rest, pattern = rootPart pattern ++ rest ∧
        makeName pattern tm topic = rootPart pattern ++ expand (texts tm topic) rest := by
  obtain ⟨after, hpattern, hmarks, hstart⟩ := beforeMarks_spec pattern
  have hhead := head_eq_of_mark hstart
  obtain ⟨rest, hbefore, -, -⟩ := throughSlash_spec (beforeMarks pattern)
  have hismark : ∀ t ∈ texts tm topic, IsMark 91 t.1 := (marks_texts tm topic).isMark
  have hnone : ∀ t ∈ texts tm topic, ¬t.1 <:+: beforeMarks pattern :=
    fun t ht => hmarks t.1 (isTemplateMark_of_mem_texts topic t ht)
  refine ⟨rest ++ after, ?_, ?_⟩
  . unfold rootPart
    rw [← List.append_assoc, ← hbefore, ← hpattern]
  . rw [makeName_eq_expand]
    have hsuffix : rest <:+ beforeMarks pattern := ⟨_, hbefore.symm⟩
    rw [expand_append_of_free hismark (fun t ht hocc => hnone t ht (hocc.trans hsuffix.isInfix)) hhead]
    conv => lhs; rw [hpattern, expand_append_of_free hismark hnone hhead, hbefore]
    exact List.append_assoc _ _ _

end

end Kids
