import Kids.Store.FileNameLemmas

/-!
The templates of file names as a whole: what `MakeName` makes of one, and which part of it `FindRoot` gives.
-/

namespace Kids

open Bytes Template

-- the position of a placeholder
def PlaceholderAt (pattern : Bytes) (i : Nat) : Prop :=
  ∃ mark, IsTemplateMark mark ∧ mark <+: pattern.drop i

theorem nodup_texts (tm : Tm) (topic : Bytes) : (texts tm topic).Nodup := by
  have hne : (dateMark ≠ timeMark ∧ dateMark ≠ topicMark) ∧ timeMark ≠ topicMark := by decide
  simp [texts, hne]

theorem makeName_eq_substitute (pattern : Bytes) (tm : Tm) (topic : Bytes)
    : makeName pattern tm topic = substitute (texts tm topic) pattern := by
  rw [makeName_eq_expand]
  exact expand_eq_substitute (marks_texts tm topic) (nodup_texts tm topic) pattern

theorem not_placeholderAt_of_lt (h : i < (beforeMarks pattern).length) : ¬PlaceholderAt pattern i := by
  rintro ⟨mark, hmark, hpre⟩
  obtain ⟨rest, hpattern, hnone, hstart⟩ := beforeMarks_spec pattern
  rw [hpattern, List.drop_append_of_le_length (Nat.le_of_lt h)] at hpre
  refine hmark.isMark.not_prefix_append ?_ ?_ (head_eq_of_mark hstart) hpre
  . intro hempty
    have := List.drop_eq_nil_iff.mp hempty
    omega
  . intro hocc
    exact hnone mark hmark (hocc.trans (List.drop_suffix _ _).isInfix)

theorem placeholderAt_length (pattern : Bytes)
    : (beforeMarks pattern).length = pattern.length ∨ PlaceholderAt pattern (beforeMarks pattern).length := by
  obtain ⟨rest, hpattern, -, rfl | ⟨mark, hmark, hpre⟩⟩ := beforeMarks_spec pattern
  . left
    rw [List.append_nil] at hpattern
    rw [← hpattern]
  . right
    have hdrop : ∀ u, pattern = u ++ rest → pattern.drop u.length = rest := by
      rintro u rfl
      exact List.drop_left
    refine ⟨mark, hmark, ?_⟩
    rw [hdrop _ hpattern]
    exact hpre

theorem beforeMarks_isPrefix (pattern : Bytes) : beforeMarks pattern <+: pattern := by
  obtain ⟨rest, hpattern, -, -⟩ := beforeMarks_spec pattern
  exact ⟨rest, hpattern.symm⟩

theorem findRoot_cases (pattern : Bytes)
    : (slash ∉ beforeMarks pattern ∧ findRoot pattern = [dot]) ∨
      ∃ u v, beforeMarks pattern = u ++ slash :: v ∧ slash ∉ v ∧ findRoot pattern = u ++ [slash] ∧
        findRoot pattern = rootPart pattern := by
  obtain ⟨-, hdot, hnot⟩ | ⟨hroot, hlast⟩ := rootPart_cases pattern
  . exact Or.inl ⟨hnot, hdot⟩
  . right
    obtain ⟨v, hsplit, hv, -⟩ := throughSlash_spec (beforeMarks pattern)
    obtain ⟨u, hu⟩ := List.getLast?_eq_some_iff.mp hlast
    refine ⟨u, v, ?_, hv, ?_, hroot⟩
    . rw [hsplit]
      change rootPart pattern ++ v = _
      rw [hu, List.append_assoc]
      rfl
    . rw [hroot, hu]

theorem getElem?_between {u v w : Bytes} (hv : slash ∉ v) {m : Nat} (hgt : u.length < m)
    (hlt : m < u.length + 1 + v.length)
    : (u ++ slash :: v ++ w)[m]? ≠ some slash := by
  obtain ⟨i, rfl⟩ : ∃ i, m = u.length + (i + 1) := ⟨m - u.length - 1, by omega⟩
  rw [List.append_assoc, List.getElem?_append_right (Nat.le_add_right _ _), Nat.add_sub_cancel_left, List.cons_append,
    List.getElem?_cons_succ, List.getElem?_append_left (by omega)]
  intro hslash
  exact hv (List.mem_of_getElem? hslash)

/--
`MakeName` puts the date, the time and the topic in the place of the first occurrences that the placeholders have in
the template itself, and `FindRoot` gives `.` or what the template has up to its last `/` in front of the first
placeholder, with which every name that is made of the template begins.
-/
theorem makeName_findRoot (pattern : Bytes)
    : (∀ tm topic, makeName pattern tm topic = substitute (texts tm topic) pattern) ∧
      ∃ k, k ≤ pattern.length ∧ (∀ i, i < k → ¬PlaceholderAt pattern i) ∧
        (k = pattern.length ∨ PlaceholderAt pattern k) ∧
        ((slash ∉ pattern.take k ∧ findRoot pattern = [dot]) ∨
          ∃ n, n < k ∧ pattern[n]? = some slash ∧ (∀ m, n < m → m < k → pattern[m]? ≠ some slash) ∧
            findRoot pattern = pattern.take (n + 1) ∧
            ∀ tm topic, findRoot pattern <+: makeName pattern tm topic) := by
  refine ⟨makeName_eq_substitute pattern, (beforeMarks pattern).length, ?_, ?_, placeholderAt_length pattern, ?_⟩
  . exact (beforeMarks_isPrefix pattern).length_le
  . intro i hi
    exact not_placeholderAt_of_lt hi
  . obtain ⟨rest, hrest⟩ := beforeMarks_isPrefix pattern
    obtain ⟨hnot, hdot⟩ | ⟨u, v, hbefore, hv, hroot, hpart⟩ := findRoot_cases pattern
    . left
      refine ⟨?_, hdot⟩
      rw [← List.prefix_iff_eq_take.mp (beforeMarks_isPrefix pattern)]
      exact hnot
    . right
      have hlength : (beforeMarks pattern).length = u.length + 1 + v.length := by
        rw [hbefore, List.length_append, List.length_cons]
        omega
      rw [hbefore] at hrest
      refine ⟨u.length, by omega, ?_, ?_, ?_, ?_⟩
      . rw [← hrest, List.append_assoc, List.getElem?_append_right (Nat.le_refl _), Nat.sub_self]
        rfl
      . intro m hgt hlt
        rw [← hrest]
        exact getElem?_between hv hgt (by omega)
      . rw [hroot, ← hrest, List.append_assoc, List.take_length_add_append]
        rfl
      . intro tm topic
        obtain ⟨after, -, hname⟩ := expand_rootPart pattern tm topic
        rw [hpart, hname]
        exact List.prefix_append _ _

end Kids
