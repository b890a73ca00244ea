import Mathlib.Data.List.Basic
import Mathlib.Data.List.Infix

/-!
Texts with marks in them that other texts are put in the place of: one mark after the other, or all at once.
-/

namespace Template

variable {χ : Type} [DecidableEq χ]

def replaceFirst (mark text : List χ) : List χ → List χ
  | [] => []
  | c :: s => if mark <+: c :: s then text ++ (c :: s).drop mark.length else c :: replaceFirst mark text s

/--
The first occurrence of every mark in the template is replaced by the mark's text, in one pass. What has been put in is
not looked at again.
-/
def expand (texts : List (List χ × List χ)) : List χ → List χ
  | [] => []
  | c :: s =>
    match texts.find? fun t => t.1 <+: c :: s with
    | some t => t.2 ++ expand (texts.erase t) (s.drop (t.1.length - 1))
    | none => c :: expand texts s
termination_by s => s.length
decreasing_by
  . rw [List.length_drop, List.length_cons]
    omega
  . exact Nat.lt_succ_self _

def IsFirst (mark s : List χ) (i : Nat) : Prop :=
  mark <+: s.drop i ∧ ∀ j < i, ¬mark <+: s.drop j

instance (mark s : List χ) (i : Nat) : Decidable (IsFirst mark s i) :=
  inferInstanceAs (Decidable (_ ∧ _))

/--
What becomes of the template `s` from the position `i` on, where `rest` is, if the first occurrences that the marks
have in `s` are all replaced at once.
-/
def substituteFrom (texts : List (List χ × List χ)) (s : List χ) (i : Nat) : List χ → List χ
  | [] => []
  | c :: rest =>
    match texts.find? fun t => IsFirst t.1 s i with
    | some t => t.2 ++ substituteFrom texts s (i + t.1.length) (rest.drop (t.1.length - 1))
    | none => c :: substituteFrom texts s (i + 1) rest
termination_by rest => rest.length
decreasing_by
  . rw [List.length_drop, List.length_cons]
    omega
  . exact Nat.lt_succ_self _

def substitute (texts : List (List χ × List χ)) (s : List χ) : List χ :=
  substituteFrom texts s 0 s

-- a mark begins with a character that it does not have again
def IsMark (opening : χ) (mark : List χ) : Prop :=
  ∃ rest, mark = opening :: rest ∧ opening ∉ rest

structure Marks (opening : χ) (texts : List (List χ × List χ)) : Prop where
  isMark : ∀ t ∈ texts, IsMark opening t.1
  eq_of_starts : ∀ t ∈ texts, ∀ t' ∈ texts, t.1 <+: t'.1 → t = t'

section

variable {opening : χ} {mark mark' text s : List χ} {texts : List (List χ × List χ)}

omit [DecidableEq χ] in
theorem IsMark.ne_nil (h : IsMark opening mark) : mark ≠ [] := by
  obtain ⟨rest, rfl, -⟩ := h
  exact List.cons_ne_nil _ _

omit [DecidableEq χ] in
theorem IsMark.not_prefix_of_ne (h : IsMark opening mark) {c : χ} (hc : c ≠ opening) (s : List χ)
    : ¬mark <+: c :: s := by
  obtain ⟨rest, rfl, -⟩ := h
  rw [List.cons_prefix_cons]
  exact fun hand => hc hand.1.symm

theorem replaceFirst_append (h : IsMark opening mark) (text : List χ) {u : List χ} (hu : opening ∉ u) (s : List χ)
    : replaceFirst mark text (u ++ s) = u ++ replaceFirst mark text s := by
  induction u with
  | nil => rfl
  | cons c u ih =>
    rw [List.mem_cons, not_or] at hu
    rw [List.cons_append, replaceFirst, if_neg (h.not_prefix_of_ne (Ne.symm hu.1) _), ih hu.2]
    rfl

theorem replaceFirst_append_mark (h : IsMark opening mark) (h' : IsMark opening mark') (text : List χ)
    (hnot : ¬mark <+: mark' ++ s) : replaceFirst mark text (mark' ++ s) = mark' ++ replaceFirst mark text s := by
  obtain ⟨rest, rfl, hrest⟩ := h'
  rw [List.cons_append] at hnot ⊢
  rw [replaceFirst, if_neg hnot, replaceFirst_append h text hrest]
  rfl

theorem replaceFirst_cases (hmark : mark ≠ []) (s : List χ)
    : (¬mark <:+: s ∧ ∀ text, replaceFirst mark text s = s) ∨
      ∃ u v, s = u ++ mark ++ v ∧ ∀ text, replaceFirst mark text s = u ++ text ++ v := by
  induction s with
  | nil => exact .inl ⟨fun hocc => hmark (List.infix_nil.mp hocc), fun _ => rfl⟩
  | cons c s ih =>
    by_cases hpre : mark <+: c :: s
    . obtain ⟨v, hv⟩ := hpre
      refine .inr ⟨[], v, hv.symm, fun text => ?_⟩
      rw [replaceFirst, if_pos ⟨v, hv⟩, ← hv, List.drop_left]
      rfl
    . obtain ⟨hnone, hkeep⟩ | ⟨u, v, rfl, hput⟩ := ih
      . refine .inl ⟨fun hocc => ?_, fun text => ?_⟩
        . exact (List.infix_cons_iff.mp hocc).elim hpre hnone
        . rw [replaceFirst, if_neg hpre, hkeep]
      . refine .inr ⟨c :: u, v, rfl, fun text => ?_⟩
        rw [replaceFirst, if_neg hpre, hput]
        rfl

theorem expand_nil (s : List χ) : expand [] s = s := by
  induction s with
  | nil => rw [expand]
  | cons c s ih =>
    rw [expand]
    exact congrArg (c :: ·) ih

omit [DecidableEq χ] in
theorem Marks.eq_of_prefix (h : Marks opening texts) {t t' : List χ × List χ} (ht : t ∈ texts) (ht' : t' ∈ texts)
    (hpre : t.1 <+: s) (hpre' : t'.1 <+: s) : t = t' := by
  rcases List.prefix_or_prefix_of_prefix hpre hpre' with hle | hle
  . exact h.eq_of_starts t ht t' ht' hle
  . exact (h.eq_of_starts t' ht' t ht hle).symm

omit [DecidableEq χ] in
theorem find?_eq_some_of_unique {p : List χ × List χ → Bool} {t : List χ × List χ} (ht : t ∈ texts) (hp : p t = true)
    (hunique : ∀ t' ∈ texts, p t' = true → t' = t) : texts.find? p = some t := by
  cases hfound : texts.find? p with
  | none => exact absurd hp (List.find?_eq_none.mp hfound t ht)
  | some t' => rw [hunique t' (List.mem_of_find?_eq_some hfound) (List.find?_some hfound)]

theorem expand_mark (h : Marks opening texts) {t : List χ × List χ} (ht : t ∈ texts) (s : List χ)
    : expand texts (t.1 ++ s) = t.2 ++ expand (texts.erase t) s := by
  obtain ⟨rest, hrest, -⟩ := h.isMark t ht
  have hfind : texts.find? (fun t' => t'.1 <+: t.1 ++ s) = some t := by
    apply find?_eq_some_of_unique ht
    . rw [decide_eq_true_eq]
      exact List.prefix_append t.1 s
    . intro t' ht' hpre
      rw [decide_eq_true_eq] at hpre
      exact h.eq_of_prefix ht' ht hpre (List.prefix_append t.1 s)
  rw [hrest, List.cons_append] at hfind ⊢
  rw [expand, hfind]
  dsimp only
  rw [hrest, List.length_cons, Nat.add_sub_cancel, List.drop_left]

theorem expand_cons_of_none {c : χ} (h : ∀ t ∈ texts, ¬t.1 <+: c :: s)
    : expand texts (c :: s) = c :: expand texts s := by
  have hfind : texts.find? (fun t => t.1 <+: c :: s) = none :=
    List.find?_eq_none.mpr fun t ht => by simpa using h t ht
  rw [expand, hfind]

-- where no mark can begin, nothing is replaced
theorem expand_append (h : ∀ t ∈ texts, IsMark opening t.1) {u : List χ} (hu : opening ∉ u) (s : List χ)
    : expand texts (u ++ s) = u ++ expand texts s := by
  induction u with
  | nil => rfl
  | cons c u ih =>
    rw [List.mem_cons, not_or] at hu
    rw [List.cons_append, expand_cons_of_none fun t ht => (h t ht).not_prefix_of_ne (Ne.symm hu.1) _, ih hu.2]
    rfl

omit [DecidableEq χ] in
/--
A part that holds no mark, and that a mark or nothing follows: no mark begins there and reaches into what follows.
-/
theorem IsMark.not_prefix_append (h : IsMark opening mark) {u : List χ} (hne : u ≠ []) (hu : ¬mark <:+: u)
    (hs : ∀ c ∈ s.head?, c = opening) : ¬mark <+: u ++ s := by
  obtain ⟨c, u, rfl⟩ := List.exists_cons_of_ne_nil hne
  intro hpre
  obtain ⟨rest, rfl, hopening⟩ := h
  rw [List.cons_append, List.cons_prefix_cons] at hpre
  obtain ⟨rfl, hpre⟩ := hpre
  rcases List.prefix_or_prefix_of_prefix hpre (List.prefix_append u s) with hle | ⟨beyond, rfl⟩
  . exact hu (List.cons_prefix_cons.mpr ⟨rfl, hle⟩).isInfix
  . rw [List.prefix_append_right_inj] at hpre
    cases beyond with
    | nil => exact hu (by rw [List.append_nil])
    | cons c' beyond =>
      obtain ⟨rest', rfl⟩ := hpre
      obtain rfl := hs c' rfl
      exact hopening (List.mem_append_right _ List.mem_cons_self)

theorem expand_append_of_free (h : ∀ t ∈ texts, IsMark opening t.1) {u : List χ}
    (hu : ∀ t ∈ texts, ¬t.1 <:+: u) (hs : ∀ c ∈ s.head?, c = opening)
    : expand texts (u ++ s) = u ++ expand texts s := by
  induction u with
  | nil => rfl
  | cons c u ih =>
    have hnone : ∀ t ∈ texts, ¬t.1 <+: c :: (u ++ s) :=
      fun t ht => (h t ht).not_prefix_append (List.cons_ne_nil c u) (hu t ht) hs
    rw [List.cons_append, expand_cons_of_none hnone, ih fun t ht hocc => hu t ht (List.infix_cons hocc)]
    rfl

-- what is put in makes no mark with what stands in front of it
theorem not_prefix_replaceFirst (hmark : mark ≠ []) (htext : text ≠ []) (hfresh : ∀ c ∈ text, c ∉ mark') {c : χ}
    (h : ¬mark' <+: c :: s) : ¬mark' <+: c :: replaceFirst mark text s := by
  obtain ⟨-, hkeep⟩ | ⟨u, v, rfl, hput⟩ := replaceFirst_cases hmark s
  . rwa [hkeep]
  . obtain ⟨c', text, rfl⟩ := List.exists_cons_of_ne_nil htext
    rw [hput]
    intro hpre
    have hsplit : c :: (u ++ c' :: text ++ v) = (c :: u) ++ (c' :: (text ++ v)) := by
      rw [List.append_assoc]
      rfl
    rw [hsplit] at hpre
    rcases List.prefix_or_prefix_of_prefix hpre (List.prefix_append (c :: u) _) with hle | ⟨beyond, rfl⟩
    . refine h (hle.trans ?_)
      rw [List.append_assoc]
      exact List.prefix_append (c :: u) _
    . rw [List.prefix_append_right_inj] at hpre
      cases beyond with
      | nil =>
        refine h ?_
        rw [List.append_nil, List.append_assoc]
        exact List.prefix_append (c :: u) _
      | cons b beyond =>
        obtain ⟨rfl, -⟩ := List.cons_prefix_cons.mp hpre
        exact hfresh b List.mem_cons_self (List.mem_append_right _ List.mem_cons_self)

theorem Marks.erase (h : Marks opening texts) (t : List χ × List χ) : Marks opening (texts.erase t) where
  isMark := fun t' ht' => h.isMark t' (List.mem_of_mem_erase ht')
  eq_of_starts := fun t' ht' t'' ht'' => h.eq_of_starts t' (List.mem_of_mem_erase ht') t'' (List.mem_of_mem_erase ht'')

omit [DecidableEq χ] in
theorem Marks.tail {t : List χ × List χ} (h : Marks opening (t :: texts)) : Marks opening texts where
  isMark := fun t' ht' => h.isMark t' (List.mem_cons_of_mem _ ht')
  eq_of_starts := fun t' ht' t'' ht'' =>
    h.eq_of_starts t' (List.mem_cons_of_mem _ ht') t'' (List.mem_cons_of_mem _ ht'')

theorem expand_cons (h : Marks opening ((mark, text) :: texts)) (hnew : (mark, text) ∉ texts)
    (hfresh : ∀ t ∈ texts, text ≠ [] ∧ ∀ c ∈ text, c ∉ t.1) (s : List χ)
    : expand ((mark, text) :: texts) s = expand texts (replaceFirst mark text s) := by
  have hmark := h.isMark _ List.mem_cons_self
  generalize hlen : s.length = len
  induction len using Nat.strong_induction_on generalizing s texts with
  | _ len ih =>
    cases s with
    | nil => rw [replaceFirst, expand, expand]
    | cons c s =>
      by_cases hpre : mark <+: c :: s
      . obtain ⟨rest, hrest⟩ := hpre
        have hput := expand_mark h List.mem_cons_self rest
        rw [List.erase_cons_head] at hput
        rw [replaceFirst, if_pos ⟨rest, hrest⟩, ← hrest, List.drop_left, hput]
        cases texts with
        | nil => rw [expand_nil, expand_nil]
        | cons t texts =>
          obtain ⟨rest', hrest', -⟩ := h.isMark t (List.mem_cons_of_mem _ List.mem_cons_self)
          refine (expand_append h.tail.isMark ?_ rest).symm
          intro hopening
          refine (hfresh t List.mem_cons_self).2 opening hopening ?_
          rw [hrest']
          exact List.mem_cons_self
      . by_cases hsome : ∃ t ∈ texts, t.1 <+: c :: s
        . obtain ⟨t, ht, rest, hrest⟩ := hsome
          have hne : (mark, text) ≠ t := by
            rintro rfl
            exact hnew ht
          obtain ⟨rest', hrest', hopening⟩ := h.isMark t (List.mem_cons_of_mem _ ht)
          have hless : rest.length < len := by
            rw [← hlen, ← hrest, hrest', List.length_append, List.length_cons]
            omega
          have herase : ((mark, text) :: texts).erase t = (mark, text) :: texts.erase t :=
            List.erase_cons_tail (by simpa using hne)
          have hmarks : Marks opening ((mark, text) :: texts.erase t) := herase ▸ h.erase t
          have hrec := ih rest.length hless hmarks (fun hmem => hnew (List.mem_of_mem_erase hmem))
            (fun t' ht' => hfresh t' (List.mem_of_mem_erase ht')) rest rfl
          rw [← hrest] at hpre ⊢
          rw [expand_mark h (List.mem_cons_of_mem _ ht), herase, hrec,
            replaceFirst_append_mark hmark (h.isMark t (List.mem_cons_of_mem _ ht)) text hpre,
            expand_mark h.tail ht]
        . have hnone : ∀ t ∈ texts, ¬t.1 <+: c :: s := fun t ht hpre => hsome ⟨t, ht, hpre⟩
          have hless : s.length < len := by
            rw [← hlen]
            exact Nat.lt_succ_self _
          rw [expand_cons_of_none (List.forall_mem_cons.mpr ⟨hpre, hnone⟩), replaceFirst, if_neg hpre,
            ih s.length hless h hnew hfresh s rfl]
          refine (expand_cons_of_none fun t ht => ?_).symm
          exact not_prefix_replaceFirst hmark.ne_nil (hfresh t ht).1 (hfresh t ht).2 (hnone t ht)

omit [DecidableEq χ] in
-- no mark begins inside another one
theorem IsMark.not_prefix_drop (h : IsMark opening mark) (h' : IsMark opening mark') {k : Nat} (hpos : 0 < k)
    (hk : k < mark.length) (s : List χ) : ¬mark' <+: (mark ++ s).drop k := by
  obtain ⟨rest, rfl, hopening⟩ := h
  rw [List.length_cons] at hk
  have hlt : k - 1 < rest.length := by omega
  have hdrop : ((opening :: rest) ++ s).drop k = rest[k - 1] :: (rest.drop k ++ s) := by
    obtain ⟨k, rfl⟩ : ∃ j, k = j + 1 := ⟨k - 1, by omega⟩
    rw [List.cons_append, List.drop_succ_cons, List.drop_append_of_le_length (by omega),
      List.drop_eq_getElem_cons (by omega)]
    rfl
  rw [hdrop]
  apply h'.not_prefix_of_ne
  rintro heq
  exact hopening (heq ▸ List.getElem_mem hlt)

/--
The marks that are left at a position are those that have not come up before it.
-/
def LeftAt (texts : List (List χ × List χ)) (s : List χ) (i : Nat) (left : List (List χ × List χ)) : Prop :=
  ∀ t, t ∈ left ↔ t ∈ texts ∧ ∀ j < i, ¬t.1 <+: s.drop j

section

variable {left : List (List χ × List χ)} {t : List χ × List χ} {i : Nat}

omit [DecidableEq χ] in
theorem LeftAt.marks (h : LeftAt texts s i left) (hmarks : Marks opening texts) : Marks opening left where
  isMark := fun t ht => hmarks.isMark t ((h t).mp ht).1
  eq_of_starts := fun t ht t' ht' => hmarks.eq_of_starts t ((h t).mp ht).1 t' ((h t').mp ht').1

theorem LeftAt.find_eq_some (h : LeftAt texts s i left) (hmarks : Marks opening texts) (ht : t ∈ left)
    (hpre : t.1 <+: s.drop i) : texts.find? (fun t => IsFirst t.1 s i) = some t := by
  obtain ⟨hmem, hbefore⟩ := (h t).mp ht
  apply find?_eq_some_of_unique hmem
  . rw [decide_eq_true_eq]
    exact ⟨hpre, hbefore⟩
  . intro t' ht' hfirst
    rw [decide_eq_true_eq] at hfirst
    exact hmarks.eq_of_prefix ht' hmem hfirst.1 hpre

theorem LeftAt.find_eq_none (h : LeftAt texts s i left) (hnone : ∀ t ∈ left, ¬t.1 <+: s.drop i)
    : texts.find? (fun t => IsFirst t.1 s i) = none := by
  rw [List.find?_eq_none]
  intro t ht hfirst
  rw [decide_eq_true_eq] at hfirst
  exact hnone t ((h t).mpr ⟨ht, hfirst.2⟩) hfirst.1

-- past a mark, which no other mark begins inside of
theorem LeftAt.erase (h : LeftAt texts s i left) (hmarks : Marks opening texts) (hnodup : left.Nodup) (ht : t ∈ left)
    (hpre : t.1 <+: s.drop i) : LeftAt texts s (i + t.1.length) (left.erase t) := by
  obtain ⟨hmem, -⟩ := (h t).mp ht
  have hpos : 0 < t.1.length := List.length_pos_of_ne_nil (hmarks.isMark t hmem).ne_nil
  intro t'
  rw [hnodup.mem_erase_iff, h]
  constructor
  . rintro ⟨hne, ht', hbefore⟩
    refine ⟨ht', fun j hj hpre' => ?_⟩
    rcases Nat.lt_trichotomy j i with hlt | rfl | hgt
    . exact hbefore j hlt hpre'
    . exact hne (hmarks.eq_of_prefix ht' hmem hpre' hpre)
    . obtain ⟨after, hafter⟩ := hpre
      have hinside := (hmarks.isMark t hmem).not_prefix_drop (hmarks.isMark t' ht') (k := j - i) (by omega) (by omega)
        after
      rw [hafter, List.drop_drop, Nat.add_sub_cancel' (Nat.le_of_lt hgt)] at hinside
      exact hinside hpre'
  . rintro ⟨ht', hbefore⟩
    refine ⟨?_, ht', fun j hj => hbefore j (by omega)⟩
    rintro rfl
    exact hbefore i (by omega) hpre

omit [DecidableEq χ] in
theorem LeftAt.succ (h : LeftAt texts s i left) (hnone : ∀ t ∈ left, ¬t.1 <+: s.drop i)
    : LeftAt texts s (i + 1) left := by
  intro t
  rw [h]
  constructor
  . rintro ⟨ht, hbefore⟩
    refine ⟨ht, fun j hj => ?_⟩
    rcases Nat.lt_or_eq_of_le (Nat.le_of_lt_succ hj) with hlt | rfl
    . exact hbefore j hlt
    . exact hnone t ((h t).mpr ⟨ht, hbefore⟩)
  . rintro ⟨ht, hbefore⟩
    exact ⟨ht, fun j hj => hbefore j (Nat.lt_succ_of_lt hj)⟩

theorem expand_eq_substituteFrom (h : Marks opening texts) (hnodup : left.Nodup) {rest : List χ}
    (hrest : s.drop i = rest)
    (hleft : LeftAt texts s i left) : expand left rest = substituteFrom texts s i rest := by
  generalize hlen : rest.length = len
  induction len using Nat.strong_induction_on generalizing rest left i with
  | _ len ih =>
    cases rest with
    | nil => rw [expand, substituteFrom]
    | cons c rest =>
      by_cases hsome : ∃ t ∈ left, t.1 <+: c :: rest
      . obtain ⟨t, ht, after, hafter⟩ := hsome
        have hpos : 0 < t.1.length := List.length_pos_of_ne_nil ((hleft.marks h).isMark t ht).ne_nil
        have hpre : t.1 <+: s.drop i := by
          rw [hrest, ← hafter]
          exact List.prefix_append t.1 after
        have hdrop : rest.drop (t.1.length - 1) = after := by
          rw [← List.drop_succ_cons (a := c), Nat.sub_add_cancel hpos, ← hafter, List.drop_left]
        rw [substituteFrom, hleft.find_eq_some h ht hpre]
        dsimp only
        rw [hdrop, ← hafter, expand_mark (hleft.marks h) ht]
        congr 1
        apply ih after.length _ (hnodup.erase t) _ (hleft.erase h hnodup ht hpre) rfl
        . rw [← hlen, ← hafter, List.length_append]
          omega
        . rw [← List.drop_drop, hrest, ← hafter, List.drop_left]
      . have hnone : ∀ t ∈ left, ¬t.1 <+: c :: rest := fun t ht hpre => hsome ⟨t, ht, hpre⟩
        have hnone' : ∀ t ∈ left, ¬t.1 <+: s.drop i := by
          rw [hrest]
          exact hnone
        rw [expand_cons_of_none hnone, substituteFrom, hleft.find_eq_none hnone']
        dsimp only
        congr 1
        apply ih rest.length _ hnodup _ (hleft.succ hnone') rfl
        . rw [← hlen]
          exact Nat.lt_succ_self _
        . rw [← List.drop_drop, hrest]
          rfl

end

theorem expand_eq_substitute (h : Marks opening texts) (hnodup : texts.Nodup) (s : List χ)
    : expand texts s = substitute texts s := by
  refine expand_eq_substituteFrom h hnodup List.drop_zero ?_
  intro t
  simp

omit [DecidableEq χ] in
theorem infix_of_infix_append (h : IsMark opening mark) {u : List χ} (hu : opening ∉ u) (hocc : mark <:+: u ++ s)
    : mark <:+: s := by
  induction u with
  | nil => exact hocc
  | cons c u ih =>
    rw [List.mem_cons, not_or] at hu
    exact ih hu.2 ((List.infix_cons_iff.mp hocc).resolve_left (h.not_prefix_of_ne (Ne.symm hu.1) _))

omit [DecidableEq χ] in
theorem infix_append_cases (h : IsMark opening mark) {c : χ} {k u v : List χ} (hreach : c ∉ mark.tail)
    (hpre : ¬mark <+: c :: k ++ v) (hk : opening ∉ k) (hocc : mark <:+: u ++ c :: k ++ v)
    : mark <:+: u ∨ mark <:+: v := by
  induction u with
  | nil => exact .inr (infix_of_infix_append h hk ((List.infix_cons_iff.mp hocc).resolve_left hpre))
  | cons d u ih =>
    rcases List.infix_cons_iff.mp hocc with hpre | hocc
    . have hsplit : (d :: u) ++ (c :: k ++ v) = d :: ((u ++ c :: k) ++ v) := by
        rw [List.append_assoc]
        rfl
      rw [List.append_eq, List.append_eq, ← hsplit] at hpre
      rcases List.prefix_or_prefix_of_prefix hpre (List.prefix_append (d :: u) _) with hle | ⟨beyond, rfl⟩
      . exact .inl hle.isInfix
      . rw [List.prefix_append_right_inj] at hpre
        cases beyond with
        | nil => exact .inl (by rw [List.append_nil])
        | cons b beyond =>
          obtain ⟨rfl, -⟩ := List.cons_prefix_cons.mp hpre
          exact absurd (List.mem_append_right _ List.mem_cons_self) hreach
    . exact (ih hocc).imp_left List.infix_cons

theorem infix_replaceFirst_iff (h : IsMark opening mark) (h' : IsMark opening mark') (hne : ¬mark <+: mark')
    (hne' : ¬mark' <+: mark) (htext : text ≠ []) (hfresh : ∀ c ∈ text, c ∉ mark') (s : List χ)
    : mark' <:+: replaceFirst mark text s ↔ mark' <:+: s := by
  have hopening : opening ∈ mark' := by
    obtain ⟨rest, rfl, -⟩ := h'
    exact List.mem_cons_self
  obtain ⟨-, hkeep⟩ | ⟨u, v, rfl, hput⟩ := replaceFirst_cases h.ne_nil s
  . rw [hkeep]
  . obtain ⟨c, k, rfl⟩ := List.exists_cons_of_ne_nil htext
    have hside : ∀ k : List χ, mark' <:+: u ∨ mark' <:+: v → mark' <:+: u ++ k ++ v := by
      rintro k (hu | hv)
      . rw [List.append_assoc]
        exact hu.trans (List.prefix_append u _).isInfix
      . exact hv.trans (List.suffix_append _ v).isInfix
    rw [hput]
    constructor
    . intro hocc
      refine hside mark (infix_append_cases h' ?_ ?_ ?_ hocc)
      . exact fun hmem => hfresh c List.mem_cons_self (List.mem_of_mem_tail hmem)
      . refine h'.not_prefix_of_ne ?_ _
        rintro rfl
        exact hfresh c List.mem_cons_self hopening
      . exact fun hmem => hfresh opening (List.mem_cons_of_mem _ hmem) hopening
    . intro hocc
      obtain ⟨rest, rfl, hrest⟩ := h
      obtain ⟨rest', rfl, hrest'⟩ := h'
      refine hside (c :: k) (infix_append_cases ⟨rest', rfl, hrest'⟩ hrest' ?_ hrest hocc)
      intro hpre
      rcases List.prefix_or_prefix_of_prefix hpre (List.prefix_append _ v) with hle | hle
      . exact hne' hle
      . exact hne hle

end

end Template
