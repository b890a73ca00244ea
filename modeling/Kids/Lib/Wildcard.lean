import Mathlib.Data.List.Basic
import Mathlib.Data.List.Infix
import Mathlib.Data.List.Forall2

/-!
Words over any alphabet against a sequence of steps, each of which takes one letter of a set or any word. What
is left of a word can be asked for as well, so that the same walk tells whether a word or one of its prefixes is
taken.
-/

namespace Wildcard

inductive Step (α : Type)
  | any
  | one (mem : α → Bool)

variable {α : Type}

/--
The words that the steps take.
-/
inductive Takes : List (Step α) → List α → Prop
  | nil : Takes [] []
  | any {steps : List (Step α)} {w : List α} (u : List α) : Takes steps w → Takes (.any :: steps) (u ++ w)
  | one {steps : List (Step α)} {mem : α → Bool} {a : α} {w : List α}
    : mem a = true → Takes steps w → Takes (.one mem :: steps) (a :: w)

/--
A walk over the word. `rest` is asked of what is left of it when there is no step left.
-/
def walk (rest : List α → Bool) : List (Step α) → List α → Bool
  | [], w => rest w
  | .any :: steps, w => w.tails.any (walk rest steps)
  | .one _ :: _, [] => false
  | .one mem :: steps, a :: w => mem a && walk rest steps w

variable {rest : List α → Bool} {steps : List (Step α)} {w : List α}

@[simp]
theorem walk_nil : walk rest [] w = rest w := by
  unfold walk
  rfl

@[simp]
theorem walk_one_nil {mem : α → Bool} : walk rest (.one mem :: steps) [] = false := by
  unfold walk
  rfl

@[simp]
theorem walk_one_cons {mem : α → Bool} {a : α}
    : walk rest (.one mem :: steps) (a :: w) = (mem a && walk rest steps w) := by
  rw [walk]

theorem walk_any : walk rest (.any :: steps) w = w.tails.any (walk rest steps) := by
  rw [walk]

theorem walk_any_nil : walk rest (.any :: steps) [] = walk rest steps [] := by
  rw [walk_any]
  simp

-- the word under `any` is empty or has a letter
theorem walk_any_cons {a : α}
    : walk rest (.any :: steps) (a :: w) = (walk rest steps (a :: w) || walk rest (.any :: steps) w) := by
  rw [walk_any, walk_any, List.tails_cons, List.any_cons]

-- one `any` does what two do
theorem walk_any_any : walk rest (.any :: .any :: steps) w = walk rest (.any :: steps) w := by
  induction w with
  | nil => rw [walk_any_nil]
  | cons a w ih => rw [walk_any_cons, ih, walk_any_cons, Bool.or_assoc, Bool.or_self]

theorem walk_iff : walk rest steps w = true ↔ ∃ u v, w = u ++ v ∧ Takes steps u ∧ rest v = true := by
  induction steps generalizing w with
  | nil =>
    rw [walk_nil]
    constructor
    . exact fun h => ⟨[], w, rfl, .nil, h⟩
    . rintro ⟨u, v, rfl, htakes, hrest⟩
      cases htakes
      exact hrest
  | cons step steps ih =>
    cases step with
    | any =>
      rw [walk_any, List.any_eq_true]
      constructor
      . rintro ⟨t, ht, hwalk⟩
        obtain ⟨u, v, rfl, htakes, hrest⟩ := ih.mp hwalk
        obtain ⟨front, rfl⟩ := (List.mem_tails _ _).mp ht
        exact ⟨front ++ u, v, (List.append_assoc _ _ _).symm, .any front htakes, hrest⟩
      . rintro ⟨u, v, rfl, htakes, hrest⟩
        cases htakes with
        | any front htakes =>
          refine ⟨_, ?_, ih.mpr ⟨_, v, rfl, htakes, hrest⟩⟩
          rw [List.mem_tails, List.append_assoc]
          exact List.suffix_append _ _
    | one mem =>
      cases w with
      | nil =>
        rw [walk_one_nil]
        constructor
        . exact fun h => nomatch h
        . rintro ⟨u, v, hw, htakes, -⟩
          cases htakes
          cases hw
      | cons a w =>
        rw [walk_one_cons, Bool.and_eq_true, ih]
        constructor
        . rintro ⟨hmem, u, v, rfl, htakes, hrest⟩
          exact ⟨a :: u, v, rfl, .one hmem htakes, hrest⟩
        . rintro ⟨u, v, hw, htakes, hrest⟩
          cases htakes with
          | one hmem htakes =>
            cases hw
            exact ⟨hmem, _, v, rfl, htakes, hrest⟩

-- nothing is to be left
theorem walk_isEmpty_iff : walk List.isEmpty steps w = true ↔ Takes steps w := by
  rw [walk_iff]
  constructor
  . rintro ⟨u, v, rfl, htakes, hrest⟩
    rw [List.isEmpty_iff] at hrest
    rw [hrest, List.append_nil]
    exact htakes
  . exact fun h => ⟨w, [], (List.append_nil w).symm, h, rfl⟩

/--
The sets of the steps that take one letter.
-/
def ones : List (Step α) → List (α → Bool)
  | [] => []
  | .any :: steps => ones steps
  | .one mem :: steps => mem :: ones steps

theorem length_ones_le (h : Takes steps w) : (ones steps).length ≤ w.length := by
  induction h with
  | nil => exact Nat.le_refl _
  | any u _ ih =>
    rw [List.length_append]
    exact Nat.le_add_left_of_le ih
  | one _ _ ih => exact Nat.succ_le_succ ih

theorem takes_of_ones (h : List.Forall₂ (fun mem a => mem a = true) (ones steps) w) : Takes steps w := by
  induction steps generalizing w with
  | nil =>
    cases h
    exact .nil
  | cons step steps ih =>
    cases step with
    | any => exact .any [] (ih h)
    | one mem =>
      cases h with
      | cons hmem h => exact .one hmem (ih h)

-- in a word that is as short as it can be, every letter is taken by a step of its own
theorem ones_of_takes (h : Takes steps w) (hlen : w.length ≤ (ones steps).length)
    : List.Forall₂ (fun mem a => mem a = true) (ones steps) w := by
  induction h with
  | nil => exact .nil
  | @any steps w u h ih =>
    have hle := length_ones_le h
    rw [List.length_append] at hlen
    have hnil : u = [] := List.eq_nil_of_length_eq_zero (by change _ ≤ (ones steps).length at hlen; omega)
    rw [hnil, List.nil_append]
    rw [hnil, List.length_nil, Nat.zero_add] at hlen
    exact ih hlen
  | one hmem _ ih => exact .cons hmem (ih (Nat.le_of_succ_le_succ hlen))

-- letters that no set tells apart may stand for each other
theorem takes_of_forall₂ {R : α → α → Prop} {w' : List α} (h : Takes steps w)
    (hmem : ∀ mem ∈ ones steps, ∀ a b, R a b → mem a = true → mem b = true) (hword : List.Forall₂ R w w')
    : Takes steps w' := by
  induction h generalizing w' with
  | nil =>
    cases hword
    exact .nil
  | any u _ ih =>
    rw [← List.take_append_drop u.length w']
    refine .any _ (ih hmem ?_)
    have hdrop := List.forall₂_drop u.length hword
    rwa [List.drop_left] at hdrop
  | one ha _ ih =>
    cases hword with
    | cons hab hword =>
      refine .one (hmem _ List.mem_cons_self _ _ hab ha) (ih ?_ hword)
      exact fun mem h => hmem mem (List.mem_cons_of_mem _ h)

theorem mem_of_takes {mem : α → Bool} (h : Takes steps w) (hmem : mem ∈ ones steps) : ∃ a ∈ w, mem a = true := by
  induction h with
  | nil => cases hmem
  | any u _ ih =>
    obtain ⟨a, ha, htrue⟩ := ih hmem
    exact ⟨a, List.mem_append_right _ ha, htrue⟩
  | @one _ _ a _ ha _ ih =>
    rcases List.mem_cons.mp hmem with rfl | hmem
    . exact ⟨a, List.mem_cons_self, ha⟩
    . obtain ⟨b, hb, htrue⟩ := ih hmem
      exact ⟨b, List.mem_cons_of_mem _ hb, htrue⟩

/--
Where one set tells two letters apart, two words of those letters are told apart.
-/
theorem exists_told_apart {R : α → α → Prop} {mem : α → Bool} {a b : α} (P : α → Prop) (hrefl : ∀ c, R c c)
    (hall : ∀ mem ∈ ones steps, ∃ c, P c ∧ mem c = true) (hmem : mem ∈ ones steps) (hab : R a b) (ha : P a)
    (htrue : mem a = true) (hfalse : mem b = false)
    : ∃ w w', w ≠ [] ∧ List.Forall₂ R w w' ∧ (∀ c ∈ w, P c) ∧ Takes steps w ∧ ¬Takes steps w' := by
  have hwords : ∀ mems : List (α → Bool), (∀ mem ∈ mems, ∃ c, P c ∧ mem c = true) →
      ∃ w, List.Forall₂ (fun mem a => mem a = true) mems w ∧ ∀ c ∈ w, P c := by
    intro mems hall
    induction mems with
    | nil => exact ⟨[], .nil, nofun⟩
    | cons mem mems ih =>
      obtain ⟨c, hc, hctrue⟩ := hall mem List.mem_cons_self
      obtain ⟨w, hw, hP⟩ := ih fun mem h => hall mem (List.mem_cons_of_mem _ h)
      exact ⟨c :: w, .cons hctrue hw, List.forall_mem_cons.mpr ⟨hc, hP⟩⟩
  obtain ⟨front, back, hones⟩ := List.append_of_mem hmem
  obtain ⟨u, hu, hPu⟩ := hwords front fun mem h => hall mem (by rw [hones]; exact List.mem_append_left _ h)
  obtain ⟨v, hv, hPv⟩ := hwords back fun mem h =>
    hall mem (by rw [hones]; exact List.mem_append_right _ (List.mem_cons_of_mem _ h))
  refine ⟨u ++ a :: v, u ++ b :: v, by simp, ?_, ?_, ?_, ?_⟩
  . exact List.rel_append (List.forall₂_same.mpr fun c _ => hrefl c)
      (.cons hab (List.forall₂_same.mpr fun c _ => hrefl c))
  . exact List.forall_mem_append.mpr ⟨hPu, List.forall_mem_cons.mpr ⟨ha, hPv⟩⟩
  . apply takes_of_ones
    rw [hones]
    exact List.rel_append hu (.cons htrue hv)
  . intro htakes
    have hshort : (u ++ b :: v).length ≤ (ones steps).length := by
      rw [hones, List.length_append, List.length_append, List.length_cons, List.length_cons, hu.length_eq, hv.length_eq]
    have hword := ones_of_takes htakes hshort
    have hdrop := List.forall₂_drop u.length hword
    rw [hones, ← hu.length_eq, List.drop_left, hu.length_eq, List.drop_left] at hdrop
    cases hdrop with
    | cons hbtrue _ =>
      rw [hfalse] at hbtrue
      cases hbtrue

end Wildcard
