import Mathlib.Data.List.Count
import Mathlib.Data.List.Nodup
import Mathlib.Logic.Function.Basic

/-!
Indexes that mirror which keys each holder has: a map from every key to its holders, and a list of pairs.
Both count a holder of a key once and nobody else.
-/

namespace Index

variable {ι κ : Type}

/--
`byKey` lists the holders of every key. A key without holders has no list.
-/
structure ByKey [BEq ι] [BEq κ] (keys : ι → List κ) (byKey : κ → Option (List ι)) : Prop where
  count_eq : ∀ k i, ((byKey k).getD []).count i = (keys i).count k
  ne_nil : ∀ k, byKey k ≠ some []
  nodup : ∀ i, (keys i).Nodup

structure Pairs [BEq ι] [BEq κ] (keys : ι → List κ) (pairs : List (κ × ι)) : Prop where
  count_eq : ∀ k i, pairs.count (k, i) = (keys i).count k
  nodup : ∀ i, (keys i).Nodup

theorem nodup_update_append [DecidableEq ι] {keys : ι → List κ} (h : ∀ i, (keys i).Nodup) (hk : k ∉ keys i) (j : ι)
    : (Function.update keys i (keys i ++ [k]) j).Nodup := by
  by_cases hj : j = i
  . subst hj
    rw [Function.update_self]
    apply List.Nodup.append (h j)
    . apply List.nodup_singleton
    . simpa using hk
  . rw [Function.update_of_ne hj]
    apply h

theorem nodup_update_erase [DecidableEq ι] [BEq κ] [LawfulBEq κ] {keys : ι → List κ} (h : ∀ i, (keys i).Nodup) (k : κ)
    (i j : ι)
    : (Function.update keys i ((keys i).erase k) j).Nodup := by
  by_cases hj : j = i
  . subst hj
    rw [Function.update_self]
    apply List.Nodup.erase
    apply h
  . rw [Function.update_of_ne hj]
    apply h

namespace ByKey

variable [BEq ι] [BEq κ] {keys : ι → List κ} {byKey : κ → Option (List ι)}

theorem empty : ByKey (fun _ : ι => ([] : List κ)) (fun _ => none) where
  count_eq _ _ := rfl
  ne_nil _ := by simp
  nodup _ := List.nodup_nil

variable [LawfulBEq ι] [LawfulBEq κ]

theorem mem_iff (h : ByKey keys byKey) (k : κ) (i : ι) : i ∈ (byKey k).getD [] ↔ k ∈ keys i := by
  rw [← List.count_pos_iff, h.count_eq, List.count_pos_iff]

theorem exists_of_mem (h : ByKey keys byKey) (hk : k ∈ keys i) : ∃ holders, byKey k = some holders := by
  have hmem := (h.mem_iff k i).mpr hk
  cases hholders : byKey k with
  | none => simp [hholders] at hmem
  | some holders => exact ⟨holders, rfl⟩

variable [DecidableEq ι] [DecidableEq κ]

theorem add (h : ByKey keys byKey) (hk : k ∉ keys i)
    : ByKey (Function.update keys i (keys i ++ [k]))
        (Function.update byKey k (some ((byKey k).getD [] ++ [i]))) := by
  constructor
  . intro l j
    by_cases hl : l = k
    . subst hl
      rw [Function.update_self, Option.getD_some, List.count_append, h.count_eq]
      by_cases hj : j = i
      . subst hj
        simp
      . simp [hj, Ne.symm hj]
    . rw [Function.update_of_ne hl, h.count_eq]
      by_cases hj : j = i
      . subst hj
        simp [Ne.symm hl]
      . simp [hj]
  . intro l
    by_cases hl : l = k
    . subst hl
      simp
    . rw [Function.update_of_ne hl]
      apply h.ne_nil
  . apply nodup_update_append h.nodup hk

theorem remove (h : ByKey keys byKey) (hk : k ∈ keys i) (hholders : byKey k = some holders)
    : ByKey (Function.update keys i ((keys i).erase k))
        (Function.update byKey k
          (if holders.filter (. ≠ i) = [] then none else some (holders.filter (. ≠ i)))) := by
  constructor
  . intro l j
    by_cases hl : l = k
    . subst hl
      have hold := h.count_eq l j
      rw [hholders, Option.getD_some] at hold
      rw [Function.update_self]
      have hgetD : ∀ xs : List ι, (if xs = [] then none else some xs).getD [] = xs := by
        intro xs
        split
        . next hnil => simp [hnil]
        . rfl
      rw [hgetD]
      by_cases hj : j = i
      . subst hj
        rw [Function.update_self, List.count_erase_self, List.count_eq_one_of_mem (h.nodup j) hk]
        simp [List.count_eq_zero]
      . rw [Function.update_of_ne hj, List.count_filter (by simpa using hj)]
        exact hold
    . rw [Function.update_of_ne hl, h.count_eq]
      by_cases hj : j = i
      . subst hj
        rw [Function.update_self, List.count_erase_of_ne hl]
      . rw [Function.update_of_ne hj]
  . intro l
    by_cases hl : l = k
    . subst hl
      rw [Function.update_self]
      split
      . simp
      . next hne => simpa using hne
    . rw [Function.update_of_ne hl]
      apply h.ne_nil
  . apply nodup_update_erase h.nodup

end ByKey

namespace Pairs

variable [BEq ι] [BEq κ] {keys : ι → List κ} {pairs : List (κ × ι)}

theorem empty : Pairs (fun _ : ι => ([] : List κ)) [] where
  count_eq _ _ := rfl
  nodup _ := List.nodup_nil

variable [LawfulBEq ι] [LawfulBEq κ] [DecidableEq ι]

theorem add (h : Pairs keys pairs) (hk : k ∉ keys i)
    : Pairs (Function.update keys i (keys i ++ [k])) (pairs ++ [(k, i)]) := by
  constructor
  . intro l j
    rw [List.count_append, h.count_eq]
    by_cases hj : j = i
    . subst hj
      have hpair : ((k, j) == (l, j)) = (k == l) := by
        change (k == l && j == j) = (k == l)
        rw [beq_self_eq_true, Bool.and_true]
      simp only [Function.update_self, List.count_append, List.count_singleton, hpair]
    . simp [hj, Ne.symm hj]
  . apply nodup_update_append h.nodup hk

theorem remove (h : Pairs keys pairs) (k : κ) (i : ι)
    : Pairs (Function.update keys i ((keys i).erase k)) (pairs.erase (k, i)) := by
  constructor
  . intro l j
    by_cases heq : (l, j) = (k, i)
    . cases heq
      rw [List.count_erase_self, h.count_eq, Function.update_self, List.count_erase_self]
    . rw [List.count_erase_of_ne heq, h.count_eq]
      by_cases hj : j = i
      . subst hj
        have hl : l ≠ k := by
          rintro rfl
          exact heq rfl
        rw [Function.update_self, List.count_erase_of_ne hl]
      . rw [Function.update_of_ne hj]
  . apply nodup_update_erase h.nodup

end Pairs
end Index
