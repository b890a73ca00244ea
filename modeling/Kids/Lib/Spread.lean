import Mathlib.Data.List.Perm.Subperm

/-!
Elements that are given to some of several lists: a mask says which of them get the next one.
-/

namespace Spread

def give (x : α) (p : List α) (takes : Bool) : List α :=
  if takes then p ++ [x] else p

variable {x : α} {l : List α} {parts : List (List α)} {mask : List Bool}

theorem sublist_give (x : α) (p : List α) (takes : Bool) : p.Sublist (give x p takes) := by
  unfold give
  split
  . exact List.sublist_append_left p [x]
  . exact List.Sublist.refl p

theorem give_sublist {p q : List α} (h : p.Sublist q) (himp : a = true → b = true) : (give x p a).Sublist (give x q b) := by
  cases ha : a with
  | false => exact h.trans (sublist_give x q b)
  | true =>
    rw [himp ha]
    exact h.append (List.Sublist.refl [x])

theorem sublist_any (h : ∀ p ∈ parts, p.Sublist l)
    : ∀ q ∈ List.zipWith (give x) parts mask, q.Sublist (give x l (mask.any id)) := by
  intro q hq
  rw [List.mem_iff_getElem] at hq
  obtain ⟨i, hi, rfl⟩ := hq
  rw [List.getElem_zipWith]
  apply give_sublist (h _ (List.getElem_mem _))
  intro htakes
  exact List.any_eq_true.mpr ⟨_, List.getElem_mem _, htakes⟩

-- one that gets an element when all of the parts do is inside all of them
theorem sublist_all (h : ∀ p ∈ parts, l.Sublist p)
    : ∀ q ∈ List.zipWith (give x) parts mask, (give x l (mask.all id)).Sublist q := by
  intro q hq
  rw [List.mem_iff_getElem] at hq
  obtain ⟨i, hi, rfl⟩ := hq
  rw [List.getElem_zipWith]
  apply give_sublist (h _ (List.getElem_mem _))
  intro htakes
  exact List.all_eq_true.mp htakes _ (List.getElem_mem _)

theorem perm_flatten (hlen : mask.length = parts.length)
    : (List.zipWith (give x) parts mask).flatten.Perm (parts.flatten ++ List.replicate (mask.count true) x) := by
  induction parts generalizing mask with
  | nil =>
    obtain rfl := List.length_eq_zero_iff.mp hlen
    exact List.Perm.refl []
  | cons p parts ih =>
    cases mask with
    | nil => cases hlen
    | cons b mask =>
      have hrest := ih (Nat.succ.inj hlen)
      rw [List.zipWith_cons_cons, List.flatten_cons, List.flatten_cons]
      cases b with
      | false =>
        rw [List.count_cons_of_ne (by decide), List.append_assoc]
        exact hrest.append_left p
      | true =>
        rw [List.count_cons_self, List.replicate_succ, List.append_assoc]
        apply ((hrest.append_left (p ++ [x]))).trans
        rw [List.append_assoc]
        apply List.Perm.append_left
        rw [List.singleton_append]
        exact List.perm_middle.symm

theorem subperm_any (h : l.Subperm parts.flatten) (hlen : mask.length = parts.length)
    : (give x l (mask.any id)).Subperm (List.zipWith (give x) parts mask).flatten := by
  apply List.Subperm.trans _ (perm_flatten hlen).symm.subperm
  unfold give
  split
  . next hany =>
    obtain ⟨b, hb, htakes⟩ := List.any_eq_true.mp hany
    obtain rfl : b = true := htakes
    have hpos := List.count_pos_iff.mpr hb
    apply ((List.subperm_append_right [x]).mpr h).trans
    apply List.Sublist.subperm
    apply List.Sublist.append_left
    rw [List.singleton_sublist, List.mem_replicate]
    exact ⟨by omega, rfl⟩
  . exact h.trans (List.sublist_append_left _ _).subperm

theorem perm_one (h : l.Perm parts.flatten) (hlen : mask.length = parts.length) (hone : mask.count true ≤ 1)
    : (give x l (mask.any id)).Perm (List.zipWith (give x) parts mask).flatten := by
  apply List.Perm.trans _ (perm_flatten hlen).symm
  unfold give
  split
  . next hany =>
    obtain ⟨b, hb, htakes⟩ := List.any_eq_true.mp hany
    obtain rfl : b = true := htakes
    have hpos := List.count_pos_iff.mpr hb
    obtain hcount : mask.count true = 1 := by omega
    rw [hcount]
    exact h.append_right [x]
  . next hnone =>
    have hcount : mask.count true = 0 := by
      rw [List.count_eq_zero]
      intro hmem
      exact hnone (List.any_eq_true.mpr ⟨true, hmem, rfl⟩)
    rw [hcount, List.replicate_zero, List.append_nil]
    exact h

end Spread
