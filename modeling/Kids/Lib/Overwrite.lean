import Mathlib.Data.List.Perm.Basic

/-!
A cell that some entries of a list are written over, one after the other.
-/

namespace Overwrite

variable {α β : Type} (w : α → Option β)

-- what the cell holds in the end
def last (z : β) (l : List α) : β :=
  l.foldl (fun z a => (w a).getD z) z

/--
Whoever writes, it is the same value.
-/
def Agree (l : List α) : Prop :=
  ∀ a ∈ l, ∀ b ∈ l, ∀ v u, w a = some v → w b = some u → v = u

variable {w}

@[simp]
theorem last_nil (z : β) : last w z [] = z := rfl

@[simp]
theorem last_cons (z : β) (a : α) (l : List α) : last w z (a :: l) = last w ((w a).getD z) l := rfl

theorem last_of_none {z : β} (h : ∀ a ∈ l, w a = none) : last w z l = z := by
  induction l with
  | nil => rfl
  | cons a l ih =>
    rw [List.forall_mem_cons] at h
    rw [last_cons, h.1, Option.getD_none]
    apply ih h.2

theorem Agree.perm {l l' : List α} (h : Agree w l) (hperm : l.Perm l') : Agree w l' := by
  intro a ha b hb
  apply h a (hperm.mem_iff.mpr ha) b (hperm.mem_iff.mpr hb)

end Overwrite
