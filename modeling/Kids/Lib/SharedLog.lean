import Mathlib.Data.List.Basic
import Mathlib.Logic.Function.Basic

/-!
A log that is appended to at the end, read by several readers at their own pace and discarded from the
front: the purpose of a shared queue with cursors and garbage collection, without its memory.
-/

/--
`items` is everything that was ever appended. Position `n` is behind the first `n` items; the reader `i`
is at position `pos i`, and every position before `base` is gone.
-/
structure SharedLog (ι α : Type) where
  items : List α
  base : Nat
  pos : ι → Nat
  base_le : ∀ i, base ≤ pos i
  pos_le : ∀ i, pos i ≤ items.length

namespace SharedLog

variable {ι α : Type}

def init : SharedLog ι α where
  items := []
  base := 0
  pos := fun _ => 0
  base_le := fun _ => Nat.le_refl _
  pos_le := fun _ => Nat.le_refl _

def append (log : SharedLog ι α) (x : α) : SharedLog ι α where
  items := log.items ++ [x]
  base := log.base
  pos := log.pos
  base_le := log.base_le
  pos_le i := by
    have := log.pos_le i
    simp only [List.length_append, List.length_singleton]
    omega

def advance [DecidableEq ι] (log : SharedLog ι α) (i : ι) (h : log.pos i < log.items.length)
    : SharedLog ι α where
  items := log.items
  base := log.base
  pos := Function.update log.pos i (log.pos i + 1)
  base_le j := by
    by_cases hj : j = i
    . subst hj
      have := log.base_le j
      simp only [Function.update_self]
      omega
    . simpa [hj] using log.base_le j
  pos_le j := by
    by_cases hj : j = i
    . subst hj
      simp only [Function.update_self]
      omega
    . simpa [hj] using log.pos_le j

def discard (log : SharedLog ι α) (h : ∀ i, log.base < log.pos i) : SharedLog ι α where
  items := log.items
  base := log.base + 1
  pos := log.pos
  base_le := h
  pos_le := log.pos_le

def read (log : SharedLog ι α) (i : ι) : List α :=
  log.items.take (log.pos i)

theorem read_isPrefix (log : SharedLog ι α) (i : ι) : log.read i <+: log.items :=
  List.take_prefix _ _

@[simp]
theorem read_append (log : SharedLog ι α) (x : α) (i : ι) : (log.append x).read i = log.read i := by
  simp only [read, append]
  exact List.take_append_of_le_length (log.pos_le i)

@[simp]
theorem read_discard (log : SharedLog ι α) (h) (i : ι) : (log.discard h).read i = log.read i := rfl

theorem read_advance [DecidableEq ι] (log : SharedLog ι α) (i : ι) (h)
    : (log.advance i h).read = Function.update log.read i (log.read i ++ log.items[log.pos i]?.toList) := by
  funext j
  by_cases hj : j = i
  . subst hj
    simp only [read, advance, Function.update_self, List.take_add_one]
  . simp only [read, advance, Function.update_of_ne hj]

end SharedLog
