import Kids.MessageQueue.Basic
import Kids.Lib.SharedLog
import Mathlib.Algebra.BigOperators.Group.List.Basic
import Mathlib.Data.List.Nodup

/-!
The queue in memory represents a `SharedLog`: the addresses of the items, in the order they were pushed,
from the first one that is not freed. Position 0 is the item that `MQOpen` made, position `k + 1` the
item of the message `k`.
-/

namespace Kids

namespace Gc

def positions : Gc → List Addr
  | .reading positions => positions
  | .freeing positions _ _ _ => positions
  | _ => []

def count : Gc → Nat
  | .freeing _ _ count _ => count
  | .unlinked count _ => count
  | _ => 0

def memoryFreed : Gc → Nat
  | .freeing _ _ _ memoryFreed => memoryFreed
  | .unlinked _ memoryFreed => memoryFreed
  | _ => 0

end Gc

namespace MessageQueue

variable {W : Nat}

abbrev Log (W : Nat) := SharedLog (Fin (W + 1)) Message

def itemValue (items : List Message) (k : Nat) : Option Message :=
  match k with
  | 0 => none
  | k + 1 => items[k]?

def usage (items : List Message) (base : Nat) : Nat :=
  ((items.drop (base - 1)).map Message.memory).sum

structure Repr (q : MessageQueue W) (log : Log W) (addrs : List Addr) : Prop where
  length_eq : addrs.length = log.items.length + 1
  nodup : (addrs.drop log.base).Nodup
  heap_eq : ∀ k a, log.base ≤ k → addrs[k]? = some a →
    q.heap a = some ⟨itemValue log.items k, addrs[k + 1]?⟩
  mem_of_heap : ∀ a, q.heap a ≠ none → a ∈ addrs.drop log.base
  tail_eq : addrs[log.items.length]? = some q.tail
  cursor_eq : ∀ i, addrs[log.pos i]? = some (q.cursor i)
  pushed_eq : q.pushed = log.items
  results_eq : q.results = log.read

/--
The positions collected so far: each of them belongs to an item that is not freed and that its consumer
has not passed without being noticed, it may only have moved on since.
-/
def Snapshot (log : Log W) (addrs positions : List Addr) : Prop :=
  ∀ (j : Fin (W + 1)) a, positions[j.val]? = some a →
    ∃ k, addrs[k]? = some a ∧ log.base ≤ k ∧ k ≤ log.pos j

def oldest (q : MessageQueue W) : Addr :=
  match q.gc with
  | .freeing _ p _ _ => p
  | _ => q.head

structure GcOk (q : MessageQueue W) (log : Log W) (addrs : List Addr) : Prop where
  oldest_eq : addrs[log.base]? = some q.oldest
  size_eq : q.size = log.items.length - log.base + q.gc.count
  memoryUsage_eq : q.memoryUsage = usage log.items log.base + q.gc.memoryFreed
  snapshot : Snapshot log addrs q.gc.positions
  length_le : q.gc.positions.length ≤ W + 1
  length_eq : ∀ positions p count memoryFreed, q.gc = .freeing positions p count memoryFreed →
    positions.length = W + 1

theorem getElem?_append_of_some {l : List α} {k : Nat} (h : l[k]? = some a) (l' : List α)
    : (l ++ l')[k]? = some a := by
  obtain ⟨hlt, -⟩ := List.getElem?_eq_some_iff.mp h
  rw [List.getElem?_append_left hlt]
  exact h

theorem itemValue_append (items : List Message) (m : Message) (h : k ≤ items.length)
    : itemValue (items ++ [m]) k = itemValue items k := by
  cases k with
  | zero => rfl
  | succ k => simp only [itemValue, List.getElem?_append_left h]

theorem usage_append (items : List Message) (m : Message) (h : base ≤ items.length)
    : usage (items ++ [m]) base = usage items base + m.memory := by
  simp only [usage]
  rw [List.drop_append_of_le_length (by omega)]
  simp

theorem usage_succ (items : List Message) (h : base ≤ items.length)
    : usage items base = usage items (base + 1) + ((itemValue items base).map Message.memory).getD 0 := by
  cases base with
  | zero => simp [usage, itemValue]
  | succ b =>
    have hb : b < items.length := by omega
    simp only [usage, itemValue, Nat.add_sub_cancel, List.getElem?_eq_getElem hb, Option.map_some,
      Option.getD_some]
    rw [List.drop_eq_getElem_cons hb]
    simp only [List.map_cons, List.sum_cons]
    omega

theorem base_le_length (log : Log W) : log.base ≤ log.items.length :=
  Nat.le_trans (log.base_le 0) (log.pos_le 0)

namespace Repr

variable {q q' : MessageQueue W} {log : Log W} {addrs : List Addr} (h : Repr q log addrs)
include h

theorem base_lt : log.base < addrs.length := by
  have := log.base_le 0
  have := log.pos_le 0
  have := h.length_eq
  omega

theorem not_mem_of_heap (ha : q.heap a = none) : a ∉ addrs.drop log.base := by
  intro hmem
  obtain ⟨k, hk⟩ := List.mem_iff_getElem?.mp hmem
  rw [List.getElem?_drop] at hk
  rw [h.heap_eq _ a (by omega) hk] at ha
  cases ha

theorem pos_inj (hj : log.base ≤ j) (hk : log.base ≤ k) (haj : addrs[j]? = some a) (hak : addrs[k]? = some a)
    : j = k := by
  have hj' : (addrs.drop log.base)[j - log.base]? = some a := by
    rw [List.getElem?_drop, ← haj]
    congr 1
    omega
  have hk' : (addrs.drop log.base)[k - log.base]? = some a := by
    rw [List.getElem?_drop, ← hak]
    congr 1
    omega
  obtain ⟨hlt, -⟩ := List.getElem?_eq_some_iff.mp hj'
  have := (List.getElem?_inj hlt h.nodup).mp (hj'.trans hk'.symm)
  omega

theorem drop_base : ∃ p, addrs[log.base]? = some p ∧ addrs.drop log.base = p :: addrs.drop (log.base + 1) := by
  have hlt := h.base_lt
  exact ⟨addrs[log.base], List.getElem?_eq_getElem hlt, List.drop_eq_getElem_cons hlt⟩

end Repr

theorem Repr.mqOpen (a : Addr) : Repr (MessageQueue.mqOpen a : MessageQueue W) .init [a] where
  length_eq := rfl
  nodup := by simp [SharedLog.init]
  heap_eq k b _ hb := by
    obtain rfl : k = 0 := by
      have := (List.getElem?_eq_some_iff.mp hb).1
      simp only [List.length_singleton] at this
      omega
    simp only [List.getElem?_cons_zero, Option.some.injEq] at hb
    subst hb
    simp [MessageQueue.mqOpen, itemValue]
  mem_of_heap b hb := by
    by_cases hba : b = a
    . simp [SharedLog.init, hba]
    . simp [MessageQueue.mqOpen, hba] at hb
  tail_eq := rfl
  cursor_eq _ := rfl
  pushed_eq := rfl
  results_eq := by
    funext i
    simp [MessageQueue.mqOpen, SharedLog.read, SharedLog.init]

theorem Repr.mqPush (h : Repr q log addrs) (m : Message) (ha : q.heap a = none)
    : ∃ q', q.mqPush a m = some q' ∧ q'.gc = q.gc ∧ q'.head = q.head ∧ q'.size = q.size + 1 ∧
        q'.memoryUsage = q.memoryUsage + m.memory ∧ q'.deleted = q.deleted ∧
        Repr q' (log.append m) (addrs ++ [a]) := by
  have hlen := h.length_eq
  have hbase := base_le_length log
  have htail := h.heap_eq _ _ hbase h.tail_eq
  have hlast : addrs[log.items.length + 1]? = none := List.getElem?_eq_none (by omega)
  rw [hlast] at htail
  have hfresh := h.not_mem_of_heap ha
  generalize hpush : q.mqPush a m = res
  simp only [MessageQueue.mqPush, htail] at hpush
  subst hpush
  refine ⟨_, rfl, rfl, rfl, rfl, rfl, rfl, ?_⟩
  constructor
  . simp [SharedLog.append, hlen]
  . simp only [SharedLog.append]
    rw [List.drop_append_of_le_length (by omega)]
    exact List.Nodup.append h.nodup (by simp) (by simpa using hfresh)
  . intro k b hk hb
    simp only [SharedLog.append] at hk ⊢
    by_cases hlt : k < addrs.length
    . rw [List.getElem?_append_left hlt] at hb
      have hba : b ≠ a := by
        rintro rfl
        rw [h.heap_eq k b hk hb] at ha
        cases ha
      rw [Function.update_of_ne hba, itemValue_append _ _ (by omega)]
      by_cases hbt : b = q.tail
      . obtain rfl : k = log.items.length := h.pos_inj hk hbase (hbt ▸ hb) h.tail_eq
        subst hbt
        rw [Function.update_self, List.getElem?_append_right (by omega), hlen]
        simp
      . have hne : k ≠ log.items.length := by
          rintro rfl
          rw [h.tail_eq] at hb
          exact hbt (Option.some.inj hb).symm
        rw [Function.update_of_ne hbt, h.heap_eq k b hk hb, List.getElem?_append_left (by omega)]
    . have hk' : k = addrs.length := by
        have := (List.getElem?_eq_some_iff.mp hb).1
        simp only [List.length_append, List.length_singleton] at this
        omega
      subst hk'
      simp only [List.getElem?_concat_length, Option.some.injEq] at hb
      subst hb
      rw [Function.update_self, hlen]
      simp [itemValue, hlen]
  . intro b hb
    simp only [SharedLog.append]
    rw [List.drop_append_of_le_length (by omega), List.mem_append]
    by_cases hba : b = a
    . simp [hba]
    . left
      apply h.mem_of_heap
      by_cases hbt : b = q.tail
      . rw [hbt, htail]
        simp
      . simpa [hba, hbt] using hb
  . simp only [SharedLog.append, List.length_append, List.length_singleton]
    rw [← hlen]
    simp
  . intro i
    exact getElem?_append_of_some (h.cursor_eq i) _
  . simp [SharedLog.append, h.pushed_eq]
  . funext i
    simp only [SharedLog.read_append]
    rw [h.results_eq]

theorem Repr.mqNext (h : Repr q log addrs) (i : Fin (W + 1))
    : (log.pos i = log.items.length ∧ q.mqNext i = some (q, none)) ∨
        ∃ (hlt : log.pos i < log.items.length) (q' : MessageQueue W),
          q.mqNext i = some (q', log.items[log.pos i]?) ∧ q'.gc = q.gc ∧ q'.head = q.head ∧
          q'.size = q.size ∧ q'.memoryUsage = q.memoryUsage ∧ q'.deleted = q.deleted ∧
          Repr q' (log.advance i hlt) addrs := by
  have hlen := h.length_eq
  have hitem := h.heap_eq _ _ (log.base_le i) (h.cursor_eq i)
  rcases Nat.lt_or_eq_of_le (log.pos_le i) with hlt | heq
  . right
    obtain ⟨a, ha⟩ : ∃ a, addrs[log.pos i + 1]? = some a :=
      ⟨addrs[log.pos i + 1], List.getElem?_eq_getElem (by omega)⟩
    have hbase := log.base_le i
    have hnext := h.heap_eq _ _ (by omega) ha
    rw [ha] at hitem
    have hvalue : itemValue log.items (log.pos i + 1) = log.items[log.pos i]? := rfl
    rw [hvalue] at hnext
    generalize hres : q.mqNext i = res
    simp only [MessageQueue.mqNext, hitem, hnext] at hres
    subst hres
    refine ⟨hlt, _, rfl, rfl, rfl, rfl, rfl, rfl, ?_⟩
    constructor
    . exact h.length_eq
    . exact h.nodup
    . exact h.heap_eq
    . exact h.mem_of_heap
    . exact h.tail_eq
    . intro j
      simp only [SharedLog.advance]
      by_cases hj : j = i
      . subst hj
        simpa using ha
      . simpa [hj] using h.cursor_eq j
    . exact h.pushed_eq
    . rw [SharedLog.read_advance, h.results_eq]
  . left
    rw [heq, List.getElem?_eq_none (by omega)] at hitem
    exact ⟨heq, by simp [MessageQueue.mqNext, hitem]⟩

theorem Repr.delete (h : Repr q log addrs) (hp : addrs[log.base]? = some p)
    (hread : ∀ i, log.base < log.pos i) (gc : Gc) (deleted : List Addr)
    : Repr { q with heap := Function.update q.heap p none, gc := gc, deleted := deleted }
        (log.discard hread) addrs := by
  obtain ⟨p', hp', hdrop⟩ := h.drop_base
  obtain rfl : p = p' := Option.some.inj (hp.symm.trans hp')
  have hnodup := h.nodup
  rw [hdrop, List.nodup_cons] at hnodup
  constructor
  . exact h.length_eq
  . exact hnodup.2
  . intro k a hk ha
    simp only [SharedLog.discard] at hk ⊢
    have hne : a ≠ p := by
      rintro rfl
      have := h.pos_inj (by omega) (Nat.le_refl _) ha hp
      omega
    rw [Function.update_of_ne hne]
    exact h.heap_eq k a (by omega) ha
  . intro a ha
    simp only [SharedLog.discard]
    by_cases hne : a = p
    . simp [hne] at ha
    . have hmem := h.mem_of_heap a (by simpa [hne] using ha)
      rw [hdrop, List.mem_cons] at hmem
      exact hmem.resolve_left hne
  . exact h.tail_eq
  . exact h.cursor_eq
  . exact h.pushed_eq
  . exact h.results_eq

end MessageQueue
end Kids
