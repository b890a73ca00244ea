import Mathlib.Data.List.Basic

/-!
A heap of cells that are handed out and given back. An address is never handed out twice, so that a
pointer to a cell that was given back stays without a cell.
-/

abbrev Heap (α : Type) := List (Option α)

namespace Heap

variable {h : Heap α}

def get (h : Heap α) (p : Nat) : Option α :=
  h[p]?.join

-- the address of the next cell that is handed out
def next (h : Heap α) : Nat :=
  h.length

def alloc (h : Heap α) (x : α) : Heap α :=
  h ++ [some x]

def put (h : Heap α) (p : Nat) (x : α) : Heap α :=
  h.set p (some x)

def free (h : Heap α) (p : Nat) : Heap α :=
  h.set p none

@[simp]
theorem next_alloc (h : Heap α) (x : α) : (h.alloc x).next = h.next + 1 := by
  simp [next, alloc]

@[simp]
theorem next_put (h : Heap α) (p : Nat) (x : α) : (h.put p x).next = h.next := by
  simp [next, put]

@[simp]
theorem next_free (h : Heap α) (p : Nat) : (h.free p).next = h.next := by
  simp [next, free]

theorem lt_next (hp : h.get p = some x) : p < h.next := by
  by_contra hge
  rw [get, List.getElem?_eq_none (Nat.le_of_not_gt hge)] at hp
  cases hp

@[simp]
theorem get_next (h : Heap α) : h.get h.next = none := by
  rw [get, next, List.getElem?_eq_none (Nat.le_refl _)]
  rfl

theorem ne_next (hp : h.get p = some x) : p ≠ h.next :=
  Nat.ne_of_lt (lt_next hp)

theorem ne_of_get (hp : h.get p = some x) (hq : h.get q = none) : p ≠ q := by
  rintro rfl
  rw [hp] at hq
  cases hq

theorem get_eq_getElem (hp : p < h.length) : h.get p = h[p] := by
  rw [get, List.getElem?_eq_getElem hp]
  rfl

theorem get_alloc (h : Heap α) (x : α) (q : Nat) : (h.alloc x).get q = if q = h.next then some x else h.get q := by
  unfold get alloc next
  split
  . next hq =>
    rw [hq, List.getElem?_concat_length]
    rfl
  . next hq =>
    rw [List.getElem?_append]
    split
    . rfl
    . rw [List.getElem?_eq_none (by simp; omega), List.getElem?_eq_none (by omega)]

theorem get_set (hp : p < h.next) (y : Option α) (q : Nat) : Heap.get (h.set p y) q = if q = p then y else h.get q := by
  unfold get
  rw [List.getElem?_set]
  by_cases hq : p = q
  . have hlt : p < h.length := hp
    rw [if_pos hq, if_pos hlt, if_pos hq.symm]
    rfl
  . rw [if_neg hq, if_neg (Ne.symm hq)]

theorem get_put (hp : p < h.next) (y : α) (q : Nat) : (h.put p y).get q = if q = p then some y else h.get q :=
  get_set hp (some y) q

theorem get_free (hp : p < h.next) (q : Nat) : (h.free p).get q = if q = p then none else h.get q :=
  get_set hp none q

-- the place of a cell that is still to come
def reserve (h : Heap α) : Heap α :=
  h ++ [none]

@[simp]
theorem next_reserve (h : Heap α) : h.reserve.next = h.next + 1 := by
  simp [next, reserve]

@[simp]
theorem get_reserve (h : Heap α) (q : Nat) : h.reserve.get q = h.get q := by
  unfold get reserve
  rw [List.getElem?_append]
  split
  . rfl
  . next hq =>
    rw [List.getElem?_eq_none (Nat.le_of_not_gt hq)]
    cases hlast : ([none] : List (Option α))[q - h.length]? with
    | none => rfl
    | some x =>
      have hx : x = none := by simpa using List.mem_of_getElem? hlast
      rw [hx]
      rfl

@[simp]
theorem put_reserve (h : Heap α) (x : α) : h.reserve.put h.next x = h.alloc x := by
  unfold reserve put next alloc
  rw [List.set_append_right _ _ (Nat.le_refl _), Nat.sub_self]
  rfl

@[simp]
theorem put_free (h : Heap α) (p : Nat) (x : α) : (h.free p).put p x = h.put p x :=
  List.set_set ..

@[simp]
theorem put_put (h : Heap α) (p : Nat) (x y : α) : (h.put p x).put p y = h.put p y :=
  List.set_set ..

@[simp]
theorem free_put (h : Heap α) (p : Nat) (x : α) : (h.put p x).free p = h.free p :=
  List.set_set ..

theorem put_self (hp : h.get p = some x) : h.put p x = h := by
  have hlt : p < h.length := lt_next hp
  rw [get_eq_getElem hlt] at hp
  unfold put
  rw [← hp]
  exact List.set_getElem_self hlt

theorem put_alloc (hp : p < h.next) (x y : α) : (h.alloc x).put p y = (h.put p y).alloc x :=
  List.set_append_left _ _ hp

/--
How many of the cells are of a kind.
-/
def count (h : Heap α) (kind : α → Bool) : Nat :=
  h.countP fun x => x.any kind

theorem count_set (hp : p < h.next) (kind : α → Bool) (y : Option α)
    : Heap.count (h.set p y) kind + ((h.get p).any kind).toNat = h.count kind + (y.any kind).toNat := by
  have hlt : p < h.length := hp
  rw [get_eq_getElem hlt]
  unfold count
  rw [List.countP_set hlt]
  cases hold : h[p].any kind with
  | false => cases y.any kind <;> rfl
  | true =>
    have hpos : 0 < h.countP fun x => x.any kind := List.countP_pos_iff.mpr ⟨h[p], List.getElem_mem hlt, hold⟩
    cases y.any kind
    . simp only [if_true, Bool.false_eq_true, if_false, Bool.toNat_true, Bool.toNat_false]
      omega
    . simp only [if_true, Bool.toNat_true]
      omega

theorem count_free (hp : h.get p = some x) (kind : α → Bool)
    : (h.free p).count kind + (kind x).toNat = h.count kind := by
  have hset := count_set (lt_next hp) kind none
  rw [hp] at hset
  exact hset

theorem count_fill (hp : p < h.next) (hget : h.get p = none) (kind : α → Bool) (y : α)
    : (h.put p y).count kind = h.count kind + (kind y).toNat := by
  have hset := count_set hp kind (some y)
  rw [hget] at hset
  exact hset

@[simp]
theorem count_reserve (h : Heap α) (kind : α → Bool) : h.reserve.count kind = h.count kind := by
  unfold count reserve
  rw [List.countP_append]
  rfl

theorem exists_get (hx : some x ∈ h) : ∃ p, h.get p = some x := by
  obtain ⟨p, hp⟩ := List.mem_iff_getElem?.mp hx
  exact ⟨p, by rw [get, hp]; rfl⟩

theorem mem_of_get (hp : h.get p = some x) : some x ∈ h := by
  have hlt : p < h.length := lt_next hp
  rw [get_eq_getElem hlt] at hp
  rw [← hp]
  exact List.getElem_mem hlt

theorem count_pos_iff (h : Heap α) (kind : α → Bool) : 0 < h.count kind ↔ ∃ p x, h.get p = some x ∧ kind x = true := by
  unfold count
  rw [List.countP_pos_iff]
  constructor
  . rintro ⟨y, hy, hkind⟩
    cases y with
    | none => cases hkind
    | some x =>
      obtain ⟨p, hp⟩ := exists_get hy
      exact ⟨p, x, hp, hkind⟩
  . rintro ⟨p, x, hp, hkind⟩
    exact ⟨some x, mem_of_get hp, hkind⟩

theorem count_congr {kind kind' : α → Bool} (hkind : ∀ p x, h.get p = some x → kind x = kind' x)
    : h.count kind = h.count kind' := by
  unfold count
  apply List.countP_congr
  intro y hy
  cases y with
  | none => rfl
  | some x =>
    obtain ⟨p, hp⟩ := exists_get hy
    exact iff_of_eq (congrArg (· = true) (hkind p x hp))

theorem kind_of_count_one (hp : h.get p = some x) (hx : kind x = true) (hcount : h.count kind = 1)
    (hq : h.get q = some y)
    (hne : q ≠ p) : kind y = false := by
  have hfree := count_free hp kind
  rw [hx, Bool.toNat_true, hcount] at hfree
  have hzero : ¬0 < (h.free p).count kind := by omega
  rw [count_pos_iff] at hzero
  cases hkind : kind y with
  | false => rfl
  | true =>
    apply absurd _ hzero
    refine ⟨q, y, ?_, hkind⟩
    rw [get_free (lt_next hp), if_neg hne, hq]

end Heap
