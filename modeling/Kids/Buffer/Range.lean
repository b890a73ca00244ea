import Kids.Buffer.Allocation
import Kids.Lib.Run

/-!
One buffer and any calls of `append`, `remove_front` and `clear`: what its 32 bit sizes can hold.
-/

namespace Kids

open Bytes Memory

inductive BufferCall
  | append (data : Bytes) (hsize : data.length < uint32Size)
  | removeFront (size : Nat)
  | clear

/--
`expected` is the size in unbounded arithmetic that the last call leads to.
-/
structure LoneBuffer where
  object : BufferObject
  memory : Memory
  expected : Nat

namespace LoneBuffer

def start : LoneBuffer where
  object := ⟨some 0, 0, 0, some 0⟩
  memory := ⟨[some [some nul]], [some 1]⟩
  expected := 0

theorem start_eq : BufferObject.ofCapacity .init 0 = some (start.object, start.memory) := rfl

def step (s : LoneBuffer) : BufferCall → Option LoneBuffer
  | .append data _ => (s.object.append s.memory data).map fun (ok, o, m) =>
    ⟨o, m, if ok then s.object.size + data.length else o.size⟩
  | .removeFront size => (s.object.removeFront s.memory size).map fun (o, m) => ⟨o, m, o.size⟩
  | .clear => (s.object.clear s.memory).map fun (o, m) => ⟨o, m, o.size⟩

structure InRange (s : LoneBuffer) : Prop where
  size_le : s.object.size ≤ s.object.capacity
  terminated : s.memory.load s.object.data s.object.size 1 = some [some nul]
  size_eq : s.object.size = s.expected

def Allowed (s : LoneBuffer) : BufferCall → Prop
  | .removeFront size => size ≤ s.object.size
  | _ => True

def Fits (s : LoneBuffer) : BufferCall → Prop
  | .append data _ => s.object.size + data.length + 1 < uint32Size
  | _ => True

instance (s : LoneBuffer) : (c : BufferCall) → Decidable (Allowed s c)
  | .append _ _ => inferInstanceAs (Decidable True)
  | .removeFront size => inferInstanceAs (Decidable (size ≤ s.object.size))
  | .clear => inferInstanceAs (Decidable True)

instance (s : LoneBuffer) : (c : BufferCall) → Decidable (Fits s c)
  | .append data _ => inferInstanceAs (Decidable (s.object.size + data.length + 1 < uint32Size))
  | .removeFront _ => inferInstanceAs (Decidable True)
  | .clear => inferInstanceAs (Decidable True)

/--
The only owner of its block, which holds `b`.
-/
def Owns (o : BufferObject) (m : Memory) (b : Buffer) : Prop :=
  ∃ p block, BufferObject.Holds m o p block b ∧ m.countOf o.refcount = some 1

def Inv (s : LoneBuffer) : Prop :=
  ∃ b, Owns s.object s.memory b ∧ s.object.size = s.expected

open BufferObject

theorem owns_born (h : Born m m' o b) : Owns o m' b := by
  have hcount := h.count
  obtain ⟨p, c, block, -, -, hholds⟩ := h
  exact ⟨p, block, hholds, hcount⟩

theorem owns_updated (hcount : m.countOf o.refcount = some 1) (h : Updated m o p m' o' b) : Owns o' m' b := by
  obtain ⟨p', block, hholds, hr, hrefcount⟩ := h
  refine ⟨p', block, hholds, ?_⟩
  rw [hrefcount]
  unfold countOf at hcount ⊢
  rw [hr.counts]
  exact hcount

theorem inv_start : Inv start := by
  obtain ⟨o, m, hstart, hborn⟩ := ofCapacity_spec .init
  rw [start_eq] at hstart
  cases hstart
  exact ⟨_, owns_born hborn, rfl⟩

theorem Inv.inRange (h : Inv s) : InRange s := by
  obtain ⟨b, ⟨p, block, hholds, -⟩, hsize⟩ := h
  have hle := b.size_le
  have hlength := hholds.length
  constructor
  . rw [hholds.size, hholds.capacity]
    exact hle
  . rw [hholds.data, hholds.size, load_eq hholds.block_eq (by omega)]
    have hcontent := congrArg (List.drop b.data.length) hholds.content
    rw [cstring_eq, List.drop_left' (length_cells b.data), List.drop_take, Nat.add_sub_cancel_left] at hcontent
    rw [hcontent]
  . exact hsize

theorem step_append {s : LoneBuffer} (h : Inv s) (hfits : s.object.size + d.length + 1 < uint32Size)
    (hsize : d.length < uint32Size)
    : ∃ t, step s (.append d hsize) = some t ∧ Inv t ∧ t.object.size = s.object.size + d.length := by
  obtain ⟨b, ⟨p, block, hholds, hcount⟩, -⟩ := h
  rw [hholds.size] at hfits
  obtain ⟨b', happend, hdata⟩ := b.append_spec d hfits
  obtain ⟨o, m, hobject, hupdated⟩ := append_spec hholds hcount happend
  have hheld := hupdated
  obtain ⟨p', block', hholds', -⟩ := hheld
  have hgrown : o.size = s.object.size + d.length := by
    rw [hholds'.size, hdata, List.length_append, hholds.size]
  refine ⟨_, by unfold step; dsimp only; rw [hobject]; rfl, ⟨b', owns_updated hcount hupdated, ?_⟩, hgrown⟩
  dsimp only
  rw [if_pos rfl, hgrown]

theorem step_removeFront {s : LoneBuffer} (h : Inv s) (hn : n ≤ s.object.size)
    : ∃ t, step s (.removeFront n) = some t ∧ Inv t := by
  obtain ⟨b, ⟨p, block, hholds, hcount⟩, -⟩ := h
  rw [hholds.size] at hn
  have hsmall : b.data.length + 1 < uint32Size := by
    have hle := b.size_le
    have hsmall := hholds.small
    omega
  obtain ⟨b', hremove, -⟩ := b.removeFront_spec hn hsmall
  obtain ⟨o, m, hobject, hupdated⟩ := removeFront_spec hholds hcount hremove
  exact ⟨_, by unfold step; dsimp only; rw [hobject]; rfl, b', owns_updated hcount hupdated, rfl⟩

theorem step_clear {s : LoneBuffer} (h : Inv s) : ∃ t, step s .clear = some t ∧ Inv t := by
  obtain ⟨b, ⟨p, block, hholds, hcount⟩, -⟩ := h
  cases hrefcount : s.object.refcount with
  | none =>
    rw [hrefcount] at hcount
    cases hcount
  | some c =>
    rw [countOf_eq hrefcount] at hcount
    have hclear := clear_last hholds.data hholds.block_eq hrefcount hcount
    obtain ⟨o, m, hnew, hborn⟩ := ofCapacity_spec (releaseLast s.memory p c)
    rw [hnew] at hclear
    exact ⟨_, by unfold step; dsimp only; rw [hclear]; rfl, .empty, owns_born hborn, rfl⟩

theorem step_keeps (s : LoneBuffer) (c : BufferCall) (h : Inv s) (hallowed : Allowed s c) (hfits : Fits s c)
    : ∃ t, step s c = some t ∧ Inv t := by
  cases c with
  | append d hsize =>
    obtain ⟨t, ht, hinv, -⟩ := step_append h hfits hsize
    exact ⟨t, ht, hinv⟩
  | removeFront n => exact step_removeFront h hallowed
  | clear => exact step_clear h

/--
A sum of `2 ^ 32` or more is taken for a small size, for which there is room: the copy runs over the end of the
block.
-/
theorem append_wrapped (hholds : Holds m o p block b) (hcount : m.countOf o.refcount = some 1)
    (hsize : d.length < uint32Size) (hsum : uint32Size ≤ o.size + d.length) : o.append m d = none := by
  have hle := b.size_le
  have hsmall := hholds.small
  have hsize' := hholds.size
  have hcapacity := hholds.capacity
  have hwrap : uint32 (o.size + d.length) = o.size + d.length - uint32Size := by
    unfold uint32
    rw [Nat.mod_eq_sub_mod hsum, Nat.mod_eq_of_lt (by omega)]
  have hreserve : o.reserve m (uint32 (o.size + d.length)) = some (true, o, m) := by
    unfold reserve
    rw [hwrap, if_pos (by omega)]
  have hstore : m.store o.data o.size (cells d) = none := by
    unfold store
    have hlength := hholds.length
    rw [hholds.data, Option.bind_some, hholds.block_eq, Option.bind_some, if_neg (by rw [length_cells]; omega)]
  unfold append
  rw [if_neg (by omega), clone_alone hcount]
  dsimp only [bind, Option.bind]
  rw [hreserve]
  dsimp only
  rw [if_pos rfl, hstore]

/--
A sum of `2 ^ 32 - 1` leaves no room for the NUL: `realloc` is called for `0` bytes.
-/
theorem append_full (hholds : Holds m o p block b) (hcount : m.countOf o.refcount = some 1) (hd : d.length ≠ 0)
    (hsum : o.size + d.length + 1 = uint32Size)
    : o.append m d = some (false, o, { m with blocks := m.blocks.free p }) := by
  have hle := b.size_le
  have hsmall := hholds.small
  have hcapacity := hholds.capacity
  have hwrap : uint32 (o.size + d.length) = o.size + d.length := uint32_of_lt (by omega)
  have hmax : max (uint32 (2 * o.capacity)) (o.size + d.length) = o.size + d.length := by
    apply Nat.max_eq_right
    have hlt : uint32 (2 * o.capacity) < uint32Size := Nat.mod_lt _ (by decide)
    omega
  have hzero : uint32 (o.size + d.length + 1) = 0 := by
    rw [hsum]
    rfl
  have hrealloc : m.realloc o.data 0 = some (none, { m with blocks := m.blocks.free p }) := by
    unfold realloc
    rw [hholds.data]
    dsimp only
    rw [hholds.block_eq]
    rfl
  have hresize : o.resize m (o.size + d.length) = some (o, { m with blocks := m.blocks.free p }) := by
    unfold resize
    rw [hzero, hrealloc]
    rfl
  have hreserve : o.reserve m (uint32 (o.size + d.length)) = some (false, o, { m with blocks := m.blocks.free p }) := by
    unfold reserve
    rw [hwrap, if_neg (by omega)]
    dsimp only [bind, Option.bind]
    rw [hmax, hresize]
    dsimp only
    rw [decide_eq_false (by omega)]
  unfold append
  rw [if_neg hd, clone_alone hcount]
  dsimp only [bind, Option.bind]
  rw [hreserve]
  rfl

theorem step_fails (s : LoneBuffer) (c : BufferCall) (t : LoneBuffer) (h : Inv s) (hfits : ¬Fits s c)
    (ht : step s c = some t) : ¬InRange t := by
  obtain ⟨b, ⟨p, block, hholds, hcount⟩, -⟩ := h
  cases c with
  | append d hsize =>
    have hover : ¬s.object.size + d.length + 1 < uint32Size := hfits
    have hle := b.size_le
    have hsmall := hholds.small
    have hsize' := hholds.size
    unfold step at ht
    dsimp only at ht
    rcases Nat.lt_or_ge (s.object.size + d.length) uint32Size with hlt | hge
    . rw [append_full hholds hcount (by omega) (by omega)] at ht
      cases ht
      intro hinRange
      have hterminated := hinRange.terminated
      unfold load blockOf at hterminated
      dsimp only at hterminated
      rw [hholds.data, Option.bind_some, Heap.get_free (Heap.lt_next hholds.block_eq), if_pos rfl] at hterminated
      cases hterminated
    . rw [append_wrapped hholds hcount hsize hge] at ht
      cases ht
  | removeFront n => exact absurd trivial hfits
  | clear => exact absurd trivial hfits

/--
Sizes, terminator and copies are right over any calls, exactly if every sum of a size and a length leaves room for
the NUL in 32 bits.
-/
theorem inRange_run_iff (calls : List BufferCall) (h : Run.Meets step Allowed start calls)
    : Run.Along step InRange start calls ↔ Run.Meets step Fits start calls := by
  apply Run.Along.iff_meets_within Inv Allowed inv_start h
  . exact fun s hs => hs.inRange
  . exact step_keeps
  . exact fun s c t hs _ => step_fails s c t hs

theorem inRange_run_short
    : Run.Along step InRange start [.append [97, 98, 99] (by decide), .removeFront 1, .clear] := by
  apply (inRange_run_iff _ _).mpr
  . refine ⟨by decide, fun s hs => ?_⟩
    cases hs
    refine ⟨trivial, fun t ht => ?_⟩
    cases ht
    exact ⟨trivial, fun _ _ => trivial⟩
  . refine ⟨trivial, fun s hs => ?_⟩
    cases hs
    refine ⟨by decide, fun t ht => ?_⟩
    cases ht
    exact ⟨trivial, fun _ _ => trivial⟩

def halfOfAll : Bytes :=
  List.replicate (2 ^ 31) 0

theorem length_halfOfAll : halfOfAll.length = 2 ^ 31 :=
  List.length_replicate

theorem halfOfAll_lt : halfOfAll.length < uint32Size := by
  rw [length_halfOfAll]
  decide

-- the second sum is `2 ^ 32`, which wraps to zero
theorem inRange_fails_wrapped
    : ¬Run.Along step InRange start [.append halfOfAll halfOfAll_lt, .append halfOfAll halfOfAll_lt] := by
  have hroom : start.object.size + halfOfAll.length + 1 < uint32Size := by
    rw [length_halfOfAll]
    decide
  obtain ⟨s, hs, hinv, hsize⟩ := step_append inv_start hroom halfOfAll_lt
  have hover : ¬Fits s (.append halfOfAll halfOfAll_lt) := by
    unfold Fits
    dsimp only
    rw [hsize, length_halfOfAll]
    decide
  rintro ⟨-, s', hs', -, t, ht, hafter⟩
  obtain rfl : s = s' := Option.some.inj (hs.symm.trans hs')
  exact step_fails s _ t hinv hover ht hafter

end LoneBuffer
end Kids
