import Kids.Buffer.MemoryLemmas

/-!
Objects with a new block and a new counter: the constructors, and what `clear` leaves behind.
-/

namespace Kids

open Bytes

namespace Memory

variable {m m1 m' : Memory} {block data : List Cell}

/--
A block that was not there before is now at `p`.
-/
structure Placed (m m' : Memory) (p : Nat) (block : List Cell) : Prop where
  fresh : m.blocks.get p = none
  blocks : ∀ q, m'.blocks.get q = if q = p then some block else m.blocks.get q
  counts : m'.counts = m.counts

theorem Placed.here (h : Placed m m' p block) : m'.blocks.get p = some block := by
  rw [h.blocks, if_pos rfl]

theorem malloc_eq (m : Memory) (size : Nat)
    : ∃ p m1, m.malloc size = (some p, m1) ∧ Placed m m1 p (List.replicate size none) := by
  refine ⟨m.blocks.next, _, rfl, ?_⟩
  constructor
  . exact Heap.get_next m.blocks
  . exact fun q => Heap.get_alloc m.blocks _ q
  . rfl

theorem placed_store (h : Placed m m1 p block) (pos : Nat) (data : List Cell) (hfits : pos + data.length ≤ block.length)
    : ∃ m2, m1.store (some p) pos data = some m2 ∧ Placed m m2 p (overwrite block pos data) := by
  obtain ⟨m2, hstore, hr⟩ := store_eq h.here pos data hfits
  refine ⟨m2, hstore, h.fresh, ?_, hr.counts.trans h.counts⟩
  intro q
  split
  . next hq =>
    rw [hq]
    exact hr.here
  . next hq =>
    rw [hr.frame q hq hq, h.blocks, if_neg hq]

/--
A block and a counter that is at one.
-/
structure Allocated (m m' : Memory) (p c : Nat) (block : List Cell) : Prop where
  block_fresh : m.blocks.get p = none
  count_fresh : m.counts.get c = none
  blocks : ∀ q, m'.blocks.get q = if q = p then some block else m.blocks.get q
  counts : ∀ d, m'.counts.get d = if d = c then some 1 else m.counts.get d

theorem Allocated.countOf (h : Allocated m m' p c block) (hcount : m.countOf d = some k) : m'.countOf d = some k := by
  cases d with
  | none => cases hcount
  | some d =>
    have hne : d ≠ c := Heap.ne_of_get hcount h.count_fresh
    unfold Memory.countOf at hcount ⊢
    rw [Option.bind_some, h.counts, if_neg hne]
    exact hcount

theorem newCount_eq (h : Placed m m1 p block) : ∃ c m2, m1.newCount = (some c, m2) ∧ Allocated m m2 p c block := by
  refine ⟨m1.counts.next, _, rfl, ?_⟩
  constructor
  . exact h.fresh
  . rw [h.counts]
    exact Heap.get_next m.counts
  . exact h.blocks
  . intro d
    dsimp only
    rw [Heap.get_alloc, h.counts]

end Memory

namespace BufferObject

open Memory

variable {m m' : Memory} {o : BufferObject} {block : List Cell}

/--
The object is new and holds `b` in a block of its own.
-/
def Born (m m' : Memory) (o : BufferObject) (b : Buffer) : Prop :=
  ∃ p c block, Allocated m m' p c block ∧ o.refcount = some c ∧ Holds m' o p block b

theorem Born.count (h : Born m m' o b) : m'.countOf o.refcount = some 1 := by
  obtain ⟨p, c, block, halloc, hrefcount, -⟩ := h
  rw [hrefcount]
  unfold countOf
  rw [Option.bind_some, halloc.counts, if_pos rfl]

theorem content_written (d : Bytes) (hlength : block.length = d.length + 1)
    : (overwrite (overwrite block 0 (cells d)) d.length [some nul]).take (d.length + 1) = cstring d := by
  have hwritten := take_overwrite block 0 (cells d) (Nat.zero_le _)
  rw [Nat.zero_add, length_cells, List.take_zero, List.nil_append] at hwritten
  have hfull : (overwrite block 0 (cells d)).length = block.length :=
    length_overwrite (by rw [length_cells]; omega)
  have hterminated := take_overwrite (overwrite block 0 (cells d)) d.length [some nul]
    (by omega)
  rw [List.length_singleton] at hterminated
  rw [hterminated, hwritten, cstring_eq]

theorem content_replaced (str : Bytes) (block : List Cell)
    : (overwrite block 0 (cstring str)).take (str.length + 1) = cstring str := by
  have hwritten := take_overwrite block 0 (cstring str) (Nat.zero_le _)
  rw [Nat.zero_add, length_cstring, List.take_zero, List.nil_append] at hwritten
  exact hwritten

-- a buffer with no room to spare
def exactly (d : Bytes) (hd : d.length + 1 < uint32Size) : Buffer where
  data := d
  capacity := d.length
  size_le := Nat.le_refl _
  capacity_lt := Nat.lt_of_succ_lt hd

theorem ofData_spec (m : Memory) (hd : d.length + 1 < uint32Size)
    : ∃ o m', ofData m d = some (o, m') ∧ Born m m' o (exactly d hd) := by
  have hlength : (List.replicate (d.length + 1) (none : Cell)).length = d.length + 1 := List.length_replicate
  obtain ⟨p, m1, hmalloc, hplaced1⟩ := malloc_eq m (d.length + 1)
  obtain ⟨m2, hstore, hplaced2⟩ := placed_store hplaced1 0 (cells d)
    (by rw [length_cells, hlength]; omega)
  have hfull : (overwrite (List.replicate (d.length + 1) none) 0 (cells d)).length = _ := length_overwrite
    (by rw [length_cells, hlength]; omega)
  obtain ⟨m3, hterminate, hplaced3⟩ := placed_store hplaced2 d.length [some nul]
    (by rw [hfull, hlength]; rfl)
  obtain ⟨c, m4, hcount, halloc⟩ := newCount_eq hplaced3
  refine ⟨⟨some p, d.length, d.length, some c⟩, m4, ?_, p, c, _, halloc, rfl, ?_⟩
  . unfold ofData
    rw [uint32_of_lt (Nat.lt_of_succ_lt hd)]
    dsimp only [bind, Option.bind]
    rw [uint32_of_lt hd, hmalloc]
    dsimp only
    rw [hstore]
    dsimp only
    rw [hterminate]
    dsimp only
    rw [hcount]
  . constructor
    . rfl
    . rw [halloc.blocks, if_pos rfl]
    . rw [length_overwrite (by rw [hfull, hlength]; rfl), hfull, hlength]
      rfl
    . exact hd
    . rfl
    . rfl
    . exact content_written d hlength

theorem ofString_spec (m : Memory) (hd : d.length + 1 < uint32Size)
    : ∃ o m', ofString m d = some (o, m') ∧ Born m m' o (exactly d hd) := by
  have hlength : (List.replicate (d.length + 1) (none : Cell)).length = d.length + 1 := List.length_replicate
  have hroom : 0 + (cstring d).length ≤ (List.replicate (d.length + 1) (none : Cell)).length := by
    rw [length_cstring, hlength]
    omega
  obtain ⟨p, m1, hmalloc, hplaced1⟩ := malloc_eq m (d.length + 1)
  obtain ⟨m2, hstore, hplaced2⟩ := placed_store hplaced1 _ _ hroom
  obtain ⟨c, m3, hcount, halloc⟩ := newCount_eq hplaced2
  refine ⟨⟨some p, d.length, d.length, some c⟩, m3, ?_, p, c, _, halloc, rfl, ?_⟩
  . unfold ofString
    rw [uint32_of_lt (Nat.lt_of_succ_lt hd)]
    dsimp only [bind, Option.bind]
    rw [uint32_of_lt hd, hmalloc]
    dsimp only
    rw [List.take_of_length_le (by rw [length_cstring]), hstore]
    dsimp only
    rw [hcount]
  . constructor
    . rfl
    . rw [halloc.blocks, if_pos rfl]
    . rw [length_overwrite hroom, hlength]
      rfl
    . exact hd
    . rfl
    . rfl
    . apply content_replaced

theorem ofCapacity_zero (m : Memory) : ofCapacity m 0 = ofString m [] := rfl

theorem ofCapacity_spec (m : Memory) : ∃ o m', ofCapacity m 0 = some (o, m') ∧ Born m m' o .empty := by
  rw [ofCapacity_zero]
  apply ofString_spec m (d := [])
  decide

-- giving up a block

variable {p c k : Nat}

def releaseLast (m : Memory) (p c : Nat) : Memory :=
  ⟨m.blocks.free p, m.counts.free c⟩

def releaseShared (m : Memory) (c k : Nat) : Memory :=
  { m with counts := m.counts.put c (k - 1) }

theorem countOf_eq (hrefcount : o.refcount = some c) : m.countOf o.refcount = m.counts.get c := by
  rw [hrefcount]
  rfl

theorem setCount_eq (hcount : m.counts.get c = some k) (n : Nat)
    : m.setCount (some c) n = some { m with counts := m.counts.put c n } := by
  unfold setCount
  rw [Option.bind_some, hcount]
  rfl

theorem deleteCount_eq (hcount : m.counts.get c = some k)
    : m.deleteCount (some c) = some { m with counts := m.counts.free c } := by
  unfold deleteCount
  rw [Option.bind_some, hcount]
  rfl

theorem free_eq (hblock : m.blocks.get p = some block)
    : m.free (some p) = some { m with blocks := m.blocks.free p } := by
  unfold Memory.free
  dsimp only
  rw [hblock]
  rfl

theorem free_last (hdata : o.data = some p) (hblock : m.blocks.get p = some block) (hrefcount : o.refcount = some c)
    (hcount : m.counts.get c = some 1) : o.free m = some (null, releaseLast m p c) := by
  have hput := Heap.get_put (Heap.lt_next hcount) 0 c
  rw [if_pos rfl] at hput
  unfold free
  rw [countOf_eq hrefcount, hcount, hdata, hrefcount]
  dsimp only [bind, Option.bind]
  have hzero : sub32 1 1 = 0 := rfl
  have hdelete : (Memory.mk (m.blocks.free p) (m.counts.put c 0)).deleteCount (some c) = some (releaseLast m p c) := by
    rw [deleteCount_eq hput]
    dsimp only
    rw [Heap.free_put]
    rfl
  have hfree : (Memory.mk m.blocks (m.counts.put c 0)).free (some p) = some ⟨m.blocks.free p, m.counts.put c 0⟩ :=
    free_eq hblock
  rw [setCount_eq hcount, hzero]
  dsimp only
  rw [if_pos rfl, hfree]
  dsimp only
  rw [hdelete]

theorem sub32_one (hk : 1 < k) (hlt : k < uint32Size) : sub32 k 1 = k - 1 :=
  sub32_of_le (Nat.le_of_lt hk) hlt

theorem free_shared (hrefcount : o.refcount = some c) (hcount : m.counts.get c = some k) (hk : 1 < k)
    (hlt : k < uint32Size) : o.free m = some (null, releaseShared m c k) := by
  unfold free
  rw [countOf_eq hrefcount, hcount, hrefcount]
  dsimp only [bind, Option.bind]
  rw [setCount_eq hcount]
  dsimp only
  rw [sub32_one hk hlt, if_neg (by omega)]
  rfl

theorem clear_last (hdata : o.data = some p) (hblock : m.blocks.get p = some block) (hrefcount : o.refcount = some c)
    (hcount : m.counts.get c = some 1) : o.clear m = ofCapacity (releaseLast m p c) 0 := by
  unfold clear
  rw [countOf_eq hrefcount, hcount, hdata, hrefcount]
  dsimp only [bind, Option.bind]
  have hdelete : (Memory.mk (m.blocks.free p) m.counts).deleteCount (some c) = some (releaseLast m p c) :=
    deleteCount_eq hcount
  rw [if_pos rfl, free_eq hblock]
  dsimp only
  rw [hdelete]
  rfl

theorem clear_shared (hrefcount : o.refcount = some c) (hcount : m.counts.get c = some k) (hk : 1 < k)
    (hlt : k < uint32Size) : o.clear m = ofCapacity (releaseShared m c k) 0 := by
  unfold clear
  rw [countOf_eq hrefcount, hcount, hrefcount]
  dsimp only [bind, Option.bind]
  rw [if_neg (by omega), setCount_eq hcount, sub32_one hk hlt]
  rfl

theorem clone_shared {b : Buffer} (h : Holds m o p block b) (hrefcount : o.refcount = some c)
    (hcount : m.counts.get c = some k) (hk : 1 < k) (hlt : k < uint32Size)
    : ∃ o' m', o.clone m = some (o', m') ∧ Born (releaseShared m c k) m' o' b := by
  have hle := b.size_le
  have hlength := h.length
  obtain ⟨p1, m1, hmalloc, hplaced1⟩ := malloc_eq m (b.capacity + 1)
  have hne : p ≠ p1 := Heap.ne_of_get h.block_eq hplaced1.fresh
  have hold : m1.blocks.get p = some block := by
    rw [hplaced1.blocks, if_neg hne, h.block_eq]
  have hload : m1.load o.data 0 (uint32 (o.size + 1)) = some (cstring b.data) := by
    rw [h.data, h.size, uint32_of_lt (by have hsmall := h.small; omega), load_eq hold (by omega), List.drop_zero, h.content]
  have hroom : 0 + (cstring b.data).length ≤ (List.replicate (b.capacity + 1) (none : Cell)).length := by
    rw [length_cstring, List.length_replicate]
    omega
  obtain ⟨m2, hstore, hplaced2⟩ := placed_store hplaced1 _ _ hroom
  have hcount2 : m2.counts.get c = some k := by
    rw [hplaced2.counts, hcount]
  have hplaced3 : Placed (releaseShared m c k) { m2 with counts := m2.counts.put c (k - 1) } p1
      (overwrite (List.replicate (b.capacity + 1) none) 0 (cstring b.data)) := by
    constructor
    . exact hplaced2.fresh
    . exact hplaced2.blocks
    . dsimp only [releaseShared]
      rw [hplaced2.counts]
  obtain ⟨c', m3, hnew, halloc⟩ := newCount_eq hplaced3
  refine ⟨{ o with data := some p1, refcount := some c' }, m3, ?_, p1, c', _, halloc, rfl, ?_⟩
  . unfold clone
    rw [countOf_eq hrefcount, hcount]
    dsimp only [bind, Option.bind]
    rw [if_neg (by omega), h.capacity, uint32_of_lt h.small, hmalloc]
    dsimp only
    rw [hload]
    dsimp only
    rw [hstore]
    dsimp only
    rw [hrefcount, setCount_eq hcount2, sub32_one hk hlt]
    dsimp only
    rw [hnew]
  . constructor
    . rfl
    . rw [halloc.blocks, if_pos rfl]
    . rw [length_overwrite hroom, List.length_replicate]
    . exact h.small
    . exact h.size
    . exact h.capacity
    . apply content_replaced

theorem assignString_shared (hrefcount : o.refcount = some c) (hcount : m.counts.get c = some k) (hk : 1 < k)
    (hlt : k < uint32Size) (hstr : str.length + 1 < uint32Size)
    : ∃ o' m', o.assignString m str = some (o', m') ∧ Born (releaseShared m c k) m' o' (exactly str hstr) := by
  have hlength : (List.replicate (str.length + 1) (none : Cell)).length = str.length + 1 := List.length_replicate
  have hroom : 0 + (cstring str).length ≤ (List.replicate (str.length + 1) (none : Cell)).length := by
    rw [length_cstring, hlength]
    omega
  -- the counter comes before the block
  let m1 : Memory := (releaseShared m c k).newCount.2
  obtain ⟨p, m2, hmalloc, hplaced2⟩ := malloc_eq m1 (str.length + 1)
  obtain ⟨m3, hstore, hplaced3⟩ := placed_store hplaced2 _ _ hroom
  have halloc : Allocated (releaseShared m c k) m3 p (releaseShared m c k).counts.next
      (overwrite (List.replicate (str.length + 1) none) 0 (cstring str)) := by
    constructor
    . exact hplaced3.fresh
    . apply Heap.get_next
    . exact hplaced3.blocks
    . intro d
      rw [hplaced3.counts]
      apply Heap.get_alloc
  refine ⟨⟨some p, str.length, str.length, some (releaseShared m c k).counts.next⟩, m3, ?_, p, _, _, halloc, rfl, ?_⟩
  . unfold assignString
    rw [countOf_eq hrefcount, hcount]
    dsimp only [bind, Option.bind]
    rw [if_pos hk, free_shared hrefcount hcount hk hlt]
    dsimp only
    have hnull : null.data = none := rfl
    have hrealloc : m1.realloc null.data (str.length + 1) = some (some p, m2) := congrArg some hmalloc
    change Memory.realloc (releaseShared m c k).newCount.2 _ _ = _ at hrealloc
    rw [uint32_of_lt (Nat.lt_of_succ_lt hstr), if_pos (Or.inr hnull), uint32_of_lt hstr, hrealloc]
    dsimp only
    rw [if_pos Option.isSome_some, List.take_of_length_le (by rw [length_cstring]), hstore]
    rfl
  . constructor
    . rfl
    . rw [halloc.blocks, if_pos rfl]
    . rw [length_overwrite hroom, hlength]
      rfl
    . exact hstr
    . rfl
    . rfl
    . apply content_replaced

theorem assignString_alone {b : Buffer} (h : Holds m o p block b) (hcount : m.countOf o.refcount = some 1)
    (hstr : str.length + 1 < uint32Size)
    : ∃ o' m' b', o.assignString m str = some (o', m') ∧ b'.data = str ∧ Updated m o p m' o' b' := by
  have hsize := uint32_of_lt (Nat.lt_of_succ_lt hstr)
  have htake : (cstring str).take (str.length + 1) = cstring str := List.take_of_length_le (by rw [length_cstring])
  unfold assignString
  rw [hcount]
  dsimp only [bind, Option.bind]
  rw [if_neg (Nat.lt_irrefl 1), hsize, uint32_of_lt hstr, htake, h.data, h.capacity]
  by_cases hroom : b.capacity < str.length
  . obtain ⟨p', m1, hrealloc, hr1⟩ := realloc_eq h.block_eq (Nat.succ_ne_zero str.length)
    have hlength : (resized block (str.length + 1)).length = str.length + 1 := length_resized block _
    obtain ⟨m2, hstore, hr2⟩ := store_eq hr1.here 0 (cstring str)
      (by rw [length_cstring, hlength]; omega)
    refine ⟨{ o with data := some p', size := str.length, capacity := str.length }, m2, exactly str hstr, ?_, rfl,
      p', _, ?_, hr1.trans hr2, rfl⟩
    . rw [if_pos (Or.inl hroom), hrealloc]
      dsimp only
      rw [if_pos Option.isSome_some, hstore]
    . constructor
      . rfl
      . exact hr2.here
      . rw [length_overwrite (by rw [length_cstring, hlength]; omega), hlength]
        rfl
      . exact hstr
      . rfl
      . rfl
      . apply content_replaced
  . have hfits : 0 + (cstring str).length ≤ block.length := by
      have hlength := h.length
      rw [length_cstring]
      omega
    obtain ⟨m1, hstore, hr⟩ := store_eq h.block_eq _ _ hfits
    refine ⟨{ o with size := str.length }, m1, ⟨str, b.capacity, Nat.le_of_not_lt hroom, b.capacity_lt⟩, ?_, rfl,
      p, _, ?_, hr, rfl⟩
    . rw [if_neg (by rintro (hless | ⟨⟨⟩⟩); exact hroom hless), hstore]
      dsimp only
      rw [← h.data, ← h.capacity]
    . constructor
      . exact h.data
      . exact hr.here
      . rw [length_overwrite hfits, h.length]
      . exact h.small
      . rfl
      . exact h.capacity
      . apply content_replaced

end BufferObject
end Kids
