import Kids.Buffer.Lemmas
import Kids.Buffer.Memory

/-!
An object that is the only owner of its block. Its operations do in memory what the single owner model
says, and touch no other block.
-/

namespace Kids

open Bytes

namespace Memory

variable {m m' m1 m2 : Memory} {block data : List Cell}

/--
The block at `p` is now at `p'` and holds `cells`; nothing else has changed.
-/
structure Replaced (m m' : Memory) (p p' : Nat) (cells : List Cell) : Prop where
  here : m'.blocks.get p' = some cells
  gone : p' ≠ p → m'.blocks.get p = none
  fresh : p' = p ∨ m.blocks.get p' = none
  frame : ∀ q, q ≠ p → q ≠ p' → m'.blocks.get q = m.blocks.get q
  counts : m'.counts = m.counts

theorem Replaced.refl (h : m.blocks.get p = some cells) : Replaced m m p p cells where
  here := h
  gone := fun hne => absurd rfl hne
  fresh := Or.inl rfl
  frame := fun _ _ _ => rfl
  counts := rfl

theorem Replaced.trans (h1 : Replaced m m1 p p1 cells1) (h2 : Replaced m1 m2 p1 p2 cells2)
    : Replaced m m2 p p2 cells2 where
  here := h2.here
  gone := by
    intro hne
    by_cases hp1 : p1 = p
    . rw [← hp1] at hne ⊢
      apply h2.gone hne
    . rw [h2.frame p (Ne.symm hp1) (Ne.symm hne)]
      apply h1.gone hp1
  fresh := by
    rcases h2.fresh with rfl | hfresh
    . exact h1.fresh
    . by_cases hp : p2 = p
      . exact Or.inl hp
      . right
        have hne : p2 ≠ p1 := Ne.symm (Heap.ne_of_get h1.here hfresh)
        rw [← h1.frame p2 hp hne]
        exact hfresh
  frame := by
    intro q hq hq2
    by_cases hq1 : q = p1
    . subst hq1
      rw [h2.gone (Ne.symm hq2)]
      exact (h1.fresh.resolve_left hq).symm
    . rw [h2.frame q hq1 hq2, h1.frame q hq hq1]
  counts := h2.counts.trans h1.counts

theorem store_eq (hblock : m.blocks.get p = some block) (pos : Nat) (data : List Cell)
    (hfits : pos + data.length ≤ block.length)
    : ∃ m', m.store (some p) pos data = some m' ∧ Replaced m m' p p (overwrite block pos data) := by
  refine ⟨{ m with blocks := m.blocks.put p (overwrite block pos data) }, ?_, ?_⟩
  . unfold store
    rw [Option.bind_some, hblock, Option.bind_some, if_pos hfits]
  . have hget := Heap.get_put (Heap.lt_next hblock) (overwrite block pos data)
    constructor
    . rw [hget, if_pos rfl]
    . exact fun hne => absurd rfl hne
    . exact Or.inl rfl
    . intro q hq _
      rw [hget, if_neg hq]
    . rfl

theorem load_eq (hblock : m.blocks.get p = some block) (hfits : pos + n ≤ block.length)
    : m.load (some p) pos n = some ((block.drop pos).take n) := by
  unfold load blockOf
  rw [Option.bind_some, hblock, Option.bind_some, if_pos hfits]

-- the block that `realloc` returns
def resized (block : List Cell) (size : Nat) : List Cell :=
  block.take size ++ List.replicate (size - (block.take size).length) none

theorem realloc_eq (hblock : m.blocks.get p = some block) (hsize : size ≠ 0)
    : ∃ p' m', m.realloc (some p) size = some (some p', m') ∧ Replaced m m' p p' (resized block size) := by
  refine ⟨m.blocks.next, { m with blocks := (m.blocks.free p).alloc (resized block size) }, ?_, ?_⟩
  . unfold realloc
    dsimp only
    rw [hblock]
    dsimp only
    rw [if_neg hsize, Heap.next_free]
    rfl
  . have hne := Heap.ne_next hblock
    have hget : ∀ q, ((m.blocks.free p).alloc (resized block size)).get q
        = if q = m.blocks.next then some (resized block size) else if q = p then none else m.blocks.get q := by
      intro q
      rw [Heap.get_alloc, Heap.next_free, Heap.get_free (Heap.lt_next hblock)]
    constructor
    . rw [hget, if_pos rfl]
    . intro _
      rw [hget, if_neg hne, if_pos rfl]
    . right
      apply Heap.get_next
    . intro q hq hq'
      rw [hget, if_neg hq', if_neg hq]
    . rfl

theorem length_overwrite (hfits : pos + data.length ≤ block.length)
    : (overwrite block pos data).length = block.length := by
  unfold overwrite
  simp only [List.length_append, List.length_take, List.length_drop]
  omega

theorem take_overwrite (block : List Cell) (pos : Nat) (data : List Cell) (hpos : pos ≤ block.length)
    : (overwrite block pos data).take (pos + data.length) = block.take pos ++ data := by
  unfold overwrite
  apply List.take_left'
  rw [List.length_append, List.length_take, Nat.min_eq_left hpos]

theorem take_overwrite_of_le (hpos : pos ≤ block.length) (hk : k ≤ pos)
    : (overwrite block pos data).take k = block.take k := by
  unfold overwrite
  rw [List.append_assoc, List.take_append_of_le_length (by rw [List.length_take]; omega), List.take_take,
    Nat.min_eq_left hk]

theorem length_resized (block : List Cell) (size : Nat) : (resized block size).length = size := by
  unfold resized
  simp only [List.length_append, List.length_replicate, List.length_take]
  omega

theorem take_resized (hk : k ≤ size) (hlength : k ≤ block.length) : (resized block size).take k = block.take k := by
  unfold resized
  rw [List.take_append_of_le_length (by rw [List.length_take]; omega), List.take_take, Nat.min_eq_left hk]

end Memory

theorem Buffer.length_drop_le (b : Buffer) (n : Nat) : (b.data.drop n).length ≤ b.capacity := by
  have hle := b.size_le
  rw [List.length_drop]
  omega

def Buffer.dropFront (b : Buffer) (n : Nat) : Buffer where
  data := b.data.drop n
  capacity := b.capacity
  size_le := b.length_drop_le n
  capacity_lt := b.capacity_lt

def Buffer.shrink (b : Buffer) : Option Buffer :=
  if b.size * 2 % uint32Size < b.capacity then
    b.resize b.size (Nat.le_refl _)
  else
    some b

/--
What `remove_front` and `pop_front` do with a buffer of their own.
-/
def Buffer.takeFront (b : Buffer) (n : Nat) : Option Buffer :=
  (b.dropFront n).shrink

theorem Buffer.removeFront_eq (b : Buffer) (n : Nat)
    : b.removeFront n = if n = 0 then some b else if n ≤ b.size then b.takeFront n else none := rfl

namespace BufferObject

open Memory

variable {m m' : Memory} {o : BufferObject} {block : List Cell}

theorem length_cells (s : Bytes) : (cells s).length = s.length :=
  List.length_map _

theorem length_cstring (s : Bytes) : (cstring s).length = s.length + 1 := by
  rw [cstring, length_cells, List.length_append]
  rfl

theorem cstring_eq (s : Bytes) : cstring s = cells s ++ [some nul] :=
  List.map_append

theorem cells_append (s t : Bytes) : cells (s ++ t) = cells s ++ cells t :=
  List.map_append

theorem uint32_of_lt (h : n < uint32Size) : uint32 n = n :=
  Nat.mod_eq_of_lt h

theorem sub32_of_le (h : b ≤ a) (ha : a < uint32Size) : sub32 a b = a - b := by
  unfold sub32
  have hsub : a + uint32Size - b = a - b + uint32Size := by omega
  rw [hsub, Nat.add_mod_right, Nat.mod_eq_of_lt (by omega)]

/--
The object has the fields of the buffer, and its block has the bytes of it with a NUL behind them.
-/
structure Holds (m : Memory) (o : BufferObject) (p : Nat) (block : List Cell) (b : Buffer) : Prop where
  data : o.data = some p
  block_eq : m.blocks.get p = some block
  length : block.length = b.capacity + 1
  small : b.capacity + 1 < uint32Size
  size : o.size = b.data.length
  capacity : o.capacity = b.capacity
  content : block.take (b.data.length + 1) = cstring b.data

theorem Holds.take_data (h : Holds m o p block b) : block.take b.data.length = cells b.data := by
  have htake := congrArg (List.take b.data.length) h.content
  rw [List.take_take, Nat.min_eq_left (Nat.le_succ _)] at htake
  rw [htake, cstring_eq]
  apply List.take_left'
  apply length_cells

theorem Holds.of_block (h : Holds m o p block b) (hblock : m'.blocks.get p = some block) : Holds m' o p block b :=
  { h with block_eq := hblock }

/--
The object has come to hold `b`, in the place of the block it had at `p`.
-/
def Updated (m : Memory) (o : BufferObject) (p : Nat) (m' : Memory) (o' : BufferObject) (b : Buffer) : Prop :=
  ∃ p' block, Holds m' o' p' block b ∧ Replaced m m' p p' block ∧ o'.refcount = o.refcount

theorem Updated.refl (h : Holds m o p block b) : Updated m o p m o b :=
  ⟨p, block, h, .refl h.block_eq, rfl⟩

theorem content_terminated (h : Holds m o p block b) (hn : b.data.length ≤ n)
    : (overwrite (resized block (n + 1)) n [some nul]).take (b.data.length + 1) = cstring b.data := by
  have hlength : (resized block (n + 1)).length = n + 1 := length_resized block (n + 1)
  have hfits : b.data.length ≤ block.length := by
    have hle := b.size_le
    rw [h.length]
    omega
  rcases Nat.eq_or_lt_of_le hn with rfl | hlt
  . have htake := take_overwrite (resized block (b.data.length + 1)) b.data.length [some nul]
      (by rw [hlength]; omega)
    rw [List.length_singleton] at htake
    rw [htake, take_resized (Nat.le_succ _) hfits, h.take_data, cstring_eq]
  . rw [take_overwrite_of_le (by rw [hlength]; omega) hlt]
    have hfits' : b.data.length + 1 ≤ block.length := by
      have hle := b.size_le
      rw [h.length]
      omega
    rw [take_resized (by omega) hfits', h.content]

theorem resize_spec {b b' : Buffer} {hn : b.data.length ≤ n} (h : Holds m o p block b) (hres : b.resize n hn = some b')
    : ∃ o' m', o.resize m n = some (o', m') ∧ Updated m o p m' o' b' := by
  unfold Buffer.resize at hres
  split at hres
  . next hsize =>
    cases hres
    obtain ⟨p', m1, hrealloc, hr1⟩ := realloc_eq h.block_eq (Nat.succ_ne_zero n)
    have hlength : (resized block (n + 1)).length = n + 1 := length_resized block (n + 1)
    obtain ⟨m2, hstore, hr2⟩ := store_eq hr1.here n [some nul] (by rw [hlength]; rfl)
    refine ⟨{ o with data := some p', capacity := n }, m2, ?_, p', _, ?_, hr1.trans hr2, rfl⟩
    . unfold resize
      rw [h.data, uint32_of_lt hsize, hrealloc]
      dsimp only [bind, Option.bind]
      rw [if_pos Option.isSome_some, hstore]
    . constructor
      . rfl
      . exact hr2.here
      . rw [length_overwrite (by rw [hlength]; rfl), hlength]
      . exact hsize
      . exact h.size
      . rfl
      . apply content_terminated h hn
  . cases hres

theorem reserve_spec {b b' : Buffer} (h : Holds m o p block b) (hres : b.reserve n = some b')
    : ∃ o' m', o.reserve m n = some (true, o', m') ∧ Updated m o p m' o' b' := by
  unfold Buffer.reserve at hres
  unfold reserve
  rw [h.capacity]
  split at hres
  . next hlt =>
    cases hres
    rw [if_pos hlt]
    exact ⟨o, m, rfl, .refl h⟩
  . next hlt =>
    obtain ⟨o', m', hresize, hupdated⟩ := resize_spec h hres
    have hcapacity : o'.capacity = max (uint32 (2 * b.capacity)) n := by
      obtain ⟨p', block', h', -⟩ := hupdated
      rw [h'.capacity]
      unfold Buffer.resize at hres
      split at hres
      . cases hres
        rfl
      . cases hres
    refine ⟨o', m', ?_, hupdated⟩
    change o.resize m (max (uint32 (2 * b.capacity)) n) = _ at hresize
    rw [if_neg hlt]
    dsimp only [bind, Option.bind]
    rw [hresize]
    dsimp only
    rw [hcapacity, decide_eq_true (Nat.le_refl _)]

theorem clone_alone (hcount : m.countOf o.refcount = some 1) : o.clone m = some (o, m) := by
  unfold clone
  rw [hcount]
  rfl

theorem content_appended (h : Holds m o p block b) (hfits : b.data.length + d.length ≤ b.capacity)
    : (overwrite (overwrite block b.data.length (cells d)) (b.data.length + d.length) [some nul]).take
        ((b.data ++ d).length + 1) = cstring (b.data ++ d) := by
  have hlength := h.length
  have hwritten := take_overwrite block b.data.length (cells d) (by omega)
  rw [length_cells] at hwritten
  have hfull : (overwrite block b.data.length (cells d)).length = block.length :=
    length_overwrite (by rw [length_cells]; omega)
  have hterminated := take_overwrite (overwrite block b.data.length (cells d)) (b.data.length + d.length)
    [some nul] (by omega)
  rw [List.length_singleton] at hterminated
  rw [List.length_append, hterminated, hwritten, h.take_data, ← cells_append, cstring_eq]

theorem store_appended {b : Buffer} (h : Holds m o p block b) (d : Bytes) (hfits : (b.data ++ d).length ≤ b.capacity)
    : ∃ m1 m2, m.store o.data o.size (cells d) = some m1 ∧ m1.store o.data (o.size + d.length) [some nul] = some m2 ∧
        Updated m o p m2 { o with size := o.size + d.length } ⟨b.data ++ d, b.capacity, hfits, b.capacity_lt⟩ := by
  rw [List.length_append] at hfits
  have hlength := h.length
  have hroom : b.data.length + (cells d).length ≤ block.length := by
    rw [length_cells]
    omega
  obtain ⟨m1, hstore, hr1⟩ := store_eq h.block_eq _ _ hroom
  have hfull : (overwrite block b.data.length (cells d)).length = block.length := length_overwrite hroom
  obtain ⟨m2, hterminate, hr2⟩ := store_eq hr1.here (b.data.length + d.length) [some nul]
    (by rw [hfull, List.length_singleton]; omega)
  refine ⟨m1, m2, ?_, ?_, p, _, ?_, hr1.trans hr2, rfl⟩
  . rw [h.data, h.size, hstore]
  . rw [h.data, h.size, hterminate]
  . constructor
    . exact h.data
    . exact hr2.here
    . rw [length_overwrite (by rw [hfull, List.length_singleton]; omega), hfull, hlength]
    . exact h.small
    . rw [List.length_append, h.size]
    . exact h.capacity
    . exact content_appended h hfits

theorem Updated.trans (h1 : Updated m o p m1 o1 b1) (hp : o1.data = some p1) (h2 : Updated m1 o1 p1 m2 o2 b2)
    : Updated m o p m2 o2 b2 := by
  obtain ⟨p1', block1, hb1, hr1, hc1⟩ := h1
  obtain ⟨p2, block2, hb2, hr2, hc2⟩ := h2
  have hsame : p1' = p1 := Option.some.inj (hb1.data.symm.trans hp)
  subst hsame
  exact ⟨p2, block2, hb2, hr1.trans hr2, hc2.trans hc1⟩

theorem append_spec {b b' : Buffer} (h : Holds m o p block b) (hcount : m.countOf o.refcount = some 1)
    (happ : b.append d = some b') : ∃ o' m', o.append m d = some (true, o', m') ∧ Updated m o p m' o' b' := by
  unfold Buffer.append at happ
  unfold append
  split at happ
  . next hd =>
    cases happ
    rw [if_pos hd]
    exact ⟨o, m, rfl, .refl h⟩
  . next hd =>
    split at happ
    . cases happ
    . next b1 hreserve =>
      split at happ
      . next hfits =>
        cases happ
        obtain ⟨o1, m1, hreserve1, hupdated1⟩ := reserve_spec h hreserve
        have hheld := hupdated1
        obtain ⟨p1, block1, h1, -⟩ := hheld
        obtain ⟨m2, m3, hstore, hterminate, hupdated3⟩ := store_appended h1 d (by rw [List.length_append]; exact hfits)
        have hlt : o1.size + d.length < uint32Size := by
          rw [h1.size]
          have hcapacity := b1.capacity_lt
          omega
        refine ⟨_, m3, ?_, hupdated1.trans h1.data hupdated3⟩
        rw [if_neg hd, clone_alone hcount]
        dsimp only [bind, Option.bind]
        rw [h.size]
        change o.reserve m (uint32 (b.data.length + d.length)) = _ at hreserve1
        rw [hreserve1]
        dsimp only
        rw [if_pos rfl, hstore]
        dsimp only
        rw [uint32_of_lt hlt, hterminate]
      . cases happ

theorem drop_cstring (s : Bytes) (hn : n ≤ s.length) : (cstring s).drop n = cstring (s.drop n) := by
  rw [cstring_eq, cstring_eq, List.drop_append_of_le_length (by rw [length_cells]; exact hn), cells, cells, List.map_drop]

theorem content_dropped (h : Holds m o p block b) (hn : n ≤ b.data.length)
    : (overwrite block 0 ((block.drop n).take (b.data.length - n + 1))).take ((b.data.drop n).length + 1)
        = cstring (b.data.drop n) := by
  have hle := b.size_le
  have hlength := h.length
  have hread : (block.drop n).take (b.data.length - n + 1) = cstring (b.data.drop n) := by
    rw [← drop_cstring b.data hn, ← h.content, List.drop_take]
    congr 1
    omega
  have htake := take_overwrite block 0 (cstring (b.data.drop n)) (Nat.zero_le _)
  rw [Nat.zero_add, length_cstring, List.take_zero, List.nil_append] at htake
  rw [hread, htake]

theorem shrink_spec {b b' : Buffer} (h : Holds m o p block b) (hshrink : b.shrink = some b')
    : ∃ o' m', (if uint32 (o.size * 2) < o.capacity then o.resize m o.size else some (o, m)) = some (o', m') ∧
        Updated m o p m' o' b' := by
  unfold Buffer.shrink at hshrink
  rw [h.size, h.capacity]
  change (if uint32 (b.data.length * 2) < b.capacity then _ else _) = _ at hshrink
  split at hshrink
  . next hless =>
    rw [if_pos hless]
    exact resize_spec h hshrink
  . next hless =>
    cases hshrink
    rw [if_neg hless]
    exact ⟨o, m, rfl, .refl h⟩

theorem takeFront_spec {b b' : Buffer} (h : Holds m o p block b) (hn : n ≤ b.data.length)
    (htake : b.takeFront n = some b')
    : ∃ o' m', o.takeFront m n = some (o', m') ∧ Updated m o p m' o' b' := by
  have hle := b.size_le
  have hlength := h.length
  have hsmall := h.small
  have hsub : sub32 o.size n = b.data.length - n := by
    rw [h.size, sub32_of_le hn b.size_lt]
  have hload : m.load o.data n (uint32 (sub32 o.size n + 1)) = some ((block.drop n).take (b.data.length - n + 1)) := by
    rw [hsub, uint32_of_lt (by omega), h.data]
    apply load_eq h.block_eq
    omega
  have hroom : 0 + ((block.drop n).take (b.data.length - n + 1)).length ≤ block.length := by
    rw [List.length_take, List.length_drop]
    omega
  obtain ⟨m1, hstore, hr1⟩ := store_eq h.block_eq _ _ hroom
  have h1 : Holds m1 { o with size := sub32 o.size n } p
      (overwrite block 0 ((block.drop n).take (b.data.length - n + 1))) (b.dropFront n) := by
    constructor
    . exact h.data
    . exact hr1.here
    . rw [length_overwrite hroom, hlength]
      rfl
    . exact hsmall
    . rw [hsub]
      exact List.length_drop.symm
    . exact h.capacity
    . exact content_dropped h hn
  obtain ⟨o2, m2, hshrink, hupdated⟩ := shrink_spec h1 htake
  refine ⟨o2, m2, ?_, .trans ⟨p, _, h1, hr1, rfl⟩ h1.data hupdated⟩
  unfold takeFront
  rw [hload]
  dsimp only [bind, Option.bind]
  rw [h.data, hstore]
  rw [← h.data]
  exact hshrink

theorem removeFront_spec {b b' : Buffer} (h : Holds m o p block b) (hcount : m.countOf o.refcount = some 1)
    (hremove : b.removeFront n = some b') : ∃ o' m', o.removeFront m n = some (o', m') ∧ Updated m o p m' o' b' := by
  rw [Buffer.removeFront_eq] at hremove
  unfold removeFront
  split at hremove
  . next hn =>
    cases hremove
    rw [if_pos hn]
    exact ⟨o, m, rfl, .refl h⟩
  . next hn =>
    split at hremove
    . next hle =>
      obtain ⟨o', m', htake, hupdated⟩ := takeFront_spec h hle hremove
      refine ⟨o', m', ?_, hupdated⟩
      rw [if_neg hn, clone_alone hcount]
      exact htake
    . cases hremove

end BufferObject
end Kids
