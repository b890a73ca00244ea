import Kids.Buffer.Range

/-!
`append_printf` and `append_vaprintf` in memory.
-/

namespace Kids

open Bytes

namespace Memory

def uint64 (n : Nat) : Nat :=
  n % 2 ^ 64

def sub64 (a b : Nat) : Nat :=
  uint64 (a + 2 ^ 64 - b)

/--
`w` is what the format and its arguments come to.
-/
def vsnprintf (m : Memory) (buf : Option Nat) (buflen : Nat) (w : Bytes) : Option Memory :=
  if buflen = 0 then
    some m
  else
    m.store buf 0 (BufferObject.cstring (w.take (buflen - 1)))

-- `none` is a read past the end of the block, or of a byte that has never been written
def strlen.go : List Cell → Option Nat
  | [] => none
  | none :: _ => none
  | some b :: cells => if b = nul then some 0 else (go cells).map (· + 1)

def strlen (m : Memory) (buf : Option Nat) : Option Nat :=
  (m.blockOf buf).bind strlen.go

def loadBytes (m : Memory) (buf : Option Nat) (size : Nat) : Option Bytes :=
  (m.load buf 0 size).bind fun cells => cells.mapM id

/--
How one pass of the loop ends: `malloc` returns `NULL`, the result did not fit, or it did.
-/
inductive Attempt
  | noMemory
  | again (m : Memory)
  | done (buf : Option Nat) (m : Memory)

/--
The body of the loop in `append_vaprintf`; `available` is whether `malloc` has a block of a given length.
-/
def attempt (available : Nat → Bool) (w : Bytes) (m : Memory) (buflen : Nat) : Option Attempt :=
  if available buflen then do
    let (buf, m) := m.malloc buflen
    let m ← m.store buf (sub64 buflen 2) [some nul]
    let m ← m.vsnprintf buf buflen w
    let last ← m.load buf (sub64 buflen 2) 1
    if last ≠ [some nul] then
      let m ← m.free buf
      some (.again m)
    else
      some (.done buf m)
  else
    some .noMemory

theorem fits_of_store {m : Memory} (h : m.store p pos data = some m')
    : ∃ block, m.blockOf p = some block ∧ pos + data.length ≤ block.length := by
  unfold store at h
  cases p with
  | none => cases h
  | some p =>
    rw [Option.bind_some] at h
    obtain ⟨block, hblock, h⟩ := Option.bind_eq_some_iff.mp h
    split at h
    . next hfits => exact ⟨block, hblock, hfits⟩
    . cases h

-- where `buflen` has wrapped to zero, `buf[buflen - 2]` is outside the block
theorem two_le_of_attempt (h : attempt available w m buflen = some r) (hr : r ≠ .noMemory) (hlt : buflen < 2 ^ 64)
    : 2 ≤ buflen := by
  unfold attempt at h
  split at h
  . obtain ⟨p, m1, hmalloc, hplaced⟩ := malloc_eq m buflen
    rw [hmalloc] at h
    obtain ⟨m2, hstore, -⟩ := Option.bind_eq_some_iff.mp h
    obtain ⟨block, hblock, hfits⟩ := fits_of_store hstore
    have hlength : block.length = buflen := by
      obtain rfl := Option.some.inj (hblock.symm.trans hplaced.here)
      exact List.length_replicate
    rw [hlength, List.length_singleton] at hfits
    unfold sub64 uint64 at hfits
    omega
  . cases h
    exact absurd rfl hr

theorem uint64_wrapped (hk : 60 ≤ k) : uint64 (16 * 2 ^ k) = 0 := by
  obtain ⟨j, rfl⟩ := Nat.exists_eq_add_of_le hk
  have hpow : 16 * 2 ^ (60 + j) = 2 ^ 64 * 2 ^ j := by
    rw [Nat.pow_add]
    omega
  rw [uint64, hpow, Nat.mul_mod_right]

theorem lt_of_again (h : attempt available w m (uint64 (16 * 2 ^ k)) = some (.again m')) : k < 60 := by
  by_contra hk
  have htwo := two_le_of_attempt h nofun (Nat.mod_lt _ (by decide))
  rw [uint64_wrapped (Nat.le_of_not_lt hk)] at htwo
  omega

/--
The loop from its pass `k` on; the result is `NULL` or the block that holds the result.
-/
def scratch (available : Nat → Bool) (w : Bytes) (m : Memory) (k : Nat) : Option (Option Nat × Memory) :=
  match h : attempt available w m (uint64 (16 * 2 ^ k)) with
  | none => none
  | some .noMemory => some (none, m)
  | some (.done buf m) => some (buf, m)
  | some (.again m) => scratch available w m (k + 1)
termination_by 60 - k
decreasing_by
  have hlt := lt_of_again h
  omega

end Memory

namespace BufferObject

open Memory

def appendVaprintf (available : Nat → Bool) (o : BufferObject) (m : Memory) (w : Bytes)
    : Option (BufferObject × Memory) := do
  let (buf, m) ← scratch available w m 0
  if buf.isSome then
    let len ← m.strlen buf
    let data ← m.loadBytes buf (uint32 len)
    let (_, o, m) ← o.append m data
    let m ← m.free buf
    some (o, m)
  else
    some (o, m)

def appendPrintf (available : Nat → Bool) (o : BufferObject) (m : Memory) (w : Bytes)
    : Option (BufferObject × Memory) :=
  o.appendVaprintf available m w

section Scratch

variable {m m1 m2 : Memory} {w : Bytes} {block : List Cell} {n k : Nat}

structure Same (m m' : Memory) : Prop where
  blocks : ∀ q, m'.blocks.get q = m.blocks.get q
  counts : m'.counts = m.counts

theorem Same.refl (m : Memory) : Same m m :=
  ⟨fun _ => rfl, rfl⟩

theorem Same.trans (h1 : Same m m1) (h2 : Same m1 m2) : Same m m2 where
  blocks q := (h2.blocks q).trans (h1.blocks q)
  counts := h2.counts.trans h1.counts

theorem Same.placed (h1 : Same m m1) (h2 : Placed m1 m2 p block) : Placed m m2 p block where
  fresh := by
    rw [← h1.blocks]
    exact h2.fresh
  blocks q := by rw [h2.blocks, h1.blocks]
  counts := h2.counts.trans h1.counts

theorem free_placed (h : Placed m m1 p block) : ∃ m2, m1.free (some p) = some m2 ∧ Same m m2 := by
  refine ⟨_, free_eq h.here, ?_, h.counts⟩
  intro q
  rw [Heap.get_free (Heap.lt_next h.here), h.blocks]
  split
  . next hq =>
    rw [hq, h.fresh]
  . rfl

-- the scratch block when `vsnprintf` has returned
def filled (n : Nat) (w : Bytes) : List Cell :=
  overwrite (overwrite (List.replicate n none) (n - 2) [some nul]) 0 (cstring (w.take (n - 1)))

theorem length_marked (hn : 2 ≤ n) : (overwrite (List.replicate n (none : Cell)) (n - 2) [some nul]).length = n := by
  rw [length_overwrite (by rw [List.length_replicate, List.length_singleton]; omega), List.length_replicate]

theorem length_printed (hn : 2 ≤ n) : 0 + (cstring (w.take (n - 1))).length ≤ n := by
  rw [length_cstring, List.length_take]
  omega

theorem length_filled (hn : 2 ≤ n) (w : Bytes) : (filled n w).length = n := by
  unfold filled
  rw [length_overwrite (by rw [length_marked hn]; exact length_printed hn), length_marked hn]

theorem getElem?_cstring_length (w : Bytes) : (cstring w)[w.length]? = some (some nul) := by
  rw [cstring_eq, List.getElem?_append_right (by rw [length_cells]), length_cells, Nat.sub_self]
  rfl

theorem filled_fits (hn : w.length + 2 ≤ n) : (filled n w)[n - 2]? = some (some nul) := by
  have htake : w.take (n - 1) = w := List.take_of_length_le (by omega)
  unfold filled overwrite
  rw [htake, List.take_zero, List.nil_append, Nat.zero_add]
  rcases Nat.eq_or_lt_of_le hn with rfl | hlt
  . rw [Nat.add_sub_cancel, List.getElem?_append_left (by rw [length_cstring]; omega)]
    exact getElem?_cstring_length w
  . rw [List.getElem?_append_right (by rw [length_cstring]; omega), List.getElem?_drop, length_cstring,
      Nat.add_sub_cancel' (by omega)]
    rw [List.append_assoc, List.getElem?_append_right (by rw [List.length_take, List.length_replicate]; omega)]
    rw [List.length_take, List.length_replicate, Nat.min_eq_left (by omega), Nat.sub_self]
    rfl

theorem filled_short (hw : nul ∉ w) (htwo : 2 ≤ n) (hn : n ≤ w.length + 1)
    : ∃ b, (filled n w)[n - 2]? = some (some b) ∧ b ≠ nul := by
  have hlt : n - 2 < w.length := by omega
  have hlength : (cells (w.take (n - 1))).length = n - 1 := by
    rw [length_cells, List.length_take]
    omega
  refine ⟨w[n - 2], ?_, ?_⟩
  . unfold filled overwrite
    rw [cstring_eq, List.take_zero, List.nil_append, List.append_assoc, List.getElem?_append_left (by omega)]
    rw [cells, List.getElem?_map, List.getElem?_take_of_lt (by omega), List.getElem?_eq_getElem hlt]
    rfl
  . intro heq
    exact hw (heq ▸ List.getElem_mem hlt)

theorem take_one_drop {l : List α} (h : l[k]? = some x) : (l.drop k).take 1 = [x] := by
  obtain ⟨hlt, rfl⟩ := List.getElem?_eq_some_iff.mp h
  rw [List.drop_eq_getElem_cons hlt]
  rfl

theorem attempt_spec (m : Memory) (hw : nul ∉ w) (htwo : 2 ≤ n) (hn : n < 2 ^ 64) (havailable : available n = true)
    : (w.length + 2 ≤ n ∧ ∃ p m', attempt available w m n = some (.done (some p) m') ∧
        Placed m m' p (filled n w)) ∨
      (n ≤ w.length + 1 ∧ ∃ m', attempt available w m n = some (.again m') ∧ Same m m') := by
  obtain ⟨p, m1, hmalloc, hplaced1⟩ := malloc_eq m n
  obtain ⟨m2, hmark, hplaced2⟩ := placed_store hplaced1 (n - 2) [some nul]
    (by rw [List.length_replicate, List.length_singleton]; omega)
  obtain ⟨m3, hprint, hplaced3⟩ := placed_store hplaced2 0 (cstring (w.take (n - 1)))
    (by rw [length_marked htwo]; exact length_printed htwo)
  change Placed m m3 p (filled n w) at hplaced3
  have hsub : sub64 n 2 = n - 2 := by
    unfold sub64 uint64
    omega
  have hattempt : ∀ x, (filled n w)[n - 2]? = some x → attempt available w m n =
      if [x] ≠ [some nul] then (m3.free (some p)).map .again else some (.done (some p) m3) := by
    intro x hx
    have hload : m3.load (some p) (n - 2) 1 = some [x] := by
      rw [load_eq hplaced3.here (by rw [length_filled htwo]; omega), take_one_drop hx]
    unfold attempt vsnprintf
    rw [if_pos havailable, hmalloc, hsub]
    dsimp only [bind, Option.bind]
    rw [hmark]
    dsimp only
    rw [if_neg (by omega), hprint]
    dsimp only
    rw [hload]
    dsimp only
    split
    . cases m3.free (some p) with
      | none => rfl
      | some m4 => rfl
    . rfl
  rcases Nat.lt_or_ge (w.length + 1) n with hlt | hge
  . left
    refine ⟨hlt, p, m3, ?_, hplaced3⟩
    rw [hattempt _ (filled_fits hlt), if_neg (fun hne => hne rfl)]
  . right
    obtain ⟨b, hb, hne⟩ := filled_short hw htwo hge
    obtain ⟨m4, hfree, hsame⟩ := free_placed hplaced3
    refine ⟨hge, m4, ?_, hsame⟩
    rw [hattempt _ hb, if_pos (by simpa using hne), hfree]
    rfl

theorem attempt_noMemory (m : Memory) (w : Bytes) (h : available n = false)
    : attempt available w m n = some .noMemory := by
  unfold attempt
  rw [h]
  rfl

-- the pass `k` comes about if the result did not fit in the blocks before it
def Tried (w : Bytes) (k : Nat) : Prop :=
  ∀ i < k, 16 * 2 ^ i ≤ w.length + 1

theorem scratch_noMemory (h : attempt available w m (uint64 (16 * 2 ^ k)) = some .noMemory)
    : scratch available w m k = some (none, m) := by
  rw [scratch]
  split
  all_goals simp_all

theorem scratch_done (h : attempt available w m (uint64 (16 * 2 ^ k)) = some (.done buf m1))
    : scratch available w m k = some (buf, m1) := by
  rw [scratch]
  split
  all_goals simp_all

theorem scratch_again (h : attempt available w m (uint64 (16 * 2 ^ k)) = some (.again m1))
    : scratch available w m k = scratch available w m1 (k + 1) := by
  rw [scratch]
  split
  all_goals simp_all

theorem Tried.size_lt (h : Tried w k) (hlen : w.length < 2 ^ 32) : 16 * 2 ^ k < 2 ^ 64 := by
  cases k with
  | zero => decide
  | succ k =>
    have hlast := h k (Nat.lt_succ_self k)
    rw [Nat.pow_succ]
    omega

theorem scratch_spec (available : Nat → Bool) (m : Memory) (hw : nul ∉ w) (hlen : w.length < 2 ^ 32) (k : Nat)
    (hk : Tried w k)
    : (∃ j, Tried w j ∧ available (16 * 2 ^ j) = false ∧ ∃ m', scratch available w m k = some (none, m') ∧ Same m m') ∨
      ((∀ j, k ≤ j → Tried w j → available (16 * 2 ^ j) = true) ∧ ∃ p m' n, w.length + 2 ≤ n ∧
        scratch available w m k = some (some p, m') ∧ Placed m m' p (filled n w)) := by
  have hlt := hk.size_lt hlen
  have hsize : uint64 (16 * 2 ^ k) = 16 * 2 ^ k := Nat.mod_eq_of_lt hlt
  have htwo : 2 ≤ 16 * 2 ^ k := by
    have := Nat.two_pow_pos k
    omega
  cases havailable : available (16 * 2 ^ k) with
  | false =>
    left
    refine ⟨k, hk, havailable, m, scratch_noMemory ?_, .refl m⟩
    rw [hsize]
    exact attempt_noMemory m w havailable
  | true =>
    rcases attempt_spec m hw htwo hlt havailable with ⟨hfits, p, m1, hattempt, hplaced⟩ | ⟨hshort, m1, hattempt, hsame⟩
    . right
      rw [← hsize] at hattempt
      refine ⟨?_, p, m1, 16 * 2 ^ k, hfits, scratch_done hattempt, hplaced⟩
      intro j hj htried
      rcases Nat.eq_or_lt_of_le hj with rfl | hgt
      . exact havailable
      . have := htried k hgt
        omega
    . have hnext : Tried w (k + 1) := by
        intro i hi
        rcases Nat.lt_or_eq_of_le (Nat.le_of_lt_succ hi) with hi | rfl
        . exact hk i hi
        . exact hshort
      rw [← hsize] at hattempt
      rw [scratch_again hattempt]
      rcases scratch_spec available m1 hw hlen (k + 1) hnext with hnone | ⟨hall, p, m2, n, hn, hscratch, hplaced⟩
      . left
        obtain ⟨j, htried, hnone, m2, hscratch, hsame2⟩ := hnone
        exact ⟨j, htried, hnone, m2, hscratch, hsame.trans hsame2⟩
      . right
        refine ⟨?_, p, m2, n, hn, hscratch, hsame.placed hplaced⟩
        intro j hj htried
        rcases Nat.eq_or_lt_of_le hj with rfl | hgt
        . exact havailable
        . exact hall j hgt htried
termination_by w.length + 2 - 16 * 2 ^ k
decreasing_by
  have : 2 ^ (k + 1) = 2 * 2 ^ k := by
    rw [Nat.pow_succ]
    omega
  omega

theorem strlen_go_cells (hw : nul ∉ w) (rest : List Cell)
    : strlen.go (cells w ++ some nul :: rest) = some w.length := by
  induction w with
  | nil => rfl
  | cons b w ih =>
    rw [List.mem_cons, not_or] at hw
    change (if b = nul then some 0 else (strlen.go (cells w ++ some nul :: rest)).map (· + 1)) = _
    rw [if_neg (Ne.symm hw.1), ih hw.2]
    rfl

theorem take_filled (hn : w.length + 2 ≤ n) : (filled n w).take (w.length + 1) = cstring w := by
  have htake : w.take (n - 1) = w := List.take_of_length_le (by omega)
  unfold filled
  rw [htake]
  apply content_replaced

theorem strlen_filled (hw : nul ∉ w) (hn : w.length + 2 ≤ n) (hblock : m.blocks.get p = some (filled n w))
    : m.strlen (some p) = some w.length := by
  have hsplit := List.take_append_drop (w.length + 1) (filled n w)
  rw [take_filled hn, cstring_eq, List.append_assoc] at hsplit
  unfold strlen blockOf
  rw [Option.bind_some, hblock, Option.bind_some, ← hsplit]
  exact strlen_go_cells hw _

theorem mapM_cells (w : Bytes) : (cells w).mapM id = some w := by
  induction w with
  | nil => rfl
  | cons b w ih =>
    rw [cells, List.map_cons, List.mapM_cons]
    change ((cells w).mapM id).bind _ = _
    rw [ih]
    rfl

theorem loadBytes_filled (hn : w.length + 2 ≤ n) (hblock : m.blocks.get p = some (filled n w))
    : m.loadBytes (some p) w.length = some w := by
  have htake : (filled n w).take w.length = cells w := by
    have h := congrArg (List.take w.length) (take_filled hn)
    rw [List.take_take, Nat.min_eq_left (Nat.le_succ _), cstring_eq, List.take_left' (length_cells w)] at h
    exact h
  unfold loadBytes
  rw [load_eq hblock (by rw [length_filled (by omega)]; omega), List.drop_zero, htake]
  exact mapM_cells w

end Scratch

section Sizes

variable {m m' : Memory} {o o' : BufferObject}

theorem size_clone (h : o.clone m = some (o', m')) : o'.size = o.size := by
  unfold clone at h
  obtain ⟨k, -, h⟩ := Option.bind_eq_some_iff.mp h
  split at h
  . cases h
    rfl
  . obtain ⟨data, -, h⟩ := Option.bind_eq_some_iff.mp h
    obtain ⟨m1, -, h⟩ := Option.bind_eq_some_iff.mp h
    obtain ⟨m2, -, h⟩ := Option.bind_eq_some_iff.mp h
    cases h
    rfl

theorem size_resize (h : o.resize m n = some (o', m')) : o'.size = o.size := by
  unfold resize at h
  obtain ⟨⟨p, m1⟩, -, h⟩ := Option.bind_eq_some_iff.mp h
  dsimp only at h
  split at h
  . obtain ⟨m2, -, h⟩ := Option.bind_eq_some_iff.mp h
    cases h
    rfl
  . cases h
    rfl

theorem size_reserve (h : o.reserve m n = some (ok, o', m')) : o'.size = o.size := by
  unfold reserve at h
  split at h
  . cases h
    rfl
  . obtain ⟨⟨o1, m1⟩, hresize, h⟩ := Option.bind_eq_some_iff.mp h
    cases h
    exact size_resize hresize

theorem size_append (h : o.append m d = some (ok, o', m'))
    : o'.size = o.size ∨ o'.size = uint32 (o.size + d.length) := by
  unfold append at h
  split at h
  . cases h
    exact Or.inl rfl
  . obtain ⟨⟨o1, m1⟩, hclone, h⟩ := Option.bind_eq_some_iff.mp h
    obtain ⟨⟨ok1, o2, m2⟩, hreserve, h⟩ := Option.bind_eq_some_iff.mp h
    have hsize : o2.size = o.size := (size_reserve hreserve).trans (size_clone hclone)
    dsimp only at h
    split at h
    . obtain ⟨m3, -, h⟩ := Option.bind_eq_some_iff.mp h
      obtain ⟨m4, -, h⟩ := Option.bind_eq_some_iff.mp h
      cases h
      right
      dsimp only
      rw [hsize]
    . cases h
      exact Or.inl hsize

theorem size_appendVaprintf_lt (h : o.appendVaprintf available m w = some (o', m')) (hsize : o.size < uint32Size)
    : o'.size < uint32Size := by
  unfold appendVaprintf at h
  obtain ⟨⟨buf, m1⟩, -, h⟩ := Option.bind_eq_some_iff.mp h
  dsimp only at h
  split at h
  . obtain ⟨len, -, h⟩ := Option.bind_eq_some_iff.mp h
    obtain ⟨data, -, h⟩ := Option.bind_eq_some_iff.mp h
    obtain ⟨⟨ok, o1, m2⟩, happend, h⟩ := Option.bind_eq_some_iff.mp h
    obtain ⟨m3, -, h⟩ := Option.bind_eq_some_iff.mp h
    cases h
    rcases size_append happend with heq | heq
    . rw [heq]
      exact hsize
    . rw [heq]
      exact Nat.mod_lt _ (by decide)
  . cases h
    exact hsize

end Sizes

def Reads (m : Memory) (o : BufferObject) (t : Bytes) : Prop :=
  o.size = t.length ∧ m.load o.data 0 (t.length + 1) = some (cstring t)

theorem Holds.reads (h : Holds m o q block b) : Reads m o b.data := by
  have hle := b.size_le
  have hlength := h.length
  refine ⟨h.size, ?_⟩
  rw [h.data, load_eq h.block_eq (by omega), List.drop_zero, h.content]

section Appended

variable {m : Memory} {o : BufferObject} {q c k : Nat} {block : List Cell} {b : Buffer}

theorem append_sole (h : Holds m o q block b) (hrefcount : o.refcount = some c) (hcount : m.counts.get c = some k)
    (hk : 0 < k) (hlt : k < uint32Size)
    : ∃ o1 m1 q1 block1, (∀ d, d.length ≠ 0 → o.append m d = o1.append m1 d) ∧ m1.countOf o1.refcount = some 1 ∧
        Holds m1 o1 q1 block1 b ∧
        ∀ p cells, p ≠ q → m.blocks.get p = some cells → p ≠ q1 ∧ m1.blocks.get p = some cells := by
  rcases Nat.eq_or_lt_of_le (Nat.succ_le_of_lt hk) with rfl | hmany
  . refine ⟨o, m, q, block, fun _ _ => rfl, ?_, h, fun p cells hp hcells => ⟨hp, hcells⟩⟩
    rw [countOf_eq hrefcount, hcount]
  . obtain ⟨o1, m1, hclone, hborn⟩ := clone_shared h hrefcount hcount hmany hlt
    have hone := hborn.count
    obtain ⟨q1, c1, block1, halloc, -, hholds⟩ := hborn
    refine ⟨o1, m1, q1, block1, ?_, hone, hholds, ?_⟩
    . intro d hd
      unfold append
      rw [if_neg hd, if_neg hd, hclone, clone_alone hone]
    . intro p cells _ hcells
      have hne : p ≠ q1 := Heap.ne_of_get hcells halloc.block_fresh
      refine ⟨hne, ?_⟩
      rw [halloc.blocks, if_neg hne]
      exact hcells

theorem append_fits (h : Holds m o q block b) (hrefcount : o.refcount = some c) (hcount : m.counts.get c = some k)
    (hk : 0 < k) (hlt : k < uint32Size) (hfits : b.data.length + d.length + 1 < uint32Size)
    : ∃ o' m' q' block' b', o.append m d = some (true, o', m') ∧ Holds m' o' q' block' b' ∧ b.append d = some b' ∧
        b'.data = b.data ++ d ∧ ∀ p cells, p ≠ q → m.blocks.get p = some cells → p ≠ q' ∧ m'.blocks.get p = some cells := by
  by_cases hd : d.length = 0
  . refine ⟨o, m, q, block, b, if_pos hd, h, if_pos hd, ?_, fun p cells hp hcells => ⟨hp, hcells⟩⟩
    rw [List.length_eq_zero_iff.mp hd, List.append_nil]
  . obtain ⟨o1, m1, q1, block1, happend, hone, hholds, hkept⟩ := append_sole h hrefcount hcount hk hlt
    obtain ⟨b', hb', hdata⟩ := b.append_spec d hfits
    obtain ⟨o', m', hobject, q', block', hholds', hr, -⟩ := append_spec hholds hone hb'
    refine ⟨o', m', q', block', b', (happend d hd).trans hobject, hholds', hb', hdata, ?_⟩
    intro p cells hp hcells
    obtain ⟨hp1, hcells1⟩ := hkept p cells hp hcells
    have hne : p ≠ q' := by
      rintro rfl
      exact Heap.ne_of_get hcells1 (hr.fresh.resolve_left hp1) rfl
    exact ⟨hne, (hr.frame p hp1 hne).trans hcells1⟩

theorem size_append_of_full (h : Holds m o q block b) (hrefcount : o.refcount = some c)
    (hcount : m.counts.get c = some k) (hk : 0 < k) (hlt : k < uint32Size) (hd : d.length ≠ 0)
    (hfull : b.data.length + d.length + 1 = uint32Size) (happend : o.append m d = some (ok, o', m'))
    : o'.size = b.data.length := by
  obtain ⟨o1, m1, q1, block1, hsole, hone, hholds, -⟩ := append_sole h hrefcount hcount hk hlt
  rw [hsole d hd, LoneBuffer.append_full hholds hone hd (by rw [hholds.size]; exact hfull)] at happend
  cases happend
  exact hholds.size

end Appended

section Printed

variable {m : Memory} {o : BufferObject} {q c k : Nat} {block : List Cell} {b : Buffer} {w : Bytes}

theorem Same.holds {m' : Memory} (hsame : Same m m') (h : Holds m o q block b) : Holds m' o q block b :=
  h.of_block ((hsame.blocks q).trans h.block_eq)

-- the block and its object, while the scratch block is there
theorem placed_holds {m1 : Memory} {block1 : List Cell} (hplaced : Placed m m1 p block1) (h : Holds m o q block b)
    : p ≠ q ∧ Holds m1 o q block b := by
  have hne : p ≠ q := Ne.symm (Heap.ne_of_get h.block_eq hplaced.fresh)
  refine ⟨hne, h.of_block ?_⟩
  rw [hplaced.blocks, if_neg (Ne.symm hne), h.block_eq]

theorem appendVaprintf_eq {m1 : Memory} (hscratch : scratch available w m 0 = some (some p, m1))
    (hblock : m1.blocks.get p = some (filled n w)) (hw : nul ∉ w) (hn : w.length + 2 ≤ n) (hlen : w.length < uint32Size)
    : o.appendVaprintf available m w = (o.append m1 w).bind fun r => (r.2.2.free (some p)).map fun m => (r.2.1, m) := by
  unfold appendVaprintf
  rw [hscratch]
  dsimp only [bind, Option.bind]
  rw [Option.isSome_some, if_pos rfl, strlen_filled hw hn hblock]
  dsimp only
  rw [uint32_of_lt hlen, loadBytes_filled hn hblock]
  dsimp only
  cases o.append m1 w with
  | none => rfl
  | some r =>
    dsimp only
    cases r.2.2.free (some p) with
    | none => rfl
    | some m => rfl

variable {available : Nat → Bool}

theorem appendVaprintf_appends (h : Holds m o q block b) (hrefcount : o.refcount = some c)
    (hcount : m.counts.get c = some k) (hk : 0 < k) (hlt : k < uint32Size) (hw : nul ∉ w)
    (havailable : ∀ j, Tried w j → available (16 * 2 ^ j) = true) (hfits : b.data.length + w.length + 1 < uint32Size)
    : ∃ o' m' q' block' b', o.appendVaprintf available m w = some (o', m') ∧ Holds m' o' q' block' b' ∧
        b.appendVaprintf w = some b' ∧ b'.data = b.data ++ w := by
  have hlen : w.length < uint32Size := by omega
  rcases scratch_spec available m hw hlen 0 nofun with ⟨j, htried, hnone, -⟩ | ⟨-, p, m1, n, hn, hscratch, hplaced⟩
  . rw [havailable j htried] at hnone
    cases hnone
  . obtain ⟨hne, h1⟩ := placed_holds hplaced h
    rw [← hplaced.counts] at hcount
    obtain ⟨o', m2, q', block', b', happend, hholds, hb', hdata, hkept⟩ := append_fits h1 hrefcount hcount hk hlt hfits
    obtain ⟨hne', hblock⟩ := hkept p _ hne hplaced.here
    refine ⟨o', { m2 with blocks := m2.blocks.free p }, q', block', b', ?_, ?_, ?_, hdata⟩
    . rw [appendVaprintf_eq hscratch hplaced.here hw hn hlen, happend, Option.bind_some, free_eq hblock]
      rfl
    . apply hholds.of_block
      rw [Heap.get_free (Heap.lt_next hblock), if_neg (Ne.symm hne')]
      exact hholds.block_eq
    . rw [Buffer.appendVaprintf, Buffer.vaprintf_eq, cstr_eq_self w hw]
      exact hb'

theorem appendVaprintf_nil (h : Holds m o q block b) (hrefcount : o.refcount = some c)
    (hcount : m.counts.get c = some k) (hk : 0 < k) (hlt : k < uint32Size)
    : ∃ o' m', o.appendVaprintf available m [] = some (o', m') ∧ Reads m' o' b.data := by
  by_cases havailable : ∀ j, Tried [] j → available (16 * 2 ^ j) = true
  . have hfits : b.data.length + ([] : Bytes).length + 1 < uint32Size := by
      have hle := b.size_le
      have hsmall := h.small
      rw [List.length_nil]
      omega
    obtain ⟨o', m', q', block', b', happend, hholds, -, hdata⟩ :=
      appendVaprintf_appends h hrefcount hcount hk hlt List.not_mem_nil havailable hfits
    rw [List.append_nil] at hdata
    exact ⟨o', m', happend, hdata ▸ hholds.reads⟩
  . rcases scratch_spec available m List.not_mem_nil (by decide) 0 nofun with ⟨-, -, -, m1, hscratch, hsame⟩ | ⟨hall, -⟩
    . refine ⟨o, m1, ?_, (hsame.holds h).reads⟩
      unfold appendVaprintf
      rw [hscratch]
      rfl
    . exact absurd (fun j htried => hall j (Nat.zero_le j) htried) havailable

theorem of_reads_appendVaprintf (h : Holds m o q block b) (hrefcount : o.refcount = some c)
    (hcount : m.counts.get c = some k) (hk : 0 < k) (hlt : k < uint32Size) (hw : nul ∉ w) (hne : w ≠ [])
    (hprinted : o.appendVaprintf available m w = some (o', m')) (hreads : Reads m' o' (b.data ++ w))
    : (∀ j, Tried w j → available (16 * 2 ^ j) = true) ∧ b.data.length + w.length + 1 < uint32Size := by
  have hpos : 0 < w.length := List.length_pos_of_ne_nil hne
  have hle := b.size_le
  have hsmall := h.small
  have hsize := hreads.1
  rw [List.length_append] at hsize
  have hrange := size_appendVaprintf_lt hprinted (by rw [h.size]; omega)
  have hlen : w.length < uint32Size := by omega
  rcases scratch_spec available m hw hlen 0 nofun with ⟨-, -, -, m1, hscratch, -⟩ | ⟨hall, p, m1, n, hn, hscratch, hplaced⟩
  . have hsame : o' = o := by
      unfold appendVaprintf at hprinted
      rw [hscratch] at hprinted
      cases hprinted
      rfl
    rw [hsame, h.size] at hsize
    omega
  . refine ⟨fun j htried => hall j (Nat.zero_le j) htried, ?_⟩
    obtain ⟨-, h1⟩ := placed_holds hplaced h
    rw [← hplaced.counts] at hcount
    rw [appendVaprintf_eq hscratch hplaced.here hw hn hlen] at hprinted
    obtain ⟨⟨ok, o1, m2⟩, happend, hfree⟩ := Option.bind_eq_some_iff.mp hprinted
    obtain ⟨m3, -, hfree⟩ := Option.map_eq_some_iff.mp hfree
    cases hfree
    by_contra hfull
    dsimp only at hsize hrange
    have hkept := size_append_of_full h1 hrefcount hcount hk hlt (Nat.ne_of_gt hpos) (by omega) happend
    omega

/--
The format result is appended, exactly and as a whole, if it is empty, or if `malloc` has a block for every length that
the loop tries and the content with the result and a NUL fits 32 bits.
-/
theorem appendVaprintf_iff (h : Holds m o q block b) (hrefcount : o.refcount = some c)
    (hcount : m.counts.get c = some k) (hk : 0 < k) (hlt : k < uint32Size) (hw : nul ∉ w)
    : (∃ o' m', o.appendVaprintf available m w = some (o', m') ∧ Reads m' o' (b.data ++ w)) ↔
        w = [] ∨ ((∀ j, Tried w j → available (16 * 2 ^ j) = true) ∧ b.data.length + w.length + 1 < uint32Size) := by
  constructor
  . rintro ⟨o', m', hprinted, hreads⟩
    by_cases hne : w = []
    . exact Or.inl hne
    . exact Or.inr (of_reads_appendVaprintf h hrefcount hcount hk hlt hw hne hprinted hreads)
  . rintro (rfl | ⟨havailable, hfits⟩)
    . rw [List.append_nil]
      exact appendVaprintf_nil h hrefcount hcount hk hlt
    . obtain ⟨o', m', q', block', b', hprinted, hholds, -, hdata⟩ :=
        appendVaprintf_appends h hrefcount hcount hk hlt hw havailable hfits
      exact ⟨o', m', hprinted, hdata ▸ hholds.reads⟩

-- the scratch block is made three times, of 16, 32 and 64 bytes
def fortyBytes : Bytes :=
  List.replicate 40 99

theorem appendVaprintf_iff_doubling
    : ∃ o m, ofData .init [97, 98] = some (o, m) ∧
        ∃ o' m', o.appendVaprintf (fun _ => true) m fortyBytes = some (o', m') ∧ Reads m' o' ([97, 98] ++ fortyBytes) := by
  have hd : ([97, 98] : Bytes).length + 1 < uint32Size := by decide
  obtain ⟨o, m, hmade, hborn⟩ := ofData_spec .init hd
  have hcount := hborn.count
  obtain ⟨p, c, block, -, hrefcount, hholds⟩ := hborn
  rw [countOf_eq hrefcount] at hcount
  have hfits : (exactly [97, 98] hd).data.length + fortyBytes.length + 1 < uint32Size := by
    change 43 < uint32Size
    decide
  exact ⟨o, m, hmade, (appendVaprintf_iff hholds hrefcount hcount (by decide) (by decide) (by decide)).mpr
    (Or.inr ⟨fun _ _ => rfl, hfits⟩)⟩

def fullContent : Bytes :=
  List.replicate (2 ^ 32 - 2) 97

theorem length_fullContent : fullContent.length = 2 ^ 32 - 2 :=
  List.length_replicate

theorem fullContent_lt : fullContent.length + 1 < uint32Size := by
  rw [length_fullContent]
  decide

-- one byte more, and the NUL has no place: `reserve` ends with `realloc` for no bytes
theorem appendVaprintf_fails_full
    : ∃ o m, ofData .init fullContent = some (o, m) ∧
        ¬∃ o' m', o.appendVaprintf (fun _ => true) m [97] = some (o', m') ∧ Reads m' o' (fullContent ++ [97]) := by
  obtain ⟨o, m, hmade, hborn⟩ := ofData_spec .init fullContent_lt
  have hcount := hborn.count
  obtain ⟨p, c, block, -, hrefcount, hholds⟩ := hborn
  rw [countOf_eq hrefcount] at hcount
  refine ⟨o, m, hmade, ?_⟩
  rintro ⟨o', m', hprinted, hreads⟩
  obtain ⟨-, hfits⟩ := of_reads_appendVaprintf hholds hrefcount hcount (by decide) (by decide) (by decide)
    (List.cons_ne_nil _ _) hprinted hreads
  have hdata : (exactly fullContent fullContent_lt).data.length = 2 ^ 32 - 2 := length_fullContent
  rw [hdata, List.length_singleton] at hfits
  exact absurd hfits (by decide)

end Printed

end BufferObject
end Kids
