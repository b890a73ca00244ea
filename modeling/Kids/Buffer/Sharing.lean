import Kids.Buffer.Allocation

/-!
What the operations of the class do to objects that share blocks.
-/

namespace Kids

open Bytes Memory BufferObject

namespace Sharing

variable {m m' : Memory} {objs : Heap BufferObject} {s : Heap Bytes} {o o' : BufferObject}

def owners (objs : Heap BufferObject) (c : Option Nat) : Nat :=
  objs.count fun o => o.refcount == c

/--
What is true of the objects of a program and the byte strings they stand for, between its statements.
-/
structure Inv (m : Memory) (objs : Heap BufferObject) (s : Heap Bytes) : Prop where
  next : objs.next = s.next
  objects : ∀ i, (objs.get i).isSome = (s.get i).isSome
  holds : ∀ i o t, objs.get i = some o → s.get i = some t → ∃ p block b, Holds m o p block b ∧ b.data = t
  counted : ∀ i o, objs.get i = some o →
    ∃ c, o.refcount = some c ∧ m.counts.get c = some (owners objs o.refcount) ∧ owners objs o.refcount < uint32Size
  paired : ∀ i j o o', objs.get i = some o → objs.get j = some o' → (o.data = o'.data ↔ o.refcount = o'.refcount)
  owned : ∀ p block, m.blocks.get p = some block → ∃ i o, objs.get i = some o ∧ o.data = some p

theorem inv_init : Inv .init [] [] where
  next := rfl
  objects := fun _ => rfl
  holds := nofun
  counted := nofun
  paired := nofun
  owned := nofun

theorem Inv.string (h : Inv m objs s) (hi : objs.get i = some o) : ∃ t, s.get i = some t := by
  apply Option.isSome_iff_exists.mp
  rw [← h.objects, hi]
  rfl

theorem Inv.object (h : Inv m objs s) (hi : s.get i = some t) : ∃ o, objs.get i = some o := by
  apply Option.isSome_iff_exists.mp
  rw [h.objects, hi]
  rfl

theorem owners_pos (hi : objs.get i = some o) : 0 < owners objs o.refcount :=
  (Heap.count_pos_iff objs _).mpr ⟨i, o, hi, beq_self_eq_true _⟩

theorem Inv.alone (h : Inv m objs s) (hi : objs.get i = some o) (hone : owners objs o.refcount = 1)
    (hj : objs.get j = some o') (hne : j ≠ i) : o'.refcount ≠ o.refcount ∧ o'.data ≠ o.data := by
  have hkind := Heap.kind_of_count_one hi (beq_self_eq_true o.refcount) hone hj hne
  have hrefcount : o'.refcount ≠ o.refcount := by
    simpa using hkind
  exact ⟨hrefcount, fun hdata => hrefcount ((h.paired j i o' o hj hi).mp hdata)⟩

theorem Inv.reserve (h : Inv m objs s) : Inv m objs.reserve s.reserve := by
  constructor
  . rw [Heap.next_reserve, Heap.next_reserve, h.next]
  . simpa using h.objects
  . simpa using h.holds
  . simpa [owners] using h.counted
  . simpa using h.paired
  . simpa using h.owned

theorem Inv.next_lt (h : Inv m objs s) (hi : i < objs.next) : i < s.next := by
  rw [← h.next]
  exact hi

/--
The object `i` comes, goes or changes. What the others need of it is that their blocks stay and their counters
go with the number of owners.
-/
theorem Inv.change (h : Inv m objs s) (hi : i < objs.next) (x : Option BufferObject) (t : Option Bytes)
    (hx : x.isSome = t.isSome)
    (hblocks : ∀ j o p, j ≠ i → objs.get j = some o → o.data = some p → m'.blocks.get p = m.blocks.get p)
    (hcounts : ∀ j o c, j ≠ i → objs.get j = some o → o.refcount = some c →
      m'.counts.get c = some (owners (objs.set i x) o.refcount) ∧ owners (objs.set i x) o.refcount < uint32Size)
    (hself : ∀ o, x = some o → ∃ p c block b, Holds m' o p block b ∧ t = some b.data ∧ o.refcount = some c ∧
      m'.counts.get c = some (owners (objs.set i x) o.refcount) ∧ owners (objs.set i x) o.refcount < uint32Size)
    (hpaired : ∀ o j o', x = some o → j ≠ i → objs.get j = some o' → (o.data = o'.data ↔ o.refcount = o'.refcount))
    (howned : ∀ p block, m'.blocks.get p = some block →
      (∃ j o, j ≠ i ∧ objs.get j = some o ∧ o.data = some p) ∨ ∃ o, x = some o ∧ o.data = some p)
    : Inv m' (objs.set i x) (s.set i t) := by
  have hobjs := Heap.get_set hi x
  have hs := Heap.get_set (h.next_lt hi) t
  constructor
  . have hnext := h.next
    simpa [Heap.next] using hnext
  . intro j
    rw [hobjs, hs]
    split
    . exact hx
    . exact h.objects j
  . intro j o u hj hu
    rw [hobjs] at hj
    rw [hs] at hu
    split at hj
    . next heq =>
      rw [if_pos heq] at hu
      obtain ⟨p, c, block, b, hholds, ht, -⟩ := hself o hj
      refine ⟨p, block, b, hholds, ?_⟩
      rw [ht] at hu
      exact Option.some.inj hu
    . next hne =>
      rw [if_neg hne] at hu
      obtain ⟨p, block, b, hholds, hb⟩ := h.holds j o u hj hu
      refine ⟨p, block, b, hholds.of_block ?_, hb⟩
      rw [hblocks j o p hne hj hholds.data, hholds.block_eq]
  . intro j o hj
    rw [hobjs] at hj
    split at hj
    . obtain ⟨p, c, block, b, -, -, hrefcount, hcount⟩ := hself o hj
      exact ⟨c, hrefcount, hcount⟩
    . next hne =>
      obtain ⟨c, hrefcount, -⟩ := h.counted j o hj
      exact ⟨c, hrefcount, hcounts j o c hne hj hrefcount⟩
  . intro j k oj ok hj hk
    rw [hobjs] at hj hk
    split at hj
    . split at hk
      . rw [hj] at hk
        cases hk
        exact iff_of_true rfl rfl
      . next hne => exact hpaired oj k ok hj hne hk
    . next hne =>
      split at hk
      . have hiff := hpaired ok j oj hk hne hj
        rw [eq_comm, hiff, eq_comm]
      . exact h.paired j k oj ok hj hk
  . intro p block hp
    rcases howned p block hp with ⟨j, o, hne, hj, hdata⟩ | ⟨o, ho, hdata⟩
    . refine ⟨j, o, ?_, hdata⟩
      rw [hobjs, if_neg hne, hj]
    . refine ⟨i, o, ?_, hdata⟩
      rw [hobjs, if_pos rfl, ho]

theorem owners_set (hi : i < objs.next) (x : Option BufferObject) (c : Option Nat)
    : owners (objs.set i x) c + ((objs.get i).any fun o => o.refcount == c).toNat
        = owners objs c + (x.any fun o => o.refcount == c).toNat :=
  Heap.count_set hi _ x

theorem owners_set_of_ne (hi : objs.get i = some o) {x : Option BufferObject} {c : Option Nat} (hold : o.refcount ≠ c)
    (hnew : ∀ o', x = some o' → o'.refcount ≠ c) : owners (objs.set i x) c = owners objs c := by
  have hset := owners_set (Heap.lt_next hi) x c
  rw [hi, Option.any_some, beq_eq_false_iff_ne.mpr hold] at hset
  cases x with
  | none => exact hset
  | some o' =>
    rw [Option.any_some, beq_eq_false_iff_ne.mpr (hnew o' rfl)] at hset
    exact hset

theorem Inv.block (h : Inv m objs s) (hi : objs.get i = some o)
    : ∃ p block, o.data = some p ∧ m.blocks.get p = some block := by
  obtain ⟨t, ht⟩ := h.string hi
  obtain ⟨p, block, b, hholds, -⟩ := h.holds i o t hi ht
  exact ⟨p, block, hholds.data, hholds.block_eq⟩

theorem Inv.count_eq (h : Inv m objs s) (hi : objs.get i = some o) (hrefcount : o.refcount = some c)
    : m.counts.get c = some (owners objs o.refcount) := by
  obtain ⟨c', hc', hcount, -⟩ := h.counted i o hi
  rw [hrefcount] at hc'
  cases hc'
  exact hcount

theorem Inv.owners_lt (h : Inv m objs s) (hi : objs.get i = some o) : owners objs o.refcount < uint32Size := by
  obtain ⟨-, -, -, hlt⟩ := h.counted i o hi
  exact hlt

theorem Inv.owners_eq (h : Inv m objs s) (hi : objs.get i = some o) (hrefcount : o.refcount = some c)
    (hcount : m.counts.get c = some k) : owners objs o.refcount = k := by
  have heq := h.count_eq hi hrefcount
  rw [hcount] at heq
  exact (Option.some.inj heq).symm

theorem Inv.data_ne_of_fresh (h : Inv m objs s) (hi : objs.get i = some o) (hfresh : m.blocks.get p = none)
    : o.data ≠ some p := by
  intro hdata
  obtain ⟨q, block, hq, hblock⟩ := h.block hi
  rw [hdata] at hq
  cases hq
  exact Heap.ne_of_get hblock hfresh rfl

theorem Inv.owned_else {block : List Cell} (h : Inv m objs s) (hq : m.blocks.get q = some block)
    (hi : ∀ o, objs.get i = some o → o.data ≠ some q) : ∃ j o, j ≠ i ∧ objs.get j = some o ∧ o.data = some q := by
  obtain ⟨j, o, hj, hdata⟩ := h.owned q block hq
  refine ⟨j, o, ?_, hj, hdata⟩
  rintro rfl
  exact hi o hj hdata

theorem Inv.recount {objs' : Heap BufferObject} (h : Inv m objs s) (hrefcount : o.refcount = some c)
    (hcounts : ∀ d, m'.counts.get d = if d = c then some n else m.counts.get d)
    (howners : owners objs' o.refcount = n) (hn : n < uint32Size)
    (hothers : ∀ e, o.refcount ≠ e → owners objs' e = owners objs e)
    (hj : objs.get j = some o') (hd : o'.refcount = some d)
    : m'.counts.get d = some (owners objs' o'.refcount) ∧ owners objs' o'.refcount < uint32Size := by
  rw [hcounts]
  by_cases hsame : o'.refcount = o.refcount
  . have hdc : d = c := by
      rw [hd, hrefcount] at hsame
      exact Option.some.inj hsame
    rw [if_pos hdc, hsame, howners]
    exact ⟨rfl, hn⟩
  . have hdc : d ≠ c := by
      rintro rfl
      apply hsame
      rw [hd, hrefcount]
    rw [if_neg hdc, hothers _ (Ne.symm hsame)]
    exact ⟨h.count_eq hj hd, h.owners_lt hj⟩

theorem Inv.dropLast (h : Inv m objs s) (hi : objs.get i = some o) (hdata : o.data = some p)
    (hrefcount : o.refcount = some c) (hcount : m.counts.get c = some 1)
    : Inv (releaseLast m p c) (objs.free i) (s.free i) := by
  have hone := h.owners_eq hi hrefcount hcount
  obtain ⟨p', block, hdata', hblock⟩ := h.block hi
  rw [hdata] at hdata'
  cases hdata'
  have hfreed : ∀ q, (releaseLast m p c).blocks.get q = if q = p then none else m.blocks.get q :=
    Heap.get_free (Heap.lt_next hblock)
  apply h.change (Heap.lt_next hi) none none rfl
  . intro j oj q hne hj hq
    rw [hfreed, if_neg]
    rintro rfl
    apply (h.alone hi hone hj hne).2
    rw [hq, hdata]
  . intro j oj d hne hj hd
    have hother := (h.alone hi hone hj hne).1
    have hcount' : (releaseLast m p c).counts.get d = m.counts.get d := by
      unfold releaseLast
      rw [Heap.get_free (Heap.lt_next hcount), if_neg]
      rintro rfl
      apply hother
      rw [hd, hrefcount]
    rw [hcount', owners_set_of_ne (x := none) hi (Ne.symm hother) nofun]
    exact ⟨h.count_eq hj hd, h.owners_lt hj⟩
  . exact nofun
  . exact nofun
  . intro q block' hq
    left
    rw [hfreed] at hq
    split at hq
    . cases hq
    . next hne =>
      apply h.owned_else hq
      intro oj hj hqj
      rw [hi] at hj
      cases hj
      rw [hdata] at hqj
      cases hqj
      exact hne rfl

theorem get_free_of_ne (hi : objs.get i = some o) (hj : (objs.free i).get j = some o')
    : j ≠ i ∧ objs.get j = some o' := by
  rw [Heap.get_free (Heap.lt_next hi)] at hj
  split at hj
  . cases hj
  . next hne => exact ⟨hne, hj⟩

theorem Inv.dropShared (h : Inv m objs s) (hi : objs.get i = some o) (hrefcount : o.refcount = some c)
    (hcount : m.counts.get c = some k) (hk : 1 < k) : Inv (releaseShared m c k) (objs.free i) (s.free i) := by
  have howners := h.owners_eq hi hrefcount hcount
  have hlt := h.owners_lt hi
  have hleft : owners (objs.set i none) o.refcount = k - 1 := by
    have hset := owners_set (Heap.lt_next hi) none o.refcount
    rw [hi, Option.any_some, beq_self_eq_true, Bool.toNat_true, Option.any_none, Bool.toNat_false, howners] at hset
    omega
  have hput : ∀ d, (releaseShared m c k).counts.get d = if d = c then some (k - 1) else m.counts.get d :=
    Heap.get_put (Heap.lt_next hcount) (k - 1)
  apply h.change (Heap.lt_next hi) none none rfl
  . exact fun _ _ _ _ _ _ => rfl
  . intro j oj d _ hj hd
    apply h.recount hrefcount hput hleft _ _ hj hd
    . omega
    . exact fun _ hother => owners_set_of_ne hi hother nofun
  . exact nofun
  . exact nofun
  . intro q block hq
    left
    obtain ⟨j, oj, hj, hqj⟩ := h.owned q block hq
    by_cases hij : j = i
    . subst hij
      rw [hi] at hj
      cases hj
      -- another owner of the same counter
      have hpos : 0 < owners (objs.free j) o.refcount := by
        change 0 < owners (objs.set j none) o.refcount
        omega
      obtain ⟨j', oj', hj', hkind⟩ := (Heap.count_pos_iff _ _).mp hpos
      obtain ⟨hne, hget⟩ := get_free_of_ne hi hj'
      refine ⟨j', oj', hne, hget, ?_⟩
      rw [(h.paired j' j oj' o hget hi).mpr (eq_of_beq hkind), hqj]
    . exact ⟨j, oj, hij, hj, hqj⟩

theorem Inv.sole_or_shared (h : Inv m objs s) (hi : objs.get i = some o)
    : ∃ p c block, o.data = some p ∧ m.blocks.get p = some block ∧ o.refcount = some c ∧
        (m.counts.get c = some 1 ∨ ∃ k, m.counts.get c = some k ∧ 1 < k ∧ k < uint32Size) := by
  obtain ⟨p, block, hdata, hblock⟩ := h.block hi
  obtain ⟨c, hrefcount, hcount, hlt⟩ := h.counted i o hi
  refine ⟨p, c, block, hdata, hblock, hrefcount, ?_⟩
  rcases Nat.eq_or_lt_of_le (owners_pos hi) with hone | hmore
  . rw [hcount, ← hone]
    exact Or.inl rfl
  . exact Or.inr ⟨_, hcount, hmore, hlt⟩

theorem Inv.free (h : Inv m objs s) (hi : objs.get i = some o)
    : ∃ m', o.free m = some (null, m') ∧ Inv m' (objs.free i) (s.free i) := by
  obtain ⟨p, c, block, hdata, hblock, hrefcount, hone | ⟨k, hcount, hk, hlt⟩⟩ := h.sole_or_shared hi
  . exact ⟨_, free_last hdata hblock hrefcount hone, h.dropLast hi hdata hrefcount hone⟩
  . exact ⟨_, free_shared hrefcount hcount hk hlt, h.dropShared hi hrefcount hcount hk⟩

theorem owners_set_fill (hi : i < objs.next) (hnone : objs.get i = none) (c : Option Nat)
    : owners (objs.set i (some o)) c = owners objs c + (o.refcount == c).toNat :=
  Heap.count_fill hi hnone _ o

theorem Inv.fill (h : Inv m objs s) (hi : i < objs.next) (hnone : objs.get i = none) (hborn : Born m m' o b)
    : Inv m' (objs.put i o) (s.put i b.data) := by
  obtain ⟨p, c, block, halloc, hrefcount, hholds⟩ := hborn
  have hfresh : ∀ j oj, objs.get j = some oj → oj.refcount ≠ some c := by
    intro j oj hj heq
    have hcount := h.count_eq hj heq
    rw [halloc.count_fresh] at hcount
    cases hcount
  have hnew : ∀ j oj, objs.get j = some oj → oj.data ≠ some p :=
    fun _ _ hj => h.data_ne_of_fresh hj halloc.block_fresh
  have hzero : owners objs o.refcount = 0 := by
    by_contra hne
    obtain ⟨j, oj, hj, hkind⟩ := (Heap.count_pos_iff _ _).mp (Nat.pos_of_ne_zero hne)
    apply hfresh j oj hj
    rw [eq_of_beq hkind, hrefcount]
  apply h.change hi (some o) (some b.data) rfl
  . intro j oj q hne hj hq
    rw [halloc.blocks, if_neg]
    rintro rfl
    exact hnew j oj hj hq
  . intro j oj d hne hj hd
    have hdc : d ≠ c := by
      rintro rfl
      exact hfresh j oj hj hd
    have hother : o.refcount ≠ oj.refcount := by
      rw [hrefcount]
      exact Ne.symm (hfresh j oj hj)
    rw [halloc.counts, if_neg hdc, owners_set_fill hi hnone, beq_eq_false_iff_ne.mpr hother]
    exact ⟨h.count_eq hj hd, h.owners_lt hj⟩
  . rintro _ ⟨⟩
    refine ⟨p, c, block, b, hholds, rfl, hrefcount, ?_⟩
    rw [halloc.counts, if_pos rfl, owners_set_fill hi hnone, hzero, beq_self_eq_true]
    exact ⟨rfl, by decide⟩
  . rintro _ j oj ⟨⟩ hne hj
    apply iff_of_false
    . rw [hholds.data]
      exact Ne.symm (hnew j oj hj)
    . rw [hrefcount]
      exact Ne.symm (hfresh j oj hj)
  . intro q block' hq
    rw [halloc.blocks] at hq
    split at hq
    . next heq =>
      right
      exact ⟨o, rfl, by rw [hholds.data, heq]⟩
    . left
      apply h.owned_else hq
      intro oj hj
      exact absurd rfl (Heap.ne_of_get hj hnone)

theorem shallowCopy_eq (hrefcount : o.refcount = some c) (hcount : m.counts.get c = some k) (hk : k + 1 < uint32Size)
    : shallowCopy o m = some (o, { m with counts := m.counts.put c (k + 1) }) := by
  unfold shallowCopy
  rw [countOf_eq hrefcount, hcount, hrefcount]
  dsimp only [bind, Option.bind]
  rw [setCount_eq hcount, uint32_of_lt hk]

theorem Inv.share (h : Inv m objs s) (hi : i < objs.next) (hnone : objs.get i = none) (hj : objs.get j = some o)
    (ht : s.get j = some t) (hroom : owners objs o.refcount + 1 < uint32Size)
    : ∃ m', shallowCopy o m = some (o, m') ∧ Inv m' (objs.put i o) (s.put i t) := by
  obtain ⟨c, hrefcount, hcount, -⟩ := h.counted j o hj
  obtain ⟨p, block, b, hholds, hb⟩ := h.holds j o t hj ht
  have hput := Heap.get_put (Heap.lt_next hcount) (owners objs o.refcount + 1)
  have hmore : owners (objs.set i (some o)) o.refcount = owners objs o.refcount + 1 := by
    rw [owners_set_fill hi hnone, beq_self_eq_true]
    rfl
  refine ⟨_, shallowCopy_eq hrefcount hcount hroom, ?_⟩
  apply h.change hi (some o) (some t) rfl
  . exact fun _ _ _ _ _ _ => rfl
  . intro k ok d _ hk hd
    apply h.recount hrefcount hput hmore hroom _ hk hd
    intro e hother
    rw [owners_set_fill hi hnone, beq_eq_false_iff_ne.mpr hother]
    rfl
  . rintro _ ⟨⟩
    refine ⟨p, c, block, b, hholds.of_block hholds.block_eq, by rw [hb], hrefcount, ?_⟩
    dsimp only
    rw [hput, if_pos rfl, hmore]
    exact ⟨rfl, hroom⟩
  . rintro _ k ok ⟨⟩ hne hk
    exact h.paired j k o ok hj hk
  . intro q block' hq
    left
    apply h.owned_else hq
    intro ok hk
    exact absurd rfl (Heap.ne_of_get hk hnone)

theorem Inv.update (h : Inv m objs s) (hi : objs.get i = some o) (hcount : m.countOf o.refcount = some 1)
    (hdata : o.data = some p) (hupdated : Updated m o p m' o' b) : Inv m' (objs.put i o') (s.put i b.data) := by
  obtain ⟨p', block, hholds, hr, hsame⟩ := hupdated
  obtain ⟨c, hrefcount, hcount', hlt⟩ := h.counted i o hi
  have hone : owners objs o.refcount = 1 := by
    rw [countOf_eq hrefcount, hcount'] at hcount
    exact Option.some.inj hcount
  have hkept : owners (objs.set i (some o')) o.refcount = 1 := by
    have hset := owners_set (Heap.lt_next hi) (some o') o.refcount
    rw [hi, Option.any_some, Option.any_some, hsame, hone] at hset
    omega
  apply h.change (Heap.lt_next hi) (some o') (some b.data) rfl
  . intro j oj q hne hj hq
    have hqp : q ≠ p := by
      rintro rfl
      apply (h.alone hi hone hj hne).2
      rw [hq, hdata]
    apply hr.frame q hqp
    rintro rfl
    exact h.data_ne_of_fresh hj (hr.fresh.resolve_left hqp) hq
  . intro j oj d hne hj hd
    have hother := (h.alone hi hone hj hne).1
    have hnew : ∀ o'', some o' = some o'' → o''.refcount ≠ oj.refcount := by
      rintro _ ⟨⟩
      rw [hsame]
      exact Ne.symm hother
    rw [hr.counts, owners_set_of_ne hi (Ne.symm hother) hnew]
    exact ⟨h.count_eq hj hd, h.owners_lt hj⟩
  . rintro _ ⟨⟩
    refine ⟨p', c, block, b, hholds, rfl, by rw [hsame, hrefcount], ?_⟩
    rw [hr.counts, hsame, hkept, hcount', hone]
    exact ⟨rfl, by decide⟩
  . rintro _ j oj ⟨⟩ hne hj
    obtain ⟨hrefcount', hdata'⟩ := h.alone hi hone hj hne
    apply iff_of_false
    . rw [hholds.data]
      rcases hr.fresh with rfl | hfresh
      . rw [← hdata]
        exact Ne.symm hdata'
      . exact Ne.symm (h.data_ne_of_fresh hj hfresh)
    . rw [hsame]
      exact Ne.symm hrefcount'
  . intro q block' hq
    by_cases hqp' : q = p'
    . right
      exact ⟨o', rfl, by rw [hholds.data, hqp']⟩
    . left
      by_cases hqp : q = p
      . rw [hqp, hr.gone (by rintro rfl; exact hqp' hqp)] at hq
        cases hq
      . rw [hr.frame q hqp hqp'] at hq
        apply h.owned_else hq
        intro oj hj hqj
        rw [hi] at hj
        cases hj
        rw [hdata] at hqj
        cases hqj
        exact hqp rfl

-- the operations of the class

theorem Inv.born (h : Inv m objs s) (hborn : Born m m' o b) : Inv m' (objs.alloc o) (s.alloc b.data) := by
  have hfill := h.reserve.fill (i := objs.next) (by rw [Heap.next_reserve]; apply Nat.lt_succ_self) (by simp) hborn
  rw [Heap.put_reserve, h.next, Heap.put_reserve] at hfill
  exact hfill

theorem Inv.copy (h : Inv m objs s) (hj : objs.get j = some o) (ht : s.get j = some t)
    (hroom : owners objs o.refcount + 1 < uint32Size)
    : ∃ m', shallowCopy o m = some (o, m') ∧ Inv m' (objs.alloc o) (s.alloc t) := by
  have hj' : objs.reserve.get j = some o := by
    rw [Heap.get_reserve, hj]
  have ht' : s.reserve.get j = some t := by
    rw [Heap.get_reserve, ht]
  have hroom' : owners objs.reserve o.refcount + 1 < uint32Size := by
    unfold owners
    rw [Heap.count_reserve]
    exact hroom
  obtain ⟨m', hcopy, hshare⟩ := h.reserve.share (i := objs.next) (by rw [Heap.next_reserve]; apply Nat.lt_succ_self)
    (by simp) hj' ht' hroom'
  rw [Heap.put_reserve, h.next, Heap.put_reserve] at hshare
  exact ⟨m', hcopy, hshare⟩

theorem get_free_self (hi : objs.get i = some o) : (objs.free i).get i = none := by
  rw [Heap.get_free (Heap.lt_next hi), if_pos rfl]

theorem renew (hi : objs.get i = some o) (hdrop : Inv m' (objs.free i) (s.free i))
    (hborn : Born m' m'' o' b) : Inv m'' (objs.put i o') (s.put i b.data) := by
  have hfill := hdrop.fill (i := i) (by rw [Heap.next_free]; exact Heap.lt_next hi) (get_free_self hi) hborn
  rw [Heap.put_free, Heap.put_free] at hfill
  exact hfill

theorem Inv.clone (h : Inv m objs s) (hi : objs.get i = some o)
    : ∃ o' m', o.clone m = some (o', m') ∧ Inv m' (objs.put i o') s ∧ m'.countOf o'.refcount = some 1 ∧ o'.size = o.size := by
  obtain ⟨t, ht⟩ := h.string hi
  obtain ⟨p, c, block, hdata, hblock, hrefcount, hone | ⟨k, hcount, hk, hlt⟩⟩ := h.sole_or_shared hi
  . have halone : m.countOf o.refcount = some 1 := by
      rw [countOf_eq hrefcount, hone]
    refine ⟨o, m, clone_alone halone, ?_, halone, rfl⟩
    rw [Heap.put_self hi]
    exact h
  . obtain ⟨p', block', b, hholds, hb⟩ := h.holds i o t hi ht
    obtain ⟨o', m', hclone, hborn⟩ := clone_shared hholds hrefcount hcount hk hlt
    refine ⟨o', m', hclone, ?_, hborn.count, ?_⟩
    . have hrenew := renew hi (h.dropShared hi hrefcount hcount hk) hborn
      rw [hb, Heap.put_self ht] at hrenew
      exact hrenew
    . obtain ⟨_, _, _, _, _, hholds'⟩ := hborn
      rw [hholds'.size, hholds.size]

theorem Inv.clear (h : Inv m objs s) (hi : objs.get i = some o)
    : ∃ o' m', o.clear m = some (o', m') ∧ Inv m' (objs.put i o') (s.put i []) := by
  obtain ⟨p, c, block, hdata, hblock, hrefcount, hone | ⟨k, hcount, hk, hlt⟩⟩ := h.sole_or_shared hi
  . obtain ⟨o', m', hnew, hborn⟩ := ofCapacity_spec (releaseLast m p c)
    rw [← clear_last hdata hblock hrefcount hone] at hnew
    exact ⟨o', m', hnew, renew hi (h.dropLast hi hdata hrefcount hone) hborn⟩
  . obtain ⟨o', m', hnew, hborn⟩ := ofCapacity_spec (releaseShared m c k)
    rw [← clear_shared hrefcount hcount hk hlt] at hnew
    exact ⟨o', m', hnew, renew hi (h.dropShared hi hrefcount hcount hk) hborn⟩

theorem Inv.assignString (h : Inv m objs s) (hi : objs.get i = some o) (hstr : str.length + 1 < uint32Size)
    : ∃ o' m', o.assignString m str = some (o', m') ∧ Inv m' (objs.put i o') (s.put i str) := by
  obtain ⟨t, ht⟩ := h.string hi
  obtain ⟨p, c, block, hdata, hblock, hrefcount, hone | ⟨k, hcount, hk, hlt⟩⟩ := h.sole_or_shared hi
  . have halone : m.countOf o.refcount = some 1 := by
      rw [countOf_eq hrefcount, hone]
    obtain ⟨p', block', b, hholds, -⟩ := h.holds i o t hi ht
    obtain ⟨o', m', b', hassign, rfl, hupdated⟩ := assignString_alone hholds halone hstr
    exact ⟨o', m', hassign, h.update hi halone hholds.data hupdated⟩
  . obtain ⟨o', m', hassign, hborn⟩ := assignString_shared hrefcount hcount hk hlt hstr
    exact ⟨o', m', hassign, renew hi (h.dropShared hi hrefcount hcount hk) hborn⟩

/--
What comes after `Clone` is done by a sole owner.
-/
theorem Inv.after_clone (h : Inv m objs s) (hi : objs.get i = some o) (ht : s.get i = some t)
    : ∃ o1 m1 p block b, o.clone m = some (o1, m1) ∧ o1.clone m1 = some (o1, m1) ∧ m1.countOf o1.refcount = some 1 ∧
        Holds m1 o1 p block b ∧ b.data = t ∧ o1.size = o.size ∧ Inv m1 (objs.put i o1) s ∧
        ∀ o2 m2 b2, Updated m1 o1 p m2 o2 b2 → Inv m2 (objs.put i o2) (s.put i b2.data) := by
  obtain ⟨o1, m1, hclone, hinv, hcount, hsize⟩ := h.clone hi
  have hget : (objs.put i o1).get i = some o1 := by
    rw [Heap.get_put (Heap.lt_next hi), if_pos rfl]
  obtain ⟨p, block, b, hholds, hb⟩ := hinv.holds i o1 t hget ht
  refine ⟨o1, m1, p, block, b, hclone, clone_alone hcount, hcount, hholds, hb, hsize, hinv, ?_⟩
  intro o2 m2 b2 hupdated
  have hupdate := hinv.update hget hcount hholds.data hupdated
  rw [Heap.put_put] at hupdate
  exact hupdate

theorem Inv.append (h : Inv m objs s) (hi : objs.get i = some o) (ht : s.get i = some t)
    (hsize : (t ++ d).length + 1 < uint32Size)
    : ∃ o' m', o.append m d = some (true, o', m') ∧ Inv m' (objs.put i o') (s.put i (t ++ d)) := by
  by_cases hd : d.length = 0
  . refine ⟨o, m, if_pos hd, ?_⟩
    rw [List.length_eq_zero_iff.mp hd, List.append_nil, Heap.put_self hi, Heap.put_self ht]
    exact h
  . obtain ⟨o1, m1, p, block, b, hclone, hagain, hcount, hholds, rfl, -, -, hupdate⟩ := h.after_clone hi ht
    rw [List.length_append] at hsize
    obtain ⟨b2, happend, hdata⟩ := b.append_spec d hsize
    obtain ⟨o2, m2, hobject, hupdated⟩ := append_spec hholds hcount happend
    refine ⟨o2, m2, ?_, ?_⟩
    . rw [← hobject]
      unfold BufferObject.append
      rw [if_neg hd, if_neg hd, hclone, hagain]
    . rw [← hdata]
      exact hupdate o2 m2 b2 hupdated

theorem Inv.removeFront (h : Inv m objs s) (hi : objs.get i = some o) (ht : s.get i = some t) (hn : n ≤ t.length)
    : ∃ o' m', o.removeFront m n = some (o', m') ∧ Inv m' (objs.put i o') (s.put i (t.drop n)) := by
  by_cases hzero : n = 0
  . refine ⟨o, m, if_pos hzero, ?_⟩
    rw [hzero, List.drop_zero, Heap.put_self hi, Heap.put_self ht]
    exact h
  . obtain ⟨o1, m1, p, block, b, hclone, hagain, hcount, hholds, rfl, -, -, hupdate⟩ := h.after_clone hi ht
    have hsmall : b.data.length + 1 < uint32Size := by
      have hle := b.size_le
      have hcapacity := hholds.small
      omega
    obtain ⟨b2, hremove, hdata⟩ := b.removeFront_spec hn hsmall
    obtain ⟨o2, m2, hobject, hupdated⟩ := removeFront_spec hholds hcount hremove
    refine ⟨o2, m2, ?_, ?_⟩
    . rw [← hobject]
      unfold BufferObject.removeFront
      rw [if_neg hzero, if_neg hzero, hclone, hagain]
    . rw [← hdata]
      exact hupdate o2 m2 b2 hupdated

theorem takeFront_some (b : Buffer) (hn : n ≤ b.data.length) (hsmall : b.capacity + 1 < uint32Size)
    : ∃ b', b.takeFront n = some b' ∧ b'.data = b.data.drop n := by
  have hle := b.size_le
  unfold Buffer.takeFront Buffer.shrink
  split
  . unfold Buffer.resize
    have hsize : (b.dropFront n).size + 1 < uint32Size := by
      have hdrop : (b.dropFront n).size = b.data.length - n := List.length_drop
      omega
    rw [dif_pos hsize]
    exact ⟨_, rfl, rfl⟩
  . exact ⟨_, rfl, rfl⟩

theorem popFront_zero_eq (hclone : o.clone m = some (o1, m1)) (hnew : ofCapacity m1 0 = some (buf, m2))
    (hload : m2.load o1.data 0 0 = some []) (hstore : m2.store buf.data 0 [] = some m3)
    : o.popFront m 0 = (o1.takeFront m3 0).map fun r => (some buf, r.1, r.2) := by
  unfold BufferObject.popFront
  rw [if_neg (Nat.not_lt_zero _), hclone]
  dsimp only [bind, Option.bind]
  rw [hnew]
  dsimp only
  rw [hload]
  dsimp only
  rw [hstore]
  dsimp only
  cases o1.takeFront m3 0 with
  | none => rfl
  | some r => rfl

theorem Inv.popFront_zero (h : Inv m objs s) (hi : objs.get i = some o) (ht : s.get i = some t)
    : ∃ buf o' m', o.popFront m 0 = some (some buf, o', m') ∧ Inv m' ((objs.put i o').alloc buf) (s.alloc []) := by
  obtain ⟨o1, m1, p, block, b, hclone, -, hcount, hholds, rfl, -, hinv, -⟩ := h.after_clone hi ht
  obtain ⟨buf, m2, hnew, hborn⟩ := ofCapacity_spec m1
  have hinv2 := hinv.born hborn
  have hcount2 := hborn.count
  obtain ⟨pb, cb, blockb, halloc, hrefcountb, hholdsb⟩ := hborn
  have hpb : p ≠ pb := Heap.ne_of_get hholds.block_eq halloc.block_fresh
  have hblock2 : m2.blocks.get p = some block := by
    rw [halloc.blocks, if_neg hpb, hholds.block_eq]
  have hload : m2.load o1.data 0 0 = some [] := by
    rw [hholds.data, load_eq hblock2 (Nat.zero_le _), List.take_zero]
  -- no byte of the new buffer is written
  obtain ⟨m3, hstore, hr⟩ := store_eq hholdsb.block_eq 0 [] (Nat.zero_le _)
  rw [← hholdsb.data] at hstore
  have hget2 : ((objs.put i o1).alloc buf).get (objs.put i o1).next = some buf := by
    rw [Heap.get_alloc, if_pos rfl]
  have hgets : (s.alloc []).get (objs.put i o1).next = some [] := by
    rw [hinv.next, Heap.get_alloc, if_pos rfl]
  have hinv3 : Inv m3 ((objs.put i o1).alloc buf) (s.alloc []) := by
    have hupdate := hinv2.update hget2 hcount2 hholdsb.data ⟨pb, blockb, hholdsb.of_block hr.here, hr, rfl⟩
    rw [Heap.put_self hget2] at hupdate
    change Inv m3 _ ((s.alloc []).put _ []) at hupdate
    rw [Heap.put_self hgets] at hupdate
    exact hupdate
  have hholds3 : Holds m3 o1 p block b := by
    apply hholds.of_block
    rw [hr.frame p hpb hpb, hblock2]
  obtain ⟨b', htake, hdata⟩ := takeFront_some b (Nat.zero_le _) hholds.small
  obtain ⟨o2, m4, hobject, hupdated⟩ := takeFront_spec hholds3 (Nat.zero_le _) htake
  refine ⟨buf, o2, m4, ?_, ?_⟩
  . rw [popFront_zero_eq hclone hnew hload hstore, hobject]
    rfl
  . have hlt : i < (objs.put i o1).next := by
      rw [Heap.next_put]
      exact Heap.lt_next hi
    have hget3 : ((objs.put i o1).alloc buf).get i = some o1 := by
      rw [Heap.get_alloc, if_neg (Nat.ne_of_lt hlt), Heap.get_put (Heap.lt_next hi), if_pos rfl]
    have hcount3 : m3.countOf o1.refcount = some 1 := by
      rw [← halloc.countOf hcount]
      unfold countOf
      rw [hr.counts]
    have hupdate := hinv3.update hget3 hcount3 hholds3.data hupdated
    rw [Heap.put_alloc hlt, Heap.put_put, Heap.put_alloc (Heap.lt_next ht), hdata, List.drop_zero, Heap.put_self ht]
      at hupdate
    exact hupdate

end Sharing
end Kids
