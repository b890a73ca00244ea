import Kids.Buffer.Sharing
import Kids.Lib.Run

/-!
Programs over any number of `Buffer` objects, beside the same programs over byte strings that share nothing.
-/

namespace Kids

open Bytes Memory BufferObject Sharing

structure CString where
  text : Bytes
  noNul : nul ∉ text

/--
The statements of a program. A constructor and `pop_front` make a new object, whose number is the next one.
-/
inductive BufferOp
  | construct (data : Bytes)
  | constructString (str : CString)
  | copy (other : Nat)
  | assign (this other : Nat)
  | assignString (this : Nat) (str : CString)
  | append (this : Nat) (data : Bytes)
  | removeFront (this size : Nat)
  | popFront (this size : Nat)
  | clear (this : Nat)
  | destroy (this : Nat)

structure BufferWorld where
  mem : Memory
  objs : Heap BufferObject

namespace BufferWorld

def init : BufferWorld := ⟨.init, []⟩

def create (w : BufferWorld) (made : Option (BufferObject × Memory)) : Option BufferWorld :=
  made.map fun r => ⟨r.2, w.objs.alloc r.1⟩

def modify (w : BufferWorld) (this : Nat) (f : BufferObject → Option (BufferObject × Memory)) : Option BufferWorld :=
  (w.objs.get this).bind fun o => (f o).map fun r => ⟨r.2, w.objs.put this r.1⟩

def assign (w : BufferWorld) (this other : Nat) : Option BufferWorld := do
  let o ← w.objs.get this
  let (o, m) ← o.free w.mem
  -- `other` is read when `this` has already been set to `NULL`
  let objs := w.objs.put this o
  let source ← objs.get other
  let (o, m) ← shallowCopy source m
  some ⟨m, objs.put this o⟩

def popFront (w : BufferWorld) (this size : Nat) : Option BufferWorld := do
  let o ← w.objs.get this
  let (buf, o, m) ← o.popFront w.mem size
  let objs := w.objs.put this o
  some ⟨m, buf.elim objs objs.alloc⟩

def destroy (w : BufferWorld) (this : Nat) : Option BufferWorld :=
  (w.objs.get this).bind fun o => (o.free w.mem).map fun r => ⟨r.2, w.objs.free this⟩

def step (w : BufferWorld) : BufferOp → Option BufferWorld
  | .construct data => w.create (ofData w.mem data)
  | .constructString str => w.create (ofString w.mem str.text)
  | .copy other => w.create ((w.objs.get other).bind fun o => shallowCopy o w.mem)
  | .assign this other => w.assign this other
  | .assignString this str => w.modify this fun o => o.assignString w.mem str.text
  | .append this data => w.modify this fun o => (o.append w.mem data).map fun r => r.2
  | .removeFront this size => w.modify this fun o => o.removeFront w.mem size
  | .popFront this size => w.popFront this size
  | .clear this => w.modify this fun o => o.clear w.mem
  | .destroy this => w.destroy this

-- how many objects have their data in the block
def sharing (w : BufferWorld) (p : Option Nat) : Nat :=
  w.objs.count fun o => o.data == p

end BufferWorld

def maxBytes : Nat := 2 ^ 31

/--
The byte strings of a program, without anything behind them.
-/
abbrev Strings := Heap Bytes

namespace Strings

def create (s : Strings) (t : Bytes) : Option Strings :=
  if t.length < maxBytes then some (s.alloc t) else none

def modify (s : Strings) (this : Nat) (f : Bytes → Bytes) : Option Strings :=
  (s.get this).bind fun t => if (f t).length < maxBytes then some (s.put this (f t)) else none

/--
`none` is a statement that no program considered here has: it uses an object that is not there, goes beyond
the size of a string, or makes one too long.
-/
def step (s : Strings) : BufferOp → Option Strings
  | .construct data => create s data
  | .constructString str => create s str.text
  | .copy other => (s.get other).map s.alloc
  | .assign this other => (s.get this).bind fun _ => (s.get other).map (s.put this)
  | .assignString this str => modify s this fun _ => str.text
  | .append this data => modify s this fun t => t ++ data
  | .removeFront this size =>
    (s.get this).bind fun t => if size ≤ t.length then some (s.put this (t.drop size)) else none
  | .popFront this size =>
    (s.get this).map fun t =>
      if t.length < size then s else (s.put this (t.drop size)).alloc (t.take size)
  | .clear this => (s.get this).map fun _ => s.put this []
  | .destroy this => (s.get this).map fun _ => s.free this

end Strings

/--
The objects are the strings, the counters count, and a block is there as long as it has an owner.
-/
structure Faithful (w : BufferWorld) (s : Strings) : Prop where
  objects : ∀ i, (w.objs.get i).isSome = (s.get i).isSome
  content : ∀ i o t, w.objs.get i = some o → s.get i = some t →
    o.size = t.length ∧ w.mem.load o.data 0 o.size = some (cells t)
  counted : ∀ i o, w.objs.get i = some o → w.mem.countOf o.refcount = some (w.sharing o.data)
  owned : ∀ p, (w.mem.blocks.get p).isSome ↔ ∃ i o, w.objs.get i = some o ∧ o.data = some p

/--
What a statement has to keep to: no assignment of an object to itself, no bytes asked of `pop_front`, and no
block with more owners than a counter can count.
-/
def Respects (w : BufferWorld) : BufferOp → Prop
  | .copy other => ∀ o, w.objs.get other = some o → w.sharing o.data + 1 < uint32Size
  | .assign this other => this ≠ other ∧
    ∀ o, w.objs.get other = some o → BufferWorld.sharing ⟨w.mem, w.objs.free this⟩ o.data + 1 < uint32Size
  | .popFront this size => size = 0 ∨ ∀ o, w.objs.get this = some o → o.size < size
  | _ => True

namespace BufferWorld

variable {w w' : BufferWorld} {s s' : Strings} {m m' : Memory} {o o' : BufferObject}

def Inv (w : BufferWorld) (s : Strings) : Prop :=
  Sharing.Inv w.mem w.objs s

theorem sharing_eq {mem : Memory} {table : Heap BufferObject} {s : Heap Bytes} {o : BufferObject}
    (h : Sharing.Inv mem table s) (hi : table.get i = some o)
    : sharing ⟨mem, table⟩ o.data = owners table o.refcount := by
  apply Heap.count_congr
  intro j oj hj
  rw [Bool.eq_iff_iff, beq_iff_eq, beq_iff_eq]
  exact h.paired j i oj o hj hi

theorem Inv.faithful (h : w.Inv s) : Faithful w s := by
  constructor
  . exact h.objects
  . intro i o t hi ht
    obtain ⟨p, block, b, hholds, rfl⟩ := h.holds i o t hi ht
    refine ⟨hholds.size, ?_⟩
    have hle := b.size_le
    have hlength := hholds.length
    rw [hholds.data, hholds.size, load_eq hholds.block_eq (by omega), List.drop_zero, hholds.take_data]
  . intro i o hi
    obtain ⟨c, hrefcount, hcount, -⟩ := h.counted i o hi
    rw [countOf_eq hrefcount, hcount, ← sharing_eq h hi]
  . intro p
    constructor
    . intro hp
      obtain ⟨block, hblock⟩ := Option.isSome_iff_exists.mp hp
      exact h.owned p block hblock
    . rintro ⟨i, o, hi, hdata⟩
      obtain ⟨q, block, hq, hblock⟩ := h.block hi
      rw [hdata] at hq
      cases hq
      rw [hblock]
      rfl

theorem lt_of_maxBytes (h : n < maxBytes) : n + 1 < uint32Size := by
  have hmax : maxBytes + 1 < uint32Size := by decide
  omega

theorem create_keeps (h : w.Inv s) (hmade : made = some (o, m)) (hborn : Born w.mem m o b)
    : ∃ w', w.create made = some w' ∧ w'.Inv (s.alloc b.data) := by
  rw [hmade]
  exact ⟨_, rfl, Sharing.Inv.born h hborn⟩

theorem modify_keeps (hi : w.objs.get i = some o) (hmade : f o = some (o', m))
    (hinv : Sharing.Inv m (w.objs.put i o') s') : ∃ w', w.modify i f = some w' ∧ w'.Inv s' := by
  refine ⟨⟨m, w.objs.put i o'⟩, ?_, hinv⟩
  unfold modify
  rw [hi, Option.bind_some, hmade]
  rfl

theorem create_some (h : Strings.create s t = some s') : t.length < maxBytes ∧ s.alloc t = s' := by
  unfold Strings.create at h
  split at h
  . next hlt =>
    cases h
    exact ⟨hlt, rfl⟩
  . cases h

theorem modify_some (h : Strings.modify s i f = some s')
    : ∃ t, s.get i = some t ∧ (f t).length < maxBytes ∧ s.put i (f t) = s' := by
  obtain ⟨t, ht, hput⟩ := Option.bind_eq_some_iff.mp h
  split at hput
  . next hlt =>
    cases hput
    exact ⟨t, ht, hlt, rfl⟩
  . cases hput

theorem copy_keeps (h : w.Inv s) (hs : Strings.step s (.copy j) = some s') (hrespects : Respects w (.copy j))
    : ∃ w', w.step (.copy j) = some w' ∧ w'.Inv s' := by
  obtain ⟨t, ht, rfl⟩ := Option.map_eq_some_iff.mp hs
  obtain ⟨o, hj⟩ := Sharing.Inv.object h ht
  have hroom : owners w.objs o.refcount + 1 < uint32Size := by
    rw [← sharing_eq h hj]
    exact hrespects o hj
  obtain ⟨m, hcopy, hinv⟩ := Sharing.Inv.copy h hj ht hroom
  refine ⟨⟨m, w.objs.alloc o⟩, ?_, hinv⟩
  unfold step create
  dsimp only
  rw [hj, Option.bind_some, hcopy]
  rfl

theorem assign_eq (hi : w.objs.get i = some o) (hfree : o.free w.mem = some (null, m))
    : w.assign i j = ((w.objs.put i null).get j).bind fun source =>
        (shallowCopy source m).map fun r => ⟨r.2, w.objs.put i r.1⟩ := by
  unfold assign
  rw [hi]
  dsimp only [bind, Option.bind]
  rw [hfree]
  dsimp only
  cases (w.objs.put i null).get j with
  | none => rfl
  | some source =>
    dsimp only
    cases shallowCopy source m with
    | none => rfl
    | some r =>
      dsimp only
      rw [Heap.put_put]
      rfl

theorem assign_keeps (h : w.Inv s) (hs : Strings.step s (.assign i j) = some s') (hrespects : Respects w (.assign i j))
    : ∃ w', w.step (.assign i j) = some w' ∧ w'.Inv s' := by
  obtain ⟨u, hu, hput⟩ := Option.bind_eq_some_iff.mp hs
  obtain ⟨t, ht, rfl⟩ := Option.map_eq_some_iff.mp hput
  obtain ⟨o, hi⟩ := Sharing.Inv.object h hu
  obtain ⟨source, hj⟩ := Sharing.Inv.object h ht
  obtain ⟨hne, hroom⟩ := hrespects
  obtain ⟨m1, hfree, hinv1⟩ := Sharing.Inv.free h hi
  have hj1 : (w.objs.free i).get j = some source := by
    rw [Heap.get_free (Heap.lt_next hi), if_neg (Ne.symm hne), hj]
  have ht1 : (s.free i).get j = some t := by
    rw [Heap.get_free (Heap.lt_next hu), if_neg (Ne.symm hne), ht]
  have hroom1 : owners (w.objs.free i) source.refcount + 1 < uint32Size := by
    rw [← sharing_eq hinv1 hj1]
    exact hroom source hj
  obtain ⟨m2, hcopy, hinv2⟩ := hinv1.share (i := i) (by rw [Heap.next_free]; exact Heap.lt_next hi) (get_free_self hi)
    hj1 ht1 hroom1
  rw [Heap.put_free, Heap.put_free] at hinv2
  refine ⟨⟨m2, w.objs.put i source⟩, ?_, hinv2⟩
  change w.assign i j = _
  rw [assign_eq hi hfree, Heap.get_put (Heap.lt_next hi), if_neg (Ne.symm hne), hj, Option.bind_some, hcopy]
  rfl

theorem popFront_keeps (h : w.Inv s) (hs : Strings.step s (.popFront i n) = some s')
    (hrespects : Respects w (.popFront i n))
    : ∃ w', w.step (.popFront i n) = some w' ∧ w'.Inv s' := by
  obtain ⟨t, ht, rfl⟩ := Option.map_eq_some_iff.mp hs
  obtain ⟨o, hi⟩ := Sharing.Inv.object h ht
  have hsize : o.size = t.length := ((Inv.faithful h).content i o t hi ht).1
  change ∃ w', w.popFront i n = some w' ∧ _
  unfold popFront
  rw [hi]
  dsimp only [bind, Option.bind]
  by_cases hless : t.length < n
  . have hnull : o.popFront w.mem n = some (none, o, w.mem) := by
      unfold BufferObject.popFront
      rw [if_pos (by rw [hsize]; exact hless)]
    rw [hnull, if_pos hless]
    refine ⟨_, rfl, ?_⟩
    dsimp only [Option.elim]
    rw [Heap.put_self hi]
    exact h
  . have hzero : n = 0 := by
      rcases hrespects with hzero | hall
      . exact hzero
      . have hover := hall o hi
        omega
    subst hzero
    obtain ⟨buf, o', m, hpop, hinv⟩ := Sharing.Inv.popFront_zero h hi ht
    rw [hpop, if_neg hless, List.drop_zero, List.take_zero, Heap.put_self ht]
    exact ⟨_, rfl, hinv⟩

theorem step_keeps (h : w.Inv s) (op : BufferOp) (hs : Strings.step s op = some s') (hrespects : Respects w op)
    : ∃ w', w.step op = some w' ∧ w'.Inv s' := by
  cases op with
  | construct data =>
    obtain ⟨hlt, rfl⟩ := create_some hs
    obtain ⟨o, m, hmade, hborn⟩ := ofData_spec w.mem (lt_of_maxBytes hlt)
    exact create_keeps h hmade hborn
  | constructString str =>
    obtain ⟨hlt, rfl⟩ := create_some hs
    obtain ⟨o, m, hmade, hborn⟩ := ofString_spec w.mem (lt_of_maxBytes hlt)
    exact create_keeps h hmade hborn
  | copy j => exact copy_keeps h hs hrespects
  | assign i j => exact assign_keeps h hs hrespects
  | assignString i str =>
    obtain ⟨t, ht, hlt, rfl⟩ := modify_some hs
    obtain ⟨o, hi⟩ := Sharing.Inv.object h ht
    obtain ⟨o', m, hmade, hinv⟩ := Sharing.Inv.assignString h hi (lt_of_maxBytes hlt)
    exact modify_keeps hi hmade hinv
  | append i data =>
    obtain ⟨t, ht, hlt, rfl⟩ := modify_some hs
    obtain ⟨o, hi⟩ := Sharing.Inv.object h ht
    obtain ⟨o', m, hmade, hinv⟩ := Sharing.Inv.append h hi ht (lt_of_maxBytes hlt)
    apply modify_keeps hi _ hinv
    rw [hmade]
    rfl
  | removeFront i n =>
    obtain ⟨t, ht, hput⟩ := Option.bind_eq_some_iff.mp hs
    obtain ⟨o, hi⟩ := Sharing.Inv.object h ht
    split at hput
    . next hn =>
      cases hput
      obtain ⟨o', m, hmade, hinv⟩ := Sharing.Inv.removeFront h hi ht hn
      exact modify_keeps hi hmade hinv
    . cases hput
  | popFront i n => exact popFront_keeps h hs hrespects
  | clear i =>
    obtain ⟨t, ht, rfl⟩ := Option.map_eq_some_iff.mp hs
    obtain ⟨o, hi⟩ := Sharing.Inv.object h ht
    obtain ⟨o', m, hmade, hinv⟩ := Sharing.Inv.clear h hi
    exact modify_keeps hi hmade hinv
  | destroy i =>
    obtain ⟨t, ht, rfl⟩ := Option.map_eq_some_iff.mp hs
    obtain ⟨o, hi⟩ := Sharing.Inv.object h ht
    obtain ⟨m, hfree, hinv⟩ := Sharing.Inv.free h hi
    refine ⟨⟨m, w.objs.free i⟩, ?_, hinv⟩
    change w.destroy i = _
    unfold destroy
    rw [hi, Option.bind_some, hfree]
    rfl

-- what goes wrong with the other statements

theorem shallowCopy_wrapped (hrefcount : o.refcount = some c) (hcount : m.counts.get c = some k)
    (hk : k + 1 = uint32Size) : shallowCopy o m = some (o, { m with counts := m.counts.put c 0 }) := by
  have hzero : uint32 (k + 1) = 0 := by
    rw [hk]
    rfl
  unfold shallowCopy
  rw [countOf_eq hrefcount, hcount, hrefcount]
  dsimp only [bind, Option.bind]
  rw [setCount_eq hcount, hzero]

theorem not_faithful_of_zero (hi : w.objs.get i = some o) (hzero : w.mem.countOf o.refcount = some 0)
    : ¬Faithful w s := by
  intro h
  have hcount := h.counted i o hi
  rw [hzero] at hcount
  have hpos : 0 < w.sharing o.data := (Heap.count_pos_iff _ _).mpr ⟨i, o, hi, beq_self_eq_true _⟩
  rw [← Option.some.inj hcount] at hpos
  exact Nat.lt_irrefl 0 hpos

theorem countOf_put_zero (hrefcount : o.refcount = some c) (hcount : m.counts.get c = some k)
    : countOf { m with counts := m.counts.put c 0 } o.refcount = some 0 := by
  rw [countOf_eq hrefcount]
  dsimp only
  rw [Heap.get_put (Heap.lt_next hcount), if_pos rfl]

theorem copy_fails (h : w.Inv s) (hrespects : ¬Respects w (.copy j)) (hstep : w.step (.copy j) = some w')
    : ¬Faithful w' s' := by
  obtain ⟨o, ho⟩ := not_forall.mp hrespects
  obtain ⟨hj, hover⟩ := Classical.not_imp.mp ho
  rw [sharing_eq h hj] at hover
  obtain ⟨c, hrefcount, hcount, hlt⟩ := h.counted j o hj
  unfold step create at hstep
  dsimp only at hstep
  rw [hj, Option.bind_some, shallowCopy_wrapped hrefcount hcount (by omega)] at hstep
  cases hstep
  apply not_faithful_of_zero (i := j) _ (countOf_put_zero hrefcount hcount)
  dsimp only
  rw [Heap.get_alloc, if_neg (Heap.ne_next hj), hj]

theorem assign_fails (h : w.Inv s) (hs : Strings.step s (.assign i j) = some s') (hrespects : ¬Respects w (.assign i j))
    (hstep : w.step (.assign i j) = some w') : ¬Faithful w' s' := by
  obtain ⟨u, hu, -⟩ := Option.bind_eq_some_iff.mp hs
  obtain ⟨o, hi⟩ := Sharing.Inv.object h hu
  obtain ⟨m, hfree, hinv⟩ := Sharing.Inv.free h hi
  change w.assign i j = _ at hstep
  rw [assign_eq hi hfree, Heap.get_put (Heap.lt_next hi)] at hstep
  by_cases hself : i = j
  . -- the counter is looked for behind `NULL`
    subst hself
    rw [if_pos rfl] at hstep
    cases hstep
  . obtain ⟨source, hsource⟩ := not_forall.mp fun hall => hrespects ⟨hself, hall⟩
    obtain ⟨hj, hover⟩ := Classical.not_imp.mp hsource
    have hj' : (w.objs.free i).get j = some source := by
      rw [Heap.get_free (Heap.lt_next hi), if_neg (Ne.symm hself), hj]
    have hsharing : sharing ⟨m, w.objs.free i⟩ source.data = owners (w.objs.free i) source.refcount :=
      sharing_eq hinv hj'
    change ¬sharing ⟨m, w.objs.free i⟩ source.data + 1 < uint32Size at hover
    rw [hsharing] at hover
    obtain ⟨c, hrefcount, hcount, hlt⟩ := hinv.counted j source hj'
    rw [if_neg (Ne.symm hself), hj, Option.bind_some, shallowCopy_wrapped hrefcount hcount (by omega)] at hstep
    cases hstep
    apply not_faithful_of_zero (i := i) _ (countOf_put_zero hrefcount hcount)
    dsimp only
    rw [Heap.get_put (Heap.lt_next hi), if_pos rfl]

theorem size_ofCapacity (h : ofCapacity m n = some (o, m')) : o.size = 0 := by
  unfold ofCapacity at h
  obtain ⟨m1, -, hrest⟩ := Option.bind_eq_some_iff.mp h
  cases hrest
  rfl

theorem size_popFront (hn : ¬o.size < n) (h : o.popFront m n = some (buf, o', m'))
    : ∃ b, buf = some b ∧ b.size = 0 := by
  unfold BufferObject.popFront at h
  rw [if_neg hn] at h
  obtain ⟨r1, -, h1⟩ := Option.bind_eq_some_iff.mp h
  obtain ⟨r2, hnew, h2⟩ := Option.bind_eq_some_iff.mp h1
  obtain ⟨data, -, h3⟩ := Option.bind_eq_some_iff.mp h2
  obtain ⟨m1, -, h4⟩ := Option.bind_eq_some_iff.mp h3
  obtain ⟨r5, -, h5⟩ := Option.bind_eq_some_iff.mp h4
  cases h5
  exact ⟨r2.1, rfl, size_ofCapacity hnew⟩

theorem popFront_fails (h : w.Inv s) (hs : Strings.step s (.popFront i n) = some s')
    (hrespects : ¬Respects w (.popFront i n)) (hstep : w.step (.popFront i n) = some w') : ¬Faithful w' s' := by
  obtain ⟨t, ht, rfl⟩ := Option.map_eq_some_iff.mp hs
  obtain ⟨hn, hall⟩ := not_or.mp hrespects
  obtain ⟨o, ho⟩ := not_forall.mp hall
  obtain ⟨hi, hless⟩ := Classical.not_imp.mp ho
  have hsize : o.size = t.length := ((Inv.faithful h).content i o t hi ht).1
  change w.popFront i n = _ at hstep
  obtain ⟨o', hi', hrest⟩ := Option.bind_eq_some_iff.mp hstep
  rw [hi] at hi'
  cases hi'
  obtain ⟨⟨buf, o', m⟩, hpop, hw⟩ := Option.bind_eq_some_iff.mp hrest
  obtain ⟨b, rfl, hb⟩ := size_popFront hless hpop
  cases hw
  intro hfaithful
  have hbuf : ((w.objs.put i o').alloc b).get w.objs.next = some b := by
    rw [Heap.get_alloc, Heap.next_put, if_pos rfl]
  have hstring : ((s.put i (t.drop n)).alloc (t.take n)).get w.objs.next = some (t.take n) := by
    rw [Heap.get_alloc, Heap.next_put, h.next, if_pos rfl]
  rw [if_neg (by omega)] at hfaithful
  have hcontent := (hfaithful.content w.objs.next b (t.take n) hbuf hstring).1
  rw [hb, List.length_take] at hcontent
  omega

theorem step_fails (h : w.Inv s) (op : BufferOp) (hs : Strings.step s op = some s') (hrespects : ¬Respects w op)
    (hstep : w.step op = some w') : ¬Faithful w' s' := by
  cases op with
  | copy j => exact copy_fails h hrespects hstep
  | assign i j => exact assign_fails h hs hrespects hstep
  | popFront i n => exact popFront_fails h hs hrespects hstep
  | _ => exact absurd trivial hrespects

end BufferWorld

namespace Program

structure State where
  world : BufferWorld
  strings : Strings

def init : State := ⟨.init, []⟩

def step (x : State) (op : BufferOp) : Option State :=
  (x.world.step op).bind fun w => (x.strings.step op).map fun s => ⟨w, s⟩

def Faithful (x : State) : Prop :=
  Kids.Faithful x.world x.strings

def Respects (x : State) (op : BufferOp) : Prop :=
  Kids.Respects x.world op

def Inv (x : State) : Prop :=
  x.world.Inv x.strings

-- a statement that the byte strings can follow
def Considered (x : State) (op : BufferOp) : Prop :=
  ∃ s, x.strings.step op = some s

theorem considered_of_strings (ops : List BufferOp) (x : State)
    (h : Run.Along Strings.step (fun _ => True) x.strings ops) : Run.Meets step Considered x ops := by
  induction ops generalizing x with
  | nil => trivial
  | cons op ops ih =>
    obtain ⟨-, s, hs, hrest⟩ := h
    refine ⟨⟨s, hs⟩, ?_⟩
    intro y hy
    obtain ⟨w, -, hmap⟩ := Option.bind_eq_some_iff.mp hy
    rw [hs] at hmap
    cases hmap
    exact ih ⟨w, s⟩ hrest

/--
The objects of a program are values at every point of it, exactly if all its statements keep to `Respects`.
-/
theorem faithful_run_iff (ops : List BufferOp) (h : Run.Along Strings.step (fun _ => True) [] ops)
    : Run.Along step Faithful init ops ↔ Run.Meets step Respects init ops := by
  apply Run.Along.iff_meets_within Inv Considered
  . exact inv_init
  . exact considered_of_strings ops init h
  . exact fun x hx => BufferWorld.Inv.faithful hx
  . rintro x op hx ⟨s, hs⟩ hrespects
    obtain ⟨w, hw, hinv⟩ := BufferWorld.step_keeps hx op hs hrespects
    refine ⟨⟨w, s⟩, ?_, hinv⟩
    unfold step
    rw [hw, Option.bind_some, hs]
    rfl
  . rintro x op y hx ⟨s, hs⟩ hrespects hstep
    obtain ⟨w, hw, hmap⟩ := Option.bind_eq_some_iff.mp hstep
    rw [hs] at hmap
    cases hmap
    exact BufferWorld.step_fails hx op hs hrespects hw

-- two objects share a block until one of them is changed
theorem faithful_run_shared
    : Run.Along step Faithful init
        [.construct [97, 98], .copy 0, .append 1 [99], .assign 0 1, .removeFront 0 1, .popFront 1 0, .destroy 1] := by
  apply (faithful_run_iff _ ?_).mpr
  . refine ⟨trivial, fun x hx => ?_⟩
    cases hx
    refine ⟨?_, fun x hx => ?_⟩
    . rintro _ ⟨⟩
      decide
    cases hx
    refine ⟨trivial, fun x hx => ?_⟩
    cases hx
    refine ⟨⟨by decide, ?_⟩, fun x hx => ?_⟩
    . rintro _ ⟨⟩
      decide
    cases hx
    refine ⟨trivial, fun x hx => ?_⟩
    cases hx
    refine ⟨Or.inl rfl, fun x hx => ?_⟩
    exact ⟨trivial, fun _ _ => trivial⟩
  . exact ⟨trivial, _, rfl, trivial, _, rfl, trivial, _, rfl, trivial, _, rfl, trivial, _, rfl, trivial, _, rfl, trivial, _, rfl,
      trivial⟩

-- the buffer that `pop_front` returns is empty, and an object that is assigned to itself is lost
theorem faithful_fails_popped_or_self_assigned
    : ¬Run.Along step Faithful init [.construct [97, 98], .popFront 0 1]
      ∧ ¬Run.Along step Faithful init [.construct [97, 98], .assign 0 0] := by
  constructor
  . rintro ⟨-, x, hx, -, y, hy, hfaithful⟩
    cases hx
    cases hy
    have hcontent := hfaithful.content 1 _ _ rfl rfl
    cases hcontent.1
  . rintro ⟨-, x, hx, -, y, hy, -⟩
    cases hx
    cases hy

end Program
end Kids
