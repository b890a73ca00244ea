import Kids.Lib.Run
import Kids.Store.Defined

/-!
Reconnecting. A tick of the storer reaches every network store of the tree that is not connected, as long
as every store above it is open when the tick starts and stays so.
-/

namespace Kids

open Bytes

/--
The store of the storer, with what it has found outside. `due` are the network stores that were to be reconnected when
the last step, a tick, was made.
-/
structure StorerTree (n : Nat) where
  store : StoreTree n
  world : World
  due : List LeafId

namespace StorerTree

-- the storer goes on unless a pointer to no queue was used or a tick divided by 0
def onStore (store : StoreTree n) (world : World) (due : List LeafId) : Option (StorerTree n) :=
  if world.undefined then none else some ⟨store, world, due⟩

-- the storer that `Storer::Create` has made, and whose store it has opened
def start (env : TreeEnv) (store : StoreTree n) : Option (StorerTree n) :=
  let ((store, _), world) := (StoreTree.ops n).open_ env .init store
  onStore store world []

inductive Label
  | disconnect (id : LeafId)
  | msgSent (id : LeafId)
  | storeMessage (env : TreeEnv) (m : MessageId)
  | cron (env : TreeEnv)

def dueIds (now : Int) (store : StoreTree n) : List LeafId :=
  ((StoreTree.networkLeaves n store).filter (NetworkLeaf.due now)).map NetworkLeaf.id

def onNetwork (id : LeafId) (f : NetworkLeaf → NetworkLeaf) (store : StoreTree n) : StoreTree n :=
  StoreTree.mapNetwork (fun l => if l.id = id then f l else l) n store

def step (s : StorerTree n) : Label → Option (StorerTree n)
  | .disconnect id => some ⟨onNetwork id NetworkLeaf.close s.store, s.world.next, []⟩
  | .msgSent id => some ⟨onNetwork id (fun l => { l with sending := false }) s.store, s.world.next, []⟩
  | .storeMessage env m =>
    if (StoreTree.ops n).sending s.store then
      some ⟨s.store, s.world.next, []⟩
    else
      let ((store, ok), world) := (StoreTree.ops n).addMessage env m s.world.next s.store
      onStore store (if ok then world else world.drop m) []
  | .cron env =>
    let (store, world) := (StoreTree.ops n).cron env s.world.next s.store
    onStore store world (dueIds env.unixtime s.store)

/--
The last tick has called `Open` of every network store that was due.
-/
def Reached (s : StorerTree n) : Prop :=
  ∀ id ∈ s.due, id ∈ s.world.opened

end StorerTree

namespace StoreTree

def Due (now : Int) (id : LeafId) (n : Nat) (t : StoreTree n) : Prop :=
  ∃ l ∈ networkLeaves n t, l.id = id ∧ l.due now = true

-- no buffer stands in the secondary store of another one
def Shallow : (n : Nat) → StoreTree n → Prop
  | 0, _ => True
  | _ + 1, .leaf _ => True
  | n + 1, .group g => ∀ s ∈ g.stores, Shallow n s
  | n + 1, .buffer b => Shallow n b.primary ∧ BufferFree n b.secondary

/--
A tick comes through to the network store, if it is due: every store above it is open, a buffer above it
does not close a composite secondary store with it inside, and does not hand messages to a primary store
with it inside that could open one of its stores again.
-/
def Clear (now : Int) (id : LeafId) : (n : Nat) → StoreTree n → Prop
  | 0, _ => True
  | _ + 1, .leaf _ => True
  | n + 1, .group g =>
    (Due now id (n + 1) (.group g) → g.isOpen = true) ∧ ∀ s ∈ g.stores, Clear now id n s
  | n + 1, .buffer b =>
    (Due now id (n + 1) (.buffer b) → b.isOpen = true) ∧ Clear now id n b.primary ∧ Clear now id n b.secondary ∧
      (b.handsOver (ops n) = true → Due now id n b.secondary → isLeaf n b.secondary = true) ∧
      (b.transfers = true → Due now id n b.primary → Shallow n b.primary)

end StoreTree

namespace StorerTree

/--
The step is defined, and a tick comes through to each network store that is due.
-/
def Allowed (s : StorerTree n) : Label → Prop
  | .cron env => StoreTree.Calm n s.store ∧
      ∀ id ∈ dueIds env.unixtime s.store, StoreTree.Clear env.unixtime id n s.store
  | .storeMessage _ _ => (StoreTree.ops n).sending s.store = false →
      StoreTree.Ready (fun _ => True) (fun _ => True) n s.store
  | _ => True

end StorerTree

namespace StoreTree

variable {now : Int} {i : LeafId}

theorem due_group (n : Nat) (g : StoreGroup (StoreTree n))
    : Due now i (n + 1) (.group g) ↔ ∃ s ∈ g.stores, Due now i n s := by
  unfold Due
  rw [networkLeaves]
  simp only [List.mem_flatMap]
  constructor
  . rintro ⟨l, ⟨s, hs, hl⟩, hdue⟩
    exact ⟨s, hs, l, hl, hdue⟩
  . rintro ⟨s, hs, l, hl, hdue⟩
    exact ⟨l, ⟨s, hs, hl⟩, hdue⟩

theorem due_buffer (n : Nat) (b : StoreBuffer (StoreTree n))
    : Due now i (n + 1) (.buffer b) ↔ Due now i n b.primary ∨ Due now i n b.secondary := by
  unfold Due
  rw [networkLeaves]
  simp only [List.mem_append]
  constructor
  . rintro ⟨l, hl | hl, hdue⟩
    . exact .inl ⟨l, hl, hdue⟩
    . exact .inr ⟨l, hl, hdue⟩
  . rintro (⟨l, hl, hdue⟩ | ⟨l, hl, hdue⟩)
    . exact ⟨l, .inl hl, hdue⟩
    . exact ⟨l, .inr hl, hdue⟩

theorem mem_networkIds_of_due {t : StoreTree n} (h : Due now i n t) : i ∈ networkIds n t := by
  obtain ⟨l, hl, rfl, -⟩ := h
  exact List.mem_map.mpr ⟨l, hl, rfl⟩

theorem shallow_of_bufferFree (n : Nat) (t : StoreTree n) (h : BufferFree n t) : Shallow n t := by
  induction n with
  | zero => trivial
  | succ n ih =>
    cases t with
    | leaf l => trivial
    | group g => exact fun s hs => ih s (h s hs)
    | buffer b => exact h.elim

theorem clear_of_not_mem (n : Nat) (t : StoreTree n) (h : i ∉ networkIds n t) : Clear now i n t := by
  induction n with
  | zero => trivial
  | succ n ih =>
    cases t with
    | leaf l => trivial
    | group g =>
      rw [networkIds_group, List.mem_flatMap, not_exists] at h
      refine ⟨?_, fun s hs => ih s fun hi => h s ⟨hs, hi⟩⟩
      intro hdue
      obtain ⟨s, hs, hdue⟩ := (due_group n g).mp hdue
      exact absurd ⟨hs, mem_networkIds_of_due hdue⟩ (h s)
    | buffer b =>
      have hids : networkIds (n + 1) (.buffer b) = networkIds n b.primary ++ networkIds n b.secondary := by
        unfold networkIds
        rw [networkLeaves, List.map_append]
      rw [hids, List.mem_append, not_or] at h
      refine ⟨?_, ih _ h.1, ih _ h.2, ?_, ?_⟩
      . intro hdue
        cases (due_buffer n b).mp hdue with
        | inl hdue => exact absurd (mem_networkIds_of_due hdue) h.1
        | inr hdue => exact absurd (mem_networkIds_of_due hdue) h.2
      . exact fun _ hdue => absurd (mem_networkIds_of_due hdue) h.2
      . exact fun _ hdue => absurd (mem_networkIds_of_due hdue) h.1

/--
What a message that goes into a tree keeps of it, if it does not call `Open` of the network store.
-/
structure Kept (now : Int) (i : LeafId) (n : Nat) (t t' : StoreTree n) : Prop where
  shallow : Shallow n t'
  due_iff : Due now i n t' ↔ Due now i n t
  clear : Clear now i n t → Clear now i n t'

theorem Kept.refl {t : StoreTree n} (h : Shallow n t) : Kept now i n t t where
  shallow := h
  due_iff := Iff.rfl
  clear := fun h => h

theorem Kept.trans (h1 : Kept now i n t u) (h2 : Kept now i n u v) : Kept now i n t v where
  shallow := h2.shallow
  due_iff := h2.due_iff.trans h1.due_iff
  clear := fun h => h2.clear (h1.clear h)

theorem Kept.group {g g' : StoreGroup (StoreTree n)} (hopen : g'.isOpen = g.isOpen)
    (h : List.Forall₂ (Kept now i n) g.stores g'.stores)
    : Kept now i (n + 1) (.group g) (.group g') := by
  have hall : (∀ s ∈ g'.stores, Shallow n s) ∧
      ((∃ s ∈ g'.stores, Due now i n s) ↔ ∃ s ∈ g.stores, Due now i n s) ∧
      ((∀ s ∈ g.stores, Clear now i n s) → ∀ s ∈ g'.stores, Clear now i n s) := by
    generalize g.stores = stores at h
    generalize g'.stores = stores' at h
    induction h with
    | nil => simp
    | cons hs _ ih =>
      obtain ⟨hshallow, hdue, hclear⟩ := ih
      simp only [List.forall_mem_cons, List.exists_mem_cons_iff]
      exact ⟨⟨hs.shallow, hshallow⟩, or_congr hs.due_iff hdue, fun h => ⟨hs.clear h.1, hclear h.2⟩⟩
  obtain ⟨hshallow, hdue, hclear⟩ := hall
  constructor
  . exact hshallow
  . rw [due_group, due_group]
    exact hdue
  . rintro ⟨hwas, hstores⟩
    refine ⟨?_, hclear hstores⟩
    rw [due_group, hdue, ← due_group, hopen]
    exact hwas

-- a store that is opened on the way calls `Open` of all it has
theorem kept_of_open (now : Int) (n : Nat) (env : TreeEnv) (w : World) (t : StoreTree n) (h : BufferFree n t)
    (hi : i ∉ ((ops n).open_ env w t).2.opened)
    : Kept now i n t (((ops n).open_ env w t).1).1 ∧ i ∉ networkIds n (((ops n).open_ env w t).1).1 := by
  have hshape := shape_open n env w t h
  have hbefore : i ∉ networkIds n t := fun hmem => hi (opened_open n env w t h hmem)
  have hafter : i ∉ networkIds n (((ops n).open_ env w t).1).1 := by
    rw [hshape.ids_eq]
    exact hbefore
  refine ⟨⟨shallow_of_bufferFree n _ hshape.free, ?_, fun _ => clear_of_not_mem n _ hafter⟩, hafter⟩
  constructor
  . exact fun hdue => absurd (mem_networkIds_of_due hdue) hafter
  . exact fun hdue => absurd (mem_networkIds_of_due hdue) hbefore

def LeafDue (now : Int) (i : LeafId) : Leaf → Prop
  | .network l => l.id = i ∧ l.due now = true
  | _ => False

theorem due_zero (l : Leaf) : Due now i 0 l ↔ LeafDue now i l := by
  cases l <;> simp [Due, networkLeaves, LeafDue]

theorem due_leaf (n : Nat) (l : Leaf) : Due now i (n + 1) (.leaf l) ↔ LeafDue now i l := by
  cases l <;> simp [Due, networkLeaves, LeafDue]

theorem leafDue_doAddMessage (env : TreeEnv) (m : MessageId) (w : World) (l : Leaf)
    : LeafDue now i (l.doAddMessage env m w).1.1 ↔ LeafDue now i l := by
  cases l with
  | network l =>
    unfold Leaf.doAddMessage
    dsimp only
    split
    . rfl
    . rfl
  | file => rfl
  | null => rfl

theorem kept_zero {l l' : Leaf} (h : LeafDue now i l' ↔ LeafDue now i l) : Kept now i 0 l l' where
  shallow := trivial
  due_iff := by
    rw [due_zero, due_zero]
    exact h
  clear := fun _ => trivial

theorem kept_leaf {l l' : Leaf} (h : LeafDue now i l' ↔ LeafDue now i l)
    : Kept now i (n + 1) (.leaf l) (.leaf l') where
  shallow := trivial
  due_iff := by
    rw [due_leaf, due_leaf]
    exact h
  clear := fun _ => trivial

theorem kept_addToFirst (n : Nat) (env : TreeEnv) (m : MessageId) (w : World) (stores : List (StoreTree n))
    (hshallow : ∀ s ∈ stores, Shallow n s)
    (hadd : ∀ w s, Shallow n s → i ∉ ((ops n).addMessage env m w s).2.opened →
      Kept now i n s (((ops n).addMessage env m w s).1).1)
    (hi : i ∉ (StoreGroup.addToFirst (ops n) env m w stores).2.opened)
    : List.Forall₂ (Kept now i n) stores ((StoreGroup.addToFirst (ops n) env m w stores).1).1 := by
  induction stores generalizing w with
  | nil => exact .nil
  | cons s stores ih =>
    rw [List.forall_mem_cons] at hshallow
    unfold StoreGroup.addToFirst at hi ⊢
    dsimp only at hi ⊢
    split
    . next hok =>
      rw [if_pos hok] at hi
      exact .cons (hadd w s hshallow.1 hi) (List.forall₂_same.mpr fun s hs => .refl (hshallow.2 s hs))
    . next hok =>
      rw [if_neg hok] at hi
      refine .cons (hadd w s hshallow.1 fun h => hi ?_) (ih _ hshallow.2 hi)
      exact StoreGroup.keeps_addToFirst (mono n i) env m _ stores h

/--
What a message leaves of a buffer. If the state changes, the secondary store has just been opened.
-/
structure BufferKept (now : Int) (i : LeafId) (n : Nat) (b b' : StoreBuffer (StoreTree n)) : Prop where
  isOpen_eq : b'.isOpen = b.isOpen
  msgs_eq : b'.msgs = b.msgs
  primary : Kept now i n b.primary b'.primary
  secondary : Kept now i n b.secondary b'.secondary
  shape : SameShape n b.secondary b'.secondary
  state : b'.state = b.state ∧ (b.state ≠ .toPrimary → b'.primary = b.primary) ∨
    b'.state = .toSecondary ∧ i ∉ networkIds n b'.secondary

theorem BufferKept.kept (h : BufferKept now i n b b') : Kept now i (n + 1) (.buffer b) (.buffer b') := by
  have hdue : Due now i (n + 1) (.buffer b') ↔ Due now i (n + 1) (.buffer b) := by
    rw [due_buffer, due_buffer]
    exact or_congr h.primary.due_iff h.secondary.due_iff
  refine ⟨⟨h.primary.shallow, h.shape.free⟩, hdue, ?_⟩
  rintro ⟨hopen, hprimary, hsecondary, hover, -⟩
  refine ⟨?_, h.primary.clear hprimary, h.secondary.clear hsecondary, ?_, fun _ _ => h.primary.shallow⟩
  . rw [hdue, h.isOpen_eq]
    exact hopen
  . intro hover' hdue'
    rw [h.shape.leaf_eq]
    rcases h.state with ⟨hstate, heq⟩ | ⟨-, hnot⟩
    . apply hover
      . unfold StoreBuffer.handsOver at hover' ⊢
        rw [hstate] at hover'
        by_cases hp : b.state = .toPrimary
        . rw [hp] at hover'
          exact absurd hover' (by simp)
        . rw [heq hp] at hover'
          exact hover'
      . exact h.secondary.due_iff.mp hdue'
    . exact absurd (mem_networkIds_of_due hdue') hnot

theorem kept_openSecondary (env : TreeEnv) (w : World) (s : StoreTree n) (hs : BufferFree n s)
    (hi : i ∉ (StoreBuffer.openSecondary (ops n) env w s).2.opened)
    : Kept now i n s (StoreBuffer.openSecondary (ops n) env w s).1 ∧
        SameShape n s (StoreBuffer.openSecondary (ops n) env w s).1 := by
  unfold StoreBuffer.openSecondary at hi ⊢
  split
  . exact ⟨.refl (shallow_of_bufferFree n s hs), .refl hs⟩
  . next hopen =>
    rw [if_neg hopen] at hi
    exact ⟨(kept_of_open now n env w s hs hi).1, shape_open n env w s hs⟩

section

variable {env : TreeEnv} {m : MessageId}
  (hadd : ∀ w s, Shallow n s → i ∉ ((ops n).addMessage env m w s).2.opened →
    Kept now i n s (((ops n).addMessage env m w s).1).1)

include hadd

theorem kept_addToPrimary (w : World) (b : StoreBuffer (StoreTree n)) (hprimary : Shallow n b.primary)
    (hsecondary : BufferFree n b.secondary) (hi : i ∉ (b.addToPrimary (ops n) env m w).2.opened)
    : BufferKept now i n b (b.addToPrimary (ops n) env m w).1.1 := by
  have hshallow := shallow_of_bufferFree n _ hsecondary
  unfold StoreBuffer.addToPrimary at hi ⊢
  dsimp only at hi ⊢
  split
  . next hstate =>
    rw [if_pos hstate] at hi
    split
    . next hopen =>
      rw [if_pos hopen] at hi
      split
      . next hok =>
        rw [if_pos hok] at hi
        refine ⟨rfl, rfl, hadd w _ hprimary hi, .refl hshallow, .refl hsecondary, .inl ⟨rfl, ?_⟩⟩
        exact fun hne => absurd hstate hne
      . next hok =>
        rw [if_neg hok] at hi
        obtain ⟨hkept, hnot⟩ := kept_of_open now n env _ b.secondary hsecondary hi
        refine ⟨rfl, rfl, hadd w _ hprimary ?_, hkept, shape_open n env _ _ hsecondary, .inr ⟨rfl, hnot⟩⟩
        exact fun h => hi ((mono n i).open_ env _ _ h)
    . next hopen =>
      rw [if_neg hopen] at hi
      obtain ⟨hkept, hnot⟩ := kept_of_open now n env _ b.secondary hsecondary hi
      exact ⟨rfl, rfl, .refl hprimary, hkept, shape_open n env _ _ hsecondary, .inr ⟨rfl, hnot⟩⟩
  . exact ⟨rfl, rfl, .refl hprimary, .refl hshallow, .refl hsecondary, .inl ⟨rfl, fun _ => rfl⟩⟩

theorem kept_addToSecondary (w : World) {b b1 : StoreBuffer (StoreTree n)} (h : BufferKept now i n b b1)
    (hi : i ∉ (b1.addToSecondary (ops n) env m w).2.opened)
    : BufferKept now i n b (b1.addToSecondary (ops n) env m w).1.1 := by
  have hadded : i ∉ ((ops n).addMessage env m (StoreBuffer.openSecondary (ops n) env w b1.secondary).2
      (StoreBuffer.openSecondary (ops n) env w b1.secondary).1).2.opened := by
    intro hmem
    apply hi
    unfold StoreBuffer.addToSecondary
    dsimp only
    split
    . exact hmem
    . exact hmem
  have hopened : i ∉ (StoreBuffer.openSecondary (ops n) env w b1.secondary).2.opened :=
    fun hmem => hadded ((mono n i).addMessage env m _ _ hmem)
  obtain ⟨hkept1, hshape1⟩ := kept_openSecondary env w b1.secondary h.shape.free hopened
  have hkept2 := hadd _ _ (shallow_of_bufferFree n _ hshape1.free) hadded
  have hshape2 := shape_addMessage n env m (StoreBuffer.openSecondary (ops n) env w b1.secondary).2 _ hshape1.free
  have hshape := hshape1.trans hshape2
  refine ⟨h.isOpen_eq, h.msgs_eq, h.primary, h.secondary.trans (hkept1.trans hkept2), h.shape.trans hshape, ?_⟩
  rcases h.state with hsame | ⟨hstate, hnot⟩
  . exact .inl hsame
  . have hids := hshape.ids_eq
    exact .inr ⟨hstate, fun hmem => hnot (hids ▸ hmem)⟩

theorem kept_buffer_doAddMessage (w : World) (b : StoreBuffer (StoreTree n)) (hprimary : Shallow n b.primary)
    (hsecondary : BufferFree n b.secondary) (hi : i ∉ (b.doAddMessage (ops n) env m w).2.opened)
    : BufferKept now i n b (b.doAddMessage (ops n) env m w).1.1 := by
  unfold StoreBuffer.doAddMessage at hi ⊢
  dsimp only at hi ⊢
  split
  . next hmore =>
    rw [if_pos hmore] at hi
    have hfirst : i ∉ (b.addToPrimary (ops n) env m w).2.opened :=
      fun hmem => hi (StoreBuffer.keeps_addToSecondary (World.stable_opened i) (mono n i) env m _ _ hmem)
    exact kept_addToSecondary hadd _ (kept_addToPrimary hadd w b hprimary hsecondary hfirst) hi
  . next hmore =>
    rw [if_neg hmore] at hi
    exact kept_addToPrimary hadd w b hprimary hsecondary hi

theorem kept_group_doAddMessage (w : World) (g : StoreGroup (StoreTree n)) (h : ∀ s ∈ g.stores, Shallow n s)
    (hi : i ∉ (g.doAddMessage (ops n) env m w).2.opened)
    : Kept now i (n + 1) (.group g) (.group (g.doAddMessage (ops n) env m w).1.1) := by
  have hall (hi : i ∉ (each ((ops n).addMessage env m) w g.stores).2.opened)
      : List.Forall₂ (Kept now i n) g.stores ((each ((ops n).addMessage env m) w g.stores).1.map Prod.fst) := by
    rw [List.forall₂_map_right_iff]
    apply each_forall₂ fun w s i => (mono n i).addMessage env m w s
    intro w1 s hs hsub
    exact hadd w1 s (h s hs) fun hmem => hi (hsub hmem)
  unfold StoreGroup.doAddMessage at hi ⊢
  split
  . next hkind =>
    rw [hkind] at hi
    exact Kept.group rfl (kept_addToFirst n env m w g.stores h hadd hi)
  . next hkind =>
    rw [hkind] at hi
    exact Kept.group rfl (hall hi)
  . next hkind =>
    rw [hkind] at hi
    exact Kept.group rfl (hall hi)

end

theorem kept_addMessage (now : Int) (n : Nat) (env : TreeEnv) (m : MessageId) (w : World) (t : StoreTree n)
    (h : Shallow n t)
    (hi : i ∉ ((ops n).addMessage env m w t).2.opened)
    : Kept now i n t (((ops n).addMessage env m w t).1).1 := by
  induction n generalizing w with
  | zero =>
    unfold TreeOps.addMessage
    split
    . exact kept_zero (leafDue_doAddMessage env m w t)
    . exact .refl h
  | succ n ih =>
    unfold TreeOps.addMessage at hi ⊢
    split
    . next hpre =>
      rw [if_pos hpre] at hi
      cases t with
      | leaf l => exact kept_leaf (leafDue_doAddMessage env m w l)
      | group g => exact kept_group_doAddMessage ih w g h hi
      | buffer b => exact (kept_buffer_doAddMessage ih w b h.1 h.2 hi).kept
    . exact .refl h

theorem kept_transfer (now : Int) (n : Nat) (env : TreeEnv) (w : World) (t : StoreTree n) (k : Nat)
    (msgs : List MessageId)
    (h : Shallow n t) (hi : i ∉ (StoreBuffer.transfer (ops n) env w t k msgs).2.opened)
    : Kept now i n t (StoreBuffer.transfer (ops n) env w t k msgs).1.2 := by
  induction k generalizing w t msgs with
  | zero => exact .refl h
  | succ k ih =>
    cases msgs with
    | nil => exact .refl h
    | cons m msgs =>
      unfold StoreBuffer.transfer at hi ⊢
      dsimp only at hi ⊢
      split
      . next hok =>
        rw [if_pos hok] at hi
        have hfirst := kept_addMessage now n env m w t h
          fun hmem => hi (StoreBuffer.keeps_transfer (World.stable_opened i) (mono n i) env _ _ k msgs hmem)
        exact hfirst.trans (ih _ _ _ hfirst.shallow hi)
      . next hok =>
        rw [if_neg hok] at hi
        exact kept_addMessage now n env m w t h hi


-- the store is a leaf that is not connected
theorem close_eq_of_due (n : Nat) (w : World) (t : StoreTree n) (hleaf : isLeaf n t = true) (hdue : Due now i n t)
    : ((ops n).close w t).1 = t := by
  have hclose (l : Leaf) (h : LeafDue now i l) : l.close = l := by
    cases l with
    | network l =>
      have hoff : l.connected = false := by
        simpa using (Bool.and_eq_true_iff.mp h.2).1
      change Leaf.network (if l.connected = true then _ else l) = _
      rw [if_neg (by simp [hoff])]
    | file => exact h.elim
    | null => exact h.elim
  cases n with
  | zero => exact hclose t ((due_zero t).mp hdue)
  | succ n =>
    cases t with
    | leaf l => exact congrArg StoreLayer.leaf (hclose l ((due_leaf n l).mp hdue))
    | group g => exact absurd hleaf (by simp [isLeaf])
    | buffer b => exact absurd hleaf (by simp [isLeaf])

end StoreTree

namespace StoreBuffer

variable (ops : TreeOps σ)

theorem secondary_readOldest (env : TreeEnv) (w : World) (s : σ) (msgs : List MessageId)
    (hclose : ∀ w, (ops.close w s).1 = s)
    : (readOldest ops env w s msgs).1.2 = s := by
  unfold readOldest
  split
  . dsimp only
    split
    . exact hclose _
    . rfl
  . rfl

theorem secondary_endTransfer (env : TreeEnv) (w : World) (b : StoreBuffer σ) (msgs : List MessageId)
    (hclose : ∀ w, (ops.close w b.secondary).1 = b.secondary)
    : (endTransfer ops env w b msgs).1.secondary = b.secondary := by
  unfold endTransfer
  split
  . dsimp only
    split
    . rfl
    . exact hclose _
  . rfl

end StoreBuffer

namespace StoreTree

theorem primary_handOver (n : Nat) (env : TreeEnv) (w : World) (b : StoreBuffer (StoreTree n))
    (hshallow : b.transfers = true → Shallow n b.primary) (hclear : Clear now i n b.primary)
    (hdue : Due now i n b.primary) (hi : i ∉ (b.handOver (ops n) env w).2.opened)
    : Clear now i n (b.handOver (ops n) env w).1.primary ∧ Due now i n (b.handOver (ops n) env w).1.primary := by
  by_cases hover : b.handsOver (ops n) = true
  . obtain ⟨w1, msgs, c, heq, hprimary, -, hmsgs, -⟩ := b.handOver_eq (ops n) env w hover
    rw [heq] at hi ⊢
    rw [StoreBuffer.primary_endTransfer, hprimary]
    by_cases htransfers : b.transfers = true
    . have hkept := kept_transfer now n env w1 b.primary StoreBuffer.maxMsgPerCron msgs (hshallow htransfers)
        fun hmem => hi (StoreBuffer.keeps_endTransfer (mono n i) env _ _ _
          (StoreBuffer.keeps_readOldest (mono n i) env _ _ _ hmem))
      exact ⟨hkept.clear hclear, hkept.due_iff.mpr hdue⟩
    . rw [hmsgs (by simpa using htransfers)]
      exact ⟨hclear, hdue⟩
  . rw [b.handOver_eq_self (ops n) env w (by simpa using hover)]
    exact ⟨hclear, hdue⟩

theorem secondary_handOver (n : Nat) (env : TreeEnv) (w : World) (b : StoreBuffer (StoreTree n))
    (hleaf : b.handsOver (ops n) = true → isLeaf n b.secondary = true) (hdue : Due now i n b.secondary)
    : (b.handOver (ops n) env w).1.secondary = b.secondary := by
  by_cases hover : b.handsOver (ops n) = true
  . obtain ⟨w1, msgs, c, heq, -, hsecondary, -, -⟩ := b.handOver_eq (ops n) env w hover
    have hclose (w : World) := close_eq_of_due n w b.secondary (hleaf hover) hdue
    have hread := StoreBuffer.secondary_readOldest (ops n) env
      (StoreBuffer.transfer (ops n) env w1 b.primary StoreBuffer.maxMsgPerCron msgs).2 b.secondary
      (StoreBuffer.transfer (ops n) env w1 b.primary StoreBuffer.maxMsgPerCron msgs).1.1 hclose
    rw [hread] at hsecondary
    rw [heq, StoreBuffer.secondary_endTransfer, hsecondary]
    rw [hsecondary]
    exact hclose
  . rw [b.handOver_eq_self (ops n) env w (by simpa using hover)]

theorem opened_leaf_cron (env : TreeEnv) (w : World) (l : Leaf) (h : LeafDue env.unixtime i l)
    : i ∈ (l.cron env w).2.opened := by
  cases l with
  | network l =>
    obtain ⟨rfl, hdue⟩ := h
    change l.id ∈ (l.cron env w).2.opened
    unfold NetworkLeaf.cron
    rw [if_pos hdue]
    change l.id ∈ ((l.open_ env w).2).opened
    rw [NetworkLeaf.opened_open]
    exact List.mem_append_right _ List.mem_cons_self
  | file => exact h.elim
  | null => exact h.elim

theorem opened_cron (n : Nat) (env : TreeEnv) (w : World) (t : StoreTree n) (hclear : Clear env.unixtime i n t)
    (hdue : Due env.unixtime i n t)
    : i ∈ ((ops n).cron env w t).2.opened := by
  induction n generalizing w with
  | zero => exact opened_leaf_cron env w t ((due_zero t).mp hdue)
  | succ n ih =>
    cases t with
    | leaf l => exact opened_leaf_cron env w l ((due_leaf n l).mp hdue)
    | group g =>
      obtain ⟨hopen, hstores⟩ := hclear
      obtain ⟨s, hs, hsdue⟩ := (due_group n g).mp hdue
      change i ∈ (g.cron (ops n) env w).2.opened
      unfold StoreGroup.cron
      rw [if_pos (hopen hdue)]
      apply each_opens (fun w s i => (mono n i).cron env w s) w hs
      intro w1
      exact ih w1 s (hstores s hs) hsdue
    | buffer b =>
      obtain ⟨hopen, hprimary, hsecondary, hleaf, hshallow⟩ := hclear
      change i ∈ (b.cron (ops n) env w).2.opened
      unfold StoreBuffer.cron
      rw [if_pos (hopen hdue)]
      dsimp only
      by_cases hover : i ∈ (b.handOver (ops n) env w).2.opened
      . exact (mono n i).cron env _ _ ((mono n i).cron env _ _ hover)
      . rcases (due_buffer n b).mp hdue with hdue | hdue
        . obtain ⟨hclear', hdue'⟩ := primary_handOver n env w b (fun h => hshallow h hdue) hprimary hdue hover
          apply (mono n i).cron
          exact ih _ _ hclear' hdue'
        . have heq := secondary_handOver n env w b (fun h => hleaf h hdue) hdue
          apply ih
          . rw [heq]
            exact hsecondary
          . rw [heq]
            exact hdue

end StoreTree

namespace StorerTree

theorem mem_dueIds (now : Int) (store : StoreTree n) (id : LeafId)
    : id ∈ dueIds now store ↔ StoreTree.Due now id n store := by
  unfold dueIds StoreTree.Due
  simp only [List.mem_map, List.mem_filter]
  constructor
  . rintro ⟨l, ⟨hl, hdue⟩, hid⟩
    exact ⟨l, hl, hid, hdue⟩
  . rintro ⟨l, hl, hid, hdue⟩
    exact ⟨l, ⟨hl, hdue⟩, hid⟩

theorem onStore_of_defined {store : StoreTree n} {world : World} (h : world.Defined) (due : List LeafId)
    : onStore store world due = some ⟨store, world, due⟩ :=
  if_neg (by rw [h]; exact Bool.false_ne_true)

theorem onStore_eq_some {store : StoreTree n} {world : World} {due : List LeafId} (h : onStore store world due = some s)
    : s = ⟨store, world, due⟩ ∧ world.Defined := by
  unfold onStore at h
  split at h
  . cases h
  . next hdefined =>
    cases h
    exact ⟨rfl, by rwa [Bool.not_eq_true] at hdefined⟩

/--
A tree whose stores are as their constructors have made them can be opened.
-/
theorem start_of_idle (env : TreeEnv) {store : StoreTree n} (h : StoreTree.Idle (fun _ => True) n store)
    : ∃ s, start env store = some s := by
  have hopened := ((StoreTree.safe_idle Leaf.kept_true n).open_ env .init store h rfl).2
  exact ⟨_, onStore_of_defined hopened []⟩

theorem step_reached (s : StorerTree n) (l : Label) (hs : s.world.Defined) (h : s.Allowed l)
    : ∃ t, step s l = some t ∧ t.Reached ∧ t.world.Defined := by
  have hnext : s.world.next.Defined := hs
  have hnone (store : StoreTree n) (world : World) : Reached ⟨store, world, []⟩ := fun _ h => nomatch h
  cases l with
  | disconnect id => exact ⟨_, rfl, hnone _ _, hnext⟩
  | msgSent id => exact ⟨_, rfl, hnone _ _, hnext⟩
  | storeMessage env m =>
    unfold step
    dsimp only
    split
    . exact ⟨_, rfl, hnone _ _, hnext⟩
    . next hfree =>
      rw [Bool.not_eq_true] at hfree
      have hadded := ((StoreTree.accepts_ready Leaf.kept_true (fun _ _ _ _ h => h) n).addMessage env m _ s.store
        (h hfree) hnext).2
      have hcounted : World.Defined (if ((StoreTree.ops n).addMessage env m s.world.next s.store).1.2 = true then
          ((StoreTree.ops n).addMessage env m s.world.next s.store).2
        else
          ((StoreTree.ops n).addMessage env m s.world.next s.store).2.drop m) := by
        split
        . exact hadded
        . exact hadded
      exact ⟨_, onStore_of_defined hcounted [], hnone _ _, hcounted⟩
  | cron env =>
    obtain ⟨hcalm, hclear⟩ := h
    have hdefined := StoreTree.cron_defined n env _ s.store hcalm hnext
    refine ⟨_, onStore_of_defined hdefined _, ?_, hdefined⟩
    intro id hid
    exact StoreTree.opened_cron n env s.world.next s.store (hclear id hid)
      ((mem_dueIds env.unixtime s.store id).mp hid)

/--
In a run in which every step is defined and every tick comes through to the network stores that are due, every tick
calls their `Open`, whatever the stores above them made of `Open` when the storer was started.
-/
theorem reached_of_meets (env : TreeEnv) (store : StoreTree n) (ls : List Label) (hs : start env store = some s)
    (h : Run.Meets step Allowed s ls)
    : Run.Along step Reached s ls := by
  have hstart : s.Reached ∧ s.world.Defined := by
    obtain ⟨rfl, hdefined⟩ := onStore_eq_some hs
    exact ⟨List.forall_mem_nil _, hdefined⟩
  have hall : Run.Along step (fun s => s.Reached ∧ s.world.Defined) s ls :=
    Run.Along.of_meets (fun _ => True) hstart (fun _ _ => trivial) h fun s l hs _ h => step_reached s l hs.2 h
  exact hall.mono fun _ hs => hs.1

-- one network store, whose server is down, below a store of the given kind
def oneServer (kind : GroupKind) : StoreTree 1 :=
  .group ⟨kind, ofString "*", false, [.network ⟨0, ofString "*", false, false, 0⟩]⟩

def downAt (unixtime : Int) : TreeEnv where
  unixtime := unixtime
  answer := fun _ => false
  oldest := fun _ => []
  topicOf := fun _ => []
  preAddMessage := fun _ _ => true

theorem reached_of_meets_priority
    : ∃ s, start (downAt 0) (oneServer .priority) = some s ∧
        Run.Meets step Allowed s [.cron (downAt 5), .cron (downAt 10)] ∧
        Run.Along step Reached s [.cron (downAt 5), .cron (downAt 10)] := by
  have hclear (l : NetworkLeaf) (now : Int)
      : StoreTree.Calm 1 (.group ⟨.priority, ofString "*", true, [.network l]⟩) ∧
        ∀ id ∈ dueIds now (n := 1) (.group ⟨.priority, ofString "*", true, [.network l]⟩),
          StoreTree.Clear now id 1 (.group ⟨.priority, ofString "*", true, [.network l]⟩) := by
    refine ⟨fun _ => List.forall_mem_singleton.mpr trivial, fun id _ => ⟨fun _ => rfl, fun _ _ => trivial⟩⟩
  have hidle : StoreTree.Idle (fun _ => True) 1 (oneServer .priority) := List.forall_mem_singleton.mpr trivial
  obtain ⟨s, hs⟩ := start_of_idle (downAt 0) hidle
  have hmeets : Run.Meets step Allowed s [.cron (downAt 5), .cron (downAt 10)] := by
    cases hs
    refine ⟨hclear _ _, ?_⟩
    rintro _ ⟨⟩
    refine ⟨hclear _ _, ?_⟩
    rintro _ ⟨⟩
    trivial
  exact ⟨s, hs, hmeets, reached_of_meets (downAt 0) (oneServer .priority) _ hs hmeets⟩

/--
A `MultipleStore` is not open if its only server is down at start-up, and is never asked to reconnect it.
-/
theorem reached_fails_multiple
    : ∃ s, start (downAt 0) (oneServer .multipleAny) = some s ∧ ¬Run.Along step Reached s [.cron (downAt 5)] := by
  refine ⟨_, rfl, ?_⟩
  rintro ⟨-, _, ⟨⟩, hreached⟩
  have hopened := hreached 0 (by decide)
  exact absurd hopened (by decide)

end StorerTree
end Kids
