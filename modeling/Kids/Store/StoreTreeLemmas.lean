import Kids.Store.StoreTree
import Mathlib.Data.List.Forall2

/-!
What the functions of a tree of stores do to the calls of `NetworkStore::Open`, and that they keep the
shape of the tree. Each fact is proved for one layer from the same fact about its children.
-/

namespace Kids

section

variable {f : World → σ → τ × World}

theorem each_spec (hmono : ∀ w s, w.opened ⊆ (f w s).2.opened) (w : World) (stores : List σ)
    : w.opened ⊆ (each f w stores).2.opened ∧
        List.Forall₂ (fun s t => ∃ w1, t = (f w1 s).1 ∧ (f w1 s).2.opened ⊆ (each f w stores).2.opened)
          stores (each f w stores).1 := by
  induction stores generalizing w with
  | nil => exact ⟨fun _ h => h, .nil⟩
  | cons s stores ih =>
    obtain ⟨hrest, hall⟩ := ih (f w s).2
    refine ⟨fun id h => hrest (hmono w s h), .cons ⟨w, rfl, hrest⟩ ?_⟩
    exact hall

end

/--
`P` is kept by all that the stores do to the world.
-/
structure World.Stable (P : World → Prop) : Prop where
  calls : ∀ w n, P w → P { w with calls := n }
  opened : ∀ w i, P w → P { w with opened := w.opened ++ [i] }
  drop : ∀ w m, P w → P (w.drop m)
  lose : ∀ w m, P w → P (w.lose m)
  undefined : ∀ w, P w → P { w with undefined := true }

theorem World.stable_opened (i : LeafId) : World.Stable fun w => i ∈ w.opened where
  calls := fun _ _ h => h
  opened := fun _ _ h => List.mem_append_left _ h
  drop := fun _ _ h => h
  lose := fun _ _ h => h
  undefined := fun _ h => h

structure TreeOps.Keeps (P : World → Prop) (ops : TreeOps σ) : Prop where
  haveOldMessage : ∀ env w s, P w → P (ops.haveOldMessage env w s).2
  getOldestMessages : ∀ env w s, P w → P (ops.getOldestMessages env w s).2
  close : ∀ w s, P w → P (ops.close w s).2
  open_ : ∀ env w s, P w → P (ops.open_ env w s).2
  doAddMessage : ∀ env m w s, P w → P (ops.doAddMessage env m w s).2
  cron : ∀ env w s, P w → P (ops.cron env w s).2

namespace NetworkLeaf

theorem opened_open (env : TreeEnv) (l : NetworkLeaf) (w : World)
    : ((l.open_ env w).2).opened = w.opened ++ [l.id] := by
  unfold open_
  dsimp only [World.ask]
  split
  . rfl
  . rfl

theorem id_close (l : NetworkLeaf) : l.close.id = l.id := by
  unfold close
  split
  . rfl
  . rfl

theorem id_open (env : TreeEnv) (l : NetworkLeaf) (w : World) : (l.open_ env w).1.1.id = l.id := by
  unfold open_
  dsimp only [World.ask]
  split
  . exact l.id_close
  . exact l.id_close

end NetworkLeaf

section

variable {P : World → Prop}

theorem World.Stable.ask (hP : World.Stable P) (env : TreeEnv) (w : World) (h : P w) : P (w.ask env).2 :=
  hP.calls w _ h

theorem NetworkLeaf.keeps_open (hP : World.Stable P) (env : TreeEnv) (l : NetworkLeaf) (w : World) (h : P w)
    : P (l.open_ env w).2 := by
  have hopened := hP.opened w l.id h
  unfold open_
  dsimp only
  split
  . exact hP.ask env _ (hP.ask env _ hopened)
  . exact hP.ask env _ hopened

theorem FileLeaf.keeps_cron (hP : World.Stable P) (env : TreeEnv) (l : FileLeaf) (w : World) (h : P w)
    : P (l.cron env w).2 := by
  unfold cron
  split
  . exact h
  . split
    . exact hP.undefined w h
    . split
      . dsimp only
        split
        . exact hP.ask env _ (hP.ask env w h)
        . exact hP.ask env w h
      . exact h

theorem Leaf.keeps (hP : World.Stable P) : Leaf.ops.Keeps P where
  haveOldMessage := by
    intro env w s h
    cases s with
    | network => exact h
    | file => exact hP.ask env w h
    | null => exact h
  getOldestMessages := by
    intro env w s h
    cases s with
    | network => exact h
    | file => exact hP.calls w _ h
    | null => exact h
  close := fun _ _ h => h
  open_ := by
    intro env w s h
    cases s with
    | network l => exact l.keeps_open hP env w h
    | file => exact hP.ask env w h
    | null => exact h
  doAddMessage := by
    intro env m w s h
    cases s with
    | network => exact h
    | file l =>
      change P (l.doAddMessage env m w).2
      unfold FileLeaf.doAddMessage
      split
      . exact h
      . exact hP.ask env w h
    | null => exact h
  cron := by
    intro env w s h
    cases s with
    | network l =>
      change P (l.cron env w).2
      unfold NetworkLeaf.cron
      split
      . exact l.keeps_open hP env w h
      . exact h
    | file l => exact l.keeps_cron hP env w h
    | null => exact h

theorem keeps_each {f : World → σ → τ × World} (hf : ∀ w s, P w → P (f w s).2) (w : World) (stores : List σ)
    (h : P w)
    : P (each f w stores).2 := by
  induction stores generalizing w with
  | nil => exact h
  | cons s stores ih => exact ih _ (hf w s h)

variable {ops : TreeOps σ}

theorem TreeOps.Keeps.addMessage (h : ops.Keeps P) (env : TreeEnv) (m : MessageId) (w : World) (s : σ) (hw : P w)
    : P (ops.addMessage env m w s).2 := by
  unfold TreeOps.addMessage
  split
  . exact h.doAddMessage env m w s hw
  . exact hw

namespace StoreGroup

theorem keeps_close (h : ops.Keeps P) (w : World) (g : StoreGroup σ) (hw : P w) : P (g.close ops w).2 := by
  unfold close
  split
  . exact keeps_each h.close w g.stores hw
  . exact hw

theorem keeps_open (h : ops.Keeps P) (env : TreeEnv) (w : World) (g : StoreGroup σ) (hw : P w)
    : P (g.open_ ops env w).2 :=
  keeps_each (h.open_ env) (g.close ops w).2 (g.close ops w).1.stores (g.keeps_close h w hw)

theorem keeps_addToFirst (h : ops.Keeps P) (env : TreeEnv) (m : MessageId) (w : World) (stores : List σ) (hw : P w)
    : P (addToFirst ops env m w stores).2 := by
  induction stores generalizing w with
  | nil => exact hw
  | cons s stores ih =>
    have hadd := h.addMessage env m w s hw
    unfold addToFirst
    dsimp only
    split
    . exact hadd
    . exact ih _ hadd

theorem keeps_doAddMessage (h : ops.Keeps P) (env : TreeEnv) (m : MessageId) (w : World) (g : StoreGroup σ)
    (hw : P w)
    : P (g.doAddMessage ops env m w).2 := by
  unfold doAddMessage
  split
  . exact keeps_addToFirst h env m w g.stores hw
  . exact keeps_each (h.addMessage env m) w g.stores hw
  . exact keeps_each (h.addMessage env m) w g.stores hw

theorem keeps_cron (h : ops.Keeps P) (env : TreeEnv) (w : World) (g : StoreGroup σ) (hw : P w)
    : P (g.cron ops env w).2 := by
  unfold cron
  split
  . exact keeps_each (h.cron env) w g.stores hw
  . exact hw

end StoreGroup

namespace StoreBuffer

theorem keeps_closeQueue (hP : World.Stable P) (w : World) (q : TransferQueue) (hw : P w)
    : P (closeQueue w q).2 := by
  have hdrop (msgs : List MessageId) (w : World) (hw : P w) : P (msgs.foldl (fun w m => w.drop m) w) := by
    induction msgs generalizing w with
    | nil => exact hw
    | cons m msgs ih => exact ih _ (hP.drop w m hw)
  unfold closeQueue
  split
  . exact hw
  . exact hw
  . exact hdrop _ w hw
  . exact hP.undefined w hw

theorem keeps_close (hP : World.Stable P) (h : ops.Keeps P) (w : World) (b : StoreBuffer σ) (hw : P w)
    : P (b.close ops w).2 := by
  unfold close
  split
  . apply keeps_closeQueue hP
    exact h.close _ _ (h.close w b.primary hw)
  . exact hw

theorem keeps_open (hP : World.Stable P) (h : ops.Keeps P) (env : TreeEnv) (w : World) (b : StoreBuffer σ) (hw : P w)
    : P (b.open_ ops env w).2 := by
  have hprimary := h.open_ env _ (b.close ops w).1.primary (b.keeps_close hP h w hw)
  unfold open_
  dsimp only
  split
  . split
    . exact h.haveOldMessage env _ _ hprimary
    . exact h.haveOldMessage env _ _ hprimary
  . split
    . exact h.open_ env _ _ hprimary
    . exact h.open_ env _ _ hprimary

theorem keeps_addToPrimary (h : ops.Keeps P) (env : TreeEnv) (m : MessageId) (w : World) (b : StoreBuffer σ)
    (hw : P w)
    : P (b.addToPrimary ops env m w).2 := by
  unfold addToPrimary
  dsimp only
  split
  . split
    . split
      . exact h.addMessage env m w _ hw
      . exact h.open_ env _ _ (h.addMessage env m w _ hw)
    . exact h.open_ env _ _ hw
  . exact hw

theorem keeps_openSecondary (h : ops.Keeps P) (env : TreeEnv) (w : World) (secondary : σ) (hw : P w)
    : P (openSecondary ops env w secondary).2 := by
  unfold openSecondary
  split
  . exact hw
  . exact h.open_ env w secondary hw

theorem keeps_addToSecondary (hP : World.Stable P) (h : ops.Keeps P) (env : TreeEnv) (m : MessageId) (w : World)
    (b : StoreBuffer σ) (hw : P w)
    : P (b.addToSecondary ops env m w).2 := by
  have hopened := keeps_openSecondary h env w b.secondary hw
  have hadd := h.addMessage env m _ (openSecondary ops env w b.secondary).1 hopened
  unfold addToSecondary
  dsimp only
  split
  . exact hadd
  . exact hP.drop _ m hadd

theorem keeps_doAddMessage (hP : World.Stable P) (h : ops.Keeps P) (env : TreeEnv) (m : MessageId) (w : World)
    (b : StoreBuffer σ) (hw : P w)
    : P (b.doAddMessage ops env m w).2 := by
  have hprimary := keeps_addToPrimary h env m w b hw
  unfold doAddMessage
  dsimp only
  split
  . exact keeps_addToSecondary hP h env m _ _ hprimary
  . exact hprimary

theorem keeps_transfer (hP : World.Stable P) (h : ops.Keeps P) (env : TreeEnv) (w : World) (primary : σ) (n : Nat)
    (msgs : List MessageId) (hw : P w)
    : P (transfer ops env w primary n msgs).2 := by
  induction n generalizing w primary msgs with
  | zero => exact hw
  | succ n ih =>
    cases msgs with
    | nil => exact hw
    | cons m msgs =>
      have hadd := h.addMessage env m w primary hw
      unfold transfer
      dsimp only
      split
      . exact ih _ _ _ hadd
      . exact hP.lose _ m hadd

theorem keeps_readOldest (h : ops.Keeps P) (env : TreeEnv) (w : World) (secondary : σ) (msgs : List MessageId)
    (hw : P w)
    : P (readOldest ops env w secondary msgs).2 := by
  have hold := h.haveOldMessage env w secondary hw
  unfold readOldest
  split
  . dsimp only
    split
    . exact h.getOldestMessages env _ _ (h.close _ _ hold)
    . exact hold
  . exact hw

theorem keeps_endTransfer (h : ops.Keeps P) (env : TreeEnv) (w : World) (b : StoreBuffer σ) (msgs : List MessageId)
    (hw : P w)
    : P (endTransfer ops env w b msgs).2 := by
  have hold := h.haveOldMessage env w b.secondary hw
  unfold endTransfer
  split
  . dsimp only
    split
    . exact hold
    . exact h.close _ _ hold
  . exact hw

theorem keeps_handOver (hP : World.Stable P) (h : ops.Keeps P) (env : TreeEnv) (w : World) (b : StoreBuffer σ)
    (hw : P w)
    : P (b.handOver ops env w).2 := by
  unfold handOver
  dsimp only
  generalize (if b.state = .toSecondary ∧ ops.isOpen b.primary = true then
    { b with state := .transfering, msgs := .queue [] } else b) = b1
  split
  . apply keeps_endTransfer h
    apply keeps_readOldest h
    apply keeps_transfer hP h
    split
    . exact hw
    . exact hP.undefined w hw
  . exact hw

theorem keeps_cron (hP : World.Stable P) (h : ops.Keeps P) (env : TreeEnv) (w : World) (b : StoreBuffer σ) (hw : P w)
    : P (b.cron ops env w).2 := by
  unfold cron
  split
  . exact h.cron env _ _ (h.cron env _ _ (keeps_handOver hP h env w b hw))
  . exact hw

end StoreBuffer

theorem StoreLayer.keeps (hP : World.Stable P) (h : ops.Keeps P) : (StoreLayer.ops ops).Keeps P where
  haveOldMessage := by
    intro env w s
    cases s with
    | leaf l => exact (Leaf.keeps hP).haveOldMessage env w l
    | group g => exact fun hw => hw
    | buffer b => exact fun hw => hw
  getOldestMessages := by
    intro env w s
    cases s with
    | leaf l => exact (Leaf.keeps hP).getOldestMessages env w l
    | group g => exact fun hw => hw
    | buffer b => exact fun hw => hw
  close := by
    intro w s
    cases s with
    | leaf l => exact fun hw => hw
    | group g => exact g.keeps_close h w
    | buffer b => exact b.keeps_close hP h w
  open_ := by
    intro env w s
    cases s with
    | leaf l => exact (Leaf.keeps hP).open_ env w l
    | group g => exact g.keeps_open h env w
    | buffer b => exact b.keeps_open hP h env w
  doAddMessage := by
    intro env m w s
    cases s with
    | leaf l => exact (Leaf.keeps hP).doAddMessage env m w l
    | group g => exact g.keeps_doAddMessage h env m w
    | buffer b => exact b.keeps_doAddMessage hP h env m w
  cron := by
    intro env w s
    cases s with
    | leaf l => exact (Leaf.keeps hP).cron env w l
    | group g => exact g.keeps_cron h env w
    | buffer b => exact b.keeps_cron hP h env w

/--
What the world keeps in each single thing that happens to it, it keeps through every call of a store.
-/
theorem StoreTree.keeps (hP : World.Stable P) (n : Nat) : (StoreTree.ops n).Keeps P := by
  induction n with
  | zero => exact Leaf.keeps hP
  | succ n ih => exact StoreLayer.keeps hP ih

theorem StoreTree.keeps_delete (hP : World.Stable P) (n : Nat) (w : World) (t : StoreTree n) (hw : P w)
    : P (delete n w t) := by
  induction n generalizing w with
  | zero => exact hw
  | succ n ih =>
    cases t with
    | leaf l => exact hw
    | group g =>
      have hclosed := g.keeps_close (StoreTree.keeps hP n) w hw
      have hstores (stores : List (StoreTree n)) (w : World) (hw : P w) : P (stores.foldl (delete n) w) := by
        induction stores generalizing w with
        | nil => exact hw
        | cons s stores ihs => exact ihs _ (ih w s hw)
      exact hstores _ _ hclosed
    | buffer b =>
      have hclosed := b.keeps_close hP (StoreTree.keeps hP n) w hw
      exact ih _ _ (ih _ _ hclosed)

end

theorem StoreTree.mono (n : Nat) (i : LeafId) : (StoreTree.ops n).Keeps fun w => i ∈ w.opened :=
  StoreTree.keeps (World.stable_opened i) n

namespace StoreTree

def isLeaf : (n : Nat) → StoreTree n → Bool
  | 0, _ => true
  | _ + 1, .leaf _ => true
  | _ + 1, _ => false

def BufferFree : (n : Nat) → StoreTree n → Prop
  | 0, _ => True
  | _ + 1, .leaf _ => True
  | n + 1, .group g => ∀ s ∈ g.stores, BufferFree n s
  | _ + 1, .buffer _ => False

def networkIds (n : Nat) (t : StoreTree n) : List LeafId :=
  (networkLeaves n t).map NetworkLeaf.id

theorem networkIds_group (n : Nat) (g : StoreGroup (StoreTree n))
    : networkIds (n + 1) (.group g) = g.stores.flatMap (networkIds n) := by
  unfold networkIds
  rw [networkLeaves, List.map_flatMap]

/--
What `Open`, `Close` and `AddMessage` keep of a tree without buffers.
-/
structure SameShape (n : Nat) (t t' : StoreTree n) : Prop where
  free : BufferFree n t'
  ids_eq : networkIds n t' = networkIds n t
  leaf_eq : isLeaf n t' = isLeaf n t

theorem SameShape.refl {t : StoreTree n} (h : BufferFree n t) : SameShape n t t where
  free := h
  ids_eq := rfl
  leaf_eq := rfl

theorem SameShape.trans (h1 : SameShape n t u) (h2 : SameShape n u v) : SameShape n t v where
  free := h2.free
  ids_eq := h2.ids_eq.trans h1.ids_eq
  leaf_eq := h2.leaf_eq.trans h1.leaf_eq

theorem SameShape.group {g g' : StoreGroup (StoreTree n)} (h : List.Forall₂ (SameShape n) g.stores g'.stores)
    : SameShape (n + 1) (.group g) (.group g') where
  free := by
    change ∀ s ∈ g'.stores, BufferFree n s
    generalize g.stores = stores at h
    generalize g'.stores = stores' at h
    induction h with
    | nil => exact fun _ h => by cases h
    | cons hs _ ih =>
      rw [List.forall_mem_cons]
      exact ⟨hs.free, ih⟩
  ids_eq := by
    rw [networkIds_group, networkIds_group]
    generalize g.stores = stores at h
    generalize g'.stores = stores' at h
    induction h with
    | nil => rfl
    | cons hs _ ih => rw [List.flatMap_cons, List.flatMap_cons, hs.ids_eq, ih]
  leaf_eq := rfl

theorem each_opens {f : World → σ → τ × World} (hmono : ∀ w s, w.opened ⊆ (f w s).2.opened) (w : World)
    {stores : List σ} {s : σ} {i : LeafId} (hs : s ∈ stores) (hf : ∀ w1, i ∈ (f w1 s).2.opened)
    : i ∈ (each f w stores).2.opened := by
  induction stores generalizing w with
  | nil => cases hs
  | cons s' stores ih =>
    cases hs with
    | head => exact (each_spec hmono (f w s).2 stores).1 (hf w)
    | tail _ hs => exact ih (f w s').2 hs

-- the stores that a loop over them leaves behind
theorem each_forall₂ {f : World → σ → τ × World} (hmono : ∀ w s, w.opened ⊆ (f w s).2.opened) (w : World)
    (stores : List σ) {R : σ → τ → Prop}
    (hf : ∀ w1, ∀ s ∈ stores, (f w1 s).2.opened ⊆ (each f w stores).2.opened → R s (f w1 s).1)
    : List.Forall₂ R stores (each f w stores).1 := by
  have hspec := (each_spec hmono w stores).2
  generalize each f w stores = r at hspec hf
  obtain ⟨ts, w'⟩ := r
  dsimp only at hspec hf ⊢
  induction hspec with
  | nil => exact .nil
  | cons hs _ ih =>
    obtain ⟨w1, rfl, hsub⟩ := hs
    refine .cons (hf w1 _ List.mem_cons_self hsub) (ih ?_)
    exact fun w2 s hmem => hf w2 s (List.mem_cons_of_mem _ hmem)

def leafIds : Leaf → List LeafId
  | .network l => [l.id]
  | _ => []

theorem networkIds_zero (l : Leaf) : networkIds 0 l = leafIds l := by
  cases l <;> rfl

theorem networkIds_leaf (n : Nat) (l : Leaf) : networkIds (n + 1) (.leaf l) = leafIds l := by
  cases l <;> rfl

theorem shape_zero {l l' : Leaf} (h : leafIds l' = leafIds l) : SameShape 0 l l' where
  free := trivial
  ids_eq := by rw [networkIds_zero, networkIds_zero, h]
  leaf_eq := rfl

theorem shape_leaf {l l' : Leaf} (h : leafIds l' = leafIds l) : SameShape (n + 1) (.leaf l) (.leaf l') where
  free := trivial
  ids_eq := by rw [networkIds_leaf, networkIds_leaf, h]
  leaf_eq := rfl

theorem leafIds_close (l : Leaf) : leafIds l.close = leafIds l := by
  cases l with
  | network l => exact congrArg (fun id => [id]) l.id_close
  | file => rfl
  | null => rfl

theorem leafIds_open (env : TreeEnv) (w : World) (l : Leaf) : leafIds (l.open_ env w).1.1 = leafIds l := by
  cases l with
  | network l => exact congrArg (fun id => [id]) (l.id_open env w)
  | file => rfl
  | null => rfl

theorem leafIds_doAddMessage (env : TreeEnv) (m : MessageId) (w : World) (l : Leaf)
    : leafIds (l.doAddMessage env m w).1.1 = leafIds l := by
  cases l with
  | network l =>
    unfold Leaf.doAddMessage
    dsimp only
    split
    . rfl
    . rfl
  | file => rfl
  | null => rfl

theorem shape_close (n : Nat) (w : World) (t : StoreTree n) (h : BufferFree n t)
    : SameShape n t ((ops n).close w t).1 := by
  induction n generalizing w with
  | zero => exact shape_zero (leafIds_close t)
  | succ n ih =>
    cases t with
    | leaf l => exact shape_leaf (leafIds_close l)
    | group g =>
      change SameShape (n + 1) (.group g) (.group (g.close (ops n) w).1)
      apply SameShape.group
      unfold StoreGroup.close
      split
      . apply each_forall₂ fun w s i => (mono n i).close w s
        intro w1 s hs _
        exact ih w1 s (h s hs)
      . exact List.forall₂_same.mpr fun s hs => .refl (h s hs)
    | buffer b => exact h.elim

theorem shape_open (n : Nat) (env : TreeEnv) (w : World) (t : StoreTree n) (h : BufferFree n t)
    : SameShape n t (((ops n).open_ env w t).1).1 := by
  induction n generalizing w with
  | zero => exact shape_zero (leafIds_open env w t)
  | succ n ih =>
    cases t with
    | leaf l => exact shape_leaf (leafIds_open env w l)
    | group g =>
      have hclose := shape_close (n + 1) w (.group g) h
      refine hclose.trans (SameShape.group (g := (g.close (ops n) w).1) ?_)
      dsimp only [StoreGroup.open_]
      rw [List.forall₂_map_right_iff]
      apply each_forall₂ fun w s i => (mono n i).open_ env w s
      intro w1 s hs _
      exact ih w1 s (hclose.free s hs)
    | buffer b => exact h.elim

theorem shape_addToFirst (n : Nat) (env : TreeEnv) (m : MessageId) (w : World) (stores : List (StoreTree n))
    (hfree : ∀ s ∈ stores, BufferFree n s)
    (hadd : ∀ w, ∀ s ∈ stores, SameShape n s (((ops n).addMessage env m w s).1).1)
    : List.Forall₂ (SameShape n) stores ((StoreGroup.addToFirst (ops n) env m w stores).1).1 := by
  induction stores generalizing w with
  | nil => exact .nil
  | cons s stores ih =>
    rw [List.forall_mem_cons] at hfree
    have hrest := ih ((ops n).addMessage env m w s).2 hfree.2 fun w s hs => hadd w s (List.mem_cons_of_mem _ hs)
    unfold StoreGroup.addToFirst
    dsimp only
    split
    . exact .cons (hadd w s List.mem_cons_self) (List.forall₂_same.mpr fun s hs => .refl (hfree.2 s hs))
    . exact .cons (hadd w s List.mem_cons_self) hrest

theorem shape_addMessage (n : Nat) (env : TreeEnv) (m : MessageId) (w : World) (t : StoreTree n) (h : BufferFree n t)
    : SameShape n t (((ops n).addMessage env m w t).1).1 := by
  unfold TreeOps.addMessage
  split
  . induction n generalizing w with
    | zero => exact shape_zero (leafIds_doAddMessage env m w t)
    | succ n ih =>
      have hadd (w : World) (s : StoreTree n) (hs : BufferFree n s)
          : SameShape n s (((ops n).addMessage env m w s).1).1 := by
        unfold TreeOps.addMessage
        split
        . next hpre => exact ih w s hs hpre
        . exact .refl hs
      cases t with
      | leaf l => exact shape_leaf (leafIds_doAddMessage env m w l)
      | group g =>
        change SameShape (n + 1) (.group g) (.group (g.doAddMessage (ops n) env m w).1.1)
        apply SameShape.group
        unfold StoreGroup.doAddMessage
        split
        . exact shape_addToFirst n env m w g.stores h fun w s hs => hadd w s (h s hs)
        . dsimp only
          rw [List.forall₂_map_right_iff]
          exact each_forall₂ (fun w s i => (mono n i).addMessage env m w s) w g.stores fun w1 s hs _ => hadd w1 s (h s hs)
        . dsimp only
          rw [List.forall₂_map_right_iff]
          exact each_forall₂ (fun w s i => (mono n i).addMessage env m w s) w g.stores fun w1 s hs _ => hadd w1 s (h s hs)
      | buffer b => exact h.elim
  . exact .refl h

theorem opened_open (n : Nat) (env : TreeEnv) (w : World) (t : StoreTree n) (h : BufferFree n t) {i : LeafId}
    (hi : i ∈ networkIds n t)
    : i ∈ ((ops n).open_ env w t).2.opened := by
  have hleaf (w : World) (l : Leaf) (hi : i ∈ leafIds l) : i ∈ (l.open_ env w).2.opened := by
    cases l with
    | network l =>
      change i ∈ (l.open_ env w).2.opened
      rw [NetworkLeaf.opened_open]
      exact List.mem_append_right _ hi
    | file => cases hi
    | null => cases hi
  induction n generalizing w with
  | zero =>
    rw [show networkIds 0 t = leafIds t from networkIds_zero t] at hi
    exact hleaf w t hi
  | succ n ih =>
    cases t with
    | leaf l =>
      rw [networkIds_leaf] at hi
      exact hleaf w l hi
    | group g =>
      have hclose := shape_close (n + 1) w (.group g) h
      have hi' : i ∈ networkIds (n + 1) (.group (g.close (ops n) w).1) := by
        change i ∈ networkIds (n + 1) ((ops (n + 1)).close w (.group g)).1
        rw [hclose.ids_eq]
        exact hi
      rw [networkIds_group, List.mem_flatMap] at hi'
      obtain ⟨s, hs, his⟩ := hi'
      apply each_opens (fun w s i => (mono n i).open_ env w s) _ hs
      intro w1
      exact ih w1 s (hclose.free s hs) his
    | buffer b => exact h.elim

end StoreTree
end Kids
