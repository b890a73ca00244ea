import Kids.Store.StoreTreeLemmas

/-!
Which steps of a tree of stores are defined: none uses a `msg_to_transfer_` that was deleted, and no `Cron` divides by a
rotate interval of 0. What is asked of a store depends on what a step can do to it, a `Cron` alone, an `AddMessage` and
then a `Cron`, or anything.
-/

namespace Kids

namespace World

def Defined (w : World) : Prop :=
  w.undefined = false

theorem Defined.ask {w : World} (h : w.Defined) (env : TreeEnv) : (w.ask env).2.Defined :=
  h

end World

namespace Leaf

def Rotates : Leaf → Prop
  | .file l => l.rotateInterval ≠ 0
  | _ => True

def RotatesOpen : Leaf → Prop
  | .file l => l.isOpen = true → l.rotateInterval ≠ 0
  | _ => True

-- what is the same of a leaf after any call but `Cron`
structure Kept (P : Leaf → Prop) : Prop where
  close : ∀ l, P l → P l.close
  open_ : ∀ env w l, P l → P (Leaf.open_ env w l).1.1
  doAddMessage : ∀ env m w l, P l → P (Leaf.doAddMessage env m w l).1.1

end Leaf

namespace FileLeaf

theorem rotateInterval_close (l : FileLeaf) : l.close.rotateInterval = l.rotateInterval := by
  unfold close
  split
  . rfl
  . rfl

theorem doAddMessage_frame (env : TreeEnv) (m : MessageId) (l : FileLeaf) (w : World)
    : (l.doAddMessage env m w).1.1.rotateInterval = l.rotateInterval ∧
        (l.doAddMessage env m w).1.1.isOpen = l.isOpen := by
  unfold doAddMessage
  split
  . exact ⟨rfl, rfl⟩
  . dsimp only
    split
    . exact ⟨rfl, rfl⟩
    . exact ⟨rfl, rfl⟩

end FileLeaf

theorem Leaf.kept_true : Leaf.Kept fun _ => True :=
  ⟨fun _ _ => trivial, fun _ _ _ _ => trivial, fun _ _ _ _ _ => trivial⟩

theorem Leaf.kept_rotates : Leaf.Kept Leaf.Rotates where
  close := by
    intro l h
    cases l with
    | file l =>
      change l.close.rotateInterval ≠ 0
      rw [l.rotateInterval_close]
      exact h
    | network => trivial
    | null => trivial
  open_ := by
    intro env w l h
    cases l with
    | file l =>
      change l.close.rotateInterval ≠ 0
      rw [l.rotateInterval_close]
      exact h
    | network => trivial
    | null => trivial
  doAddMessage := by
    intro env m w l h
    cases l with
    | file l =>
      change (l.doAddMessage env m w).1.1.rotateInterval ≠ 0
      rw [(l.doAddMessage_frame env m w).1]
      exact h
    | network => trivial
    | null => trivial

theorem Leaf.rotatesOpen_doAddMessage (env : TreeEnv) (m : MessageId) (w : World) (l : Leaf) (h : l.RotatesOpen)
    : (l.doAddMessage env m w).1.1.RotatesOpen := by
  cases l with
  | file l =>
    intro hopen
    change (l.doAddMessage env m w).1.1.rotateInterval ≠ 0
    change (l.doAddMessage env m w).1.1.isOpen = true at hopen
    rw [(l.doAddMessage_frame env m w).1]
    rw [(l.doAddMessage_frame env m w).2] at hopen
    exact h hopen
  | network => trivial
  | null => trivial

namespace StoreBuffer

/--
There is no message in `msg_to_transfer_`, which was not deleted.
-/
def Empty (b : StoreBuffer σ) : Prop :=
  (b.msgs = .null ∨ b.msgs = .queue []) ∧ (b.isOpen = true → b.state = .transfering → b.msgs = .queue [])

def Queued (b : StoreBuffer σ) : Prop :=
  b.state = .transfering → ∃ msgs, b.msgs = .queue msgs

-- the next `Cron` transfers messages or sees that there are none, and closes the secondary store then
def handsOver (ops : TreeOps σ) (b : StoreBuffer σ) : Bool :=
  b.state = .transfering || b.state = .toSecondary && ops.isOpen b.primary

def transfers (b : StoreBuffer σ) : Bool :=
  b.state = .transfering &&
    match b.msgs with
    | .queue (_ :: _) => true
    | _ => false

end StoreBuffer

namespace StoreLayer

variable (P : Leaf → Prop)

-- whatever happens to the store
def Idle (Good : σ → Prop) : StoreLayer σ → Prop
  | .leaf l => P l
  | .group g => ∀ s ∈ g.stores, Good s
  | .buffer b => b.Empty ∧ Good b.primary ∧ Good b.secondary

-- messages come, which can open secondary stores
def Ready (IsIdle Good : σ → Prop) : StoreLayer σ → Prop
  | .leaf l => P l
  | .group g => ∀ s ∈ g.stores, Good s
  | .buffer b => (b.isOpen = true → b.Queued) ∧ Good b.primary ∧ IsIdle b.secondary

end StoreLayer

namespace StoreTree

def Idle (P : Leaf → Prop) : (n : Nat) → StoreTree n → Prop
  | 0, l => P l
  | n + 1, s => StoreLayer.Idle P (Idle P n) s

def Ready (P Q : Leaf → Prop) : (n : Nat) → StoreTree n → Prop
  | 0, l => Q l
  | n + 1, s => StoreLayer.Ready Q (Idle P n) (Ready P Q n) s

/--
A `Cron` of the store is defined.
-/
def Calm : (n : Nat) → StoreTree n → Prop
  | 0, l => Leaf.RotatesOpen l
  | _ + 1, .leaf l => l.RotatesOpen
  | n + 1, .group g => g.isOpen = true → ∀ s ∈ g.stores, Calm n s
  | n + 1, .buffer b => b.isOpen = true → b.Queued ∧ Calm n b.primary ∧ Calm n b.secondary ∧
      (b.transfers = true → Ready Leaf.Rotates Leaf.RotatesOpen n b.primary) ∧
      (b.handsOver (ops n) = true → Idle Leaf.Rotates n b.secondary)

end StoreTree

/--
Calls that leave `Good` and the world as it has to be.
-/
structure TreeOps.Safe (ops : TreeOps σ) (Good : σ → Prop) : Prop where
  haveOldMessage : ∀ env w s, w.Defined → (ops.haveOldMessage env w s).2.Defined
  getOldestMessages : ∀ env w s, w.Defined → (ops.getOldestMessages env w s).2.Defined
  close : ∀ w s, Good s → w.Defined → Good (ops.close w s).1 ∧ (ops.close w s).2.Defined
  open_ : ∀ env w s, Good s → w.Defined → Good (ops.open_ env w s).1.1 ∧ (ops.open_ env w s).2.Defined
  doAddMessage : ∀ env m w s, Good s → w.Defined →
    Good (ops.doAddMessage env m w s).1.1 ∧ (ops.doAddMessage env m w s).2.Defined

structure TreeOps.Accepts (ops : TreeOps σ) (Good : σ → Prop) : Prop where
  doAddMessage : ∀ env m w s, Good s → w.Defined →
    Good (ops.doAddMessage env m w s).1.1 ∧ (ops.doAddMessage env m w s).2.Defined

theorem TreeOps.Safe.accepts {ops : TreeOps σ} {Good : σ → Prop} (h : ops.Safe Good) : ops.Accepts Good :=
  ⟨h.doAddMessage⟩

section

variable {ops : TreeOps σ} {Good IsIdle : σ → Prop} {P : Leaf → Prop}

theorem each_defined {f : World → σ → τ × World} (store : τ → σ)
    (hf : ∀ w s, Good s → w.Defined → Good (store (f w s).1) ∧ (f w s).2.Defined) (w : World) (stores : List σ)
    (hgood : ∀ s ∈ stores, Good s) (hw : w.Defined)
    : (∀ s ∈ (each f w stores).1.map store, Good s) ∧ (each f w stores).2.Defined := by
  induction stores generalizing w with
  | nil => exact ⟨List.forall_mem_nil _, hw⟩
  | cons s stores ih =>
    rw [List.forall_mem_cons] at hgood
    obtain ⟨hs, hw'⟩ := hf w s hgood.1 hw
    obtain ⟨hstores, hw''⟩ := ih _ hgood.2 hw'
    exact ⟨List.forall_mem_cons.mpr ⟨hs, hstores⟩, hw''⟩

namespace TreeOps.Accepts

variable (h : ops.Accepts Good)
include h

theorem addMessage (env : TreeEnv) (m : MessageId) (w : World) (s : σ) (hs : Good s) (hw : w.Defined)
    : Good (ops.addMessage env m w s).1.1 ∧ (ops.addMessage env m w s).2.Defined := by
  unfold TreeOps.addMessage
  split
  . exact h.doAddMessage env m w s hs hw
  . exact ⟨hs, hw⟩

theorem addToFirst (env : TreeEnv) (m : MessageId) (w : World) (stores : List σ) (hgood : ∀ s ∈ stores, Good s)
    (hw : w.Defined)
    : (∀ s ∈ (StoreGroup.addToFirst ops env m w stores).1.1, Good s) ∧
        (StoreGroup.addToFirst ops env m w stores).2.Defined := by
  induction stores generalizing w with
  | nil => exact ⟨hgood, hw⟩
  | cons s stores ih =>
    rw [List.forall_mem_cons] at hgood
    obtain ⟨hs, hw'⟩ := h.addMessage env m w s hgood.1 hw
    obtain ⟨hstores, hw''⟩ := ih _ hgood.2 hw'
    unfold StoreGroup.addToFirst
    dsimp only
    split
    . exact ⟨List.forall_mem_cons.mpr ⟨hs, hgood.2⟩, hw'⟩
    . exact ⟨List.forall_mem_cons.mpr ⟨hs, hstores⟩, hw''⟩

theorem group_doAddMessage (env : TreeEnv) (m : MessageId) (w : World) (g : StoreGroup σ)
    (hg : ∀ s ∈ g.stores, Good s) (hw : w.Defined)
    : (∀ s ∈ (g.doAddMessage ops env m w).1.1.stores, Good s) ∧ (g.doAddMessage ops env m w).2.Defined := by
  unfold StoreGroup.doAddMessage
  split
  . exact h.addToFirst env m w g.stores hg hw
  . exact each_defined Prod.fst (h.addMessage env m) w g.stores hg hw
  . exact each_defined Prod.fst (h.addMessage env m) w g.stores hg hw

theorem transfer (env : TreeEnv) (w : World) (primary : σ) (n : Nat) (msgs : List MessageId) (hs : Good primary)
    (hw : w.Defined)
    : Good (StoreBuffer.transfer ops env w primary n msgs).1.2 ∧
        (StoreBuffer.transfer ops env w primary n msgs).2.Defined := by
  induction n generalizing w primary msgs with
  | zero => exact ⟨hs, hw⟩
  | succ n ih =>
    cases msgs with
    | nil => exact ⟨hs, hw⟩
    | cons m msgs =>
      obtain ⟨hs', hw'⟩ := h.addMessage env m w primary hs hw
      unfold StoreBuffer.transfer
      dsimp only
      split
      . exact ih _ _ msgs hs' hw'
      . exact ⟨hs', hw'⟩

end TreeOps.Accepts

namespace StoreBuffer

-- what a message leaves of a buffer store
structure AddKept (b b' : StoreBuffer σ) : Prop where
  isOpen_eq : b'.isOpen = b.isOpen
  msgs_eq : b'.msgs = b.msgs
  state : b'.state = b.state ∨ b'.state = .toSecondary

theorem AddKept.empty {b b' : StoreBuffer σ} (h : AddKept b b') (hempty : b.Empty) : b'.Empty := by
  unfold Empty at hempty ⊢
  rw [h.isOpen_eq, h.msgs_eq]
  refine ⟨hempty.1, fun hopen hstate => hempty.2 hopen ?_⟩
  obtain heq | heq := h.state
  . rwa [heq] at hstate
  . rw [heq] at hstate
    cases hstate

theorem AddKept.queued {b b' : StoreBuffer σ} (h : AddKept b b') (hqueued : b.isOpen = true → b.Queued)
    (hopen : b'.isOpen = true) : b'.Queued := by
  unfold Queued at hqueued ⊢
  rw [h.isOpen_eq] at hopen
  rw [h.msgs_eq]
  intro hstate
  apply hqueued hopen
  obtain heq | heq := h.state
  . rwa [heq] at hstate
  . rw [heq] at hstate
    cases hstate

theorem doAddMessage_defined (hprimary : ops.Accepts Good) (hsecondary : ops.Safe IsIdle) (env : TreeEnv)
    (m : MessageId) (w : World) (b : StoreBuffer σ) (hp : Good b.primary) (hs : IsIdle b.secondary) (hw : w.Defined)
    : AddKept b (b.doAddMessage ops env m w).1.1 ∧ Good (b.doAddMessage ops env m w).1.1.primary ∧
        IsIdle (b.doAddMessage ops env m w).1.1.secondary ∧ (b.doAddMessage ops env m w).2.Defined := by
  have hfirst : AddKept b (b.addToPrimary ops env m w).1.1 ∧ Good (b.addToPrimary ops env m w).1.1.primary ∧
      IsIdle (b.addToPrimary ops env m w).1.1.secondary ∧ (b.addToPrimary ops env m w).2.Defined := by
    unfold addToPrimary
    dsimp only
    split
    . split
      . obtain ⟨hp', hw'⟩ := hprimary.addMessage env m w b.primary hp hw
        split
        . exact ⟨⟨rfl, rfl, .inl rfl⟩, hp', hs, hw'⟩
        . obtain ⟨hs', hw''⟩ := hsecondary.open_ env _ b.secondary hs hw'
          exact ⟨⟨rfl, rfl, .inr rfl⟩, hp', hs', hw''⟩
      . obtain ⟨hs', hw'⟩ := hsecondary.open_ env w b.secondary hs hw
        exact ⟨⟨rfl, rfl, .inr rfl⟩, hp, hs', hw'⟩
    . exact ⟨⟨rfl, rfl, .inl rfl⟩, hp, hs, hw⟩
  obtain ⟨hkept, hp1, hs1, hw1⟩ := hfirst
  unfold doAddMessage
  dsimp only
  split
  . have hopened : IsIdle (openSecondary ops env (b.addToPrimary ops env m w).2
        (b.addToPrimary ops env m w).1.1.secondary).1 ∧
        (openSecondary ops env (b.addToPrimary ops env m w).2 (b.addToPrimary ops env m w).1.1.secondary).2.Defined := by
      unfold openSecondary
      split
      . exact ⟨hs1, hw1⟩
      . exact hsecondary.open_ env _ _ hs1 hw1
    obtain ⟨hs2, hw2⟩ := hsecondary.accepts.addMessage env m _ _ hopened.1 hopened.2
    unfold addToSecondary
    refine ⟨⟨hkept.isOpen_eq, hkept.msgs_eq, hkept.state⟩, hp1, hs2, ?_⟩
    dsimp only
    split
    . exact hw2
    . exact hw2
  . exact ⟨hkept, hp1, hs1, hw1⟩

theorem close_defined (h : ops.Safe Good) (w : World) (b : StoreBuffer σ) (hb : b.Empty) (hp : Good b.primary)
    (hs : Good b.secondary) (hw : w.Defined)
    : ((b.close ops w).1.Empty ∧ Good (b.close ops w).1.primary ∧ Good (b.close ops w).1.secondary) ∧
        (b.close ops w).2.Defined ∧ ((b.close ops w).1.isOpen = false) := by
  unfold close
  split
  . obtain ⟨hp', hw'⟩ := h.close w b.primary hp hw
    obtain ⟨hs', hw''⟩ := h.close _ b.secondary hs hw'
    have hqueue : ∀ w, closeQueue w b.msgs = (b.msgs, w) := by
      intro w
      obtain hmsgs | hmsgs := hb.1
      . rw [hmsgs]
        rfl
      . rw [hmsgs]
        rfl
    dsimp only
    rw [hqueue]
    exact ⟨⟨⟨hb.1, nofun⟩, hp', hs'⟩, hw'', rfl⟩
  . next hclosed => exact ⟨⟨hb, hp, hs⟩, hw, Bool.not_eq_true _ ▸ hclosed⟩

theorem open_defined (h : ops.Safe Good) (env : TreeEnv) (w : World) (b : StoreBuffer σ) (hb : b.Empty)
    (hp : Good b.primary) (hs : Good b.secondary) (hw : w.Defined)
    : ((b.open_ ops env w).1.1.Empty ∧ Good (b.open_ ops env w).1.1.primary ∧
        Good (b.open_ ops env w).1.1.secondary) ∧ (b.open_ ops env w).2.Defined := by
  obtain ⟨⟨hb1, hp1, hs1⟩, hw1, -⟩ := close_defined h w b hb hp hs hw
  unfold open_
  generalize b.close ops w = closed at *
  obtain ⟨hp2, hw2⟩ := h.open_ env closed.2 closed.1.primary hp1 hw1
  dsimp only
  split
  . have hw3 := h.haveOldMessage env _ closed.1.secondary hw2
    split
    . exact ⟨⟨⟨.inr rfl, fun _ _ => rfl⟩, hp2, hs1⟩, hw3⟩
    . exact ⟨⟨⟨hb1.1, fun _ => nofun⟩, hp2, hs1⟩, hw3⟩
  . obtain ⟨hs3, hw3⟩ := h.open_ env _ closed.1.secondary hs1 hw2
    split
    . exact ⟨⟨⟨hb1.1, fun _ => nofun⟩, hp2, hs3⟩, hw3⟩
    . exact ⟨⟨⟨hb1.1, nofun⟩, hp2, hs3⟩, hw3⟩

section

variable (ops : TreeOps σ)

theorem handOver_eq_self (env : TreeEnv) (w : World) (b : StoreBuffer σ) (h : b.handsOver ops = false)
    : b.handOver ops env w = (b, w) := by
  have hno : ¬ (b.state = .toSecondary ∧ ops.isOpen b.primary = true) ∧ b.state ≠ .transfering := by
    simpa [handsOver, and_comm] using h
  unfold handOver
  dsimp only
  rw [if_neg hno.1, if_neg hno.2]

theorem primary_endTransfer (env : TreeEnv) (w : World) (b : StoreBuffer σ) (msgs : List MessageId)
    : (endTransfer ops env w b msgs).1.primary = b.primary := by
  unfold endTransfer
  split
  . dsimp only
    split
    . rfl
    . rfl
  . rfl

-- the steps of a tick that works on the messages to transfer
theorem handOver_eq (env : TreeEnv) (w : World) (b : StoreBuffer σ) (h : b.handsOver ops = true)
    : ∃ w1 msgs c,
        let r := transfer ops env w1 b.primary maxMsgPerCron msgs
        let q := readOldest ops env r.2 b.secondary r.1.1
        b.handOver ops env w = endTransfer ops env q.2 c q.1.1 ∧ c.primary = r.1.2 ∧ c.secondary = q.1.2 ∧
          (b.transfers = false → msgs = []) ∧ (b.Queued → w1 = w) := by
  unfold handOver
  dsimp only
  by_cases hswitch : b.state = .toSecondary ∧ ops.isOpen b.primary = true
  . rw [if_pos hswitch, if_pos rfl]
    exact ⟨_, _, _, rfl, rfl, rfl, fun _ => rfl, fun _ => rfl⟩
  . have hstate : b.state = .transfering := by
      simp_all [handsOver]
    rw [if_neg hswitch, if_pos hstate]
    refine ⟨_, _, _, rfl, rfl, rfl, ?_, ?_⟩
    . intro htransfers
      unfold transfers at htransfers
      split
      . next msgs hmsgs =>
        cases msgs with
        | nil => rfl
        | cons m msgs => simp [hstate, hmsgs] at htransfers
      . rfl
    . intro hqueued
      obtain ⟨msgs, hmsgs⟩ := hqueued hstate
      rw [hmsgs]

end

end StoreBuffer

theorem StoreGroup.close_defined (h : ops.Safe Good) (w : World) (g : StoreGroup σ) (hg : ∀ s ∈ g.stores, Good s)
    (hw : w.Defined) : (∀ s ∈ (g.close ops w).1.stores, Good s) ∧ (g.close ops w).2.Defined := by
  unfold close
  split
  . have hclosed := each_defined id h.close w g.stores hg hw
    rwa [List.map_id] at hclosed
  . exact ⟨hg, hw⟩

theorem Leaf.safe (hP : Leaf.Kept P) : Leaf.ops.Safe P where
  haveOldMessage := by
    intro env w s hw
    cases s <;> exact hw
  getOldestMessages := by
    intro env w s hw
    cases s <;> exact hw
  close := fun _ s hs hw => ⟨hP.close s hs, hw⟩
  open_ := by
    intro env w s hs hw
    refine ⟨hP.open_ env w s hs, ?_⟩
    cases s with
    | network l =>
      change (l.open_ env w).2.Defined
      unfold NetworkLeaf.open_
      dsimp only
      split
      . exact hw
      . exact hw
    | file l => exact hw
    | null => exact hw
  doAddMessage := by
    intro env m w s hs hw
    refine ⟨hP.doAddMessage env m w s hs, ?_⟩
    cases s with
    | network l => exact hw
    | file l =>
      change (l.doAddMessage env m w).2.Defined
      unfold FileLeaf.doAddMessage
      split
      . exact hw
      . exact hw
    | null => exact hw

theorem StoreLayer.safe (hP : Leaf.Kept P) (h : ops.Safe Good)
    : (StoreLayer.ops ops).Safe (StoreLayer.Idle P Good) where
  haveOldMessage := by
    intro env w s hw
    cases s with
    | leaf l => exact (Leaf.safe hP).haveOldMessage env w l hw
    | group => exact hw
    | buffer => exact hw
  getOldestMessages := by
    intro env w s hw
    cases s with
    | leaf l => exact (Leaf.safe hP).getOldestMessages env w l hw
    | group => exact hw
    | buffer => exact hw
  close := by
    intro w s hs hw
    cases s with
    | leaf l => exact (Leaf.safe hP).close w l hs hw
    | group g => exact g.close_defined h w hs hw
    | buffer b =>
      obtain ⟨hb, hw', -⟩ := b.close_defined h w hs.1 hs.2.1 hs.2.2 hw
      exact ⟨hb, hw'⟩
  open_ := by
    intro env w s hs hw
    cases s with
    | leaf l => exact (Leaf.safe hP).open_ env w l hs hw
    | group g =>
      obtain ⟨hg, hw'⟩ := g.close_defined h w hs hw
      exact each_defined Prod.fst (h.open_ env) _ _ hg hw'
    | buffer b => exact b.open_defined h env w hs.1 hs.2.1 hs.2.2 hw
  doAddMessage := by
    intro env m w s hs hw
    cases s with
    | leaf l => exact (Leaf.safe hP).doAddMessage env m w l hs hw
    | group g => exact h.accepts.group_doAddMessage env m w g hs hw
    | buffer b =>
      obtain ⟨hkept, hp, hsec, hw'⟩ := b.doAddMessage_defined h.accepts h env m w hs.2.1 hs.2.2 hw
      exact ⟨⟨hkept.empty hs.1, hp, hsec⟩, hw'⟩

theorem StoreLayer.accepts (hP : ∀ env m w l, P l → P (Leaf.doAddMessage env m w l).1.1) (hidle : ops.Safe IsIdle)
    (h : ops.Accepts Good) : (StoreLayer.ops ops).Accepts (StoreLayer.Ready P IsIdle Good) where
  doAddMessage := by
    intro env m w s hs hw
    cases s with
    | leaf l => exact ⟨hP env m w l hs, ((Leaf.safe Leaf.kept_true).doAddMessage env m w l trivial hw).2⟩
    | group g => exact h.group_doAddMessage env m w g hs hw
    | buffer b =>
      obtain ⟨hkept, hp, hsec, hw'⟩ := b.doAddMessage_defined h hidle env m w hs.2.1 hs.2.2 hw
      exact ⟨⟨hkept.queued hs.1, hp, hsec⟩, hw'⟩

end

namespace StoreTree

variable {P Q : Leaf → Prop}

theorem safe_idle (hP : Leaf.Kept P) : (n : Nat) → (ops n).Safe (Idle P n)
  | 0 => Leaf.safe hP
  | n + 1 => StoreLayer.safe hP (safe_idle hP n)

theorem accepts_ready (hP : Leaf.Kept P) (hQ : ∀ env m w l, Q l → Q (Leaf.doAddMessage env m w l).1.1)
    : (n : Nat) → (ops n).Accepts (Ready P Q n)
  | 0 => ⟨fun env m w l hl hw =>
      ⟨hQ env m w l hl, ((Leaf.safe Leaf.kept_true).doAddMessage env m w l trivial hw).2⟩⟩
  | n + 1 => StoreLayer.accepts hQ (safe_idle hP n) (accepts_ready hP hQ n)

theorem Idle.ready (hPQ : ∀ l, P l → Q l) : (n : Nat) → (t : StoreTree n) → Idle P n t → Ready P Q n t
  | 0, t, h => hPQ t h
  | _ + 1, .leaf l, h => hPQ l h
  | n + 1, .group _, h => fun s hs => Idle.ready hPQ n s (h s hs)
  | n + 1, .buffer b, ⟨hempty, hp, hs⟩ =>
    ⟨fun hopen hstate => ⟨[], hempty.2 hopen hstate⟩, Idle.ready hPQ n b.primary hp, hs⟩

theorem rotatesOpen_of_rotates (l : Leaf) (h : l.Rotates) : l.RotatesOpen := by
  cases l with
  | file l => exact fun _ => h
  | network => trivial
  | null => trivial

theorem Ready.calm : (n : Nat) → (t : StoreTree n) → Ready Leaf.Rotates Leaf.RotatesOpen n t → Calm n t
  | 0, _, h => h
  | _ + 1, .leaf _, h => h
  | n + 1, .group _, h => fun _ s hs => Ready.calm n s (h s hs)
  | n + 1, .buffer b, ⟨hqueued, hp, hs⟩ => fun hopen =>
    ⟨hqueued hopen, Ready.calm n b.primary hp,
      Ready.calm n b.secondary (Idle.ready rotatesOpen_of_rotates n b.secondary hs), fun _ => hp, fun _ => hs⟩

theorem Idle.calm {t : StoreTree n} (h : Idle Leaf.Rotates n t) : Calm n t :=
  Ready.calm n t (Idle.ready rotatesOpen_of_rotates n t h)

theorem leaf_cron_defined (env : TreeEnv) (w : World) (l : Leaf) (h : l.RotatesOpen) (hw : w.Defined)
    : (l.cron env w).2.Defined := by
  cases l with
  | network l =>
    change (l.cron env w).2.Defined
    unfold NetworkLeaf.cron
    split
    . exact ((Leaf.safe Leaf.kept_true).open_ env w (.network l) trivial hw).2
    . exact hw
  | file l =>
    change (l.cron env w).2.Defined
    unfold FileLeaf.cron
    split
    . exact hw
    . next hopen =>
      rw [not_or, not_not] at hopen
      rw [if_neg (h hopen.1)]
      split
      . dsimp only
        split
        . exact hw
        . exact hw
      . exact hw
  | null => exact hw

theorem readOldest_defined (n : Nat) (env : TreeEnv) (w : World) (secondary : StoreTree n) (msgs : List MessageId)
    (hs : Idle Leaf.Rotates n secondary) (hw : w.Defined)
    : Idle Leaf.Rotates n (StoreBuffer.readOldest (ops n) env w secondary msgs).1.2 ∧
        (StoreBuffer.readOldest (ops n) env w secondary msgs).2.Defined := by
  have hsafe := safe_idle Leaf.kept_rotates n
  have hold := hsafe.haveOldMessage env w secondary hw
  unfold StoreBuffer.readOldest
  split
  . dsimp only
    split
    . obtain ⟨hs', hw'⟩ := hsafe.close _ secondary hs hold
      exact ⟨hs', hsafe.getOldestMessages env _ _ hw'⟩
    . exact ⟨hs, hold⟩
  . exact ⟨hs, hw⟩

theorem endTransfer_defined (n : Nat) (env : TreeEnv) (w : World) (b : StoreBuffer (StoreTree n)) (msgs : List MessageId)
    (hs : Idle Leaf.Rotates n b.secondary) (hw : w.Defined)
    : Idle Leaf.Rotates n (b.endTransfer (ops n) env w msgs).1.secondary ∧
        (b.endTransfer (ops n) env w msgs).2.Defined := by
  have hsafe := safe_idle Leaf.kept_rotates n
  have hold := hsafe.haveOldMessage env w b.secondary hw
  unfold StoreBuffer.endTransfer
  split
  . dsimp only
    split
    . exact ⟨hs, hold⟩
    . exact hsafe.close _ b.secondary hs hold
  . exact ⟨hs, hw⟩

-- with no message nothing is asked of the primary store
theorem transfer_calm (n : Nat) (env : TreeEnv) (w : World) (primary : StoreTree n) (k : Nat) (msgs : List MessageId)
    (hready : msgs ≠ [] → Ready Leaf.Rotates Leaf.RotatesOpen n primary) (hp : Calm n primary) (hw : w.Defined)
    : Calm n (StoreBuffer.transfer (ops n) env w primary k msgs).1.2 ∧
        (StoreBuffer.transfer (ops n) env w primary k msgs).2.Defined := by
  have haccepts := accepts_ready Leaf.kept_rotates Leaf.rotatesOpen_doAddMessage n
  cases msgs with
  | nil =>
    cases k with
    | zero => exact ⟨hp, hw⟩
    | succ k => exact ⟨hp, hw⟩
  | cons m msgs =>
    obtain ⟨hp', hw'⟩ := haccepts.transfer env w primary k (m :: msgs) (hready (List.cons_ne_nil _ _)) hw
    exact ⟨Ready.calm n _ hp', hw'⟩

theorem handOver_defined (n : Nat) (env : TreeEnv) (w : World) (b : StoreBuffer (StoreTree n)) (hqueued : b.Queued)
    (hp : Calm n b.primary) (hs : Calm n b.secondary)
    (htransfers : b.transfers = true → Ready Leaf.Rotates Leaf.RotatesOpen n b.primary)
    (hidle : b.handsOver (ops n) = true → Idle Leaf.Rotates n b.secondary) (hw : w.Defined)
    : Calm n (b.handOver (ops n) env w).1.primary ∧ Calm n (b.handOver (ops n) env w).1.secondary ∧
        (b.handOver (ops n) env w).2.Defined := by
  by_cases hover : b.handsOver (ops n) = true
  . obtain ⟨w1, msgs, c, heq, hprimary, hsecondary, hmsgs, hsame⟩ := b.handOver_eq (ops n) env w hover
    have hready : msgs ≠ [] → Ready Leaf.Rotates Leaf.RotatesOpen n b.primary := by
      intro hne
      apply htransfers
      by_contra hnot
      exact hne (hmsgs (by simpa using hnot))
    obtain ⟨hp', hw1⟩ := transfer_calm n env w1 b.primary StoreBuffer.maxMsgPerCron msgs hready hp (hsame hqueued ▸ hw)
    obtain ⟨hs', hw2⟩ := readOldest_defined n env _ b.secondary
      (StoreBuffer.transfer (ops n) env w1 b.primary StoreBuffer.maxMsgPerCron msgs).1.1 (hidle hover) hw1
    rw [← hsecondary] at hs'
    obtain ⟨hs'', hw3⟩ := endTransfer_defined n env _ c _ hs' hw2
    rw [heq]
    refine ⟨?_, hs''.calm, hw3⟩
    rw [StoreBuffer.primary_endTransfer, hprimary]
    exact hp'
  . rw [b.handOver_eq_self (ops n) env w (by simpa using hover)]
    exact ⟨hp, hs, hw⟩

theorem cron_defined (n : Nat) (env : TreeEnv) (w : World) (t : StoreTree n) (h : Calm n t) (hw : w.Defined)
    : ((ops n).cron env w t).2.Defined := by
  induction n generalizing w with
  | zero => exact leaf_cron_defined env w t h hw
  | succ n ih =>
    cases t with
    | leaf l => exact leaf_cron_defined env w l h hw
    | group g =>
      change (g.cron (ops n) env w).2.Defined
      unfold StoreGroup.cron
      split
      . next hopen =>
        have hstores := h hopen
        generalize g.stores = stores at hstores
        dsimp only
        induction stores generalizing w with
        | nil => exact hw
        | cons s stores ihs =>
          rw [List.forall_mem_cons] at hstores
          exact ihs _ (ih w s hstores.1 hw) hstores.2
      . exact hw
    | buffer b =>
      change (b.cron (ops n) env w).2.Defined
      unfold StoreBuffer.cron
      split
      . next hopen =>
        obtain ⟨hqueued, hp, hs, htransfers, hidle⟩ := h hopen
        obtain ⟨hp', hs', hw'⟩ := handOver_defined n env w b hqueued hp hs htransfers hidle hw
        exact ih _ _ hs' (ih _ _ hp' hw')
      . exact hw

end StoreTree
end Kids
