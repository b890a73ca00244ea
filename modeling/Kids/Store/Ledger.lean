import Kids.Store.StoreTree

/-!
A tree of stores in which each one keeps account of the messages that it has accepted. Without the accounts it moves
as the tree does.
-/

namespace Kids

/--
`accepted` is history: the messages for which `DoAddMessage` returned true, in this order.
-/
structure Recorded (σ : Type) where
  store : σ
  accepted : List MessageId

namespace Recorded

def ops (ops : TreeOps σ) : TreeOps (Recorded σ) where
  topic := fun r => ops.topic r.store
  isOpen := fun r => ops.isOpen r.store
  sending := fun r => ops.sending r.store
  haveOldMessage := fun env w r => ops.haveOldMessage env w r.store
  getOldestMessages := fun env w r => ops.getOldestMessages env w r.store
  close := fun w r =>
    let (s, w) := ops.close w r.store
    ({ r with store := s }, w)
  open_ := fun env w r =>
    let ((s, ok), w) := ops.open_ env w r.store
    (({ r with store := s }, ok), w)
  doAddMessage := fun env m w r =>
    let ((s, ok), w) := ops.doAddMessage env m w r.store
    ((⟨s, if ok then r.accepted ++ [m] else r.accepted⟩, ok), w)
  cron := fun env w r =>
    let (s, w) := ops.cron env w r.store
    ({ r with store := s }, w)

end Recorded

def StoreGroup.map (f : σ → τ) (g : StoreGroup σ) : StoreGroup τ :=
  { g with stores := g.stores.map f }

def StoreBuffer.map (f : σ → τ) (b : StoreBuffer σ) : StoreBuffer τ :=
  { b with primary := f b.primary, secondary := f b.secondary }

def StoreLayer.map (f : σ → τ) : StoreLayer σ → StoreLayer τ
  | .leaf l => .leaf l
  | .group g => .group (g.map f)
  | .buffer b => .buffer (b.map f)

def StoreLedger : Nat → Type
  | 0 => Recorded Leaf
  | n + 1 => Recorded (StoreLayer (StoreLedger n))

namespace StoreLedger

def ops : (n : Nat) → TreeOps (StoreLedger n)
  | 0 => Recorded.ops Leaf.ops
  | n + 1 => Recorded.ops (StoreLayer.ops (ops n))

def forget : (n : Nat) → StoreLedger n → StoreTree n
  | 0, r => Recorded.store r
  | n + 1, r => StoreLayer.map (forget n) (Recorded.store r)

-- the ledger in which nothing is written
def blank : (n : Nat) → StoreTree n → StoreLedger n
  | 0, l => Recorded.mk l []
  | n + 1, s => Recorded.mk (StoreLayer.map (blank n) s) []

def accepted : (n : Nat) → StoreLedger n → List MessageId
  | 0, r => Recorded.accepted r
  | _ + 1, r => Recorded.accepted r

end StoreLedger

namespace TreeOps

/--
Stores that move as those that `f` makes of them.
-/
structure Simulates (f : σ → τ) (ops : TreeOps σ) (ops' : TreeOps τ) : Prop where
  topic : ∀ s, ops'.topic (f s) = ops.topic s
  isOpen : ∀ s, ops'.isOpen (f s) = ops.isOpen s
  sending : ∀ s, ops'.sending (f s) = ops.sending s
  haveOldMessage : ∀ env w s, ops'.haveOldMessage env w (f s) = ops.haveOldMessage env w s
  getOldestMessages : ∀ env w s, ops'.getOldestMessages env w (f s) = ops.getOldestMessages env w s
  close : ∀ w s, ops'.close w (f s) = (f (ops.close w s).1, (ops.close w s).2)
  open_ : ∀ env w s,
    ops'.open_ env w (f s) = ((f (ops.open_ env w s).1.1, (ops.open_ env w s).1.2), (ops.open_ env w s).2)
  doAddMessage : ∀ env m w s, ops'.doAddMessage env m w (f s) =
    ((f (ops.doAddMessage env m w s).1.1, (ops.doAddMessage env m w s).1.2), (ops.doAddMessage env m w s).2)
  cron : ∀ env w s, ops'.cron env w (f s) = (f (ops.cron env w s).1, (ops.cron env w s).2)

namespace Simulates

variable {f : σ → τ} {ops : TreeOps σ} {ops' : TreeOps τ}

theorem addMessage (h : Simulates f ops ops') (env : TreeEnv) (m : MessageId) (w : World) (s : σ)
    : ops'.addMessage env m w (f s) =
        ((f (ops.addMessage env m w s).1.1, (ops.addMessage env m w s).1.2), (ops.addMessage env m w s).2) := by
  unfold TreeOps.addMessage
  rw [h.topic]
  split
  . exact h.doAddMessage env m w s
  . rfl

theorem each_map {g : World → σ → α × World} {g' : World → τ → β × World} (k : α → β)
    (h : ∀ w s, g' w (f s) = (k (g w s).1, (g w s).2)) (w : World) (stores : List σ)
    : each g' w (stores.map f) = ((each g w stores).1.map k, (each g w stores).2) := by
  induction stores generalizing w with
  | nil => rfl
  | cons s stores ih =>
    rw [List.map_cons, each, h, each]
    dsimp only
    rw [ih]
    rfl

end Simulates
end TreeOps

namespace StoreGroup

open TreeOps.Simulates

variable {f : σ → τ} {ops : TreeOps σ} {ops' : TreeOps τ}

theorem close_map (h : TreeOps.Simulates f ops ops') (w : World) (g : StoreGroup σ)
    : (g.map f).close ops' w = ((g.close ops w).1.map f, (g.close ops w).2) := by
  unfold close map
  dsimp only
  split
  . rw [each_map f h.close]
  . rfl

theorem open_map (h : TreeOps.Simulates f ops ops') (env : TreeEnv) (w : World) (g : StoreGroup σ)
    : (g.map f).open_ ops' env w =
        (((g.open_ ops env w).1.1.map f, (g.open_ ops env w).1.2), (g.open_ ops env w).2) := by
  unfold open_
  rw [close_map h]
  unfold map
  dsimp only
  rw [each_map (fun r : σ × Bool => (f r.1, r.2)) (h.open_ env)]
  dsimp only
  rw [List.map_map, List.map_map, List.map_map]
  rfl

theorem addToFirst_map (h : TreeOps.Simulates f ops ops') (env : TreeEnv) (m : MessageId) (w : World) (stores : List σ)
    : addToFirst ops' env m w (stores.map f) = (((addToFirst ops env m w stores).1.1.map f,
        (addToFirst ops env m w stores).1.2), (addToFirst ops env m w stores).2) := by
  induction stores generalizing w with
  | nil => rfl
  | cons s stores ih =>
    rw [List.map_cons, addToFirst, h.addMessage, addToFirst]
    dsimp only
    split
    . rfl
    . rw [ih]
      rfl

theorem doAddMessage_map (h : TreeOps.Simulates f ops ops') (env : TreeEnv) (m : MessageId) (w : World)
    (g : StoreGroup σ)
    : (g.map f).doAddMessage ops' env m w =
        (((g.doAddMessage ops env m w).1.1.map f, (g.doAddMessage ops env m w).1.2), (g.doAddMessage ops env m w).2) := by
  have heach := each_map (fun r : σ × Bool => (f r.1, r.2)) (h.addMessage env m) w g.stores
  unfold doAddMessage map
  cases g.kind with
  | priority =>
    dsimp only
    rw [addToFirst_map h]
  | multipleAny =>
    dsimp only
    rw [heach]
    dsimp only
    rw [List.map_map, List.map_map, List.map_map]
    rfl
  | multipleAll =>
    dsimp only
    rw [heach]
    dsimp only
    rw [List.map_map, List.map_map, List.map_map]
    rfl

theorem cron_map (h : TreeOps.Simulates f ops ops') (env : TreeEnv) (w : World) (g : StoreGroup σ)
    : (g.map f).cron ops' env w = ((g.cron ops env w).1.map f, (g.cron ops env w).2) := by
  unfold cron map
  dsimp only
  split
  . rw [each_map f (h.cron env)]
  . rfl

end StoreGroup

namespace StoreBuffer

variable {f : σ → τ} {ops : TreeOps σ} {ops' : TreeOps τ}

theorem close_map (h : TreeOps.Simulates f ops ops') (w : World) (b : StoreBuffer σ)
    : (b.map f).close ops' w = ((b.close ops w).1.map f, (b.close ops w).2) := by
  simp only [close, map, h.close]
  split
  . rfl
  . rfl

theorem open_map (h : TreeOps.Simulates f ops ops') (env : TreeEnv) (w : World) (b : StoreBuffer σ)
    : (b.map f).open_ ops' env w =
        (((b.open_ ops env w).1.1.map f, (b.open_ ops env w).1.2), (b.open_ ops env w).2) := by
  unfold open_
  rw [close_map h]
  generalize b.close ops w = closed
  simp only [map, h.open_, h.haveOldMessage]
  split
  . split
    . rfl
    . rfl
  . split
    . rfl
    . rfl

theorem addToPrimary_map (h : TreeOps.Simulates f ops ops') (env : TreeEnv) (m : MessageId) (w : World)
    (b : StoreBuffer σ)
    : (b.map f).addToPrimary ops' env m w =
        (((b.addToPrimary ops env m w).1.1.map f, (b.addToPrimary ops env m w).1.2),
          (b.addToPrimary ops env m w).2) := by
  simp only [addToPrimary, map, h.isOpen, h.addMessage, h.open_]
  split
  . split
    . split
      . rfl
      . rfl
    . rfl
  . rfl

theorem addToSecondary_map (h : TreeOps.Simulates f ops ops') (env : TreeEnv) (m : MessageId) (w : World)
    (b : StoreBuffer σ)
    : (b.map f).addToSecondary ops' env m w =
        (((b.addToSecondary ops env m w).1.1.map f, (b.addToSecondary ops env m w).1.2),
          (b.addToSecondary ops env m w).2) := by
  have hopen : openSecondary ops' env w (f b.secondary) =
      (f (openSecondary ops env w b.secondary).1, (openSecondary ops env w b.secondary).2) := by
    simp only [openSecondary, h.isOpen, h.open_]
    split
    . rfl
    . rfl
  simp only [addToSecondary, map, hopen, h.addMessage]

theorem doAddMessage_map (h : TreeOps.Simulates f ops ops') (env : TreeEnv) (m : MessageId) (w : World)
    (b : StoreBuffer σ)
    : (b.map f).doAddMessage ops' env m w =
        (((b.doAddMessage ops env m w).1.1.map f, (b.doAddMessage ops env m w).1.2),
          (b.doAddMessage ops env m w).2) := by
  unfold doAddMessage
  rw [addToPrimary_map h]
  dsimp only
  split
  . exact addToSecondary_map h env m _ _
  . rfl

theorem transfer_map (h : TreeOps.Simulates f ops ops') (env : TreeEnv) (w : World) (primary : σ) (n : Nat)
    (msgs : List MessageId)
    : transfer ops' env w (f primary) n msgs =
        (((transfer ops env w primary n msgs).1.1, f (transfer ops env w primary n msgs).1.2),
          (transfer ops env w primary n msgs).2) := by
  induction n generalizing w primary msgs with
  | zero => rfl
  | succ n ih =>
    cases msgs with
    | nil => rfl
    | cons m msgs =>
      unfold transfer
      rw [h.addMessage]
      dsimp only
      split
      . exact ih _ _ _
      . rfl

theorem readOldest_map (h : TreeOps.Simulates f ops ops') (env : TreeEnv) (w : World) (secondary : σ)
    (msgs : List MessageId)
    : readOldest ops' env w (f secondary) msgs =
        (((readOldest ops env w secondary msgs).1.1, f (readOldest ops env w secondary msgs).1.2),
          (readOldest ops env w secondary msgs).2) := by
  simp only [readOldest, h.haveOldMessage, h.close, h.getOldestMessages]
  split
  . split
    . rfl
    . rfl
  . rfl

theorem endTransfer_map (h : TreeOps.Simulates f ops ops') (env : TreeEnv) (w : World) (b : StoreBuffer σ)
    (msgs : List MessageId)
    : (b.map f).endTransfer ops' env w msgs =
        ((b.endTransfer ops env w msgs).1.map f, (b.endTransfer ops env w msgs).2) := by
  simp only [endTransfer, map, h.haveOldMessage, h.close]
  split
  . split
    . rfl
    . rfl
  . rfl

theorem handOver_map (h : TreeOps.Simulates f ops ops') (env : TreeEnv) (w : World) (b : StoreBuffer σ)
    : (b.map f).handOver ops' env w = ((b.handOver ops env w).1.map f, (b.handOver ops env w).2) := by
  have hstart : (if (b.map f).state = .toSecondary ∧ ops'.isOpen (b.map f).primary then
        { b.map f with state := .transfering, msgs := .queue [] } else b.map f) =
      (if b.state = .toSecondary ∧ ops.isOpen b.primary then
        { b with state := .transfering, msgs := .queue [] } else b).map f := by
    unfold map
    dsimp only
    rw [h.isOpen]
    split
    . rfl
    . rfl
  unfold handOver
  rw [hstart]
  dsimp only
  generalize (if b.state = .toSecondary ∧ ops.isOpen b.primary then
    { b with state := .transfering, msgs := .queue [] } else b) = b1
  by_cases hstate : b1.state = .transfering
  . rw [if_pos hstate, if_pos (show (b1.map f).state = .transfering from hstate)]
    change endTransfer ops' env _ { b1.map f with primary := _, secondary := _ } _ = _
    dsimp only [map]
    rw [transfer_map h]
    dsimp only
    rw [readOldest_map h]
    dsimp only
    exact endTransfer_map h env _ { b1 with primary := _, secondary := _ } _
  . rw [if_neg hstate, if_neg (show ¬(b1.map f).state = .transfering from hstate)]

theorem cron_map (h : TreeOps.Simulates f ops ops') (env : TreeEnv) (w : World) (b : StoreBuffer σ)
    : (b.map f).cron ops' env w = ((b.cron ops env w).1.map f, (b.cron ops env w).2) := by
  unfold cron
  by_cases hopen : b.isOpen = true
  . rw [if_pos hopen, if_pos (show (b.map f).isOpen = true from hopen), handOver_map h]
    simp only [map, h.cron]
  . rw [if_neg hopen, if_neg (show ¬(b.map f).isOpen = true from hopen)]

end StoreBuffer

namespace StoreLayer

variable {f : σ → τ} {ops : TreeOps σ} {ops' : TreeOps τ}

theorem simulates (h : TreeOps.Simulates f ops ops')
    : TreeOps.Simulates (StoreLayer.map f) (StoreLayer.ops ops) (StoreLayer.ops ops') where
  topic s := by cases s <;> rfl
  isOpen s := by cases s <;> rfl
  sending s := by
    cases s with
    | leaf l => rfl
    | group g =>
      change (g.stores.map f).any ops'.sending = g.stores.any ops.sending
      rw [List.any_map]
      congr 1
      funext s
      exact h.sending s
    | buffer b =>
      change (if b.state = .toPrimary then ops'.sending (f b.primary) else ops'.sending (f b.secondary)) = _
      rw [h.sending, h.sending]
      rfl
  haveOldMessage env w s := by cases s <;> rfl
  getOldestMessages env w s := by cases s <;> rfl
  close w s := by
    cases s with
    | leaf l => rfl
    | group g => simp only [StoreLayer.ops, StoreLayer.map, StoreGroup.close_map h]
    | buffer b => simp only [StoreLayer.ops, StoreLayer.map, StoreBuffer.close_map h]
  open_ env w s := by
    cases s with
    | leaf l => rfl
    | group g => simp only [StoreLayer.ops, StoreLayer.map, StoreGroup.open_map h]
    | buffer b => simp only [StoreLayer.ops, StoreLayer.map, StoreBuffer.open_map h]
  doAddMessage env m w s := by
    cases s with
    | leaf l => rfl
    | group g => simp only [StoreLayer.ops, StoreLayer.map, StoreGroup.doAddMessage_map h]
    | buffer b => simp only [StoreLayer.ops, StoreLayer.map, StoreBuffer.doAddMessage_map h]
  cron env w s := by
    cases s with
    | leaf l => rfl
    | group g => simp only [StoreLayer.ops, StoreLayer.map, StoreGroup.cron_map h]
    | buffer b => simp only [StoreLayer.ops, StoreLayer.map, StoreBuffer.cron_map h]

end StoreLayer

namespace Recorded

variable {f : σ → τ} {ops : TreeOps σ} {ops' : TreeOps τ}

theorem simulates (h : TreeOps.Simulates f ops ops')
    : TreeOps.Simulates (fun r : Recorded σ => f r.store) (Recorded.ops ops) ops' where
  topic r := h.topic r.store
  isOpen r := h.isOpen r.store
  sending r := h.sending r.store
  haveOldMessage env w r := h.haveOldMessage env w r.store
  getOldestMessages env w r := h.getOldestMessages env w r.store
  close w r := h.close w r.store
  open_ env w r := h.open_ env w r.store
  doAddMessage env m w r := h.doAddMessage env m w r.store
  cron env w r := h.cron env w r.store

end Recorded

namespace StoreLedger

/--
The ledger moves as the tree that it keeps the accounts of.
-/
theorem simulates : (n : Nat) → TreeOps.Simulates (forget n) (ops n) (StoreTree.ops n)
  | 0 => Recorded.simulates ⟨fun _ => rfl, fun _ => rfl, fun _ => rfl, fun _ _ _ => rfl, fun _ _ _ => rfl,
      fun _ _ => rfl, fun _ _ _ => rfl, fun _ _ _ _ => rfl, fun _ _ _ => rfl⟩
  | n + 1 => Recorded.simulates (StoreLayer.simulates (simulates n))

end StoreLedger
end Kids
