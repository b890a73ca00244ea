import Kids.Store.BufferStore

/-!
A whole tree of stores, as `Store::Create` builds it: `MultipleStore`, `PriorityStore` and `BufferStore`
over `NetworkStore`, `FileStore` and `NullStore`. What the leaves find outside, the network, the disk and
the directory of a file store, is answered call by call by an environment.
-/

namespace Kids

open Bytes

abbrev LeafId := Nat

abbrev MessageId := Nat

/--
`answer n` is the outcome of the `n`th call that can go either way, and `oldest n` is what a file read then
holds. `preAddMessage` is the comparison of the topic of a store with the one of a message.
-/
structure TreeEnv where
  unixtime : Int
  answer : Nat → Bool
  oldest : Nat → List MessageId
  topicOf : MessageId → Bytes
  preAddMessage : Bytes → Bytes → Bool

/--
`opened` are the calls of `NetworkStore::Open` and `msgDrop` is the counter of the storer. `dropped` and `lost` are
history, the messages that it has counted, and those that a `Cron` deleted because the primary store refused them, which
nobody counts. `undefined` says that a `msg_to_transfer_` was used that points to no queue, or that a `Cron` divided by
a rotate interval of 0.
-/
structure World where
  calls : Nat
  opened : List LeafId
  msgDrop : Nat
  dropped : List MessageId
  lost : List MessageId
  undefined : Bool

namespace World

def init : World where
  calls := 0
  opened := []
  msgDrop := 0
  dropped := []
  lost := []
  undefined := false

-- before the next step of the storer, whose calls are counted from 0
def next (w : World) : World :=
  { w with calls := 0, opened := [] }

def ask (env : TreeEnv) (w : World) : Bool × World :=
  (env.answer w.calls, { w with calls := w.calls + 1 })

def drop (m : MessageId) (w : World) : World :=
  { w with msgDrop := w.msgDrop + 1, dropped := w.dropped ++ [m] }

def lose (m : MessageId) (w : World) : World :=
  { w with lost := w.lost ++ [m] }

end World

structure NetworkLeaf where
  id : LeafId
  topic : Bytes
  connected : Bool
  sending : Bool
  lastReconnect : Int
  deriving DecidableEq

/--
`secondary` says that `buffer_type_` is `kSecondary`; such a store has its `secondary_file_` exactly while it is open.
`topicFiles` are the topics in `topic_file_`.
-/
structure FileLeaf where
  topic : Bytes
  secondary : Bool
  rotateInterval : Int
  isOpen : Bool
  topicFiles : List Bytes
  deriving DecidableEq

inductive Leaf
  | network (l : NetworkLeaf)
  | file (l : FileLeaf)
  | null (topic : Bytes) (isOpen : Bool)

namespace NetworkLeaf

def reconnectInterval : Int := 5

def close (l : NetworkLeaf) : NetworkLeaf :=
  if l.connected then { l with connected := false, sending := false } else l

def open_ (env : TreeEnv) (l : NetworkLeaf) (w : World) : (NetworkLeaf × Bool) × World :=
  let w := { w with opened := w.opened ++ [l.id] }
  let l := { l.close with lastReconnect := env.unixtime }
  let (connects, w) := w.ask env
  if connects then
    -- `Agent::Create` can still fail
    let (agent, w) := w.ask env
    (({ l with connected := agent, sending := false }, agent), w)
  else
    ((l, false), w)

def due (now : Int) (l : NetworkLeaf) : Bool :=
  !l.connected && now - l.lastReconnect ≥ reconnectInterval

def cron (env : TreeEnv) (l : NetworkLeaf) (w : World) : NetworkLeaf × World :=
  if l.due env.unixtime then
    let ((l, _), w) := l.open_ env w
    (l, w)
  else
    (l, w)

end NetworkLeaf

namespace FileLeaf

def close (l : FileLeaf) : FileLeaf :=
  if l.isOpen then
    { l with isOpen := false, topicFiles := if l.secondary then l.topicFiles else [] }
  else
    l

-- the file of a secondary store, or the directory of another one
def open_ (env : TreeEnv) (l : FileLeaf) (w : World) : (FileLeaf × Bool) × World :=
  let (ok, w) := w.ask env
  (({ l.close with isOpen := ok }, ok), w)

-- `File::Write` reports no failure, so that a message is refused only where its file cannot be opened
def doAddMessage (env : TreeEnv) (m : MessageId) (l : FileLeaf) (w : World) : (FileLeaf × Bool) × World :=
  if l.secondary ∧ l.isOpen ∨ l.topicFiles.contains (env.topicOf m) then
    ((l, true), w)
  else
    let (ok, w) := w.ask env
    ((if ok then { l with topicFiles := env.topicOf m :: l.topicFiles } else l, ok), w)

def cron (env : TreeEnv) (l : FileLeaf) (w : World) : FileLeaf × World :=
  if ¬l.isOpen ∨ l.rotateInterval = -1 then
    (l, w)
  else if l.rotateInterval = 0 then
    (l, { w with undefined := true })
  else if env.unixtime.tmod l.rotateInterval = 0 then
    -- `last_rotate_ < t`
    let (late, w) := w.ask env
    if late then
      let ((l, _), w) := l.open_ env w
      (l, w)
    else
      (l, w)
  else
    (l, w)

end FileLeaf

namespace Leaf

def topic : Leaf → Bytes
  | .network l => l.topic
  | .file l => l.topic
  | .null topic _ => topic

def isOpen : Leaf → Bool
  | .network l => l.connected
  | .file l => l.isOpen
  | .null _ isOpen => isOpen

def close : Leaf → Leaf
  | .network l => .network l.close
  | .file l => .file l.close
  | .null topic _ => .null topic false

def open_ (env : TreeEnv) (w : World) : Leaf → (Leaf × Bool) × World
  | .network l =>
    let ((l, ok), w) := l.open_ env w
    ((.network l, ok), w)
  | .file l =>
    let ((l, ok), w) := l.open_ env w
    ((.file l, ok), w)
  | .null topic _ => ((.null topic true, true), w)

def haveOldMessage (env : TreeEnv) (w : World) : Leaf → Bool × World
  | .file _ => w.ask env
  | _ => (false, w)

def getOldestMessages (env : TreeEnv) (w : World) : Leaf → List MessageId × World
  | .file _ => (env.oldest w.calls, { w with calls := w.calls + 1 })
  | _ => ([], w)

def doAddMessage (env : TreeEnv) (m : MessageId) (w : World) : Leaf → (Leaf × Bool) × World
  | .network l => ((.network (if l.connected then { l with sending := true } else l), l.connected), w)
  | .file l =>
    let ((l, ok), w) := l.doAddMessage env m w
    ((.file l, ok), w)
  | .null topic isOpen => ((.null topic isOpen, true), w)

def cron (env : TreeEnv) (w : World) : Leaf → Leaf × World
  | .network l =>
    let (l, w) := l.cron env w
    (.network l, w)
  | .file l =>
    let (l, w) := l.cron env w
    (.file l, w)
  | .null topic isOpen => (.null topic isOpen, w)

end Leaf

/--
The virtual functions of `Store`.
-/
structure TreeOps (σ : Type) where
  topic : σ → Bytes
  isOpen : σ → Bool
  sending : σ → Bool
  haveOldMessage : TreeEnv → World → σ → Bool × World
  getOldestMessages : TreeEnv → World → σ → List MessageId × World
  close : World → σ → σ × World
  open_ : TreeEnv → World → σ → (σ × Bool) × World
  doAddMessage : TreeEnv → MessageId → World → σ → (σ × Bool) × World
  cron : TreeEnv → World → σ → σ × World

def TreeOps.addMessage (ops : TreeOps σ) (env : TreeEnv) (m : MessageId) (w : World) (s : σ) : (σ × Bool) × World :=
  if env.preAddMessage (ops.topic s) (env.topicOf m) then ops.doAddMessage env m w s else ((s, false), w)

def Leaf.ops : TreeOps Leaf where
  topic := topic
  isOpen := isOpen
  sending := fun
    | .network l => l.sending
    | _ => false
  haveOldMessage := haveOldMessage
  getOldestMessages := getOldestMessages
  close := fun w l => (l.close, w)
  open_ := open_
  doAddMessage := doAddMessage
  cron := cron

-- a loop over stores
def each (f : World → σ → τ × World) (w : World) : List σ → List τ × World
  | [] => ([], w)
  | s :: stores =>
    let (t, w) := f w s
    let (ts, w) := each f w stores
    (t :: ts, w)

inductive GroupKind
  | multipleAny
  | multipleAll
  | priority
  deriving DecidableEq

/--
`MultipleStore` and `PriorityStore`.
-/
structure StoreGroup (σ : Type) where
  kind : GroupKind
  topic : Bytes
  isOpen : Bool
  stores : List σ

namespace StoreGroup

variable (ops : TreeOps σ)

def close (w : World) (g : StoreGroup σ) : StoreGroup σ × World :=
  if g.isOpen then
    let (stores, w) := each ops.close w g.stores
    ({ g with isOpen := false, stores := stores }, w)
  else
    (g, w)

def open_ (env : TreeEnv) (w : World) (g : StoreGroup σ) : (StoreGroup σ × Bool) × World :=
  let (g, w) := g.close ops w
  let (results, w) := each (ops.open_ env) w g.stores
  let oks := results.map Prod.snd
  let ok :=
    match g.kind with
    | .multipleAny => oks.any id
    | .multipleAll => oks.all id
    | .priority => true
  (({ g with isOpen := ok, stores := results.map Prod.fst }, ok), w)

-- the stores of a `PriorityStore`, up to the first that takes the message
def addToFirst (env : TreeEnv) (m : MessageId) (w : World) : List σ → (List σ × Bool) × World
  | [] => (([], false), w)
  | s :: stores =>
    let ((s, ok), w) := ops.addMessage env m w s
    if ok then
      ((s :: stores, true), w)
    else
      let ((stores, ok), w) := addToFirst env m w stores
      ((s :: stores, ok), w)

def doAddMessage (env : TreeEnv) (m : MessageId) (w : World) (g : StoreGroup σ) : (StoreGroup σ × Bool) × World :=
  match g.kind with
  | .priority =>
    let ((stores, ok), w) := addToFirst ops env m w g.stores
    (({ g with stores := stores }, ok), w)
  | .multipleAny =>
    let (results, w) := each (ops.addMessage env m) w g.stores
    (({ g with stores := results.map Prod.fst }, (results.map Prod.snd).any id), w)
  | .multipleAll =>
    let (results, w) := each (ops.addMessage env m) w g.stores
    (({ g with stores := results.map Prod.fst }, (results.map Prod.snd).all id), w)

def cron (env : TreeEnv) (w : World) (g : StoreGroup σ) : StoreGroup σ × World :=
  if g.isOpen then
    let (stores, w) := each (ops.cron env) w g.stores
    ({ g with stores := stores }, w)
  else
    (g, w)

end StoreGroup

inductive TransferQueue
  | null
  | queue (msgs : List MessageId)
  | deleted
  deriving DecidableEq

/--
`BufferStore` over any two stores. `state_` has no defined value before the store is opened.
-/
structure StoreBuffer (σ : Type) where
  topic : Bytes
  isOpen : Bool
  state : BufferState
  msgs : TransferQueue
  primary : σ
  secondary : σ

namespace StoreBuffer

variable (ops : TreeOps σ)

def maxMsgPerCron : Nat := 100

-- the part of `Close` behind the two stores
def closeQueue (w : World) : TransferQueue → TransferQueue × World
  | .null => (.null, w)
  | .queue [] => (.queue [], w)
  | .queue msgs => (.deleted, msgs.foldl (fun w m => w.drop m) w)
  | .deleted => (.deleted, { w with undefined := true })

def close (w : World) (b : StoreBuffer σ) : StoreBuffer σ × World :=
  if b.isOpen then
    let (primary, w) := ops.close w b.primary
    let (secondary, w) := ops.close w b.secondary
    let (msgs, w) := closeQueue w b.msgs
    ({ b with isOpen := false, msgs := msgs, primary := primary, secondary := secondary }, w)
  else
    (b, w)

def open_ (env : TreeEnv) (w : World) (b : StoreBuffer σ) : (StoreBuffer σ × Bool) × World :=
  let (b, w) := b.close ops w
  let ((primary, ok), w) := ops.open_ env w b.primary
  let b := { b with isOpen := true, primary := primary }
  if ok then
    let (old, w) := ops.haveOldMessage env w b.secondary
    if old then
      (({ b with state := .transfering, msgs := .queue [] }, true), w)
    else
      (({ b with state := .toPrimary }, true), w)
  else
    let ((secondary, ok), w) := ops.open_ env w b.secondary
    let b := { b with secondary := secondary }
    if ok then
      (({ b with state := .toSecondary }, true), w)
    else
      (({ b with isOpen := false }, false), w)

-- `true` if the message is still to be stored
def addToPrimary (env : TreeEnv) (m : MessageId) (w : World) (b : StoreBuffer σ) : (StoreBuffer σ × Bool) × World :=
  let switch (w : World) (b : StoreBuffer σ) : (StoreBuffer σ × Bool) × World :=
    let ((secondary, _), w) := ops.open_ env w b.secondary
    (({ b with state := .toSecondary, secondary := secondary }, true), w)
  if b.state = .toPrimary then
    if ops.isOpen b.primary then
      let ((primary, ok), w) := ops.addMessage env m w b.primary
      let b := { b with primary := primary }
      if ok then ((b, false), w) else switch w b
    else
      switch w b
  else
    ((b, true), w)

def openSecondary (env : TreeEnv) (w : World) (secondary : σ) : σ × World :=
  if ops.isOpen secondary then
    (secondary, w)
  else
    let ((secondary, _), w) := ops.open_ env w secondary
    (secondary, w)

def addToSecondary (env : TreeEnv) (m : MessageId) (w : World) (b : StoreBuffer σ)
    : (StoreBuffer σ × Bool) × World :=
  let (secondary, w) := openSecondary ops env w b.secondary
  let ((secondary, ok), w) := ops.addMessage env m w secondary
  (({ b with secondary := secondary }, ok), if ok then w else w.drop m)

def doAddMessage (env : TreeEnv) (m : MessageId) (w : World) (b : StoreBuffer σ) : (StoreBuffer σ × Bool) × World :=
  let ((b, more), w) := b.addToPrimary ops env m w
  if more then b.addToSecondary ops env m w else ((b, true), w)

-- the loop over `msg_to_transfer_`, with what it leaves there
def transfer (env : TreeEnv) (w : World) (primary : σ) : Nat → List MessageId → (List MessageId × σ) × World
  | 0, msgs => ((msgs, primary), w)
  | _, [] => (([], primary), w)
  | n + 1, m :: msgs =>
    let ((primary, ok), w) := ops.addMessage env m w primary
    if ok then
      transfer env w primary n msgs
    else
      -- `m` is deleted and not counted
      ((msgs, primary), w.lose m)

-- the next file is read when no message of the last one is left
def readOldest (env : TreeEnv) (w : World) (secondary : σ) (msgs : List MessageId) : (List MessageId × σ) × World :=
  if msgs.isEmpty then
    let (old, w) := ops.haveOldMessage env w secondary
    if old then
      let (secondary, w) := ops.close w secondary
      let (msgs, w) := ops.getOldestMessages env w secondary
      ((msgs, secondary), w)
    else
      ((msgs, secondary), w)
  else
    ((msgs, secondary), w)

def endTransfer (env : TreeEnv) (w : World) (b : StoreBuffer σ) (msgs : List MessageId) : StoreBuffer σ × World :=
  if msgs.isEmpty then
    let (old, w) := ops.haveOldMessage env w b.secondary
    if old then
      ({ b with msgs := .queue msgs }, w)
    else
      let (secondary, w) := ops.close w b.secondary
      ({ b with state := .toPrimary, msgs := .null, secondary := secondary }, w)
  else
    ({ b with msgs := .queue msgs }, w)

-- everything in `Cron` but the calls of the two stores' own `Cron`
def handOver (env : TreeEnv) (w : World) (b : StoreBuffer σ) : StoreBuffer σ × World :=
  let b :=
    if b.state = .toSecondary ∧ ops.isOpen b.primary then
      { b with state := .transfering, msgs := .queue [] }
    else
      b
  if b.state = .transfering then
    let (msgs, w) :=
      match b.msgs with
      | .queue msgs => (msgs, w)
      | _ => ([], { w with undefined := true })
    let ((msgs, primary), w) := transfer ops env w b.primary maxMsgPerCron msgs
    let ((msgs, secondary), w) := readOldest ops env w b.secondary msgs
    endTransfer ops env w { b with primary := primary, secondary := secondary } msgs
  else
    (b, w)

def cron (env : TreeEnv) (w : World) (b : StoreBuffer σ) : StoreBuffer σ × World :=
  if b.isOpen then
    let (b, w) := b.handOver ops env w
    let (primary, w) := ops.cron env w b.primary
    let (secondary, w) := ops.cron env w b.secondary
    ({ b with primary := primary, secondary := secondary }, w)
  else
    (b, w)

end StoreBuffer

/--
A store whose children are of type `σ`.
-/
inductive StoreLayer (σ : Type)
  | leaf (l : Leaf)
  | group (g : StoreGroup σ)
  | buffer (b : StoreBuffer σ)

namespace StoreLayer

def ops (children : TreeOps σ) : TreeOps (StoreLayer σ) where
  topic := fun
    | .leaf l => l.topic
    | .group g => g.topic
    | .buffer b => b.topic
  isOpen := fun
    | .leaf l => l.isOpen
    | .group g => g.isOpen
    | .buffer b => b.isOpen
  sending := fun
    | .leaf l => Leaf.ops.sending l
    | .group g => g.stores.any children.sending
    | .buffer b => if b.state = .toPrimary then children.sending b.primary else children.sending b.secondary
  haveOldMessage := fun env w => fun
    | .leaf l => l.haveOldMessage env w
    | _ => (false, w)
  getOldestMessages := fun env w => fun
    | .leaf l => l.getOldestMessages env w
    | _ => ([], w)
  close := fun w => fun
    | .leaf l => (.leaf l.close, w)
    | .group g =>
      let (g, w) := g.close children w
      (.group g, w)
    | .buffer b =>
      let (b, w) := b.close children w
      (.buffer b, w)
  open_ := fun env w => fun
    | .leaf l =>
      let ((l, ok), w) := l.open_ env w
      ((.leaf l, ok), w)
    | .group g =>
      let ((g, ok), w) := g.open_ children env w
      ((.group g, ok), w)
    | .buffer b =>
      let ((b, ok), w) := b.open_ children env w
      ((.buffer b, ok), w)
  doAddMessage := fun env m w => fun
    | .leaf l =>
      let ((l, ok), w) := l.doAddMessage env m w
      ((.leaf l, ok), w)
    | .group g =>
      let ((g, ok), w) := g.doAddMessage children env m w
      ((.group g, ok), w)
    | .buffer b =>
      let ((b, ok), w) := b.doAddMessage children env m w
      ((.buffer b, ok), w)
  cron := fun env w => fun
    | .leaf l =>
      let (l, w) := l.cron env w
      (.leaf l, w)
    | .group g =>
      let (g, w) := g.cron children env w
      (.group g, w)
    | .buffer b =>
      let (b, w) := b.cron children env w
      (.buffer b, w)

end StoreLayer

/--
A tree in which at most `n` stores are above a leaf.
-/
def StoreTree : Nat → Type
  | 0 => Leaf
  | n + 1 => StoreLayer (StoreTree n)

namespace StoreTree

def ops : (n : Nat) → TreeOps (StoreTree n)
  | 0 => Leaf.ops
  | n + 1 => StoreLayer.ops (ops n)

-- the destructors, which close a store before they delete those below it
def delete : (n : Nat) → World → StoreTree n → World
  | 0, w, _ => w
  | _ + 1, w, .leaf _ => w
  | n + 1, w, .group g =>
    let (g, w) := g.close (ops n) w
    g.stores.foldl (delete n) w
  | n + 1, w, .buffer b =>
    let (b, w) := b.close (ops n) w
    delete n (delete n w b.primary) b.secondary

-- the network stores of the tree
def networkLeaves : (n : Nat) → StoreTree n → List NetworkLeaf
  | 0, .network l => [l]
  | 0, _ => []
  | _ + 1, .leaf (.network l) => [l]
  | _ + 1, .leaf _ => []
  | n + 1, .group g => g.stores.flatMap (networkLeaves n)
  | n + 1, .buffer b => networkLeaves n b.primary ++ networkLeaves n b.secondary

def mapNetwork (f : NetworkLeaf → NetworkLeaf) : (n : Nat) → StoreTree n → StoreTree n
  | 0, .network l => .network (f l)
  | 0, l => l
  | _ + 1, .leaf (.network l) => .leaf (.network (f l))
  | _ + 1, .leaf l => .leaf l
  | n + 1, .group g => .group { g with stores := g.stores.map (mapNetwork f n) }
  | n + 1, .buffer b => .buffer { b with
      primary := mapNetwork f n b.primary
      secondary := mapNetwork f n b.secondary
    }

end StoreTree
end Kids
