import Kids.Lib.Run
import Kids.Store.BufferStore

/-!
`BufferStore::Cron` while messages are transferred, from a directory with entries of any kind. An entry is given
by what `stat`, `fopen` and `unlink` do with it.
-/

namespace Kids

/--
What `fopen` with mode `rb` gives: it waits (for a pipe), it fails, or the bytes that can be read. A directory is
opened and gives none.
-/
inductive Opened
  | waits
  | failed
  | stream (data : Bytes)
  deriving DecidableEq

-- `ctime` is `none` where `stat` fails
structure DirEntry where
  name : Bytes
  ctime : Option Int
  opened : Opened
  unlinks : Bool
  deriving DecidableEq

-- what a tick finds, and whether a file that it opens can be created
structure TickEnv where
  env : Env
  created : Bool

/--
The secondary store. `entries` is in the order in which `readdir` lists them.
-/
structure BufferDir where
  entries : List DirEntry
  secondaryFile : Option Bytes
  rotateInterval : Int
  lastRotate : Nat

namespace BufferDir

def isOpen (d : BufferDir) : Bool :=
  d.secondaryFile.isSome

-- one round of the loop, with `min_ctime` and `filename`
def older (oldest : Int × Option DirEntry) (entry : DirEntry) : Int × Option DirEntry :=
  match entry.ctime with
  | none => oldest
  | some ctime => if ctime < oldest.1 ∨ oldest.1 = -1 then (ctime, some entry) else oldest

def findOldestFile (entries : List DirEntry) : Option DirEntry :=
  (entries.foldl older (-1, none)).2

def haveOldMessage (d : BufferDir) : Bool :=
  (findOldestFile d.entries).isSome

-- `none` is a call that does not come back, or an undefined access
def getOldestMessages (d : BufferDir) : Option (List Message) :=
  match findOldestFile d.entries with
  | none => some []
  | some entry =>
    match entry.opened with
    | .waits => none
    | .failed => some []
    | .stream data => File.getMessages data

-- the result of `unlink` is not looked at
def deleteOldestMessages (d : BufferDir) : BufferDir :=
  match findOldestFile d.entries with
  | none => d
  | some entry => if entry.unlinks then { d with entries := d.entries.erase entry } else d

-- `File::Close(true)`
def closeEntry (env : Env) (name : Bytes) (entry : DirEntry) : Option DirEntry :=
  if entry.name = name then
    if entry.opened = .stream [] ∧ entry.unlinks then
      none
    else
      some { entry with ctime := entry.ctime.map fun _ => (env.ctime : Int) }
  else
    some entry

def close (d : BufferDir) (env : Env) : BufferDir :=
  match d.secondaryFile with
  | none => d
  | some name => { d with entries := d.entries.filterMap (closeEntry env name), secondaryFile := none }

def openFile (entries : List DirEntry) (env : Env) (name : Bytes) : List DirEntry :=
  if entries.any (·.name = name) then
    entries
  else
    entries.take env.slot ++ ⟨name, some env.ctime, .stream [], true⟩ :: entries.drop env.slot

def open_ (makeName : Nat → Bytes) (d : BufferDir) (tick : TickEnv) : BufferDir :=
  let d := { d.close tick.env with lastRotate := tick.env.now }
  if tick.created then
    { d with
      entries := openFile d.entries tick.env (makeName tick.env.now)
      secondaryFile := some (makeName tick.env.now)
    }
  else
    d

-- `none` is the division by an interval of 0
def cron (makeName : Nat → Bytes) (d : BufferDir) (tick : TickEnv) : Option BufferDir :=
  if d.isOpen ∧ d.rotateInterval = 0 then
    none
  else if d.isOpen ∧ d.rotateInterval ≠ -1 ∧ (tick.env.unixtime : Int).tmod d.rotateInterval = 0 ∧
      d.lastRotate < tick.env.unixtime then
    some (d.open_ makeName tick)
  else
    some d

end BufferDir

structure Draining (σ : Type) where
  state : BufferState
  primary : σ
  queue : List Message
  secondary : BufferDir

namespace Draining

variable {σ : Type} (ops : StoreOps σ) (makeName : Nat → Bytes)

def maxMsgPerCron : Nat := 100

def cronTransfer (s : Draining σ) : Draining σ :=
  let t := BufferStore.transfer ops maxMsgPerCron s.queue s.primary
  { s with primary := t.primary, queue := t.queue }

def cronReadFile (s : Draining σ) (env : Env) : Option (Draining σ) :=
  if s.queue = [] ∧ s.secondary.haveOldMessage then
    let secondary := s.secondary.close env
    match secondary.getOldestMessages with
    | none => none
    | some msgs => some { s with secondary := secondary.deleteOldestMessages, queue := s.queue ++ msgs }
  else
    some s

def cronFinish (s : Draining σ) (env : Env) : Draining σ :=
  if s.queue = [] ∧ ¬s.secondary.haveOldMessage then
    { s with state := .toPrimary, secondary := s.secondary.close env }
  else
    s

def cronTransfering (s : Draining σ) (env : Env) : Option (Draining σ) :=
  match s.state with
  | .transfering => ((s.cronTransfer ops).cronReadFile env).map fun s => s.cronFinish env
  | _ => some s

def cron (s : Draining σ) (tick : TickEnv) : Option (Draining σ) :=
  (s.cronTransfering ops tick.env).bind fun s => (s.secondary.cron makeName tick).map fun secondary =>
    { s with primary := ops.cron s.primary, secondary := secondary }

/--
Each tick that reads the directory gets a message from it or leaves fewer entries in it, and some tick has nothing
left to transfer. No message is added in the meantime.
-/
structure Drains (s : Draining σ) (ticks : Nat → TickEnv) : Prop where
  progress : ∀ n t, Run.iterate (cron ops makeName) s ticks n = some t → t.state = .transfering → t.queue = [] →
    t.secondary.haveOldMessage = true → ∀ tick, ∃ u, t.cron ops makeName tick = some u ∧
      (u.queue ≠ [] ∨ u.secondary.entries.length < t.secondary.entries.length)
  finishes : ∃ n t, Run.iterate (cron ops makeName) s ticks n = some t ∧ t.state = .toPrimary

-- the primary store takes all of these messages
def Takes : List Message → σ → Prop
  | [], _ => True
  | m :: msgs, primary => (ops.addMessage m primary).1 = true ∧ Takes msgs (ops.addMessage m primary).2

/--
With an interval of 0 the first tick must close the file that is open: the messages in memory are few enough for one
tick, and the primary store takes them, but for the last one perhaps.
-/
def ClosesInTime (s : Draining σ) : Prop :=
  s.secondary.isOpen = true → s.secondary.rotateInterval = 0 →
    s.queue.length ≤ maxMsgPerCron ∧ Takes ops s.queue.dropLast s.primary

end Draining

/--
The entry can be removed, and to read it neither waits nor ends in an undefined access.
-/
def DirEntry.Drainable (entry : DirEntry) : Prop :=
  entry.unlinks = true ∧ entry.opened ≠ .waits ∧ ∀ data, entry.opened = .stream data → File.getMessages data ≠ none

end Kids
