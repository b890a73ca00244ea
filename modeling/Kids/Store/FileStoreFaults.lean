import Kids.Store.FileStore
import Kids.Store.FileLemmas

/-!
A secondary `FileStore` whose file operations may fail: `fopen` may give no file and each `fwrite` may write
nothing. A message that comes while no secondary file is open is written to a file of its topic, as a
primary store would do it.
-/

namespace Kids

-- what the system calls of one `AddMessage` do, in the order in which they are made
structure Outcome where
  opened : Bool
  topicSize : Bool
  topic : Bool
  contentSize : Bool
  content : Bool
  eol : Bool

-- none of the four writes of a record fails
def Outcome.whole (o : Outcome) : Bool :=
  o.topicSize && o.topic && o.contentSize && o.content

namespace File

-- `fwrite` of one item returns the number of items that were written
def fwrite (file data : Bytes) (written : Bool) : Int × Bytes :=
  if written ∧ data ≠ [] then (1, file ++ data) else (0, file)

def writeOutcome (file data : Bytes) (prependSize appendEol : Bool) (size written eol : Bool) : Bool × Bytes :=
  let (ret, file) := if prependSize then fwrite file (sizeBytes data.length) size else (0, file)
  if ret = -1 then
    (false, file)
  else
    let (ret, file) := fwrite file data written
    if ret = -1 then
      (false, file)
    else
      let (ret, file) := if appendEol then fwrite file [Bytes.lf] eol else (0, file)
      if ret = -1 then (false, file) else (true, file)

def addMessageOutcome (file : Bytes) (m : Message) (o : Outcome) : Bool × Bytes :=
  match writeOutcome file m.topic.data true false o.topicSize o.topic o.eol with
  | (false, file) => (false, file)
  | (true, file) => writeOutcome file m.content.data true false o.contentSize o.content o.eol

end File

namespace FileStore

def contents (directory : List Entry) (name : Bytes) : Bytes :=
  ((directory.find? (·.name = name)).map Entry.data).getD []

def updateFile (directory : List Entry) (env : Env) (name : Bytes) (f : Bytes → Bytes) : List Entry :=
  directory.map fun entry => if entry.name = name then { entry with data := f entry.data, ctime := env.ctime } else entry

-- the messages that `GetOldestMessages` and `DeleteOldestMessages` give in turns
def readFiles : Nat → FileStore → Option (List Message)
  | 0, _ => some []
  | n + 1, fs =>
    match fs.getOldestMessages with
    | none => none
    | some msgs => (readFiles n fs.deleteOldestMessages).map (msgs ++ .)

def readAll (fs : FileStore) : Option (List Message) :=
  readFiles fs.directory.length fs

end FileStore

/--
`topicName` is the name of the file for a topic, or `none` where the path of the store puts it into another
directory.
-/
structure SecondaryConfig where
  makeName : Nat → Bytes
  topicMatch : Bytes → Bool
  topicName : Bytes → Nat → Option Bytes

structure AddCall where
  message : Message
  returned : Bool
  appended : Bool

-- `calls` is history
structure SecondaryStore where
  files : FileStore
  topicFile : List (Bytes × Option Bytes)
  calls : List AddCall

namespace SecondaryStore

variable (conf : SecondaryConfig)

def init (rotateInterval : Int) (lastRotate : Nat) : SecondaryStore where
  files := ⟨[], none, rotateInterval, lastRotate⟩
  topicFile := []
  calls := []

def open_ (s : SecondaryStore) (env : Env) (created : Bool) : SecondaryStore :=
  if created then
    { s with files := s.files.open_ conf.makeName env }
  else
    { s with files := { s.files.close env with lastRotate := env.now } }

-- `none` is the division by an interval of 0
def cron (s : SecondaryStore) (env : Env) (created : Bool) : Option SecondaryStore :=
  if s.files.isOpen ∧ s.files.rotateInterval = 0 then
    none
  else if s.files.isOpen ∧ s.files.rotateInterval ≠ -1 ∧ (env.unixtime : Int).tmod s.files.rotateInterval = 0 ∧
      s.files.lastRotate < env.unixtime then
    some (s.open_ conf env created)
  else
    some s

def close (s : SecondaryStore) (env : Env) : SecondaryStore :=
  { s with files := s.files.close env }

def writeTopicFile (s : SecondaryStore) (env : Env) (file : Option Bytes) (m : Message) (o : Outcome)
    : Bool × SecondaryStore :=
  let write (data : Bytes) := File.writeOutcome data m.content.data false true o.contentSize o.content o.eol
  match file with
  | none => ((write []).1, s)
  | some name =>
    ((write (FileStore.contents s.files.directory name)).1,
      { s with files.directory := FileStore.updateFile s.files.directory env name fun data => (write data).2 })

def doAddMessage (s : SecondaryStore) (env : Env) (m : Message) (o : Outcome) : Bool × SecondaryStore :=
  match s.files.secondaryFile with
  | some name =>
    ((File.addMessageOutcome (FileStore.contents s.files.directory name) m o).1,
      { s with
        files.directory := FileStore.updateFile s.files.directory env name fun data =>
          (File.addMessageOutcome data m o).2 })
  | none =>
    match s.topicFile.lookup m.topic.data with
    | some file => s.writeTopicFile env file m o
    | none =>
      if o.opened then
        let t := if 0 < s.files.rotateInterval then env.unixtime - env.unixtime % s.files.rotateInterval.toNat else env.unixtime
        let file := conf.topicName m.topic.data t
        let s := { s with topicFile := (m.topic.data, file) :: s.topicFile }
        match file with
        | none => s.writeTopicFile env none m o
        | some name =>
          { s with files.directory := FileStore.openFile s.files.directory env name }.writeTopicFile env (some name) m o
      else
        (false, s)

-- the record is whole and at the end of the file that was open before the call
def appended (before after : FileStore) (m : Message) : Bool :=
  match before.secondaryFile with
  | none => false
  | some name => FileStore.contents after.directory name = FileStore.contents before.directory name ++ File.record m

def addMessage (s : SecondaryStore) (env : Env) (m : Message) (o : Outcome) : Bool × SecondaryStore :=
  if conf.topicMatch m.topic.data then s.doAddMessage conf env m o else (false, s)

-- the state after a call for `m` that returned `r.1`
def logged (s : SecondaryStore) (m : Message) (r : Bool × SecondaryStore) : SecondaryStore :=
  { r.2 with calls := r.2.calls ++ [⟨m, r.1, appended s.files r.2.files m⟩] }

inductive Label
  | open_ (env : Env) (created : Bool)
  | addMessage (env : Env) (m : Message) (o : Outcome)
  | close (env : Env)
  | cron (env : Env) (created : Bool)

def Label.NonEmpty : Label → Prop
  | .addMessage _ m _ => m.topic.data ≠ [] ∧ m.content.data ≠ []
  | _ => True

def step (s : SecondaryStore) : Label → Option SecondaryStore
  | .open_ env created => some (s.open_ conf env created)
  | .addMessage env m o => some (s.logged m (s.addMessage conf env m o))
  | .close env => some (s.close env)
  | .cron env created => s.cron conf env created

def taken (s : SecondaryStore) : List Message :=
  (s.calls.filter AddCall.returned).map AddCall.message

def Truthful (s : SecondaryStore) : Prop :=
  ∀ call ∈ s.calls, call.returned = call.appended

structure Decodable (s : SecondaryStore) : Prop where
  truthful : s.Truthful
  decoded : ∃ msgs, s.files.readAll = some msgs ∧ msgs.Perm s.taken

/--
A message that the store takes finds the secondary file open and all of it is written, or there is no file
at all to write it to; and no tick divides by an interval of 0.
-/
def WritesWhole (s : SecondaryStore) : Label → Prop
  | .addMessage _ m o =>
    conf.topicMatch m.topic.data = true → if s.files.isOpen then o.whole = true else o.opened = false
  | .cron _ _ => s.files.isOpen = true → s.files.rotateInterval ≠ 0
  | _ => True

end SecondaryStore
end Kids
