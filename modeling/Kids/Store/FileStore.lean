import Kids.Store.File

/-!
A secondary `FileStore` on its directory, with all file operations successful. The names of its files come
from the time of day, so a file that is opened again within a second is appended to.
-/

namespace Kids

structure Entry where
  name : Bytes
  ctime : Nat
  data : Bytes

/--
What a call finds outside: the time it reads, `unixtime` as the event loop has last set it, the place that
a new file gets in the listing of the directory, and the change time of a file that it writes to.
-/
structure Env where
  now : Nat
  unixtime : Nat
  slot : Nat
  ctime : Nat

/--
`directory` is in the order in which `readdir` lists it, `secondaryFile` is the name of the open file.
-/
structure FileStore where
  directory : List Entry
  secondaryFile : Option Bytes
  rotateInterval : Int
  lastRotate : Nat

namespace FileStore

def isOpen (fs : FileStore) : Bool :=
  fs.secondaryFile.isSome

-- the files other than the one with this name
def unlink (directory : List Entry) (name : Bytes) : List Entry :=
  directory.filter (·.name ≠ name)

def size (directory : List Entry) (name : Bytes) : Nat :=
  ((directory.find? (·.name = name)).map (·.data.length)).getD 0

def closeFile (directory : List Entry) (env : Env) (name : Bytes) : List Entry :=
  let directory := directory.map fun entry => if entry.name = name then { entry with ctime := env.ctime } else entry
  -- `File::Close(true)` removes a file that nothing was written to
  if size directory name = 0 then unlink directory name else directory

def close (fs : FileStore) (env : Env) : FileStore :=
  match fs.secondaryFile with
  | none => fs
  | some name => { fs with directory := closeFile fs.directory env name, secondaryFile := none }

-- `fopen` with mode `a+`
def openFile (directory : List Entry) (env : Env) (name : Bytes) : List Entry :=
  if directory.any (·.name = name) then
    directory
  else
    directory.take env.slot ++ ⟨name, env.ctime, []⟩ :: directory.drop env.slot

section

variable (makeName : Nat → Bytes)

def open_ (fs : FileStore) (env : Env) : FileStore :=
  let fs := fs.close env
  { fs with
    directory := openFile fs.directory env (makeName env.now)
    secondaryFile := some (makeName env.now)
    lastRotate := env.now
  }

-- `none` is the division by an interval of 0
def cron (fs : FileStore) (env : Env) : Option FileStore :=
  if fs.isOpen ∧ fs.rotateInterval = 0 then
    none
  else if fs.isOpen ∧ fs.rotateInterval ≠ -1 ∧ (env.unixtime : Int).tmod fs.rotateInterval = 0 ∧
      fs.lastRotate < env.unixtime then
    some (fs.open_ makeName env)
  else
    some fs

end

def addMessage (fs : FileStore) (env : Env) (name : Bytes) (m : Message) : FileStore :=
  { fs with
    directory := fs.directory.map fun entry =>
      if entry.name = name then { entry with data := File.addMessage entry.data m, ctime := env.ctime } else entry
  }

-- the first of the files with the least change time
def findOldestFile (directory : List Entry) : Option Entry :=
  directory.foldl
    (fun oldest entry =>
      match oldest with
      | none => some entry
      | some oldest => if entry.ctime < oldest.ctime then some entry else some oldest)
    none

def haveOldMessage (fs : FileStore) : Bool :=
  (findOldestFile fs.directory).isSome

def getOldestMessages (fs : FileStore) : Option (List Message) :=
  match findOldestFile fs.directory with
  | none => some []
  | some entry => File.getMessages entry.data

def deleteOldestMessages (fs : FileStore) : FileStore :=
  match findOldestFile fs.directory with
  | none => fs
  | some entry => { fs with directory := unlink fs.directory entry.name }

end FileStore
end Kids
