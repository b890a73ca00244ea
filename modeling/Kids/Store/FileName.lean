import Kids.Lib.LexicalPath
import Kids.Util.Bytes
import Kids.Store.Create

/-!
The names of log files: `MakeName` puts the date, the time and the topic into a template, `FindRoot` finds the
directory that the template begins with, and `File::Open` opens what they give.
-/

namespace Kids

open Bytes

def slash : UInt8 := 47
def dot : UInt8 := 46

/--
The fields of `struct tm` that a name depends on.
-/
structure Tm where
  year : Int
  mon : Int
  mday : Int
  hour : Int
  min : Int
  sec : Int

-- `%0*d`
def padded (width : Nat) (n : Int) : Bytes :=
  let sign : Bytes := if n < 0 then [45] else []
  let digits := decimal n.natAbs
  sign ++ List.replicate (width - sign.length - digits.length) 48 ++ digits

def Tm.date (tm : Tm) : Bytes :=
  padded 4 (1900 + tm.year) ++ 45 :: padded 2 (tm.mon + 1) ++ 45 :: padded 2 tm.mday

def Tm.time (tm : Tm) : Bytes :=
  padded 2 tm.hour ++ 45 :: padded 2 tm.min ++ 45 :: padded 2 tm.sec

def dateMark : Bytes := ofString "[date]"
def timeMark : Bytes := ofString "[time]"
def topicMark : Bytes := ofString "[topic]"

-- `std::string::find`
def find (needle : Bytes) : Bytes → Option Nat
  | [] => if needle = [] then some 0 else none
  | b :: s => if needle <+: b :: s then some 0 else (find needle s).map (· + 1)

-- `std::string::replace`
def replace (s : Bytes) (pos len : Nat) (text : Bytes) : Bytes :=
  s.take pos ++ text ++ s.drop (pos + len)

def replaceMark (mark text pattern : Bytes) : Bytes :=
  match find mark pattern with
  | none => pattern
  | some pos => replace pattern pos mark.length text

def makeName (pattern : Bytes) (tm : Tm) (topic : Bytes) : Bytes :=
  let pattern := replaceMark dateMark tm.date pattern
  let pattern := replaceMark timeMark tm.time pattern
  replaceMark topicMark topic pattern

-- the pattern in front of the mark
def cutAt (mark pattern : Bytes) : Bytes :=
  match find mark pattern with
  | none => pattern
  | some pos => pattern.take pos

-- what stands up to and including the last `/`, if there is one
def throughSlash (pattern : Bytes) : Option Bytes :=
  match pattern.reverse.dropWhile (· ≠ slash) with
  | [] => none
  | rest => some rest.reverse

def findRoot (pattern : Bytes) : Bytes :=
  match throughSlash (cutAt topicMark (cutAt timeMark (cutAt dateMark pattern))) with
  | none => ofString "."
  | some root => root

/--
What `File::Open` and `DoAddMessage` take from the system. `makePath` is whether the directories are there or can be
made, `now` is what `time` gives.
-/
structure System where
  localtime : Int → Tm
  now : Int
  unixtime : Int
  makePath : Bytes → Bool

namespace File

-- the file that `fopen` is called for
def open_ (sys : System) (path name : Bytes) (isSecondary : Bool) (topic : Bytes) (ti : Int) : Option Bytes :=
  let now := if ti = 0 then sys.now else ti
  let tm := sys.localtime now
  let name := if isSecondary then ofString "[date]-[time].kidsbuffer" else name
  let pathname := if isSecondary then path else makeName path tm topic
  let filename := makeName name tm topic
  if sys.makePath (cstr pathname) then
    some (cstr (pathname ++ filename))
  else
    none

end File

/--
A `FileStore` that is not a secondary one, with the members that the names of its files come from. The templates were
C strings, and the constructor has put a `/` behind the path.
-/
structure LogStore where
  path : Bytes
  name : Bytes
  rotateInterval : Int
  slash_path : path.getLast? = some slash
  nul_path : nul ∉ path
  nul_name : nul ∉ name

namespace LogStore

def fileTime (s : LogStore) (sys : System) : Int :=
  if s.rotateInterval > 0 then sys.unixtime - sys.unixtime.tmod s.rotateInterval else sys.unixtime

/--
What `DoAddMessage` opens for a topic that has no file yet. The topic becomes a `std::string` as a C string.
-/
def openFile (s : LogStore) (sys : System) (topic : Bytes) : Option Bytes :=
  File.open_ sys s.path s.name false (cstr topic) (s.fileTime sys)

theorem exists_of_createFile {conf : StoreConfig} {base : StoreBase} {path name : Bytes} {rotate flush : Int}
    (h : conf.createFile = some (.file base path name rotate flush)) (hpath : nul ∉ conf.path)
    (hname : nul ∉ conf.name) : ∃ s : LogStore, s.path = path ∧ s.name = name ∧ s.rotateInterval = rotate := by
  unfold StoreConfig.createFile at h
  split at h
  . cases h
  . next b hlast =>
    cases h
    have hslash : ofString "/" = [slash] := rfl
    rw [hslash]
    split
    . refine ⟨⟨_, _, _, List.getLast?_concat, ?_, hname⟩, rfl, rfl, rfl⟩
      rw [List.mem_append, not_or]
      exact ⟨hpath, by decide⟩
    . next hb =>
      rw [not_not] at hb
      subst hb
      exact ⟨⟨_, _, _, hlast, hpath, hname⟩, rfl, rfl, rfl⟩

end LogStore
end Kids
