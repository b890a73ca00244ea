import Kids.Util.Bytes
import Mathlib.Data.Int.Basic

/-!
`ParseSize` and `ParseTime`: a number and a unit. The number is an `int`, whose arithmetic wraps.
-/

namespace Kids

open Bytes

def int32 (x : Int) : Int :=
  x.bmod (2 ^ 32)

-- the digits at the front, and what follows them
def leadingNumber (t : Int) : Bytes → Int × Bytes
  | [] => (t, [])
  | b :: s =>
    if isDigit b then
      leadingNumber (int32 (t * 10 + (b.toNat - 48))) s
    else
      (t, b :: s)

/--
`units` has the names of each unit, and what it multiplies the number with.
-/
def parseUnits (units : List (List String × Int)) (str : Bytes) : Option Int :=
  let (t, unit) := leadingNumber 0 (cstr str)
  match units.find? (fun u => u.1.any (fun name => strcaseeq unit (ofString name))) with
  | none => none
  | some (_, factor) => some (int32 (t * factor))

def timeUnits : List (List String × Int) := [
  (["h", "hour"], 3600),
  (["m", "min"], 60),
  (["s", "sec"], 1),
  (["d", "day"], 3600 * 24)
]

def sizeUnits : List (List String × Int) := [
  (["b", "byte"], 1),
  (["k", "kb"], 1024),
  (["m", "mb"], 1024 * 1024),
  (["g", "gb"], 1024 * 1024 * 1024)
]

def parseTime (str : Bytes) : Option Int :=
  parseUnits timeUnits str

def parseSize (str : Bytes) : Option Int :=
  parseUnits sizeUnits str

end Kids
