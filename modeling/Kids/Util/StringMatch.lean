import Kids.Util.Bytes
import Mathlib.Data.Int.Basic

/-!
`stringmatchlen`. The pattern and the string are read through a pointer each, with the length that is left of
them. A read beyond the NUL after the last byte and a length below zero are faults.
-/

namespace Kids

open Bytes

namespace StringMatch

inductive Fault
  | bounds
  | negative
  -- the steps did not suffice
  | fuel
  deriving DecidableEq

/--
A `const char *` and an `int`, that go over the bytes of `buf` together.
-/
structure Cursor where
  buf : Bytes
  pos : Nat
  len : Int

namespace Cursor

def start (buf : Bytes) : Cursor := ⟨buf, 0, buf.length⟩

-- `p[i]`
def byte (p : Cursor) (i : Nat) : Except Fault UInt8 :=
  if p.pos + i ≤ p.buf.length then .ok (p.buf.getD (p.pos + i) nul) else .error .bounds

-- `p += k` and `len -= k`
def move (p : Cursor) (k : Nat) : Cursor :=
  { p with pos := p.pos + k, len := p.len - k }

def next (p : Cursor) (k : Nat) : Except Fault Cursor :=
  if (p.move k).len < 0 then .error .negative else .ok (p.move k)

-- `p--` and `len++`
def back (p : Cursor) : Cursor :=
  { p with pos := p.pos - 1, len := p.len + 1 }

end Cursor

def star : UInt8 := 42
def question : UInt8 := 63
def lbracket : UInt8 := 91
def rbracket : UInt8 := 93
def caret : UInt8 := 94
def dash : UInt8 := 45
def backslash : UInt8 := 92

-- `tolower` on a `char` that was made an `int`: the table of the C locale has the bytes from 0x80 on also at
-- -128..-2, and leaves -1 (`EOF`) alone
def tolowerInt (c : Int) : Int :=
  if 65 ≤ c ∧ c ≤ 90 then c + 32 else if -128 ≤ c ∧ c ≤ -2 then c + 256 else c

def char (b : UInt8) : Int :=
  b.toInt8.toInt

def same (nocase : Bool) (b c : UInt8) : Bool :=
  if nocase then tolowerInt (char b) == tolowerInt (char c) else b == c

-- the ends are swapped before they are made lower
def inRange (nocase : Bool) (x y b : UInt8) : Bool :=
  let (start, stop) := if char x > char y then (char y, char x) else (char x, char y)
  let c := char b
  let (start, stop, c) := if nocase then (tolowerInt start, tolowerInt stop, tolowerInt c) else (start, stop, c)
  c ≥ start && c ≤ stop

-- `while (pattern[1] == '*')`
def collapse : Nat → Cursor → Except Fault Cursor
  | 0, _ => .error .fuel
  | fuel + 1, p => do
    let b ← p.byte 1
    if b = star then
      let p ← p.next 1
      collapse fuel p
    else
      return p

/--
The items of a class. The pattern is left at the `]`, or at its last byte if there is none.
-/
def classLoop (nocase : Bool) (s : Cursor) : Nat → Cursor → Bool → Except Fault (Cursor × Bool)
  | 0, _, _ => .error .fuel
  | fuel + 1, p, match_ => do
    let b ← p.byte 0
    if b = backslash then
      let p ← p.next 1
      let b ← p.byte 0
      let c ← s.byte 0
      let p ← p.next 1
      classLoop nocase s fuel p (match_ || b == c)
    else if b = rbracket then
      return (p, match_)
    else if p.len = 0 then
      return (p.back, match_)
    else
      let d ← p.byte 1
      let c ← s.byte 0
      if d = dash ∧ p.len ≥ 3 then
        let stop ← p.byte 2
        let p ← p.next 2
        let p ← p.next 1
        classLoop nocase s fuel p (match_ || inRange nocase b stop c)
      else
        let p ← p.next 1
        classLoop nocase s fuel p (match_ || same nocase b c)

-- the branch of `[`
def matchClass (nocase : Bool) (fuel : Nat) (p s : Cursor) : Except Fault (Option (Cursor × Cursor)) := do
  let p ← p.next 1
  let b ← p.byte 0
  let no := b == caret
  let p ← if no then p.next 1 else pure p
  let (p, match_) ← classLoop nocase s fuel p false
  let match_ := if no then !match_ else match_
  if !match_ then
    return none
  else
    let s ← s.next 1
    return some (p, s)

-- the branches of `\` and `default`
def matchByte (nocase : Bool) (p s : Cursor) : Except Fault (Option (Cursor × Cursor)) := do
  let b ← p.byte 0
  let p ← if b = backslash ∧ p.len ≥ 2 then p.next 1 else pure p
  let b ← p.byte 0
  let c ← s.byte 0
  if !same nocase b c then
    return none
  else
    let s ← s.next 1
    return some (p, s)

/--
The branches that take one byte of the string. `none` is `return 0`.
-/
def matchOne (nocase : Bool) (fuel : Nat) (p s : Cursor) : Except Fault (Option (Cursor × Cursor)) := do
  let b ← p.byte 0
  if b = question then
    if s.len = 0 then
      return none
    else
      let s ← s.next 1
      return some (p, s)
  else if b = lbracket then
    matchClass nocase fuel p s
  else
    matchByte nocase p s

-- `while (*pattern == '*')`
def skipStars : Nat → Cursor → Except Fault Cursor
  | 0, _ => .error .fuel
  | fuel + 1, p => do
    let b ← p.byte 0
    if b = star then
      let p ← p.next 1
      skipStars fuel p
    else
      return p

mutual

def stringmatchlen (nocase : Bool) : Nat → Cursor → Cursor → Except Fault Bool
  | 0, _, _ => .error .fuel
  | fuel + 1, p, s => do
    if p.len = 0 then
      return s.len == 0
    else
      let b ← p.byte 0
      if b = star then
        let p ← collapse fuel p
        if p.len = 1 then
          return true
        else
          starLoop nocase fuel p s
      else
        match ← matchOne nocase fuel p s with
        | none => return false
        | some (p, s) =>
          let p ← p.next 1
          if s.len = 0 then
            let p ← skipStars fuel p
            return p.len == 0 && s.len == 0
          else
            stringmatchlen nocase fuel p s

-- `while (stringLen)`
def starLoop (nocase : Bool) : Nat → Cursor → Cursor → Except Fault Bool
  | 0, _, _ => .error .fuel
  | fuel + 1, p, s => do
    if s.len = 0 then
      return false
    else
      let rest ← p.next 1
      let matched ← stringmatchlen nocase fuel rest s
      if matched then
        return true
      else
        let s ← s.next 1
        starLoop nocase fuel p s

end

end StringMatch
end Kids
