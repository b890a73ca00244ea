import Kids.Conf.Config

/-!
The scanner of `lexer.rl`. At each position the pattern with the longest match is taken, and the first of
them if there are several. A text that no pattern matches ends the scan.
-/

namespace Kids

open Bytes

def tkId : Nat := 1
def tkSemicolon : Nat := 2
def tkLog : Nat := 3
def tkLp : Nat := 4
def tkRp : Nat := 5
def tkListen : Nat := 6
def tkStore : Nat := 7
def tkBufferType : Nat := 8

/--
What a pattern does: `ID()` and `KEYWORD` make a token of the text, `SYMBOL` makes none.
-/
inductive LexAction
  | keyword (major : Nat)
  | symbol (major : Nat)
  | skip
  deriving DecidableEq

namespace Lexer

def isPrint (b : UInt8) : Bool :=
  32 ≤ b && b ≤ 126

def isLine (b : UInt8) : Bool :=
  b == lf || b == cr

-- `print - noise - [,<>=;{}]`
def isWord (b : UInt8) : Bool :=
  isPrint b && b != 32 && !(ofString ",<>=;{}").contains b

def backslash : UInt8 := 92
def backtick : UInt8 := 96
def dquote : UInt8 := 34
def squote : UInt8 := 39
def hash : UInt8 := 35

-- how much of the text each pattern matches

def number : Bytes → Option Nat
  | b :: s => if 49 ≤ b && b ≤ 57 then some (1 + (s.takeWhile isDigit).length) else none
  | [] => none

def keyword (name : String) (text : Bytes) : Option Nat :=
  let k := (ofString name).length
  if (text.take k).map tolower = ofString name then some k else none

def single (c : UInt8) : Bytes → Option Nat
  | b :: _ => if b = c then some 1 else none
  | [] => none

/--
The rest of a quoted text of which `n` bytes have been read. `best` is the last quote so far that can end
it: a single quote may be one of the bytes between single quotes as well.
-/
def quoted (quote : UInt8) (goesOn : Bool) (n : Nat) (best : Option Nat) : Bytes → Option Nat
  | [] => best
  | b :: s =>
    if b = quote then
      if goesOn then quoted quote goesOn (n + 1) (some (n + 1)) s else some (n + 1)
    else if b = backtick then
      best
    else if b = backslash then
      match s with
      | [] => best
      | _ :: s => quoted quote goesOn (n + 2) best s
    else
      quoted quote goesOn (n + 1) best s

def doubleQuoted : Bytes → Option Nat
  | b :: s => if b = dquote then quoted dquote false 1 none s else none
  | [] => none

def singleQuoted : Bytes → Option Nat
  | b :: s => if b = squote then quoted squote true 1 none s else none
  | [] => none

def word (text : Bytes) : Option Nat :=
  let n := (text.takeWhile isWord).length
  if n = 0 then none else some n

def line : Bytes → Option Nat
  | b :: s =>
    if b = cr then
      if s.head? = some lf then some 2 else some 1
    else if b = lf then
      some 1
    else
      none
  | [] => none

def comment : Bytes → Option Nat
  | b :: s =>
    if b = hash then
      let n := (s.takeWhile (fun b => !isLine b)).length
      (line (s.drop n)).map (· + (1 + n))
    else
      none
  | [] => none

def ws : Bytes → Option Nat
  | b :: _ => if b = 9 ∨ b = 32 then some 1 else none
  | [] => none

def noise (text : Bytes) : Option Nat :=
  ws text <|> line text <|> comment text

def patterns : List (LexAction × (Bytes → Option Nat)) := [
  (.keyword tkId, number),
  (.keyword tkListen, keyword "listen"),
  (.keyword tkStore, keyword "store"),
  (.keyword tkLog, keyword "log"),
  (.keyword tkBufferType, keyword "primary"),
  (.keyword tkBufferType, keyword "secondary"),
  (.symbol tkLp, single 123),
  (.symbol tkRp, single 125),
  (.symbol tkSemicolon, single 59),
  (.keyword tkId, doubleQuoted),
  (.keyword tkId, singleQuoted),
  (.keyword tkId, word),
  (.skip, comment),
  (.skip, noise)
]

-- a later pattern is taken for a longer match only
def longer (best : Option (LexAction × Nat)) (action : LexAction) : Option Nat → Option (LexAction × Nat)
  | none => best
  | some n =>
    match best with
    | none => some (action, n)
    | some (_, m) => if m < n then some (action, n) else best

def scan (text : Bytes) : Option (LexAction × Nat) :=
  patterns.foldl (fun best p => longer best p.1 (p.2 text)) none

/--
How far `ctx->line` moves: a carriage return with a line feed behind it counts up and down again.
-/
def lineDelta (text : Bytes) : Nat :=
  match text.reverse with
  | b :: c :: _ => if b = lf ∧ c = cr then 0 else if isLine b then 1 else 0
  | [b] => if isLine b then 1 else 0
  | [] => 0

inductive Lexeme
  | token (major : Nat) (value : Option Bytes)
  | noise (lines : Nat)
  deriving DecidableEq

def lexeme (text : Bytes) : LexAction → Lexeme
  | .keyword major => .token major (some text)
  | .symbol major => .token major none
  | .skip => .noise (lineDelta text)

/--
The lexemes of a text, and whether the scan has come to its end. Every match has a byte, so `fuel` is the
length of the text.
-/
def lexemes : Nat → Bytes → List Lexeme × Bool
  | 0, text => ([], text.isEmpty)
  | fuel + 1, text =>
    if text.isEmpty then
      ([], true)
    else
      match scan text with
      | none => ([], false)
      | some (action, n) =>
        let (rest, ok) := lexemes fuel (text.drop n)
        (lexeme (text.take n) action :: rest, ok)

def lex (text : Bytes) : List Lexeme × Bool :=
  lexemes text.length text

end Lexer
end Kids
