import Kids.Buffer.Basic
import Kids.Util.Protocol
import Kids.Util.String2ll

/-!
`readArgv` and `recvResponse` of `kids.go`. The reader is given by the bytes that the connection still delivers,
to its end.
-/

namespace Kids

open Bytes

namespace GoClient

inductive Error
  -- `io.ErrUnexpectedEOF` and `io.EOF`
  | unexpectedEof
  | eof
  -- the error of `strconv.Atoi`
  | atoi
  | protocol (text : Bytes)
  -- a slice expression or an allocation panics
  | outOfRange
  deriving DecidableEq

def bulkSign : UInt8 := 36
def intSign : UInt8 := 58
def errSign : UInt8 := 45
def okSign : UInt8 := 43
def multiBulkSign : UInt8 := 42

-- `ReadBytes(lfSign)`
def readLine (r : Bytes) : Except Error (Bytes × Bytes) :=
  match r.findIdx? (· == lf) with
  | none => .error .unexpectedEof
  | some i => .ok (r.take (i + 1), r.drop (i + 1))

-- `io.ReadFull` into `n` bytes
def readFull (r : Bytes) (n : Nat) : Except Error (Bytes × Bytes) :=
  if n ≤ r.length then
    .ok (r.take n, r.drop n)
  else if r = [] then
    .error .eof
  else
    .error .unexpectedEof

-- `s[low:high]`
def slice (s : Bytes) (low : Nat) (high : Int) : Except Error Bytes :=
  if low ≤ high then .ok ((s.take high.toNat).drop low) else .error .outOfRange

def atoi (s : Bytes) : Except Error Int :=
  let negative := s.head? = some 45
  let digits := if negative ∨ s.head? = some 43 then s.tail else s
  if digits = [] ∨ digits.all isDigit = false then
    .error .atoi
  else
    let n := digitsValue 0 digits
    if negative then
      if n ≤ llongMax + 1 then .ok (-(n : Int)) else .error .atoi
    else
      if n ≤ llongMax then .ok n else .error .atoi

-- `make([]byte, n)`, with an `int` that is over the largest one below zero
def makeBytes (n : Int) : Except Error Nat :=
  if 0 ≤ n ∧ n ≤ llongMax then .ok n.toNat else .error .outOfRange

def readArgv (r : Bytes) : Except Error (Bytes × Bytes) := do
  let (s, r) ← readLine r
  if s.head? = some bulkSign then
    -- read len
    let line ← slice s 1 (s.length - 2)
    let arglen ← atoi line
    let size ← makeBytes (arglen + 2)
    let (arg, r) ← readFull r size
    let arg ← slice arg 0 (arg.length - 2)
    return (arg, r)
  else if s.head? = some intSign then
    let arg ← slice s 1 (s.length - 2)
    return (arg, r)
  else
    .error (.protocol (ofString "Protocol Error: expected $ or : but got " ++ s))

-- the loop over `argc`
def readArgvs : Nat → Bytes → Except Error (List Bytes × Bytes)
  | 0, r => return ([], r)
  | n + 1, r => do
    let (arg, r) ← readArgv r
    let (args, r) ← readArgvs n r
    return (arg :: args, r)

-- a byte as `%c` prints it
def printRune (b : UInt8) : Bytes :=
  String.utf8EncodeChar (Char.ofNat b.toNat)

def recvResponse (r : Bytes) : Except Error (List Bytes × Bytes) := do
  let (s, r) ← readLine r
  if s.head? = some intSign ∨ s.head? = some okSign ∨ s.head? = some errSign then
    let line ← slice s 0 (s.length - 2)
    return ([line], r)
  else if s.head? = some multiBulkSign then
    -- read argc
    let line ← slice s 1 (s.length - 2)
    let argc ← atoi line
    readArgvs argc.toNat r
  else
    .error (.protocol (ofString "Protocol Error: unexpected '" ++ printRune (s.headD lf) ++ ofString "'"))

/--
`recvResponse` as often as `n` says: what each call returns and what it leaves.
-/
def recvResponses : Nat → Bytes → Except Error (List (List Bytes × Bytes))
  | 0, _ => return []
  | n + 1, r => do
    let (resp, r) ← recvResponse r
    let resps ← recvResponses n r
    return (resp, r) :: resps

section

variable {r rest line data : Bytes} {n : Nat}

theorem ok_bind {α β : Type} (a : α) (f : α → Except Error β) : (Except.ok a >>= f) = f a := rfl

theorem readLine_append (hline : lf ∉ line) : readLine (line ++ lf :: rest) = .ok (line ++ [lf], rest) := by
  have hnone : line.findIdx? (· == lf) = none := by
    rw [List.findIdx?_eq_none_iff]
    intro b hb
    exact beq_eq_false_iff_ne.mpr fun h => hline (h ▸ hb)
  have hidx : (line ++ lf :: rest).findIdx? (· == lf) = some line.length := by
    rw [List.findIdx?_append, hnone, List.findIdx?_cons, if_pos (beq_self_eq_true lf)]
    simp
  unfold readLine
  rw [hidx]
  dsimp only
  rw [show line ++ lf :: rest = (line ++ [lf]) ++ rest by simp]
  rw [List.take_left' (by simp), List.drop_left' (by simp)]

-- a line with CR LF, and the line without them and its first byte
theorem readLine_crlf (hline : lf ∉ line) : readLine (line ++ crlf ++ rest) = .ok (line ++ crlf, rest) := by
  have hcr : lf ∉ line ++ [cr] := by
    rw [List.mem_append, not_or]
    exact ⟨hline, by decide⟩
  have h : readLine ((line ++ [cr]) ++ lf :: rest) = .ok ((line ++ [cr]) ++ [lf], rest) := readLine_append hcr
  simpa [crlf] using h

theorem slice_crlf (b : UInt8) (line : Bytes)
    : slice (b :: line ++ crlf) 1 ((b :: line ++ crlf).length - 2) = .ok line := by
  have hlen : ((b :: line ++ crlf).length : Int) - 2 = (line.length + 1 : Nat) := by
    rw [List.length_append, List.length_cons, length_crlf]
    omega
  unfold slice
  rw [hlen, if_pos (by omega), Int.toNat_natCast]
  simp

theorem atoi_decimal (h : n ≤ llongMax) : atoi (decimal n) = .ok (n : Int) := by
  have hdigits := isDigit_of_mem_decimal n
  have hhead : ∀ b, isDigit b = false → (decimal n).head? ≠ some b := by
    intro b hb hsome
    rw [hdigits b (List.mem_of_head? hsome)] at hb
    cases hb
  have hne : decimal n ≠ [] := by
    rw [decimal_eq]
    exact List.append_ne_nil_of_right_ne_nil _ (List.cons_ne_nil _ _)
  have hall : (decimal n).all isDigit = true := List.all_eq_true.mpr hdigits
  have hminus := hhead 45 (by decide)
  have hplus := hhead 43 (by decide)
  unfold atoi
  simp only [hminus, hplus, or_self, if_false, hne, hall, digitsValue_decimal, h, if_true, Bool.true_eq_false]

theorem readLine_header (type : UInt8) (n : Nat) (htype : type ≠ lf)
    : readLine (headerLine type n ++ rest) = .ok (headerLine type n, rest) := by
  have hline : lf ∉ type :: decimal n := by
    rw [List.mem_cons, not_or]
    exact ⟨htype.symm, not_mem_decimal n lf (by decide)⟩
  exact readLine_crlf hline

theorem readArgv_bulk (h : data.length < uint32Size) : readArgv (bulkEncoding data ++ rest) = .ok (data, rest) := by
  unfold uint32Size at h
  have hmax : data.length ≤ llongMax := by
    unfold llongMax
    omega
  have hslice : slice (headerLine dollar data.length) 1 ((headerLine dollar data.length).length - 2) =
      .ok (decimal data.length) :=
    slice_crlf dollar (decimal data.length)
  have hsize : makeBytes (data.length + 2) = .ok (data ++ crlf).length := by
    unfold makeBytes llongMax
    rw [if_pos (by omega), List.length_append, length_crlf]
    rfl
  have hfull : readFull (data ++ crlf ++ rest) (data ++ crlf).length = .ok (data ++ crlf, rest) := by
    unfold readFull
    rw [if_pos (by simp), List.take_left, List.drop_left]
  have harg : slice (data ++ crlf) 0 ((data ++ crlf).length - 2) = .ok data := by
    have hlen : ((data ++ crlf).length : Int) - 2 = (data.length : Nat) := by
      rw [List.length_append, length_crlf]
      omega
    unfold slice
    rw [hlen, if_pos (by omega), Int.toNat_natCast, List.take_left, List.drop_zero]
  unfold readArgv bulkEncoding
  rw [List.append_assoc, readLine_header dollar data.length (by decide), ok_bind]
  dsimp only
  rw [if_pos (show (headerLine dollar data.length).head? = some bulkSign from rfl), hslice, ok_bind, atoi_decimal hmax,
    ok_bind, hsize, ok_bind, hfull, ok_bind]
  dsimp only
  rw [harg]
  rfl

-- `:` and a number
theorem readArgv_integer (hline : lf ∉ line)
    : readArgv (intSign :: line ++ crlf ++ rest) = .ok (line, rest) := by
  have hmem : lf ∉ intSign :: line := by
    rw [List.mem_cons, not_or]
    exact ⟨by decide, hline⟩
  unfold readArgv
  rw [readLine_crlf hmem, ok_bind]
  dsimp only
  rw [if_neg (by simp [intSign, bulkSign]), if_pos (by rfl), slice_crlf]
  rfl

theorem readArgvs_cons {arg : Bytes} {args : List Bytes} {r' : Bytes} (harg : readArgv r = .ok (arg, r'))
    (hargs : readArgvs n r' = .ok (args, rest)) : readArgvs (n + 1) r = .ok (arg :: args, rest) := by
  unfold readArgvs
  rw [harg, ok_bind]
  dsimp only
  rw [hargs]
  rfl

theorem recvResponse_multibulk {args : List Bytes} (hn : n ≤ llongMax) (hargs : readArgvs n r = .ok (args, rest))
    : recvResponse (headerLine multiBulkSign n ++ r) = .ok (args, rest) := by
  have hslice : slice (headerLine multiBulkSign n) 1 ((headerLine multiBulkSign n).length - 2) = .ok (decimal n) :=
    slice_crlf multiBulkSign (decimal n)
  unfold recvResponse
  rw [readLine_header multiBulkSign n (by decide), ok_bind]
  dsimp only
  rw [if_neg (by simp [headerLine, multiBulkSign, intSign, okSign, errSign]), if_pos (by rfl), hslice, ok_bind,
    atoi_decimal hn, ok_bind, Int.toNat_natCast]
  exact hargs

end

end GoClient
end Kids
