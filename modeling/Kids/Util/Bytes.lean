import Mathlib.Algebra.Ring.Int.Defs
import Mathlib.Algebra.Ring.Nat
import Mathlib.Data.List.Basic
import Mathlib.Data.List.TakeWhile

/-!
Byte strings, and the C string functions the program applies to them. A `Buffer` and an `sds` both keep
a NUL after their last byte, so a C string function that runs off the end of the list reads that NUL.
-/

namespace Kids

abbrev Bytes := List UInt8

namespace Bytes

def cr : UInt8 := 13
def lf : UInt8 := 10
def nul : UInt8 := 0
def dollar : UInt8 := 36

def ofString (s : String) : Bytes :=
  s.toList.map (fun c => c.toNat.toUInt8)

def cstr (s : Bytes) : Bytes :=
  s.takeWhile (· ≠ nul)

-- the offset of the first `c` that no NUL precedes
def strchr (s : Bytes) (c : UInt8) : Option Nat :=
  match s with
  | [] => none
  | b :: s => if b = c then some 0 else if b = nul then none else (strchr s c).map (· + 1)

def tolower (b : UInt8) : UInt8 :=
  if 65 ≤ b ∧ b ≤ 90 then b + 32 else b

def strcaseeq (s t : Bytes) : Bool :=
  (cstr s).map tolower == (cstr t).map tolower

def decimal (n : Nat) : Bytes :=
  if n < 10 then
    [UInt8.ofNat (48 + n)]
  else
    decimal (n / 10) ++ [UInt8.ofNat (48 + n % 10)]

def crlf : Bytes := [cr, lf]

@[simp]
theorem length_crlf : crlf.length = 2 := rfl

theorem cstr_eq_self (s : Bytes) (h : nul ∉ s) : cstr s = s := by
  apply List.takeWhile_eq_self_iff.mpr
  intro b hb
  simp only [ne_eq, decide_eq_true_eq]
  rintro rfl
  exact h hb

theorem strchr_lt (s : Bytes) (h : strchr s c = some i) : i < s.length := by
  induction s generalizing i with
  | nil => simp [strchr] at h
  | cons b s ih =>
    simp only [strchr] at h
    split at h
    . simp only [Option.some.injEq] at h
      simp [← h]
    . split at h
      . simp at h
      . simp only [Option.map_eq_some_iff] at h
        obtain ⟨j, hj, rfl⟩ := h
        simp only [List.length_cons]
        have := ih hj
        omega

theorem strchr_append (s t : Bytes) (h : strchr s c = some i) : strchr (s ++ t) c = some i := by
  induction s generalizing i with
  | nil => simp [strchr] at h
  | cons b s ih =>
    simp only [strchr, List.cons_append] at h ⊢
    split at h
    . next hb => simpa [hb] using h
    . next hb =>
      split at h
      . simp at h
      . next hn =>
        simp only [Option.map_eq_some_iff] at h
        obtain ⟨j, hj, rfl⟩ := h
        simp [hb, hn, ih hj]

theorem strchr_line (line rest : Bytes) (hcr : cr ∉ line) (hnul : nul ∉ line)
    : strchr (line ++ cr :: rest) cr = some line.length := by
  induction line with
  | nil => simp [strchr]
  | cons b line ih =>
    simp only [List.mem_cons, not_or] at hcr hnul
    simp only [List.cons_append, strchr]
    rw [if_neg (Ne.symm hcr.1), if_neg (Ne.symm hnul.1)]
    simp [ih hcr.2 hnul.2]

theorem decimal_eq (n : Nat)
    : decimal n = (if n < 10 then [] else decimal (n / 10)) ++ [UInt8.ofNat (48 + n % 10)] := by
  rw [decimal]
  split
  . next h => simp [Nat.mod_eq_of_lt h]
  . rfl

theorem decimal_length_le (n k : Nat) (h : n < 10 ^ (k + 1)) : (decimal n).length ≤ k + 1 := by
  induction k generalizing n with
  | zero =>
    rw [decimal_eq, if_pos (by omega)]
    simp
  | succ k ih =>
    rw [decimal_eq]
    split
    . simp
    . have : n / 10 < 10 ^ (k + 1) := by
        rw [Nat.pow_succ] at h
        omega
      have := ih (n / 10) this
      simp only [List.length_append, List.length_singleton]
      omega

def isDigit (b : UInt8) : Bool :=
  48 ≤ b && b ≤ 57

theorem isDigit_ofNat (d : Nat) (h : d < 10) : isDigit (UInt8.ofNat (48 + d)) = true := by
  have : ∀ d : Fin 10, isDigit (UInt8.ofNat (48 + d.val)) = true := by decide
  exact this ⟨d, h⟩

theorem isDigit_of_mem_decimal (n : Nat) : ∀ b ∈ decimal n, isDigit b = true := by
  induction n using Nat.strongRecOn with
  | ind n ih =>
    intro b hb
    rw [decimal_eq, List.mem_append] at hb
    cases hb with
    | inl hb =>
      split at hb
      . simp at hb
      . exact ih (n / 10) (by omega) b hb
    | inr hb =>
      simp only [List.mem_singleton] at hb
      rw [hb]
      exact isDigit_ofNat _ (Nat.mod_lt _ (by omega))

theorem not_mem_decimal (n : Nat) (b : UInt8) (h : isDigit b = false) : b ∉ decimal n := by
  intro hb
  rw [isDigit_of_mem_decimal n b hb] at h
  cases h

end Bytes
end Kids
