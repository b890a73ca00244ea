import Kids.Util.Bytes

/-!
`string2ll` of `util.cc`: the strict decimal reader behind every length of the request protocol.
-/

namespace Kids

open Bytes

def ullongMax : Nat := 2 ^ 64 - 1
def llongMax : Nat := 2 ^ 63 - 1

/--
The digit loop of `string2ll`. `p` is what the pointer still has in front of it and `v` the value so
far; the result is the final value and `plen`, or `none` on the two overflow returns.
-/
def string2ll.go (slen : Nat) (p : Bytes) (plen v : Nat) : Option (Nat × Nat) :=
  match p with
  | [] => some (v, plen)
  | c :: p =>
    if plen < slen ∧ isDigit c then
      if v > ullongMax / 10 then
        none
      else if v * 10 > ullongMax - (c.toNat - 48) then
        none
      else
        go slen p (plen + 1) (v * 10 + (c.toNat - 48))
    else
      some (v, plen)

-- `none` where the C function returns 0; a byte past the end of `s` is the NUL that terminates it
def string2ll (s : Bytes) (slen : Nat) : Option Int :=
  if slen = 0 then
    none
  else if slen = 1 ∧ s.head? = some 48 then
    some 0
  else
    let negative := s.head? = some 45
    let p := if negative then s.drop 1 else s
    let plen := if negative then 1 else 0
    if negative ∧ plen = slen then
      none
    else
      match p with
      | [] => none
      | c :: p =>
        if 49 ≤ c ∧ c ≤ 57 then
          match string2ll.go slen p (plen + 1) (c.toNat - 48) with
          | none => none
          | some (v, plen) =>
            if plen < slen then
              none
            else if negative then
              if v > llongMax + 1 then none else some (-(v : Int))
            else
              if v > llongMax then none else some (v : Int)
        else
          -- the source repeats its test for a lone "0" here, which the first test has already taken
          if c = 48 ∧ slen = 1 then some 0 else none

def digitsValue (v : Nat) (ds : Bytes) : Nat :=
  ds.foldl (fun v d => v * 10 + (d.toNat - 48)) v

@[simp]
theorem digitsValue_nil : digitsValue v [] = v := rfl

@[simp]
theorem digitsValue_cons : digitsValue v (d :: ds) = digitsValue (v * 10 + (d.toNat - 48)) ds := by
  simp only [digitsValue, List.foldl_cons]

theorem digitsValue_append : digitsValue v (ds ++ es) = digitsValue (digitsValue v ds) es := by
  simp [digitsValue]

theorem le_digitsValue (v : Nat) (ds : Bytes) : v ≤ digitsValue v ds := by
  induction ds generalizing v with
  | nil => simp
  | cons d ds ih =>
    rw [digitsValue_cons]
    have := ih (v * 10 + (d.toNat - 48))
    omega

theorem digitsValue_decimal (n : Nat) : digitsValue 0 (decimal n) = n := by
  induction n using Nat.strongRecOn with
  | ind n ih =>
    have hdigit : (UInt8.ofNat (48 + n % 10)).toNat - 48 = n % 10 := by
      rw [UInt8.toNat_ofNat']
      omega
    rw [decimal_eq, digitsValue_append]
    split
    . simp only [digitsValue_nil, digitsValue_cons, hdigit]
      omega
    . rw [ih (n / 10) (by omega)]
      simp only [digitsValue_nil, digitsValue_cons, hdigit]
      omega

theorem string2ll.go_digits (slen : Nat) (ds rest : Bytes) (plen v : Nat)
    (hdigit : ∀ d ∈ ds, isDigit d = true) (hlen : plen + ds.length = slen)
    (hv : digitsValue v ds ≤ ullongMax)
    : go slen (ds ++ rest) plen v = some (digitsValue v ds, slen) := by
  induction ds generalizing plen v with
  | nil =>
    simp only [List.length_nil, Nat.add_zero] at hlen
    cases rest with
    | nil => simp [go, hlen]
    | cons => simp [go, hlen]
  | cons d ds ih =>
    simp only [List.length_cons] at hlen
    rw [digitsValue_cons] at hv ⊢
    have := le_digitsValue (v * 10 + (d.toNat - 48)) ds
    simp only [List.cons_append, go]
    rw [if_pos ⟨by omega, hdigit d (by simp)⟩, if_neg (by omega), if_neg (by omega)]
    apply ih
    . intro e he
      exact hdigit e (by simp [he])
    . omega
    . exact hv

theorem decimal_head (n : Nat) (h : 0 < n)
    : ∃ d ds, decimal n = d :: ds ∧ 49 ≤ d ∧ d ≤ 57 := by
  induction n using Nat.strongRecOn with
  | ind n ih =>
    rw [decimal_eq]
    split
    . next hlt =>
      have : ∀ d : Fin 10, 0 < d.val → 49 ≤ UInt8.ofNat (48 + d.val % 10) ∧ UInt8.ofNat (48 + d.val % 10) ≤ 57 := by
        decide
      exact ⟨_, _, rfl, this ⟨n, hlt⟩ h⟩
    . obtain ⟨d, ds, hd, hle⟩ := ih (n / 10) (by omega) (by omega)
      exact ⟨d, ds ++ [UInt8.ofNat (48 + n % 10)], by simp [hd], hle⟩

theorem string2ll_decimal (n : Nat) (rest : Bytes) (h : n ≤ llongMax)
    : string2ll (decimal n ++ rest) (decimal n).length = some (n : Int) := by
  cases n with
  | zero => simp [string2ll, decimal]
  | succ n =>
    obtain ⟨d, ds, hd, hle⟩ := decimal_head (n + 1) (by omega)
    have hvalue := digitsValue_decimal (n + 1)
    have hdigits := isDigit_of_mem_decimal (n + 1)
    rw [hd] at hvalue hdigits ⊢
    simp only [digitsValue_cons, Nat.zero_mul, Nat.zero_add] at hvalue
    have hne48 : d ≠ 48 := by
      rintro rfl
      exact absurd hle.1 (by decide)
    have hne45 : d ≠ 45 := by
      rintro rfl
      exact absurd hle.1 (by decide)
    have hgo := string2ll.go_digits (ds.length + 1) ds rest 1 (d.toNat - 48)
      (fun e he => hdigits e (by simp [he])) (by omega) (by rw [hvalue]; simp only [llongMax, ullongMax] at *; omega)
    rw [hvalue] at hgo
    simp [string2ll, hne48, hne45, hle, hgo, Nat.not_lt.mpr h]

theorem string2ll.go_append (slen : Nat) (p t : Bytes) (plen v : Nat) (h : slen ≤ plen + p.length)
    : go slen (p ++ t) plen v = go slen p plen v := by
  induction p generalizing plen v with
  | nil =>
    simp only [List.length_nil, Nat.add_zero] at h
    cases t with
    | nil => rfl
    | cons => simp [go, Nat.not_lt.mpr h]
  | cons c p ih =>
    simp only [List.length_cons] at h
    simp only [List.cons_append, go]
    rw [ih _ _ (by omega)]

theorem string2ll_append (s t : Bytes) (slen : Nat) (h : slen ≤ s.length)
    : string2ll (s ++ t) slen = string2ll s slen := by
  cases s with
  | nil =>
    have : slen = 0 := by simpa using h
    simp [string2ll, this]
  | cons b s =>
    simp only [List.length_cons] at h
    by_cases hneg : b = 45
    . cases s with
      | nil =>
        have : slen = 0 ∨ slen = 1 := by simp at h; omega
        rcases this with rfl | rfl
        . simp [string2ll]
        . simp [string2ll, hneg]
      | cons c s =>
        have := string2ll.go_append slen s t 2 (c.toNat - 48) (by simp at h; omega)
        simp [string2ll, hneg, this]
    . have := string2ll.go_append slen s t 1 (b.toNat - 48) (by omega)
      simp [string2ll, hneg, this]

theorem string2ll.go_le (slen : Nat) (p : Bytes) (plen v : Nat) (hv : v ≤ ullongMax)
    (h : go slen p plen v = some (v', plen'))
    : ∃ k, plen' = plen + k ∧ v * 10 ^ k ≤ v' ∧ v' ≤ ullongMax := by
  induction p generalizing plen v with
  | nil =>
    simp only [go, Option.some.injEq, Prod.mk.injEq] at h
    exact ⟨0, by omega, by omega, by omega⟩
  | cons c p ih =>
    simp only [go] at h
    split at h
    . split at h
      . simp at h
      . split at h
        . simp at h
        . have := c.toNat_lt
          obtain ⟨k, hk, hle, hmax⟩ := ih _ _ (by simp only [ullongMax] at *; omega) h
          refine ⟨k + 1, by omega, ?_, hmax⟩
          calc v * 10 ^ (k + 1) = (v * 10) * 10 ^ k := by rw [Nat.pow_succ, Nat.mul_assoc, Nat.mul_comm 10]
            _ ≤ (v * 10 + (c.toNat - 48)) * 10 ^ k := Nat.mul_le_mul_right _ (by omega)
            _ ≤ v' := hle
    . simp only [Option.some.injEq, Prod.mk.injEq] at h
      exact ⟨0, by omega, by omega, by omega⟩

theorem string2ll_long (s : Bytes) (slen : Nat) (h : 22 ≤ slen) : string2ll s slen = none := by
  have hgo : ∀ (c : UInt8) (p : Bytes) (plen : Nat), 49 ≤ c → plen ≤ 2 → ∀ v' plen',
      string2ll.go slen p plen (c.toNat - 48) = some (v', plen') → plen' < slen := by
    intro c p plen hc hplen v' plen' hres
    have hc' : 49 ≤ c.toNat := by simpa [UInt8.le_iff_toNat_le] using hc
    have hlt := c.toNat_lt
    obtain ⟨k, hk, hle, hmax⟩ := string2ll.go_le slen p plen _ (by simp only [ullongMax]; omega) hres
    have hk20 : k < 20 := by
      by_contra hge
      have hpow : 10 ^ 20 ≤ 10 ^ k := Nat.pow_le_pow_right (by omega) (by omega)
      have : 1 * 10 ^ k ≤ (c.toNat - 48) * 10 ^ k := Nat.mul_le_mul_right _ (by omega)
      simp only [ullongMax] at hmax
      omega
    omega
  have hdigits : ∀ (negative : Prop) [Decidable negative] (c : UInt8) (p : Bytes) (plen : Nat), 49 ≤ c →
      plen ≤ 2 → (match string2ll.go slen p plen (c.toNat - 48) with
        | none => none
        | some (v, plen) =>
          if plen < slen then
            none
          else if negative then
            if v > llongMax + 1 then none else some (-(v : Int))
          else
            if v > llongMax then none else some (v : Int)) = none := by
    intro negative _ c p plen hc hplen
    split
    . rfl
    . next v plen' hres => rw [if_pos (hgo c p plen hc hplen v plen' hres)]
  cases s with
  | nil => simp [string2ll]
  | cons b s =>
    have hslen : slen ≠ 0 ∧ slen ≠ 1 := by omega
    by_cases hneg : b = 45
    . cases s with
      | nil => simp [string2ll, hneg]
      | cons c s =>
        have := hdigits True c s 2
        by_cases hc : 49 ≤ c
        . simp_all [string2ll]
        . simp [string2ll, hneg, hslen, hc]
    . have := hdigits False b s 1
      by_cases hb : 49 ≤ b
      . simp_all [string2ll]
      . simp [string2ll, hneg, hslen, hb]

end Kids
