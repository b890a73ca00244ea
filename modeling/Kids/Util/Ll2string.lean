import Kids.Util.String2ll

/-!
`string2ll` and `ll2string` of `util.cc` on 64-bit words, and that they are inverse to each other. In
`string2ll` an unsigned sum or product that does not fit is an outcome of its own.
-/

namespace Kids

open Bytes

def mulExact (v w : UInt64) : Option UInt64 :=
  if v.toNat * w.toNat ≤ ullongMax then some (v * w) else none

def addExact (v w : UInt64) : Option UInt64 :=
  if v.toNat + w.toNat ≤ ullongMax then some (v + w) else none

def string2ll.goWord (slen : Nat) (p : Bytes) (plen : Nat) (v : UInt64) : Option (Option (UInt64 × Nat)) :=
  match p with
  | [] => some (some (v, plen))
  | c :: p =>
    if plen < slen ∧ isDigit c then
      if v > 18446744073709551615 / 10 then
        some none
      else
        match mulExact v 10 with
        | none => none
        | some v =>
          if v > 18446744073709551615 - (c - 48).toUInt64 then
            some none
          else
            match addExact v (c - 48).toUInt64 with
            | none => none
            | some v => goWord slen p (plen + 1) v
    else
      some (some (v, plen))

def string2llWord (s : Bytes) (slen : Nat) : Option (Option Int64) :=
  if slen = 0 then
    some none
  else if slen = 1 ∧ s.head? = some 48 then
    some (some 0)
  else
    let negative := s.head? = some 45
    let p := if negative then s.drop 1 else s
    let plen := if negative then 1 else 0
    if negative ∧ plen = slen then
      some none
    else
      match p with
      | [] => some none
      | c :: p =>
        if 49 ≤ c ∧ c ≤ 57 then
          match string2ll.goWord slen p (plen + 1) (c - 48).toUInt64 with
          | none => none
          | some none => some none
          | some (some (v, plen)) =>
            if plen < slen then
              some none
            else if negative then
              if v > 9223372036854775808 then some none else some (some (-v).toInt64)
            else
              if v > 9223372036854775807 then some none else some (some v.toInt64)
        else
          if c = 48 ∧ slen = 1 then some (some 0) else some none

/--
The loop of `ll2string` that fills its `buf` from the end; `acc` is what is there already.
-/
def ll2string.digits (v : UInt64) (acc : Bytes) : Bytes :=
  let acc := (48 + v % 10).toUInt8 :: acc
  if v / 10 = 0 then acc else digits (v / 10) acc
termination_by v.toNat
decreasing_by
  next h =>
    have hne : v.toNat / 10 ≠ 0 := by
      intro heq
      apply h
      apply UInt64.toNat_inj.mp
      simpa using heq
    simp only [UInt64.toNat_div, UInt64.reduceToNat]
    omega

-- the bytes from `p` to the end of `buf`
def ll2string.text (value : Int64) : Bytes :=
  let v := if value < 0 then (-value).toUInt64 else value.toUInt64
  let p := digits v []
  if value < 0 then 45 :: p else p

/--
What `ll2string` copies to `s` before its NUL; the length of it is what it returns.
-/
def ll2string (len : Nat) (value : Int64) : Bytes :=
  if len = 0 then
    []
  else
    let p := ll2string.text value
    let l := if p.length + 1 > len then len - 1 else p.length
    p.take l

/--
The decimal numerals that `string2ll` is meant to read, with their value.
-/
def IsDecimal (s : Bytes) (v : Int) : Prop :=
  (s = [48] ∧ v = 0) ∨
    ∃ d ds, 49 ≤ d ∧ d ≤ 57 ∧ (∀ e ∈ ds, isDigit e = true) ∧
      ((s = d :: ds ∧ v = digitsValue 0 (d :: ds)) ∨ (s = 45 :: d :: ds ∧ v = -(digitsValue 0 (d :: ds) : Int)))

section Word

theorem toNat_digit {c : UInt8} (h : 48 ≤ c) : (c - 48).toUInt64.toNat = c.toNat - 48 := by
  rw [UInt8.toNat_toUInt64, UInt8.toNat_sub_of_le _ _ h]
  rfl

theorem mulGuard_iff (v : UInt64) : v > 18446744073709551615 / 10 ↔ v.toNat > ullongMax / 10 := by
  simp [UInt64.lt_iff_toNat_lt, ullongMax]

theorem addGuard_iff (v w : UInt64) : v > 18446744073709551615 - w ↔ v.toNat > ullongMax - w.toNat := by
  have hle : w ≤ 18446744073709551615 := by
    rw [UInt64.le_iff_toNat_le]
    exact Nat.le_of_lt_succ w.toNat_lt
  rw [gt_iff_lt, UInt64.lt_iff_toNat_lt, UInt64.toNat_sub_of_le _ _ hle]
  rfl

theorem mulExact_eq (v w : UInt64) (h : v.toNat * w.toNat ≤ ullongMax)
    : ∃ x, mulExact v w = some x ∧ x.toNat = v.toNat * w.toNat := by
  refine ⟨v * w, if_pos h, ?_⟩
  rw [UInt64.toNat_mul]
  simp only [ullongMax] at h
  apply Nat.mod_eq_of_lt
  omega

theorem addExact_eq (v w : UInt64) (h : v.toNat + w.toNat ≤ ullongMax)
    : ∃ x, addExact v w = some x ∧ x.toNat = v.toNat + w.toNat := by
  refine ⟨v + w, if_pos h, ?_⟩
  rw [UInt64.toNat_add]
  simp only [ullongMax] at h
  apply Nat.mod_eq_of_lt
  omega

-- the guards of the source keep the sum and the product exact
theorem string2ll.goWord_eq (slen : Nat) (p : Bytes) (plen : Nat) (v : UInt64)
    : ∃ r, goWord slen p plen v = some r ∧ go slen p plen v.toNat = r.map (fun (v, plen) => (v.toNat, plen)) := by
  induction p generalizing plen v with
  | nil => exact ⟨_, rfl, rfl⟩
  | cons c p ih =>
    simp only [goWord, go]
    by_cases hdigit : plen < slen ∧ isDigit c
    . have hc : 48 ≤ c := by
        simp only [isDigit, Bool.and_eq_true, decide_eq_true_eq] at hdigit
        exact hdigit.2.1
      rw [if_pos hdigit, if_pos hdigit]
      by_cases hmul : v.toNat > ullongMax / 10
      . rw [if_pos ((mulGuard_iff v).mpr hmul), if_pos hmul]
        exact ⟨_, rfl, rfl⟩
      . rw [if_neg (mt (mulGuard_iff v).mp hmul), if_neg hmul]
        obtain ⟨x, hx, hxv⟩ := mulExact_eq v 10 (by simp only [UInt64.reduceToNat]; omega)
        simp only [UInt64.reduceToNat] at hxv
        rw [hx, ← hxv, ← toNat_digit hc]
        dsimp only
        by_cases hadd : x.toNat > ullongMax - (c - 48).toUInt64.toNat
        . rw [if_pos ((addGuard_iff x _).mpr hadd), if_pos hadd]
          exact ⟨_, rfl, rfl⟩
        . have hlt := (c - 48).toUInt64.toNat_lt
          rw [if_neg (mt (addGuard_iff x _).mp hadd), if_neg hadd]
          obtain ⟨y, hy, hyv⟩ := addExact_eq x (c - 48).toUInt64 (by simp only [ullongMax] at *; omega)
          rw [hy, ← hyv]
          exact ih (plen + 1) y
    . rw [if_neg hdigit, if_neg hdigit]
      exact ⟨_, rfl, rfl⟩

theorem ofInt_toNat (v : UInt64) : Int64.ofInt (v.toNat : Int) = v.toInt64 := by
  apply Int64.toBitVec_inj.mp
  rw [Int64.toBitVec_ofInt, BitVec.ofInt_natCast]
  exact (BitVec.ofNat_toNat 64 v.toBitVec).trans (BitVec.setWidth_eq v.toBitVec)

theorem ofInt_neg_toNat (v : UInt64) : Int64.ofInt (-(v.toNat : Int)) = (-v).toInt64 := by
  rw [Int64.ofInt_neg, ofInt_toNat]
  rfl

theorem llongGuard_iff (v : UInt64) : v > 9223372036854775807 ↔ v.toNat > llongMax := by
  simp [UInt64.lt_iff_toNat_lt, llongMax]

theorem llongMinGuard_iff (v : UInt64) : v > 9223372036854775808 ↔ v.toNat > llongMax + 1 := by
  simp [UInt64.lt_iff_toNat_lt, llongMax]

theorem string2llWord_eq (s : Bytes) (slen : Nat)
    : string2llWord s slen = some ((string2ll s slen).map Int64.ofInt) := by
  simp only [string2llWord, string2ll]
  generalize (if s.head? = some 45 then s.drop 1 else s) = p
  generalize (if s.head? = some 45 then 1 else 0) = plen
  split
  . rfl
  split
  . rfl
  split
  . rfl
  cases p with
  | nil => rfl
  | cons c p =>
    simp only
    split
    . next hc =>
      have hc48 : 48 ≤ c := UInt8.le_trans (by decide) hc.1
      obtain ⟨r, hword, hnat⟩ := string2ll.goWord_eq slen p (plen + 1) (c - 48).toUInt64
      rw [hword, ← toNat_digit hc48, hnat]
      cases r with
      | none => rfl
      | some r =>
        obtain ⟨v, n⟩ := r
        simp only [Option.map_some, llongGuard_iff, llongMinGuard_iff]
        split
        . rfl
        split
        . split
          . rfl
          . rw [Option.map_some, ofInt_neg_toNat]
        . split
          . rfl
          . rw [Option.map_some, ofInt_toNat]
    . split
      . rfl
      . rfl

end Word

section Accepted

theorem string2ll.go_all (h : go slen p plen v = some (v', n)) (hlen : plen + p.length = slen) (hn : ¬n < slen)
    : (∀ e ∈ p, isDigit e = true) ∧ v' = digitsValue v p := by
  induction p generalizing plen v with
  | nil =>
    cases h
    exact ⟨by simp, rfl⟩
  | cons c p ih =>
    simp only [List.length_cons] at hlen
    simp only [go] at h
    split at h
    . next hc =>
      split at h
      . cases h
      . split at h
        . cases h
        . obtain ⟨hdigits, hv⟩ := ih h (by omega)
          rw [digitsValue_cons]
          exact ⟨List.forall_mem_cons.mpr ⟨hc.2, hdigits⟩, hv⟩
    . cases h
      omega

theorem digitsValue_zero_cons (d : UInt8) (ds : Bytes) : digitsValue 0 (d :: ds) = digitsValue (d.toNat - 48) ds := by
  rw [digitsValue_cons, Nat.zero_mul, Nat.zero_add]

-- what comes after the first digit, for either sign
theorem string2ll.of_tail {max : Nat} {f : Nat → Int}
    (h : (match go slen p plen v with
      | none => none
      | some (v, plen) => if plen < slen then none else if max < v then none else some (f v)) = some x)
    (hlen : plen + p.length = slen)
    : (∀ e ∈ p, isDigit e = true) ∧ digitsValue v p ≤ max ∧ x = f (digitsValue v p) := by
  split at h
  . cases h
  . next v' n hgo =>
    split at h
    . cases h
    . next hn =>
      obtain ⟨hdigits, rfl⟩ := go_all hgo hlen hn
      split at h
      . cases h
      . next hmax =>
        cases h
        exact ⟨hdigits, Nat.le_of_not_lt hmax, rfl⟩

theorem isDecimal_of_string2ll (h : string2ll s s.length = some v)
    : IsDecimal s v ∧ -2 ^ 63 ≤ v ∧ v < 2 ^ 63 := by
  cases s with
  | nil => simp [string2ll] at h
  | cons b s =>
    by_cases hneg : b = 45
    . subst hneg
      have hminus : ¬(45 : UInt8) = 48 := by decide
      cases s with
      | nil => simp [string2ll] at h
      | cons d ds =>
        simp only [string2ll, List.length_cons, Nat.add_eq_zero_iff, Nat.succ_ne_self, and_false, and_self, if_false,
          Nat.add_eq_right, List.length_eq_zero_iff, List.head?_cons, Option.some.injEq, if_true, hminus,
          Nat.right_eq_add, List.drop_succ_cons, List.drop_zero, Nat.reduceAdd, gt_iff_lt,
          Option.ite_none_right_eq_some] at h
        obtain ⟨hd, h⟩ := h
        obtain ⟨hdigits, hmax, rfl⟩ := string2ll.of_tail (f := fun v => -(v : Int)) h (by omega)
        rw [← digitsValue_zero_cons] at hmax ⊢
        refine ⟨Or.inr ⟨d, ds, hd.1, hd.2, hdigits, Or.inr ⟨rfl, rfl⟩⟩, ?_⟩
        simp only [llongMax] at hmax
        omega
    . simp only [string2ll, List.length_cons, Nat.add_eq_zero_iff, List.length_eq_zero_iff, Nat.succ_ne_self,
        and_false, if_false, Nat.add_eq_right, List.head?_cons, Option.some.injEq, hneg, Nat.right_eq_add, and_self,
        Nat.zero_add, gt_iff_lt] at h
      split at h
      . next hzero =>
        cases h
        obtain ⟨rfl, rfl⟩ := hzero
        exact ⟨Or.inl ⟨rfl, rfl⟩, by decide⟩
      . next hzero =>
        split at h
        . next hd =>
          obtain ⟨hdigits, hmax, rfl⟩ := string2ll.of_tail (f := fun v => (v : Int)) h (by omega)
          rw [← digitsValue_zero_cons] at hmax ⊢
          refine ⟨Or.inr ⟨b, s, hd.1, hd.2, hdigits, Or.inl ⟨rfl, rfl⟩⟩, ?_⟩
          simp only [llongMax] at hmax
          omega
        . rw [if_neg (fun hb => hzero ⟨hb.2, hb.1⟩)] at h
          cases h

theorem string2ll_of_isDecimal (h : IsDecimal s v) (hge : -2 ^ 63 ≤ v) (hlt : v < 2 ^ 63)
    : string2ll s s.length = some v := by
  rcases h with ⟨rfl, rfl⟩ | ⟨d, ds, hd49, hd57, hdigits, ⟨rfl, rfl⟩ | ⟨rfl, rfl⟩⟩
  . rfl
  . have hne48 : d ≠ 48 := by
      rintro rfl
      exact absurd hd49 (by decide)
    have hne45 : d ≠ 45 := by
      rintro rfl
      exact absurd hd49 (by decide)
    rw [digitsValue_zero_cons] at hge hlt ⊢
    have hgo := string2ll.go_digits (ds.length + 1) ds [] 1 (d.toNat - 48) hdigits (by omega)
      (by simp only [ullongMax]; omega)
    rw [List.append_nil] at hgo
    have hmax : ¬digitsValue (d.toNat - 48) ds > llongMax := by
      simp only [llongMax]
      omega
    simp [string2ll, hne48, hne45, hd49, hd57, hgo, hmax]
  . rw [digitsValue_zero_cons] at hge hlt ⊢
    have hgo := string2ll.go_digits (ds.length + 2) ds [] 2 (d.toNat - 48) hdigits (by omega)
      (by simp only [ullongMax]; omega)
    rw [List.append_nil] at hgo
    have hmax : ¬digitsValue (d.toNat - 48) ds > llongMax + 1 := by
      simp only [llongMax]
      omega
    simp [string2ll, hd49, hd57, hgo, hmax]

theorem string2ll_iff (s : Bytes) (v : Int)
    : string2ll s s.length = some v ↔ IsDecimal s v ∧ -2 ^ 63 ≤ v ∧ v < 2 ^ 63 :=
  ⟨isDecimal_of_string2ll, fun ⟨h, hge, hlt⟩ => string2ll_of_isDecimal h hge hlt⟩

end Accepted

section Printed

theorem toInt_cond (value : Int64)
    : value.toInt = if 2 * value.toUInt64.toNat < 2 ^ 64 then (value.toUInt64.toNat : Int)
        else (value.toUInt64.toNat : Int) - 2 ^ 64 :=
  BitVec.toInt_eq_toNat_cond value.toBitVec

theorem lt_zero_iff (value : Int64) : value < 0 ↔ value.toInt < 0 :=
  Int64.lt_iff_toInt_lt

-- also for the least value, which is its own negation
theorem toNat_negated {value : Int64} (h : value < 0) : (-value).toUInt64.toNat = value.toInt.natAbs := by
  have hlt := value.toUInt64.toNat_lt
  have hcond := toInt_cond value
  rw [lt_zero_iff] at h
  rw [Int64.toUInt64_neg, UInt64.toNat_neg, UInt64.size]
  split at hcond
  . omega
  . omega

theorem toNat_kept {value : Int64} (h : ¬value < 0) : value.toUInt64.toNat = value.toInt.natAbs := by
  have hlt := value.toUInt64.toNat_lt
  have hcond := toInt_cond value
  rw [lt_zero_iff] at h
  split at hcond
  . omega
  . omega

theorem toUInt8_digit (v : UInt64) : (48 + v % 10).toUInt8 = UInt8.ofNat (48 + v.toNat % 10) := by
  apply UInt8.toNat_inj.mp
  rw [UInt64.toNat_toUInt8, UInt8.toNat_ofNat', UInt64.toNat_add, UInt64.toNat_mod]
  simp only [UInt64.reduceToNat]
  omega

theorem div_ten_eq_zero (v : UInt64) : v / 10 = 0 ↔ v.toNat < 10 := by
  rw [← UInt64.toNat_inj, UInt64.toNat_div]
  simp only [UInt64.reduceToNat]
  omega

theorem ll2string.digits_eq (v : UInt64) (acc : Bytes) : digits v acc = decimal v.toNat ++ acc := by
  fun_induction digits v acc with
  | case1 v acc acc' h =>
    rw [decimal_eq, if_pos ((div_ten_eq_zero v).mp h), List.nil_append, List.singleton_append, ← toUInt8_digit]
  | case2 v acc acc' h ih =>
    rw [ih, decimal_eq v.toNat, if_neg (mt (div_ten_eq_zero v).mpr h), List.append_assoc, List.singleton_append,
      ← toUInt8_digit, UInt64.toNat_div]
    rfl

theorem ll2string.text_eq (value : Int64)
    : text value = if value.toInt < 0 then 45 :: decimal value.toInt.natAbs else decimal value.toInt.natAbs := by
  unfold text
  simp only [digits_eq, List.append_nil]
  by_cases h : value < 0
  . rw [if_pos h, if_pos h, if_pos ((lt_zero_iff value).mp h), toNat_negated h]
  . rw [if_neg h, if_neg h, if_neg (mt (lt_zero_iff value).mpr h), toNat_kept h]

theorem decimal_digitsValue {ds : Bytes} (hv : 0 < v) (hdigits : ∀ e ∈ ds, isDigit e = true)
    : decimal (digitsValue v ds) = decimal v ++ ds := by
  induction ds generalizing v with
  | nil => simp
  | cons d ds ih =>
    have hd := hdigits d (List.mem_cons_self)
    simp only [isDigit, Bool.and_eq_true, decide_eq_true_eq, UInt8.le_iff_toNat_le, UInt8.reduceToNat] at hd
    have hchar : UInt8.ofNat (48 + (d.toNat - 48)) = d := by
      rw [Nat.add_sub_cancel' hd.1, UInt8.ofNat_toNat]
    rw [digitsValue_cons, ih (by omega) (fun e he => hdigits e (List.mem_cons_of_mem d he)), decimal_eq,
      if_neg (by omega), List.append_assoc, List.singleton_append]
    have hdiv : (v * 10 + (d.toNat - 48)) / 10 = v := by omega
    have hmod : (v * 10 + (d.toNat - 48)) % 10 = d.toNat - 48 := by omega
    rw [hdiv, hmod, hchar]

theorem decimal_digitsValue_cons {d : UInt8} {ds : Bytes} (hge : 49 ≤ d) (hle : d ≤ 57)
    (hdigits : ∀ e ∈ ds, isDigit e = true)
    : decimal (digitsValue 0 (d :: ds)) = d :: ds := by
  rw [UInt8.le_iff_toNat_le] at hge hle
  simp only [UInt8.reduceToNat] at hge hle
  have hchar : UInt8.ofNat (48 + (d.toNat - 48)) = d := by
    rw [Nat.add_sub_cancel' (by omega), UInt8.ofNat_toNat]
  rw [digitsValue_zero_cons, decimal_digitsValue (by omega) hdigits, decimal, if_pos (by omega), hchar]
  rfl

theorem ll2string.text_of_isDecimal (h : IsDecimal s v) (hge : -2 ^ 63 ≤ v) (hlt : v < 2 ^ 63)
    : text (Int64.ofInt v) = s := by
  rw [text_eq, Int64.toInt_ofInt_of_le hge hlt]
  rcases h with ⟨rfl, rfl⟩ | ⟨d, ds, hd49, hd57, hdigits, ⟨rfl, rfl⟩ | ⟨rfl, rfl⟩⟩
  . rw [if_neg (by omega)]
    simp [decimal]
  . rw [if_neg (by omega), Int.natAbs_natCast, decimal_digitsValue_cons hd49 hd57 hdigits]
  . have hpos : 0 < digitsValue 0 (d :: ds) := by
      rw [digitsValue_zero_cons]
      have := le_digitsValue (d.toNat - 48) ds
      rw [UInt8.le_iff_toNat_le] at hd49
      simp only [UInt8.reduceToNat] at hd49
      omega
    rw [if_pos (by omega), Int.natAbs_neg, Int.natAbs_natCast, decimal_digitsValue_cons hd49 hd57 hdigits]

theorem decimal_numeral (n : Nat) (h : 0 < n)
    : ∃ d ds, decimal n = d :: ds ∧ 49 ≤ d ∧ d ≤ 57 ∧ (∀ e ∈ ds, isDigit e = true) ∧ digitsValue 0 (d :: ds) = n := by
  obtain ⟨d, ds, hd, hge, hle⟩ := decimal_head n h
  have hvalue := digitsValue_decimal n
  have hdigits := isDigit_of_mem_decimal n
  rw [hd] at hvalue hdigits
  exact ⟨d, ds, hd, hge, hle, fun e he => hdigits e (List.mem_cons_of_mem d he), hvalue⟩

theorem ll2string.isDecimal_text (value : Int64) : IsDecimal (text value) value.toInt := by
  rw [text_eq]
  by_cases hzero : value.toInt = 0
  . left
    simp [hzero, decimal]
  . obtain ⟨d, ds, hd, hge, hle, hdigits, hvalue⟩ := decimal_numeral value.toInt.natAbs (by omega)
    right
    refine ⟨d, ds, hge, hle, hdigits, ?_⟩
    rw [hd, hvalue]
    split
    . right
      exact ⟨rfl, by omega⟩
    . left
      exact ⟨rfl, by omega⟩

theorem ll2string.length_text_le (value : Int64) : (text value).length ≤ 20 := by
  have hge := Int64.le_toInt value
  have hlt := Int64.toInt_lt value
  have hlength := decimal_length_le value.toInt.natAbs 18 (by omega)
  rw [text_eq]
  split
  . rw [List.length_cons]
    omega
  . omega

theorem ll2string_eq_text (h : (ll2string.text value).length < len) : ll2string len value = ll2string.text value := by
  unfold ll2string
  rw [if_neg (by omega)]
  dsimp only
  rw [if_neg (by omega), List.take_length]

end Printed

/--
On 64-bit words `string2ll` computes without an overflow what it computes on unbounded numbers. It accepts exactly
the decimal numerals of the signed 64-bit numbers and returns their value; what `ll2string` prints into a buffer
with room for it and its NUL, which is never more than 21 bytes, reads back as the same number, and what
`string2ll` accepts is printed back as the same bytes.
-/
theorem decimal_exact
    : (∀ s slen, string2llWord s slen = some ((string2ll s slen).map Int64.ofInt)) ∧
      (∀ s v, string2ll s s.length = some v ↔ IsDecimal s v ∧ -2 ^ 63 ≤ v ∧ v < 2 ^ 63) ∧
      (∀ (value : Int64) len, (ll2string.text value).length < len →
        string2ll (ll2string len value) (ll2string len value).length = some value.toInt) ∧
      (∀ value, (ll2string.text value).length < 21) ∧
      (∀ s v len, string2ll s s.length = some v → s.length < len → ll2string len (Int64.ofInt v) = s) := by
  refine ⟨string2llWord_eq, string2ll_iff, ?_, ?_, ?_⟩
  . intro value len hlen
    rw [ll2string_eq_text hlen]
    apply string2ll_of_isDecimal (ll2string.isDecimal_text value)
    . exact Int64.le_toInt value
    . exact Int64.toInt_lt value
  . intro value
    exact Nat.lt_succ_of_le (ll2string.length_text_le value)
  . intro s v len hs hlen
    obtain ⟨h, hge, hlt⟩ := isDecimal_of_string2ll hs
    have htext := ll2string.text_of_isDecimal h hge hlt
    rw [ll2string_eq_text (by rw [htext]; exact hlen), htext]

end Kids
