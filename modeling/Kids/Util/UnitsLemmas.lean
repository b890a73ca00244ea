import Kids.Util.String2ll
import Kids.Util.Units

/-!
What a text states as a size or a time, and when `ParseSize` and `ParseTime` read just that.
-/

namespace Kids

open Bytes

def int32Bound : Int := 2 ^ 31

theorem int32_eq_self (hpos : 0 ≤ x) (hfits : x < int32Bound) : int32 x = x := by
  unfold int32Bound at hfits
  unfold int32
  rw [Int.bmod_eq_iff (by decide)]
  exact ⟨by omega, by omega, ⟨0, by omega⟩⟩

theorem int32_lt (x : Int) : int32 x < int32Bound :=
  Int.bmod_lt (by decide)

theorem int32_eq_zero_iff (x : Int) : int32 x = 0 ↔ x % 2 ^ 32 = 0 := by
  unfold int32
  rw [← Int.dvd_iff_bmod_eq_zero]
  apply Int.dvd_iff_emod_eq_zero

-- the text that a number begins with, without a wrap, and what follows it
def number (str : Bytes) : Nat :=
  digitsValue 0 ((cstr str).takeWhile isDigit)

def unitText (str : Bytes) : Bytes :=
  (cstr str).dropWhile isDigit

def unitFactor (units : List (List String × Int)) (unit : Bytes) : Option Int :=
  (units.find? fun u => u.1.any fun name => strcaseeq unit (ofString name)).map (·.2)

theorem leadingNumber_eq (t : Nat) (s : Bytes)
    : leadingNumber (int32 t) s = (int32 (digitsValue t (s.takeWhile isDigit)), s.dropWhile isDigit) := by
  induction s generalizing t with
  | nil => rfl
  | cons b s ih =>
    unfold leadingNumber
    split
    . next hdigit =>
      rw [List.takeWhile_cons_of_pos hdigit, List.dropWhile_cons_of_pos hdigit, digitsValue_cons, ← ih]
      -- the wraps before the last one do not matter
      have hcast : ((t * 10 + (b.toNat - 48) : Nat) : Int) = t * 10 + (b.toNat - 48) := by
        have hge : 48 ≤ b.toNat := by
          simp only [isDigit, Bool.and_eq_true, decide_eq_true_eq] at hdigit
          exact UInt8.le_iff_toNat_le.mp hdigit.1
        omega
      have hwrap : int32 (int32 t * 10 + (b.toNat - 48)) = int32 (t * 10 + (b.toNat - 48)) := by
        unfold int32
        rw [← Int.bmod_add_bmod, Int.bmod_mul_bmod, Int.bmod_add_bmod]
      rw [hwrap, hcast]
    . next hdigit =>
      rw [List.takeWhile_cons_of_neg hdigit, List.dropWhile_cons_of_neg hdigit]
      rfl

theorem parseUnits_eq (units : List (List String × Int)) (str : Bytes)
    : parseUnits units str = (unitFactor units (unitText str)).map fun factor => int32 (number str * factor) := by
  have hnumber : leadingNumber 0 (cstr str) = (int32 (number str), unitText str) := leadingNumber_eq 0 (cstr str)
  unfold parseUnits unitFactor
  rw [hnumber]
  dsimp only
  cases units.find? fun u => u.1.any fun name => strcaseeq (unitText str) (ofString name) with
  | none => rfl
  | some u =>
    apply congrArg some
    apply Int.bmod_mul_bmod

/--
The text is one or more digits and one of the units, in whatever case, and this is the value that it states.
-/
def States (units : List (List String × Int)) (str : Bytes) (value : Int) : Prop :=
  ∃ digits unit names name factor, cstr str = digits ++ unit ∧ digits ≠ [] ∧ (∀ b ∈ digits, isDigit b = true) ∧
    (names, factor) ∈ units ∧ name ∈ names ∧ strcaseeq unit (ofString name) = true ∧
    value = digitsValue 0 digits * factor

/--
A table whose units do not begin with a digit and can be told apart.
-/
structure UnitTable (units : List (List String × Int)) : Prop where
  starts : ∀ u ∈ units, ∀ name ∈ u.1, ((cstr (ofString name)).map tolower).head?.map isDigit = some false
  agree : ∀ u ∈ units, ∀ v ∈ units, ∀ name ∈ u.1, ∀ name' ∈ v.1,
    (cstr (ofString name)).map tolower = (cstr (ofString name')).map tolower → u.2 = v.2
  pos : ∀ u ∈ units, 0 < u.2

theorem unitTable_time : UnitTable timeUnits where
  starts := by decide
  agree := by decide
  pos := by decide

theorem unitTable_size : UnitTable sizeUnits where
  starts := by decide
  agree := by decide
  pos := by decide

theorem tolower_of_isDigit (h : isDigit b = true) : tolower b = b := by
  simp only [isDigit, Bool.and_eq_true, decide_eq_true_eq] at h
  unfold tolower
  apply if_neg
  intro hupper
  exact absurd (UInt8.le_trans hupper.1 h.2) (by decide)

theorem strcaseeq_iff (s t : Bytes) : strcaseeq s t = true ↔ (cstr s).map tolower = (cstr t).map tolower := by
  unfold strcaseeq
  apply beq_iff_eq

variable {units : List (List String × Int)}

theorem takeWhile_unit (h : UnitTable units) (hu : u ∈ units) (hname : name ∈ u.1)
    (heq : strcaseeq unit (ofString name) = true) : unit.takeWhile isDigit = [] := by
  have hstarts := h.starts u hu name hname
  rw [strcaseeq_iff] at heq
  rw [← heq] at hstarts
  cases unit with
  | nil => rfl
  | cons b unit =>
    apply List.takeWhile_cons_of_neg
    intro hdigit
    have hnul : b ≠ nul := by
      rintro rfl
      cases hdigit
    unfold cstr at hstarts
    rw [List.takeWhile_cons_of_pos (by simpa using hnul), List.map_cons, tolower_of_isDigit hdigit, List.head?_cons,
      Option.map_some, hdigit] at hstarts
    cases hstarts

theorem unitFactor_of_mem (h : UnitTable units) (hu : u ∈ units) (hname : name ∈ u.1)
    (heq : strcaseeq unit (ofString name) = true) : unitFactor units unit = some u.2 := by
  unfold unitFactor
  cases hfind : units.find? fun u => u.1.any fun name => strcaseeq unit (ofString name) with
  | none =>
    rw [List.find?_eq_none] at hfind
    exact absurd (List.any_eq_true.mpr ⟨name, hname, heq⟩) (hfind u hu)
  | some v =>
    have hmatch := List.find?_some hfind
    obtain ⟨name', hname', heq'⟩ := List.any_eq_true.mp hmatch
    rw [strcaseeq_iff] at heq heq'
    have hfactor := h.agree v (List.mem_of_find?_eq_some hfind) u hu name' hname' name hname (heq'.symm.trans heq)
    rw [Option.map_some, hfactor]

theorem exists_of_unitFactor (h : unitFactor units unit = some factor)
    : ∃ names name, (names, factor) ∈ units ∧ name ∈ names ∧ strcaseeq unit (ofString name) = true := by
  obtain ⟨⟨names, factor'⟩, hfind, rfl⟩ := Option.map_eq_some_iff.mp h
  have hmatch := List.find?_some hfind
  obtain ⟨name, hname, heq⟩ := List.any_eq_true.mp hmatch
  exact ⟨names, name, List.mem_of_find?_eq_some hfind, hname, heq⟩

/--
There is only one way to read the text.
-/
theorem states_iff (h : UnitTable units) (str : Bytes) (value : Int) : States units str value ↔
    (cstr str).takeWhile isDigit ≠ [] ∧ ∃ factor, unitFactor units (unitText str) = some factor ∧ value = number str * factor := by
  constructor
  . rintro ⟨digits, unit, names, name, factor, hsplit, hne, hdigits, hmem, hname, heq, rfl⟩
    have htake : (cstr str).takeWhile isDigit = digits := by
      rw [hsplit, List.takeWhile_append_of_pos hdigits, takeWhile_unit h hmem hname heq, List.append_nil]
    have hunit : unitText str = unit := by
      have hwhole := List.takeWhile_append_dropWhile (p := isDigit) (l := cstr str)
      rw [htake, hsplit] at hwhole
      unfold unitText
      rw [hsplit]
      apply List.append_cancel_left hwhole
    rw [htake, hunit]
    refine ⟨hne, factor, unitFactor_of_mem h hmem hname heq, ?_⟩
    unfold number
    rw [htake]
  . rintro ⟨hne, factor, hfactor, rfl⟩
    obtain ⟨names, name, hmem, hname, heq⟩ := exists_of_unitFactor hfactor
    refine ⟨_, _, names, name, factor, (List.takeWhile_append_dropWhile).symm, hne, ?_, hmem, hname, heq, rfl⟩
    intro b hb
    apply List.mem_takeWhile_imp hb

/--
Where the digits are followed by a unit, there are digits, and the product is an `int`.
-/
def Within (units : List (List String × Int)) (str : Bytes) : Prop :=
  ∀ factor, unitFactor units (unitText str) = some factor →
    (cstr str).takeWhile isDigit ≠ [] ∧ number str * factor < int32Bound

theorem parseUnits_within (h : UnitTable units) (hwithin : Within units str) (hparse : parseUnits units str = some v)
    : States units str v := by
  rw [parseUnits_eq] at hparse
  obtain ⟨factor, hfactor, rfl⟩ := Option.map_eq_some_iff.mp hparse
  obtain ⟨hne, hfits⟩ := hwithin factor hfactor
  obtain ⟨names, name, hmem, -⟩ := exists_of_unitFactor hfactor
  have hpos := h.pos _ hmem
  rw [int32_eq_self _ hfits]
  . exact (states_iff h str _).mpr ⟨hne, factor, hfactor, rfl⟩
  . apply Int.mul_nonneg
    . apply Int.natCast_nonneg
    . exact Int.le_of_lt hpos

theorem within_of_states (h : UnitTable units) (hparse : ∀ v, parseUnits units str = some v → States units str v)
    : Within units str := by
  intro factor hfactor
  have hread := hparse (int32 (number str * factor)) (by rw [parseUnits_eq, hfactor, Option.map_some])
  obtain ⟨hne, factor', hfactor', heq⟩ := (states_iff h str _).mp hread
  obtain rfl := Option.some.inj (hfactor.symm.trans hfactor')
  refine ⟨hne, ?_⟩
  rw [← heq]
  apply int32_lt

/--
What the function stores through its pointer.
-/
def into (value : Int) : Option Int → Bool × Int
  | none => (false, value)
  | some v => (true, v)

structure ReadsExactly (units : List (List String × Int)) (parse : Bytes → Option Int) (str : Bytes) : Prop where
  sound : ∀ value v, into value (parse str) = (true, v) → States units str v
  rejects : ∀ value v, States units str v → int32Bound ≤ v → (into value (parse str)).1 = false
  unchanged : ∀ value, (into value (parse str)).1 = false → (into value (parse str)).2 = value

theorem readsExactly_iff (h : UnitTable units) (str : Bytes)
    : ReadsExactly units (parseUnits units) str ↔ Within units str := by
  constructor
  . intro hreads
    apply within_of_states h
    intro v hv
    apply hreads.sound 0
    rw [hv]
    rfl
  . intro hwithin
    constructor
    . intro value v hinto
      cases hparse : parseUnits units str with
      | none =>
        rw [hparse] at hinto
        cases hinto
      | some w =>
        rw [hparse] at hinto
        cases hinto
        apply parseUnits_within h hwithin hparse
    . -- a value that is too large is not stated at all
      intro value v hstates hlarge
      obtain ⟨-, factor, hfactor, rfl⟩ := (states_iff h str v).mp hstates
      have hfits := (hwithin factor hfactor).2
      omega
    . intro value hfalse
      cases hparse : parseUnits units str with
      | none => rfl
      | some w =>
        rw [hparse] at hfalse
        cases hfalse

end Kids
