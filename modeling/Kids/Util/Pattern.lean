import Kids.Lib.Wildcard
import Kids.Util.StringMatch

/-!
What a pattern says: its tokens, and the strings that it stands for.
-/

namespace Kids

open Bytes Wildcard StringMatch

inductive ClassItem
  | escaped (b : UInt8)
  | range (x y : UInt8)
  | single (b : UInt8)
  deriving DecidableEq

/--
`lit` is a byte that stands for itself, with or without a backslash.
-/
inductive PatternToken
  | star
  | any
  | set (no : Bool) (items : List ClassItem)
  | lit (escaped : Bool) (b : UInt8)
  deriving DecidableEq

/--
How a pattern ends: outside of a class, in a class that is not closed, or in a class after a backslash.
-/
inductive PatternEnd
  | complete
  | unclosed
  | broken
  deriving DecidableEq

namespace Pattern

def cons (t : PatternToken) (r : List PatternToken × PatternEnd) : List PatternToken × PatternEnd :=
  (t :: r.1, r.2)

/--
The tokens of a pattern. Inside of a class, the first argument has its items so far.
-/
def scan : Option (Bool × List ClassItem) → Bytes → List PatternToken × PatternEnd
  | none, [] => ([], .complete)
  | none, b :: r =>
    if b = star then
      cons .star (scan none r)
    else if b = question then
      cons .any (scan none r)
    else if b = lbracket then
      match r with
      | [] => scan (some (false, [])) []
      | c :: rest => if c = caret then scan (some (true, [])) rest else scan (some (false, [])) (c :: rest)
    else if b = backslash then
      match r with
      | [] => cons (.lit false b) (scan none [])
      | c :: rest => cons (.lit true c) (scan none rest)
    else
      cons (.lit false b) (scan none r)
  | some (no, items), [] => ([.set no items], .unclosed)
  | some (no, items), b :: r =>
    if b = backslash then
      match r with
      | [] => ([], .broken)
      | c :: rest => scan (some (no, items ++ [.escaped c])) rest
    else if b = rbracket then
      cons (.set no items) (scan none r)
    else
      match r with
      | [] => scan (some (no, items ++ [.single b])) []
      | [d] => scan (some (no, items ++ [.single b])) [d]
      | d :: y :: rest =>
        if d = dash then
          scan (some (no, items ++ [.range b y])) rest
        else
          scan (some (no, items ++ [.single b])) (d :: y :: rest)

section

variable {no : Bool} {items : List ClassItem} {b c : UInt8} {r : Bytes}

theorem scan_nil : scan none [] = ([], .complete) := rfl

theorem scan_star : scan none (star :: r) = cons .star (scan none r) := by
  cases r <;> rfl

theorem scan_question : scan none (question :: r) = cons .any (scan none r) := by
  cases r <;> rfl

theorem scan_bracket_nil : scan none [lbracket] = scan (some (false, [])) [] := rfl

theorem scan_bracket_caret : scan none (lbracket :: caret :: r) = scan (some (true, [])) r := rfl

theorem scan_bracket (hne : c ≠ caret) : scan none (lbracket :: c :: r) = scan (some (false, [])) (c :: r) :=
  if_neg hne

theorem scan_backslash_nil : scan none [backslash] = cons (.lit false backslash) (scan none []) := rfl

theorem scan_backslash : scan none (backslash :: c :: r) = cons (.lit true c) (scan none r) := rfl

theorem scan_lit (h1 : b ≠ star) (h2 : b ≠ question) (h3 : b ≠ lbracket) (h4 : b ≠ backslash)
    : scan none (b :: r) = cons (.lit false b) (scan none r) := by
  conv => lhs; unfold scan
  rw [if_neg h1, if_neg h2, if_neg h3, if_neg h4]

theorem scan_inside_nil : scan (some (no, items)) [] = ([.set no items], .unclosed) := rfl

theorem scan_inside_broken : scan (some (no, items)) [backslash] = ([], .broken) := rfl

theorem scan_inside_backslash
    : scan (some (no, items)) (backslash :: c :: r) = scan (some (no, items ++ [.escaped c])) r := by
  conv => lhs; unfold scan
  rw [if_pos rfl]

theorem scan_inside_close : scan (some (no, items)) (rbracket :: r) = cons (.set no items) (scan none r) := by
  conv => lhs; unfold scan
  rw [if_neg (by decide), if_pos rfl]

theorem scan_inside_range {y : UInt8} (h1 : b ≠ backslash) (h2 : b ≠ rbracket)
    : scan (some (no, items)) (b :: dash :: y :: r) = scan (some (no, items ++ [.range b y])) r := by
  conv => lhs; unfold scan
  rw [if_neg h1, if_neg h2]
  exact if_pos rfl

theorem scan_inside_single (h1 : b ≠ backslash) (h2 : b ≠ rbracket) (h3 : r.head? ≠ some dash ∨ r.length < 2)
    : scan (some (no, items)) (b :: r) = scan (some (no, items ++ [.single b])) r := by
  match r with
  | [] =>
    conv => lhs; unfold scan
    rw [if_neg h1, if_neg h2]
  | [d] =>
    conv => lhs; unfold scan
    rw [if_neg h1, if_neg h2]
  | d :: y :: r =>
    have hne : d ≠ dash := by
      rintro rfl
      rcases h3 with h3 | h3
      . exact h3 rfl
      . simp only [List.length_cons] at h3
        omega
    conv => lhs; unfold scan
    rw [if_neg h1, if_neg h2]
    exact if_neg hne

end

def tokens (pattern : Bytes) : List PatternToken :=
  (scan none pattern).1

def ending (pattern : Bytes) : PatternEnd :=
  (scan none pattern).2

-- every class has its `]`
def Closed (pattern : Bytes) : Prop :=
  ending pattern = .complete

end Pattern

-- the bytes that match, with `nocase` or without

def ClassItem.has (nocase : Bool) (c : UInt8) : ClassItem → Bool
  | .escaped b => b == c
  | .range x y => inRange nocase x y c
  | .single b => same nocase b c

def PatternToken.has (nocase : Bool) (c : UInt8) : PatternToken → Bool
  | .star => true
  | .any => true
  | .set no items => no != items.any (ClassItem.has nocase c)
  | .lit _ b => same nocase b c

def PatternToken.step (nocase : Bool) : PatternToken → Step UInt8
  | .star => .any
  | t => .one (t.has nocase)

-- what the pattern stands for

def ClassItem.Has (c : UInt8) : ClassItem → Prop
  | .escaped b => c = b
  | .single b => c = b
  | .range x y => min (char x) (char y) ≤ char c ∧ char c ≤ max (char x) (char y)

/--
The strings of a pattern.
-/
inductive Pattern.Language : List PatternToken → Bytes → Prop
  | nil : Language [] []
  | star {ts : List PatternToken} {s : Bytes} (u : Bytes) : Language ts s → Language (.star :: ts) (u ++ s)
  | any {ts : List PatternToken} {s : Bytes} (c : UInt8) : Language ts s → Language (.any :: ts) (c :: s)
  | set {ts : List PatternToken} {s : Bytes} {items : List ClassItem} {c : UInt8}
    : (∃ item ∈ items, item.Has c) → Language ts s → Language (.set false items :: ts) (c :: s)
  | notSet {ts : List PatternToken} {s : Bytes} {items : List ClassItem} {c : UInt8}
    : (¬∃ item ∈ items, item.Has c) → Language ts s → Language (.set true items :: ts) (c :: s)
  | lit {ts : List PatternToken} {s : Bytes} (escaped : Bool) (c : UInt8)
    : Language ts s → Language (.lit escaped c :: ts) (c :: s)

namespace Pattern

theorem has_iff (item : ClassItem) (c : UInt8) : item.has false c = true ↔ item.Has c := by
  cases item with
  | escaped b =>
    unfold ClassItem.has ClassItem.Has
    rw [beq_iff_eq, eq_comm]
  | single b =>
    unfold ClassItem.has ClassItem.Has same
    dsimp only
    rw [if_neg Bool.false_ne_true, beq_iff_eq, eq_comm]
  | range x y =>
    unfold ClassItem.has ClassItem.Has inRange
    simp only [Bool.false_eq_true, ↓reduceIte, ge_iff_le, gt_iff_lt, Bool.and_eq_true, decide_eq_true_eq]
    split <;> (dsimp only; omega)

theorem any_has_iff (items : List ClassItem) (c : UInt8)
    : items.any (ClassItem.has false c) = true ↔ ∃ item ∈ items, item.Has c := by
  rw [List.any_eq_true]
  simp only [has_iff]

theorem takes_iff_language (ts : List PatternToken) (s : Bytes)
    : Takes (ts.map (PatternToken.step false)) s ↔ Language ts s := by
  constructor
  . intro h
    induction ts generalizing s with
    | nil =>
      cases h
      exact .nil
    | cons t ts ih =>
      cases t with
      | star =>
        cases h with
        | any u h => exact .star u (ih _ h)
      | any =>
        cases h with
        | one _ h => exact .any _ (ih _ h)
      | set no items =>
        cases h with
        | one hmem h =>
          cases no with
          | false =>
            simp only [PatternToken.has, Bool.false_bne] at hmem
            exact .set ((any_has_iff _ _).mp hmem) (ih _ h)
          | true =>
            simp only [PatternToken.has, Bool.true_bne, Bool.not_eq_true'] at hmem
            have hnone := mt (any_has_iff items _).mpr (Bool.eq_false_iff.mp hmem)
            exact .notSet hnone (ih _ h)
      | lit escaped b =>
        cases h with
        | one hmem h =>
          simp only [PatternToken.has, same, Bool.false_eq_true, ↓reduceIte, beq_iff_eq] at hmem
          rw [← hmem]
          exact .lit escaped b (ih _ h)
  . intro h
    induction h with
    | nil => exact .nil
    | star u _ ih => exact .any u ih
    | any c _ ih => exact .one rfl ih
    | set hmem _ ih => exact .one (by simp [PatternToken.has, (any_has_iff _ _).mpr hmem]) ih
    | notSet hnone _ ih =>
      have hfalse := Bool.eq_false_iff.mpr (mt (any_has_iff _ _).mp hnone)
      exact .one (by simp [PatternToken.has, hfalse]) ih
    | lit escaped c _ ih => exact .one (by simp [PatternToken.has, same]) ih

end Pattern
end Kids
