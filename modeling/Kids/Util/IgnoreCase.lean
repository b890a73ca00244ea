import Kids.Util.Glob

/-!
`nocase` and the case of letters. A byte behind a backslash in a class is compared as it is, the others by what
`tolower` makes of them.
-/

namespace Kids

open Bytes Wildcard Pattern

namespace StringMatch

-- bytes that differ in case at most
def SameLetter (b c : UInt8) : Prop :=
  tolowerInt (char b) = tolowerInt (char c)

def IsLetter (b : UInt8) : Prop :=
  65 ≤ b.toNat ∧ b.toNat ≤ 90 ∨ 97 ≤ b.toNat ∧ b.toNat ≤ 122

def toupper (b : UInt8) : UInt8 :=
  if 97 ≤ b ∧ b ≤ 122 then b - 32 else b

def Ascii (s : Bytes) : Prop :=
  ∀ b ∈ s, b.toNat < 128

/--
Patterns that differ in the case of letters, apart from those at the ends of a range.
-/
inductive ItemRecased : ClassItem → ClassItem → Prop
  | escaped {b c : UInt8} : SameLetter b c → ItemRecased (.escaped b) (.escaped c)
  | single {b c : UInt8} : SameLetter b c → ItemRecased (.single b) (.single c)
  | range (x y : UInt8) : ItemRecased (.range x y) (.range x y)

inductive TokenRecased : PatternToken → PatternToken → Prop
  | star : TokenRecased .star .star
  | any : TokenRecased .any .any
  | set (no : Bool) {items items' : List ClassItem}
    : List.Forall₂ ItemRecased items items' → TokenRecased (.set no items) (.set no items')
  | lit (escaped : Bool) {b c : UInt8} : SameLetter b c → TokenRecased (.lit escaped b) (.lit escaped c)

structure PatternRecased (pattern pattern' : Bytes) : Prop where
  bytes : List.Forall₂ SameLetter pattern pattern'
  tokens : List.Forall₂ TokenRecased (tokens pattern) (tokens pattern')

/--
With `nocase` the matcher does not tell the case of letters, whether they are in the string or in the pattern.
-/
def IgnoresCase (pattern : Bytes) : Prop :=
  ∀ string, string ≠ [] → Ascii string → ∃ b, Returns true pattern string (.ok b) ∧
    (∀ string', List.Forall₂ SameLetter string string' → Returns true pattern string' (.ok b)) ∧
    ∀ pattern', PatternRecased pattern pattern' → Returns true pattern' string (.ok b)

-- an item that is compared in lower case has the byte
def Covered (items : List ClassItem) (b : UInt8) : Prop :=
  ∃ item ∈ items, (∀ c, item ≠ .escaped c) ∧ item.has true b = true

/--
Every letter behind a backslash in a class is in the class without it.
-/
def CaseBlind : PatternToken → Prop
  | .set _ items => ∀ b, .escaped b ∈ items → IsLetter b → Covered items b
  | _ => True

-- no ASCII byte is taken, in either case
def Dead (t : PatternToken) : Prop :=
  t ≠ .star ∧ CaseBlind t ∧ ∀ c : UInt8, c.toNat < 128 → t.has true c = false

section

variable {b c d : UInt8}

theorem char_eq (b : UInt8) : char b = if b.toNat < 128 then (b.toNat : Int) else b.toNat - 256 := by
  unfold char
  rw [← Int8.toInt_toBitVec, UInt8.toBitVec_toInt8, BitVec.toInt_eq_toNat_cond, UInt8.toNat_toBitVec]
  split <;> split <;> omega

theorem toNat_toupper (h : 97 ≤ b.toNat ∧ b.toNat ≤ 122) : (toupper b).toNat = b.toNat - 32 := by
  unfold toupper
  have h1 : (97 : UInt8) ≤ b := h.1
  have h2 : b ≤ (122 : UInt8) := h.2
  rw [if_pos ⟨h1, h2⟩, UInt8.toNat_sub_of_le _ _ (UInt8.le_trans (by decide) h1)]
  rfl

theorem toNat_tolower (h : 65 ≤ b.toNat ∧ b.toNat ≤ 90) : (tolower b).toNat = b.toNat + 32 := by
  unfold tolower
  have h1 : (65 : UInt8) ≤ b := h.1
  have h2 : b ≤ (90 : UInt8) := h.2
  rw [if_pos ⟨h1, h2⟩, UInt8.toNat_add]
  change (b.toNat + 32) % 256 = _
  omega

theorem tolower_of_not (h : ¬(65 ≤ b.toNat ∧ b.toNat ≤ 90)) : tolower b = b :=
  if_neg h

theorem toupper_of_not (h : ¬(97 ≤ b.toNat ∧ b.toNat ≤ 122)) : toupper b = b :=
  if_neg h

theorem sameLetter_iff : SameLetter b c ↔ b = c ∨
    65 ≤ b.toNat ∧ b.toNat ≤ 90 ∧ c.toNat = b.toNat + 32 ∨ 65 ≤ c.toNat ∧ c.toNat ≤ 90 ∧ b.toNat = c.toNat + 32 := by
  have hb := b.toNat_lt
  have hc := c.toNat_lt
  rw [← UInt8.toNat_inj]
  unfold SameLetter tolowerInt
  rw [char_eq, char_eq]
  split <;> split <;> split <;> split <;> omega

theorem SameLetter.refl (b : UInt8) : SameLetter b b := rfl

theorem SameLetter.symm (h : SameLetter b c) : SameLetter c b := Eq.symm h

theorem SameLetter.trans (h : SameLetter b c) (h' : SameLetter c d) : SameLetter b d := Eq.trans h h'

theorem SameLetter.eq_of_not (h : SameLetter b c) (hnot : ¬IsLetter b) : b = c := by
  unfold IsLetter at hnot
  rcases sameLetter_iff.mp h with rfl | h | h
  . rfl
  . omega
  . omega

theorem SameLetter.isLetter (h : SameLetter b c) (hb : IsLetter b) : IsLetter c := by
  unfold IsLetter at hb ⊢
  rcases sameLetter_iff.mp h with rfl | h | h
  . exact hb
  . omega
  . omega

theorem SameLetter.ascii (h : SameLetter b c) (hb : b.toNat < 128) : c.toNat < 128 := by
  rcases sameLetter_iff.mp h with rfl | h | h
  . exact hb
  . omega
  . omega

theorem IsLetter.ascii (h : IsLetter b) : b.toNat < 128 := by
  unfold IsLetter at h
  omega

theorem sameLetter_tolower (b : UInt8) : SameLetter b (tolower b) := by
  rw [sameLetter_iff]
  by_cases h : 65 ≤ b.toNat ∧ b.toNat ≤ 90
  . exact .inr (.inl ⟨h.1, h.2, toNat_tolower h⟩)
  . exact .inl (tolower_of_not h).symm

theorem sameLetter_toupper (b : UInt8) : SameLetter b (toupper b) := by
  rw [sameLetter_iff]
  by_cases h : 97 ≤ b.toNat ∧ b.toNat ≤ 122
  . have hupper := toNat_toupper h
    exact .inr (.inr (by omega))
  . exact .inl (toupper_of_not h).symm

-- no byte is made the upper case of a letter
theorem tolower_ne_toupper (hb : IsLetter b) (c : UInt8) : tolower c ≠ toupper b := by
  intro heq
  have hlower : ¬(65 ≤ (tolower c).toNat ∧ (tolower c).toNat ≤ 90) := by
    by_cases h : 65 ≤ c.toNat ∧ c.toNat ≤ 90
    . rw [toNat_tolower h]
      omega
    . rwa [tolower_of_not h]
  rw [heq] at hlower
  unfold IsLetter at hb
  by_cases h : 97 ≤ b.toNat ∧ b.toNat ≤ 122
  . rw [toNat_toupper h] at hlower
    omega
  . rw [toupper_of_not h] at hlower
    omega

theorem SameLetter.same_left (h : SameLetter b c) : same true b d = same true c d := by
  unfold same
  rw [if_pos rfl, if_pos rfl, h]

theorem SameLetter.same_right (h : SameLetter b c) : same true d b = same true d c := by
  unfold same
  rw [if_pos rfl, if_pos rfl, h]

end

section

variable {item item' : ClassItem} {items items' : List ClassItem} {t t' : PatternToken} {b c d : UInt8}

theorem SameLetter.inRange_eq (h : SameLetter b c) (x y : UInt8) : inRange true x y b = inRange true x y c := by
  unfold inRange
  dsimp only
  rw [if_pos rfl, if_pos rfl, h]

theorem SameLetter.has_eq (h : SameLetter b c) (hne : ∀ d, item ≠ .escaped d)
    : item.has true b = item.has true c := by
  cases item with
  | escaped d => exact absurd rfl (hne d)
  | range x y => exact h.inRange_eq x y
  | single d => exact h.same_right

theorem SameLetter.covered (h : SameLetter b c) (hb : Covered items b) : Covered items c := by
  obtain ⟨item, hitem, hne, htrue⟩ := hb
  exact ⟨item, hitem, hne, by rwa [← h.has_eq hne]⟩

theorem ItemRecased.plain (h : ItemRecased item item') (hne : ∀ d, item ≠ .escaped d)
    : (∀ d, item' ≠ .escaped d) ∧ ∀ c, item.has true c = item'.has true c := by
  cases h with
  | escaped => exact absurd rfl (hne _)
  | single h => exact ⟨nofun, fun c => h.same_left⟩
  | range => exact ⟨nofun, fun c => rfl⟩

theorem ItemRecased.symm (h : ItemRecased item item') : ItemRecased item' item := by
  cases h with
  | escaped h => exact .escaped h.symm
  | single h => exact .single h.symm
  | range => exact .range _ _

theorem recased_symm (h : List.Forall₂ ItemRecased items items') : List.Forall₂ ItemRecased items' items := by
  induction h with
  | nil => exact .nil
  | cons h _ ih => exact .cons h.symm ih

theorem mem_of_recased (h : List.Forall₂ ItemRecased items items') (hitem : item ∈ items)
    : ∃ item' ∈ items', ItemRecased item item' := by
  induction h with
  | nil => cases hitem
  | cons h _ ih =>
    rcases List.mem_cons.mp hitem with rfl | hitem
    . exact ⟨_, List.mem_cons_self, h⟩
    . obtain ⟨item', hitem', hrecased⟩ := ih hitem
      exact ⟨item', List.mem_cons_of_mem _ hitem', hrecased⟩

theorem covered_recased (h : List.Forall₂ ItemRecased items items') (hcovered : Covered items b)
    : Covered items' b := by
  obtain ⟨item, hitem, hne, htrue⟩ := hcovered
  obtain ⟨item', hitem', hrecased⟩ := mem_of_recased h hitem
  obtain ⟨hne', hhas⟩ := hrecased.plain hne
  exact ⟨item', hitem', hne', by rwa [← hhas]⟩

theorem TokenRecased.caseBlind (h : TokenRecased t t') (hblind : CaseBlind t) : CaseBlind t' := by
  cases h with
  | star => trivial
  | any => trivial
  | lit => trivial
  | set no h =>
    intro b hb hletter
    obtain ⟨item, hitem, hrecased⟩ := mem_of_recased (recased_symm h) hb
    cases hrecased with
    | escaped hsame =>
      exact hsame.symm.covered (covered_recased h (hblind _ hitem (hsame.isLetter hletter)))

-- a letter behind a backslash is in the class as one that is compared in lower case
theorem any_of_caseBlind {no : Bool} (hblind : CaseBlind (.set no items)) (hsame : SameLetter b c)
    (hany : items.any (ClassItem.has true b) = true) : items.any (ClassItem.has true c) = true := by
  rw [List.any_eq_true] at hany ⊢
  obtain ⟨item, hitem, htrue⟩ := hany
  cases item with
  | escaped d =>
    obtain rfl : d = b := eq_of_beq htrue
    by_cases hletter : IsLetter d
    . obtain ⟨item, hitem, -, htrue⟩ := hsame.covered (hblind d hitem hletter)
      exact ⟨item, hitem, htrue⟩
    . rw [← hsame.eq_of_not hletter]
      exact ⟨.escaped d, hitem, htrue⟩
  | range x y => exact ⟨_, hitem, by rwa [← hsame.has_eq (fun _ => ClassItem.noConfusion)]⟩
  | single d => exact ⟨_, hitem, by rwa [← hsame.has_eq (fun _ => ClassItem.noConfusion)]⟩

theorem any_recased {no : Bool} (hblind : CaseBlind (.set no items)) (h : List.Forall₂ ItemRecased items items')
    (hany : items.any (ClassItem.has true c) = true) : items'.any (ClassItem.has true c) = true := by
  rw [List.any_eq_true] at hany ⊢
  obtain ⟨item, hitem, htrue⟩ := hany
  obtain ⟨item', hitem', hrecased⟩ := mem_of_recased h hitem
  cases hrecased with
  | @escaped b d hsame =>
    obtain rfl : b = c := eq_of_beq htrue
    by_cases hletter : IsLetter b
    . obtain ⟨item, hitem, -, htrue⟩ := covered_recased h (hblind b hitem hletter)
      exact ⟨item, hitem, htrue⟩
    . rw [← hsame.eq_of_not hletter] at hitem'
      exact ⟨.escaped b, hitem', htrue⟩
  | single hsame => exact ⟨_, hitem', by rwa [ClassItem.has, ← hsame.same_left]⟩
  | range => exact ⟨_, hitem', htrue⟩

theorem CaseBlind.has_eq (hblind : CaseBlind t) (hsame : SameLetter b c) : t.has true b = t.has true c := by
  cases t with
  | star => rfl
  | any => rfl
  | lit escaped d => exact hsame.same_right
  | set no items =>
    have hiff : items.any (ClassItem.has true b) = items.any (ClassItem.has true c) :=
      Bool.eq_iff_iff.mpr ⟨any_of_caseBlind hblind hsame, any_of_caseBlind hblind hsame.symm⟩
    exact congrArg (no != ·) hiff

theorem CaseBlind.recased_has (hblind : CaseBlind t) (h : TokenRecased t t') : t.has true = t'.has true := by
  have hblind' := h.caseBlind hblind
  cases h with
  | star => rfl
  | any => rfl
  | lit escaped hsame => exact funext fun c => hsame.same_left
  | set no h =>
    funext c
    have hiff : List.any _ (ClassItem.has true c) = List.any _ (ClassItem.has true c) :=
      Bool.eq_iff_iff.mpr ⟨any_recased hblind h, any_recased hblind' (recased_symm h)⟩
    exact congrArg (no != ·) hiff

end

section

variable {pattern pattern' : Bytes}

theorem SameLetter.eq_iff {b c x : UInt8} (h : SameLetter b c) (hx : ¬IsLetter x) : b = x ↔ c = x := by
  constructor
  . rintro rfl
    exact (h.eq_of_not hx).symm
  . rintro rfl
    exact (h.symm.eq_of_not hx).symm

theorem not_letter : ¬IsLetter star ∧ ¬IsLetter question ∧ ¬IsLetter lbracket ∧ ¬IsLetter rbracket ∧
    ¬IsLetter caret ∧ ¬IsLetter dash ∧ ¬IsLetter backslash := by
  unfold IsLetter
  decide

theorem SameLetter.ne_iff {b c x : UInt8} (h : SameLetter b c) (hx : ¬IsLetter x) : b ≠ x ↔ c ≠ x :=
  not_congr (h.eq_iff hx)

-- a pattern ends in the same way, whatever the case of its letters
theorem scan_ending_recased (mode : Option (Bool × List ClassItem)) (h : List.Forall₂ SameLetter pattern pattern')
    (mode' : Option (Bool × List ClassItem)) (hmode : mode.isSome = mode'.isSome)
    : (scan mode pattern).2 = (scan mode' pattern').2 := by
  obtain ⟨hstar, hquestion, hlbracket, hrbracket, hcaret, hdash, hbackslash⟩ := not_letter
  have hnone : ∀ {mode' : Option (Bool × List ClassItem)}, false = mode'.isSome → mode' = none :=
    fun h => Option.not_isSome_iff_eq_none.mp (by rw [← h]; exact Bool.false_ne_true)
  have hsome : ∀ {mode' : Option (Bool × List ClassItem)}, true = mode'.isSome → ∃ no items, mode' = some (no, items) :=
    fun h => (Option.isSome_iff_exists.mp h.symm).imp' Prod.fst fun m h => ⟨m.2, h⟩
  induction mode, pattern using scan.induct generalizing pattern' mode' with
  | case1 =>
    cases h
    rw [hnone hmode]
  | case2 r ih =>
    obtain rfl := hnone hmode
    obtain _ | ⟨hb, h⟩ := h
    obtain rfl := hb.eq_of_not hstar
    rw [scan_star, scan_star]
    exact ih h none rfl
  | case3 r _ ih =>
    obtain rfl := hnone hmode
    obtain _ | ⟨hb, h⟩ := h
    obtain rfl := hb.eq_of_not hquestion
    rw [scan_question, scan_question]
    exact ih h none rfl
  | case4 =>
    obtain rfl := hnone hmode
    obtain _ | ⟨hb, h⟩ := h
    obtain rfl := hb.eq_of_not hlbracket
    cases h
    rfl
  | case5 r _ _ ih =>
    obtain rfl := hnone hmode
    obtain _ | ⟨hb, h⟩ := h
    obtain _ | ⟨hc, h⟩ := h
    obtain rfl := hb.eq_of_not hlbracket
    obtain rfl := hc.eq_of_not hcaret
    rw [scan_bracket_caret, scan_bracket_caret]
    exact ih h _ rfl
  | case6 c r hne _ _ ih =>
    obtain rfl := hnone hmode
    obtain _ | ⟨hb, h⟩ := h
    obtain _ | ⟨hc, hrest⟩ := id h
    obtain rfl := hb.eq_of_not hlbracket
    rw [scan_bracket hne, scan_bracket ((hc.ne_iff hcaret).mp hne)]
    exact ih h _ rfl
  | case7 _ _ _ ih =>
    obtain rfl := hnone hmode
    obtain _ | ⟨hb, h⟩ := h
    obtain rfl := hb.eq_of_not hbackslash
    cases h
    rfl
  | case8 c r _ _ _ ih =>
    obtain rfl := hnone hmode
    obtain _ | ⟨hb, h⟩ := h
    obtain _ | ⟨hc, h⟩ := h
    obtain rfl := hb.eq_of_not hbackslash
    rw [scan_backslash, scan_backslash]
    exact ih h none rfl
  | case9 b r h1 h2 h3 h4 ih =>
    obtain rfl := hnone hmode
    obtain _ | ⟨hb, h⟩ := h
    rw [scan_lit h1 h2 h3 h4, scan_lit ((hb.ne_iff hstar).mp h1) ((hb.ne_iff hquestion).mp h2)
      ((hb.ne_iff hlbracket).mp h3) ((hb.ne_iff hbackslash).mp h4)]
    exact ih h none rfl
  | case10 no items =>
    obtain ⟨no', items', rfl⟩ := hsome hmode
    cases h
    rfl
  | case11 no items =>
    obtain ⟨no', items', rfl⟩ := hsome hmode
    obtain _ | ⟨hb, h⟩ := h
    obtain rfl := hb.eq_of_not hbackslash
    cases h
    rfl
  | case12 no items c r ih =>
    obtain ⟨no', items', rfl⟩ := hsome hmode
    obtain _ | ⟨hb, h⟩ := h
    obtain _ | ⟨hc, h⟩ := h
    obtain rfl := hb.eq_of_not hbackslash
    rw [scan_inside_backslash, scan_inside_backslash]
    exact ih h _ rfl
  | case13 no items r _ ih =>
    obtain ⟨no', items', rfl⟩ := hsome hmode
    obtain _ | ⟨hb, h⟩ := h
    obtain rfl := hb.eq_of_not hrbracket
    rw [scan_inside_close, scan_inside_close]
    exact ih h none rfl
  | case14 no items b h1 h2 ih =>
    obtain ⟨no', items', rfl⟩ := hsome hmode
    obtain _ | ⟨hb, h⟩ := h
    cases h
    rw [scan_inside_single (r := []) h1 h2 (.inr Nat.two_pos),
      scan_inside_single (r := []) ((hb.ne_iff hbackslash).mp h1) ((hb.ne_iff hrbracket).mp h2) (.inr Nat.two_pos)]
    exact ih .nil _ rfl
  | case15 no items b h1 h2 d ih =>
    obtain ⟨no', items', rfl⟩ := hsome hmode
    obtain _ | ⟨hb, h⟩ := h
    obtain _ | ⟨hd, hrest⟩ := id h
    cases hrest
    rw [scan_inside_single h1 h2 (.inr (Nat.lt_succ_self _)),
      scan_inside_single ((hb.ne_iff hbackslash).mp h1) ((hb.ne_iff hrbracket).mp h2) (.inr (Nat.lt_succ_self _))]
    exact ih h _ rfl
  | case16 no items b h1 h2 y r ih =>
    obtain ⟨no', items', rfl⟩ := hsome hmode
    obtain _ | ⟨hb, h⟩ := h
    obtain _ | ⟨hd, h⟩ := h
    obtain _ | ⟨hy, h⟩ := h
    obtain rfl := hd.eq_of_not hdash
    rw [scan_inside_range h1 h2, scan_inside_range ((hb.ne_iff hbackslash).mp h1) ((hb.ne_iff hrbracket).mp h2)]
    exact ih h _ rfl
  | case17 no items b h1 h2 d y r hne ih =>
    obtain ⟨no', items', rfl⟩ := hsome hmode
    obtain _ | ⟨hb, h⟩ := h
    obtain _ | ⟨hd, hrest⟩ := id h
    have hne' := (hd.ne_iff hdash).mp hne
    rw [scan_inside_single h1 h2 (.inl (by simpa using hne)),
      scan_inside_single ((hb.ne_iff hbackslash).mp h1) ((hb.ne_iff hrbracket).mp h2) (.inl (by simpa using hne'))]
    exact ih h _ rfl

theorem PatternRecased.closed (h : PatternRecased pattern pattern') (hclosed : Closed pattern) : Closed pattern' :=
  (scan_ending_recased none h.bytes none rfl).symm.trans hclosed

def lowerItem : ClassItem → ClassItem
  | .escaped b => .escaped (tolower b)
  | item => item

-- the letters behind a backslash in a class are made lower
def lowerToken : PatternToken → PatternToken
  | .set no items => .set no (items.map lowerItem)
  | t => t

def lowerMode (mode : Bool × List ClassItem) : Bool × List ClassItem :=
  (mode.1, mode.2.map lowerItem)

def lowerScan (r : List PatternToken × PatternEnd) : List PatternToken × PatternEnd :=
  (r.1.map lowerToken, r.2)

theorem lowerScan_cons (t : PatternToken) (r : List PatternToken × PatternEnd)
    : lowerScan (cons t r) = cons (lowerToken t) (lowerScan r) := rfl

theorem tokenRecased_lower (t : PatternToken) : TokenRecased t (lowerToken t) := by
  cases t with
  | star => exact .star
  | any => exact .any
  | lit escaped b => exact .lit escaped (.refl b)
  | set no items =>
    refine .set no ?_
    rw [List.forall₂_map_right_iff, List.forall₂_same]
    intro item _
    cases item with
    | escaped b => exact .escaped (sameLetter_tolower b)
    | range x y => exact .range x y
    | single b => exact .single (.refl b)

theorem exists_scan_lower (mode : Option (Bool × List ClassItem)) (pattern : Bytes)
    : ∃ pattern', List.Forall₂ SameLetter pattern pattern' ∧
        scan (mode.map lowerMode) pattern' = lowerScan (scan mode pattern) := by
  obtain ⟨-, -, -, -, hcaret, hdash, -⟩ := not_letter
  have hpush : ∀ (no : Bool) (items : List ClassItem) (item : ClassItem),
      Option.map lowerMode (some (no, items ++ [item])) = some (no, items.map lowerItem ++ [lowerItem item]) := by
    intro no items item
    rw [Option.map_some, lowerMode, List.map_append]
    rfl
  induction mode, pattern using scan.induct with
  | case1 => exact ⟨[], .nil, rfl⟩
  | case2 r ih =>
    obtain ⟨r', hr, hscan⟩ := ih
    refine ⟨star :: r', .cons (.refl _) hr, ?_⟩
    rw [scan_star, lowerScan_cons, ← hscan]
    exact scan_star
  | case3 r _ ih =>
    obtain ⟨r', hr, hscan⟩ := ih
    refine ⟨question :: r', .cons (.refl _) hr, ?_⟩
    rw [scan_question, lowerScan_cons, ← hscan]
    exact scan_question
  | case4 => exact ⟨[lbracket], .cons (.refl _) .nil, rfl⟩
  | case5 r _ _ ih =>
    obtain ⟨r', hr, hscan⟩ := ih
    refine ⟨lbracket :: caret :: r', .cons (.refl _) (.cons (.refl _) hr), ?_⟩
    rw [scan_bracket_caret, ← hscan]
    exact scan_bracket_caret
  | case6 c r hne _ _ ih =>
    obtain ⟨r', hr, hscan⟩ := ih
    obtain _ | ⟨hc, hr⟩ := hr
    refine ⟨lbracket :: _, .cons (.refl _) (.cons hc hr), ?_⟩
    rw [scan_bracket hne, ← hscan]
    exact scan_bracket ((hc.ne_iff hcaret).mp hne)
  | case7 => exact ⟨[backslash], .cons (.refl _) .nil, rfl⟩
  | case8 c r _ _ _ ih =>
    obtain ⟨r', hr, hscan⟩ := ih
    refine ⟨backslash :: c :: r', .cons (.refl _) (.cons (.refl _) hr), ?_⟩
    rw [scan_backslash, lowerScan_cons, ← hscan]
    exact scan_backslash
  | case9 b r h1 h2 h3 h4 ih =>
    obtain ⟨r', hr, hscan⟩ := ih
    refine ⟨b :: r', .cons (.refl _) hr, ?_⟩
    rw [scan_lit h1 h2 h3 h4, lowerScan_cons, ← hscan]
    exact scan_lit h1 h2 h3 h4
  | case10 no items => exact ⟨[], .nil, rfl⟩
  | case11 no items => exact ⟨[backslash], .cons (.refl _) .nil, rfl⟩
  | case12 no items c r ih =>
    obtain ⟨r', hr, hscan⟩ := ih
    refine ⟨backslash :: tolower c :: r', .cons (.refl _) (.cons (sameLetter_tolower c) hr), ?_⟩
    rw [scan_inside_backslash, ← hscan, hpush, Option.map_some, lowerMode, scan_inside_backslash]
    rfl
  | case13 no items r _ ih =>
    obtain ⟨r', hr, hscan⟩ := ih
    refine ⟨rbracket :: r', .cons (.refl _) hr, ?_⟩
    rw [scan_inside_close, lowerScan_cons, ← hscan]
    exact scan_inside_close
  | case14 no items b h1 h2 ih =>
    refine ⟨[b], .cons (.refl _) .nil, ?_⟩
    obtain ⟨_, ⟨⟩, hscan⟩ := ih
    rw [scan_inside_single (r := []) h1 h2 (.inr Nat.two_pos), ← hscan, hpush, Option.map_some,
      lowerMode, scan_inside_single (r := []) h1 h2 (.inr Nat.two_pos)]
    rfl
  | case15 no items b h1 h2 d ih =>
    obtain ⟨r', hr, hscan⟩ := ih
    obtain _ | ⟨hd, hr⟩ := hr
    cases hr
    refine ⟨[b, _], .cons (.refl _) (.cons hd .nil), ?_⟩
    rw [scan_inside_single h1 h2 (.inr (Nat.lt_succ_self _)), ← hscan, hpush, Option.map_some,
      lowerMode, scan_inside_single h1 h2 (.inr (Nat.lt_succ_self _))]
    rfl
  | case16 no items b h1 h2 y r ih =>
    obtain ⟨r', hr, hscan⟩ := ih
    refine ⟨b :: dash :: y :: r', .cons (.refl _) (.cons (.refl _) (.cons (.refl _) hr)), ?_⟩
    rw [scan_inside_range h1 h2, ← hscan, hpush, Option.map_some, lowerMode, scan_inside_range h1 h2]
    rfl
  | case17 no items b h1 h2 d y r hne ih =>
    obtain ⟨r', hr, hscan⟩ := ih
    obtain _ | ⟨hd, hr⟩ := hr
    have hne' := (hd.ne_iff hdash).mp hne
    refine ⟨b :: _ :: _, .cons (.refl _) (.cons hd hr), ?_⟩
    rw [scan_inside_single h1 h2 (.inl (by simpa using hne)), ← hscan, hpush, Option.map_some,
      lowerMode, scan_inside_single h1 h2 (.inl (by simpa using hne'))]
    rfl

theorem exists_lower (pattern : Bytes)
    : ∃ pattern', PatternRecased pattern pattern' ∧ tokens pattern' = (tokens pattern).map lowerToken := by
  obtain ⟨pattern', hbytes, hscan⟩ := exists_scan_lower none pattern
  have htokens : tokens pattern' = (tokens pattern).map lowerToken := congrArg Prod.fst hscan
  refine ⟨pattern', ⟨hbytes, ?_⟩, htokens⟩
  rw [htokens, List.forall₂_map_right_iff, List.forall₂_same]
  exact fun t _ => tokenRecased_lower t

theorem lower_tells_case {t : PatternToken} (h : ¬CaseBlind t)
    : ∃ c d, c.toNat < 128 ∧ SameLetter c d ∧ (lowerToken t).has true c = true ∧
        (lowerToken t).has true d = false := by
  cases t with
  | star => exact absurd trivial h
  | any => exact absurd trivial h
  | lit => exact absurd trivial h
  | set no items =>
    simp only [CaseBlind, not_forall] at h
    obtain ⟨b, hb, hletter, hnot⟩ := h
    have hlower : SameLetter b (tolower b) := sameLetter_tolower b
    have hupper : SameLetter b (toupper b) := sameLetter_toupper b
    have hin : (items.map lowerItem).any (ClassItem.has true (tolower b)) = true := by
      rw [List.any_map, List.any_eq_true]
      exact ⟨.escaped b, hb, beq_self_eq_true _⟩
    have hout : (items.map lowerItem).any (ClassItem.has true (toupper b)) = false := by
      rw [List.any_map, List.any_eq_false]
      intro item hitem htrue
      cases item with
      | escaped c => exact tolower_ne_toupper hletter c (eq_of_beq htrue)
      | range x y => exact hnot (hupper.symm.covered ⟨_, hitem, fun _ => ClassItem.noConfusion, htrue⟩)
      | single c => exact hnot (hupper.symm.covered ⟨_, hitem, fun _ => ClassItem.noConfusion, htrue⟩)
    cases no with
    | false =>
      refine ⟨tolower b, toupper b, hlower.ascii hletter.ascii, hlower.symm.trans hupper, ?_, ?_⟩
      . rw [lowerToken, PatternToken.has, hin]
        rfl
      . rw [lowerToken, PatternToken.has, hout]
        rfl
    | true =>
      refine ⟨toupper b, tolower b, hupper.ascii hletter.ascii, hupper.symm.trans hlower, ?_, ?_⟩
      . rw [lowerToken, PatternToken.has, hout]
        rfl
      . rw [lowerToken, PatternToken.has, hin]
        rfl

end

section

variable {pattern pattern' string string' : Bytes} {b : Bool} {ts : List PatternToken} {t : PatternToken}

theorem returns_closed_iff (hclosed : Closed pattern) (hne : string ≠ [])
    : Returns true pattern string (.ok b) ↔
        (b = true ↔ Takes ((tokens pattern).map (PatternToken.step true)) string) := by
  have hreturns := returns_expected true pattern hne
  unfold expected at hreturns
  unfold Closed at hclosed
  rw [if_neg (by rw [hclosed]; decide)] at hreturns
  rw [← walk_isEmpty_iff]
  constructor
  . intro h
    rw [Except.ok.inj (h.unique hreturns)]
  . intro h
    rwa [Bool.eq_iff_iff.mpr h]

theorem mem_ones (ht : t ∈ ts) (hne : t ≠ .star) : t.has true ∈ ones (ts.map (PatternToken.step true)) := by
  induction ts with
  | nil => cases ht
  | cons t' ts ih =>
    rcases List.mem_cons.mp ht with rfl | ht
    . rw [List.map_cons, step_of_ne_star hne]
      exact List.mem_cons_self
    . rw [List.map_cons]
      cases t'.step true with
      | any => exact ih ht
      | one mem => exact List.mem_cons_of_mem _ (ih ht)

theorem exists_of_mem_ones {mem : UInt8 → Bool} (h : mem ∈ ones (ts.map (PatternToken.step true)))
    : ∃ t ∈ ts, t ≠ .star ∧ mem = t.has true := by
  induction ts with
  | nil => cases h
  | cons t ts ih =>
    rw [List.map_cons] at h
    by_cases hne : t = .star
    . subst hne
      obtain ⟨t, ht, hmem⟩ := ih h
      exact ⟨t, List.mem_cons_of_mem _ ht, hmem⟩
    . rw [step_of_ne_star hne] at h
      rcases List.mem_cons.mp h with rfl | h
      . exact ⟨t, List.mem_cons_self, hne, rfl⟩
      . obtain ⟨t, ht, hmem⟩ := ih h
        exact ⟨t, List.mem_cons_of_mem _ ht, hmem⟩

theorem ascii_recased (h : List.Forall₂ SameLetter string string') (hascii : Ascii string) : Ascii string' := by
  induction h with
  | nil => exact hascii
  | cons hsame _ ih =>
    obtain ⟨hb, hascii⟩ := List.forall_mem_cons.mp hascii
    exact List.forall_mem_cons.mpr ⟨hsame.ascii hb, ih hascii⟩

theorem ne_nil_recased (h : List.Forall₂ SameLetter string string') (hne : string ≠ []) : string' ≠ [] := by
  cases h with
  | nil => exact hne
  | cons => exact List.cons_ne_nil _ _

theorem not_takes_of_dead (ht : t ∈ ts) (hdead : Dead t) (hascii : Ascii string)
    : ¬Takes (ts.map (PatternToken.step true)) string := by
  intro htakes
  obtain ⟨hne, -, hnone⟩ := hdead
  obtain ⟨c, hc, htrue⟩ := mem_of_takes htakes (mem_ones ht hne)
  rw [hnone c (hascii c hc)] at htrue
  cases htrue

theorem TokenRecased.dead {t' : PatternToken} (h : TokenRecased t t') (hdead : Dead t) : Dead t' := by
  obtain ⟨hne, hblind, hnone⟩ := hdead
  refine ⟨?_, h.caseBlind hblind, ?_⟩
  . rintro rfl
    cases h
    exact hne rfl
  . intro c hc
    rw [← hnone c hc]
    exact (congrFun (hblind.recased_has h) c).symm

theorem mem_of_tokensRecased {ts' : List PatternToken} (h : List.Forall₂ TokenRecased ts ts') (ht : t ∈ ts)
    : ∃ t' ∈ ts', TokenRecased t t' := by
  induction h with
  | nil => cases ht
  | cons h _ ih =>
    rcases List.mem_cons.mp ht with rfl | ht
    . exact ⟨_, List.mem_cons_self, h⟩
    . obtain ⟨t', ht', hrecased⟩ := ih ht
      exact ⟨t', List.mem_cons_of_mem _ ht', hrecased⟩

theorem steps_recased {ts' : List PatternToken} (h : List.Forall₂ TokenRecased ts ts')
    (hblind : ∀ t ∈ ts, CaseBlind t)
    : ts.map (PatternToken.step true) = ts'.map (PatternToken.step true) := by
  induction h with
  | nil => rfl
  | @cons t t' ts ts' h _ ih =>
    obtain ⟨ht, hblind⟩ := List.forall_mem_cons.mp hblind
    rw [List.map_cons, List.map_cons, ih hblind]
    congr 1
    cases h with
    | star => rfl
    | any => rfl
    | set no h => exact congrArg Step.one (ht.recased_has (.set no h))
    | lit escaped h => exact congrArg Step.one (ht.recased_has (.lit escaped h))

theorem takes_recased (hblind : ∀ t ∈ ts, CaseBlind t) (h : List.Forall₂ SameLetter string string')
    (htakes : Takes (ts.map (PatternToken.step true)) string)
    : Takes (ts.map (PatternToken.step true)) string' := by
  refine takes_of_forall₂ htakes ?_ h
  intro mem hmem c d hsame htrue
  obtain ⟨t, ht, -, rfl⟩ := exists_of_mem_ones hmem
  exact ((hblind t ht).has_eq hsame).symm.trans htrue

/--
`nocase` makes the matcher ignore the case of letters when every letter behind a backslash in a class has its
like there, and when some token takes no byte at all.
-/
theorem ignoresCase_iff (hclosed : Closed pattern) : IgnoresCase pattern ↔
    (∀ t ∈ tokens pattern, CaseBlind t) ∨ ∃ t ∈ tokens pattern, Dead t := by
  constructor
  . intro hignores
    by_contra hnot
    rw [not_or] at hnot
    obtain ⟨hblind, hdead⟩ := hnot
    obtain ⟨t, ht, hblind⟩ : ∃ t ∈ tokens pattern, ¬CaseBlind t := by simpa using hblind
    obtain ⟨pattern', hrecased, htokens⟩ := exists_lower pattern
    obtain ⟨c, d, hc, hsame, htrue, hfalse⟩ := lower_tells_case hblind
    have hclosed' := hrecased.closed hclosed
    have hstar : ∀ u, lowerToken u ≠ .star → u ≠ .star := by
      rintro u hu rfl
      exact hu rfl
    -- the other tokens have some byte each
    have hall : ∀ mem ∈ ones ((tokens pattern').map (PatternToken.step true)), ∃ c : UInt8, c.toNat < 128 ∧ mem c = true := by
      intro mem hmem
      obtain ⟨u', hu', hne, rfl⟩ := exists_of_mem_ones hmem
      rw [htokens] at hu'
      obtain ⟨u, hu, rfl⟩ := List.mem_map.mp hu'
      by_cases hublind : CaseBlind u
      . by_contra hnone
        refine hdead ⟨u, hu, hstar u hne, hublind, fun c hc => ?_⟩
        rw [congrFun (hublind.recased_has (tokenRecased_lower u)) c]
        exact Bool.eq_false_iff.mpr fun h => hnone ⟨c, hc, h⟩
      . obtain ⟨c, d, hc, -, htrue, -⟩ := lower_tells_case hublind
        exact ⟨c, hc, htrue⟩
    have hmem : (lowerToken t).has true ∈ ones ((tokens pattern').map (PatternToken.step true)) := by
      refine mem_ones (htokens ▸ List.mem_map_of_mem ht) ?_
      rintro hlower
      cases t with
      | set => cases hlower
      | _ => exact hblind trivial
    obtain ⟨w, w', hne, hword, hascii, htakes, hnot⟩ :=
      exists_told_apart (fun c : UInt8 => c.toNat < 128) SameLetter.refl hall hmem hsame hc htrue hfalse
    obtain ⟨b, hb, hstring, hpattern⟩ := hignores w hne hascii
    obtain ⟨b', hb', -, hpattern'⟩ := hignores w' (ne_nil_recased hword hne) (ascii_recased hword hascii)
    obtain rfl : b = b' := Except.ok.inj ((hstring w' hword).unique hb')
    have htrue' := ((returns_closed_iff hclosed' hne).mp (hpattern pattern' hrecased)).mpr htakes
    exact hnot (((returns_closed_iff hclosed' (ne_nil_recased hword hne)).mp (hpattern' pattern' hrecased)).mp htrue')
  . intro hcase string hne hascii
    obtain ⟨b, hb⟩ : ∃ b, Returns true pattern string (.ok b) :=
      ⟨_, (returns_closed_iff hclosed hne).mpr walk_isEmpty_iff⟩
    have hresult := (returns_closed_iff hclosed hne).mp hb
    refine ⟨b, hb, ?_, ?_⟩
    . intro string' hword
      refine (returns_closed_iff hclosed (ne_nil_recased hword hne)).mpr (hresult.trans ?_)
      obtain hblind | ⟨t, ht, hdead⟩ := hcase
      . refine ⟨takes_recased hblind hword, takes_recased hblind ?_⟩
        exact List.Forall₂.flip (hword.imp fun _ _ => SameLetter.symm)
      . exact iff_of_false (not_takes_of_dead ht hdead hascii)
          (not_takes_of_dead ht hdead (ascii_recased hword hascii))
    . intro pattern' hrecased
      refine (returns_closed_iff (hrecased.closed hclosed) hne).mpr (hresult.trans ?_)
      obtain hblind | ⟨t, ht, hdead⟩ := hcase
      . rw [steps_recased hrecased.tokens hblind]
      . obtain ⟨t', ht', h⟩ := mem_of_tokensRecased hrecased.tokens ht
        exact iff_of_false (not_takes_of_dead ht hdead hascii) (not_takes_of_dead ht' (h.dead hdead) hascii)

end

-- `[\a]`, and `a` or `A`
theorem ignoresCase_fails_escaped : ¬∀ pattern, Closed pattern → IgnoresCase pattern := by
  intro hall
  have hclosed : Closed [lbracket, backslash, 97, rbracket] := rfl
  obtain ⟨b, hb, hstring, -⟩ := hall _ hclosed [97] (List.cons_ne_nil _ _) (List.forall_mem_singleton.mpr (by decide))
  have hsame : SameLetter 97 65 := rfl
  have hlower : Takes ((tokens [lbracket, backslash, 97, rbracket]).map (PatternToken.step true)) [97] := .one rfl .nil
  have hupper := (returns_closed_iff hclosed (List.cons_ne_nil _ _)).mp (hstring [65] (.cons hsame .nil))
  have htakes := hupper.mp (((returns_closed_iff hclosed (List.cons_ne_nil _ _)).mp hb).mpr hlower)
  cases htakes with
  | one hmem => cases hmem

-- `[\aa-z]`
theorem ignoresCase_iff_range : IgnoresCase [lbracket, backslash, 97, 97, dash, 122, rbracket] ↔
    (∀ t ∈ tokens [lbracket, backslash, 97, 97, dash, 122, rbracket], CaseBlind t) ∨
      ∃ t ∈ tokens [lbracket, backslash, 97, 97, dash, 122, rbracket], Dead t :=
  ignoresCase_iff rfl

end StringMatch
end Kids
