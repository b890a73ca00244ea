import Kids.Util.Pattern

/-!
The matcher takes one token of the pattern after the other. Where it does not run into a fault it finds out
whether the tokens take the string.
-/

namespace Kids

open Bytes Wildcard Pattern

namespace StringMatch

/--
`rest` is what the pointer still has before it.
-/
structure Over (p : Cursor) (rest : Bytes) : Prop where
  pos : p.pos ≤ p.buf.length
  drop : p.buf.drop p.pos = rest
  len : p.len = rest.length

theorem Cursor.move_move (p : Cursor) (j k : Nat) : (p.move j).move k = p.move (j + k) := by
  unfold Cursor.move
  dsimp only
  rw [Nat.add_assoc, Int.natCast_add, Int.sub_sub]

namespace Over

variable {p : Cursor} {rest : Bytes} {i k : Nat}

theorem start (buf : Bytes) : Over (.start buf) buf where
  pos := Nat.zero_le _
  drop := rfl
  len := rfl

theorem length (h : Over p rest) : p.pos + rest.length = p.buf.length := by
  have hpos := h.pos
  rw [← h.drop, List.length_drop]
  omega

theorem byte (h : Over p rest) (hi : i ≤ rest.length) : p.byte i = .ok (rest.getD i nul) := by
  have hlen := h.length
  unfold Cursor.byte
  rw [if_pos (by omega), ← h.drop]
  simp [List.getD_eq_getElem?_getD]

theorem next (h : Over p rest) (hk : k ≤ rest.length) : p.next k = .ok (p.move k) := by
  have hlen := h.len
  unfold Cursor.next Cursor.move
  rw [if_neg (by dsimp only; omega)]

theorem move (h : Over p rest) (hk : k ≤ rest.length) : Over (p.move k) (rest.drop k) where
  pos := by
    have hlen := h.length
    unfold Cursor.move
    dsimp only
    omega
  drop := by
    unfold Cursor.move
    dsimp only
    rw [← h.drop, List.drop_drop]
  len := by
    unfold Cursor.move
    dsimp only
    rw [h.len, List.length_drop]
    omega

theorem next_nil (h : Over p []) : p.next 1 = .error .negative := by
  have hlen := h.len
  unfold Cursor.next Cursor.move
  rw [if_pos (by dsimp only; simp only [List.length_nil] at hlen; omega)]

-- a step back to the last byte
theorem back (h : Over p []) (hpos : 0 < p.pos) : ∃ x, Over p.back [x] := by
  have hlen := h.length
  rw [List.length_nil, Nat.add_zero] at hlen
  have hlast : p.pos - 1 < p.buf.length := by omega
  refine ⟨p.buf[p.pos - 1], ?_, ?_, ?_⟩
  . unfold Cursor.back
    dsimp only
    omega
  . unfold Cursor.back
    dsimp only
    rw [List.drop_eq_getElem_cons hlast, List.drop_eq_nil_of_le (by omega)]
  . unfold Cursor.back
    dsimp only
    rw [h.len]
    rfl

end Over

theorem ok_bind {α β : Type} (a : α) (f : α → Except Fault β) : (Except.ok a >>= f) = f a := rfl

theorem error_bind {α β : Type} (e : Fault) (f : α → Except Fault β) : (Except.error e >>= f) = .error e := rfl

section

variable {nocase no : Bool} {p s : Cursor} {c : UInt8} {rest : Bytes} {items : List ClassItem} {fuel j k : Nat}

/--
The class was read as the next token, or there was no byte after its last backslash.
-/
def ClassRead (nocase : Bool) (c : UInt8) (no : Bool) (bound : Nat) (result : Except Fault (Cursor × Bool))
    (scanned : List PatternToken × PatternEnd) : Prop :=
  (∃ items p x rest, result = .ok (p, items.any (ClassItem.has nocase c)) ∧ Over p (x :: rest) ∧
    rest.length ≤ bound ∧ scanned.1 = .set no items :: tokens rest ∧
    (scanned.2 = .broken ↔ ending rest = .broken)) ∨
  (result = .error .negative ∧ scanned = ([], .broken))

theorem ClassRead.mono (h : ClassRead nocase c no j result scanned) (hle : j ≤ k)
    : ClassRead nocase c no k result scanned := by
  obtain ⟨items, p, x, rest, hresult, hover, hbound, hscanned⟩ | hbroken := h
  . exact .inl ⟨items, p, x, rest, hresult, hover, hbound.trans hle, hscanned⟩
  . exact .inr hbroken

theorem any_push (item : ClassItem)
    : (items ++ [item]).any (ClassItem.has nocase c) = (items.any (ClassItem.has nocase c) || item.has nocase c) := by
  rw [List.any_append, List.any_cons, List.any_nil, Bool.or_false]

theorem not_range {b : UInt8} {r : Bytes} (hp : Over p (b :: r)) (h : ¬(r.getD 0 nul = dash ∧ p.len ≥ 3))
    : r.head? ≠ some dash ∨ r.length < 2 := by
  rw [hp.len, List.length_cons] at h
  cases r with
  | nil => exact .inr (by simp)
  | cons d r =>
    simp only [List.getD_cons_zero, List.head?_cons, ne_eq, Option.some.injEq, List.length_cons] at h ⊢
    by_cases hd : d = dash
    . have hshort : ¬((r.length + 1 + 1 : Nat) : Int) ≥ 3 := fun hlen => h ⟨hd, hlen⟩
      exact .inr (by omega)
    . exact .inl hd

theorem classLoop_spec (hs : s.byte 0 = .ok c) (hp : Over p rest) (hpos : 0 < p.pos) (hfuel : rest.length < fuel)
    : ClassRead nocase c no rest.length (classLoop nocase s fuel p (items.any (ClassItem.has nocase c)))
        (scan (some (no, items)) rest) := by
  induction fuel generalizing p rest items with
  | zero => omega
  | succ fuel ih =>
    -- an item of `k` bytes, and the rest of the loop
    have hitem : ∀ (item : ClassItem) (k : Nat), 0 < k → k ≤ rest.length →
        ClassRead nocase c no rest.length
          (classLoop nocase s fuel (p.move k) (items.any (ClassItem.has nocase c) || item.has nocase c))
          (scan (some (no, items ++ [item])) (rest.drop k)) := by
      intro item k hk hle
      rw [← any_push]
      have hpos' : 0 < (p.move k).pos := Nat.add_pos_right _ hk
      have hle' : (rest.drop k).length ≤ rest.length := by
        rw [List.length_drop]
        omega
      exact (ih (hp.move hle) hpos' (by rw [List.length_drop]; omega)).mono hle'
    unfold classLoop
    cases rest with
    | nil =>
      obtain ⟨x, hback⟩ := hp.back hpos
      rw [hp.byte (i := 0) (Nat.le_refl _), ok_bind]
      refine .inl ⟨items, p.back, x, [], ?_, hback, Nat.le_refl _, rfl, ?_⟩
      . rw [List.getD_nil, if_neg (by decide), if_neg (by decide), if_pos (by rw [hp.len]; rfl)]
        rfl
      . rw [scan_inside_nil, ending, scan_nil]
        exact iff_of_false nofun nofun
    | cons b r =>
      rw [hp.byte (Nat.zero_le _), ok_bind, List.getD_cons_zero]
      by_cases hslash : b = backslash
      . subst hslash
        rw [if_pos rfl, hp.next (Nat.succ_pos _), ok_bind]
        have hrest := hp.move (Nat.succ_pos r.length)
        rw [List.drop_one, List.tail_cons] at hrest
        rw [hrest.byte (Nat.zero_le _), ok_bind, hs, ok_bind]
        cases r with
        | nil =>
          rw [hrest.next_nil, error_bind]
          exact .inr ⟨rfl, scan_inside_broken⟩
        | cons d r =>
          rw [hrest.next (Nat.succ_pos _), ok_bind, Cursor.move_move, List.getD_cons_zero, scan_inside_backslash]
          exact hitem (.escaped d) 2 (by omega) (by simp)
      rw [if_neg hslash]
      by_cases hclose : b = rbracket
      . subst hclose
        rw [if_pos rfl, scan_inside_close]
        exact .inl ⟨items, p, rbracket, r, rfl, hp, by simp, rfl, Iff.rfl⟩
      rw [if_neg hclose, if_neg (by rw [hp.len, List.length_cons]; omega), hp.byte (by simp), ok_bind, hs, ok_bind,
        List.getD_cons_succ]
      by_cases hrange : r.getD 0 nul = dash ∧ p.len ≥ 3
      . rw [if_pos hrange]
        obtain ⟨hdash, hlen⟩ := hrange
        rw [hp.len] at hlen
        match r with
        | [] => simp at hlen
        | [d] => simp at hlen
        | d :: y :: r =>
          rw [List.getD_cons_zero] at hdash
          subst hdash
          rw [hp.byte (by simp), ok_bind, hp.next (by simp), ok_bind, (hp.move (by simp)).next (by simp), ok_bind,
            Cursor.move_move, scan_inside_range hslash hclose]
          exact hitem (.range b y) 3 (by omega) (by simp)
      . rw [if_neg hrange, hp.next (by simp), ok_bind, scan_inside_single hslash hclose (not_range hp hrange)]
        exact hitem (.single b) 1 (by omega) (by simp)

theorem tokens_of_cons {t : PatternToken} {r : Bytes} (h : scan none rest = cons t (scan none r))
    : tokens rest = t :: tokens r :=
  congrArg Prod.fst h

theorem ending_of_cons {t : PatternToken} {r : Bytes} (h : scan none rest = cons t (scan none r))
    : ending rest = .broken ↔ ending r = .broken := by
  unfold ending
  rw [h]
  rfl

/--
The bytes of the token are gone from the pattern, apart from the last one, and one byte of the string is.
-/
def takeByte (p s : Cursor) : Except Fault (Option (Cursor × Cursor)) := do
  let s ← s.next 1
  return some (p, s)

/--
One token was taken off the pattern.
-/
def TokenRead (nocase : Bool) (c : UInt8) (pattern : Bytes) (s : Cursor)
    (result : Except Fault (Option (Cursor × Cursor))) : Prop :=
  (∃ t p x rest, result = (if t = .any ∧ s.len = 0 ∨ t.has nocase c = false then .ok none else takeByte p s) ∧
    t ≠ .star ∧ Over p (x :: rest) ∧ rest.length < pattern.length ∧ tokens pattern = t :: tokens rest ∧
    (ending pattern = .broken ↔ ending rest = .broken)) ∨
  (result = .error .negative ∧ tokens pattern = [] ∧ ending pattern = .broken)

-- what is done once the class is read
def leaveClass (no : Bool) (s : Cursor) (r : Cursor × Bool) : Except Fault (Option (Cursor × Cursor)) :=
  if !(if no then !r.2 else r.2) then
    return none
  else
    takeByte r.1 s

theorem matchClass_spec {r : Bytes} (hs : s.byte 0 = .ok c) (hp : Over p (lbracket :: r)) (hfuel : r.length < fuel)
    : TokenRead nocase c (lbracket :: r) s (matchClass nocase fuel p s) := by
  -- the class begins behind the `^`, if there is one
  have hclass : ∀ (q : Cursor) (no : Bool) (items : Bytes), Over q items → 0 < q.pos → items.length ≤ r.length →
      scan none (lbracket :: r) = scan (some (no, [])) items →
      TokenRead nocase c (lbracket :: r) s (classLoop nocase s fuel q false >>= leaveClass no s) := by
    intro q no items hq hpos hle hscan
    have hread : ClassRead nocase c no items.length
        (classLoop nocase s fuel q (List.any [] (ClassItem.has nocase c))) (scan (some (no, [])) items) :=
      classLoop_spec hs hq hpos (by omega)
    rw [List.any_nil, ← hscan] at hread
    obtain ⟨items', p', x, rest, hloop, hover, hlen, htokens, hending⟩ | ⟨hloop, hbroken⟩ := hread
    . refine .inl ⟨.set no items', p', x, rest, ?_, nofun, hover, ?_, htokens, hending⟩
      . rw [hloop, ok_bind]
        dsimp only [PatternToken.has, leaveClass]
        rcases Bool.eq_false_or_eq_true (items'.any (ClassItem.has nocase c)) with hany | hany
        . cases no <;> simp only [hany] <;> rfl
        . cases no <;> simp only [hany] <;> rfl
      . rw [List.length_cons]
        omega
    . rw [hloop, error_bind]
      exact .inr ⟨rfl, congrArg Prod.fst hbroken, congrArg Prod.snd hbroken⟩
  unfold matchClass
  rw [hp.next (Nat.succ_pos _), ok_bind]
  have hrest := hp.move (Nat.succ_pos r.length)
  have hpos : 0 < (p.move 1).pos := Nat.succ_pos _
  rw [List.drop_one, List.tail_cons] at hrest
  rw [hrest.byte (Nat.zero_le _), ok_bind]
  cases r with
  | nil => exact hclass _ false [] hrest hpos (Nat.le_refl _) scan_bracket_nil
  | cons d r =>
    rw [List.getD_cons_zero]
    by_cases hcaret : d = caret
    . subst hcaret
      have hbehind := hrest.move (Nat.succ_pos r.length)
      rw [List.drop_one, List.tail_cons] at hbehind
      rw [beq_self_eq_true, if_pos rfl, hrest.next (Nat.succ_pos _), ok_bind]
      exact hclass _ true r hbehind (Nat.succ_pos _) (by simp) scan_bracket_caret
    . rw [beq_eq_false_iff_ne.mpr hcaret]
      exact hclass _ false (d :: r) hrest hpos (Nat.le_refl _) (scan_bracket hcaret)

-- what is done once the byte to compare with is known
theorem compareByte_eq {b : UInt8} {escaped : Bool} (hb : p.byte 0 = .ok b) (hs : s.byte 0 = .ok c)
    : (do
        let b ← p.byte 0
        let c ← s.byte 0
        if !same nocase b c then
          return none
        else
          let s ← s.next 1
          return some (p, s)) =
        if PatternToken.lit escaped b = .any ∧ s.len = 0 ∨ (PatternToken.lit escaped b).has nocase c = false then
          .ok none
        else
          takeByte p s := by
  rw [hb, ok_bind, hs, ok_bind]
  dsimp only [PatternToken.has]
  rcases Bool.eq_false_or_eq_true (same nocase b c) with hsame | hsame
  . simp only [hsame]
    rfl
  . simp only [hsame]
    rfl

theorem matchByte_spec {b : UInt8} {r : Bytes} (hs : s.byte 0 = .ok c) (hp : Over p (b :: r)) (h1 : b ≠ star)
    (h2 : b ≠ question) (h3 : b ≠ lbracket)
    : TokenRead nocase c (b :: r) s (matchByte nocase p s) := by
  have hb := hp.byte (Nat.zero_le _)
  rw [List.getD_cons_zero] at hb
  unfold matchByte
  rw [hb, ok_bind]
  by_cases hslash : b = backslash
  . subst hslash
    cases r with
    | nil =>
      rw [if_neg (by rw [hp.len]; simp)]
      refine .inl ⟨.lit false backslash, p, backslash, [], ?_, nofun, hp, by simp, ?_, ?_⟩
      . exact compareByte_eq hb hs
      . exact tokens_of_cons scan_backslash_nil
      . exact ending_of_cons scan_backslash_nil
    | cons d r =>
      have hrest := hp.move (Nat.succ_pos _)
      rw [List.drop_one, List.tail_cons] at hrest
      have hd := hrest.byte (Nat.zero_le _)
      rw [List.getD_cons_zero] at hd
      have hlen : p.len ≥ 2 := by
        rw [hp.len, List.length_cons, List.length_cons]
        omega
      rw [if_pos ⟨rfl, hlen⟩, hp.next (Nat.succ_pos _), ok_bind]
      refine .inl ⟨.lit true d, p.move 1, d, r, ?_, nofun, hrest, ?_, ?_, ?_⟩
      . exact compareByte_eq hd hs
      . simp only [List.length_cons]
        omega
      . exact tokens_of_cons scan_backslash
      . exact ending_of_cons scan_backslash
  . rw [if_neg (by simp [hslash])]
    have hscan : scan none (b :: r) = cons (.lit false b) (scan none r) := scan_lit h1 h2 h3 hslash
    refine .inl ⟨.lit false b, p, b, r, ?_, nofun, hp, by simp, tokens_of_cons hscan, ending_of_cons hscan⟩
    exact compareByte_eq hb hs

theorem matchOne_spec {b : UInt8} {r : Bytes} (hs : s.byte 0 = .ok c) (hp : Over p (b :: r)) (hne : b ≠ star)
    (hfuel : r.length < fuel) : TokenRead nocase c (b :: r) s (matchOne nocase fuel p s) := by
  unfold matchOne
  rw [hp.byte (Nat.zero_le _), ok_bind, List.getD_cons_zero]
  by_cases hquestion : b = question
  . subst hquestion
    rw [if_pos rfl]
    refine .inl ⟨.any, p, question, r, ?_, nofun, hp, by simp, tokens_of_cons scan_question,
      ending_of_cons scan_question⟩
    by_cases hlen : s.len = 0
    . rw [if_pos hlen, if_pos (.inl ⟨rfl, hlen⟩)]
      rfl
    . rw [if_neg hlen, if_neg (by simp [hlen, PatternToken.has])]
      rfl
  rw [if_neg hquestion]
  by_cases hbracket : b = lbracket
  . subst hbracket
    rw [if_pos rfl]
    exact matchClass_spec hs hp hfuel
  . rw [if_neg hbracket]
    exact matchByte_spec hs hp hne hquestion hbracket

theorem step_of_ne_star {t : PatternToken} (h : t ≠ .star) : t.step nocase = .one (t.has nocase) := by
  cases t with
  | star => exact absurd rfl h
  | any => rfl
  | set => rfl
  | lit => rfl

theorem tokens_of_ne_star {b : UInt8} {r : Bytes} (hp : Over p (b :: r)) (hne : b ≠ star)
    : tokens (b :: r) = [] ∧ ending (b :: r) = .broken ∨
      ∃ t ts, t ≠ .star ∧ tokens (b :: r) = t :: ts := by
  have hs : (Cursor.start []).byte 0 = .ok nul := rfl
  have hread : TokenRead false nul (b :: r) (.start []) (matchOne false (r.length + 1) p (.start [])) :=
    matchOne_spec hs hp hne (Nat.lt_succ_self _)
  obtain ⟨t, _, _, rest, -, hstar, -, -, htokens, -⟩ | ⟨-, hbroken⟩ := hread
  . exact .inr ⟨t, _, hstar, htokens⟩
  . exact .inl hbroken

-- further stars change nothing
theorem collapse_spec (nocase : Bool) {r : Bytes} (hp : Over p (star :: r)) (hfuel : r.length < fuel)
    : ∃ p' r', collapse fuel p = .ok p' ∧ Over p' (star :: r') ∧ r'.length ≤ r.length ∧ r'.head? ≠ some star ∧
        (ending r = .broken ↔ ending r' = .broken) ∧
        ∀ fin w, walk fin ((tokens (star :: r)).map (PatternToken.step nocase)) w =
          walk fin ((tokens (star :: r')).map (PatternToken.step nocase)) w := by
  induction fuel generalizing p r with
  | zero => omega
  | succ fuel ih =>
    unfold collapse
    rw [hp.byte (by simp), ok_bind, List.getD_cons_succ]
    by_cases hstar : r.getD 0 nul = star
    . cases r with
      | nil => cases hstar
      | cons b r =>
        rw [List.getD_cons_zero] at hstar
        subst hstar
        have hrest := hp.move (Nat.succ_pos _)
        rw [List.drop_one, List.tail_cons] at hrest
        obtain ⟨p', r', hcollapse, hover, hlen, hhead, hending, hwalk⟩ := ih hrest (by rw [List.length_cons] at hfuel; omega)
        rw [List.getD_cons_zero, if_pos rfl, hp.next (Nat.succ_pos _), ok_bind]
        refine ⟨p', r', hcollapse, hover, ?_, hhead, ?_, ?_⟩
        . rw [List.length_cons]
          omega
        . rw [ending_of_cons scan_star]
          exact hending
        . intro fin w
          rw [← hwalk, tokens_of_cons scan_star, tokens_of_cons scan_star, List.map_cons, List.map_cons]
          exact walk_any_any
    . rw [if_neg hstar]
      refine ⟨p, r, rfl, hp, Nat.le_refl _, ?_, Iff.rfl, fun _ _ => rfl⟩
      cases r with
      | nil => exact nofun
      | cons b r => simpa using hstar

-- a pattern of stars takes the empty string
theorem skipStars_spec (nocase : Bool) {r : Bytes} (hp : Over p r) (hfuel : r.length < fuel)
    : ∃ p', skipStars fuel p = .ok p' ∧
        (p'.len = 0 ↔ ending r ≠ .broken ∧ walk List.isEmpty ((tokens r).map (PatternToken.step nocase)) [] = true) := by
  induction fuel generalizing p r with
  | zero => omega
  | succ fuel ih =>
    unfold skipStars
    rw [hp.byte (Nat.zero_le _), ok_bind]
    cases r with
    | nil =>
      refine ⟨p, rfl, ?_⟩
      exact iff_of_true hp.len ⟨nofun, rfl⟩
    | cons b r =>
      rw [List.getD_cons_zero]
      by_cases hstar : b = star
      . subst hstar
        have hrest := hp.move (Nat.succ_pos _)
        rw [List.drop_one, List.tail_cons] at hrest
        obtain ⟨p', hskip, hiff⟩ := ih hrest (by rw [List.length_cons] at hfuel; omega)
        rw [if_pos rfl, hp.next (Nat.succ_pos _), ok_bind]
        refine ⟨p', hskip, hiff.trans ?_⟩
        rw [tokens_of_cons scan_star, List.map_cons, ne_eq, ne_eq, ending_of_cons scan_star]
        change _ ↔ _ ∧ walk List.isEmpty (.any :: _) [] = true
        rw [walk_any_nil]
      . rw [if_neg hstar]
        refine ⟨p, rfl, ?_⟩
        have hlen : p.len ≠ 0 := by
          rw [hp.len, List.length_cons]
          omega
        apply iff_of_false hlen
        rintro ⟨hending, hwalk⟩
        obtain ⟨-, hbroken⟩ | ⟨t, rest, hne, htokens⟩ := tokens_of_ne_star hp hstar
        . exact hending hbroken
        . rw [htokens, List.map_cons, step_of_ne_star hne, walk_one_nil] at hwalk
          cases hwalk

/--
What the matcher finds out about a string. A class that ends in a backslash is a fault if it is come to, and
that needs a byte of the string that is not yet taken.
-/
def expected (nocase : Bool) (pattern string : Bytes) : Except Fault Bool :=
  let steps := (tokens pattern).map (PatternToken.step nocase)
  if ending pattern = .broken then
    if walk (fun v => !v.isEmpty) steps string then .error .negative else .ok false
  else
    .ok (walk List.isEmpty steps string)

theorem walk_left_nil (steps : List (Step UInt8)) : walk (fun v : Bytes => !v.isEmpty) steps [] = false := by
  induction steps with
  | nil => rfl
  | cons step steps ih =>
    cases step with
    | any => rw [walk_any_nil, ih]
    | one mem => exact walk_one_nil

theorem expected_congr {q : Bytes} {str str' : Bytes} (hending : ending rest = .broken ↔ ending q = .broken)
    (hwalk : ∀ fin, walk fin ((tokens rest).map (PatternToken.step nocase)) str =
      walk fin ((tokens q).map (PatternToken.step nocase)) str')
    : expected nocase rest str = expected nocase q str' := by
  unfold expected
  dsimp only
  simp only [hending, hwalk]

theorem expected_false (hwalk : ∀ fin, walk fin ((tokens rest).map (PatternToken.step nocase)) str = false)
    : expected nocase rest str = .ok false := by
  unfold expected
  simp [hwalk]

theorem expected_star {r : Bytes} {str : Bytes} {d : UInt8}
    : expected nocase (star :: r) (d :: str) = (do
        let matched ← expected nocase r (d :: str)
        if matched then
          return true
        else
          expected nocase (star :: r) str) := by
  have hwalk (fin : Bytes → Bool) : walk fin ((tokens (star :: r)).map (PatternToken.step nocase)) (d :: str) =
      (walk fin ((tokens r).map (PatternToken.step nocase)) (d :: str) ||
        walk fin ((tokens (star :: r)).map (PatternToken.step nocase)) str) := by
    rw [tokens_of_cons scan_star]
    exact walk_any_cons
  unfold expected
  simp only [hwalk, ending_of_cons scan_star]
  split
  . cases walk (fun v => !v.isEmpty) ((tokens r).map (PatternToken.step nocase)) (d :: str) <;> rfl
  . cases walk List.isEmpty ((tokens r).map (PatternToken.step nocase)) (d :: str) <;> rfl

theorem expected_of_token {t : PatternToken} {pattern str : Bytes} (hne : t ≠ .star)
    (htokens : tokens pattern = t :: tokens rest) (hending : ending pattern = .broken ↔ ending rest = .broken)
    : expected nocase pattern (c :: str) = if t.has nocase c then expected nocase rest str else .ok false := by
  split
  . next hhas =>
    apply expected_congr hending
    intro fin
    rw [htokens, List.map_cons, step_of_ne_star hne, walk_one_cons, hhas, Bool.true_and]
  . next hhas =>
    apply expected_false
    intro fin
    rw [htokens, List.map_cons, step_of_ne_star hne, walk_one_cons, Bool.eq_false_iff.mpr hhas, Bool.false_and]

-- what follows the stars takes a byte
theorem expected_star_nil {r : Bytes} (hp : Over p (star :: r)) (hhead : r.head? ≠ some star) (hne : r ≠ [])
    : expected nocase (star :: r) [] = .ok false := by
  obtain ⟨b, r, rfl⟩ := List.exists_cons_of_ne_nil hne
  have hb : b ≠ star := fun h => hhead (congrArg some h)
  have hrest := hp.move (Nat.succ_pos _)
  rw [List.drop_one, List.tail_cons] at hrest
  have hwalk (fin : Bytes → Bool) : walk fin ((tokens (star :: b :: r)).map (PatternToken.step nocase)) [] =
      walk fin ((tokens (b :: r)).map (PatternToken.step nocase)) [] := by
    rw [tokens_of_cons scan_star]
    exact walk_any_nil
  obtain ⟨htokens, hbroken⟩ | ⟨t, ts, hne, htokens⟩ := tokens_of_ne_star hrest hb
  . unfold expected
    rw [if_pos (ending_of_cons scan_star |>.mpr hbroken), hwalk, walk_left_nil]
    rfl
  . apply expected_false
    intro fin
    rw [hwalk, htokens, List.map_cons, step_of_ne_star hne, walk_one_nil]

theorem takes_any (w : Bytes) : Takes [.any] w := by
  rw [← List.append_nil w]
  exact .any w .nil

theorem expected_nil {len : Int} {r : Bytes}
    (h : len = 0 ↔ ending r ≠ .broken ∧ walk List.isEmpty ((tokens r).map (PatternToken.step nocase)) [] = true)
    : expected nocase r [] = .ok (len == 0) := by
  unfold expected
  dsimp only
  rw [walk_left_nil]
  by_cases hbroken : ending r = .broken
  . rw [if_pos hbroken, beq_eq_false_iff_ne.mpr fun hlen => (h.mp hlen).1 hbroken]
    rfl
  . rw [if_neg hbroken]
    congr 1
    rw [Bool.eq_iff_iff, beq_iff_eq, h, and_iff_right hbroken]

/--
With this much fuel the matcher gives what the pattern says.
-/
def MatcherAgrees (nocase : Bool) (fuel : Nat) : Prop :=
  ∀ p s pattern str, Over p pattern → Over s str → str ≠ [] → 2 * pattern.length + str.length + 2 ≤ fuel →
    stringmatchlen nocase fuel p s = expected nocase pattern str

-- so does its loop behind a `*`
def StarLoopAgrees (nocase : Bool) (fuel : Nat) : Prop :=
  ∀ p s r str, Over p (star :: r) → r.head? ≠ some star → r ≠ [] → Over s str →
    2 * r.length + str.length + 3 ≤ fuel → starLoop nocase fuel p s = expected nocase (star :: r) str

theorem stringmatchlen_star {r str : Bytes} (hloops : StarLoopAgrees nocase fuel) (hp : Over p (star :: r))
    (hs : Over s (c :: str)) (hfuel : 2 * r.length + str.length + 4 ≤ fuel)
    : stringmatchlen nocase (fuel + 1) p s = expected nocase (star :: r) (c :: str) := by
  obtain ⟨p', r', hcollapse, hp', hle, hhead, hending, hwalk⟩ := collapse_spec nocase hp (show r.length < fuel by omega)
  have hsame : expected nocase (star :: r) (c :: str) = expected nocase (star :: r') (c :: str) :=
    expected_congr (by rw [ending_of_cons scan_star, ending_of_cons scan_star, hending]) fun fin => hwalk fin _
  unfold stringmatchlen
  rw [if_neg (by rw [hp.len, List.length_cons]; omega), hp.byte (Nat.zero_le _), ok_bind, List.getD_cons_zero,
    if_pos rfl, hcollapse, ok_bind, hsame]
  cases r' with
  | nil =>
    have hone : p'.len = 1 := hp'.len
    rw [if_pos hone]
    exact congrArg Except.ok (walk_isEmpty_iff.mpr (takes_any (c :: str))).symm
  | cons d r' =>
    rw [if_neg (by rw [hp'.len]; simp only [List.length_cons]; omega)]
    rw [List.length_cons] at hle
    exact hloops p' s (d :: r') (c :: str) hp' hhead (List.cons_ne_nil _ _) hs
      (by simp only [List.length_cons]; omega)

theorem stringmatchlen_token {b : UInt8} {r str : Bytes} (hmatches : MatcherAgrees nocase fuel) (hstar : b ≠ star)
    (hp : Over p (b :: r)) (hs : Over s (c :: str)) (hfuel : 2 * r.length + str.length + 4 ≤ fuel)
    : stringmatchlen nocase (fuel + 1) p s = expected nocase (b :: r) (c :: str) := by
  have hlen : s.len ≠ 0 := by
    rw [hs.len, List.length_cons]
    omega
  have hs' := hs.move (Nat.succ_pos _)
  rw [List.drop_one, List.tail_cons] at hs'
  have hc := hs.byte (Nat.zero_le _)
  rw [List.getD_cons_zero] at hc
  have hread : TokenRead nocase c (b :: r) s (matchOne nocase fuel p s) := matchOne_spec hc hp hstar (by omega)
  unfold stringmatchlen
  rw [if_neg (by rw [hp.len, List.length_cons]; omega), hp.byte (Nat.zero_le _), ok_bind, List.getD_cons_zero,
    if_neg hstar]
  obtain ⟨t, p', x, rest, hone, hne, hp', hle, htokens, hending⟩ | ⟨hone, htokens, hending⟩ := hread
  . rw [hone, expected_of_token hne htokens hending]
    rw [List.length_cons] at hle
    by_cases hhas : t.has nocase c = true
    . have hrest := hp'.move (Nat.succ_pos _)
      rw [List.drop_one, List.tail_cons] at hrest
      have htake : takeByte p' s = .ok (some (p', s.move 1)) := by
        unfold takeByte
        rw [hs.next (Nat.succ_pos _)]
        rfl
      rw [if_pos hhas, if_neg (by simp [hlen, hhas]), htake, ok_bind]
      dsimp only
      rw [hp'.next (Nat.succ_pos _), ok_bind]
      cases str with
      | nil =>
        have hdone : (s.move 1).len = 0 := hs'.len
        obtain ⟨p'', hskip, hiff⟩ := skipStars_spec nocase hrest (show rest.length < fuel by omega)
        rw [if_pos hdone, hskip, ok_bind, hdone, expected_nil hiff]
        simp [pure, Except.pure]
      | cons d str =>
        rw [if_neg (by rw [hs'.len, List.length_cons]; omega)]
        rw [List.length_cons] at hfuel
        exact hmatches _ _ rest (d :: str) hrest hs' (List.cons_ne_nil _ _) (by rw [List.length_cons]; omega)
    . rw [if_neg hhas, if_pos (.inr (Bool.eq_false_iff.mpr hhas)), ok_bind]
      rfl
  . rw [hone, error_bind]
    unfold expected
    rw [if_pos hending, htokens]
    rfl

theorem MatcherAgrees.succ (hmatches : MatcherAgrees nocase fuel) (hloops : StarLoopAgrees nocase fuel)
    : MatcherAgrees nocase (fuel + 1) := by
  intro p s pattern str hp hs hstr hfuel
  obtain ⟨c, str, rfl⟩ := List.exists_cons_of_ne_nil hstr
  rw [List.length_cons] at hfuel
  cases pattern with
  | nil =>
    have hzero : p.len = 0 := hp.len
    have hlen : s.len ≠ 0 := by
      rw [hs.len, List.length_cons]
      omega
    unfold stringmatchlen
    rw [if_pos hzero, beq_eq_false_iff_ne.mpr hlen]
    rfl
  | cons b r =>
    rw [List.length_cons] at hfuel
    by_cases hstar : b = star
    . subst hstar
      apply stringmatchlen_star hloops hp hs
      omega
    . apply stringmatchlen_token hmatches hstar hp hs
      omega

theorem StarLoopAgrees.succ (hmatches : MatcherAgrees nocase fuel) (hloops : StarLoopAgrees nocase fuel)
    : StarLoopAgrees nocase (fuel + 1) := by
  intro p s r str hp hhead hne hs hfuel
  unfold starLoop
  cases str with
  | nil =>
    have hlen : s.len = 0 := hs.len
    rw [if_pos hlen]
    exact (expected_star_nil hp hhead hne).symm
  | cons c str =>
    have hrest := hp.move (Nat.succ_pos _)
    rw [List.drop_one, List.tail_cons] at hrest
    have hs' := hs.move (Nat.succ_pos _)
    rw [List.drop_one, List.tail_cons] at hs'
    rw [if_neg (by rw [hs.len, List.length_cons]; omega), hp.next (Nat.succ_pos _), ok_bind, expected_star]
    rw [List.length_cons] at hfuel
    rw [hmatches _ _ r (c :: str) hrest hs (List.cons_ne_nil _ _) (by rw [List.length_cons]; omega)]
    cases expected nocase r (c :: str) with
    | error e => rfl
    | ok matched =>
      cases matched with
      | true => rfl
      | false =>
        rw [ok_bind, ok_bind, if_neg Bool.false_ne_true, if_neg Bool.false_ne_true, hs.next (Nat.succ_pos _), ok_bind]
        exact hloops _ _ r str hp hhead hne hs' (by omega)

theorem matcher_spec (nocase : Bool) (fuel : Nat) : MatcherAgrees nocase fuel ∧ StarLoopAgrees nocase fuel := by
  induction fuel with
  | zero => exact ⟨fun _ _ _ _ _ _ _ h => absurd h (by omega), fun _ _ _ _ _ _ _ _ h => absurd h (by omega)⟩
  | succ fuel ih => exact ⟨.succ ih.1 ih.2, .succ ih.1 ih.2⟩

end

end StringMatch
end Kids
