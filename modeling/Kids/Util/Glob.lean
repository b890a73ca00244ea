import Kids.Util.StringMatchLemmas

/-!
What `stringmatchlen` promises: on which patterns and strings it stays within its bounds, and that it then finds
the strings of the pattern.
-/

namespace Kids

open Bytes Wildcard Pattern

namespace StringMatch

/--
The call comes to this result, however many steps it is given beyond those it needs.
-/
def Returns (nocase : Bool) (pattern string : Bytes) (result : Except Fault Bool) : Prop :=
  ∃ n, ∀ fuel ≥ n, stringmatchlen nocase fuel (.start pattern) (.start string) = result

theorem Returns.unique {result result' : Except Fault Bool} (h : Returns nocase pattern string result)
    (h' : Returns nocase pattern string result') : result = result' := by
  obtain ⟨n, h⟩ := h
  obtain ⟨n', h'⟩ := h'
  rw [← h (max n n') (Nat.le_max_left _ _), ← h' (max n n') (Nat.le_max_right _ _)]

theorem returns_expected (nocase : Bool) (pattern : Bytes) {string : Bytes} (hne : string ≠ [])
    : Returns nocase pattern string (expected nocase pattern string) :=
  ⟨2 * pattern.length + string.length + 2, fun fuel hfuel =>
    (matcher_spec nocase fuel).1 _ _ pattern string (.start pattern) (.start string) hne hfuel⟩

-- a token that compares a byte of the string, and finds the NUL to be in order
def TakesNul (nocase : Bool) (t : PatternToken) : Prop :=
  t ≠ .star ∧ t ≠ .any ∧ t.has nocase nul = true

section

variable {nocase : Bool} {p s : Cursor} {fuel : Nat}

/--
With an empty string the first token is compared with the NUL behind it.
-/
theorem matcher_empty (nocase : Bool) {b : UInt8} {r : Bytes} (hp : Over p (b :: r)) (hs : Over s []) (hne : b ≠ star)
    (hfuel : r.length < fuel)
    : (tokens (b :: r) = [] ∧ ending (b :: r) = .broken ∧
          stringmatchlen nocase (fuel + 1) p s = .error .negative) ∨
      ∃ t ts, tokens (b :: r) = t :: ts ∧ t ≠ .star ∧
        stringmatchlen nocase (fuel + 1) p s =
          if t = .any ∨ t.has nocase nul = false then .ok false else .error .negative := by
  have hzero : s.len = 0 := hs.len
  have hread : TokenRead nocase nul (b :: r) s (matchOne nocase fuel p s) :=
    matchOne_spec (hs.byte (Nat.zero_le _)) hp hne hfuel
  unfold stringmatchlen
  rw [if_neg (by rw [hp.len, List.length_cons]; omega), hp.byte (Nat.zero_le _), ok_bind, List.getD_cons_zero,
    if_neg hne]
  obtain ⟨t, p', x, rest, hone, hstar, -, -, htokens, -⟩ | ⟨hone, htokens, hending⟩ := hread
  . refine .inr ⟨t, _, htokens, hstar, ?_⟩
    rw [hone]
    by_cases hnone : t = .any ∨ t.has nocase nul = false
    . rw [if_pos (hnone.imp_left fun h => ⟨h, hzero⟩), if_pos hnone]
      rfl
    . have htake : takeByte p' s = .error .negative := by
        unfold takeByte
        rw [hs.next_nil]
        rfl
      rw [if_neg (fun h => hnone (h.imp_left And.left)), if_neg hnone, htake]
      rfl
  . rw [hone]
    exact .inl ⟨htokens, hending, rfl⟩

theorem matcher_empty_star {r : Bytes} (hp : Over p (star :: r)) (hs : Over s []) (hfuel : r.length + 1 < fuel)
    : stringmatchlen nocase (fuel + 1) p s = expected nocase (star :: r) [] := by
  have hzero : s.len = 0 := hs.len
  obtain ⟨p', r', hcollapse, hp', -, hhead, hending, hwalk⟩ := collapse_spec nocase hp (show r.length < fuel by omega)
  have hsame : expected nocase (star :: r) [] = expected nocase (star :: r') [] :=
    expected_congr (by rw [ending_of_cons scan_star, ending_of_cons scan_star, hending]) fun fin => hwalk fin _
  unfold stringmatchlen
  rw [if_neg (by rw [hp.len, List.length_cons]; omega), hp.byte (Nat.zero_le _), ok_bind, List.getD_cons_zero,
    if_pos rfl, hcollapse, ok_bind, hsame]
  cases r' with
  | nil =>
    have hone : p'.len = 1 := hp'.len
    rw [if_pos hone]
    rfl
  | cons d r' =>
    rw [if_neg (by rw [hp'.len]; simp only [List.length_cons]; omega), expected_star_nil hp' hhead (List.cons_ne_nil _ _)]
    obtain ⟨fuel, rfl⟩ := Nat.exists_eq_add_of_lt hfuel
    unfold starLoop
    rw [if_pos hzero]
    rfl

end

/--
What a call can run into. With a string that is empty, a class or a byte at the front of the pattern takes the
NUL. With a pattern that ends in a class after a backslash, the tokens before the class take the string up to a
byte that is there for the class.
-/
def Unsafe (nocase : Bool) (pattern string : Bytes) : Prop :=
  string = [] ∧ (∃ t ts, tokens pattern = t :: ts ∧ TakesNul nocase t) ∨
  ending pattern = .broken ∧
    (string = [] ∧ tokens pattern = [] ∨
      ∃ u v, string = u ++ v ∧ v ≠ [] ∧ Takes ((tokens pattern).map (PatternToken.step nocase)) u)

section

variable {nocase : Bool} {pattern string : Bytes}

theorem unsafe_nil : Unsafe nocase pattern [] ↔
    (∃ t ts, tokens pattern = t :: ts ∧ TakesNul nocase t) ∨ ending pattern = .broken ∧ tokens pattern = [] := by
  unfold Unsafe
  have hnone : ¬∃ u v : Bytes, [] = u ++ v ∧ v ≠ [] ∧ Takes ((tokens pattern).map (PatternToken.step nocase)) u := by
    rintro ⟨u, v, happend, hne, -⟩
    exact hne (List.append_eq_nil_iff.mp happend.symm).2
  simp only [hnone, true_and, or_false]

theorem unsafe_ne_nil (hne : string ≠ []) : Unsafe nocase pattern string ↔
    ending pattern = .broken ∧
      walk (fun v : Bytes => !v.isEmpty) ((tokens pattern).map (PatternToken.step nocase)) string = true := by
  unfold Unsafe
  rw [walk_iff]
  simp only [hne, false_and, false_or, Bool.not_eq_true', List.isEmpty_eq_false_iff]
  constructor
  . rintro ⟨hbroken, u, v, happend, hv, htakes⟩
    exact ⟨hbroken, u, v, happend, htakes, hv⟩
  . rintro ⟨hbroken, u, v, happend, htakes, hv⟩
    exact ⟨hbroken, u, v, happend, hv, htakes⟩

theorem returns_ok_iff {result : Except Fault Bool} (h : Returns nocase pattern string result)
    : (∃ b, Returns nocase pattern string (.ok b)) ↔ ∃ b, result = .ok b := by
  constructor
  . rintro ⟨b, hb⟩
    exact ⟨b, h.unique hb⟩
  . rintro ⟨b, rfl⟩
    exact ⟨b, h⟩

-- the matcher on the empty string, by the byte in front of the pattern
theorem returns_empty_nil : Returns nocase [] [] (.ok true) := by
  refine ⟨1, fun fuel hfuel => ?_⟩
  obtain ⟨fuel, rfl⟩ := Nat.exists_eq_add_of_le hfuel
  rw [Nat.add_comm, stringmatchlen]
  rfl

theorem returns_empty_star {r : Bytes} : Returns nocase (star :: r) [] (expected nocase (star :: r) []) := by
  refine ⟨r.length + 3, fun fuel hfuel => ?_⟩
  obtain ⟨fuel, rfl⟩ := Nat.exists_eq_add_of_le' (show 1 ≤ fuel by omega)
  exact matcher_empty_star (.start _) (.start []) (by omega)

theorem returns_empty_broken {b : UInt8} {r : Bytes} (hne : b ≠ star) (htokens : tokens (b :: r) = [])
    : Returns nocase (b :: r) [] (.error .negative) := by
  refine ⟨r.length + 2, fun fuel hfuel => ?_⟩
  obtain ⟨fuel, rfl⟩ := Nat.exists_eq_add_of_le' (show 1 ≤ fuel by omega)
  obtain ⟨-, -, herror⟩ | ⟨t, ts, hcons, -⟩ :=
    matcher_empty nocase (.start (b :: r)) (.start []) hne (show r.length < fuel by omega)
  . exact herror
  . rw [htokens] at hcons
    cases hcons

theorem returns_empty_token {b : UInt8} {r : Bytes} {t : PatternToken} {ts : List PatternToken} (hne : b ≠ star)
    (htokens : tokens (b :: r) = t :: ts)
    : Returns nocase (b :: r) [] (if t = .any ∨ t.has nocase nul = false then .ok false else .error .negative) := by
  refine ⟨r.length + 2, fun fuel hfuel => ?_⟩
  obtain ⟨fuel, rfl⟩ := Nat.exists_eq_add_of_le' (show 1 ≤ fuel by omega)
  obtain ⟨hnil, -⟩ | ⟨t', ts', hcons, -, hresult⟩ :=
    matcher_empty nocase (.start (b :: r)) (.start []) hne (show r.length < fuel by omega)
  . rw [htokens] at hnil
    cases hnil
  . rw [htokens] at hcons
    cases hcons
    exact hresult

theorem returns_empty_iff (pattern : Bytes)
    : (∃ b, Returns nocase pattern [] (.ok b)) ↔ ¬Unsafe nocase pattern [] := by
  rw [unsafe_nil]
  match pattern with
  | [] =>
    refine iff_of_true ⟨true, returns_empty_nil⟩ ?_
    rintro (⟨t, ts, htokens, -⟩ | ⟨hending, -⟩)
    . cases htokens
    . cases hending
  | b :: r =>
    by_cases hstar : b = star
    . subst hstar
      rw [returns_ok_iff returns_empty_star, tokens_of_cons scan_star]
      refine iff_of_true ?_ ?_
      . unfold expected
        dsimp only
        rw [walk_left_nil]
        split
        . exact ⟨false, rfl⟩
        . exact ⟨_, rfl⟩
      . rintro (⟨t, ts, htokens, htakes⟩ | ⟨-, htokens⟩)
        . cases htokens
          exact htakes.1 rfl
        . cases htokens
    . obtain ⟨htokens, hbroken⟩ | ⟨t, ts, hne, htokens⟩ := tokens_of_ne_star (.start (b :: r)) hstar
      . rw [returns_ok_iff (returns_empty_broken hstar htokens)]
        exact iff_of_false nofun fun h => h (.inr ⟨hbroken, htokens⟩)
      . rw [returns_ok_iff (returns_empty_token hstar htokens), htokens]
        split
        . next hnone =>
          refine iff_of_true ⟨false, rfl⟩ ?_
          rintro (⟨t', ts', hcons, -, hany, hnul⟩ | ⟨-, hnil⟩)
          . cases hcons
            rcases hnone with h | h
            . exact hany h
            . rw [hnul] at h
              cases h
          . cases hnil
        . next hnone =>
          rw [not_or] at hnone
          refine iff_of_false nofun fun h => h (.inl ⟨t, ts, rfl, hne, hnone.1, ?_⟩)
          exact (Bool.not_eq_false _).mp hnone.2

end

/--
The matcher terminates without a length below zero or a read out of bounds.
-/
theorem returns_iff_not_unsafe (nocase : Bool) (pattern string : Bytes)
    : (∃ b, Returns nocase pattern string (.ok b)) ↔ ¬Unsafe nocase pattern string := by
  by_cases hne : string = []
  . subst hne
    exact returns_empty_iff pattern
  . rw [returns_ok_iff (returns_expected nocase pattern hne), unsafe_ne_nil hne]
    unfold expected
    dsimp only
    split
    . next hbroken =>
      rw [and_iff_right hbroken]
      split
      . next hwalk => exact iff_of_false nofun fun h => h hwalk
      . next hwalk => exact iff_of_true ⟨false, rfl⟩ hwalk
    . next hbroken => exact iff_of_true ⟨_, rfl⟩ fun h => hbroken h.1

-- a class that ends in a backslash, and a byte for it
theorem returns_fails_backslash
    : ¬∀ nocase pattern string, ∃ b, Returns nocase pattern string (.ok b) := by
  intro hall
  obtain ⟨b, hb⟩ := hall false [lbracket, backslash] [97]
  have hreturns := returns_expected false [lbracket, backslash] (List.cons_ne_nil 97 [])
  have herror : expected false [lbracket, backslash] [97] = .error .negative := by decide
  rw [herror] at hreturns
  cases hb.unique hreturns

/--
The matcher finds the strings of the pattern.
-/
theorem returns_true_iff_language {pattern string : Bytes} (hclosed : Closed pattern) (hne : string ≠ [])
    : ∃ b, Returns false pattern string (.ok b) ∧ (b = true ↔ Language (tokens pattern) string) := by
  have hreturns := returns_expected false pattern hne
  unfold expected at hreturns
  unfold Closed at hclosed
  rw [if_neg (by rw [hclosed]; decide)] at hreturns
  refine ⟨_, hreturns, ?_⟩
  rw [walk_isEmpty_iff, takes_iff_language]

-- `a*[^0-9]` and `a.b`
theorem returns_true_iff_language_range
    : ∃ b, Returns false [97, star, lbracket, caret, 48, dash, 57, rbracket] [97, 46, 98] (.ok b) ∧
        (b = true ↔ Language (tokens [97, star, lbracket, caret, 48, dash, 57, rbracket]) [97, 46, 98]) :=
  returns_true_iff_language rfl (List.cons_ne_nil _ _)

end StringMatch
end Kids
