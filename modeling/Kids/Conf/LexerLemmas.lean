import Kids.Conf.Lexer

/-!
What the scanner hands to the parser: the codes of the grammar, with a text that has a byte at least.
-/

namespace Kids

open Bytes

namespace Lexer

/--
The match, if there is one, is made by the pattern of the action.
-/
def Found (text : Bytes) (best : Option (LexAction × Nat)) : Prop :=
  ∀ action n, best = some (action, n) → ∃ pattern, (action, pattern) ∈ patterns ∧ pattern text = some n

theorem found_longer (hbest : Found text best) (hp : p ∈ patterns) : Found text (longer best p.1 (p.2 text)) := by
  intro action n h
  unfold longer at h
  split at h
  . exact hbest action n h
  . next k hk =>
    have hnew : (action, n) = (p.1, k) → ∃ pattern, (action, pattern) ∈ patterns ∧ pattern text = some n := by
      rintro ⟨rfl, rfl⟩
      exact ⟨p.2, hp, hk⟩
    split at h
    . exact hnew (Option.some.inj h).symm
    . split at h
      . exact hnew (Option.some.inj h).symm
      . exact hbest action n h

theorem found_foldl (ps : List (LexAction × (Bytes → Option Nat))) (hps : ps ⊆ patterns) (hbest : Found text best)
    : Found text (ps.foldl (fun best p => longer best p.1 (p.2 text)) best) := by
  induction ps generalizing best with
  | nil => exact hbest
  | cons p ps ih =>
    rw [List.cons_subset] at hps
    exact ih hps.2 (found_longer hbest hps.1)

theorem found_scan (text : Bytes) : Found text (scan text) :=
  found_foldl patterns (List.Subset.refl _) nofun

theorem quoted_pos (hn : 0 < n) (hbest : ∀ m, best = some m → 0 < m)
    (h : quoted quote goesOn n best text = some k) : 0 < k := by
  fun_induction quoted quote goesOn n best text with
  | case1 n best => exact hbest k h
  | case2 n best s hgoesOn ih =>
    apply ih (Nat.succ_pos n) _ h
    intro m hm
    cases hm
    exact Nat.succ_pos n
  | case3 n best s hgoesOn =>
    cases h
    exact Nat.succ_pos n
  | case4 n best s hquote => exact hbest k h
  | case5 n best hquote => exact hbest k h
  | case6 n best hquote htick _ s ih => exact ih (Nat.succ_pos _) hbest h
  | case7 n best b s hquote htick hslash ih => exact ih (Nat.succ_pos n) hbest h

theorem line_pos (h : line text = some n) : 0 < n := by
  unfold line at h
  grind

theorem comment_pos (h : comment text = some n) : 0 < n := by
  unfold comment at h
  split at h
  . split at h
    . simp only [Option.map_eq_some_iff] at h
      obtain ⟨m, -, rfl⟩ := h
      omega
    . cases h
  . cases h

theorem ws_pos (h : ws text = some n) : 0 < n := by
  unfold ws at h
  grind

theorem noise_pos (h : noise text = some n) : 0 < n := by
  unfold noise at h
  simp only [Option.orElse_eq_orElse, Option.orElse_eq_or, Option.or_eq_some_iff] at h
  rcases h with h | ⟨-, h | ⟨-, h⟩⟩
  . exact ws_pos h
  . exact line_pos h
  . exact comment_pos h

theorem number_pos (h : number text = some n) : 0 < n := by
  unfold number at h
  grind

theorem keyword_pos (hname : 0 < (ofString name).length) (h : keyword name text = some n) : 0 < n := by
  unfold keyword at h
  grind

theorem single_pos (h : single c text = some n) : 0 < n := by
  unfold single at h
  grind

theorem doubleQuoted_pos (h : doubleQuoted text = some n) : 0 < n := by
  unfold doubleQuoted at h
  split at h
  . split at h
    . exact quoted_pos Nat.one_pos (by simp) h
    . cases h
  . cases h

theorem singleQuoted_pos (h : singleQuoted text = some n) : 0 < n := by
  unfold singleQuoted at h
  split at h
  . split at h
    . exact quoted_pos Nat.one_pos (by simp) h
    . cases h
  . cases h

theorem word_pos (h : word text = some n) : 0 < n := by
  unfold word at h
  grind

theorem pattern_pos (hp : p ∈ patterns) (h : p.2 text = some n) : 0 < n := by
  simp only [patterns, List.mem_cons, List.not_mem_nil, or_false] at hp
  rcases hp with rfl | rfl | rfl | rfl | rfl | rfl | rfl | rfl | rfl | rfl | rfl | rfl | rfl | rfl
  . exact number_pos h
  . exact keyword_pos (by decide) h
  . exact keyword_pos (by decide) h
  . exact keyword_pos (by decide) h
  . exact keyword_pos (by decide) h
  . exact keyword_pos (by decide) h
  . exact single_pos h
  . exact single_pos h
  . exact single_pos h
  . exact doubleQuoted_pos h
  . exact singleQuoted_pos h
  . exact word_pos h
  . exact comment_pos h
  . exact noise_pos h

-- the codes of the grammar, of which three come without a text
def actionOk : LexAction → Bool
  | .keyword major => [tkId, tkListen, tkStore, tkLog, tkBufferType].contains major
  | .symbol major => [tkSemicolon, tkLp, tkRp].contains major
  | .skip => true

theorem actionOk_of_mem (h : p ∈ patterns) : actionOk p.1 = true := by
  have hall : ∀ p ∈ patterns, actionOk p.1 = true := by
    simp [patterns, actionOk]
  exact hall p h

/--
A token with a text of one byte or more, a symbol, or nothing.
-/
def Lexeme.Worded : Lexeme → Prop
  | .token major (some text) => [tkId, tkListen, tkStore, tkLog, tkBufferType].contains major = true ∧ text ≠ []
  | .token major none => [tkSemicolon, tkLp, tkRp].contains major = true
  | .noise _ => True

theorem worded_lexeme (haction : actionOk action = true) (htext : text ≠ []) : (lexeme text action).Worded := by
  cases action with
  | keyword major => exact ⟨haction, htext⟩
  | symbol major => exact haction
  | skip => trivial

theorem worded_lexemes (fuel : Nat) (text : Bytes) : ∀ l ∈ (lexemes fuel text).1, l.Worded := by
  induction fuel generalizing text with
  | zero => exact fun l hl => nomatch hl
  | succ fuel ih =>
    unfold lexemes
    split
    . exact fun l hl => nomatch hl
    . next htext =>
      split
      . exact fun l hl => nomatch hl
      . next action n hscan =>
        obtain ⟨pattern, hmem, hpattern⟩ := found_scan text action n hscan
        have hpos : 0 < n := pattern_pos hmem hpattern
        have htake : text.take n ≠ [] := by
          rw [List.isEmpty_iff] at htext
          rw [ne_eq, List.take_eq_nil_iff]
          exact not_or.mpr ⟨hpos.ne', htext⟩
        intro l hl
        rcases List.mem_cons.mp hl with rfl | hl
        . exact worded_lexeme (actionOk_of_mem hmem) htake
        . exact ih _ l hl

end Lexer
end Kids
