import Mathlib.Data.List.Chain
import Kids.Conf.LexerLemmas

/-!
The values of a configuration text, and what the scanner makes of them.
-/

namespace Kids

open Bytes

namespace Lexer

def keywordNames : List String := ["listen", "store", "log", "primary", "secondary"]

def isQuote (b : UInt8) : Bool :=
  b == dquote || b == squote

structure BareWord where
  text : Bytes
  nonempty : text ≠ []
  allowed : ∀ b ∈ text, isWord b = true
  opening : ∀ b, text.head? = some b → isQuote b = false ∧ b ≠ hash
  notKeyword : ∀ name ∈ keywordNames, text.map tolower ≠ ofString name

structure QuotedText where
  quote : UInt8
  content : Bytes
  isQuote_quote : isQuote quote = true
  plain : ∀ b ∈ content, isQuote b = false ∧ b ≠ backtick ∧ b ≠ backslash

def QuotedText.text (q : QuotedText) : Bytes :=
  q.quote :: (q.content ++ [q.quote])

inductive Newline
  | lf
  | cr
  | crlf

def Newline.text : Newline → Bytes
  | lf => [Bytes.lf]
  | cr => [Bytes.cr]
  | crlf => Bytes.crlf

structure Comment where
  content : Bytes
  ending : Newline
  oneLine : ∀ b ∈ content, isLine b = false

def Comment.text (c : Comment) : Bytes :=
  hash :: (c.content ++ c.ending.text)

inductive Piece
  | bare (w : BareWord)
  | quoted (q : QuotedText)
  | blank (tab : Bool)
  | newline (l : Newline)
  | semicolon
  | brace (right : Bool)
  | comment (c : Comment)

namespace Piece

def text : Piece → Bytes
  | bare w => w.text
  | quoted q => q.text
  | blank tab => [if tab then 9 else 32]
  | newline l => l.text
  | semicolon => [59]
  | brace right => [if right then 125 else 123]
  | comment c => c.text

-- a quoted value stands for what is between its quotes
def value? : Piece → Option Bytes
  | bare w => some w.text
  | quoted q => some q.content
  | _ => none

def isQuoted : Piece → Bool
  | quoted _ => true
  | _ => false

def isComment : Piece → Bool
  | comment _ => true
  | _ => false

end Piece

def Apart (p q : Piece) : Prop :=
  p.value? = none ∨ q.value? = none

structure ConfWords where
  pieces : List Piece
  apart : pieces.IsChain Apart

def piecesText (pieces : List Piece) : Bytes :=
  pieces.flatMap Piece.text

def ConfWords.text (t : ConfWords) : Bytes :=
  piecesText t.pieces

def ConfWords.values (t : ConfWords) : List Bytes :=
  t.pieces.filterMap Piece.value?

def Lexeme.word? : Lexeme → Option Bytes
  | .token major value => if major = tkId then value else none
  | .noise _ => none

/--
The texts of the `TK_ID` tokens, if the scan comes to the end of the text.
-/
def scanWords (text : Bytes) : Option (List Bytes) :=
  if (lex text).2 then some ((lex text).1.filterMap Lexeme.word?) else none

def Covers (best : Option (LexAction × Nat)) (m : Nat) : Prop :=
  ∃ action k, best = some (action, k) ∧ m ≤ k

theorem covers_longer_of_covers (hbest : Covers best m) : Covers (longer best action found) m := by
  obtain ⟨a, k, rfl, hk⟩ := hbest
  cases found with
  | none => exact ⟨a, k, rfl, hk⟩
  | some n =>
    unfold longer
    dsimp only
    split
    . exact ⟨action, n, rfl, by omega⟩
    . exact ⟨a, k, rfl, hk⟩

theorem covers_longer_match (best : Option (LexAction × Nat)) : Covers (longer best action (some m)) m := by
  unfold longer
  dsimp only
  split
  . exact ⟨action, m, rfl, Nat.le_refl m⟩
  . next a k =>
    split
    . exact ⟨action, m, rfl, Nat.le_refl m⟩
    . exact ⟨a, k, rfl, by omega⟩

theorem covers_foldl_of_covers (ps : List (LexAction × (Bytes → Option Nat))) (hbest : Covers best m)
    : Covers (ps.foldl (fun best p => longer best p.1 (p.2 text)) best) m := by
  induction ps generalizing best with
  | nil => exact hbest
  | cons p ps ih => exact ih (covers_longer_of_covers hbest)

theorem covers_foldl (ps : List (LexAction × (Bytes → Option Nat))) (best : Option (LexAction × Nat)) (hp : p ∈ ps)
    (hmatch : p.2 text = some m)
    : Covers (ps.foldl (fun best p => longer best p.1 (p.2 text)) best) m := by
  induction ps generalizing best with
  | nil => cases hp
  | cons q ps ih =>
    rcases List.mem_cons.mp hp with rfl | hp
    . have hnow : Covers (longer best p.1 (p.2 text)) m := by
        rw [hmatch]
        apply covers_longer_match
      exact covers_foldl_of_covers ps hnow
    . exact ih _ hp

-- what the patterns match

theorem length_le_takeWhile {text : Bytes} (hn : n ≤ text.length) (h : ∀ b ∈ text.take n, isWord b = true)
    : n ≤ (text.takeWhile isWord).length := by
  rw [← List.take_append_drop n text, List.takeWhile_append_of_pos h, List.length_append, List.length_take]
  omega

theorem forall_byte {P : UInt8 → Prop} (h : ∀ i : Fin 256, P (UInt8.ofNat i)) (b : UInt8) : P b := by
  have hb := h ⟨b.toNat, b.toNat_lt⟩
  rwa [UInt8.ofNat_toNat] at hb

theorem isWord_of_isDigit : ∀ b, isDigit b = true → isWord b = true := by
  apply forall_byte
  decide +kernel

theorem isWord_of_tolower : ∀ b, isWord (tolower b) = true → isWord b = true := by
  apply forall_byte
  decide +kernel

theorem name_byte : ∀ name ∈ keywordNames, ∀ b ∈ ofString name, isWord b = true ∧ isQuote b = false ∧ b ≠ hash := by
  decide +kernel

theorem number_le (h : number text = some n) : n ≤ (text.takeWhile isWord).length := by
  unfold number at h
  split at h
  . next b s =>
    split at h
    . next hb =>
      cases h
      have hdigit : isDigit b = true := by
        simp only [Bool.and_eq_true, decide_eq_true_eq] at hb
        simp only [isDigit, Bool.and_eq_true, decide_eq_true_eq]
        exact ⟨UInt8.le_trans (by decide : (48 : UInt8) ≤ 49) hb.1, hb.2⟩
      apply length_le_takeWhile
      . have := (List.takeWhile_prefix isDigit (l := s)).length_le
        simp only [List.length_cons]
        omega
      . intro c hc
        rw [Nat.add_comm, List.take_succ_cons, ← List.prefix_iff_eq_take.mp (List.takeWhile_prefix isDigit)] at hc
        rcases List.mem_cons.mp hc with rfl | hc
        . exact isWord_of_isDigit c hdigit
        . exact isWord_of_isDigit c (List.mem_takeWhile_imp hc)
    . cases h
  . cases h

theorem keyword_eq (h : keyword name text = some n)
    : n = (ofString name).length ∧ (text.take n).map tolower = ofString name := by
  unfold keyword at h
  dsimp only at h
  split at h
  . next htake =>
    cases h
    exact ⟨rfl, htake⟩
  . cases h

theorem keyword_le (hname : name ∈ keywordNames) (h : keyword name text = some n)
    : n ≤ (text.takeWhile isWord).length := by
  obtain ⟨hn, htake⟩ := keyword_eq h
  apply length_le_takeWhile
  . have hlength := congrArg List.length htake
    rw [List.length_map, List.length_take, ← hn] at hlength
    omega
  . intro b hb
    have hlower : tolower b ∈ ofString name := by
      rw [← htake]
      exact List.mem_map_of_mem hb
    apply isWord_of_tolower
    exact (name_byte name hname _ hlower).1

theorem word_le (h : word text = some n) : n = (text.takeWhile isWord).length := by
  unfold word at h
  grind

theorem single_head (h : single c text = some n) : text.head? = some c ∧ n = 1 := by
  unfold single at h
  grind

theorem doubleQuoted_head (h : doubleQuoted text = some n) : text.head? = some dquote := by
  unfold doubleQuoted at h
  grind

theorem singleQuoted_head (h : singleQuoted text = some n) : text.head? = some squote := by
  unfold singleQuoted at h
  grind

theorem comment_head (h : comment text = some n) : text.head? = some hash := by
  unfold comment at h
  grind

theorem noise_of_comment (h : comment text = some n) : noise text = some n := by
  have hhead := comment_head h
  cases text with
  | nil => cases hhead
  | cons b s =>
    cases hhead
    rw [← h]
    rfl

def symbols : List (UInt8 × Nat) := [(59, tkSemicolon), (123, tkLp), (125, tkRp)]

inductive Matches (text : Bytes) : LexAction → Nat → Prop
  | word (hn : n ≤ (text.takeWhile isWord).length) : Matches text (.keyword tkId) n
  | name (hn : n ≤ (text.takeWhile isWord).length) (hname : name ∈ keywordNames)
      (htake : (text.take n).map tolower = ofString name) : Matches text (.keyword major) n
  | symbol (hb : (b, major) ∈ symbols) (hhead : text.head? = some b) : Matches text (.symbol major) 1
  | quoted (hb : isQuote b = true) (hhead : text.head? = some b) : Matches text (.keyword tkId) n
  | noise (hnoise : noise text = some n) : Matches text .skip n

theorem matches_name (hname : name ∈ keywordNames) (h : keyword name text = some n)
    : Matches text (.keyword major) n := by
  apply Matches.name (keyword_le hname h) hname
  exact (keyword_eq h).2

theorem matches_single (hc : (c, major) ∈ symbols) (h : single c text = some n) : Matches text (.symbol major) n := by
  obtain ⟨hhead, rfl⟩ := single_head h
  exact Matches.symbol hc hhead

theorem matches_of_mem (hp : p ∈ patterns) (h : p.2 text = some n) : Matches text p.1 n := by
  simp only [patterns, List.mem_cons, List.not_mem_nil, or_false] at hp
  rcases hp with rfl | rfl | rfl | rfl | rfl | rfl | rfl | rfl | rfl | rfl | rfl | rfl | rfl | rfl
  . exact Matches.word (number_le h)
  . exact matches_name (by decide) h
  . exact matches_name (by decide) h
  . exact matches_name (by decide) h
  . exact matches_name (by decide) h
  . exact matches_name (by decide) h
  . exact matches_single (by decide) h
  . exact matches_single (by decide) h
  . exact matches_single (by decide) h
  . exact Matches.quoted (by decide) (doubleQuoted_head h)
  . exact Matches.quoted (by decide) (singleQuoted_head h)
  . exact Matches.word (word_le h).le
  . exact Matches.noise (noise_of_comment h)
  . exact Matches.noise h

theorem scan_of_longest (hp : (action, pattern) ∈ patterns) (hmatch : pattern text = some n)
    (hmax : ∀ a m, Matches text a m → m < n ∨ m = n ∧ a = action) : scan text = some (action, n) := by
  obtain ⟨a, k, hscan, hk⟩ := covers_foldl patterns none hp hmatch
  change scan text = some (a, k) at hscan
  obtain ⟨pattern', hmem, hmatch'⟩ := found_scan text a k hscan
  rcases hmax a k (matches_of_mem hmem hmatch') with hless | ⟨rfl, rfl⟩
  . omega
  . exact hscan

-- one match of a text

theorem scan_pos (hscan : scan text = some (action, n)) : 0 < n := by
  obtain ⟨pattern, hmem, hmatch⟩ := found_scan text action n hscan
  exact pattern_pos hmem hmatch

theorem scan_nil : scan [] = none := rfl

theorem lexemes_fuel {text : Bytes} (hfuel : text.length ≤ fuel) (hfuel' : text.length ≤ fuel')
    : lexemes fuel text = lexemes fuel' text := by
  induction fuel generalizing text fuel' with
  | zero =>
    have hnil : text = [] := List.length_eq_zero_iff.mp (Nat.le_zero.mp hfuel)
    subst hnil
    cases fuel' <;> rfl
  | succ fuel ih =>
    cases text with
    | nil => cases fuel' <;> rfl
    | cons b s =>
      cases fuel' with
      | zero => cases hfuel'
      | succ fuel' =>
        unfold lexemes
        cases hscan : scan (b :: s) with
        | none => rfl
        | some found =>
          have hpos : 0 < found.2 := scan_pos hscan
          have hrest : lexemes fuel ((b :: s).drop found.2) = lexemes fuel' ((b :: s).drop found.2) := by
            rw [List.length_cons] at hfuel hfuel'
            apply ih
            . rw [List.length_drop, List.length_cons]
              omega
            . rw [List.length_drop, List.length_cons]
              omega
          dsimp only
          rw [hrest]

theorem lex_match {text : Bytes} (hscan : scan text = some (action, n))
    : lex text = (lexeme (text.take n) action :: (lex (text.drop n)).1, (lex (text.drop n)).2) := by
  cases text with
  | nil => cases hscan
  | cons b s =>
    have hpos : 0 < n := scan_pos hscan
    have hrest : lexemes s.length ((b :: s).drop n) = lex ((b :: s).drop n) := by
      apply lexemes_fuel
      . rw [List.length_drop, List.length_cons]
        omega
      . apply Nat.le_refl
    change lexemes (s.length + 1) (b :: s) = _
    unfold lexemes
    rw [hscan, List.isEmpty_cons, if_neg Bool.false_ne_true, ← hrest]

theorem scanWords_pass (hscan : scan text = some (action, n)) (haction : ∀ t, (lexeme t action).word? = none)
    : scanWords text = scanWords (text.drop n) := by
  unfold scanWords
  rw [lex_match hscan, List.filterMap_cons_none (haction _)]

theorem scanWords_word (hscan : scan text = some (.keyword tkId, n))
    : scanWords text = (scanWords (text.drop n)).map (text.take n :: ·) := by
  unfold scanWords
  rw [lex_match hscan]
  dsimp only
  have hword : (lexeme (text.take n) (.keyword tkId)).word? = some (text.take n) := rfl
  rw [List.filterMap_cons_some hword]
  split <;> rfl

-- what may stand between values

theorem ws_head (h : ws (b :: s) = some n) : b = 9 ∨ b = 32 := by
  unfold ws at h
  grind

theorem line_head (h : line (b :: s) = some n) : b = cr ∨ b = lf := by
  unfold line at h
  grind

theorem noise_head (h : noise text = some n) : ∃ b, text.head? = some b ∧ b ∈ [9, 32, cr, lf, hash] := by
  cases text with
  | nil => cases h
  | cons b s =>
    unfold noise at h
    simp only [Option.orElse_eq_orElse, Option.orElse_eq_or, Option.or_eq_some_iff] at h
    refine ⟨b, rfl, ?_⟩
    rcases h with h | ⟨-, h | ⟨-, h⟩⟩
    . rcases ws_head h with rfl | rfl
      . decide
      . decide
    . rcases line_head h with rfl | rfl
      . decide
      . decide
    . cases comment_head h
      decide

theorem not_symbol_of_noise : ∀ b ∈ [9, 32, cr, lf, hash], (b, major) ∉ symbols := by
  simp [symbols, cr, lf, hash]

theorem not_quote_of_noise : ∀ b ∈ [9, 32, cr, lf, hash], ¬isQuote b = true := by
  decide +kernel

theorem hash_of_noise : ∀ b ∈ [9, 32, cr, lf, hash], isWord b = true → b = hash := by
  decide +kernel

theorem scan_noise (hnoise : noise text = some n) (hword : (text.takeWhile isWord).length < n)
    : scan text = some (.skip, n) := by
  obtain ⟨b, hhead, hb⟩ := noise_head hnoise
  have hmem : (LexAction.skip, noise) ∈ patterns := by
    simp [patterns]
  apply scan_of_longest hmem hnoise
  intro a m hm
  cases hm with
  | word hn =>
    left
    omega
  | name hn hname htake =>
    left
    omega
  | symbol hc hhead' =>
    rw [hhead] at hhead'
    cases hhead'
    apply absurd hc
    apply not_symbol_of_noise b hb
  | quoted hc hhead' =>
    rw [hhead] at hhead'
    cases hhead'
    apply absurd hc
    apply not_quote_of_noise b hb
  | noise hnoise' =>
    right
    rw [hnoise] at hnoise'
    cases hnoise'
    exact ⟨rfl, rfl⟩

theorem opening_of_mem_symbols : ∀ p ∈ symbols, isWord p.1 = false ∧ isQuote p.1 = false := by
  decide

theorem length_takeWhile_le (hb : isWord b = false) (s t : Bytes)
    : ((s ++ b :: t).takeWhile isWord).length ≤ s.length := by
  rw [List.takeWhile_append, List.takeWhile_cons_of_neg (ne_true_of_eq_false hb), List.append_nil]
  split
  . apply Nat.le_refl
  . apply (List.takeWhile_prefix isWord).length_le

theorem length_takeWhile_of_not (hb : isWord b = false) (s : Bytes) : ((b :: s).takeWhile isWord).length = 0 := by
  apply Nat.le_zero.mp
  apply length_takeWhile_le hb []

theorem single_mem_patterns : ∀ p ∈ symbols, (.symbol p.2, single p.1) ∈ patterns := by
  simp [symbols, patterns]

theorem symbols_inj : ∀ p ∈ symbols, ∀ q ∈ symbols, p.1 = q.1 → p = q := by
  decide

theorem scan_symbol (hb : (b, major) ∈ symbols) (s : Bytes) : scan (b :: s) = some (.symbol major, 1) := by
  obtain ⟨hword, hquote⟩ := opening_of_mem_symbols (b, major) hb
  have hmatch : single b (b :: s) = some 1 := if_pos rfl
  apply scan_of_longest (single_mem_patterns (b, major) hb) hmatch
  intro a m hm
  cases hm with
  | word hn =>
    left
    rw [length_takeWhile_of_not hword] at hn
    omega
  | name hn hname htake =>
    left
    rw [length_takeWhile_of_not hword] at hn
    omega
  | symbol hc hhead =>
    right
    cases hhead
    cases symbols_inj _ hc _ hb rfl
    exact ⟨rfl, rfl⟩
  | quoted hc hhead =>
    cases hhead
    rw [hquote] at hc
    cases hc
  | noise hnoise =>
    obtain ⟨c, hhead, hc⟩ := noise_head hnoise
    cases hhead
    apply absurd hb
    apply not_symbol_of_noise b hc

def Passed (text : Bytes) : Prop :=
  ∀ rest, scanWords (text ++ rest) = scanWords rest

theorem passed_symbol (major : Nat) (hb : (b, major) ∈ symbols) : Passed [b] := by
  intro rest
  have hword : ∀ t, (lexeme t (.symbol major)).word? = none := fun _ => ite_self none
  rw [List.singleton_append, scanWords_pass (scan_symbol hb rest) hword]
  rfl

theorem passed_blank (hb : b = 9 ∨ b = 32) : Passed [b] := by
  intro rest
  have hword : isWord b = false := by
    rcases hb with rfl | rfl
    . rfl
    . rfl
  have hnoise : noise (b :: rest) = some 1 := by
    have hws : ws (b :: rest) = some 1 := if_pos hb
    unfold noise
    rw [hws]
    rfl
  have hscan : scan (b :: rest) = some (.skip, 1) := by
    apply scan_noise hnoise
    rw [length_takeWhile_of_not hword]
    exact Nat.one_pos
  rw [List.singleton_append, scanWords_pass hscan fun _ => rfl]
  rfl

theorem scan_line (hline : line text = some n) : scan text = some (.skip, n) := by
  cases text with
  | nil => cases hline
  | cons b s =>
    have hb := line_head hline
    have hws : ws (b :: s) = none := by
      rcases hb with rfl | rfl
      . rfl
      . rfl
    have hword : isWord b = false := by
      rcases hb with rfl | rfl
      . rfl
      . rfl
    apply scan_noise
    . unfold noise
      rw [hws, hline]
      rfl
    . rw [length_takeWhile_of_not hword]
      exact line_pos hline

theorem passed_lf : Passed [lf] := by
  intro rest
  have hline : line (lf :: rest) = some 1 := rfl
  rw [List.singleton_append, scanWords_pass (scan_line hline) fun _ => rfl]
  rfl

theorem line_newline (l : Newline) (rest : Bytes)
    : ∃ n, line (l.text ++ rest) = some n ∧ scanWords ((l.text ++ rest).drop n) = scanWords rest := by
  cases l with
  | lf => exact ⟨1, rfl, rfl⟩
  | crlf => exact ⟨2, rfl, rfl⟩
  | cr =>
    cases rest with
    | nil => exact ⟨1, rfl, rfl⟩
    | cons b s =>
      by_cases hb : b = lf
      . subst hb
        exact ⟨2, rfl, (passed_lf s).symm⟩
      . have hline : line (cr :: b :: s) = some 1 := by
          simp [line, hb]
        exact ⟨1, hline, rfl⟩

theorem passed_newline (l : Newline) : Passed l.text := by
  intro rest
  obtain ⟨n, hline, hdrop⟩ := line_newline l rest
  rw [scanWords_pass (scan_line hline) fun _ => rfl, hdrop]

theorem isLine_newline (l : Newline) (rest : Bytes) : ∃ b s, l.text ++ rest = b :: s ∧ isLine b = true := by
  cases l with
  | lf => exact ⟨lf, rest, rfl, rfl⟩
  | cr => exact ⟨cr, rest, rfl, rfl⟩
  | crlf => exact ⟨cr, lf :: rest, rfl, rfl⟩

theorem isWord_of_isLine : ∀ b, isLine b = true → isWord b = false := by
  apply forall_byte
  decide +kernel

theorem passed_comment (c : Comment) : Passed c.text := by
  intro rest
  obtain ⟨n, hline, hdrop⟩ := line_newline c.ending rest
  obtain ⟨b, s, hbreak, hb⟩ := isLine_newline c.ending rest
  have htext : c.text ++ rest = hash :: (c.content ++ (c.ending.text ++ rest)) := by
    rw [Comment.text, List.cons_append, List.append_assoc]
  have hcontent : (c.content ++ (c.ending.text ++ rest)).takeWhile (fun b => !isLine b) = c.content := by
    rw [List.takeWhile_append_of_pos (fun b hb => by rw [c.oneLine b hb]; rfl), hbreak,
      List.takeWhile_cons_of_neg (by simp [hb]), List.append_nil]
  have hcomment : comment (c.text ++ rest) = some (n + (1 + c.content.length)) := by
    rw [htext, comment, if_pos rfl]
    dsimp only
    rw [hcontent, List.drop_left, hline]
    rfl
  have hlength : ((c.text ++ rest).takeWhile isWord).length < n + (1 + c.content.length) := by
    have hrun := length_takeWhile_le (isWord_of_isLine b hb) (hash :: c.content) s
    have hpos := line_pos hline
    rw [htext, hbreak, ← List.cons_append]
    rw [List.length_cons] at hrun
    omega
  have hrest : (c.text ++ rest).drop (n + (1 + c.content.length)) = (c.ending.text ++ rest).drop n := by
    rw [htext, ← List.cons_append, Nat.add_comm, Nat.add_comm 1, ← List.length_cons (a := hash), ← List.drop_drop,
      List.drop_left]
  rw [scanWords_pass (scan_noise (noise_of_comment hcomment) hlength) fun _ => rfl, hrest, hdrop]

-- the values

theorem word_eq (hhead : text.head? = some b) (hb : isWord b = true)
    : word text = some (text.takeWhile isWord).length := by
  cases text with
  | nil => cases hhead
  | cons c s =>
    cases hhead
    unfold word
    dsimp only
    rw [List.takeWhile_cons_of_pos hb, List.length_cons, if_neg (Nat.succ_ne_zero _)]

theorem scan_word (hhead : text.head? = some b) (hb : isWord b = true ∧ isQuote b = false ∧ b ≠ hash)
    (hname : ∀ name ∈ keywordNames, (text.takeWhile isWord).map tolower ≠ ofString name)
    : scan text = some (.keyword tkId, (text.takeWhile isWord).length) := by
  have hmem : (LexAction.keyword tkId, word) ∈ patterns := by
    simp [patterns]
  apply scan_of_longest hmem (word_eq hhead hb.1)
  intro a m hm
  cases hm with
  | word hn =>
    rcases Nat.lt_or_eq_of_le hn with hn | hn
    . exact Or.inl hn
    . exact Or.inr ⟨hn, rfl⟩
  | @name _ name major hn hmem' htake =>
    left
    apply Nat.lt_of_le_of_ne hn
    rintro rfl
    apply hname name hmem'
    rw [← htake, ← List.prefix_iff_eq_take.mp (List.takeWhile_prefix isWord)]
  | symbol hc hhead' =>
    rw [hhead] at hhead'
    cases hhead'
    have hword := (opening_of_mem_symbols _ hc).1
    rw [hb.1] at hword
    cases hword
  | quoted hc hhead' =>
    rw [hhead] at hhead'
    cases hhead'
    rw [hb.2.1] at hc
    cases hc
  | noise hnoise =>
    obtain ⟨c, hhead', hc⟩ := noise_head hnoise
    rw [hhead] at hhead'
    cases hhead'
    have hword := hash_of_noise b hc hb.1
    exact absurd hword hb.2.2

theorem BareWord.head (w : BareWord) (rest : Bytes)
    : ∃ b, (w.text ++ rest).head? = some b ∧ isWord b = true ∧ isQuote b = false ∧ b ≠ hash := by
  cases htext : w.text with
  | nil => exact absurd htext w.nonempty
  | cons b s =>
    refine ⟨b, rfl, ?_, w.opening b ?_⟩
    . apply w.allowed
      rw [htext]
      exact List.mem_cons_self
    . rw [htext]
      rfl

theorem takeWhile_bare (w : BareWord) (rest : Bytes)
    : (w.text ++ rest).takeWhile isWord = w.text ++ rest.takeWhile isWord :=
  List.takeWhile_append_of_pos w.allowed

theorem scanWords_bare (w : BareWord) (hrest : ∀ b, rest.head? = some b → isWord b = false)
    : scanWords (w.text ++ rest) = (scanWords rest).map (w.text :: ·) := by
  obtain ⟨b, hhead, hb⟩ := w.head rest
  have hstop : rest.takeWhile isWord = [] := by
    cases rest with
    | nil => rfl
    | cons c s => exact List.takeWhile_cons_of_neg (ne_true_of_eq_false (hrest c rfl))
  have hrun : (w.text ++ rest).takeWhile isWord = w.text := by
    rw [takeWhile_bare, hstop, List.append_nil]
  have hname : ∀ name ∈ keywordNames, ((w.text ++ rest).takeWhile isWord).map tolower ≠ ofString name := by
    rw [hrun]
    exact w.notKeyword
  have hscan := scan_word hhead hb hname
  rw [hrun] at hscan
  rw [scanWords_word hscan, List.take_left, List.drop_left]

theorem ne_of_other_word (hscan : scanWords text = (scanWords rest).map (t :: ·)) (hne : t ≠ v)
    : scanWords text ≠ some (v :: vs) := by
  intro h
  rw [hscan, Option.map_eq_some_iff] at h
  obtain ⟨ts, -, hts⟩ := h
  exact hne (List.head_eq_of_cons_eq hts)

/--
A comment right behind a bare word becomes part of its token.
-/
theorem scanWords_swallow (w : BareWord) (rest : Bytes) (vs : List Bytes)
    : scanWords (w.text ++ hash :: rest) ≠ some (w.text :: vs) := by
  obtain ⟨b, hhead, hb⟩ := w.head (hash :: rest)
  have hrun : (w.text ++ hash :: rest).takeWhile isWord = w.text ++ hash :: rest.takeWhile isWord := by
    rw [takeWhile_bare]
    rfl
  have hname : ∀ name ∈ keywordNames, ((w.text ++ hash :: rest).takeWhile isWord).map tolower ≠ ofString name := by
    intro name hmem heq
    have hhash : tolower hash ∈ ofString name := by
      rw [← heq, hrun, List.map_append]
      exact List.mem_append_right _ List.mem_cons_self
    exact (name_byte name hmem _ hhash).2.2 rfl
  have hscan := scan_word hhead hb hname
  apply ne_of_other_word (scanWords_word hscan)
  rw [← List.prefix_iff_eq_take.mp (List.takeWhile_prefix isWord), hrun]
  intro heq
  have hlength := congrArg List.length heq
  rw [List.length_append, List.length_cons] at hlength
  omega

theorem isWord_of_isQuote : ∀ b, isQuote b = true → isWord b = true := by
  apply forall_byte
  decide +kernel

theorem isQuote_tolower : ∀ b, isQuote b = true → isQuote (tolower b) = true := by
  apply forall_byte
  decide +kernel

theorem not_quote_of_symbol (hb : (b, major) ∈ symbols) : ¬isQuote b = true :=
  ne_true_of_eq_false (opening_of_mem_symbols _ hb).2

theorem scan_quote (hb : isQuote b = true) (s : Bytes) : ∃ n, scan (b :: s) = some (.keyword tkId, n) := by
  have hmem : (LexAction.keyword tkId, word) ∈ patterns := by
    simp [patterns]
  have hmatch : word (b :: s) = some ((b :: s).takeWhile isWord).length := word_eq rfl (isWord_of_isQuote b hb)
  obtain ⟨a, n, hscan, -⟩ := covers_foldl patterns none hmem hmatch
  change scan (b :: s) = some (a, n) at hscan
  have hpos := scan_pos hscan
  obtain ⟨pattern, hmem', hmatch'⟩ := found_scan (b :: s) a n hscan
  refine ⟨n, ?_⟩
  rw [hscan]
  cases matches_of_mem hmem' hmatch' with
  | word hn => rfl
  | @name _ name major hn hname htake =>
    have hlower : tolower b ∈ ofString name := by
      rw [← htake]
      apply List.mem_map_of_mem
      rw [← Nat.succ_pred_eq_of_pos hpos, List.take_succ_cons]
      exact List.mem_cons_self
    have hquote := (name_byte name hname _ hlower).2.1
    rw [isQuote_tolower b hb] at hquote
    cases hquote
  | symbol hc hhead =>
    cases hhead
    exact absurd hb (not_quote_of_symbol hc)
  | quoted hc hhead => rfl
  | noise hnoise =>
    obtain ⟨c, hhead, hc⟩ := noise_head hnoise
    cases hhead
    exact absurd hb (not_quote_of_noise b hc)

theorem scanWords_quoted (q : QuotedText) (rest : Bytes) (vs : List Bytes)
    : scanWords (q.text ++ rest) ≠ some (q.content :: vs) := by
  obtain ⟨n, hscan⟩ := scan_quote q.isQuote_quote (q.content ++ [q.quote] ++ rest)
  change scan (q.text ++ rest) = _ at hscan
  apply ne_of_other_word (scanWords_word hscan)
  intro heq
  have hquote : q.quote ∈ q.content := by
    rw [← heq, ← Nat.succ_pred_eq_of_pos (scan_pos hscan)]
    exact List.mem_cons_self
  have hplain := (q.plain q.quote hquote).1
  rw [q.isQuote_quote] at hplain
  cases hplain

-- the whole text

theorem passed_text {p : Piece} (hvalue : p.value? = none) : Passed p.text := by
  cases p with
  | bare w => cases hvalue
  | quoted q => cases hvalue
  | blank tab =>
    apply passed_blank
    cases tab
    . exact Or.inr rfl
    . exact Or.inl rfl
  | newline l => exact passed_newline l
  | semicolon => exact passed_symbol tkSemicolon (by decide)
  | brace right =>
    cases right
    . exact passed_symbol tkLp (by decide)
    . exact passed_symbol tkRp (by decide)
  | comment c => exact passed_comment c

/--
No quoted value, and no comment right behind a bare word.
-/
def Plain (pieces : List Piece) : Prop :=
  (∀ p ∈ pieces, p.isQuoted = false) ∧ pieces.IsChain (fun p q => p.value? = none ∨ q.isComment = false)

theorem plain_cons : Plain (p :: ps)
    ↔ p.isQuoted = false ∧ (∀ q ∈ ps.head?, p.value? = none ∨ q.isComment = false) ∧ Plain ps := by
  unfold Plain
  rw [List.forall_mem_cons, List.isChain_cons]
  tauto

theorem plain_cons_of_pass {p : Piece} (hvalue : p.value? = none) : Plain (p :: ps) ↔ Plain ps := by
  have hquoted : p.isQuoted = false := by
    cases p with
    | quoted q => cases hvalue
    | _ => rfl
  rw [plain_cons]
  exact ⟨fun h => h.2.2, fun h => ⟨hquoted, fun _ _ => Or.inl hvalue, h⟩⟩

theorem plain_cons_bare : Plain (.bare w :: ps) ↔ (∀ q ∈ ps.head?, q.isComment = false) ∧ Plain ps := by
  rw [plain_cons]
  constructor
  . rintro ⟨-, hhead, hps⟩
    exact ⟨fun q hq => (hhead q hq).resolve_left nofun, hps⟩
  . rintro ⟨hhead, hps⟩
    exact ⟨rfl, fun q hq => Or.inr (hhead q hq), hps⟩

theorem opening_pass {p : Piece} (hvalue : p.value? = none) (hcomment : p.isComment = false)
    : ∃ b s, p.text = b :: s ∧ isWord b = false := by
  cases p with
  | bare w => cases hvalue
  | quoted q => cases hvalue
  | blank tab => cases tab <;> exact ⟨_, _, rfl, rfl⟩
  | newline l => cases l <;> exact ⟨_, _, rfl, rfl⟩
  | semicolon => exact ⟨_, _, rfl, rfl⟩
  | brace right => cases right <;> exact ⟨_, _, rfl, rfl⟩
  | comment c => cases hcomment

theorem opening_pieces (hvalue : ∀ q ∈ ps.head?, q.value? = none) (hcomment : ∀ q ∈ ps.head?, q.isComment = false)
    (b : UInt8) (hb : (piecesText ps).head? = some b) : isWord b = false := by
  cases ps with
  | nil => cases hb
  | cons q qs =>
    obtain ⟨c, s, htext, hc⟩ := opening_pass (hvalue q rfl) (hcomment q rfl)
    rw [piecesText, List.flatMap_cons, htext] at hb
    cases hb
    exact hc

theorem comment_opening (hcomment : ¬∀ q ∈ ps.head?, q.isComment = false) : ∃ s, piecesText ps = hash :: s := by
  cases ps with
  | nil => exact absurd nofun hcomment
  | cons q qs =>
    cases q with
    | comment c => exact ⟨_, rfl⟩
    | _ =>
      apply absurd _ hcomment
      rintro p ⟨⟩
      rfl

theorem map_cons_eq_some_iff (found : Option (List Bytes))
    : found.map (v :: ·) = some (v :: vs) ↔ found = some vs := by
  cases found with
  | none => exact ⟨nofun, nofun⟩
  | some ts => simp

theorem scanWords_pieces_iff (pieces : List Piece) (hapart : pieces.IsChain Apart)
    : scanWords (piecesText pieces) = some (pieces.filterMap Piece.value?) ↔ Plain pieces := by
  induction pieces with
  | nil => exact iff_of_true rfl ⟨List.forall_mem_nil _, List.IsChain.nil⟩
  | cons p ps ih =>
    rw [List.isChain_cons] at hapart
    have htext : piecesText (p :: ps) = p.text ++ piecesText ps := List.flatMap_cons
    rw [htext]
    cases hvalue : p.value? with
    | none => rw [passed_text hvalue, List.filterMap_cons_none hvalue, plain_cons_of_pass hvalue, ih hapart.2]
    | some v =>
      rw [List.filterMap_cons_some hvalue]
      cases p with
      | bare w =>
        cases hvalue
        have hnext : ∀ q ∈ ps.head?, q.value? = none := fun q hq => (hapart.1 q hq).resolve_left nofun
        rw [plain_cons_bare]
        by_cases hcomment : ∀ q ∈ ps.head?, q.isComment = false
        . have hstep := scanWords_bare w (opening_pieces hnext hcomment)
          rw [Piece.text, hstep, map_cons_eq_some_iff, ih hapart.2]
          exact ⟨fun h => ⟨hcomment, h⟩, fun h => h.2⟩
        . apply iff_of_false _ fun h => hcomment h.1
          obtain ⟨s, hs⟩ := comment_opening hcomment
          rw [Piece.text, hs]
          apply scanWords_swallow
      | quoted q =>
        cases hvalue
        apply iff_of_false (scanWords_quoted q _ _)
        intro h
        cases (plain_cons.mp h).1
      | _ => cases hvalue

/--
The texts of the `TK_ID` tokens are the values, in order.
-/
def ConfWords.Scanned (t : ConfWords) : Prop :=
  scanWords t.text = some t.values

theorem scanned_iff (t : ConfWords) : t.Scanned ↔ Plain t.pieces :=
  scanWords_pieces_iff t.pieces t.apart

def quotedWord : ConfWords where
  pieces := [.quoted ⟨dquote, [97], rfl, by decide +kernel⟩]
  apart := List.isChain_singleton _

theorem scanned_fails_quoted : ¬quotedWord.Scanned := by
  unfold ConfWords.Scanned
  decide +kernel

end Lexer
end Kids
