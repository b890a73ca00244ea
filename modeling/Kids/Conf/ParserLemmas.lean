import Kids.Conf.SyntaxLemmas
import Kids.Conf.LexerLemmas

/-!
The parser has a step for every token, and what it accepts is a text. Both come from a check of its tables:
whatever states lie on the stack, the symbols of a rule are on top when the rule is reduced.
-/

namespace Kids

open Bytes ShiftReduce ParseContext

namespace YyParser

def reading : Reading StackEntry Nat Nat Minor := ⟨StackEntry.stateno, StackEntry.major, StackEntry.minor⟩

-- the state that is entered with the symbol
def target (s major : Nat) : Option Nat :=
  if major < 9 then some (yyFindShiftAction s major) else yyFindReduceAction s major

def edges : List (Edge Nat Nat) :=
  (List.range yyNState).flatMap fun s =>
    (List.range 20).filterMap fun major =>
      match target s major with
      | none => none
      | some act => if act < yyNState then some ⟨s, major, act⟩ else none

/--
A bound for what can still be reduced before the stack gets shorter.
-/
def rank (s : Nat) : Nat :=
  let act := yyDefault.getD s yyErrorAction
  if act = yyErrorAction then
    0
  else
    match (yyRuleInfo.getD (act - yyNState) (0, 0)).2 with
    | 0 => 3
    | 1 => 1
    | _ => 0

-- with the right side of the rule taken from the stack, `q` is the top state
def returns (s ruleno q : Nat) : Bool :=
  match yyFindReduceAction q (lhs ruleno) with
  | none => false
  | some act =>
    if ruleno = 0 then
      q == 0 && act == yyAcceptAction
    else
      act < yyNState && edges.contains ⟨q, lhs ruleno, act⟩ && 2 + rank act < 2 * (rhs ruleno).length + rank s

def certified (s major : Nat) : Bool :=
  let act := yyFindShiftAction s major
  if act < yyNState then
    major != 0 && edges.contains ⟨s, major, act⟩
  else if act < yyNState + yyNRule then
    (act != yyNState || major == 0) &&
      pops edges 0 (returns s (act - yyNState)) (rhs (act - yyNState)).reverse s
  else
    act == yyErrorAction

theorem certified_all : ∀ s < yyNState, ∀ major < 9, certified s major = true := by
  decide +kernel

theorem action_cases (hs : s < yyNState) (hmajor : major < 9)
    : (yyFindShiftAction s major < yyNState ∧ major ≠ 0 ∧ ⟨s, major, yyFindShiftAction s major⟩ ∈ edges) ∨
      (∃ ruleno, yyFindShiftAction s major = yyNState + ruleno ∧ ruleno < yyNRule ∧ (ruleno = 0 → major = 0) ∧
        pops edges 0 (returns s ruleno) (rhs ruleno).reverse s = true) ∨
      yyFindShiftAction s major = yyErrorAction := by
  have hcertified := certified_all s hs major hmajor
  unfold certified at hcertified
  dsimp only at hcertified
  by_cases hshift : yyFindShiftAction s major < yyNState
  . rw [if_pos hshift, Bool.and_eq_true, bne_iff_ne, List.contains_iff_mem] at hcertified
    exact .inl ⟨hshift, hcertified⟩
  rw [if_neg hshift] at hcertified
  by_cases hreduce : yyFindShiftAction s major < yyNState + yyNRule
  . rw [if_pos hreduce, Bool.and_eq_true, Bool.or_eq_true, bne_iff_ne, beq_iff_eq] at hcertified
    refine .inr (.inl ⟨yyFindShiftAction s major - yyNState, by omega, by omega, ?_, hcertified.2⟩)
    intro hzero
    have heq : yyFindShiftAction s major = yyNState := by omega
    exact hcertified.1.resolve_left fun hne => hne heq
  . rw [if_neg hreduce, beq_iff_eq] at hcertified
    exact .inr (.inr hcertified)

theorem target_bounds : ∀ e ∈ edges, e.target < yyNState ∧ e.target ≠ 0 := by
  decide +kernel

theorem yyRuleInfo_eq : ∀ ruleno < yyNRule, yyRuleInfo.getD ruleno (0, 0) = (lhs ruleno, (rhs ruleno).length) := by
  decide +kernel

/--
What the stack holds was made of the tokens.
-/
abbrev Spelled (strict : Bool) (stack : List StackEntry) (ts : List Tok) : Prop :=
  Spells reading edges 0 (Stands strict) stack ts

section

variable {strict : Bool} {stack : List StackEntry} {ts fed : List Tok} {ctx : ParseContext} {ruleno : Nat}

theorem topState_eq (stack : List StackEntry) : topState stack = top reading 0 stack := by
  cases stack <;> rfl

@[simp]
theorem topState_cons (e : StackEntry) (stack : List StackEntry) : topState (e :: stack) = e.stateno := rfl

theorem topState_lt (h : Spelled strict stack ts) : topState stack < yyNState := by
  cases h with
  | nil => decide
  | cons _ hedge _ => exact (target_bounds _ hedge).1

theorem eq_nil_of_topState (h : Spelled strict stack ts) (htop : topState stack = 0) : stack = [] := by
  cases h with
  | nil => rfl
  | cons _ hedge _ => exact absurd htop (target_bounds _ hedge).2

-- an action for each rule but the first, which ends the parse
theorem acts (strict : Bool) : ∀ ruleno, ruleno ≠ 0 → ruleno < yyNRule → Acts strict ruleno
  | 0, h, _ => absurd rfl h
  | 1, _, _ => acts_1
  | 2, _, _ => acts_2
  | 3, _, _ => acts_3
  | 4, _, _ => acts_4
  | 5, _, _ => acts_5
  | 6, _, _ => acts_6
  | 7, _, _ => acts_7
  | 8, _, _ => acts_8
  | 9, _, _ => acts_9
  | 10, _, _ => acts_10
  | 11, _, _ => acts_11
  | 12, _, _ => acts_12
  | 13, _, _ => acts_bodyHead rfl rfl (fun _ _ => rfl) rfl
  | 14, _, _ => acts_bodyTail rfl rfl (fun _ _ _ => rfl) rfl
  | 15, _, _ => acts_15
  | 16, _, _ => acts_bodyHead rfl rfl (fun _ _ => rfl) rfl
  | 17, _, _ => acts_bodyTail rfl rfl (fun _ _ _ => rfl) rfl
  | 18, _, _ => acts_18
  | 19, _, _ => acts_19
  | 20, _, _ => acts_20
  | 21, _, _ => acts_21
  | 22, _, _ => acts_22
  | 23, _, _ => acts_23
  | 24, _, _ => acts_24
  | 25, _, _ => acts_25
  | _ + 26, _, h => absurd h (by simp [yyNRule])

/--
The values on the stack are what the actions have made of tokens. As long as there is no error, these are the
tokens that the parser was fed with.
-/
structure Running (fed : List Tok) (stack : List StackEntry) (ctx : ParseContext) : Prop where
  shape : ∃ ts, Spelled false stack ts
  spells : ctx.success = true → Spelled true stack fed

/--
The parser between two tokens.
-/
structure Between (fed : List Tok) (p : YyParser) (ctx : ParseContext) : Prop where
  idle : p.stack = none → ctx.success = true → fed = []
  running : ∀ stack, p.stack = some stack → Running fed stack ctx
  yyerrcnt : ctx.success = true → p.yyerrcnt ≤ 0

-- the right side of a rule is taken from the stack
theorem Spelled.pop {after : Nat → Bool} (h : Spelled strict stack ts)
    (hpops : pops edges 0 after (rhs ruleno).reverse (topState stack) = true)
    : ∃ us vs, ts = us ++ vs ∧ (rhs ruleno).length ≤ stack.length ∧
        Spelled strict (stack.drop (rhs ruleno).length) us ∧
        StandAll (Stands strict) (rhs ruleno) vs ((stack.take (rhs ruleno).length).map StackEntry.minor).reverse ∧
        after (topState (stack.drop (rhs ruleno).length)) = true := by
  rw [topState_eq] at hpops
  obtain ⟨frames, rest, us, vs, rfl, rfl, hlen, hrest, hvalues, hafter⟩ := Spells.pop h hpops
  rw [List.length_reverse] at hlen
  rw [List.reverse_reverse] at hvalues
  rw [← hlen, List.drop_left, List.take_left, topState_eq]
  refine ⟨us, vs, rfl, ?_, hrest, ?_, hafter⟩
  . rw [List.length_append]
    exact Nat.le_add_right _ _
  . exact hvalues

-- it gets smaller with each reduction
def work (stack : List StackEntry) : Nat :=
  2 * stack.length + rank (topState stack)

theorem shift_spec (p : YyParser) (e : StackEntry) (hspelled : ctx.success = true → Spelled true (e :: stack) fed)
    (hshape : Spelled false (e :: stack) ts)
    : ∃ p' ctx', p.shift stack e ctx = (p', ctx') ∧ p'.yyerrcnt = p.yyerrcnt ∧ ctx.Follows ctx' ∧
        (p'.stack = none ∧ ctx'.success = false ∨ p'.stack = some (e :: stack) ∧ Running fed (e :: stack) ctx') := by
  unfold shift
  split
  . exact ⟨_, _, rfl, rfl, ctx.follows_fail _, .inl ⟨rfl, rfl⟩⟩
  . exact ⟨_, _, rfl, rfl, .refl ctx, .inr ⟨rfl, ⟨_, hshape⟩, hspelled⟩⟩

theorem goto_of_returns (hreturns : returns s ruleno q = true) (hne : ruleno ≠ 0)
    : ∃ act, yyFindReduceAction q (lhs ruleno) = some act ∧ act < yyNState ∧ ⟨q, lhs ruleno, act⟩ ∈ edges ∧
        2 + rank act < 2 * (rhs ruleno).length + rank s := by
  unfold returns at hreturns
  split at hreturns
  . cases hreturns
  . next act hact =>
    simp only [hne, ↓reduceIte, Bool.and_eq_true, decide_eq_true_eq, List.contains_iff_mem] at hreturns
    exact ⟨act, hact, hreturns.1.1, hreturns.1.2, hreturns.2⟩

theorem accept_of_returns (hreturns : returns s 0 q = true)
    : q = 0 ∧ yyFindReduceAction q (lhs 0) = some yyAcceptAction := by
  unfold returns at hreturns
  split at hreturns
  . cases hreturns
  . next act hact =>
    simp only [↓reduceIte, Bool.and_eq_true, beq_iff_eq] at hreturns
    obtain ⟨hbottom, rfl⟩ := hreturns
    exact ⟨hbottom, hact⟩

theorem reduce_spec (p : YyParser) (hrun : Running fed stack ctx) (hne : ruleno ≠ 0) (hruleno : ruleno < yyNRule)
    (hpops : pops edges 0 (returns (topState stack) ruleno) (rhs ruleno).reverse (topState stack) = true)
    : ∃ p' ctx', p.reduce stack ruleno ctx = some (p', ctx') ∧ p'.yyerrcnt = p.yyerrcnt ∧ ctx.Follows ctx' ∧
        0 < work stack ∧
        (p'.stack = none ∧ ctx'.success = false ∨
          ∃ stack', p'.stack = some stack' ∧ Running fed stack' ctx' ∧ work stack' < work stack) := by
  obtain ⟨ts, hshape⟩ := hrun.shape
  obtain ⟨us, vs, -, hlen, hrest, hvalues, hreturns⟩ := hshape.pop hpops
  obtain ⟨act, hact, hlt, hedge, hrank⟩ := goto_of_returns hreturns hne
  obtain ⟨v, ctx1, haction, hfollows, hstands⟩ := acts false ruleno hne hruleno ctx vs _ hvalues
  have hentry : Spelled false (⟨act, lhs ruleno, v⟩ :: stack.drop (rhs ruleno).length) (us ++ vs) := by
    rw [topState_eq] at hedge
    exact .cons hrest hedge (hstands nofun)
  have hfed : ctx1.success = true → Spelled true (⟨act, lhs ruleno, v⟩ :: stack.drop (rhs ruleno).length) fed := by
    intro hsuccess
    obtain ⟨us, vs, rfl, -, hrest, hvalues, -⟩ := (hrun.spells (hfollows.success hsuccess)).pop hpops
    obtain ⟨v', ctx1', haction', -, hstands⟩ := acts true ruleno hne hruleno ctx vs _ hvalues
    rw [haction] at haction'
    cases haction'
    rw [topState_eq] at hedge
    exact .cons hrest hedge (hstands fun _ => hsuccess)
  obtain ⟨p', ctx', hshift, herrcnt, hfollows', hcases⟩ := shift_spec p _ hfed hentry
  refine ⟨p', ctx', ?_, herrcnt, hfollows.trans hfollows', ?_, ?_⟩
  . unfold reduce
    rw [yyRuleInfo_eq ruleno hruleno]
    simp only [haction, hact, hlt, ↓reduceIte, hshift]
  . unfold work
    omega
  . rcases hcases with hnone | ⟨hstack, hrun'⟩
    . exact .inl hnone
    . refine .inr ⟨_, hstack, hrun', ?_⟩
      unfold work
      rw [List.length_cons, List.length_drop, topState_cons]
      dsimp only
      omega

-- what the first rule makes of the whole text
theorem accept_spec (p : YyParser) (hrun : Running fed stack ctx)
    (hpops : pops edges 0 (returns (topState stack) 0) (rhs 0).reverse (topState stack) = true)
    : ∃ ctx', p.reduce stack 0 ctx = some ({ p with stack := none }, ctx') ∧ ctx.Follows ctx' ∧ 0 < work stack ∧
        (ctx'.success = true →
          ∃ t : ConfText, plain fed = t.tokens ∧ ctx'.conf = some t.eval.1 ∧ t.eval.2 = true) := by
  obtain ⟨ts, hshape⟩ := hrun.shape
  obtain ⟨us, vs, -, hlen, hrest, hvalues, hreturns⟩ := hshape.pop hpops
  obtain ⟨t, -, -, haction⟩ := acts_0 hvalues
  have hwork : 0 < work stack := by
    change 1 ≤ stack.length at hlen
    unfold work
    omega
  refine ⟨{ ctx with conf := some t.eval.1 }, ?_, ⟨fun h => h, fun h => h⟩, hwork, ?_⟩
  . unfold reduce
    rw [yyRuleInfo_eq 0 (by decide)]
    dsimp only
    rw [haction]
    dsimp only
    rw [(accept_of_returns hreturns).2]
    rfl
  . intro hsuccess
    obtain ⟨us, vs, rfl, -, hrest, hvalues, hreturns⟩ := (hrun.spells hsuccess).pop hpops
    obtain ⟨t', htokens, hok, haction'⟩ := acts_0 hvalues
    have hconf : t.eval.1 = t'.eval.1 := by
      have heq := (haction ctx).symm.trans (haction' ctx)
      simpa using heq
    have hnil : us = [] := by
      have hempty := eq_nil_of_topState hrest (accept_of_returns hreturns).1
      rw [hempty] at hrest
      cases hrest
      rfl
    rw [hnil, List.nil_append]
    exact ⟨t', htokens, congrArg some hconf, hok rfl⟩

/--
What the parser makes of a token, or of the end of the text.
-/
def Fed (fed : List Tok) (major : Nat) (minor : Option Bytes) (p : YyParser) (ctx : ParseContext) : Prop :=
  if major = 0 then
    ctx.success = true → ∃ t : ConfText, plain fed = t.tokens ∧ ctx.conf = some t.eval.1 ∧ t.eval.2 = true
  else
    Between (fed ++ [(major, minor)]) p ctx

theorem not_success (h : ctx.success = false) : ¬ctx.success = true := by
  rw [h]
  exact Bool.false_ne_true

theorem shape_of_none {p : YyParser} (hnone : p.stack = none)
    : ∀ stack, p.stack = some stack → ∃ ts, Spelled false stack ts := by
  intro stack hstack
  rw [hnone] at hstack
  cases hstack

-- with an error nothing is said of the tokens
theorem between_of_failed {p : YyParser} (hsuccess : ctx.success = false)
    (hshape : ∀ stack, p.stack = some stack → ∃ ts, Spelled false stack ts) : Between fed p ctx where
  idle := fun _ h => absurd h (not_success hsuccess)
  running := fun stack hstack => ⟨hshape stack hstack, fun h => absurd h (not_success hsuccess)⟩
  yyerrcnt := fun h => absurd h (not_success hsuccess)

theorem fed_of_failed {p : YyParser} (hsuccess : ctx.success = false)
    (hshape : ∀ stack, p.stack = some stack → ∃ ts, Spelled false stack ts)
    : Fed fed major minor p ctx := by
  unfold Fed
  split
  . exact fun h => absurd h (not_success hsuccess)
  . exact between_of_failed hsuccess hshape

theorem stands_token (strict : Bool) (h : Given (major, minor))
    : Stands strict major [(major, minor)] (.token minor) := by
  obtain ⟨hlower, hupper, htext⟩ := h
  dsimp only at hlower hupper
  unfold Stands
  split
  all_goals first | omega | exact ⟨minor, ⟨hlower, hupper, htext⟩, rfl, rfl⟩

theorem shift_token (p : YyParser) (hrun : Running fed stack ctx) (hgiven : Given (major, minor))
    (hedge : ⟨topState stack, major, act⟩ ∈ edges) (herrcnt : ctx.success = true → p.yyerrcnt ≤ 0)
    : ∃ p' ctx', p.shift stack ⟨act, major, .token minor⟩ ctx = (p', ctx') ∧ ctx.Follows ctx' ∧
        Between (fed ++ [(major, minor)]) { p' with yyerrcnt := p'.yyerrcnt - 1 } ctx' := by
  obtain ⟨ts, hshape⟩ := hrun.shape
  rw [topState_eq] at hedge
  have hspelled : ctx.success = true →
      Spelled true (⟨act, major, .token minor⟩ :: stack) (fed ++ [(major, minor)]) :=
    fun h => .cons (hrun.spells h) hedge (stands_token true hgiven)
  obtain ⟨p', ctx', hshift, herrcnt', hfollows, hcases⟩ :=
    shift_spec p _ hspelled (.cons hshape hedge (stands_token false hgiven))
  refine ⟨p', ctx', hshift, hfollows, ?_⟩
  obtain ⟨hnone, hsuccess⟩ | ⟨hsome, hrun'⟩ := hcases
  . exact between_of_failed hsuccess (shape_of_none hnone)
  . refine ⟨?_, ?_, ?_⟩
    . intro hnone
      rw [hsome] at hnone
      cases hnone
    . intro stack' hstack'
      rw [hsome] at hstack'
      cases hstack'
      exact hrun'
    . intro hsuccess
      have hle := herrcnt (hfollows.success hsuccess)
      dsimp only
      omega

theorem follows_syntaxError (minor : Option Bytes) (ctx : ParseContext) : ctx.Follows (syntaxError minor ctx) := by
  unfold syntaxError
  cases minor with
  | none => exact ctx.follows_fail _
  | some text => exact ctx.follows_fail _

theorem success_syntaxError (minor : Option Bytes) (ctx : ParseContext) : (syntaxError minor ctx).success = false := by
  unfold syntaxError
  cases minor with
  | none => rfl
  | some text => rfl

-- the count of tokens since the last error hides one error after another
theorem error_spec (p : YyParser) (major : Nat) (minor : Option Bytes)
    (herrcnt : ctx.success = true → p.yyerrcnt ≤ 0)
    : ctx.Follows (p.error major minor ctx).2 ∧ (p.error major minor ctx).2.success = false ∧
        ((p.error major minor ctx).1.stack = none ∨ (p.error major minor ctx).1.stack = p.stack) := by
  have hfirst : ctx.Follows (if p.yyerrcnt ≤ 0 then syntaxError minor ctx else ctx) := by
    split
    . exact follows_syntaxError minor ctx
    . exact .refl ctx
  unfold error
  dsimp only
  split
  . exact ⟨hfirst.trans (follows_fail _ _), rfl, .inl rfl⟩
  . refine ⟨hfirst, ?_, .inr rfl⟩
    dsimp only
    split
    . exact success_syntaxError minor ctx
    . next herr => exact Bool.eq_false_iff.mpr fun h => herr (herrcnt h)

theorem parseLoop_idle {p : YyParser} (hstack : p.stack = none) (hfuel : 0 < fuel)
    : parseLoop major minor fuel p ctx = some (p, ctx) := by
  obtain ⟨fuel, rfl⟩ := Nat.exists_eq_add_of_lt hfuel
  rw [Nat.zero_add]
  unfold parseLoop
  rw [hstack]

theorem parseLoop_spec {p : YyParser} (hmajor : major < 9) (hgiven : major ≠ 0 → Given (major, minor))
    (hstack : p.stack = some stack) (hrun : Running fed stack ctx) (herrcnt : ctx.success = true → p.yyerrcnt ≤ 0)
    (hfuel : work stack < fuel)
    : ∃ p' ctx', parseLoop major minor fuel p ctx = some (p', ctx') ∧ ctx.Follows ctx' ∧
        Fed fed major minor p' ctx' := by
  induction fuel generalizing p stack ctx with
  | zero => omega
  | succ fuel ih =>
    obtain ⟨ts, hshape⟩ := hrun.shape
    unfold parseLoop
    rw [hstack]
    dsimp only
    obtain ⟨hlt, hne, hedge⟩ | ⟨ruleno, hact, hlt, hzero, hpops⟩ | herror := action_cases (topState_lt hshape) hmajor
    . rw [if_pos hlt, if_neg hne]
      obtain ⟨p', ctx', hshift, hfollows, hbetween⟩ := shift_token p hrun (hgiven hne) hedge herrcnt
      rw [hshift]
      refine ⟨_, _, rfl, hfollows, ?_⟩
      unfold Fed
      rw [if_neg hne]
      exact hbetween
    . rw [if_neg (by omega), if_pos (by omega), hact, Nat.add_sub_cancel_left]
      by_cases hfirst : ruleno = 0
      . subst hfirst
        obtain ⟨ctx', hreduce, hfollows, hwork, htext⟩ := accept_spec p hrun hpops
        rw [hreduce]
        dsimp only
        rw [parseLoop_idle rfl (by omega)]
        refine ⟨_, _, rfl, hfollows, ?_⟩
        unfold Fed
        rw [if_pos (hzero rfl)]
        exact htext
      . obtain ⟨p', ctx', hreduce, herrcnt', hfollows, hwork, hcases⟩ := reduce_spec p hrun hfirst hlt hpops
        rw [hreduce]
        dsimp only
        obtain ⟨hnone, hsuccess⟩ | ⟨stack', hsome, hrun', hless⟩ := hcases
        . rw [parseLoop_idle hnone (by omega)]
          exact ⟨_, _, rfl, hfollows, fed_of_failed hsuccess (shape_of_none hnone)⟩
        . have herr : ctx'.success = true → p'.yyerrcnt ≤ 0 := by
            intro hsuccess
            rw [herrcnt']
            exact herrcnt (hfollows.success hsuccess)
          obtain ⟨p2, ctx2, hloop, hfollows', hfed⟩ := ih hsome hrun' herr (by omega)
          exact ⟨p2, ctx2, hloop, hfollows.trans hfollows', hfed⟩
    . rw [if_neg (by rw [herror]; decide), if_neg (by rw [herror]; decide), if_pos herror]
      obtain ⟨hfollows, hsuccess, hrest⟩ := error_spec p major minor herrcnt
      refine ⟨(p.error major minor ctx).1, (p.error major minor ctx).2, rfl, hfollows, ?_⟩
      apply fed_of_failed hsuccess
      intro stack' hstack'
      rcases hrest with hnone | hsame
      . rw [hnone] at hstack'
        cases hstack'
      . rw [hsame, hstack] at hstack'
        cases hstack'
        exact hrun.shape

theorem rank_le (s : Nat) : rank s ≤ 3 := by
  unfold rank
  dsimp only
  split
  . omega
  . split <;> omega

theorem parse_spec {p : YyParser} (hbetween : Between fed p ctx) (hmajor : major < 9)
    (hgiven : major ≠ 0 → Given (major, minor))
    : ∃ p' ctx', p.parse major minor ctx = some (p', ctx') ∧ ctx.Follows ctx' ∧ Fed fed major minor p' ctx' := by
  have hstart : ∃ stack, p.restart.stack = some stack ∧ Running fed stack ctx ∧
      (ctx.success = true → p.restart.yyerrcnt ≤ 0) := by
    unfold restart
    split
    . next hnone =>
      refine ⟨[], rfl, ⟨⟨[], .nil⟩, ?_⟩, fun _ => by decide⟩
      intro hsuccess
      rw [hbetween.idle hnone hsuccess]
      exact .nil
    . next stack hsome => exact ⟨stack, hsome, hbetween.running stack hsome, hbetween.yyerrcnt⟩
  obtain ⟨stack, hstack, hrun, herrcnt⟩ := hstart
  unfold parse
  apply parseLoop_spec hmajor hgiven hstack hrun herrcnt
  unfold work reductions
  rw [hstack, Option.getD_some]
  have hrank := rank_le (topState stack)
  omega

end

-- the tokens among the lexemes
def tokens (ls : List Lexer.Lexeme) : List Tok :=
  ls.filterMap fun
    | .token major minor => some (major, minor)
    | .noise _ => none

theorem given_of_worded (h : (Lexer.Lexeme.token major minor).Worded) : major ≠ 0 ∧ Given (major, minor) := by
  cases minor with
  | some text =>
    obtain ⟨hmajor, -⟩ := h
    simp only [List.contains_iff_mem, List.mem_cons, List.not_mem_nil, or_false] at hmajor
    rcases hmajor with rfl | rfl | rfl | rfl | rfl <;> simp [Given, tkId, tkListen, tkStore, tkLog, tkBufferType,
      tkSemicolon, tkLp, tkRp]
  | none =>
    simp only [Lexer.Lexeme.Worded, List.contains_iff_mem, List.mem_cons, List.not_mem_nil, or_false] at h
    rcases h with rfl | rfl | rfl <;> simp [Given, tkSemicolon, tkLp, tkRp]

theorem parseLexemes_spec {p : YyParser} (hbetween : Between fed p ctx) (hworded : ∀ l ∈ ls, l.Worded)
    : ∃ p' ctx', parseLexemes ls p ctx = some (p', ctx') ∧ ctx.Follows ctx' ∧
        Between (fed ++ tokens ls) p' ctx' := by
  induction ls generalizing p ctx fed with
  | nil =>
    refine ⟨p, ctx, rfl, .refl ctx, ?_⟩
    rw [tokens, List.filterMap_nil, List.append_nil]
    exact hbetween
  | cons l ls ih =>
    rw [List.forall_mem_cons] at hworded
    cases l with
    | noise lines =>
      have hbetween' : Between fed p { ctx with line := ctx.line + lines } :=
        ⟨hbetween.idle, fun stack h => ⟨(hbetween.running stack h).shape, (hbetween.running stack h).spells⟩,
          hbetween.yyerrcnt⟩
      obtain ⟨p', ctx', hparse, hfollows, hend⟩ := ih hbetween' hworded.2
      exact ⟨p', ctx', hparse, ⟨hfollows.success, hfollows.clean⟩, hend⟩
    | token major minor =>
      obtain ⟨hne, hgiven⟩ := given_of_worded hworded.1
      have hmajor : major < 9 := Nat.lt_succ_of_le hgiven.2.1
      obtain ⟨p1, ctx1, hparse1, hfollows1, hfed⟩ := parse_spec hbetween hmajor fun _ => hgiven
      unfold Fed at hfed
      rw [if_neg hne] at hfed
      obtain ⟨p', ctx', hparse, hfollows, hend⟩ := ih hfed hworded.2
      refine ⟨p', ctx', ?_, hfollows1.trans hfollows, ?_⟩
      . unfold parseLexemes
        rw [hparse1]
        exact hparse
      . rw [List.append_assoc] at hend
        exact hend

end YyParser

open YyParser

/--
The text is made of these items.
-/
def ConfText.Reads (t : ConfText) (text : Bytes) : Prop :=
  (Lexer.lex text).2 = true ∧ plain (YyParser.tokens (Lexer.lex text).1) = t.tokens

theorem parseText_spec (text : Bytes)
    : ∃ ctx, parseText text = some ctx ∧ ctx.Clean ∧
        (ctx.success = true →
          ∃ t : ConfText, t.Reads text ∧ ctx.conf = some t.eval.1 ∧ t.eval.2 = true) := by
  have hstart : Between [] parseAlloc .new := ⟨fun _ _ => rfl, nofun, fun _ => by decide⟩
  have hclean : ParseContext.new.Clean := fun _ => rfl
  obtain ⟨p, ctx, hlexemes, hfollows, hbetween⟩ := parseLexemes_spec hstart (Lexer.worded_lexemes _ text)
  unfold parseText Lexer.lex
  dsimp only
  rw [hlexemes]
  dsimp only
  split
  . next hok =>
    obtain ⟨p', ctx', hparse, hfollows', hfed⟩ : ∃ p' ctx', p.parse 0 none ctx = some (p', ctx') ∧
        ctx.Follows ctx' ∧ Fed _ 0 none p' ctx' :=
      parse_spec hbetween (by decide) fun h => absurd rfl h
    rw [hparse]
    refine ⟨ctx', rfl, hfollows'.clean (hfollows.clean hclean), ?_⟩
    intro hsuccess
    obtain ⟨t, htokens, hconf, heval⟩ := hfed hsuccess
    exact ⟨t, ⟨hok, htokens⟩, hconf, heval⟩
  . exact ⟨_, rfl, ctx.clean_fail _, nofun⟩

end Kids
