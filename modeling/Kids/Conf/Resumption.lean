import Kids.Conf.ParserLemmas

/-!
The parse from any point on: what is on the stack and what is still to come decide how it ends. The rules follow it
token by token and reduction by reduction.
-/

namespace Kids

open Bytes ShiftReduce ParseContext

namespace YyParser

section

variable {ctx ctx' : ParseContext} {p p' : YyParser} {stack base : List StackEntry} {ls : List Lexer.Lexeme}

theorem success_steady {f : ParseContext → α × ParseContext} (h : Steady f) (ctx : ParseContext)
    : (f ctx).2.success = (ctx.success && (outcome f).2) := by
  obtain ⟨text, h⟩ := h
  rw [h]
  dsimp only
  split
  . next hok => rw [hok, Bool.and_true]
  . next hnot => rw [Bool.eq_false_iff.mpr hnot, Bool.and_false, fail]

-- an error stays

theorem success_action {v : Minor} {ruleno : Nat} {vs : List Minor} (h : action ctx ruleno vs = some (v, ctx'))
    (hsuccess : ctx.success = false) : ctx'.success = false := by
  have hsteady {α : Type} {f : ParseContext → α × ParseContext} (hf : Steady f) : (f ctx).2.success = false := by
    rw [success_steady hf, hsuccess, Bool.false_and]
  unfold action at h
  split at h
  all_goals cases h
  all_goals first
    | exact hsuccess
    | exact hsteady (steady_setKidsConfValue _ _)
    | exact hsteady (steady_setStoreConfValue _ _)
    | exact hsteady (steady_addListen _ _)
    | exact hsteady (steady_addStore _ _)

theorem success_shift {e : StackEntry} (hsuccess : ctx.success = false) : (p.shift stack e ctx).2.success = false := by
  unfold shift
  split
  . rfl
  . exact hsuccess

theorem success_reduce {ruleno : Nat} (h : p.reduce stack ruleno ctx = some (p', ctx'))
    (hsuccess : ctx.success = false) : ctx'.success = false := by
  unfold reduce at h
  dsimp only at h
  split at h
  . cases h
  . next v ctx1 haction =>
    have hfailed := success_action haction hsuccess
    split at h
    . cases h
    . split at h
      . have hresult : ctx' = _ := (congrArg Prod.snd (Option.some.inj h)).symm
        rw [hresult]
        exact success_shift hfailed
      . split at h
        . cases h
          exact hfailed
        . cases h

theorem success_parseLoop {fuel major : Nat} {minor : Option Bytes}
    (h : parseLoop major minor fuel p ctx = some (p', ctx')) (hsuccess : ctx.success = false)
    : ctx'.success = false := by
  induction fuel generalizing p ctx with
  | zero => cases h
  | succ fuel ih =>
    unfold parseLoop at h
    split at h
    . cases h
      exact hsuccess
    . next stack hstack =>
      dsimp only at h
      split at h
      . split at h
        . cases h
        . have hresult : ctx' = _ := (congrArg Prod.snd (Option.some.inj h)).symm
          rw [hresult]
          exact success_shift hsuccess
      . split at h
        . split at h
          . cases h
          . next p1 ctx1 hreduce => exact ih h (success_reduce hreduce hsuccess)
        . split at h
          . have hresult : ctx' = _ := (congrArg Prod.snd (Option.some.inj h)).symm
            rw [hresult]
            exact (error_spec p major minor fun h => absurd h (not_success hsuccess)).2.1
          . cases h

end

/--
The parse from the middle of a token on.
-/
def finish : List Lexer.Lexeme → Nat → YyParser → ParseContext → Option ParseContext
  | [], fuel, p, ctx => (parseLoop 0 none fuel p ctx).map Prod.snd
  | .noise lines :: rest, fuel, p, ctx => finish rest fuel p { ctx with line := ctx.line + lines }
  | .token major minor :: rest, fuel, p, ctx =>
    match parseLoop major minor fuel p ctx with
    | none => none
    | some (p, ctx) => finish rest p.restart.reductions p.restart ctx

section

variable {ctx ctx' : ParseContext} {p p' : YyParser} {stack base : List StackEntry} {ls : List Lexer.Lexeme}

theorem finish_eq (hlexemes : parseLexemes ls p ctx = some (p', ctx'))
    : finish ls p.restart.reductions p.restart ctx = (p'.parse 0 none ctx').map Prod.snd := by
  induction ls generalizing p ctx with
  | nil =>
    cases hlexemes
    rfl
  | cons l ls ih =>
    cases l with
    | noise lines => exact ih hlexemes
    | token major minor =>
      unfold parseLexemes parse at hlexemes
      unfold finish
      dsimp only at hlexemes
      cases hloop : parseLoop major minor p.restart.reductions p.restart ctx with
      | none =>
        rw [hloop] at hlexemes
        cases hlexemes
      | some r =>
        rw [hloop] at hlexemes
        exact ih hlexemes

theorem success_finish {fuel : Nat} (h : finish ls fuel p ctx = some ctx') (hsuccess : ctx.success = false)
    : ctx'.success = false := by
  induction ls generalizing fuel p ctx with
  | nil =>
    unfold finish at h
    rw [Option.map_eq_some_iff] at h
    obtain ⟨⟨p1, ctx1⟩, hloop, rfl⟩ := h
    exact success_parseLoop hloop hsuccess
  | cons l ls ih =>
    cases l with
    | noise lines => exact ih h hsuccess
    | token major minor =>
      unfold finish at h
      split at h
      . cases h
      . next p1 ctx1 hloop => exact ih h (success_parseLoop hloop hsuccess)

end

-- the token that decides what is done next
def lookahead : List Tok → Nat
  | [] => 0
  | t :: _ => t.1

-- `P` does not tell one failure from another
def OfFailure (P : ParseContext → Prop) : Prop :=
  ∀ ctx, ctx.success = false → P ctx

/--
With the stack and these tokens to come, the parse ends in a context with `P`. `ok` is the success so far.
-/
def Ends (ts : List Tok) (stack : List StackEntry) (ok : Bool) (P : ParseContext → Prop) : Prop :=
  ∀ ls p ctx fuel ctx', plain (tokens ls) = ts → p.stack = some stack → stack.length < yyStackDepth →
    ctx.success = ok → (ok = true → p.yyerrcnt ≤ 0) → finish ls fuel p ctx = some ctx' → P ctx'

section

variable {ls : List Lexer.Lexeme} {t : Tok} {ts us : List Tok} {stack stack' base : List StackEntry} {ok : Bool}
  {P : ParseContext → Prop}

theorem finish_zero {ls : List Lexer.Lexeme} {p : YyParser} {ctx : ParseContext}
    (hhead : ∀ lines ls', ls ≠ .noise lines :: ls') : finish ls 0 p ctx = none := by
  cases ls with
  | nil => rfl
  | cons l ls =>
    cases l with
    | noise lines => exact absurd rfl (hhead lines ls)
    | token major minor => rfl

theorem ends_of_head
    (h : ∀ ls p ctx fuel ctx', (∀ lines ls', ls ≠ .noise lines :: ls') → plain (tokens ls) = ts →
      p.stack = some stack → stack.length < yyStackDepth → ctx.success = ok → (ok = true → p.yyerrcnt ≤ 0) →
      finish ls fuel p ctx = some ctx' → P ctx')
    : Ends ts stack ok P := by
  intro ls
  induction ls with
  | nil =>
    intro p ctx fuel ctx'
    exact h [] p ctx fuel ctx' nofun
  | cons l ls ih =>
    intro p ctx fuel ctx' hts hstack hlen hok herrcnt hfinish
    cases l with
    | noise lines => exact ih p { ctx with line := ctx.line + lines } fuel ctx' hts hstack hlen hok herrcnt hfinish
    | token major minor =>
      apply h _ p ctx fuel ctx' ?_ hts hstack hlen hok herrcnt hfinish
      intro lines ls' hnoise
      cases hnoise

theorem plain_fst (t : Tok) : t.plain.1 = t.1 := by
  unfold Tok.plain
  split <;> rfl

theorem finish_congr {fuel fuel' : Nat} {p p' : YyParser} {ctx ctx' : ParseContext}
    (hhead : ∀ lines ls', ls ≠ .noise lines :: ls') (hts : plain (tokens ls) = ts)
    (hloop : ∀ minor, parseLoop (lookahead ts) minor fuel p ctx = parseLoop (lookahead ts) minor fuel' p' ctx')
    : finish ls fuel p ctx = finish ls fuel' p' ctx' := by
  subst hts
  cases ls with
  | nil => exact congrArg (Option.map Prod.snd) (hloop none)
  | cons l ls =>
    cases l with
    | noise lines => exact absurd rfl (hhead lines ls)
    | token major minor =>
      have heq := hloop minor
      change parseLoop (Tok.plain (major, minor)).1 minor fuel p ctx = _ at heq
      change _ = parseLoop (Tok.plain (major, minor)).1 minor fuel' p' ctx' at heq
      rw [plain_fst] at heq
      unfold finish
      rw [heq]

theorem ends_shift {act : Nat} (hact : yyFindShiftAction (topState stack) t.1 = act) (hlt : act < yyNState)
    (hne : t.1 ≠ 0)
    (hroom : stack.length + 1 < yyStackDepth →
      ∀ text, Tok.plain (t.1, text) = t → Ends ts (⟨act, t.1, .token text⟩ :: stack) ok P)
    (hfull : yyStackDepth ≤ stack.length + 1 → OfFailure P) : Ends (t :: ts) stack ok P := by
  apply ends_of_head
  intro ls p ctx fuel ctx' hhead hts hstack hlen hok herrcnt hfinish
  cases ls with
  | nil => cases hts
  | cons l ls =>
    cases l with
    | noise lines => exact absurd rfl (hhead lines ls)
    | token major minor =>
      obtain ⟨rfl, rfl⟩ := List.cons.inj hts
      rw [plain_fst] at hact hne hroom
      unfold finish at hfinish
      cases fuel with
      | zero => cases hfinish
      | succ fuel =>
        unfold parseLoop at hfinish
        rw [hstack] at hfinish
        dsimp only at hfinish
        rw [hact, if_pos hlt, if_neg hne] at hfinish
        dsimp only at hfinish
        unfold shift at hfinish
        by_cases hdepth : stack.length + 1 ≥ yyStackDepth
        . rw [if_pos hdepth] at hfinish
          exact hfull hdepth ctx' (success_finish hfinish rfl)
        . rw [if_neg hdepth] at hfinish
          apply hroom (Nat.lt_of_not_ge hdepth) minor rfl ls _ ctx _ ctx' rfl rfl
            (Nat.lt_of_not_ge hdepth) hok ?_ hfinish
          intro h
          have hle := herrcnt h
          change p.yyerrcnt - 1 ≤ 0
          omega

theorem ends_reduce {ruleno sym act : Nat} {f : ParseContext → α × ParseContext} (popped : List StackEntry)
    (inj : α → Minor) (hf : Steady f)
    (hact : yyFindShiftAction (topState (popped ++ base)) (lookahead ts) = yyNState + ruleno)
    (hruleno : ruleno < yyNRule) (hrule : yyRuleInfo.getD ruleno (0, 0) = (sym, popped.length))
    (haction : ∀ ctx, action ctx ruleno (popped.map StackEntry.minor).reverse = some (inj (f ctx).1, (f ctx).2))
    (hgoto : yyFindReduceAction (topState base) sym = some act) (hlt : act < yyNState)
    (hroom : base.length + 1 < yyStackDepth →
      Ends ts (⟨act, sym, inj (outcome f).1⟩ :: base) (ok && (outcome f).2) P)
    (hfull : (popped ++ base).length < yyStackDepth → yyStackDepth ≤ base.length + 1 → OfFailure P)
    : Ends ts (popped ++ base) ok P := by
  apply ends_of_head
  intro ls p ctx fuel ctx' hhead hts hstack hlen hok herrcnt hfinish
  cases fuel with
  | zero =>
    rw [finish_zero hhead] at hfinish
    cases hfinish
  | succ fuel =>
    have hreduce : p.reduce (popped ++ base) ruleno ctx
        = some (p.shift base ⟨act, sym, inj (outcome f).1⟩ (f ctx).2) := by
      unfold reduce
      rw [hrule]
      dsimp only
      rw [List.take_left, List.drop_left, haction]
      dsimp only
      rw [hgoto]
      dsimp only
      rw [if_pos hlt, hf.fst]
    have hloop (minor : Option Bytes)
        : parseLoop (lookahead ts) minor (fuel + 1) p ctx =
            parseLoop (lookahead ts) minor fuel (p.shift base ⟨act, sym, inj (outcome f).1⟩ (f ctx).2).1
              (p.shift base ⟨act, sym, inj (outcome f).1⟩ (f ctx).2).2 := by
      rw [parseLoop, hstack]
      dsimp only
      rw [hact, if_neg (by omega), if_pos (by omega), Nat.add_sub_cancel_left, hreduce]
    rw [finish_congr hhead hts hloop] at hfinish
    unfold shift at hfinish
    by_cases hdepth : base.length + 1 ≥ yyStackDepth
    . rw [if_pos hdepth] at hfinish
      exact hfull hlen hdepth ctx' (success_finish hfinish rfl)
    . rw [if_neg hdepth] at hfinish
      have hsuccess : (f ctx).2.success = (ok && (outcome f).2) := by rw [success_steady hf, hok]
      apply hroom (Nat.lt_of_not_ge hdepth) ls _ _ fuel ctx' hts rfl (Nat.lt_of_not_ge hdepth) hsuccess ?_ hfinish
      exact fun h => herrcnt (Bool.and_eq_true_iff.mp h).1

-- a token, or the end, that does not fit
theorem ends_error (hact : yyFindShiftAction (topState stack) (lookahead ts) = yyErrorAction) (hP : OfFailure P)
    : Ends ts stack ok P := by
  apply ends_of_head
  intro ls p ctx fuel ctx' hhead hts hstack hlen hok herrcnt hfinish
  apply hP ctx'
  cases fuel with
  | zero =>
    rw [finish_zero hhead] at hfinish
    cases hfinish
  | succ fuel =>
    have hloop (minor : Option Bytes) : parseLoop (lookahead ts) minor (fuel + 1) p ctx =
        some (p.error (lookahead ts) minor ctx) := by
      rw [parseLoop, hstack]
      dsimp only
      rw [hact, if_neg (by decide), if_neg (by decide), if_pos rfl]
    have hfailed (minor : Option Bytes) : (p.error (lookahead ts) minor ctx).2.success = false :=
      (error_spec p (lookahead ts) minor fun h => herrcnt (hok.symm.trans h)).2.1
    subst hts
    cases ls with
    | nil =>
      unfold finish at hfinish
      change Option.map Prod.snd (parseLoop (lookahead []) none (fuel + 1) p ctx) = _ at hfinish
      have heq := hloop none
      change parseLoop (lookahead []) none (fuel + 1) p ctx = _ at heq
      rw [heq] at hfinish
      cases hfinish
      exact hfailed none
    | cons l ls =>
      cases l with
      | noise lines => exact absurd rfl (hhead lines ls)
      | token major minor =>
        have heq := hloop minor
        have hfail := hfailed minor
        change parseLoop (Tok.plain (major, minor)).1 minor _ p ctx =
          some (p.error (Tok.plain (major, minor)).1 minor ctx) at heq
        change (p.error (Tok.plain (major, minor)).1 minor ctx).2.success = false at hfail
        rw [plain_fst] at heq hfail
        unfold finish at hfinish
        rw [heq] at hfinish
        exact success_finish hfinish hfail

theorem ends_accept {conf : KidsConfig} (hP : ∀ ctx, ctx.success = ok → ctx.conf = some conf → P ctx)
    : Ends [] [⟨1, 10, .kids conf⟩] ok P := by
  apply ends_of_head
  intro ls p ctx fuel ctx' hhead hts hstack hlen hok herrcnt hfinish
  cases ls with
  | cons l ls =>
    cases l with
    | noise lines => exact absurd rfl (hhead lines ls)
    | token major minor => cases hts
  | nil =>
    unfold finish at hfinish
    rw [Option.map_eq_some_iff] at hfinish
    obtain ⟨⟨p', ctx1⟩, hloop, rfl⟩ := hfinish
    cases fuel with
    | zero => cases hloop
    | succ fuel =>
      have hreduce : p.reduce [⟨1, 10, .kids conf⟩] 0 ctx =
          some ({ p with stack := none }, { ctx with conf := some conf }) := by
        unfold reduce
        rfl
      unfold parseLoop at hloop
      rw [hstack] at hloop
      change (match p.reduce [⟨1, 10, .kids conf⟩] 0 ctx with
        | none => none
        | some (p, ctx) => parseLoop 0 none fuel p ctx) = _ at hloop
      rw [hreduce] at hloop
      dsimp only at hloop
      cases fuel with
      | zero => cases hloop
      | succ fuel =>
        rw [parseLoop_idle rfl (Nat.succ_pos fuel)] at hloop
        cases hloop
        exact hP _ hok rfl

/--
With these tokens the parser gets from one stack to the other, unless one with `n` entries does not fit. `ok` and
`ok'` are the success before and after.
-/
def Leads (ts : List Tok) (n : Nat) (stack : List StackEntry) (ok : Bool) (stack' : List StackEntry) (ok' : Bool)
    : Prop :=
  ∀ rest P, (n < yyStackDepth → Ends rest stack' ok' P) → (yyStackDepth ≤ n → OfFailure P) →
    Ends (ts ++ rest) stack ok P

variable {n m : Nat} {ok' ok'' : Bool} {stack'' : List StackEntry}

theorem Leads.trans (h1 : Leads ts n stack ok stack' ok') (h2 : Leads us m stack' ok' stack'' ok'')
    : Leads (ts ++ us) (max n m) stack ok stack'' ok'' := by
  intro rest P hroom hfull
  rw [List.append_assoc]
  apply h1
  . intro hn
    apply h2
    . intro hm
      exact hroom (Nat.max_lt.mpr ⟨hn, hm⟩)
    . intro hm
      exact hfull (Nat.le_trans hm (Nat.le_max_right n m))
  . intro hn
    exact hfull (Nat.le_trans hn (Nat.le_max_left n m))

-- what the tables say, as facts that can be decided

def Shifts (q major act : Nat) : Prop :=
  yyFindShiftAction q major = act ∧ act < yyNState ∧ major ≠ 0

def Reduces (q ruleno sym nrhs : Nat) : Prop :=
  yyShiftCount < q ∧ yyDefault.getD q yyErrorAction = yyNState + ruleno ∧ ruleno < yyNRule ∧
    yyRuleInfo.getD ruleno (0, 0) = (sym, nrhs) ∧ 0 < nrhs

def Goes (q sym act : Nat) : Prop :=
  yyFindReduceAction q sym = some act ∧ act < yyNState

instance : Decidable (Shifts q major act) := inferInstanceAs (Decidable (_ ∧ _))
instance : Decidable (Reduces q ruleno sym nrhs) := inferInstanceAs (Decidable (_ ∧ _))
instance : Decidable (Goes q sym act) := inferInstanceAs (Decidable (_ ∧ _))

section

variable {major act ruleno sym : Nat} {text : Option Bytes} {f : ParseContext → α × ParseContext} {v : Minor}

theorem Leads.nil : Leads [] 0 stack ok stack ok := by
  intro rest P hroom _
  exact hroom (by decide)

theorem Leads.keyword (h : Shifts (topState stack) major act) (hn : stack.length + 1 ≤ n)
    (hleads : ∀ text, Leads ts n (⟨act, major, .token text⟩ :: stack) ok stack' ok')
    : Leads ((major, none) :: ts) n stack ok stack' ok' := by
  intro rest P hroom hfull
  rw [List.cons_append]
  refine ends_shift h.1 h.2.1 h.2.2 ?_ ?_
  . intro _ text _
    exact hleads text rest P hroom hfull
  . intro hlen
    exact hfull (Nat.le_trans hlen hn)

theorem Leads.shift (h : Shifts (topState stack) major act) (hn : stack.length + 1 ≤ n)
    (hkeyword : ¬(major = tkListen ∨ major = tkLog ∨ major = tkStore))
    (hleads : Leads ts n (⟨act, major, .token text⟩ :: stack) ok stack' ok')
    : Leads ((major, text) :: ts) n stack ok stack' ok' := by
  intro rest P hroom hfull
  rw [List.cons_append]
  refine ends_shift h.1 h.2.1 h.2.2 ?_ ?_
  . intro _ text' hplain
    unfold Tok.plain at hplain
    rw [if_neg hkeyword] at hplain
    have htext : text' = text := congrArg Prod.snd hplain
    rw [htext]
    exact hleads rest P hroom hfull
  . intro hlen
    exact hfull (Nat.le_trans hlen hn)

theorem Leads.reduce (popped : List StackEntry) (inj : α → Minor)
    (h : Reduces (topState (popped ++ base)) ruleno sym popped.length) (hgoes : Goes (topState base) sym act)
    (hf : Steady f)
    (haction : ∀ ctx, action ctx ruleno (popped.map StackEntry.minor).reverse = some (inj (f ctx).1, (f ctx).2))
    (hleads : Leads ts n (⟨act, sym, inj (outcome f).1⟩ :: base) (ok && (outcome f).2) stack' ok')
    : Leads ts n (popped ++ base) ok stack' ok' := by
  obtain ⟨hstate, hdefault, hruleno, hrule, hpos⟩ := h
  intro rest P hroom hfull
  refine ends_reduce popped inj hf ?_ hruleno hrule haction hgoes.1 hgoes.2 ?_ ?_
  . unfold yyFindShiftAction
    rw [if_pos hstate]
    exact hdefault
  . intro _
    exact hleads rest P hroom hfull
  . intro hlen hdepth
    rw [List.length_append] at hlen
    omega

-- an action that cannot fail
theorem Leads.build (popped : List StackEntry)
    (h : Reduces (topState (popped ++ base)) ruleno sym popped.length) (hgoes : Goes (topState base) sym act)
    (haction : ∀ ctx, action ctx ruleno (popped.map StackEntry.minor).reverse = some (v, ctx))
    (hleads : Leads ts n (⟨act, sym, v⟩ :: base) ok stack' ok') : Leads ts n (popped ++ base) ok stack' ok' := by
  apply Leads.reduce popped id h hgoes (steady_pure v) haction
  dsimp only [outcome, id]
  rw [show ParseContext.new.success = true from rfl, Bool.and_true]
  exact hleads

-- a rule with nothing on its right, taken because of the token to come
theorem Leads.empty (hact : yyFindShiftAction (topState stack) t.1 = yyNState + ruleno) (hruleno : ruleno < yyNRule)
    (hrule : yyRuleInfo.getD ruleno (0, 0) = (sym, 0)) (hgoes : Goes (topState stack) sym act)
    (haction : ∀ ctx, action ctx ruleno [] = some (v, ctx)) (hn : stack.length + 1 ≤ n)
    (hleads : Leads (t :: ts) n (⟨act, sym, v⟩ :: stack) ok stack' ok') : Leads (t :: ts) n stack ok stack' ok' := by
  intro rest P hroom hfull
  change Ends (t :: (ts ++ rest)) ([] ++ stack) ok P
  refine ends_reduce [] id (steady_pure v) hact hruleno hrule haction hgoes.1 hgoes.2 ?_ ?_
  . intro _
    dsimp only [outcome, id]
    rw [show ParseContext.new.success = true from rfl, Bool.and_true]
    exact hleads rest P hroom hfull
  . intro _ hlen
    exact hfull (Nat.le_trans hlen hn)

theorem Leads.followed (h1 : Leads ts n stack ok stack' ok') (h2 : Leads [] 0 stack' ok' stack'' ok'')
    : Leads ts n stack ok stack'' ok'' := by
  have h := h1.trans h2
  rw [List.append_nil, Nat.max_zero] at h
  exact h

theorem Leads.high (hn : n ≤ stack.length) (hleads : Leads ts 0 stack ok stack' ok')
    : Leads ts n stack ok stack' ok' := by
  intro rest P hroom _ ls p ctx fuel ctx' hts hstack hlen
  apply hleads rest P ?_ ?_ ls p ctx fuel ctx' hts hstack hlen
  . intro _
    exact hroom (Nat.lt_of_le_of_lt hn hlen)
  . intro hzero
    exact absurd hzero (by decide)

end

end

end YyParser
end Kids
