import Kids.Conf.Syntax
import Kids.Lib.ShiftReduce

/-!
The actions of the parser build what the items of a text are evaluated to: each rule is one step of the
evaluation.
-/

namespace Kids

open Bytes YyParser ShiftReduce

namespace ParseContext

-- an error is there only if the parse has failed
def Clean (ctx : ParseContext) : Prop :=
  ctx.success = true → ctx.error = none

theorem clean_fail (ctx : ParseContext) (text : Bytes) : (ctx.fail text).Clean :=
  fun h => nomatch h

/--
What is known of a context after some of the parse.
-/
structure Follows (ctx ctx' : ParseContext) : Prop where
  success : ctx'.success = true → ctx.success = true
  clean : ctx.Clean → ctx'.Clean

theorem Follows.refl (ctx : ParseContext) : ctx.Follows ctx where
  success := fun h => h
  clean := fun h => h

theorem Follows.trans (h1 : Follows ctx ctx') (h2 : Follows ctx' ctx'') : Follows ctx ctx'' where
  success := fun h => h1.success (h2.success h)
  clean := fun h => h2.clean (h1.clean h)

theorem follows_fail (ctx : ParseContext) (text : Bytes) : ctx.Follows (ctx.fail text) where
  success := fun h => nomatch h
  clean := fun _ => ctx.clean_fail text

end ParseContext

open ParseContext

/--
The function leaves the context alone or writes an error into it, and decides without it which of them.
-/
def Steady (f : ParseContext → α × ParseContext) : Prop :=
  ∃ text : ParseContext → Bytes, ∀ ctx, f ctx = ((outcome f).1, if (outcome f).2 then ctx else ctx.fail (text ctx))

theorem Steady.fst (h : Steady f) (ctx : ParseContext) : (f ctx).1 = (outcome f).1 := by
  obtain ⟨text, h⟩ := h
  rw [h]

theorem Steady.follows (h : Steady f) (ctx : ParseContext) : ctx.Follows (f ctx).2 := by
  obtain ⟨text, h⟩ := h
  rw [h]
  dsimp only
  split
  . exact .refl ctx
  . exact ctx.follows_fail _

theorem Steady.ok (h : Steady f) (hsuccess : (f ctx).2.success = true) : (outcome f).2 = true := by
  obtain ⟨text, h⟩ := h
  rw [h] at hsuccess
  dsimp only at hsuccess
  split at hsuccess
  . next hok => exact hok
  . cases hsuccess

theorem steady_pure (a : α) : Steady fun ctx => (a, ctx) :=
  ⟨fun _ => [], fun _ => rfl⟩

theorem steady_fail (a : α) (text : ParseContext → Bytes) : Steady fun ctx => (a, ctx.fail (text ctx)) :=
  ⟨text, fun _ => rfl⟩

theorem steady_ite {p : Prop} [Decidable p] {f g : ParseContext → α × ParseContext} (hf : Steady f) (hg : Steady g)
    : Steady fun ctx => if p then f ctx else g ctx := by
  split
  . exact hf
  . exact hg

theorem steady_setKidsConfValue (conf : KidsConfig) (kv : KeyValue) : Steady (setKidsConfValue conf kv) := by
  unfold setKidsConfValue
  dsimp only
  iterate 8
    apply steady_ite
    . apply steady_pure
  apply steady_ite
  . cases (conf.setNlimit kv.value.list).2 with
    | true => apply steady_pure
    | false =>
      apply steady_fail (conf.setNlimit kv.value.list).1
        fun ctx => fieldError errConfUnknownKidsField ctx.line kv
  . apply steady_pure

theorem steady_setStoreConfValue (conf : StoreConfig) (kv : KeyValue) : Steady (setStoreConfValue conf kv) := by
  unfold setStoreConfValue
  dsimp only
  iterate 9
    apply steady_ite
    . apply steady_pure
  apply steady_fail conf fun ctx => fieldError errConfUnknownStoreField ctx.line kv

theorem steady_addListen (conf listen : KidsConfig) : Steady (addListen conf listen) := by
  unfold addListen
  split
  . apply steady_fail conf fun _ => errMultiListenHost
  . apply steady_pure

theorem steady_addStore (conf : KidsConfig) (s : StoreConfig) : Steady (addStore conf s) := by
  unfold addStore
  split
  . apply steady_fail conf fun _ => errMultiStore
  . apply steady_pure

theorem evalKeyValues_append (kvs : List KeyValue) (kv : KeyValue)
    : evalKeyValues (kvs ++ [kv]) = andThen (evalKeyValues kvs) fun conf => outcome (setKidsConfValue conf kv) := by
  unfold evalKeyValues
  rw [List.foldl_append]
  rfl

theorem evalBody_append (r : StoreConfig × Bool) (body : List StoreItem) (item : StoreItem)
    : evalBody r (body ++ [item]) = andThen (evalBody r body) fun conf => item.eval conf := by
  induction body generalizing r with
  | nil => simp [evalBody]
  | cons head body ih =>
    rw [List.cons_append, evalBody, evalBody, ih]

theorem StoreItem.eval_store (conf : StoreConfig) (type : Bytes) (bufferType : Option Bytes) (body : List StoreItem)
    : (StoreItem.store type bufferType body).eval conf =
        andThen (evalStore type bufferType body) fun s => (addChild conf s, true) := by
  simp [StoreItem.eval, evalStore, andThen]

theorem bodyTokens_append (body : List StoreItem) (item : StoreItem)
    : bodyTokens (body ++ [item]) = bodyTokens body ++ item.tokens := by
  induction body with
  | nil => simp [bodyTokens]
  | cons head body ih => rw [List.cons_append, bodyTokens, bodyTokens, ih, List.append_assoc]

namespace ConfText

def push (t : ConfText) (item : ConfItem) : ConfText := ⟨t.head, t.tail ++ [item]⟩

theorem tokens_push (t : ConfText) (item : ConfItem) : (t.push item).tokens = t.tokens ++ item.tokens := by
  simp [push, tokens, items]

theorem eval_push (t : ConfText) (item : ConfItem)
    : (t.push item).eval = andThen t.eval fun conf => item.next conf := by
  unfold eval push
  rw [List.foldl_append]
  rfl

end ConfText

namespace YyParser

def plain (ts : List Tok) : List Tok :=
  ts.map Tok.plain

@[simp]
theorem plain_append (ts us : List Tok) : plain (ts ++ us) = plain ts ++ plain us :=
  List.map_append

/--
The lexer gives a text to the tokens that are more than a symbol.
-/
def Given (t : Tok) : Prop :=
  1 ≤ t.1 ∧ t.1 ≤ 8 ∧ (t.2 = none ↔ t.1 = tkSemicolon ∨ t.1 = tkLp ∨ t.1 = tkRp)

/--
The tokens are those of a phrase, and the value is what it is evaluated to. If `strict` holds, there is no
error in it.
-/
def Phrase (strict : Bool) (tokens : α → List Tok) (eval : α → Minor × Bool) (ts : List Tok) (v : Minor) : Prop :=
  ∃ a, plain ts = tokens a ∧ v = (eval a).1 ∧ (strict = true → (eval a).2 = true)

def kidsValue (r : KidsConfig × Bool) : Minor × Bool := (.kids r.1, r.2)
def storeValue (r : StoreConfig × Bool) : Minor × Bool := (.store r.1, r.2)

/--
What the value of each symbol stands for.
-/
def Stands (strict : Bool) : Nat → List Tok → Minor → Prop
  -- conf
  | 10 => Phrase strict ConfText.tokens fun t => kidsValue t.eval
  -- log
  | 11 => Phrase strict (fun kvs => (ConfItem.log kvs).tokens) fun kvs => kidsValue (evalKeyValues kvs)
  -- listen
  | 12 => Phrase strict (fun kvs => (ConfItem.listen kvs).tokens) fun kvs => kidsValue (evalKeyValues kvs)
  -- store
  | 13 =>
    Phrase strict (fun (type, bufferType, body) => (ConfItem.store type bufferType body).tokens)
      fun (type, bufferType, body) => storeValue (evalStore type bufferType body)
  -- keyvalue
  | 14 => Phrase strict KeyValue.tokens fun kv => (.keyValue kv, true)
  -- value
  | 15 => Phrase strict (fun (vs : Values) => vs.list.map idToken) fun vs => (.values vs, true)
  -- log_conf and listen_conf
  | 16 => Phrase strict (·.flatMap KeyValue.tokens) fun kvs => kidsValue (evalKeyValues kvs)
  | 17 => Phrase strict (·.flatMap KeyValue.tokens) fun kvs => kidsValue (evalKeyValues kvs)
  -- store_conf
  | 18 => Phrase strict bodyTokens fun body => storeValue (evalBody (.new, true) body)
  -- buffer_type
  | 19 => Phrase strict bufferTypeTokens fun bufferType => (.token bufferType, true)
  | major => fun ts v => ∃ text, Given (major, text) ∧ ts = [(major, text)] ∧ v = .token text

-- the right sides of the rules
def rhs : Nat → List Nat
  | 0 => [10]
  | 1 => [1]
  | 2 => [15, 1]
  | 3 => [1, 15, 2]
  | 4 => [14]
  | 5 => [10, 14]
  | 6 => [12]
  | 7 => [10, 12]
  | 8 => [13]
  | 9 => [10, 13]
  | 10 => [11]
  | 11 => [10, 11]
  | 12 => [3, 4, 16, 5]
  | 13 => [14]
  | 14 => [16, 14]
  | 15 => [6, 4, 17, 5]
  | 16 => [14]
  | 17 => [17, 14]
  | 18 => [7, 1, 19, 4, 18, 5]
  | 19 => [7, 1, 19, 4, 5]
  | 20 => [8]
  | 21 => []
  | 22 => [14]
  | 23 => [18, 14]
  | 24 => [13]
  | 25 => [18, 13]
  | _ => []

def lhs (ruleno : Nat) : Nat :=
  (yyRuleInfo.getD ruleno (0, 0)).1

/--
The action of the rule makes a value of the left side from values of the right side.
-/
def Acts (strict : Bool) (ruleno : Nat) : Prop :=
  ∀ ctx ts vs, StandAll (Stands strict) (rhs ruleno) ts vs →
    ∃ v ctx', action ctx ruleno vs = some (v, ctx') ∧ ctx.Follows ctx' ∧
      ((strict = true → ctx'.success = true) → Stands strict (lhs ruleno) ts v)

section

variable {strict : Bool}

theorem stands_id (h : Stands strict 1 ts v) : ∃ text, ts = [idToken text] ∧ v = .token (some text) := by
  obtain ⟨text, hgiven, rfl, rfl⟩ := h
  cases text with
  | none => exact absurd (hgiven.2.2.mp rfl) (by decide)
  | some text => exact ⟨text, rfl, rfl⟩

theorem stands_symbol {major : Nat} (hmajor : major = 2 ∨ major = 4 ∨ major = 5) (h : Stands strict major ts v)
    : ts = [(major, none)] ∧ ∃ text, v = .token text := by
  have hterminal : ∃ text, Given (major, text) ∧ ts = [(major, text)] ∧ v = .token text := by
    rcases hmajor with rfl | rfl | rfl <;> exact h
  obtain ⟨text, hgiven, rfl, rfl⟩ := hterminal
  have hnone : text = none := hgiven.2.2.mpr hmajor
  rw [hnone]
  exact ⟨rfl, none, rfl⟩

theorem stands_keyword {major : Nat} (hmajor : major = 3 ∨ major = 6 ∨ major = 7) (h : Stands strict major ts v)
    : plain ts = [(major, none)] ∧ ∃ text, v = .token text := by
  rcases hmajor with rfl | rfl | rfl
  . obtain ⟨text, -, rfl, rfl⟩ := h
    exact ⟨rfl, text, rfl⟩
  . obtain ⟨text, -, rfl, rfl⟩ := h
    exact ⟨rfl, text, rfl⟩
  . obtain ⟨text, -, rfl, rfl⟩ := h
    exact ⟨rfl, text, rfl⟩

theorem stands_bufferType (h : Stands strict 8 ts v)
    : ∃ text, ts = bufferTypeTokens (some text) ∧ v = .token (some text) := by
  obtain ⟨text, hgiven, rfl, rfl⟩ := h
  cases text with
  | none => exact absurd (hgiven.2.2.mp rfl) (by decide)
  | some text => exact ⟨text, rfl, rfl⟩

theorem phrase_of_steady {tokens : α → List Tok} {eval : α → Minor × Bool} {f : ParseContext → β × ParseContext}
    {inj : β → Minor} (a : α) (ctx : ParseContext) (hf : Steady f) (htokens : plain ts = tokens a)
    (hvalue : inj (outcome f).1 = (eval a).1)
    (hok : strict = true → (outcome f).2 = true → (eval a).2 = true)
    : ∃ v ctx', some (inj (f ctx).1, (f ctx).2) = some (v, ctx') ∧ ctx.Follows ctx' ∧
        ((strict = true → ctx'.success = true) → Phrase strict tokens eval ts v) := by
  refine ⟨_, _, rfl, hf.follows ctx, fun hsuccess => ⟨a, htokens, ?_, ?_⟩⟩
  . rw [hf.fst]
    exact hvalue
  . exact fun hstrict => hok hstrict (hf.ok (hsuccess hstrict))

theorem and_ok {p q : Bool} (hp : p = true) (hq : q = true) : (p && q) = true :=
  Bool.and_eq_true_iff.mpr ⟨hp, hq⟩

-- `main`, which ends the parse

theorem acts_0 (h : StandAll (Stands strict) (rhs 0) ts vs)
    : ∃ t : ConfText, plain ts = t.tokens ∧ (strict = true → t.eval.2 = true) ∧
        ∀ ctx, action ctx 0 vs = some (.token none, { ctx with conf := some t.eval.1 }) := by
  cases h with | cons h1 h =>
  cases h with | nil =>
  obtain ⟨t, htokens, rfl, hok⟩ := h1
  rw [List.append_nil]
  exact ⟨t, htokens, hok, fun _ => rfl⟩

-- `value` and `keyvalue`

theorem acts_1 : Acts strict 1 := by
  intro ctx ts vs h
  cases h with | cons h1 h =>
  cases h with | nil =>
  obtain ⟨text, rfl, rfl⟩ := stands_id h1
  exact ⟨_, _, rfl, .refl ctx, fun _ => ⟨.single text, rfl, rfl, fun _ => rfl⟩⟩

theorem acts_2 : Acts strict 2 := by
  intro ctx ts vs h
  cases h with | cons h1 h =>
  cases h with | cons h2 h =>
  cases h with | nil =>
  obtain ⟨values, htokens, rfl, -⟩ := h1
  obtain ⟨text, rfl, rfl⟩ := stands_id h2
  refine ⟨_, _, rfl, .refl ctx, fun _ => ⟨values.push text, ?_, rfl, fun _ => rfl⟩⟩
  rw [List.append_nil, plain_append, htokens]
  change values.list.map idToken ++ [idToken text] = (values.list ++ [text]).map idToken
  rw [List.map_append]
  rfl

theorem acts_3 : Acts strict 3 := by
  intro ctx ts vs h
  cases h with | cons h1 h =>
  cases h with | cons h2 h =>
  cases h with | cons h3 h =>
  cases h with | nil =>
  obtain ⟨key, rfl, rfl⟩ := stands_id h1
  obtain ⟨values, htokens, rfl, -⟩ := h2
  obtain ⟨rfl, text, rfl⟩ := stands_symbol (.inl rfl) h3
  refine ⟨_, _, rfl, .refl ctx, fun _ => ⟨⟨key, values⟩, ?_, rfl, fun _ => rfl⟩⟩
  rw [plain_append, plain_append, htokens]
  rfl

-- `conf`

theorem tokens_single (item : ConfItem) : (ConfText.mk item []).tokens = item.tokens := by
  simp [ConfText.tokens, ConfText.items]

theorem acts_4 : Acts strict 4 := by
  intro ctx ts vs h
  cases h with | cons h1 h =>
  cases h with | nil =>
  obtain ⟨kv, htokens, rfl, -⟩ := h1
  apply phrase_of_steady ⟨.keyValue kv, []⟩ ctx (steady_setKidsConfValue .new kv)
  . rw [List.append_nil, htokens, tokens_single]
    rfl
  . rfl
  . exact fun _ hok => hok

theorem acts_5 : Acts strict 5 := by
  intro ctx ts vs h
  cases h with | cons h1 h =>
  cases h with | cons h2 h =>
  cases h with | nil =>
  obtain ⟨t, htokens1, rfl, hok⟩ := h1
  obtain ⟨kv, htokens2, rfl, -⟩ := h2
  apply phrase_of_steady (t.push (.keyValue kv)) ctx (steady_setKidsConfValue t.eval.1 kv)
  . rw [List.append_nil, plain_append, htokens1, htokens2, ConfText.tokens_push]
    rfl
  . rw [ConfText.eval_push]
    rfl
  . rw [ConfText.eval_push]
    exact fun hstrict hlast => and_ok (hok hstrict) hlast

theorem acts_6 : Acts strict 6 := by
  intro ctx ts vs h
  cases h with | cons h1 h =>
  cases h with | nil =>
  obtain ⟨kvs, htokens, rfl, hok⟩ := h1
  apply phrase_of_steady ⟨.listen kvs, []⟩ ctx (steady_pure (evalKeyValues kvs).1)
  . rw [List.append_nil, htokens, tokens_single]
  . rfl
  . exact fun hstrict _ => hok hstrict

theorem acts_7 : Acts strict 7 := by
  intro ctx ts vs h
  cases h with | cons h1 h =>
  cases h with | cons h2 h =>
  cases h with | nil =>
  obtain ⟨t, htokens1, rfl, hok1⟩ := h1
  obtain ⟨kvs, htokens2, rfl, hok2⟩ := h2
  apply phrase_of_steady (t.push (.listen kvs)) ctx (steady_addListen t.eval.1 (evalKeyValues kvs).1)
  . rw [List.append_nil, plain_append, htokens1, htokens2, ConfText.tokens_push]
  . rw [ConfText.eval_push]
    rfl
  . rw [ConfText.eval_push]
    exact fun hstrict hlast => and_ok (hok1 hstrict) (and_ok (hok2 hstrict) hlast)

theorem acts_8 : Acts strict 8 := by
  intro ctx ts vs h
  cases h with | cons h1 h =>
  cases h with | nil =>
  obtain ⟨⟨type, bufferType, body⟩, htokens, rfl, hok⟩ := h1
  have hsteady := steady_pure { KidsConfig.new with store := some (evalStore type bufferType body).1 }
  apply phrase_of_steady ⟨.store type bufferType body, []⟩ ctx hsteady
  . rw [List.append_nil, htokens, tokens_single]
  . rfl
  . exact fun hstrict hlast => and_ok (hok hstrict) hlast

theorem acts_9 : Acts strict 9 := by
  intro ctx ts vs h
  cases h with | cons h1 h =>
  cases h with | cons h2 h =>
  cases h with | nil =>
  obtain ⟨t, htokens1, rfl, hok1⟩ := h1
  obtain ⟨⟨type, bufferType, body⟩, htokens2, rfl, hok2⟩ := h2
  apply phrase_of_steady (t.push (.store type bufferType body)) ctx
    (steady_addStore t.eval.1 (evalStore type bufferType body).1)
  . rw [List.append_nil, plain_append, htokens1, htokens2, ConfText.tokens_push]
  . rw [ConfText.eval_push]
    rfl
  . rw [ConfText.eval_push]
    exact fun hstrict hlast => and_ok (hok1 hstrict) (and_ok (hok2 hstrict) hlast)

theorem acts_10 : Acts strict 10 := by
  intro ctx ts vs h
  cases h with | cons h1 h =>
  cases h with | nil =>
  obtain ⟨kvs, htokens, rfl, hok⟩ := h1
  apply phrase_of_steady ⟨.log kvs, []⟩ ctx (steady_pure (evalKeyValues kvs).1)
  . rw [List.append_nil, htokens, tokens_single]
  . rfl
  . exact fun hstrict _ => hok hstrict

theorem acts_11 : Acts strict 11 := by
  intro ctx ts vs h
  cases h with | cons h1 h =>
  cases h with | cons h2 h =>
  cases h with | nil =>
  obtain ⟨t, htokens1, rfl, hok1⟩ := h1
  obtain ⟨kvs, htokens2, rfl, hok2⟩ := h2
  apply phrase_of_steady (t.push (.log kvs)) ctx (steady_pure (addLog t.eval.1 (evalKeyValues kvs).1))
  . rw [List.append_nil, plain_append, htokens1, htokens2, ConfText.tokens_push]
  . rw [ConfText.eval_push]
    rfl
  . rw [ConfText.eval_push]
    exact fun hstrict hlast => and_ok (hok1 hstrict) (and_ok (hok2 hstrict) hlast)

-- `log` and `listen`, and what stands in them

theorem acts_12 : Acts strict 12 := by
  intro ctx ts vs h
  cases h with | cons h1 h =>
  cases h with | cons h2 h =>
  cases h with | cons h3 h =>
  cases h with | cons h4 h =>
  cases h with | nil =>
  obtain ⟨hlog, _, rfl⟩ := stands_keyword (.inl rfl) h1
  obtain ⟨rfl, _, rfl⟩ := stands_symbol (.inr (.inl rfl)) h2
  obtain ⟨kvs, htokens, rfl, hok⟩ := h3
  obtain ⟨rfl, _, rfl⟩ := stands_symbol (.inr (.inr rfl)) h4
  refine ⟨_, _, rfl, .refl ctx, fun _ => ⟨kvs, ?_, rfl, hok⟩⟩
  rw [plain_append, plain_append, plain_append, hlog, htokens]
  rfl

theorem acts_bodyHead {ruleno symbol : Nat} (hrhs : rhs ruleno = [14]) (hlhs : lhs ruleno = symbol)
    (haction : ∀ ctx kv, action ctx ruleno [.keyValue kv] = kids (setKidsConfValue .new kv ctx))
    (hsymbol : Stands strict symbol =
      Phrase strict (·.flatMap KeyValue.tokens) fun kvs => kidsValue (evalKeyValues kvs))
    : Acts strict ruleno := by
  intro ctx ts vs h
  rw [hrhs] at h
  cases h with | cons h1 h =>
  cases h with | nil =>
  obtain ⟨kv, htokens, rfl, -⟩ := h1
  rw [haction, hlhs, hsymbol]
  apply phrase_of_steady [kv] ctx (steady_setKidsConfValue .new kv)
  . rw [List.append_nil, htokens, List.flatMap_singleton]
  . rfl
  . exact fun _ hlast => hlast

theorem acts_bodyTail {ruleno symbol : Nat} (hrhs : rhs ruleno = [symbol, 14]) (hlhs : lhs ruleno = symbol)
    (haction : ∀ ctx conf kv, action ctx ruleno [.kids conf, .keyValue kv] = kids (setKidsConfValue conf kv ctx))
    (hsymbol : Stands strict symbol =
      Phrase strict (·.flatMap KeyValue.tokens) fun kvs => kidsValue (evalKeyValues kvs))
    : Acts strict ruleno := by
  intro ctx ts vs h
  rw [hrhs] at h
  cases h with | cons h1 h =>
  cases h with | cons h2 h =>
  cases h with | nil =>
  rw [hsymbol] at h1
  obtain ⟨kvs, htokens1, rfl, hok⟩ := h1
  obtain ⟨kv, htokens2, rfl, -⟩ := h2
  dsimp only [kidsValue]
  rw [haction, hlhs, hsymbol]
  apply phrase_of_steady (kvs ++ [kv]) ctx (steady_setKidsConfValue (evalKeyValues kvs).1 kv)
  . rw [List.append_nil, plain_append, htokens1, htokens2, List.flatMap_append, List.flatMap_singleton]
  . rw [evalKeyValues_append]
    rfl
  . rw [evalKeyValues_append]
    exact fun hstrict hlast => and_ok (hok hstrict) hlast

theorem acts_15 : Acts strict 15 := by
  intro ctx ts vs h
  cases h with | cons h1 h =>
  cases h with | cons h2 h =>
  cases h with | cons h3 h =>
  cases h with | cons h4 h =>
  cases h with | nil =>
  obtain ⟨hlisten, _, rfl⟩ := stands_keyword (.inr (.inl rfl)) h1
  obtain ⟨rfl, _, rfl⟩ := stands_symbol (.inr (.inl rfl)) h2
  obtain ⟨kvs, htokens, rfl, hok⟩ := h3
  obtain ⟨rfl, _, rfl⟩ := stands_symbol (.inr (.inr rfl)) h4
  refine ⟨_, _, rfl, .refl ctx, fun _ => ⟨kvs, ?_, rfl, hok⟩⟩
  rw [plain_append, plain_append, plain_append, hlisten, htokens]
  rfl

-- `store`, and what stands in it

theorem acts_18 : Acts strict 18 := by
  intro ctx ts vs h
  cases h with | cons h1 h =>
  cases h with | cons h2 h =>
  cases h with | cons h3 h =>
  cases h with | cons h4 h =>
  cases h with | cons h5 h =>
  cases h with | cons h6 h =>
  cases h with | nil =>
  obtain ⟨hstore, _, rfl⟩ := stands_keyword (.inr (.inr rfl)) h1
  obtain ⟨type, rfl, rfl⟩ := stands_id h2
  obtain ⟨bufferType, hbuffer, rfl, -⟩ := h3
  obtain ⟨rfl, _, rfl⟩ := stands_symbol (.inr (.inl rfl)) h4
  obtain ⟨body, htokens, rfl, hok⟩ := h5
  obtain ⟨rfl, _, rfl⟩ := stands_symbol (.inr (.inr rfl)) h6
  refine ⟨_, _, rfl, .refl ctx, fun _ => ⟨(type, bufferType, body), ?_, rfl, ?_⟩⟩
  . simp only [plain_append, hstore, hbuffer, htokens]
    simp [ConfItem.tokens, blockTokens, storeHead, plain, Tok.plain, idToken, tkId, tkLp, tkRp, tkListen, tkLog,
      tkStore]
  . intro hstrict
    exact and_ok (hok hstrict) rfl

theorem acts_19 : Acts strict 19 := by
  intro ctx ts vs h
  cases h with | cons h1 h =>
  cases h with | cons h2 h =>
  cases h with | cons h3 h =>
  cases h with | cons h4 h =>
  cases h with | cons h5 h =>
  cases h with | nil =>
  obtain ⟨hstore, _, rfl⟩ := stands_keyword (.inr (.inr rfl)) h1
  obtain ⟨type, rfl, rfl⟩ := stands_id h2
  obtain ⟨bufferType, hbuffer, rfl, -⟩ := h3
  obtain ⟨rfl, _, rfl⟩ := stands_symbol (.inr (.inl rfl)) h4
  obtain ⟨rfl, _, rfl⟩ := stands_symbol (.inr (.inr rfl)) h5
  refine ⟨_, _, rfl, .refl ctx, fun _ => ⟨(type, bufferType, []), ?_, rfl, fun _ => rfl⟩⟩
  simp only [plain_append, hstore, hbuffer]
  simp [ConfItem.tokens, blockTokens, storeHead, bodyTokens, plain, Tok.plain, idToken, tkId, tkLp, tkRp, tkListen,
    tkLog, tkStore]

theorem acts_20 : Acts strict 20 := by
  intro ctx ts vs h
  cases h with | cons h1 h =>
  cases h with | nil =>
  obtain ⟨text, rfl, rfl⟩ := stands_bufferType h1
  exact ⟨_, _, rfl, .refl ctx, fun _ => ⟨some text, rfl, rfl, fun _ => rfl⟩⟩

theorem acts_21 : Acts strict 21 := by
  intro ctx ts vs h
  cases h with | nil =>
  exact ⟨_, _, rfl, .refl ctx, fun _ => ⟨none, rfl, rfl, fun _ => rfl⟩⟩

theorem acts_22 : Acts strict 22 := by
  intro ctx ts vs h
  cases h with | cons h1 h =>
  cases h with | nil =>
  obtain ⟨kv, htokens, rfl, -⟩ := h1
  apply phrase_of_steady [StoreItem.keyValue kv] ctx (steady_setStoreConfValue .new kv)
  . rw [List.append_nil, htokens]
    exact (List.append_nil _).symm
  . rfl
  . exact fun _ hlast => hlast

theorem acts_23 : Acts strict 23 := by
  intro ctx ts vs h
  cases h with | cons h1 h =>
  cases h with | cons h2 h =>
  cases h with | nil =>
  obtain ⟨body, htokens1, rfl, hok⟩ := h1
  obtain ⟨kv, htokens2, rfl, -⟩ := h2
  have haction (conf : StoreConfig)
      : action ctx 23 [.store conf, .keyValue kv] = store (setStoreConfValue conf kv ctx) :=
    rfl
  dsimp only [storeValue]
  rw [haction]
  apply phrase_of_steady (body ++ [.keyValue kv]) ctx (steady_setStoreConfValue (evalBody (.new, true) body).1 kv)
  . rw [List.append_nil, plain_append, htokens1, htokens2, bodyTokens_append]
    rfl
  . rw [evalBody_append]
    rfl
  . rw [evalBody_append]
    exact fun hstrict hlast => and_ok (hok hstrict) hlast

theorem acts_24 : Acts strict 24 := by
  intro ctx ts vs h
  cases h with | cons h1 h =>
  cases h with | nil =>
  obtain ⟨⟨type, bufferType, body⟩, htokens, rfl, hok⟩ := h1
  apply phrase_of_steady [StoreItem.store type bufferType body] ctx
    (steady_pure (addChild .new (evalStore type bufferType body).1))
  . rw [List.append_nil, htokens]
    exact (List.append_nil _).symm
  . rfl
  . intro hstrict hlast
    simp only [storeValue, evalBody, StoreItem.eval_store]
    exact and_ok (hok hstrict) hlast

theorem acts_25 : Acts strict 25 := by
  intro ctx ts vs h
  cases h with | cons h1 h =>
  cases h with | cons h2 h =>
  cases h with | nil =>
  obtain ⟨body, htokens1, rfl, hok1⟩ := h1
  obtain ⟨⟨type, bufferType, inner⟩, htokens2, rfl, hok2⟩ := h2
  have haction (conf child : StoreConfig)
      : action ctx 25 [.store conf, .store child] = store (addChild conf child, ctx) :=
    rfl
  dsimp only [storeValue]
  rw [haction]
  apply phrase_of_steady (body ++ [.store type bufferType inner]) ctx
    (steady_pure (addChild (evalBody (.new, true) body).1 (evalStore type bufferType inner).1))
  . rw [List.append_nil, plain_append, htokens1, htokens2, bodyTokens_append]
    rfl
  . rw [evalBody_append]
    rfl
  . simp only [evalBody_append, StoreItem.eval_store]
    exact fun hstrict hlast => and_ok (hok1 hstrict) (and_ok (hok2 hstrict) hlast)

end

end YyParser
end Kids
