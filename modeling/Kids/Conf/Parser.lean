import Kids.Conf.Lexer

/-!
The parser of `parser.y`, as `parser.c` has it: the tables, the actions of the rules and the loop of
`Parse`. The entry of state 0 at the bottom of the stack is left out. `none` is a step that an assertion of
the source rules out.
-/

namespace Kids

open Bytes

/--
`YYMINORTYPE`. A token that comes with no text is `NULL`.
-/
inductive Minor
  | token (value : Option Bytes)
  | values (vs : Values)
  | keyValue (kv : KeyValue)
  | kids (conf : KidsConfig)
  | store (conf : StoreConfig)

namespace YyParser

def yyNState : Nat := 39
def yyNRule : Nat := 26
def yyAcceptAction : Nat := yyNState + yyNRule + 1
def yyErrorAction : Nat := yyNState + yyNRule
def yyStackDepth : Nat := 100

def yyAction : List Nat := [
  1, 15, 17, 16, 18, 39, 9, 29, 14, 7,
  66, 13, 12, 32, 34, 33, 35, 9, 5, 14,
  8, 9, 13, 12, 10, 25, 4, 12, 20, 21,
  9, 37, 36, 3, 22, 9, 12, 9, 38, 31,
  26, 28, 2, 6, 23, 24, 11, 19, 9, 30,
  67, 67, 67, 67, 27
]

def yyLookahead : List Nat := [
  10, 11, 12, 13, 14, 0, 1, 14, 3, 16,
  20, 6, 7, 11, 12, 13, 14, 1, 4, 3,
  1, 1, 6, 7, 15, 5, 4, 7, 13, 14,
  1, 1, 2, 18, 5, 1, 7, 1, 1, 5,
  14, 5, 4, 17, 13, 14, 19, 8, 1, 14,
  21, 21, 21, 21, 14
]

def yyShiftCount : Nat := 14

def yyShiftOfst : List Nat := [
  16, 5, 29, 20, 47, 47, 36, 34, 39, 37,
  30, 38, 19, 22, 14
]

def yyReduceCount : Nat := 9

def yyReduceOfst : List Int := [
  -10, 2, 15, 31, 26, -7, 40, 35, 27, 9
]

def yyDefault : List Nat := [
  65, 65, 65, 65, 65, 65, 65, 65, 60, 65,
  65, 65, 65, 65, 65, 49, 47, 45, 43, 59,
  63, 61, 58, 64, 62, 57, 55, 56, 54, 52,
  53, 51, 50, 48, 46, 44, 42, 41, 40
]

-- the symbol on the left of each rule, and the number of those on the right
def yyRuleInfo : List (Nat × Nat) := [
  (20, 1),
  (15, 1),
  (15, 2),
  (14, 3),
  (10, 1),
  (10, 2),
  (10, 1),
  (10, 2),
  (10, 1),
  (10, 2),
  (10, 1),
  (10, 2),
  (11, 4),
  (16, 1),
  (16, 2),
  (12, 4),
  (17, 1),
  (17, 2),
  (13, 6),
  (13, 5),
  (19, 1),
  (19, 0),
  (18, 1),
  (18, 2),
  (18, 1),
  (18, 2)
]

def yyFindShiftAction (stateno lookahead : Nat) : Nat :=
  let default := yyDefault.getD stateno yyErrorAction
  if stateno > yyShiftCount then
    default
  else
    let i := yyShiftOfst.getD stateno 0 + lookahead
    if yyLookahead[i]? = some lookahead then yyAction.getD i yyErrorAction else default

def yyFindReduceAction (stateno lookahead : Nat) : Option Nat :=
  if stateno > yyReduceCount then
    none
  else
    let i := yyReduceOfst.getD stateno 0 + lookahead
    if 0 ≤ i ∧ yyLookahead[i.toNat]? = some lookahead then yyAction[i.toNat]? else none

-- `conf ::= conf listen`
def addListen (conf listen : KidsConfig) (ctx : ParseContext) : KidsConfig × ParseContext :=
  if !conf.listenSocket.isEmpty || !conf.listenHost.isEmpty then
    (conf, ctx.fail errMultiListenHost)
  else
    ({ conf with
        listenSocket := listen.listenSocket
        listenHost := listen.listenHost
        listenPort := listen.listenPort
      }, ctx)

-- `conf ::= conf store`
def addStore (conf : KidsConfig) (store : StoreConfig) (ctx : ParseContext) : KidsConfig × ParseContext :=
  match conf.store with
  | some _ => (conf, ctx.fail errMultiStore)
  | none => ({ conf with store := some store }, ctx)

-- `conf ::= conf log`
def addLog (conf log : KidsConfig) : KidsConfig :=
  { conf with logLevel := log.logLevel, logFile := log.logFile }

def setType (conf : StoreConfig) (type : Bytes) (bufferType : Option Bytes) : StoreConfig :=
  { conf with type := type, bufferType := bufferType.getD [] }

def addChild (conf store : StoreConfig) : StoreConfig :=
  { conf with stores := conf.stores ++ [store] }

def kids (r : KidsConfig × ParseContext) : Option (Minor × ParseContext) :=
  some (.kids r.1, r.2)

def store (r : StoreConfig × ParseContext) : Option (Minor × ParseContext) :=
  some (.store r.1, r.2)

/--
The actions of `yy_reduce`, on the values of the right side of the rule.
-/
def action (ctx : ParseContext) : Nat → List Minor → Option (Minor × ParseContext)
  -- main ::= conf
  | 0, [.kids conf] => some (.token none, { ctx with conf := some conf })
  -- value ::= ID
  | 1, [.token (some v)] => some (.values (.single v), ctx)
  -- value ::= value ID
  | 2, [.values vs, .token (some v)] => some (.values (vs.push v), ctx)
  -- keyvalue ::= ID value SEMICOLON
  | 3, [.token (some key), .values vs, .token _] => some (.keyValue ⟨key, vs⟩, ctx)
  -- conf ::= keyvalue
  | 4, [.keyValue kv] => kids (setKidsConfValue .new kv ctx)
  -- conf ::= conf keyvalue
  | 5, [.kids conf, .keyValue kv] => kids (setKidsConfValue conf kv ctx)
  -- conf ::= listen
  | 6, [.kids listen] => kids (listen, ctx)
  -- conf ::= conf listen
  | 7, [.kids conf, .kids listen] => kids (addListen conf listen ctx)
  -- conf ::= store
  | 8, [.store s] => kids ({ KidsConfig.new with store := some s }, ctx)
  -- conf ::= conf store
  | 9, [.kids conf, .store s] => kids (addStore conf s ctx)
  -- conf ::= log
  | 10, [.kids log] => kids (log, ctx)
  -- conf ::= conf log
  | 11, [.kids conf, .kids log] => kids (addLog conf log, ctx)
  -- log ::= LOG LP log_conf RP
  | 12, [.token _, .token _, .kids conf, .token _] => kids (conf, ctx)
  -- log_conf ::= keyvalue
  | 13, [.keyValue kv] => kids (setKidsConfValue .new kv ctx)
  -- log_conf ::= log_conf keyvalue
  | 14, [.kids conf, .keyValue kv] => kids (setKidsConfValue conf kv ctx)
  -- listen ::= LISTEN LP listen_conf RP
  | 15, [.token _, .token _, .kids conf, .token _] => kids (conf, ctx)
  -- listen_conf ::= keyvalue
  | 16, [.keyValue kv] => kids (setKidsConfValue .new kv ctx)
  -- listen_conf ::= listen_conf keyvalue
  | 17, [.kids conf, .keyValue kv] => kids (setKidsConfValue conf kv ctx)
  -- store ::= STORE ID buffer_type LP store_conf RP
  | 18, [.token _, .token (some type), .token bufferType, .token _, .store conf, .token _] =>
    store (setType conf type bufferType, ctx)
  -- store ::= STORE ID buffer_type LP RP
  | 19, [.token _, .token (some type), .token bufferType, .token _, .token _] =>
    store (setType .new type bufferType, ctx)
  -- buffer_type ::= BUFFER_TYPE
  | 20, [.token t] => some (.token t, ctx)
  -- buffer_type ::=
  | 21, [] => some (.token none, ctx)
  -- store_conf ::= keyvalue
  | 22, [.keyValue kv] => store (setStoreConfValue .new kv ctx)
  -- store_conf ::= store_conf keyvalue
  | 23, [.store conf, .keyValue kv] => store (setStoreConfValue conf kv ctx)
  -- store_conf ::= store
  | 24, [.store s] => store (addChild .new s, ctx)
  -- store_conf ::= store_conf store
  | 25, [.store conf, .store s] => store (addChild conf s, ctx)
  | _, _ => none

end YyParser

structure StackEntry where
  stateno : Nat
  major : Nat
  minor : Minor

/--
`stack` is `none` while `yyidx` is negative. Its top is in front.
-/
structure YyParser where
  stack : Option (List StackEntry)
  yyerrcnt : Int

namespace YyParser

def parseAlloc : YyParser := ⟨none, 0⟩

def topState : List StackEntry → Nat
  | [] => 0
  | e :: _ => e.stateno

-- `"%s(line: %d)"`
def syntaxText (line : Nat) : Bytes :=
  errSyntax ++ ofString "(line: " ++ decimal line ++ ofString ")"

def stackOverflow (p : YyParser) (ctx : ParseContext) : YyParser × ParseContext :=
  ({ p with stack := none },
    ctx.fail (ofString "parse config file stack overflow(" ++ decimal ctx.line ++ ofString ")"))

def shift (p : YyParser) (stack : List StackEntry) (e : StackEntry) (ctx : ParseContext) : YyParser × ParseContext :=
  if stack.length + 1 ≥ yyStackDepth then
    p.stackOverflow ctx
  else
    ({ p with stack := some (e :: stack) }, ctx)

def reduce (p : YyParser) (stack : List StackEntry) (ruleno : Nat) (ctx : ParseContext)
    : Option (YyParser × ParseContext) :=
  let (lhs, nrhs) := yyRuleInfo.getD ruleno (0, 0)
  match action ctx ruleno ((stack.take nrhs).map StackEntry.minor).reverse with
  | none => none
  | some (minor, ctx) =>
    let stack := stack.drop nrhs
    match yyFindReduceAction (topState stack) lhs with
    | none => none
    | some act =>
      if act < yyNState then
        some (p.shift stack ⟨act, lhs, minor⟩ ctx)
      else if act = yyAcceptAction then
        some ({ p with stack := none }, ctx)
      else
        none

-- not to be unfolded on the way to the actions, for a rule that is not known
attribute [irreducible] reduce

def syntaxError (minor : Option Bytes) (ctx : ParseContext) : ParseContext :=
  match minor with
  | some text => ctx.fail (syntaxText ctx.line ++ ofString ": " ++ cstr text)
  | none => ctx.fail (syntaxText ctx.line)

-- a token that does not fit is thrown away
def error (p : YyParser) (major : Nat) (minor : Option Bytes) (ctx : ParseContext) : YyParser × ParseContext :=
  let ctx := if p.yyerrcnt ≤ 0 then syntaxError minor ctx else ctx
  if major = 0 then
    (⟨none, 3⟩, ctx.fail (syntaxText ctx.line))
  else
    ({ p with yyerrcnt := 3 }, ctx)

def parseLoop (major : Nat) (minor : Option Bytes) : Nat → YyParser → ParseContext → Option (YyParser × ParseContext)
  | 0, _, _ => none
  | fuel + 1, p, ctx =>
    match p.stack with
    | none => some (p, ctx)
    | some stack =>
      let act := yyFindShiftAction (topState stack) major
      if act < yyNState then
        if major = 0 then
          none
        else
          let (p, ctx) := p.shift stack ⟨act, major, .token minor⟩ ctx
          some ({ p with yyerrcnt := p.yyerrcnt - 1 }, ctx)
      else if act < yyNState + yyNRule then
        match p.reduce stack (act - yyNState) ctx with
        | none => none
        | some (p, ctx) => parseLoop major minor fuel p ctx
      else if act = yyErrorAction then
        some (p.error major minor ctx)
      else
        none

def restart (p : YyParser) : YyParser :=
  match p.stack with
  | none => ⟨some [], -1⟩
  | some _ => p

-- a reduction that does not shorten the stack is followed by one that does, or by none
def reductions (p : YyParser) : Nat :=
  2 * (p.stack.getD []).length + 4

def parse (p : YyParser) (major : Nat) (minor : Option Bytes) (ctx : ParseContext) : Option (YyParser × ParseContext) :=
  let p := p.restart
  parseLoop major minor p.reductions p ctx

end YyParser

open YyParser

-- the lexemes reach the parser one by one
def parseLexemes : List Lexer.Lexeme → YyParser → ParseContext → Option (YyParser × ParseContext)
  | [], p, ctx => some (p, ctx)
  | .noise lines :: rest, p, ctx => parseLexemes rest p { ctx with line := ctx.line + lines }
  | .token major minor :: rest, p, ctx =>
    match p.parse major minor ctx with
    | none => none
    | some (p, ctx) => parseLexemes rest p ctx

-- `ParseConfig` up to the check
def parseText (str : Bytes) : Option ParseContext :=
  let (lexemes, ok) := Lexer.lex str
  match parseLexemes lexemes parseAlloc .new with
  | none => none
  | some (p, ctx) =>
    if ok then
      (p.parse 0 none ctx).map Prod.snd
    else
      some (ctx.fail (syntaxText ctx.line))

def parseConfig (str : Bytes) : Option ParseContext :=
  if str.isEmpty then
    some (ParseContext.new.fail errBadConfFile)
  else
    match parseText str with
    | none => none
    | some ctx =>
      if ctx.success then
        -- a `ctx->conf` that is `NULL` is not looked at
        ctx.conf.map (checkKidsConfig · ctx)
      else
        some ctx

end Kids
