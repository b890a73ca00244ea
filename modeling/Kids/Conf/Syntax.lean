import Kids.Conf.Parser

/-!
What a configuration says, apart from how it is parsed: the items of a text, their tokens and the
configuration that they are evaluated to. The flag of an evaluation is `false` if it comes upon an error.
-/

namespace Kids

open Bytes YyParser

abbrev Tok := Nat × Option Bytes

/--
The outcome of a function that may write an error into the context.
-/
def outcome (f : ParseContext → α × ParseContext) : α × Bool :=
  ((f .new).1, (f .new).2.success)

def andThen (r : α × Bool) (f : α → β × Bool) : β × Bool :=
  ((f r.1).1, r.2 && (f r.1).2)

inductive StoreItem
  | keyValue (kv : KeyValue)
  | store (type : Bytes) (bufferType : Option Bytes) (body : List StoreItem)

inductive ConfItem
  | keyValue (kv : KeyValue)
  | listen (kvs : List KeyValue)
  | log (kvs : List KeyValue)
  | store (type : Bytes) (bufferType : Option Bytes) (body : List StoreItem)

/--
The text of `LISTEN`, `LOG` and `STORE`, which can be written in capital letters, says nothing.
-/
def Tok.plain (t : Tok) : Tok :=
  if t.1 = tkListen ∨ t.1 = tkLog ∨ t.1 = tkStore then (t.1, none) else t

def idToken (v : Bytes) : Tok := (tkId, some v)

def KeyValue.tokens (kv : KeyValue) : List Tok :=
  idToken kv.key :: kv.value.list.map idToken ++ [(tkSemicolon, none)]

def bufferTypeTokens (bufferType : Option Bytes) : List Tok :=
  bufferType.toList.map fun text => (tkBufferType, some text)

-- a block in braces
def blockTokens (head body : List Tok) : List Tok :=
  head ++ (tkLp, none) :: body ++ [(tkRp, none)]

def storeHead (type : Bytes) (bufferType : Option Bytes) : List Tok :=
  (tkStore, none) :: idToken type :: bufferTypeTokens bufferType

mutual

def StoreItem.tokens : StoreItem → List Tok
  | .keyValue kv => kv.tokens
  | .store type bufferType body => blockTokens (storeHead type bufferType) (bodyTokens body)

def bodyTokens : List StoreItem → List Tok
  | [] => []
  | item :: items => item.tokens ++ bodyTokens items

end

def ConfItem.tokens : ConfItem → List Tok
  | .keyValue kv => kv.tokens
  | .listen kvs => blockTokens [(tkListen, none)] (kvs.flatMap KeyValue.tokens)
  | .log kvs => blockTokens [(tkLog, none)] (kvs.flatMap KeyValue.tokens)
  | .store type bufferType body => blockTokens (storeHead type bufferType) (bodyTokens body)

-- the body of a `listen` or `log` block
def evalKeyValues (kvs : List KeyValue) : KidsConfig × Bool :=
  kvs.foldl (fun r kv => andThen r fun conf => outcome (setKidsConfValue conf kv)) (.new, true)

mutual

def StoreItem.eval (conf : StoreConfig) : StoreItem → StoreConfig × Bool
  | .keyValue kv => outcome (setStoreConfValue conf kv)
  | .store type bufferType body =>
    andThen (evalBody (.new, true) body) fun s => (addChild conf (setType s type bufferType), true)

def evalBody (r : StoreConfig × Bool) : List StoreItem → StoreConfig × Bool
  | [] => r
  | item :: items => evalBody (andThen r fun conf => item.eval conf) items

end

def evalStore (type : Bytes) (bufferType : Option Bytes) (body : List StoreItem) : StoreConfig × Bool :=
  andThen (evalBody (.new, true) body) fun s => (setType s type bufferType, true)

namespace ConfItem

-- the first item of a text makes the configuration
def first : ConfItem → KidsConfig × Bool
  | .keyValue kv => outcome (setKidsConfValue .new kv)
  | .listen kvs => evalKeyValues kvs
  | .log kvs => evalKeyValues kvs
  | .store type bufferType body =>
    andThen (evalStore type bufferType body) fun s => ({ KidsConfig.new with store := some s }, true)

def next (conf : KidsConfig) : ConfItem → KidsConfig × Bool
  | .keyValue kv => outcome (setKidsConfValue conf kv)
  | .listen kvs => andThen (evalKeyValues kvs) fun listen => outcome (addListen conf listen)
  | .log kvs => andThen (evalKeyValues kvs) fun log => (addLog conf log, true)
  | .store type bufferType body =>
    andThen (evalStore type bufferType body) fun s => outcome (addStore conf s)

end ConfItem

/--
A text has one item or more.
-/
structure ConfText where
  head : ConfItem
  tail : List ConfItem

namespace ConfText

def items (t : ConfText) : List ConfItem :=
  t.head :: t.tail

def tokens (t : ConfText) : List Tok :=
  t.items.flatMap ConfItem.tokens

def eval (t : ConfText) : KidsConfig × Bool :=
  t.tail.foldl (fun r item => andThen r fun conf => item.next conf) t.head.first

end ConfText

/-!
How many entries an item takes on the stack at most, above those that are there.
-/

mutual

def StoreItem.room : StoreItem → Nat
  | .keyValue _ => 3
  | .store _ _ body => 4 + bodyRoom body

def bodyRoom : List StoreItem → Nat
  | [] => 1
  | item :: items => max item.room (1 + itemsRoom items)

def itemsRoom : List StoreItem → Nat
  | [] => 1
  | item :: items => max item.room (itemsRoom items)

end

namespace ConfItem

def room : ConfItem → Nat
  | .keyValue _ => 3
  | .listen kvs => 2 + bodyRoom (kvs.map .keyValue)
  | .log kvs => 2 + bodyRoom (kvs.map .keyValue)
  | .store _ _ body => 4 + bodyRoom body

-- there is no rule for an empty `listen` or `log` block
def Filled : ConfItem → Prop
  | .keyValue _ => True
  | .listen kvs => kvs ≠ []
  | .log kvs => kvs ≠ []
  | .store .. => True

end ConfItem

namespace ConfText

def Filled (t : ConfText) : Prop :=
  ∀ item ∈ t.items, item.Filled

-- the `conf` of the items before takes one entry
def Fits (t : ConfText) : Prop :=
  t.head.room < yyStackDepth ∧ ∀ item ∈ t.tail, 1 + item.room < yyStackDepth

instance (t : ConfText) : Decidable t.Fits :=
  inferInstanceAs (Decidable (t.head.room < yyStackDepth ∧ ∀ item ∈ t.tail, 1 + item.room < yyStackDepth))

end ConfText

end Kids
