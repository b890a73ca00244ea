import Kids.Util.Units

/-!
The configuration as `ParseConfig` builds it: `conf.h`, and the part of `conf.cc` that fills it in and
checks it. What the source writes into `ctx->error` is kept as the bytes that `snprintf` leaves there.
-/

namespace Kids

open Bytes

structure LimitConfig where
  hardLimitBytes : Int
  softLimitBytes : Int
  softLimitSeconds : Int

structure StoreConfig where
  type : Bytes
  bufferType : Bytes
  socket : Bytes
  host : Bytes
  port : Bytes
  path : Bytes
  name : Bytes
  rotate : Bytes
  flush : Bytes
  success : Bytes
  topic : Bytes
  stores : List StoreConfig

structure KidsConfig where
  listenSocket : Bytes
  listenHost : Bytes
  listenPort : Bytes
  logLevel : Bytes
  logFile : Bytes
  maxClients : Bytes
  workerThreads : Bytes
  ignoreCase : Bytes
  nlimit : Fin 3 → LimitConfig
  store : Option StoreConfig

def StoreConfig.new : StoreConfig := ⟨[], [], [], [], [], [], [], [], [], [], [], []⟩

def KidsConfig.new : KidsConfig := ⟨[], [], [], [], [], [], [], [], fun _ => ⟨0, 0, 0⟩, none⟩

def nlimitNormal : Fin 3 := 0
def nlimitNetworkStore : Fin 3 := 1
def nlimitPubSub : Fin 3 := 2

/--
The vector of a `value`, which the grammar makes of one `ID` and more.
-/
structure Values where
  list : List Bytes
  nonempty : list ≠ []

namespace Values

def single (v : Bytes) : Values where
  list := [v]
  nonempty := List.cons_ne_nil v []

def push (vs : Values) (v : Bytes) : Values where
  list := vs.list ++ [v]
  nonempty := by simp

def first (vs : Values) : Bytes :=
  vs.list.head vs.nonempty

end Values

structure KeyValue where
  key : Bytes
  value : Values

/--
`error` is `none` as long as nothing has been written into it.
-/
structure ParseContext where
  line : Nat
  success : Bool
  error : Option Bytes
  conf : Option KidsConfig

namespace ParseContext

def new : ParseContext := ⟨0, true, none, none⟩

def sizeofError : Nat := 1024

-- `snprintf` into `ctx->error`
def setError (ctx : ParseContext) (text : Bytes) : ParseContext :=
  { ctx with error := some (text.take (sizeofError - 1)) }

def fail (ctx : ParseContext) (text : Bytes) : ParseContext :=
  { ctx.setError text with success := false }

end ParseContext

def errSyntax : Bytes := ofString "Syntax error"
def errBadConfFile : Bytes := ofString "Bad or empty config file"
def errMultiListenHost : Bytes := ofString "Can bind to only ONE listen address"
def errMultiStore : Bytes := ofString "Can specify only ONE store per kids. consider using multiple stor."
def errBadAddr : Bytes := ofString "Bad address"
def errConfUnknownStoreField : Bytes := ofString "Unkonw store field"
def errConfUnknownKidsField : Bytes := ofString "Unkonw kids field"
def errConfAtLeast1 : Bytes := ofString "You must specify at least one store for multiple/priority store"
def errConfBuf1 : Bytes := ofString "You must specify exactly two store for buffer store"
def errConfBuf2 : Bytes :=
  ofString "You must tell me if the store is primary or secondary for buffer store"
def errConfUnknownStoreType : Bytes := ofString "Unkonw store type"

-- `"%s(%d): %s %s"`
def fieldError (err : Bytes) (line : Nat) (kv : KeyValue) : Bytes :=
  err ++ ofString "(" ++ decimal line ++ ofString "): " ++ cstr kv.key ++ ofString " " ++ cstr kv.value.first

def limitType (name : Bytes) : Option (Fin 3) :=
  if name = ofString "normal" then
    some nlimitNormal
  else if name = ofString "pubsub" then
    some nlimitPubSub
  else if name = ofString "networkstore" then
    some nlimitNetworkStore
  else
    none

def KidsConfig.setLimit (conf : KidsConfig) (type : Fin 3) (limit : LimitConfig) : KidsConfig :=
  { conf with nlimit := fun t => if t = type then limit else conf.nlimit t }

-- the three limits one after the other, as long as they can be read
def KidsConfig.setLimits (conf : KidsConfig) (type : Fin 3) (hard soft seconds : Bytes) : KidsConfig × Bool :=
  match parseSize hard with
  | none => (conf, false)
  | some hard =>
    let conf := conf.setLimit type { conf.nlimit type with hardLimitBytes := hard }
    match parseSize soft with
    | none => (conf, false)
    | some soft =>
      let conf := conf.setLimit type { conf.nlimit type with softLimitBytes := soft }
      match parseTime seconds with
      | none => (conf, false)
      | some seconds => (conf.setLimit type { conf.nlimit type with softLimitSeconds := seconds }, true)

-- the values of an `nlimit`
def KidsConfig.setNlimit (conf : KidsConfig) : List Bytes → KidsConfig × Bool
  | [type, hard, soft, seconds] =>
    match limitType type with
    | none => (conf, false)
    | some type => conf.setLimits type hard soft seconds
  | _ => (conf, false)

def setKidsConfValue (conf : KidsConfig) (kv : KeyValue) (ctx : ParseContext) : KidsConfig × ParseContext :=
  let value := kv.value.first
  if kv.key = ofString "level" then
    ({ conf with logLevel := value }, ctx)
  else if kv.key = ofString "file" then
    ({ conf with logFile := value }, ctx)
  else if kv.key = ofString "socket" then
    ({ conf with listenSocket := value }, ctx)
  else if kv.key = ofString "host" then
    ({ conf with listenHost := value }, ctx)
  else if kv.key = ofString "port" then
    ({ conf with listenPort := value }, ctx)
  else if kv.key = ofString "max_clients" then
    ({ conf with maxClients := value }, ctx)
  else if kv.key = ofString "worker_threads" then
    ({ conf with workerThreads := value }, ctx)
  else if kv.key = ofString "ignore_case" then
    ({ conf with ignoreCase := value }, ctx)
  else if kv.key = ofString "nlimit" then
    let (conf, ok) := conf.setNlimit kv.value.list
    (conf, if ok then ctx else ctx.fail (fieldError errConfUnknownKidsField ctx.line kv))
  else
    -- a field that is not known is passed over
    (conf, ctx)

def setStoreConfValue (conf : StoreConfig) (kv : KeyValue) (ctx : ParseContext) : StoreConfig × ParseContext :=
  let value := kv.value.first
  if kv.key = ofString "host" then
    ({ conf with host := value }, ctx)
  else if kv.key = ofString "port" then
    ({ conf with port := value }, ctx)
  else if kv.key = ofString "socket" then
    ({ conf with socket := value }, ctx)
  else if kv.key = ofString "path" then
    ({ conf with path := value }, ctx)
  else if kv.key = ofString "name" then
    ({ conf with name := value }, ctx)
  else if kv.key = ofString "rotate" then
    ({ conf with rotate := value }, ctx)
  else if kv.key = ofString "flush" then
    ({ conf with flush := value }, ctx)
  else if kv.key = ofString "success" then
    ({ conf with success := value }, ctx)
  else if kv.key = ofString "topic" then
    ({ conf with topic := value }, ctx)
  else
    (conf, ctx.fail (fieldError errConfUnknownStoreField ctx.line kv))

-- the end of `CheckStoreConfig`
def StoreConfig.defaultTopic (conf : StoreConfig) : StoreConfig :=
  if conf.topic.isEmpty then { conf with topic := ofString "*" } else conf

-- the two stores of a buffer, of which the second is checked if the first is in order
def checkBuffer (conf : StoreConfig) (secondary : StoreConfig)
    : StoreConfig × Option Bytes → StoreConfig × Option Bytes → StoreConfig × Option Bytes
  | (primary, some err), _ => ({ conf with stores := [primary, secondary] }, some err)
  | (primary, none), (secondary, some err) => ({ conf with stores := [primary, secondary] }, some err)
  | (primary, none), (secondary, none) => ({ conf with stores := [primary, secondary] }.defaultTopic, none)

mutual

/--
The configuration as the check leaves it, with the text that it writes if it returns `false`.
-/
def checkStoreConfig : StoreConfig → StoreConfig × Option Bytes
  | conf@⟨type, _, socket, host, port, _, _, _, _, _, _, stores⟩ =>
    if type = ofString "multiple" ∨ type = ofString "priority" then
      if stores.isEmpty then
        (conf, some errConfAtLeast1)
      else
        match checkStores stores with
        | (stores, some err) => ({ conf with stores := stores }, some err)
        | (stores, none) => ({ conf with stores := stores }.defaultTopic, none)
    else if type = ofString "buffer" then
      match stores with
      | [first, second] =>
        if second.bufferType = ofString "primary" ∧ first.bufferType = ofString "secondary" then
          checkBuffer conf first (checkStoreConfig second) (checkStoreConfig first)
        else if first.bufferType = ofString "primary" ∧ second.bufferType = ofString "secondary" then
          checkBuffer conf second (checkStoreConfig first) (checkStoreConfig second)
        else
          (conf, some errConfBuf2)
      | _ => (conf, some errConfBuf1)
    else if type = ofString "network" then
      if socket.isEmpty && (host.isEmpty || port.isEmpty) then
        (conf, some errBadAddr)
      else
        (conf.defaultTopic, none)
    else if type = ofString "file" then
      (conf.defaultTopic, none)
    else if type = ofString "null" then
      (conf.defaultTopic, none)
    else
      (conf, some errConfUnknownStoreType)

def checkStores : List StoreConfig → List StoreConfig × Option Bytes
  | [] => ([], none)
  | s :: stores =>
    match checkStoreConfig s with
    | (s, some err) => (s :: stores, some err)
    | (s, none) =>
      let (stores, err) := checkStores stores
      (s :: stores, err)

end

-- `CheckKidsConfig`, for a `ctx->conf` that is not `NULL`
def checkKidsConfig (conf : KidsConfig) (ctx : ParseContext) : ParseContext :=
  match conf.store with
  | none =>
    let store := { StoreConfig.new with type := ofString "null", topic := ofString "*" }
    { ctx with conf := some { conf with store := some store } }
  | some store =>
    match checkStoreConfig store with
    | (store, some err) => { ctx.fail err with conf := some { conf with store := some store } }
    | (store, none) => { ctx with success := true, conf := some { conf with store := some store } }

end Kids
