import Kids.Conf.Config

/-!
`Store::Create`: the stores that are made for a tree of configurations, as the constructors make them.
-/

namespace Kids

open Bytes

inductive BufferType
  | none
  | primary
  | secondary
  deriving DecidableEq

/--
What `Store::Store` keeps.
-/
structure StoreBase where
  topic : Bytes
  bufferType : BufferType

/--
Where a `NetworkStore` connects to. `none` is an address that its constructor only complains of.
-/
inductive Address
  | socket (path : Bytes)
  | host (host : Bytes) (port : Int)
  | none

/--
A store right after its constructor. The stores of a buffer can be `NULL`.
-/
inductive StoreObj
  | multiple (base : StoreBase) (all : Bool) (stores : List StoreObj)
  | priority (base : StoreBase) (stores : List StoreObj)
  | buffer (base : StoreBase) (primary secondary : Option StoreObj)
  | network (base : StoreBase) (address : Address)
  | file (base : StoreBase) (path name : Bytes) (rotateInterval flushInterval : Int)
  | null (base : StoreBase)

def StoreObj.type : StoreObj → Bytes
  | .multiple .. => ofString "multiple"
  | .priority .. => ofString "priority"
  | .buffer .. => ofString "buffer"
  | .network .. => ofString "network"
  | .file .. => ofString "file"
  | .null .. => ofString "null"

def isSpace (b : UInt8) : Bool :=
  b == 32 || (9 ≤ b && b ≤ 13)

def decimalValue (digits : Bytes) : Int :=
  digits.foldl (fun n b => n * 10 + (b.toNat - 48)) 0

-- a `long` that is cut to an `int`
def atoi (str : Bytes) : Int :=
  let long (n : Int) := int32 (max (-2 ^ 63) (min (2 ^ 63 - 1) n))
  match (cstr str).dropWhile isSpace with
  | [] => 0
  | b :: s =>
    if b = 45 then
      long (-decimalValue (s.takeWhile isDigit))
    else if b = 43 then
      long (decimalValue (s.takeWhile isDigit))
    else
      long (decimalValue ((b :: s).takeWhile isDigit))

namespace StoreConfig

def bufferKind (conf : StoreConfig) : BufferType :=
  if conf.bufferType = ofString "primary" then
    .primary
  else if conf.bufferType = ofString "secondary" then
    .secondary
  else
    .none

def base (conf : StoreConfig) : StoreBase := ⟨conf.topic, conf.bufferKind⟩

def address (conf : StoreConfig) : Address :=
  if !conf.socket.isEmpty then
    .socket conf.socket
  else if !conf.host.isEmpty && !conf.port.isEmpty then
    .host conf.host (atoi conf.port)
  else
    .none

def rotateInterval (conf : StoreConfig) : Int :=
  if conf.bufferKind = .secondary ∧ conf.rotate = [] then
    60 * 10
  else if conf.rotate = ofString "daily" then
    3600 * 24
  else if conf.rotate = ofString "hourly" then
    3600
  else
    (parseTime conf.rotate).getD (-1)

def flushInterval (conf : StoreConfig) : Int :=
  if conf.bufferKind = .secondary then -1 else (parseTime conf.flush).getD (-1)

/--
`FileStore::FileStore`. There is no last byte in a path that is empty.
-/
def createFile (conf : StoreConfig) : Option StoreObj :=
  match conf.path.getLast? with
  | none => none
  | some b =>
    let path := if b ≠ 47 then conf.path ++ ofString "/" else conf.path
    some (.file conf.base path conf.name conf.rotateInterval conf.flushInterval)

end StoreConfig

mutual

/--
`none` is an access out of bounds, and the inner `none` is `NULL`.
-/
def create : StoreConfig → Option (Option StoreObj)
  | conf@⟨type, _, _, _, _, _, _, _, _, success, _, stores⟩ =>
    if type = ofString "multiple" then
      match createAll stores with
      | none => none
      | some stores => some (some (.multiple conf.base (success == ofString "all") stores))
    else if type = ofString "buffer" then
      match stores with
      | primary :: secondary :: _ =>
        match create primary, create secondary with
        | some primary, some secondary => some (some (.buffer conf.base primary secondary))
        | _, _ => none
      | _ => none
    else if type = ofString "network" then
      some (some (.network conf.base conf.address))
    else if type = ofString "file" then
      conf.createFile.map some
    else if type = ofString "null" then
      some (some (.null conf.base))
    else if type = ofString "priority" then
      match createAll stores with
      | none => none
      | some stores => some (some (.priority conf.base stores))
    else
      some none

-- a store that cannot be created is left out
def createAll : List StoreConfig → Option (List StoreObj)
  | [] => some []
  | s :: stores =>
    match create s, createAll stores with
    | some store, some stores => some (store.toList ++ stores)
    | _, _ => none

end

end Kids
