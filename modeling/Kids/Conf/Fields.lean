import Kids.Conf.SyntaxLemmas
import Kids.Lib.Overwrite

/-!
The fields of a configuration that hold one text, and what each item of a text does to them.
-/

namespace Kids

open Bytes YyParser

inductive TextField
  | level | file | socket | host | port | maxClients | workerThreads | ignoreCase
  deriving DecidableEq

def TextField.key : TextField → Bytes
  | level => ofString "level"
  | file => ofString "file"
  | socket => ofString "socket"
  | host => ofString "host"
  | port => ofString "port"
  | maxClients => ofString "max_clients"
  | workerThreads => ofString "worker_threads"
  | ignoreCase => ofString "ignore_case"

def nlimitKey : Bytes := ofString "nlimit"

namespace KidsConfig

def get (conf : KidsConfig) : TextField → Bytes
  | .level => conf.logLevel
  | .file => conf.logFile
  | .socket => conf.listenSocket
  | .host => conf.listenHost
  | .port => conf.listenPort
  | .maxClients => conf.maxClients
  | .workerThreads => conf.workerThreads
  | .ignoreCase => conf.ignoreCase

def set (conf : KidsConfig) (v : Bytes) : TextField → KidsConfig
  | .level => { conf with logLevel := v }
  | .file => { conf with logFile := v }
  | .socket => { conf with listenSocket := v }
  | .host => { conf with listenHost := v }
  | .port => { conf with listenPort := v }
  | .maxClients => { conf with maxClients := v }
  | .workerThreads => { conf with workerThreads := v }
  | .ignoreCase => { conf with ignoreCase := v }

theorem get_new (k : TextField) : KidsConfig.new.get k = [] := by
  cases k <;> rfl

theorem get_set (conf : KidsConfig) (v : Bytes) (j k : TextField)
    : (conf.set v j).get k = if j = k then v else conf.get k := by
  cases j <;> cases k <;> rfl

@[simp]
theorem nlimit_set (conf : KidsConfig) (v : Bytes) (k : TextField) : (conf.set v k).nlimit = conf.nlimit := by
  cases k <;> rfl

@[simp]
theorem store_set (conf : KidsConfig) (v : Bytes) (k : TextField) : (conf.set v k).store = conf.store := by
  cases k <;> rfl

theorem setNlimit_eq (conf : KidsConfig) (values : List Bytes)
    : conf.setNlimit values =
        ({ conf with nlimit := ({ KidsConfig.new with nlimit := conf.nlimit }.setNlimit values).1.nlimit },
          (KidsConfig.new.setNlimit values).2) := by
  unfold setNlimit
  split
  . next name hard soft seconds =>
    cases limitType name with
    | none => rfl
    | some type =>
      simp only [setLimits]
      cases parseSize hard with
      | none => rfl
      | some h =>
        cases parseSize soft with
        | none => rfl
        | some s => cases parseTime seconds <;> rfl
  . rfl

end KidsConfig

theorem TextField.key_injective : Function.Injective TextField.key := by
  intro j k
  cases j <;> cases k <;> decide

theorem TextField.key_ne_nlimitKey (k : TextField) : k.key ≠ nlimitKey := by
  cases k <;> decide

theorem setKidsConfValue_field (conf : KidsConfig) (kv : KeyValue) (ctx : ParseContext) (h : kv.key = TextField.key k)
    : setKidsConfValue conf kv ctx = (conf.set kv.value.first k, ctx) := by
  unfold setKidsConfValue
  rw [h]
  cases k <;> rfl

theorem setKidsConfValue_nlimit (conf : KidsConfig) (kv : KeyValue) (ctx : ParseContext) (h : kv.key = nlimitKey)
    : setKidsConfValue conf kv ctx =
        ((conf.setNlimit kv.value.list).1,
          if (conf.setNlimit kv.value.list).2 then ctx else
            ctx.fail (fieldError errConfUnknownKidsField ctx.line kv)) := by
  unfold setKidsConfValue
  rw [h]
  rfl

theorem setKidsConfValue_unknown (conf : KidsConfig) (kv : KeyValue) (ctx : ParseContext)
    (hfield : ∀ k, kv.key ≠ TextField.key k) (hnlimit : kv.key ≠ nlimitKey) : setKidsConfValue conf kv ctx = (conf, ctx) := by
  unfold setKidsConfValue
  dsimp only
  rw [if_neg (show kv.key ≠ ofString "level" from hfield .level),
    if_neg (show kv.key ≠ ofString "file" from hfield .file),
    if_neg (show kv.key ≠ ofString "socket" from hfield .socket),
    if_neg (show kv.key ≠ ofString "host" from hfield .host),
    if_neg (show kv.key ≠ ofString "port" from hfield .port),
    if_neg (show kv.key ≠ ofString "max_clients" from hfield .maxClients),
    if_neg (show kv.key ≠ ofString "worker_threads" from hfield .workerThreads),
    if_neg (show kv.key ≠ ofString "ignore_case" from hfield .ignoreCase),
    if_neg (show kv.key ≠ ofString "nlimit" from hnlimit)]

theorem key_cases (key : Bytes)
    : (∃ k, key = TextField.key k) ∨ key = nlimitKey ∨ ((∀ k, key ≠ TextField.key k) ∧ key ≠ nlimitKey) := by
  by_cases hfield : ∃ k, key = TextField.key k
  . exact .inl hfield
  by_cases hnlimit : key = nlimitKey
  . exact .inr (.inl hnlimit)
  . exact .inr (.inr ⟨not_exists.mp hfield, hnlimit⟩)

theorem get_setKidsConfValue (conf : KidsConfig) (kv : KeyValue) (ctx : ParseContext) (k : TextField)
    : (setKidsConfValue conf kv ctx).1.get k = if kv.key = k.key then kv.value.first else conf.get k := by
  rcases key_cases kv.key with ⟨j, hj⟩ | hnlimit | ⟨hfield, hnlimit⟩
  . rw [setKidsConfValue_field conf kv ctx hj, KidsConfig.get_set, hj]
    simp only [TextField.key_injective.eq_iff]
  . rw [setKidsConfValue_nlimit conf kv ctx hnlimit, KidsConfig.setNlimit_eq, hnlimit, if_neg (k.key_ne_nlimitKey).symm]
    cases k <;> rfl
  . rw [setKidsConfValue_unknown conf kv ctx hfield hnlimit, if_neg (hfield k)]

/--
What an `nlimit` makes of the limits.
-/
def KeyValue.limits (kv : KeyValue) (nlimit : Fin 3 → LimitConfig) : Fin 3 → LimitConfig :=
  if kv.key = nlimitKey then ({ KidsConfig.new with nlimit := nlimit }.setNlimit kv.value.list).1.nlimit else nlimit

theorem nlimit_setKidsConfValue (conf : KidsConfig) (kv : KeyValue) (ctx : ParseContext)
    : (setKidsConfValue conf kv ctx).1.nlimit = kv.limits conf.nlimit := by
  unfold KeyValue.limits
  rcases key_cases kv.key with ⟨j, hj⟩ | hnlimit | ⟨hfield, hnlimit⟩
  . rw [setKidsConfValue_field conf kv ctx hj, KidsConfig.nlimit_set, hj, if_neg j.key_ne_nlimitKey]
  . rw [setKidsConfValue_nlimit conf kv ctx hnlimit, KidsConfig.setNlimit_eq, if_pos hnlimit]
  . rw [setKidsConfValue_unknown conf kv ctx hfield hnlimit, if_neg hnlimit]

@[simp]
theorem store_setKidsConfValue (conf : KidsConfig) (kv : KeyValue) (ctx : ParseContext)
    : (setKidsConfValue conf kv ctx).1.store = conf.store := by
  rcases key_cases kv.key with ⟨j, hj⟩ | hnlimit | ⟨hfield, hnlimit⟩
  . rw [setKidsConfValue_field conf kv ctx hj, KidsConfig.store_set]
  . rw [setKidsConfValue_nlimit conf kv ctx hnlimit, KidsConfig.setNlimit_eq]
  . rw [setKidsConfValue_unknown conf kv ctx hfield hnlimit]

theorem ok_setKidsConfValue (conf conf' : KidsConfig) (kv : KeyValue)
    : (outcome (setKidsConfValue conf kv)).2 = (outcome (setKidsConfValue conf' kv)).2 := by
  unfold outcome
  rcases key_cases kv.key with ⟨j, hj⟩ | hnlimit | ⟨hfield, hnlimit⟩
  . rw [setKidsConfValue_field conf kv .new hj, setKidsConfValue_field conf' kv .new hj]
  . rw [setKidsConfValue_nlimit conf kv .new hnlimit, setKidsConfValue_nlimit conf' kv .new hnlimit,
      KidsConfig.setNlimit_eq conf, KidsConfig.setNlimit_eq conf']
  . rw [setKidsConfValue_unknown conf kv .new hfield hnlimit, setKidsConfValue_unknown conf' kv .new hfield hnlimit]

theorem foldl_andThen_fst (f : β → α → α × Bool) (l : List β) (r : α × Bool)
    : (l.foldl (fun r b => andThen r (f b)) r).1 = l.foldl (fun a b => (f b a).1) r.1 := by
  induction l generalizing r with
  | nil => rfl
  | cons b l ih => exact ih (andThen r (f b))

theorem foldl_andThen_project (f : β → α → α × Bool) (π : α → γ) (g : γ → β → γ) (h : ∀ a b, π (f b a).1 = g (π a) b)
    (l : List β) (r : α × Bool) : π (l.foldl (fun r b => andThen r (f b)) r).1 = l.foldl g (π r.1) := by
  rw [foldl_andThen_fst]
  symm
  apply List.foldl_hom
  exact fun a b => (h a b).symm

namespace KeyValue

def written (kv : KeyValue) (k : TextField) : Option Bytes :=
  if kv.key = k.key then some kv.value.first else none

theorem written_eq_some (kv : KeyValue) (k : TextField)
    : kv.written k = some v ↔ kv.key = k.key ∧ kv.value.first = v := by
  unfold written
  split
  . next hkey => simp [hkey]
  . next hkey => simp [hkey]

end KeyValue

theorem written_setKidsConfValue (conf : KidsConfig) (kv : KeyValue) (ctx : ParseContext) (k : TextField)
    : (setKidsConfValue conf kv ctx).1.get k = (kv.written k).getD (conf.get k) := by
  rw [get_setKidsConfValue]
  unfold KeyValue.written
  split
  . rfl
  . rfl

theorem get_evalKeyValues (kvs : List KeyValue) (k : TextField)
    : (evalKeyValues kvs).1.get k = Overwrite.last (fun kv => kv.written k) [] kvs := by
  unfold evalKeyValues Overwrite.last
  rw [← KidsConfig.get_new k]
  apply foldl_andThen_project (fun kv conf => outcome (setKidsConfValue conf kv)) (fun conf => conf.get k)
  exact fun conf kv => written_setKidsConfValue conf kv .new k

theorem store_evalKeyValues (kvs : List KeyValue) : (evalKeyValues kvs).1.store = none := by
  have hstore := foldl_andThen_project (fun kv conf => outcome (setKidsConfValue conf kv)) KidsConfig.store
    (fun store _ => store) (fun conf kv => store_setKidsConfValue conf kv .new) kvs (.new, true)
  apply hstore.trans
  rw [List.foldl_fixed]
  rfl

namespace ConfItem

/--
The text that the item writes over a field, where it is not the first item and is not refused.
-/
def written : ConfItem → TextField → Option Bytes
  | .keyValue kv, k => kv.written k
  | .listen kvs, k => if k = .socket ∨ k = .host ∨ k = .port then some ((evalKeyValues kvs).1.get k) else none
  | .log kvs, k => if k = .level ∨ k = .file then some ((evalKeyValues kvs).1.get k) else none
  | .store .., _ => none

def limits : ConfItem → (Fin 3 → LimitConfig) → Fin 3 → LimitConfig
  | .keyValue kv, nlimit => kv.limits nlimit
  | .listen _, nlimit => nlimit
  | .log _, nlimit => nlimit
  | .store .., nlimit => nlimit

def made : ConfItem → Option StoreConfig
  | .keyValue _ => none
  | .listen _ => none
  | .log _ => none
  | .store type bufferType body => some (evalStore type bufferType body).1

/--
The configuration is not bound to an address that a `listen` would give it, and has no store beside the item.
-/
structure Fits (conf : KidsConfig) (item : ConfItem) : Prop where
  socket : (∃ kvs, item = .listen kvs) → conf.listenSocket = []
  host : (∃ kvs, item = .listen kvs) → conf.listenHost = []
  store : item.made ≠ none → conf.store = none

theorem addListen_fits (listen : KidsConfig) (ctx : ParseContext) (hsocket : conf.listenSocket = [])
    (hhost : conf.listenHost = [])
    : addListen conf listen ctx =
        ({ conf with
            listenSocket := listen.listenSocket
            listenHost := listen.listenHost
            listenPort := listen.listenPort
          }, ctx) := by
  unfold addListen
  rw [hsocket, hhost]
  rfl

theorem get_next_of_not_listen {item : ConfItem} (hlisten : ∀ kvs, item ≠ .listen kvs) (conf : KidsConfig)
    (k : TextField)
    : (item.next conf).1.get k = (item.written k).getD (conf.get k) := by
  cases item with
  | keyValue kv => exact written_setKidsConfValue conf kv .new k
  | listen kvs => exact absurd rfl (hlisten kvs)
  | log kvs => cases k <;> rfl
  | store type bufferType body =>
    unfold next andThen outcome addStore
    dsimp only
    cases conf.store <;> rfl

theorem get_next (item : ConfItem) (h : item.Fits conf) (k : TextField)
    : (item.next conf).1.get k = (item.written k).getD (conf.get k) := by
  cases item with
  | listen kvs =>
    unfold next andThen outcome
    dsimp only
    rw [addListen_fits _ .new (h.socket ⟨kvs, rfl⟩) (h.host ⟨kvs, rfl⟩)]
    cases k <;> rfl
  | keyValue _ | log _ | store _ _ _ =>
    apply get_next_of_not_listen
    intro kvs hlisten
    cases hlisten

theorem get_next_of_not_written (item : ConfItem) (conf : KidsConfig) (h : item.written k = none)
    : (item.next conf).1.get k = conf.get k := by
  cases item with
  | keyValue kv =>
    have hkv : kv.written k = none := h
    apply (written_setKidsConfValue conf kv .new k).trans
    rw [hkv, Option.getD_none]
  | listen kvs =>
    unfold next andThen outcome addListen
    dsimp only
    split
    . rfl
    . cases k <;> first | rfl | cases h
  | log kvs => cases k <;> first | rfl | cases h
  | store type bufferType body =>
    unfold next andThen outcome addStore
    dsimp only
    cases conf.store <;> rfl

theorem nlimit_next (item : ConfItem) (conf : KidsConfig) : (item.next conf).1.nlimit = item.limits conf.nlimit := by
  cases item with
  | keyValue kv => exact nlimit_setKidsConfValue conf kv .new
  | listen kvs =>
    unfold next andThen outcome addListen
    dsimp only
    split
    . rfl
    . rfl
  | log kvs => rfl
  | store type bufferType body =>
    unfold next andThen outcome addStore
    dsimp only
    cases conf.store <;> rfl

theorem store_next (item : ConfItem) (conf : KidsConfig) : (item.next conf).1.store = conf.store.or item.made := by
  cases item with
  | keyValue kv =>
    apply (store_setKidsConfValue conf kv .new).trans
    rw [made, Option.or_none]
  | listen kvs =>
    rw [made, Option.or_none]
    unfold next andThen outcome addListen
    dsimp only
    split
    . rfl
    . rfl
  | log kvs =>
    rw [made, Option.or_none]
    rfl
  | store type bufferType body =>
    unfold next andThen outcome addStore
    dsimp only
    cases hstore : conf.store with
    | none => rfl
    | some s => exact hstore

/--
The statements that set a field of the configuration, and not of a store.
-/
def body : ConfItem → List KeyValue
  | .keyValue kv => [kv]
  | .listen kvs => kvs
  | .log kvs => kvs
  | .store .. => []

theorem get_first (item : ConfItem) (k : TextField) : item.first.1.get k = (evalKeyValues item.body).1.get k := by
  cases item with
  | keyValue kv => rfl
  | listen kvs => rfl
  | log kvs => rfl
  | store type bufferType body => cases k <;> rfl

/--
The item is in order, whatever is before it.
-/
def ok (item : ConfItem) : Bool := item.first.2

theorem ok_next (item : ConfItem) (h : item.Fits conf) : (item.next conf).2 = item.ok := by
  cases item with
  | keyValue kv => exact ok_setKidsConfValue conf .new kv
  | listen kvs =>
    unfold next andThen outcome
    dsimp only
    rw [addListen_fits _ .new (h.socket ⟨kvs, rfl⟩) (h.host ⟨kvs, rfl⟩)]
    apply Bool.and_true
  | log kvs =>
    apply Bool.and_true
  | store type bufferType body =>
    have hnone : conf.store = none := h.store (Option.some_ne_none _)
    unfold next andThen outcome addStore
    dsimp only
    rw [hnone]
    rfl

end ConfItem
end Kids
