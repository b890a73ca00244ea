import Kids.Conf.Accepted
import Kids.Conf.Fields
import Mathlib.Data.List.Induction

/-!
When a text that `ParseConfig` accepts can be instantiated. The condition is one on the blocks of the text.
-/

namespace Kids

open Bytes YyParser StoreConfig

/--
A `store` block of a text.
-/
structure StoreBlock where
  type : Bytes
  bufferType : Option Bytes
  body : List StoreItem

namespace StoreItem

def block? : StoreItem → Option StoreBlock
  | .keyValue _ => none
  | .store type bufferType body => some ⟨type, bufferType, body⟩

def key? : StoreItem → Option Bytes
  | .keyValue kv => some kv.key
  | .store .. => none

end StoreItem

namespace StoreBlock

def eval (b : StoreBlock) : StoreConfig :=
  (evalStore b.type b.bufferType b.body).1

def stores (b : StoreBlock) : List StoreBlock :=
  b.body.filterMap StoreItem.block?

-- there is a statement for the field
def Has (b : StoreBlock) (name : String) : Prop :=
  ofString name ∈ b.body.filterMap StoreItem.key?

/--
The statements and stores that a block must have if it is not looked into by the check.
-/
structure Whole (b : StoreBlock) : Prop where
  topic : b.Has "topic"
  type : known b.type = true
  buffer : b.type = ofString "buffer" →
    b.stores.map bufferType = [some (ofString "primary"), some (ofString "secondary")]
  stores : b.type = ofString "multiple" ∨ b.type = ofString "priority" → b.stores ≠ []
  address : b.type = ofString "network" → b.Has "socket" ∨ b.Has "host" ∧ b.Has "port"
  path : b.type = ofString "file" → b.Has "path"

/--
The blocks inside a block, each with whether the check comes to it.
-/
inductive Inside (root : StoreBlock) (checked : Bool) : Bool → StoreBlock → Prop
  | root : Inside root checked checked root
  | child : Inside root checked c b → s ∈ b.stores → Inside root checked (c && descends b.type) s

end StoreBlock

def ConfItem.block? : ConfItem → Option StoreBlock
  | .store type bufferType body => some ⟨type, bufferType, body⟩
  | _ => none

namespace ConfText

def blocks (t : ConfText) : List StoreBlock :=
  t.items.filterMap ConfItem.block?

/--
Every `file` block has a `path`, and the blocks inside a `network`, a `file` or a `null` block, which are not
checked, lack nothing.
-/
def Complete (t : ConfText) : Prop :=
  ∀ b ∈ t.blocks, ∀ checked s, b.Inside true checked s →
    if checked then s.type = ofString "file" → s.Has "path" else s.Whole

end ConfText

/--
The tree of a parsed configuration can be instantiated, and it is the one of the text.
-/
structure Instantiable (t : ConfText) (ctx : ParseContext) : Prop where
  error : ctx.error = none
  tree : ∃ conf store, ctx.conf = some conf ∧ conf.store = some store ∧ (∀ c, Node store c → c.Ready) ∧
    ∀ b ∈ t.blocks, Rearranged b.eval store

-- what a statement leaves in the field of this name
def KeyValue.over (kv : KeyValue) (name : String) (old : Bytes) : Bytes :=
  if kv.key = ofString name then kv.value.first else old

theorem setStoreConfValue_fields (conf : StoreConfig) (kv : KeyValue)
    : (outcome (setStoreConfValue conf kv)).1 =
        { conf with
            host := kv.over "host" conf.host
            port := kv.over "port" conf.port
            socket := kv.over "socket" conf.socket
            path := kv.over "path" conf.path
            name := kv.over "name" conf.name
            rotate := kv.over "rotate" conf.rotate
            flush := kv.over "flush" conf.flush
            success := kv.over "success" conf.success
            topic := kv.over "topic" conf.topic
        } := by
  cases conf
  unfold outcome setStoreConfValue KeyValue.over
  dsimp only
  split
  . next h => simp +decide only [h, ↓reduceIte]
  split
  . next h => simp +decide only [h, ↓reduceIte]
  split
  . next h => simp +decide only [h, ↓reduceIte]
  split
  . next h => simp +decide only [h, ↓reduceIte]
  split
  . next h => simp +decide only [h, ↓reduceIte]
  split
  . next h => simp +decide only [h, ↓reduceIte]
  split
  . next h => simp +decide only [h, ↓reduceIte]
  split
  . next h => simp +decide only [h, ↓reduceIte]
  split
  . next h => simp +decide only
  . simp only [*]

/--
A field of a store that a statement can set.
-/
structure Field (name : String) where
  get : StoreConfig → Bytes
  get_new : get .new = []
  get_set : ∀ conf kv, get (outcome (setStoreConfValue conf kv)).1 = KeyValue.over kv name (get conf)
  get_addChild : ∀ conf s, get (addChild conf s) = get conf
  get_setType : ∀ conf type bufferType, get (setType conf type bufferType) = get conf

namespace Field

def path : Field "path" where
  get := StoreConfig.path
  get_new := rfl
  get_set := fun conf kv => by rw [setStoreConfValue_fields]
  get_addChild := fun _ _ => rfl
  get_setType := fun _ _ _ => rfl

def topic : Field "topic" where
  get := StoreConfig.topic
  get_new := rfl
  get_set := fun conf kv => by rw [setStoreConfValue_fields]
  get_addChild := fun _ _ => rfl
  get_setType := fun _ _ _ => rfl

def socket : Field "socket" where
  get := StoreConfig.socket
  get_new := rfl
  get_set := fun conf kv => by rw [setStoreConfValue_fields]
  get_addChild := fun _ _ => rfl
  get_setType := fun _ _ _ => rfl

def host : Field "host" where
  get := StoreConfig.host
  get_new := rfl
  get_set := fun conf kv => by rw [setStoreConfValue_fields]
  get_addChild := fun _ _ => rfl
  get_setType := fun _ _ _ => rfl

def port : Field "port" where
  get := StoreConfig.port
  get_new := rfl
  get_set := fun conf kv => by rw [setStoreConfValue_fields]
  get_addChild := fun _ _ => rfl
  get_setType := fun _ _ _ => rfl

end Field

/--
No token of the body has an empty text.
-/
def Worded (ts : List Tok) : Prop :=
  ∀ v, idToken v ∈ ts → v ≠ []

theorem first_ne_nil (kv : KeyValue) (h : Worded kv.tokens) : kv.value.first ≠ [] := by
  apply h
  unfold KeyValue.tokens Values.first
  apply List.mem_append_left
  apply List.mem_cons_of_mem
  exact List.mem_map_of_mem (List.head_mem _)

theorem get_evalBody_ne_nil {name : String} (field : Field name) (r : StoreConfig × Bool) (body : List StoreItem)
    (hworded : Worded (bodyTokens body))
    : field.get (evalBody r body).1 ≠ [] ↔ field.get r.1 ≠ [] ∨ ofString name ∈ body.filterMap StoreItem.key? := by
  induction body generalizing r with
  | nil => simp [evalBody]
  | cons item body ih =>
    have hhead : Worded item.tokens := fun v hv => hworded v (by rw [bodyTokens]; exact List.mem_append_left _ hv)
    have htail : Worded (bodyTokens body) := fun v hv => hworded v (by rw [bodyTokens]; exact List.mem_append_right _ hv)
    rw [evalBody, ih _ htail]
    cases item with
    | keyValue kv =>
      have hget : field.get (andThen r fun conf => (StoreItem.keyValue kv).eval conf).1 = kv.over name (field.get r.1) := by
        unfold andThen StoreItem.eval
        exact field.get_set r.1 kv
      rw [hget, List.filterMap_cons_some (by rfl), List.mem_cons]
      unfold KeyValue.over
      split
      . next hkey =>
        have hfirst := first_ne_nil kv hhead
        simp [hkey, hfirst]
      . next hkey =>
        have hne : ofString name ≠ kv.key := fun h => hkey h.symm
        simp [hne]
    | store type bufferType inner =>
      have hget : field.get (andThen r fun conf => (StoreItem.store type bufferType inner).eval conf).1 = field.get r.1 := by
        simp only [StoreItem.eval_store]
        exact field.get_addChild _ _
      rw [hget, List.filterMap_cons_none (by rfl)]

theorem stores_evalBody (r : StoreConfig × Bool) (body : List StoreItem)
    : (evalBody r body).1.stores = r.1.stores ++ (body.filterMap StoreItem.block?).map StoreBlock.eval := by
  induction body generalizing r with
  | nil => simp [evalBody]
  | cons item body ih =>
    rw [evalBody, ih]
    cases item with
    | keyValue kv =>
      have hstores : (andThen r fun conf => (StoreItem.keyValue kv).eval conf).1.stores = r.1.stores := by
        unfold andThen StoreItem.eval
        dsimp only
        rw [setStoreConfValue_fields]
      rw [hstores, List.filterMap_cons_none (by rfl)]
    | store type bufferType inner =>
      simp only [StoreItem.eval_store]
      rw [List.filterMap_cons_some (by rfl), List.map_cons, ← List.singleton_append, ← List.append_assoc]
      rfl

theorem tokens_subset {item : StoreItem} {body : List StoreItem} (h : item ∈ body) : item.tokens ⊆ bodyTokens body := by
  induction body with
  | nil => cases h
  | cons head body ih =>
    rw [bodyTokens]
    rcases List.mem_cons.mp h with rfl | h
    . exact List.subset_append_left _ _
    . exact List.subset_append_of_subset_right _ (ih h)

namespace StoreBlock

@[simp]
theorem type_eval (b : StoreBlock) : b.eval.type = b.type := rfl

theorem bufferType_eval (b : StoreBlock) (text : Bytes) (h : text ≠ [])
    : b.eval.bufferType = text ↔ b.bufferType = some text := by
  change b.bufferType.getD [] = text ↔ _
  cases b.bufferType with
  | none => simp [h.symm]
  | some t => simp

@[simp]
theorem stores_eval (b : StoreBlock) : b.eval.stores = b.stores.map eval := by
  change (evalBody (.new, true) b.body).1.stores = _
  rw [stores_evalBody]
  rfl

variable {b s : StoreBlock}

theorem get_eval_ne_nil {name : String} (field : Field name) (hworded : Worded (bodyTokens b.body))
    : field.get b.eval ≠ [] ↔ b.Has name := by
  change field.get (setType (evalBody (.new, true) b.body).1 b.type b.bufferType) ≠ [] ↔ _
  rw [field.get_setType, get_evalBody_ne_nil field _ _ hworded, field.get_new]
  simp [Has]

theorem worded_stores (hworded : Worded (bodyTokens b.body)) (h : s ∈ b.stores) : Worded (bodyTokens s.body) := by
  obtain ⟨item, hitem, hblock⟩ := List.mem_filterMap.mp h
  cases item with
  | keyValue kv => cases hblock
  | store type bufferType body =>
    cases hblock
    intro v hv
    apply hworded v
    apply tokens_subset hitem
    rw [StoreItem.tokens]
    unfold blockTokens
    apply List.mem_append_left
    apply List.mem_append_right
    exact List.mem_cons_of_mem _ hv

theorem Inside.worded {checked : Bool} (h : Inside b checked c s) (hworded : Worded (bodyTokens b.body))
    : Worded (bodyTokens s.body) := by
  induction h with
  | root => exact hworded
  | child _ hs ih => exact worded_stores ih hs

theorem allVisits_iff_allInside {checked : Bool} (P : Bool → StoreConfig → Prop)
    : (∀ c conf, Visits b.eval checked c conf → P c conf) ↔ ∀ c s, Inside b checked c s → P c s.eval := by
  constructor
  . intro h c s hs
    apply h
    induction hs with
    | root => exact .root
    | @child c b' s _ hs ih =>
      have hmem : s.eval ∈ b'.eval.stores := by
        rw [stores_eval]
        exact List.mem_map_of_mem hs
      exact .child ih hmem
  . intro h c conf hconf
    have hinside : ∃ s, conf = s.eval ∧ Inside b checked c s := by
      induction hconf with
      | root => exact ⟨b, rfl, .root⟩
      | child _ hs ih =>
        obtain ⟨s, rfl, hinside⟩ := ih
        rw [stores_eval, List.mem_map] at hs
        obtain ⟨t, ht, rfl⟩ := hs
        exact ⟨t, rfl, .child hinside ht⟩
    obtain ⟨s, rfl, hs⟩ := hinside
    exact h c s hs

-- the fields of the node come from the statements of the block
theorem filled_iff_whole (hworded : Worded (bodyTokens b.body)) : b.eval.Filled ↔ b.Whole := by
  have hhas {name : String} (field : Field name) := get_eval_ne_nil field hworded
  have hbuffer : (∃ primary secondary, b.eval.stores = [primary, secondary] ∧
      primary.bufferType = ofString "primary" ∧ secondary.bufferType = ofString "secondary") ↔
        b.stores.map bufferType = [some (ofString "primary"), some (ofString "secondary")] := by
    rw [stores_eval]
    constructor
    . rintro ⟨primary, secondary, hboth, hprimary, hsecondary⟩
      obtain ⟨x, xs, hstores, rfl, hxs⟩ := List.map_eq_cons_iff.mp hboth
      obtain ⟨y, ys, rfl, rfl, hys⟩ := List.map_eq_cons_iff.mp hxs
      rw [List.map_eq_nil_iff.mp hys] at hstores
      rw [hstores, List.map_cons, List.map_cons, (bufferType_eval x _ (by decide)).mp hprimary,
        (bufferType_eval y _ (by decide)).mp hsecondary]
      rfl
    . intro htypes
      obtain ⟨x, xs, hstores, hx, hxs⟩ := List.map_eq_cons_iff.mp htypes
      obtain ⟨y, ys, rfl, hy, hys⟩ := List.map_eq_cons_iff.mp hxs
      rw [hstores, List.map_eq_nil_iff.mp hys]
      exact ⟨x.eval, y.eval, rfl, (bufferType_eval x _ (by decide)).mpr hx, (bufferType_eval y _ (by decide)).mpr hy⟩
  constructor
  . intro h
    exact {
      topic := (hhas .topic).mp h.topic
      type := h.type
      buffer := fun htype => hbuffer.mp (h.buffer htype)
      stores := by
        intro htype hnil
        apply h.stores htype
        rw [stores_eval, hnil, List.map_nil]
      address := fun htype => (h.address htype).imp (hhas .socket).mp (And.imp (hhas .host).mp (hhas .port).mp)
      path := fun htype => (hhas .path).mp (h.path htype)
    }
  . intro h
    exact {
      topic := (hhas .topic).mpr h.topic
      type := h.type
      buffer := fun htype => hbuffer.mpr (h.buffer htype)
      stores := by
        intro htype hnil
        rw [stores_eval, List.map_eq_nil_iff] at hnil
        exact h.stores htype hnil
      address := fun htype => (h.address htype).imp (hhas .socket).mpr (And.imp (hhas .host).mpr (hhas .port).mpr)
      path := fun htype => (hhas .path).mpr (h.path htype)
    }

end StoreBlock

/--
The store of a configuration is that of the one block there is.
-/
def OneStore (r : KidsConfig × Bool) (blocks : List StoreBlock) : Prop :=
  r.2 = true → blocks = [] ∧ r.1.store = none ∨ ∃ b, blocks = [b] ∧ r.1.store = some b.eval

theorem oneStore_first (item : ConfItem) : OneStore item.first item.block?.toList := by
  intro hok
  cases item with
  | keyValue kv => exact .inl ⟨rfl, store_setKidsConfValue .new kv .new⟩
  | listen kvs => exact .inl ⟨rfl, store_evalKeyValues kvs⟩
  | log kvs => exact .inl ⟨rfl, store_evalKeyValues kvs⟩
  | store type bufferType body => exact .inr ⟨⟨type, bufferType, body⟩, rfl, rfl⟩

theorem made_eq (item : ConfItem) : item.made = item.block?.map StoreBlock.eval := by
  cases item <;> rfl

theorem oneStore_next {r : KidsConfig × Bool} (h : OneStore r blocks) (item : ConfItem)
    : OneStore (andThen r fun conf => item.next conf) (blocks ++ item.block?.toList) := by
  intro hok
  obtain ⟨hr, hitem⟩ := Bool.and_eq_true_iff.mp hok
  have hbefore := h hr
  change _ ∧ (item.next r.1).1.store = none ∨ ∃ b : StoreBlock, _ ∧ (item.next r.1).1.store = some b.eval
  rw [item.store_next r.1, made_eq]
  cases hblock : item.block? with
  | none =>
    rw [Option.map_none, Option.or_none, Option.toList_none, List.append_nil]
    exact hbefore
  | some b =>
    cases item with
    | store type bufferType body =>
      cases hblock
      obtain ⟨-, hadd⟩ := Bool.and_eq_true_iff.mp hitem
      rcases hbefore with ⟨rfl, hnone⟩ | ⟨b, -, hsome⟩
      . refine .inr ⟨⟨type, bufferType, body⟩, rfl, ?_⟩
        rw [hnone]
        rfl
      . unfold outcome addStore at hadd
        rw [hsome] at hadd
        cases hadd
    | keyValue kv => cases hblock
    | listen kvs => cases hblock
    | log kvs => cases hblock

theorem filterMap_block? (item : ConfItem) : [item].filterMap ConfItem.block? = item.block?.toList := by
  cases item <;> rfl

theorem blocks_push (t : ConfText) (item : ConfItem) : (t.push item).blocks = t.blocks ++ item.block?.toList := by
  have hitems : (t.push item).items = t.items ++ [item] := rfl
  unfold ConfText.blocks
  rw [hitems, List.filterMap_append, filterMap_block?]

theorem oneStore_eval (t : ConfText) : OneStore t.eval t.blocks := by
  obtain ⟨head, tail⟩ := t
  induction tail using List.reverseRecOn with
  | nil =>
    have hfirst := oneStore_first head
    rw [← filterMap_block?] at hfirst
    exact hfirst
  | append_singleton tail item ih =>
    have hpush : ConfText.mk head (tail ++ [item]) = (ConfText.mk head tail).push item := rfl
    rw [hpush, ConfText.eval_push, blocks_push]
    exact oneStore_next ih item

theorem worded_tokens {ls : List Lexer.Lexeme} (h : ∀ l ∈ ls, l.Worded) : Worded (plain (YyParser.tokens ls)) := by
  intro v hv
  obtain ⟨⟨major, minor⟩, ht, hplain⟩ := List.mem_map.mp hv
  obtain ⟨l, hl, htoken⟩ := List.mem_filterMap.mp ht
  cases l with
  | noise lines => cases htoken
  | token major minor =>
    cases htoken
    have hworded := h _ hl
    unfold Tok.plain at hplain
    split at hplain
    . cases hplain
    . cases hplain
      exact hworded.2

theorem worded_of_reads {t : ConfText} {text : Bytes} (h : t.Reads text) : Worded t.tokens := by
  rw [← h.2]
  exact worded_tokens (Lexer.worded_lexemes _ text)

theorem worded_blocks {t : ConfText} {b : StoreBlock} (h : Worded t.tokens) (hb : b ∈ t.blocks)
    : Worded (bodyTokens b.body) := by
  obtain ⟨item, hitem, hblock⟩ := List.mem_filterMap.mp hb
  cases item with
  | store type bufferType body =>
    cases hblock
    intro v hv
    apply h v
    apply List.mem_flatMap.mpr
    refine ⟨_, hitem, ?_⟩
    rw [ConfItem.tokens]
    unfold blockTokens
    apply List.mem_append_left
    apply List.mem_append_right
    exact List.mem_cons_of_mem _ hv
  | keyValue kv => cases hblock
  | listen kvs => cases hblock
  | log kvs => cases hblock

theorem lacks_iff {b : StoreBlock} {checked : Bool} (hworded : Worded (bodyTokens b.body))
    : ¬Lacks checked b.eval ↔ if checked then b.type = ofString "file" → b.Has "path" else b.Whole := by
  cases checked with
  | true =>
    have hpath := StoreBlock.get_eval_ne_nil .path hworded
    change ¬(b.type = ofString "file" ∧ Field.path.get b.eval = []) ↔ (b.type = ofString "file" → b.Has "path")
    rw [not_and, ← hpath]
  | false =>
    rw [lacks_false, not_not]
    exact StoreBlock.filled_iff_whole hworded

theorem allVisits_iff_complete {b : StoreBlock} (hworded : Worded (bodyTokens b.body))
    : (∀ c conf, Visits b.eval true c conf → ¬Lacks c conf) ↔
        ∀ c s, b.Inside true c s → if c then s.type = ofString "file" → s.Has "path" else s.Whole := by
  rw [StoreBlock.allVisits_iff_allInside]
  constructor
  . exact fun h c s hs => (lacks_iff (hs.worded hworded)).mp (h c s hs)
  . exact fun h c s hs => (lacks_iff (hs.worded hworded)).mpr (h c s hs)

-- the store of a configuration that names none
def nullStore : StoreConfig :=
  { StoreConfig.new with type := ofString "null", topic := ofString "*" }

theorem ready_nullStore : ∀ c, Node nullStore c → c.Ready := by
  rw [ready_iff_filled, allNodes_iff]
  constructor
  . exact {
      topic := by decide
      type := by decide
      buffer := fun h => absurd h (by decide)
      stores := fun h => absurd h (by decide)
      address := fun h => absurd h (by decide)
      path := fun h => absurd h (by decide)
    }
  . exact fun s hs => nomatch hs

-- no step of a parse is ruled out
theorem parseConfig_isSome (text : Bytes) : ∃ ctx, parseConfig text = some ctx := by
  obtain ⟨ctx, htext, -, hread⟩ := parseText_spec text
  unfold parseConfig
  split
  . exact ⟨_, rfl⟩
  rw [htext]
  dsimp only
  split
  . next hsuccess =>
    obtain ⟨t, -, hconf, -⟩ := hread hsuccess
    rw [hconf]
    exact ⟨_, rfl⟩
  . exact ⟨_, rfl⟩

/--
The stores of an accepted text.
-/
theorem instantiable_iff {text : Bytes} {ctx : ParseContext} (hparse : parseConfig text = some ctx)
    (hsuccess : ctx.success = true)
    : ∃ t : ConfText, t.Reads text ∧ (∀ u : ConfText, u.Reads text → u = t) ∧
        (Instantiable t ctx ↔ t.Complete) := by
  obtain ⟨ctx1, htext, hclean, hread⟩ := parseText_spec text
  unfold parseConfig at hparse
  split at hparse
  . cases hparse
    cases hsuccess
  rw [htext] at hparse
  dsimp only at hparse
  split at hparse
  . next hsuccess1 =>
    obtain ⟨t, ht, hconf, heval⟩ := hread hsuccess1
    refine ⟨t, ht, fun u hu => ConfText.reads_unique hu ht, ?_⟩
    rw [hconf, Option.map_some] at hparse
    have hctx := (Option.some.inj hparse).symm
    unfold checkKidsConfig at hctx
    rcases oneStore_eval t heval with ⟨hblocks, hstore⟩ | ⟨b, hblocks, hstore⟩
    . rw [hstore] at hctx
      have hleft : Instantiable t ctx := by
        rw [hctx]
        refine ⟨hclean hsuccess1, _, _, rfl, rfl, ready_nullStore, ?_⟩
        rw [hblocks]
        exact fun b hb => nomatch hb
      have hright : t.Complete := by
        unfold ConfText.Complete
        rw [hblocks]
        exact fun b hb => nomatch hb
      exact iff_of_true hleft hright
    . rw [hstore] at hctx
      dsimp only at hctx
      cases hcheck : checkStoreConfig b.eval with
      | mk store err =>
      rw [hcheck] at hctx
      cases err with
      | some err =>
        rw [hctx] at hsuccess
        cases hsuccess
      | none =>
        dsimp only at hctx
        have hsound := sound_of_passes hcheck
        have hworded := worded_blocks (worded_of_reads ht) (hblocks ▸ List.mem_singleton_self b)
        have hcomplete : t.Complete ↔ ∀ c, Node store c → c.Ready := by
          rw [ready_iff_filled, hsound.filled, allVisits_iff_complete hworded]
          unfold ConfText.Complete
          rw [hblocks]
          simp only [List.mem_singleton, forall_eq]
        rw [hcomplete, hctx]
        constructor
        . rintro ⟨-, conf, store', hconf', hstore', hready, -⟩
          cases hconf'
          cases hstore'
          exact hready
        . intro hready
          refine ⟨hclean hsuccess1, _, _, rfl, rfl, hready, ?_⟩
          rw [hblocks]
          simp only [List.mem_singleton, forall_eq]
          exact hsound.rearranged
  . next hfailed =>
    cases hparse
    exact absurd hsuccess hfailed

theorem instantiable_iff_buffer
    : ∃ ctx t, parseConfig (ofString
          "store buffer { store file secondary { path /b; } store network primary { host h; port 3; } }") = some ctx ∧
        ConfText.Reads t (ofString
          "store buffer { store file secondary { path /b; } store network primary { host h; port 3; } }") ∧
        (Instantiable t ctx ↔ t.Complete) := by
  have hrun : (parseConfig (ofString
      "store buffer { store file secondary { path /b; } store network primary { host h; port 3; } }")).any
        ParseContext.success = true := by
    decide +kernel
  obtain ⟨ctx, hparse, hsuccess⟩ := (Option.any_eq_true _ _).mp hrun
  obtain ⟨t, hreads, -, hiff⟩ := instantiable_iff hparse hsuccess
  exact ⟨ctx, t, hparse, hreads, hiff⟩

-- a file store without a path
theorem instantiable_fails_file
    : ¬∀ text ctx, parseConfig text = some ctx → ctx.success = true →
        ∃ t : ConfText, t.Reads text ∧ Instantiable t ctx := by
  intro hall
  have hrun : (parseConfig (ofString "store file { name a; }")).any (fun ctx =>
      ctx.success && ctx.conf.any fun conf =>
        conf.store.any fun s => s.type == ofString "file" && s.path.isEmpty) = true := by
    decide +kernel
  obtain ⟨ctx, hparse, hctx⟩ := (Option.any_eq_true _ _).mp hrun
  rw [Bool.and_eq_true, Option.any_eq_true] at hctx
  obtain ⟨hsuccess, conf, hconf, hstore⟩ := hctx
  obtain ⟨s, hs, hfile⟩ := (Option.any_eq_true _ _).mp hstore
  rw [Bool.and_eq_true, beq_iff_eq, List.isEmpty_iff] at hfile
  obtain ⟨t, -, hinstantiable⟩ := hall _ ctx hparse hsuccess
  obtain ⟨conf', s', hconf', hs', hready, -⟩ := hinstantiable.tree
  rw [hconf] at hconf'
  cases hconf'
  rw [hs] at hs'
  cases hs'
  exact (hready s .root).path hfile.1 hfile.2

end Kids
