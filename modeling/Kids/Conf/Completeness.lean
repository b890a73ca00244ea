import Kids.Conf.Ordering
import Kids.Conf.Resumption

/-!
What the parser accepts, told by the items of a text: every text whose blocks are filled, that fits on the stack
and is evaluated without an error, and no other.
-/

namespace Kids

open Bytes ShiftReduce ParseContext YyParser

namespace YyParser

section

variable {ts rest : List Tok} {base before : List StackEntry} {conf : StoreConfig} {n g : Nat} {ok ok' : Bool}
  {P : ParseContext → Prop}

theorem Values.ext {vs ws : Values} (h : vs.list = ws.list) : vs = ws := by
  cases vs
  cases ws
  cases h
  rfl

-- `value` and `keyvalue`

theorem leads_values {key : Bytes} {whole : Values} (vs : List Bytes) (done : Values)
    (hwhole : whole.list = done.list ++ vs) (hgoes : Goes (topState base) 14 g)
    : Leads (vs.map idToken ++ [(tkSemicolon, none)]) (base.length + 3)
        (⟨10, 15, .values done⟩ :: ⟨9, 1, .token (some key)⟩ :: base) ok
        (⟨g, 14, .keyValue ⟨key, whole⟩⟩ :: base) ok := by
  induction vs generalizing done with
  | nil =>
    rw [List.append_nil] at hwhole
    obtain rfl := Values.ext hwhole
    refine .shift (by decide : Shifts 10 tkSemicolon 36) (Nat.le_refl _) (by decide) ?_
    refine .high (Nat.le_refl _) ?_
    refine .build [⟨36, 2, .token none⟩, ⟨10, 15, .values whole⟩, ⟨9, 1, .token (some key)⟩]
      (by decide : Reduces 36 3 14 3) hgoes (fun _ => rfl) ?_
    exact .nil
  | cons v vs ih =>
    refine .shift (by decide : Shifts 10 tkId 37) (Nat.le_refl _) (by decide) ?_
    refine .build [⟨37, 1, .token (some v)⟩, ⟨10, 15, .values done⟩]
      (by decide : Reduces 37 2 15 2) (by decide : Goes 9 15 10) (fun _ => rfl) ?_
    apply ih (done.push v)
    rw [hwhole, Values.push, List.append_assoc, List.singleton_append]

theorem leads_keyValue (kv : KeyValue) (hshifts : Shifts (topState base) tkId 9) (hgoes : Goes (topState base) 14 g)
    : Leads kv.tokens (base.length + 3) base ok (⟨g, 14, .keyValue kv⟩ :: base) ok := by
  obtain ⟨key, values, hvalues⟩ := kv
  cases values with
  | nil => exact absurd rfl hvalues
  | cons v vs =>
    refine .shift hshifts (Nat.add_le_add_left (by decide) _) (by decide) ?_
    refine .shift (by decide : Shifts 9 tkId 38) (Nat.le_succ _) (by decide) ?_
    refine .build [⟨38, 1, .token (some v)⟩] (by decide : Reduces 38 1 15 1) (by decide : Goes 9 15 10)
      (fun _ => rfl) ?_
    exact leads_values vs (.single v) rfl hgoes

-- `store`, and what stands in it

/--
The stack within the braces of a store, with nothing read or with the `store_conf` that was read.
-/
inductive Within (base : List StackEntry) : List StackEntry → StoreConfig → Prop
  | opened : topState base = 2 → Within base base .new
  | read (conf : StoreConfig) : topState base = 2 → Within base (⟨3, 18, .store conf⟩ :: base) conf

theorem Within.keyValue (h : Within base before conf) (kv : KeyValue)
    : Leads kv.tokens (before.length + 3) before ok (⟨3, 18, .store (outcome (setStoreConfValue conf kv)).1⟩ :: base)
        (ok && (outcome (setStoreConfValue conf kv)).2) := by
  have hsteady := steady_setStoreConfValue conf kv
  cases h with
  | opened hbase =>
    refine .followed (leads_keyValue kv (hbase ▸ by decide) (hbase ▸ by decide : Goes (topState base) 14 21)) ?_
    refine .reduce [⟨21, 14, .keyValue kv⟩] Minor.store (by decide : Reduces 21 22 18 1) (hbase ▸ by decide) hsteady
      (fun _ => rfl) .nil
  | read conf hbase =>
    refine .followed (leads_keyValue kv (by decide : Shifts 3 tkId 9) (by decide : Goes 3 14 24)) ?_
    refine .reduce [⟨24, 14, .keyValue kv⟩, ⟨3, 18, .store conf⟩] Minor.store (by decide : Reduces 24 23 18 2)
      (hbase ▸ by decide) hsteady (fun _ => rfl) .nil

theorem Within.store {s : StoreConfig} (h : Within base before conf)
    (hleads : ∀ g, Goes (topState before) 13 g → Leads ts n before ok (⟨g, 13, .store s⟩ :: before) ok')
    : Leads ts n before ok (⟨3, 18, .store (addChild conf s)⟩ :: base) ok' := by
  cases h with
  | opened hbase =>
    apply Leads.followed (hleads 20 (hbase ▸ by decide))
    refine .build [⟨20, 13, .store s⟩] (by decide : Reduces 20 24 18 1) (hbase ▸ by decide) (fun _ => rfl) .nil
  | read conf hbase =>
    apply Leads.followed (hleads 23 (by decide : Goes 3 13 23))
    refine .build [⟨23, 13, .store s⟩, ⟨3, 18, .store conf⟩] (by decide : Reduces 23 25 18 2) (hbase ▸ by decide)
      (fun _ => rfl) .nil

theorem Within.shifts (h : Within base before conf) : Shifts (topState before) tkStore 12 := by
  cases h with
  | opened hbase =>
    rw [hbase]
    decide
  | read conf hbase =>
    change Shifts 3 tkStore 12
    decide

theorem leads_bufferType (bufferType : Option Bytes) (base : List StackEntry) (ok : Bool) (hbase : topState base = 8)
    : Leads (bufferTypeTokens bufferType ++ [(tkLp, none)]) (base.length + 2) base ok
        (⟨2, 4, .token none⟩ :: ⟨11, 19, .token bufferType⟩ :: base) ok := by
  cases bufferType with
  | none =>
    refine .empty (hbase ▸ by decide : yyFindShiftAction (topState base) tkLp = yyNState + 21) (by decide) rfl
      (hbase ▸ by decide : Goes (topState base) 19 11) (fun _ => rfl) (Nat.le_succ _) ?_
    refine .shift (by decide : Shifts 11 tkLp 2) (Nat.le_refl _) (by decide) ?_
    refine .high (Nat.le_refl _) .nil
  | some text =>
    refine .shift (hbase ▸ by decide : Shifts (topState base) tkBufferType 19) (Nat.le_succ _) (by decide) ?_
    refine .build [⟨19, 8, .token (some text)⟩] (by decide : Reduces 19 20 19 1)
      (hbase ▸ by decide : Goes (topState base) 19 11) (fun _ => rfl) ?_
    refine .shift (by decide : Shifts 11 tkLp 2) (Nat.le_refl _) (by decide) ?_
    refine .high (Nat.le_refl _) .nil

mutual

theorem leads_element (item : StoreItem) (before base : List StackEntry) (conf : StoreConfig) (ok : Bool)
    (h : Within base before conf)
    : Leads item.tokens (before.length + item.room) before ok (⟨3, 18, .store (item.eval conf).1⟩ :: base)
        (ok && (item.eval conf).2) := by
  match item with
  | .keyValue kv => exact h.keyValue kv
  | .store type bufferType body =>
    rw [StoreItem.eval_store]
    apply h.store
    intro g hgoes
    have hstore := leads_store type bufferType body before ok g h.shifts hgoes
    simp only [andThen, Bool.and_true]
    exact hstore

theorem leads_store (type : Bytes) (bufferType : Option Bytes) (body : List StoreItem) (base : List StackEntry)
    (ok : Bool) (g : Nat) (hshifts : Shifts (topState base) tkStore 12) (hgoes : Goes (topState base) 13 g)
    : Leads (blockTokens (storeHead type bufferType) (bodyTokens body)) (base.length + (4 + bodyRoom body)) base ok
        (⟨g, 13, .store (evalStore type bufferType body).1⟩ :: base) (ok && (evalStore type bufferType body).2) := by
  have htokens : blockTokens (storeHead type bufferType) (bodyTokens body) =
      (tkStore, none) :: idToken type :: (bufferTypeTokens bufferType ++ [(tkLp, none)] ++
        (bodyTokens body ++ [(tkRp, none)])) := by
    simp [blockTokens, storeHead]
  rw [htokens]
  refine .keyword hshifts (by omega) fun text => ?_
  refine .shift (by decide : Shifts 12 tkId 8) (by simp only [List.length_cons]; omega) (by decide) ?_
  have hhead := leads_bufferType bufferType (⟨8, tkId, .token (some type)⟩ :: ⟨12, tkStore, .token text⟩ :: base) ok rfl
  have hroom : base.length + (4 + bodyRoom body) = max (base.length + 4) (base.length + (4 + bodyRoom body)) := by
    omega
  rw [hroom]
  apply hhead.trans
  match body with
  | [] =>
    have heval : evalStore type bufferType [] = (setType .new type bufferType, true) := by
      simp [evalStore, evalBody, andThen]
    rw [heval, Bool.and_true]
    refine .shift (by decide : Shifts 2 tkRp 22) (Nat.le_refl _) (by decide) ?_
    refine .high (Nat.le_refl _) ?_
    refine .build [⟨22, 5, .token none⟩, ⟨2, 4, .token none⟩, ⟨11, 19, .token bufferType⟩, ⟨8, 1, .token (some type)⟩,
      ⟨12, 7, .token text⟩] (by decide : Reduces 22 19 13 5) hgoes (fun _ => rfl) .nil
  | item :: items =>
    have hfirst := leads_element item _ (⟨2, 4, .token none⟩ :: ⟨11, 19, .token bufferType⟩ ::
      ⟨8, 1, .token (some type)⟩ :: ⟨12, 7, .token text⟩ :: base) .new ok (.opened rfl)
    have hitems := leads_items items [item] (⟨2, 4, .token none⟩ :: ⟨11, 19, .token bufferType⟩ ::
      ⟨8, 1, .token (some type)⟩ :: ⟨12, 7, .token text⟩ :: base) ok rfl
    have hone : evalBody (.new, true) [item] = item.eval .new := by
      simp [evalBody, andThen]
    rw [hone] at hitems
    have heval : evalStore type bufferType (item :: items) =
        (setType (evalBody (.new, true) (item :: items)).1 type bufferType,
          (evalBody (.new, true) (item :: items)).2) := by
      simp [evalStore, andThen]
    have hroom : base.length + (4 + bodyRoom (item :: items)) =
        max (base.length + 4 + item.room) (base.length + 4 + (1 + itemsRoom items)) := by
      rw [bodyRoom]
      omega
    rw [heval, hroom, bodyTokens, List.append_assoc]
    apply (hfirst.trans hitems).followed
    refine .build [⟨25, 5, .token none⟩, ⟨3, 18, .store (evalBody (.new, true) (item :: items)).1⟩,
      ⟨2, 4, .token none⟩, ⟨11, 19, .token bufferType⟩, ⟨8, 1, .token (some type)⟩, ⟨12, 7, .token text⟩]
      (by decide : Reduces 25 18 13 6) hgoes (fun _ => rfl) .nil

theorem leads_items (items done : List StoreItem) (base : List StackEntry) (ok : Bool) (hbase : topState base = 2)
    : Leads (bodyTokens items ++ [(tkRp, none)]) (base.length + (1 + itemsRoom items))
        (⟨3, 18, .store (evalBody (.new, true) done).1⟩ :: base) (ok && (evalBody (.new, true) done).2)
        (⟨25, 5, .token none⟩ :: ⟨3, 18, .store (evalBody (.new, true) (done ++ items)).1⟩ :: base)
        (ok && (evalBody (.new, true) (done ++ items)).2) := by
  match items with
  | [] =>
    rw [List.append_nil]
    refine .shift (by decide : Shifts 3 tkRp 25) (Nat.le_refl _) (by decide) ?_
    refine .high (Nat.le_refl _) .nil
  | item :: items =>
    have hitem := leads_element item _ base _ (ok && (evalBody (.new, true) done).2)
      (.read (evalBody (.new, true) done).1 hbase)
    have hitems := leads_items items (done ++ [item]) base ok hbase
    rw [List.append_assoc, List.singleton_append, evalBody_append, andThen, ← Bool.and_assoc] at hitems
    have hroom : base.length + (1 + itemsRoom (item :: items)) =
        max (base.length + 1 + item.room) (base.length + (1 + itemsRoom items)) := by
      rw [itemsRoom]
      omega
    rw [hroom, bodyTokens, List.append_assoc]
    exact hitem.trans hitems

end

-- the `listen` and `log` blocks

/--
The states and the rules of one kind of block, with what the tables say of them.
-/
structure KvBlock where
  (keyword keywordState lpState headState bodyState tailState rpState : Nat)
  (bodySymbol symbol headRule tailRule rule : Nat)
  shiftsLp : Shifts keywordState tkLp lpState
  shiftsHead : Shifts lpState tkId 9
  goesHead : Goes lpState 14 headState
  reducesHead : Reduces headState headRule bodySymbol 1
  goesBody : Goes lpState bodySymbol bodyState
  shiftsTail : Shifts bodyState tkId 9
  goesTail : Goes bodyState 14 tailState
  reducesTail : Reduces tailState tailRule bodySymbol 2
  shiftsRp : Shifts bodyState tkRp rpState
  reduces : Reduces rpState rule symbol 4
  error : yyFindShiftAction lpState tkRp = yyErrorAction
  actionHead : ∀ ctx kv, action ctx headRule [.keyValue kv] = kids (setKidsConfValue .new kv ctx)
  actionTail : ∀ ctx conf kv, action ctx tailRule [.kids conf, .keyValue kv] = kids (setKidsConfValue conf kv ctx)
  action : ∀ ctx t1 t2 t4 conf, action ctx rule [.token t1, .token t2, .kids conf, .token t4] = kids (conf, ctx)

namespace KvBlock

def listen : KvBlock where
  keyword := tkListen
  keywordState := 13
  lpState := 4
  headState := 26
  bodyState := 6
  tailState := 27
  rpState := 28
  bodySymbol := 17
  symbol := 12
  headRule := 16
  tailRule := 17
  rule := 15
  shiftsLp := by decide
  shiftsHead := by decide
  goesHead := by decide
  reducesHead := by decide
  goesBody := by decide
  shiftsTail := by decide
  goesTail := by decide
  reducesTail := by decide
  shiftsRp := by decide
  reduces := by decide
  error := by decide
  actionHead := fun _ _ => rfl
  actionTail := fun _ _ _ => rfl
  action := fun _ _ _ _ _ => rfl

def log : KvBlock where
  keyword := tkLog
  keywordState := 14
  lpState := 5
  headState := 29
  bodyState := 7
  tailState := 30
  rpState := 31
  bodySymbol := 16
  symbol := 11
  headRule := 13
  tailRule := 14
  rule := 12
  shiftsLp := by decide
  shiftsHead := by decide
  goesHead := by decide
  reducesHead := by decide
  goesBody := by decide
  shiftsTail := by decide
  goesTail := by decide
  reducesTail := by decide
  shiftsRp := by decide
  reduces := by decide
  error := by decide
  actionHead := fun _ _ => rfl
  actionTail := fun _ _ _ => rfl
  action := fun _ _ _ _ _ => rfl

variable (b : KvBlock)

theorem leads_keyValues (kvs done : List KeyValue) (hbase : topState base = b.lpState)
    : Leads (kvs.flatMap KeyValue.tokens ++ [(tkRp, none)]) (base.length + (1 + itemsRoom (kvs.map .keyValue)))
        (⟨b.bodyState, b.bodySymbol, .kids (evalKeyValues done).1⟩ :: base) (ok && (evalKeyValues done).2)
        (⟨b.rpState, tkRp, .token none⟩ :: ⟨b.bodyState, b.bodySymbol, .kids (evalKeyValues (done ++ kvs)).1⟩ :: base)
        (ok && (evalKeyValues (done ++ kvs)).2) := by
  induction kvs generalizing done with
  | nil =>
    rw [List.append_nil]
    refine .shift b.shiftsRp (Nat.le_refl _) (by decide) ?_
    refine .high (Nat.le_refl _) .nil
  | cons kv kvs ih =>
    have hkv : Leads kv.tokens _ (⟨b.bodyState, b.bodySymbol, .kids (evalKeyValues done).1⟩ :: base)
        (ok && (evalKeyValues done).2) _ _ :=
      leads_keyValue kv b.shiftsTail b.goesTail
    have hkvs := ih (done ++ [kv])
    rw [List.append_assoc, List.singleton_append, evalKeyValues_append, andThen, ← Bool.and_assoc] at hkvs
    have hroom : base.length + (1 + itemsRoom ((kv :: kvs).map .keyValue)) =
        max (base.length + 1 + 3) (base.length + (1 + itemsRoom (kvs.map .keyValue))) := by
      rw [List.map_cons, itemsRoom, StoreItem.room]
      omega
    rw [hroom, List.flatMap_cons, List.append_assoc]
    refine .trans (hkv.followed ?_) hkvs
    refine .reduce [⟨b.tailState, 14, .keyValue kv⟩, ⟨b.bodyState, b.bodySymbol, .kids (evalKeyValues done).1⟩]
      Minor.kids b.reducesTail ?_ (steady_setKidsConfValue _ kv) ?_ .nil
    . rw [hbase]
      exact b.goesBody
    . intro ctx
      exact b.actionTail ctx _ kv

theorem leads_block {kvs : List KeyValue} (base : List StackEntry) (ok : Bool) (g : Nat) (hne : kvs ≠ [])
    (hshifts : Shifts (topState base) b.keyword b.keywordState)
    (hgoes : Goes (topState base) b.symbol g)
    : Leads (blockTokens [(b.keyword, none)] (kvs.flatMap KeyValue.tokens))
        (base.length + (2 + bodyRoom (kvs.map .keyValue))) base ok
        (⟨g, b.symbol, .kids (evalKeyValues kvs).1⟩ :: base) (ok && (evalKeyValues kvs).2) := by
  cases kvs with
  | nil => exact absurd rfl hne
  | cons kv kvs =>
    have htokens : blockTokens [(b.keyword, none)] ((kv :: kvs).flatMap KeyValue.tokens) =
        (b.keyword, none) :: (tkLp, none) :: (kv.tokens ++ (kvs.flatMap KeyValue.tokens ++ [(tkRp, none)])) := by
      simp [blockTokens]
    rw [htokens]
    refine .keyword hshifts (by omega) fun text => ?_
    refine .shift b.shiftsLp (by simp only [List.length_cons]; omega) (by decide) ?_
    have hkv : Leads kv.tokens _ (⟨b.lpState, tkLp, .token none⟩ :: ⟨b.keywordState, b.keyword, .token text⟩ :: base)
        ok _ _ :=
      leads_keyValue kv b.shiftsHead b.goesHead
    have hkvs : Leads _ _ (_ :: ⟨b.lpState, tkLp, .token none⟩ :: ⟨b.keywordState, b.keyword, .token text⟩ :: base)
        (ok && (evalKeyValues [kv]).2) _ _ :=
      b.leads_keyValues kvs [kv] rfl
    have hroom : base.length + (2 + bodyRoom ((kv :: kvs).map .keyValue)) =
        max (base.length + 2 + 3) (base.length + 2 + (1 + itemsRoom (kvs.map .keyValue))) := by
      rw [List.map_cons, bodyRoom, StoreItem.room]
      omega
    rw [hroom]
    refine .trans (hkv.followed ?_) (hkvs.followed ?_)
    . refine .reduce [⟨b.headState, 14, .keyValue kv⟩] Minor.kids b.reducesHead b.goesBody
        (steady_setKidsConfValue .new kv) ?_ .nil
      intro ctx
      exact b.actionHead ctx kv
    . refine .build [⟨b.rpState, tkRp, .token none⟩,
        ⟨b.bodyState, b.bodySymbol, .kids (evalKeyValues (kv :: kvs)).1⟩, ⟨b.lpState, tkLp, .token none⟩,
        ⟨b.keywordState, b.keyword, .token text⟩] b.reduces hgoes ?_ .nil
      intro ctx
      exact b.action ctx _ _ _ _

-- there is nothing in the braces
theorem ends_empty (hshifts : Shifts (topState base) b.keyword b.keywordState) (hP : OfFailure P)
    : Ends (blockTokens [(b.keyword, none)] [] ++ rest) base ok P := by
  refine ends_shift hshifts.1 hshifts.2.1 hshifts.2.2 ?_ fun _ => hP
  intro _ text _
  refine ends_shift b.shiftsLp.1 b.shiftsLp.2.1 b.shiftsLp.2.2 ?_ fun _ => hP
  intro _ text' _
  exact ends_error b.error hP

end KvBlock

-- `conf`

theorem leads_first (item : ConfItem) (hfilled : item.Filled)
    : Leads item.tokens item.room [] ok [⟨1, 10, .kids item.first.1⟩] (ok && item.first.2) := by
  cases item with
  | keyValue kv =>
    have hkv : Leads kv.tokens _ [] ok [⟨18, 14, .keyValue kv⟩] ok := leads_keyValue kv (by decide) (by decide)
    apply hkv.followed
    refine .reduce [⟨18, 14, .keyValue kv⟩] Minor.kids (by decide : Reduces 18 4 10 1) (by decide : Goes 0 10 1)
      (steady_setKidsConfValue .new kv) (fun _ => rfl) .nil
  | listen kvs =>
    have hblock : Leads (ConfItem.listen kvs).tokens (0 + (ConfItem.listen kvs).room) [] ok
        [⟨17, 12, .kids (evalKeyValues kvs).1⟩] (ok && (evalKeyValues kvs).2) :=
      KvBlock.listen.leads_block [] ok 17 hfilled (by decide) (by decide)
    rw [Nat.zero_add] at hblock
    apply hblock.followed
    refine .build [⟨17, 12, .kids (evalKeyValues kvs).1⟩] (by decide : Reduces 17 6 10 1) (by decide : Goes 0 10 1)
      (fun _ => rfl) .nil
  | log kvs =>
    have hblock : Leads (ConfItem.log kvs).tokens (0 + (ConfItem.log kvs).room) [] ok
        [⟨15, 11, .kids (evalKeyValues kvs).1⟩] (ok && (evalKeyValues kvs).2) :=
      KvBlock.log.leads_block [] ok 15 hfilled (by decide) (by decide)
    rw [Nat.zero_add] at hblock
    apply hblock.followed
    refine .build [⟨15, 11, .kids (evalKeyValues kvs).1⟩] (by decide : Reduces 15 10 10 1) (by decide : Goes 0 10 1)
      (fun _ => rfl) .nil
  | store type bufferType body =>
    have hstore : Leads (ConfItem.store type bufferType body).tokens
        (0 + (ConfItem.store type bufferType body).room) [] ok
        [⟨16, 13, .store (evalStore type bufferType body).1⟩] (ok && (evalStore type bufferType body).2) :=
      leads_store type bufferType body [] ok 16 (by decide) (by decide)
    rw [Nat.zero_add] at hstore
    have hfirst : (ConfItem.store type bufferType body).first.2 = (evalStore type bufferType body).2 :=
      Bool.and_true _
    rw [hfirst]
    apply hstore.followed
    refine .build [⟨16, 13, .store (evalStore type bufferType body).1⟩] (by decide : Reduces 16 8 10 1)
      (by decide : Goes 0 10 1) (fun _ => rfl) .nil

theorem leads_next (item : ConfItem) (conf : KidsConfig) (hfilled : item.Filled)
    : Leads item.tokens (1 + item.room) [⟨1, 10, .kids conf⟩] ok [⟨1, 10, .kids (item.next conf).1⟩]
        (ok && (item.next conf).2) := by
  cases item with
  | keyValue kv =>
    have hkv : Leads kv.tokens _ [⟨1, 10, .kids conf⟩] ok [⟨35, 14, .keyValue kv⟩, ⟨1, 10, .kids conf⟩] ok :=
      leads_keyValue kv (by decide : Shifts 1 tkId 9) (by decide : Goes 1 14 35)
    apply hkv.followed
    refine .reduce [⟨35, 14, .keyValue kv⟩, ⟨1, 10, .kids conf⟩] Minor.kids (by decide : Reduces 35 5 10 2)
      (by decide : Goes 0 10 1) (steady_setKidsConfValue conf kv) (fun _ => rfl) .nil
  | listen kvs =>
    have hblock : Leads (ConfItem.listen kvs).tokens (1 + (ConfItem.listen kvs).room) [⟨1, 10, .kids conf⟩] ok
        [⟨34, 12, .kids (evalKeyValues kvs).1⟩, ⟨1, 10, .kids conf⟩] (ok && (evalKeyValues kvs).2) :=
      KvBlock.listen.leads_block [⟨1, 10, .kids conf⟩] ok 34 hfilled (by decide : Shifts 1 tkListen 13)
        (by decide : Goes 1 12 34)
    rw [ConfItem.next, andThen, ← Bool.and_assoc]
    apply hblock.followed
    refine .reduce [⟨34, 12, .kids (evalKeyValues kvs).1⟩, ⟨1, 10, .kids conf⟩] Minor.kids
      (by decide : Reduces 34 7 10 2) (by decide : Goes 0 10 1) (steady_addListen conf (evalKeyValues kvs).1)
      (fun _ => rfl) .nil
  | log kvs =>
    have hblock : Leads (ConfItem.log kvs).tokens (1 + (ConfItem.log kvs).room) [⟨1, 10, .kids conf⟩] ok
        [⟨32, 11, .kids (evalKeyValues kvs).1⟩, ⟨1, 10, .kids conf⟩] (ok && (evalKeyValues kvs).2) :=
      KvBlock.log.leads_block [⟨1, 10, .kids conf⟩] ok 32 hfilled (by decide : Shifts 1 tkLog 14)
        (by decide : Goes 1 11 32)
    rw [ConfItem.next, andThen, Bool.and_true]
    apply hblock.followed
    refine .build [⟨32, 11, .kids (evalKeyValues kvs).1⟩, ⟨1, 10, .kids conf⟩] (by decide : Reduces 32 11 10 2)
      (by decide : Goes 0 10 1) (fun _ => rfl) .nil
  | store type bufferType body =>
    have hstore : Leads (ConfItem.store type bufferType body).tokens
        (1 + (ConfItem.store type bufferType body).room) [⟨1, 10, .kids conf⟩] ok
        [⟨33, 13, .store (evalStore type bufferType body).1⟩, ⟨1, 10, .kids conf⟩]
        (ok && (evalStore type bufferType body).2) :=
      leads_store type bufferType body [⟨1, 10, .kids conf⟩] ok 33 (by decide : Shifts 1 tkStore 12)
        (by decide : Goes 1 13 33)
    rw [ConfItem.next, andThen, ← Bool.and_assoc]
    apply hstore.followed
    refine .reduce [⟨33, 13, .store (evalStore type bufferType body).1⟩, ⟨1, 10, .kids conf⟩] Minor.kids
      (by decide : Reduces 33 9 10 2) (by decide : Goes 0 10 1)
      (steady_addStore conf (evalStore type bufferType body).1) (fun _ => rfl) .nil

theorem ends_unfilled {item : ConfItem} (hunfilled : ¬item.Filled) (hlisten : Shifts (topState base) tkListen 13)
    (hlog : Shifts (topState base) tkLog 14) (hP : OfFailure P) : Ends (item.tokens ++ rest) base ok P := by
  cases item with
  | keyValue kv => exact absurd trivial hunfilled
  | store type bufferType body => exact absurd trivial hunfilled
  | listen kvs =>
    obtain rfl := not_not.mp hunfilled
    exact KvBlock.listen.ends_empty hlisten hP
  | log kvs =>
    obtain rfl := not_not.mp hunfilled
    exact KvBlock.log.ends_empty hlog hP

theorem ends_items (items : List ConfItem) (t : ConfText)
    (hdone : (∀ item ∈ items, item.Filled) → (∀ item ∈ items, 1 + item.room < yyStackDepth) → ∀ ctx,
      ctx.success = (ConfText.mk t.head (t.tail ++ items)).eval.2 →
        ctx.conf = some (ConfText.mk t.head (t.tail ++ items)).eval.1 → P ctx)
    (hrest : ¬((∀ item ∈ items, item.Filled) ∧ ∀ item ∈ items, 1 + item.room < yyStackDepth) → OfFailure P)
    : Ends (items.flatMap ConfItem.tokens) [⟨1, 10, .kids t.eval.1⟩] t.eval.2 P := by
  induction items generalizing t with
  | nil =>
    rw [List.append_nil] at hdone
    exact ends_accept (hdone nofun nofun)
  | cons item items ih =>
    rw [List.forall_mem_cons, List.forall_mem_cons] at hdone hrest
    rw [List.flatMap_cons]
    by_cases hfilled : item.Filled
    . apply leads_next item t.eval.1 hfilled
      . intro hroom
        have hpush := ih (t.push item)
        rw [ConfText.eval_push, andThen, ConfText.push, List.append_assoc, List.singleton_append] at hpush
        apply hpush
        . intro hitems hrooms
          exact hdone ⟨hfilled, hitems⟩ ⟨hroom, hrooms⟩
        . intro hnot
          exact hrest fun h => hnot ⟨h.1.2, h.2.2⟩
      . intro hfull
        exact hrest fun h => absurd h.2.1 (Nat.not_lt.mpr hfull)
    . refine ends_unfilled hfilled (by decide : Shifts 1 tkListen 13) (by decide : Shifts 1 tkLog 14) ?_
      exact hrest fun h => hfilled h.1.1

theorem ends_text (t : ConfText)
    (hdone : t.Filled → t.Fits → ∀ ctx, ctx.success = t.eval.2 → ctx.conf = some t.eval.1 → P ctx)
    (hrest : ¬(t.Filled ∧ t.Fits) → OfFailure P) : Ends t.tokens [] true P := by
  obtain ⟨head, tail⟩ := t
  unfold ConfText.Filled ConfText.Fits ConfText.items at hdone hrest
  rw [List.forall_mem_cons] at hdone hrest
  change Ends (head.tokens ++ tail.flatMap ConfItem.tokens) [] true P
  by_cases hfilled : head.Filled
  . apply leads_first head hfilled
    . intro hroom
      rw [Bool.true_and]
      refine ends_items tail ⟨head, []⟩ ?_ ?_
      . intro hitems hrooms
        exact hdone ⟨hfilled, hitems⟩ ⟨hroom, hrooms⟩
      . intro hnot
        exact hrest fun h => hnot ⟨h.1.2, h.2.2⟩
    . intro hfull
      exact hrest fun h => absurd h.2.1 (Nat.not_lt.mpr hfull)
  . refine ends_unfilled hfilled (by decide : Shifts 0 tkListen 13) (by decide : Shifts 0 tkLog 14) ?_
    exact hrest fun h => hfilled h.1.1

end

end YyParser

open YyParser

section

variable {t : ConfText} {text : Bytes} {ctx : ParseContext}

theorem parseText_reads {P : ParseContext → Prop} (ht : t.Reads text) (h : parseText text = some ctx)
    (hends : Ends t.tokens [] true P) : P ctx := by
  obtain ⟨hok, htokens⟩ := ht
  unfold parseText at h
  cases hlex : Lexer.lex text with
  | mk ls ok =>
    rw [hlex] at h hok htokens
    dsimp only at h hok htokens
    cases hlexemes : parseLexemes ls parseAlloc .new with
    | none =>
      rw [hlexemes] at h
      cases h
    | some r =>
      obtain ⟨p, ctx'⟩ := r
      rw [hlexemes, hok] at h
      have hfinish := (finish_eq hlexemes).trans h
      exact hends ls _ _ _ ctx htokens rfl (by decide) rfl (fun _ => by decide) hfinish

-- also where an action fails
theorem parseText_eval (ht : t.Reads text) (h : parseText text = some ctx) (hfilled : t.Filled) (hfits : t.Fits)
    : ctx.success = t.eval.2 ∧ ctx.conf = some t.eval.1 :=
  parseText_reads (P := fun ctx => ctx.success = t.eval.2 ∧ ctx.conf = some t.eval.1) ht h <|
    ends_text t (fun _ _ _ hsuccess hconf => ⟨hsuccess, hconf⟩) fun hnot => absurd ⟨hfilled, hfits⟩ hnot

theorem parseText_refused (ht : t.Reads text) (h : parseText text = some ctx) (hnot : ¬(t.Filled ∧ t.Fits))
    : ctx.success = false :=
  parseText_reads (P := fun ctx => ctx.success = false) ht h <|
    ends_text t (fun hfilled hfits => absurd ⟨hfilled, hfits⟩ hnot) fun _ _ hsuccess => hsuccess

theorem checked_eq (hsuccess : ctx.success = t.eval.2) (hconf : ctx.conf = some t.eval.1)
    : let checked := if ctx.success then checkKidsConfig t.eval.1 ctx else ctx
      (checked.success, checked.conf) = t.checked := by
  unfold ConfText.checked
  dsimp only
  rw [hsuccess]
  split
  . unfold checkKidsConfig
    cases t.eval.1.store with
    | none =>
      dsimp only
      rw [hsuccess]
    | some s =>
      dsimp only
      cases checkStoreConfig s with
      | mk s' err =>
        cases err <;> rfl
  . rw [hsuccess, hconf]

theorem not_reads_nil (t : ConfText) : ¬t.Reads [] := by
  obtain ⟨head, tail⟩ := t
  intro ht
  have htokens : [] = head.tokens ++ tail.flatMap ConfItem.tokens := ht.2
  cases head <;> cases htokens

/--
What `ParseConfig` leaves for the text of a configuration: what its items say, also where an action or the check
refuses one of them, and a failure where a block is not filled or the stack is.
-/
theorem parseConfig_reads (ht : t.Reads text)
    : ∃ ctx, parseConfig text = some ctx ∧ (t.Filled → t.Fits → (ctx.success, ctx.conf) = t.result) ∧
        (¬(t.Filled ∧ t.Fits) → ctx.success = false) := by
  obtain ⟨ctx, hparse, -, -⟩ := parseText_spec text
  unfold parseConfig
  rw [hparse]
  cases text with
  | nil => exact absurd ht (not_reads_nil t)
  | cons c text =>
    dsimp only [List.isEmpty_cons]
    rw [if_neg Bool.false_ne_true]
    by_cases hboth : t.Filled ∧ t.Fits
    . obtain ⟨hfilled, hfits⟩ := hboth
      obtain ⟨hsuccess, hconf⟩ := parseText_eval ht hparse hfilled hfits
      refine ⟨if ctx.success then checkKidsConfig t.eval.1 ctx else ctx, ?_, ?_, ?_⟩
      . rw [hconf]
        split <;> rfl
      . intro _ _
        exact (checked_eq hsuccess hconf).trans (result_of_fits hfits).symm
      . intro hnot
        exact absurd ⟨hfilled, hfits⟩ hnot
    . have hfailed := parseText_refused ht hparse hboth
      rw [if_neg (not_success hfailed)]
      exact ⟨ctx, rfl, fun hfilled hfits => absurd ⟨hfilled, hfits⟩ hboth, fun _ => hfailed⟩

end

/--
`ParseConfig` returns for every text, and tells a configuration from other text: its blocks are filled, it fits on
the stack of the parser, and what it says passes the actions and the check. The result is what its items say.
-/
theorem parseConfig_iff (text : Bytes)
    : ∃ ctx, parseConfig text = some ctx ∧
        (ctx.success = true ↔ ∃ t : ConfText, t.Reads text ∧ t.Filled ∧ t.Fits ∧ t.result.1 = true) ∧
        ∀ t : ConfText, t.Reads text → ctx.success = true → ctx.conf = t.result.2 := by
  by_cases hreads : ∃ t : ConfText, t.Reads text
  . obtain ⟨t, ht⟩ := hreads
    obtain ⟨ctx, hparse, hresult, hrefused⟩ := parseConfig_reads ht
    refine ⟨ctx, hparse, ⟨fun hsuccess => ?_, ?_⟩, fun u hu hsuccess => ?_⟩
    . obtain ⟨hfilled, hfits⟩ := not_not.mp fun hnot => not_success (hrefused hnot) hsuccess
      exact ⟨t, ht, hfilled, hfits, (congrArg Prod.fst (hresult hfilled hfits)).symm.trans hsuccess⟩
    . rintro ⟨u, hu, hfilled, hfits, h⟩
      obtain rfl := ConfText.reads_unique hu ht
      exact (congrArg Prod.fst (hresult hfilled hfits)).trans h
    . obtain rfl := ConfText.reads_unique hu ht
      obtain ⟨hfilled, hfits⟩ := not_not.mp fun hnot => not_success (hrefused hnot) hsuccess
      exact congrArg Prod.snd (hresult hfilled hfits)
  . obtain ⟨ctx, hparse, -, hread⟩ := parseText_spec text
    have hfailed : ¬ctx.success = true := by
      intro hsuccess
      obtain ⟨t, ht, -, -⟩ := hread hsuccess
      exact hreads ⟨t, ht⟩
    have hnone : ¬∃ t : ConfText, t.Reads text ∧ t.Filled ∧ t.Fits ∧ t.result.1 = true :=
      fun ⟨t, ht, _⟩ => hreads ⟨t, ht⟩
    unfold parseConfig
    rw [hparse]
    split
    . exact ⟨_, rfl, iff_of_false Bool.false_ne_true hnone, fun t ht => absurd ⟨t, ht⟩ hreads⟩
    . dsimp only
      rw [if_neg hfailed]
      exact ⟨ctx, rfl, iff_of_false hfailed hnone, fun t ht => absurd ⟨t, ht⟩ hreads⟩

end Kids
