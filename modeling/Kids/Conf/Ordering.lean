import Kids.Conf.Fields
import Kids.Conf.Limits
import Kids.Conf.Reading
import Mathlib.Data.List.Induction
import Mathlib.Data.List.Nodup

/-!
The order of the items of a text. The first item makes the configuration, and the others are copied into it:
what the same item sets may depend on its place.
-/

namespace Kids

open Bytes YyParser

inductive Block
  | listen | log | store
  deriving DecidableEq

namespace ConfItem

def keys (item : ConfItem) : List Bytes :=
  item.body.map KeyValue.key

def block : ConfItem → Option Block
  | .keyValue _ => none
  | .listen _ => some .listen
  | .log _ => some .log
  | .store .. => some .store

end ConfItem

/--
No key is set in two places, and no block is there twice.
-/
structure Collection (items : List ConfItem) : Prop where
  keys : (items.flatMap ConfItem.keys).Nodup
  blocks : (items.filterMap ConfItem.block).Nodup
  filled : ∀ item ∈ items, item.Filled

/--
The flag and the configuration that the items leave when all of them are parsed.
-/
def ConfText.checked (t : ConfText) : Bool × Option KidsConfig :=
  let ctx := { ParseContext.new with success := t.eval.2, conf := some t.eval.1 }
  let ctx := if ctx.success then checkKidsConfig t.eval.1 ctx else ctx
  (ctx.success, ctx.conf)

/--
The flag and the configuration that `ParseConfig` leaves for the items. A text that overflows the stack of the parser
is parsed as another one from there on, and has no configuration of its own.
-/
def ConfText.result (t : ConfText) : Bool × Option KidsConfig :=
  if t.Fits then t.checked else (false, none)

def Uniform (items : List ConfItem) : Prop :=
  ∀ t u : ConfText, t.items.Perm items → u.items.Perm items → t.checked = u.checked

-- a key with a text that is not empty
def Gives (kvs : List KeyValue) (k : TextField) : Prop :=
  ∃ kv ∈ kvs, kv.key = k.key ∧ kv.value.first ≠ []

def topLevel (items : List ConfItem) : List KeyValue :=
  items.filterMap fun
    | .keyValue kv => some kv
    | _ => none

section

variable {items : List ConfItem} {kvs : List KeyValue} {kv : KeyValue} {k : TextField}

-- what a block gives

theorem get_evalKeyValues_of_not_mem (h : k.key ∉ kvs.map KeyValue.key) : (evalKeyValues kvs).1.get k = [] := by
  rw [get_evalKeyValues]
  apply Overwrite.last_of_none
  intro kv hkv
  apply if_neg
  intro hkey
  apply h
  rw [← hkey]
  apply List.mem_map_of_mem hkv

theorem Collection.perm {items' : List ConfItem} (h : Collection items) (hperm : items.Perm items')
    : Collection items' where
  keys := (hperm.flatMap_right ConfItem.keys).nodup_iff.mp h.keys
  blocks := (hperm.filterMap ConfItem.block).nodup_iff.mp h.blocks
  filled := fun item hitem => h.filled item (hperm.mem_iff.mpr hitem)

theorem Collection.block_head {a : ConfItem} (h : Collection (a :: items)) (hblock : a.block = some x) (hb : b ∈ items)
    : b.block ≠ some x := by
  have hblocks := h.blocks
  rw [List.filterMap_cons, hblock, List.nodup_cons] at hblocks
  intro hsame
  exact hblocks.1 (List.mem_filterMap.mpr ⟨b, hb, hsame⟩)

theorem mem_topLevel : kv ∈ topLevel items ↔ .keyValue kv ∈ items := by
  unfold topLevel
  rw [List.mem_filterMap]
  constructor
  . rintro ⟨item, hitem, hkv⟩
    cases item with
    | keyValue kv' =>
      cases hkv
      exact hitem
    | listen _ | log _ | store _ _ _ => cases hkv
  . exact fun hkv => ⟨_, hkv, rfl⟩

def after (conf : KidsConfig) (rest : List ConfItem) : KidsConfig :=
  rest.foldl (fun conf item => (item.next conf).1) conf

theorem eval_fst (t : ConfText) : t.eval.1 = after t.head.first.1 t.tail :=
  foldl_andThen_fst (fun (item : ConfItem) conf => item.next conf) t.tail t.head.first

theorem get_after {w : ConfItem → Option Bytes} {Inv : KidsConfig → List ConfItem → Prop}
    (hstep : ∀ conf item rest, Inv conf (item :: rest) →
      (item.next conf).1.get k = (w item).getD (conf.get k) ∧ Inv (item.next conf).1 rest)
    (h : Inv conf rest) : (after conf rest).get k = Overwrite.last w (conf.get k) rest := by
  induction rest generalizing conf with
  | nil => rfl
  | cons item rest ih =>
    obtain ⟨hget, hrest⟩ := hstep conf item rest h
    rw [Overwrite.last_cons, ← hget]
    exact ih hrest

/--
The items that are left fit a configuration.
-/
structure Pending (conf : KidsConfig) (rest : List ConfItem) : Prop where
  collection : Collection rest
  socket : (∃ kvs, .listen kvs ∈ rest) → conf.listenSocket = [] ∧ ¬Gives (topLevel rest) .socket
  host : (∃ kvs, .listen kvs ∈ rest) → conf.listenHost = [] ∧ ¬Gives (topLevel rest) .host
  store : (∃ item ∈ rest, item.made ≠ none) → conf.store = none

theorem Pending.fits (h : Pending conf (item :: rest)) : item.Fits conf where
  socket := by
    rintro ⟨kvs, rfl⟩
    exact (h.socket ⟨kvs, .head rest⟩).1
  host := by
    rintro ⟨kvs, rfl⟩
    exact (h.host ⟨kvs, .head rest⟩).1
  store := fun hmade => h.store ⟨item, .head rest, hmade⟩

theorem Gives.mono {kvs' : List KeyValue} (h : Gives kvs k) (hsub : kvs ⊆ kvs') : Gives kvs' k := by
  obtain ⟨kv, hkv, hgives⟩ := h
  exact ⟨kv, hsub hkv, hgives⟩

theorem topLevel_subset {items' : List ConfItem} (h : items ⊆ items') : topLevel items ⊆ topLevel items' := by
  intro kv hkv
  exact mem_topLevel.mpr (h (mem_topLevel.mp hkv))

theorem Collection.tail {a : ConfItem} (h : Collection (a :: items)) : Collection items where
  keys := by
    have hkeys := h.keys
    rw [List.flatMap_cons, List.nodup_append'] at hkeys
    exact hkeys.2.1
  blocks := ((List.sublist_cons_self a items).filterMap ConfItem.block).nodup h.blocks
  filled := fun item hitem => h.filled item (.tail a hitem)

theorem made_ne_none_iff (item : ConfItem) : item.made ≠ none ↔ item.block = some .store := by
  cases item <;> simp [ConfItem.made, ConfItem.block]

-- with no `listen` and no text at the top, the address of a configuration stays empty
theorem written_address {item : ConfItem} (hk : k = .socket ∨ k = .host ∨ k = .port)
    (hblock : item.block ≠ some .listen)
    (hgives : ¬Gives (topLevel (item :: items)) k) : (item.written k).getD [] = [] := by
  cases item with
  | keyValue kv =>
    cases hwritten : kv.written k with
    | none => simp only [ConfItem.written, hwritten, Option.getD_none]
    | some v =>
      obtain ⟨hkey, hv⟩ := (kv.written_eq_some k).mp hwritten
      simp only [ConfItem.written, hwritten, Option.getD_some]
      by_contra hne
      apply hgives
      refine ⟨kv, mem_topLevel.mpr (.head items), hkey, ?_⟩
      rw [hv]
      exact hne
  | listen kvs => exact absurd rfl hblock
  | log kvs => rcases hk with rfl | rfl | rfl <;> rfl
  | store type bufferType body => rfl

theorem Pending.address (h : Pending conf (item :: rest)) (hk : k = .socket ∨ k = .host)
    (hempty : conf.get k = []) (hgives : ¬Gives (topLevel (item :: rest)) k) (hlisten : .listen kvs ∈ rest)
    : (item.next conf).1.get k = [] := by
  rw [item.get_next h.fits, hempty]
  apply written_address (hk.imp_right .inl) _ hgives
  intro hblock
  exact h.collection.block_head hblock hlisten rfl

theorem Pending.next (h : Pending conf (item :: rest)) : Pending (item.next conf).1 rest where
  collection := h.collection.tail
  socket := by
    rintro ⟨kvs, hlisten⟩
    obtain ⟨hempty, hgives⟩ := h.socket ⟨kvs, .tail item hlisten⟩
    refine ⟨h.address (.inl rfl) hempty hgives hlisten, ?_⟩
    exact fun hrest => hgives (hrest.mono (topLevel_subset (List.subset_cons_self item rest)))
  host := by
    rintro ⟨kvs, hlisten⟩
    obtain ⟨hempty, hgives⟩ := h.host ⟨kvs, .tail item hlisten⟩
    refine ⟨h.address (.inr rfl) hempty hgives hlisten, ?_⟩
    exact fun hrest => hgives (hrest.mono (topLevel_subset (List.subset_cons_self item rest)))
  store := by
    rintro ⟨other, hother, hmade⟩
    rw [item.store_next, h.store ⟨other, .tail item hother, hmade⟩, Option.none_or]
    by_contra hne
    rw [made_ne_none_iff] at hmade
    exact h.collection.block_head ((made_ne_none_iff item).mp hne) hother hmade

theorem Pending.get_after (h : Pending conf rest) (k : TextField)
    : (after conf rest).get k = Overwrite.last (fun item => item.written k) (conf.get k) rest := by
  apply Kids.get_after _ h
  intro conf item rest h
  exact ⟨item.get_next h.fits k, h.next⟩

theorem Pending.ok (h : Pending conf rest) (b : Bool)
    : (rest.foldl (fun r item => andThen r fun conf => item.next conf) (conf, b)).2 = (b && rest.all ConfItem.ok) := by
  induction rest generalizing conf b with
  | nil => exact (Bool.and_true b).symm
  | cons item rest ih =>
    rw [List.foldl_cons, List.all_cons, ← Bool.and_assoc, ← item.ok_next h.fits]
    exact ih h.next (b && (item.next conf).2)

theorem limits_of_not_mem {item : ConfItem} (h : nlimitKey ∉ item.keys) (nlimit : Fin 3 → LimitConfig)
    : item.limits nlimit = nlimit := by
  cases item with
  | keyValue kv =>
    apply if_neg
    intro hkey
    apply h
    rw [← hkey]
    apply List.mem_map_of_mem List.mem_cons_self
  | listen _ | log _ | store _ _ _ => rfl

def ConfItem.writtenElse : ConfItem → TextField → Option Bytes
  | .listen _, _ => none
  | item, k => item.written k

/--
A `listen` among the items that are left changes nothing.
-/
structure Deaf (conf : KidsConfig) (rest : List ConfItem) : Prop where
  port : conf.listenPort = []
  top : ¬Gives (topLevel rest) .port
  listen : ∀ kvs, .listen kvs ∈ rest → ∀ k, k = .socket ∨ k = .host ∨ k = .port → (evalKeyValues kvs).1.get k = []

theorem get_addListen (conf listen : KidsConfig) (ctx : ParseContext) (hport : conf.listenPort = [])
    (hlisten : ∀ k, k = .socket ∨ k = .host ∨ k = .port → listen.get k = []) (k : TextField)
    : (addListen conf listen ctx).1.get k = conf.get k := by
  unfold addListen
  split
  . rfl
  . next hfree =>
    rw [Bool.not_eq_true, Bool.or_eq_false_iff, Bool.not_eq_false', Bool.not_eq_false', List.isEmpty_iff,
      List.isEmpty_iff] at hfree
    cases k with
    | socket => exact (hlisten .socket (.inl rfl)).trans hfree.1.symm
    | host => exact (hlisten .host (.inr (.inl rfl))).trans hfree.2.symm
    | port => exact (hlisten .port (.inr (.inr rfl))).trans hport.symm
    | level | file | maxClients | workerThreads | ignoreCase => rfl

theorem Deaf.get_next (h : Deaf conf (item :: rest)) (k : TextField)
    : (item.next conf).1.get k = (item.writtenElse k).getD (conf.get k) := by
  cases item with
  | listen kvs => exact get_addListen conf _ .new h.port (h.listen kvs (.head rest)) k
  | keyValue _ | log _ | store _ _ _ =>
    apply ConfItem.get_next_of_not_listen
    intro kvs hlisten
    cases hlisten

theorem Deaf.next (h : Deaf conf (item :: rest)) : Deaf (item.next conf).1 rest where
  port := by
    apply (h.get_next .port).trans
    have hport : conf.get .port = [] := h.port
    rw [hport]
    cases item with
    | listen kvs => rfl
    | keyValue _ | log _ | store _ _ _ =>
      apply written_address (.inr (.inr rfl)) _ h.top
      nofun
  top := fun hgives => h.top (hgives.mono (topLevel_subset (List.subset_cons_self item rest)))
  listen := fun kvs hlisten => h.listen kvs (.tail item hlisten)

theorem Deaf.get_after (h : Deaf conf rest) (k : TextField)
    : (after conf rest).get k = Overwrite.last (fun item => item.writtenElse k) (conf.get k) rest := by
  apply Kids.get_after _ h
  intro conf item rest h
  exact ⟨h.get_next k, h.next⟩

theorem eq_of_length (hlen : items.length ≤ 1) {t u : ConfText} (ht : t.items.Perm items) (hu : u.items.Perm items)
    : t = u := by
  have htail (v : ConfText) (hv : v.items.Perm items) : v.tail = [] := by
    have hlength : v.tail.length + 1 = items.length := hv.length_eq
    apply List.eq_nil_of_length_eq_zero
    omega
  obtain ⟨a, ta⟩ := t
  obtain ⟨b, tb⟩ := u
  cases htail ⟨a, ta⟩ ht
  cases htail ⟨b, tb⟩ hu
  have hab : a = b := List.perm_singleton.mp (ht.trans hu.symm) |> List.head_eq_of_cons_eq
  rw [hab]

-- what two orders tell

theorem checked_conf (t : ConfText) : ∃ s, t.checked.2 = some { t.eval.1 with store := s } := by
  unfold ConfText.checked checkKidsConfig
  cases t.eval.2 with
  | false => exact ⟨t.eval.1.store, rfl⟩
  | true =>
    dsimp only
    cases t.eval.1.store with
    | none => exact ⟨_, rfl⟩
    | some s =>
      dsimp only
      cases checkStoreConfig s with
      | mk s' err => cases err <;> exact ⟨some s', rfl⟩

theorem eval_of_checked {t u : ConfText} (h : t.checked = u.checked)
    : (∀ k, t.eval.1.get k = u.eval.1.get k) ∧ t.eval.1.nlimit = u.eval.1.nlimit := by
  obtain ⟨s, hs⟩ := checked_conf t
  obtain ⟨s', hs'⟩ := checked_conf u
  rw [h, hs'] at hs
  have hconf := Option.some.inj hs
  refine ⟨?_, (congrArg KidsConfig.nlimit hconf).symm⟩
  intro k
  have hget := congrArg (fun conf => KidsConfig.get conf k) hconf
  cases k <;> exact hget.symm

theorem after_append (conf : KidsConfig) (l r : List ConfItem) : after conf (l ++ r) = after (after conf l) r :=
  List.foldl_append

theorem get_after_of_not_written (conf : KidsConfig) (h : ∀ item ∈ items, item.written k = none)
    : (after conf items).get k = conf.get k := by
  induction items generalizing conf with
  | nil => rfl
  | cons item items ih =>
    rw [List.forall_mem_cons] at h
    exact (ih (item.next conf).1 h.2).trans (item.get_next_of_not_written conf h.1)

theorem nlimit_after_of_not_mem (conf : KidsConfig) (h : ∀ item ∈ items, nlimitKey ∉ item.keys)
    : (after conf items).nlimit = conf.nlimit := by
  induction items generalizing conf with
  | nil => rfl
  | cons item items ih =>
    rw [List.forall_mem_cons] at h
    apply (ih (item.next conf).1 h.2).trans
    rw [item.nlimit_next, limits_of_not_mem h.1]

section

variable {t u : ConfText} {r : List ConfItem}

theorem perm_append (ht : (t.items ++ r).Perm items) (hu : u.items.Perm t.items) : (u.items ++ r).Perm items :=
  (hu.append_right r).trans ht

theorem Uniform.get (h : Uniform items) (ht : (t.items ++ r).Perm items) (hu : u.items.Perm t.items)
    (hr : ∀ item ∈ r, item.written k = none) : t.eval.1.get k = u.eval.1.get k := by
  have hchecked := h ⟨t.head, t.tail ++ r⟩ ⟨u.head, u.tail ++ r⟩ ht (perm_append ht hu)
  have hget := (eval_of_checked hchecked).1 k
  rw [eval_fst, eval_fst, after_append, after_append, get_after_of_not_written _ hr, get_after_of_not_written _ hr] at hget
  rw [eval_fst t, eval_fst u]
  exact hget

theorem Uniform.nlimit (h : Uniform items) (ht : (t.items ++ r).Perm items)
    (hu : u.items.Perm t.items)
    (hr : ∀ item ∈ r, nlimitKey ∉ item.keys) : t.eval.1.nlimit = u.eval.1.nlimit := by
  have hchecked := h ⟨t.head, t.tail ++ r⟩ ⟨u.head, u.tail ++ r⟩ ht (perm_append ht hu)
  have hnlimit := (eval_of_checked hchecked).2
  rw [eval_fst, eval_fst, after_append, after_append, nlimit_after_of_not_mem _ hr, nlimit_after_of_not_mem _ hr] at hnlimit
  rw [eval_fst t, eval_fst u]
  exact hnlimit

end

theorem get_first_of_not_mem {item : ConfItem} (h : k.key ∉ item.keys) : item.first.1.get k = [] := by
  rw [item.get_first]
  exact get_evalKeyValues_of_not_mem h

theorem get_first_keyValue_of_ne (kv : KeyValue) (hkey : kv.key = k.key) {j : TextField} (hne : j ≠ k)
    : (ConfItem.keyValue kv).first.1.get j = [] := by
  apply get_first_of_not_mem
  intro hmem
  have hsame : j.key = kv.key := List.mem_singleton.mp hmem
  exact hne (TextField.key_injective (hsame.trans hkey))

/--
The block writes the field, and is the one that does.
-/
def Owns (a : ConfItem) (k : TextField) : Prop :=
  (∃ kvs, a = .listen kvs) ∧ k = .port ∨ (∃ kvs, a = .log kvs) ∧ (k = .level ∨ k = .file)

theorem Owns.fits (h : Owns a k) {kv : KeyValue} (hkey : kv.key = k.key) : a.Fits (ConfItem.keyValue kv).first.1 where
  socket := by
    rintro ⟨kvs, rfl⟩
    rcases h with ⟨-, rfl⟩ | ⟨⟨log, hlog⟩, -⟩
    . exact get_first_keyValue_of_ne kv hkey (by decide : TextField.socket ≠ .port)
    . cases hlog
  host := by
    rintro ⟨kvs, rfl⟩
    rcases h with ⟨-, rfl⟩ | ⟨⟨log, hlog⟩, -⟩
    . exact get_first_keyValue_of_ne kv hkey (by decide : TextField.host ≠ .port)
    . cases hlog
  store := by
    intro hmade
    rcases h with ⟨⟨kvs, rfl⟩, -⟩ | ⟨⟨kvs, rfl⟩, -⟩ <;> exact absurd rfl hmade

theorem result_of_fits {t : ConfText} (h : t.Fits) : t.result = t.checked := if_pos h

end

end Kids
