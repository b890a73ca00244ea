import Kids.Conf.Reading
import Kids.Store.Create
import Mathlib.Data.List.Forall2

/-!
What the check of a configuration is for: the stores that `Store::Create` makes of it. The check comes to the
stores of a `multiple`, a `priority` or a `buffer`, and does not look into a store of another type.
-/

namespace Kids

open Bytes YyParser

namespace StoreConfig

/--
The nodes of the tree of stores.
-/
inductive Node (root : StoreConfig) : StoreConfig → Prop
  | root : Node root root
  | child : Node root conf → s ∈ conf.stores → Node root s

-- the types whose stores are checked with them
def descends (type : Bytes) : Bool :=
  type == ofString "multiple" || type == ofString "priority" || type == ofString "buffer"

def known (type : Bytes) : Bool :=
  descends type || type == ofString "network" || type == ofString "file" || type == ofString "null"

/--
The fields that a store is created from.
-/
structure Filled (conf : StoreConfig) : Prop where
  topic : conf.topic ≠ []
  type : known conf.type = true
  buffer : conf.type = ofString "buffer" →
    ∃ primary secondary, conf.stores = [primary, secondary] ∧ primary.bufferType = ofString "primary" ∧
      secondary.bufferType = ofString "secondary"
  stores : conf.type = ofString "multiple" ∨ conf.type = ofString "priority" → conf.stores ≠ []
  address : conf.type = ofString "network" → conf.socket ≠ [] ∨ conf.host ≠ [] ∧ conf.port ≠ []
  path : conf.type = ofString "file" → conf.path ≠ []

/--
The stores of the checked tree are those of the text. Two stores of a buffer may have been swapped, and a topic
may have been filled in.
-/
inductive Rearranged : StoreConfig → StoreConfig → Prop
  | same (conf : StoreConfig) : Rearranged conf conf
  | checked {conf : StoreConfig} {sources stores : List StoreConfig} {topic : Bytes}
    : sources = conf.stores ∨ conf.type = ofString "buffer" ∧ sources = conf.stores.reverse →
      List.Forall₂ Rearranged sources stores →
      topic = (if conf.topic = [] then ofString "*" else conf.topic) →
      Rearranged conf { conf with stores := stores, topic := topic }

/--
The nodes below a node, each with whether the check comes to it. `checked` is that of the root.
-/
inductive Visits (root : StoreConfig) (checked : Bool) : Bool → StoreConfig → Prop
  | root : Visits root checked checked root
  | child : Visits root checked c conf → s ∈ conf.stores → Visits root checked (c && descends conf.type) s

-- what is left to be asked of a node of a tree that has passed the check
def Lacks (checked : Bool) (conf : StoreConfig) : Prop :=
  if checked then conf.type = ofString "file" ∧ conf.path = [] else ¬conf.Filled

theorem lacks_false (conf : StoreConfig) : Lacks false conf ↔ ¬conf.Filled :=
  Iff.rfl

theorem node_iff : Node root conf ↔ conf = root ∨ ∃ s ∈ root.stores, Node s conf := by
  constructor
  . intro h
    induction h with
    | root => exact .inl rfl
    | @child c s h hs ih =>
      rcases ih with rfl | ⟨t, ht, htree⟩
      . exact .inr ⟨s, hs, .root⟩
      . exact .inr ⟨t, ht, .child htree hs⟩
  . rintro (rfl | ⟨s, hs, h⟩)
    . exact .root
    . induction h with
      | root => exact .child .root hs
      | child _ ht ih => exact .child ih ht

theorem visits_iff : Visits root checked c conf ↔
    c = checked ∧ conf = root ∨ ∃ s ∈ root.stores, Visits s (checked && descends root.type) c conf := by
  constructor
  . intro h
    induction h with
    | root => exact .inl ⟨rfl, rfl⟩
    | @child c conf s h hs ih =>
      rcases ih with ⟨rfl, rfl⟩ | ⟨t, ht, hvisits⟩
      . exact .inr ⟨s, hs, .root⟩
      . exact .inr ⟨t, ht, .child hvisits hs⟩
  . rintro (⟨rfl, rfl⟩ | ⟨s, hs, h⟩)
    . exact .root
    . induction h with
      | root => exact .child .root hs
      | child _ ht ih => exact .child ih ht

theorem node_trans (h1 : Node root conf) (h2 : Node conf s) : Node root s := by
  induction h2 with
  | root => exact h1
  | child _ hs ih => exact .child ih hs

-- nothing below a node that is not checked is checked
theorem visits_false : Visits root false c conf ↔ c = false ∧ Node root conf := by
  constructor
  . intro h
    induction h with
    | root => exact ⟨rfl, .root⟩
    | child _ hs ih =>
      obtain ⟨rfl, hnode⟩ := ih
      exact ⟨rfl, .child hnode hs⟩
  . rintro ⟨rfl, h⟩
    induction h with
    | root => exact .root
    | child _ hs ih => exact .child ih hs

end StoreConfig

open StoreConfig

/--
The check is passed.
-/
def Passes (conf conf' : StoreConfig) : Prop :=
  checkStoreConfig conf = (conf', none)

theorem passes_checkStores (h : checkStores ss = (ss', none)) : List.Forall₂ Passes ss ss' := by
  induction ss generalizing ss' with
  | nil =>
    cases h
    exact .nil
  | cons s ss ih =>
    unfold checkStores at h
    split at h
    . cases h
    . next s' hs =>
      obtain ⟨rfl, hnone⟩ := Prod.mk.inj h
      exact .cons hs (ih (Prod.ext rfl hnone))

theorem checkBuffer_eq (h : checkBuffer conf secondary r1 r2 = (conf', none))
    : ∃ p s, r1 = (p, none) ∧ r2 = (s, none) ∧ conf' = { conf with stores := [p, s] }.defaultTopic := by
  unfold checkBuffer at h
  split at h
  . cases h
  . cases h
  . cases h
    exact ⟨_, _, rfl, rfl, rfl⟩

theorem passes_cases (h : Passes conf conf')
    : (descends conf.type = true ∧ ∃ sources stores, List.Forall₂ Passes sources stores ∧
        (sources = conf.stores ∨ conf.type = ofString "buffer" ∧ sources = conf.stores.reverse) ∧
        (conf.type = ofString "buffer" →
          ∃ primary secondary, sources = [primary, secondary] ∧ primary.bufferType = ofString "primary" ∧
            secondary.bufferType = ofString "secondary") ∧
        sources ≠ [] ∧ conf' = { conf with stores := stores }.defaultTopic) ∨
      (descends conf.type = false ∧ known conf.type = true ∧
        (conf.type = ofString "network" → conf.socket ≠ [] ∨ conf.host ≠ [] ∧ conf.port ≠ []) ∧
        conf' = conf.defaultTopic) := by
  obtain ⟨type, bufferType, socket, host, port, path, name, rotate, flush, success, topic, stores⟩ := conf
  unfold Passes checkStoreConfig at h
  dsimp only at h ⊢
  split at h
  . next hmultiple =>
    have hne : type ≠ ofString "buffer" := by
      rcases hmultiple with rfl | rfl <;> decide
    split at h
    . cases h
    next hstores =>
    rw [List.isEmpty_iff] at hstores
    split at h
    . cases h
    next stores' hcheck =>
    cases h
    refine .inl ⟨?_, stores, stores', passes_checkStores hcheck, .inl rfl, fun h => absurd h hne, hstores, rfl⟩
    rcases hmultiple with rfl | rfl <;> decide
  next hmultiple =>
  split at h
  . next hbuffer =>
    subst hbuffer
    split at h
    . next first second _ _ =>
      split at h
      . next hswap =>
        obtain ⟨p, s, hp, hs, rfl⟩ := checkBuffer_eq h
        exact .inl ⟨by decide, [second, first], [p, s], .cons hp (.cons hs .nil), .inr ⟨rfl, rfl⟩,
          fun _ => ⟨second, first, rfl, hswap.1, hswap.2⟩, List.cons_ne_nil _ _, rfl⟩
      . split at h
        . next horder =>
          obtain ⟨p, s, hp, hs, rfl⟩ := checkBuffer_eq h
          exact .inl ⟨by decide, [first, second], [p, s], .cons hp (.cons hs .nil), .inl rfl,
            fun _ => ⟨first, second, rfl, horder.1, horder.2⟩, List.cons_ne_nil _ _, rfl⟩
        . cases h
    . cases h
  next hbuffer =>
  split at h
  . next hnetwork =>
    subst hnetwork
    split at h
    . cases h
    next haddress =>
    cases h
    refine .inr ⟨by decide, by decide, fun _ => ?_, rfl⟩
    simp only [Bool.and_eq_true, Bool.or_eq_true, List.isEmpty_iff, not_and_or, not_or] at haddress
    exact haddress
  next hnetwork =>
  split at h
  . next hfile =>
    subst hfile
    cases h
    exact .inr ⟨by decide, by decide, fun h => absurd h hnetwork, rfl⟩
  split at h
  . next hnull =>
    subst hnull
    cases h
    exact .inr ⟨by decide, by decide, fun h => absurd h hnetwork, rfl⟩
  . cases h

section

variable {conf conf' : StoreConfig} {sources stores : List StoreConfig}

@[simp]
theorem defaultTopic_eq (conf : StoreConfig)
    : conf.defaultTopic = { conf with topic := if conf.topic = [] then ofString "*" else conf.topic } := by
  cases conf
  unfold defaultTopic
  simp only [List.isEmpty_iff]
  split <;> rfl

theorem defaultTopic_ne_nil (topic : Bytes) : (if topic = [] then ofString "*" else topic) ≠ [] := by
  split
  . decide
  . assumption

theorem allNodes_iff (P : StoreConfig → Prop)
    : (∀ c, Node conf c → P c) ↔ P conf ∧ ∀ s ∈ conf.stores, ∀ c, Node s c → P c := by
  constructor
  . intro h
    exact ⟨h conf .root, fun s hs c hc => h c (node_iff.mpr (.inr ⟨s, hs, hc⟩))⟩
  . rintro ⟨hroot, hstores⟩ c hc
    rcases node_iff.mp hc with rfl | ⟨s, hs, hc⟩
    . exact hroot
    . exact hstores s hs c hc

theorem allVisits_iff {checked : Bool} (P : Bool → StoreConfig → Prop)
    : (∀ ch c, Visits conf checked ch c → P ch c) ↔
        P checked conf ∧ ∀ s ∈ conf.stores, ∀ ch c, Visits s (checked && descends conf.type) ch c → P ch c := by
  constructor
  . intro h
    exact ⟨h checked conf .root, fun s hs ch c hc => h ch c (visits_iff.mpr (.inr ⟨s, hs, hc⟩))⟩
  . rintro ⟨hroot, hstores⟩ ch c hc
    rcases visits_iff.mp hc with ⟨rfl, rfl⟩ | ⟨s, hs, hc⟩
    . exact hroot
    . exact hstores s hs ch c hc

theorem allUnchecked_iff : (∀ ch c, Visits conf false ch c → ¬Lacks ch c) ↔ ∀ c, Node conf c → c.Filled := by
  constructor
  . intro h c hc
    have hlacks := h false c (visits_false.mpr ⟨rfl, hc⟩)
    rw [lacks_false, not_not] at hlacks
    exact hlacks
  . intro h ch c hc
    obtain ⟨rfl, hnode⟩ := visits_false.mp hc
    rw [lacks_false, not_not]
    exact h c hnode

theorem forall_mem_iff_of_forall₂ {P Q : StoreConfig → Prop}
    (h : List.Forall₂ (fun s s' => P s' ↔ Q s) sources stores) : (∀ s' ∈ stores, P s') ↔ ∀ s ∈ sources, Q s := by
  induction h with
  | nil => simp
  | cons hs _ ih => rw [List.forall_mem_cons, List.forall_mem_cons, hs, ih]

-- a store whose fields were checked
theorem filled_of_descends {topic : Bytes} (hdescends : descends conf.type = true) (hne : stores ≠ [])
    (htopic : topic ≠ [])
    (hbuffer : conf.type = ofString "buffer" →
      ∃ primary secondary, stores = [primary, secondary] ∧ primary.bufferType = ofString "primary" ∧
        secondary.bufferType = ofString "secondary")
    : Filled { conf with stores := stores, topic := topic } where
  topic := htopic
  type := by
    unfold known
    rw [hdescends]
    rfl
  buffer := hbuffer
  stores := fun _ => hne
  address := by
    intro htype
    dsimp only at htype
    rw [htype] at hdescends
    exact absurd hdescends (by decide)
  path := by
    intro htype
    dsimp only at htype
    rw [htype] at hdescends
    exact absurd hdescends (by decide)

theorem filled_leaf_iff (hdescends : descends conf.type = false) (hknown : known conf.type = true)
    (haddress : conf.type = ofString "network" → conf.socket ≠ [] ∨ conf.host ≠ [] ∧ conf.port ≠ [])
    : conf.defaultTopic.Filled ↔ ¬Lacks true conf := by
  unfold Lacks
  rw [if_pos rfl, defaultTopic_eq]
  have hleaf : ∀ type, descends type = true → conf.type ≠ type := by
    rintro type htype rfl
    rw [hdescends] at htype
    cases htype
  constructor
  . rintro hfilled ⟨htype, hpath⟩
    exact hfilled.path htype hpath
  . intro hpath
    exact {
      topic := defaultTopic_ne_nil conf.topic
      type := hknown
      buffer := fun htype => absurd htype (hleaf _ (by decide))
      stores := fun htype => absurd htype (not_or.mpr ⟨hleaf _ (by decide), hleaf _ (by decide)⟩)
      address := haddress
      path := fun htype hnil => hpath ⟨htype, hnil⟩
    }

theorem sizeOf_lt_of_mem {s : StoreConfig} (h : s ∈ conf.stores) : sizeOf s < sizeOf conf := by
  cases conf
  have hlt := List.sizeOf_lt_of_mem h
  simp only [StoreConfig.mk.sizeOf_spec]
  dsimp only at hlt
  omega

/--
What passes the check has the fields of each node if and only if none is missing where the check does not look.
-/
structure Sound (conf conf' : StoreConfig) : Prop where
  rearranged : Rearranged conf conf'
  bufferType : conf'.bufferType = conf.bufferType
  filled : (∀ c, Node conf' c → c.Filled) ↔ ∀ checked c, Visits conf true checked c → ¬Lacks checked c

theorem stores_ne_nil (h : List.Forall₂ Sound sources stores) (hne : sources ≠ []) : stores ≠ [] := by
  rintro rfl
  cases h
  exact hne rfl

theorem buffer_of_sound (h : List.Forall₂ Sound sources stores)
    (hsources : ∃ primary secondary, sources = [primary, secondary] ∧ primary.bufferType = ofString "primary" ∧
      secondary.bufferType = ofString "secondary")
    : ∃ primary secondary, stores = [primary, secondary] ∧ primary.bufferType = ofString "primary" ∧
        secondary.bufferType = ofString "secondary" := by
  obtain ⟨primary, secondary, rfl, hprimary, hsecondary⟩ := hsources
  cases h with | cons h1 h =>
  cases h with | cons h2 h =>
  cases h with | nil =>
  exact ⟨_, _, rfl, h1.bufferType.trans hprimary, h2.bufferType.trans hsecondary⟩

theorem sound_of_passes {conf conf' : StoreConfig} (h : Passes conf conf') : Sound conf conf' := by
  obtain ⟨hdescends, sources, stores, hpasses, hsources, hbuffer, hne, rfl⟩ | ⟨hdescends, hknown, haddress, rfl⟩ :=
    passes_cases h
  . have hmem : ∀ s, s ∈ sources ↔ s ∈ conf.stores := by
      intro s
      rcases hsources with rfl | ⟨-, rfl⟩
      . rfl
      . exact List.mem_reverse
    have hsound : List.Forall₂ Sound sources stores := by
      have hsmaller : ∀ s ∈ sources, sizeOf s < sizeOf conf := by
        intro s hs
        exact sizeOf_lt_of_mem ((hmem s).mp hs)
      have hboth := (List.forall₂_and_left _ _).mpr ⟨hsmaller, hpasses⟩
      exact List.Forall₂.imp (fun s s' ⟨hlt, hs⟩ => sound_of_passes hs) hboth
    rw [defaultTopic_eq]
    refine ⟨?_, rfl, ?_⟩
    . exact .checked hsources (List.Forall₂.imp (fun _ _ h => h.rearranged) hsound) rfl
    . have hfilled : Filled { conf with stores := stores, topic := if conf.topic = [] then ofString "*" else conf.topic } :=
        filled_of_descends hdescends (stores_ne_nil hsound hne) (defaultTopic_ne_nil conf.topic)
          fun htype => buffer_of_sound hsound (hbuffer htype)
      have hlacks : ¬Lacks true conf := by
        rintro ⟨htype, -⟩
        rw [htype] at hdescends
        exact absurd hdescends (by decide)
      rw [allNodes_iff, allVisits_iff, hdescends, and_iff_right hfilled, and_iff_right hlacks]
      rw [forall_mem_iff_of_forall₂ (List.Forall₂.imp (fun _ _ h => h.filled) hsound)]
      simp only [hmem, Bool.and_self]
  . refine ⟨?_, by rw [defaultTopic_eq], ?_⟩
    . rw [defaultTopic_eq]
      exact .checked (.inl rfl) (List.forall₂_same.mpr fun s _ => .same s) rfl
    . rw [allNodes_iff, allVisits_iff, hdescends, filled_leaf_iff hdescends hknown haddress]
      simp only [Bool.and_false, allUnchecked_iff, defaultTopic_eq]
termination_by sizeOf conf

end

namespace StoreConfig

/--
A store can be made of the node, and it is the one that the node asks for.
-/
structure Ready (conf : StoreConfig) : Prop where
  topic : conf.topic ≠ []
  created : ∃ store, create conf = some (some store) ∧ store.type = conf.type
  buffer : conf.type = ofString "buffer" →
    ∃ primary secondary, conf.stores = [primary, secondary] ∧ primary.bufferType = ofString "primary" ∧
      secondary.bufferType = ofString "secondary"
  stores : conf.type = ofString "multiple" ∨ conf.type = ofString "priority" → conf.stores ≠ []
  address : conf.type = ofString "network" → conf.socket ≠ [] ∨ conf.host ≠ [] ∧ conf.port ≠ []
  path : conf.type = ofString "file" → conf.path ≠ []

theorem createAll_isSome (h : ∀ s ∈ ss, ∃ store, create s = some (some store))
    : ∃ stores, createAll ss = some stores := by
  induction ss with
  | nil => exact ⟨[], by rw [createAll]⟩
  | cons s ss ih =>
    rw [List.forall_mem_cons] at h
    obtain ⟨store, hstore⟩ := h.1
    obtain ⟨stores, hstores⟩ := ih h.2
    exact ⟨store :: stores, by rw [createAll, hstore, hstores]; rfl⟩

theorem known_of_create {store : StoreObj} (h : create conf = some (some store)) : known conf.type = true := by
  by_contra hunknown
  cases conf
  unfold create at h
  simp only [known, descends, Bool.or_eq_true, beq_iff_eq, not_or] at hunknown
  simp [hunknown] at h

theorem createFile_isSome {conf : StoreConfig} (h : conf.path ≠ []) : ∃ store, conf.createFile = some store := by
  unfold createFile
  rw [List.getLast?_eq_some_getLast h]
  exact ⟨_, rfl⟩

theorem createFile_type {conf : StoreConfig} {store : StoreObj} (h : conf.createFile = some store)
    : store.type = ofString "file" := by
  unfold createFile at h
  split at h
  . cases h
  . cases h
    rfl

-- nothing is missing in the tree, so each constructor finds what it takes
theorem create_of_filled {conf : StoreConfig} (h : ∀ c, Node conf c → c.Filled)
    : ∃ store, create conf = some (some store) ∧ store.type = conf.type := by
  have hfilled := h conf .root
  have hstores : ∀ s ∈ conf.stores, ∃ store, create s = some (some store) := by
    intro s hs
    have hlt := sizeOf_lt_of_mem hs
    obtain ⟨store, hstore, -⟩ := create_of_filled fun c hc => h c (node_iff.mpr (.inr ⟨s, hs, hc⟩))
    exact ⟨store, hstore⟩
  obtain ⟨type, bufferType, socket, host, port, path, name, rotate, flush, success, topic, stores⟩ := conf
  dsimp only at hstores ⊢
  have htype := hfilled.type
  simp only [known, descends, Bool.or_eq_true, beq_iff_eq] at htype
  unfold create
  rcases htype with ((((rfl | rfl) | rfl) | rfl) | rfl) | rfl
  . obtain ⟨objs, hobjs⟩ := createAll_isSome hstores
    rw [if_pos rfl, hobjs]
    exact ⟨_, rfl, rfl⟩
  . obtain ⟨objs, hobjs⟩ := createAll_isSome hstores
    rw [if_neg (by decide), if_neg (by decide), if_neg (by decide), if_neg (by decide), if_neg (by decide),
      if_pos rfl, hobjs]
    exact ⟨_, rfl, rfl⟩
  . obtain ⟨primary, secondary, hboth, -, -⟩ := hfilled.buffer rfl
    dsimp only at hboth
    subst hboth
    obtain ⟨p, hp⟩ := hstores primary (by simp)
    obtain ⟨s, hs⟩ := hstores secondary (by simp)
    rw [if_neg (by decide), if_pos rfl]
    dsimp only
    rw [hp, hs]
    exact ⟨_, rfl, rfl⟩
  . rw [if_neg (by decide), if_neg (by decide), if_pos rfl]
    exact ⟨_, rfl, rfl⟩
  . rw [if_neg (by decide), if_neg (by decide), if_neg (by decide), if_pos rfl]
    obtain ⟨store, hstore⟩ := createFile_isSome (hfilled.path rfl)
    rw [hstore]
    exact ⟨store, rfl, createFile_type hstore⟩
  . rw [if_neg (by decide), if_neg (by decide), if_neg (by decide), if_neg (by decide), if_pos rfl]
    exact ⟨_, rfl, rfl⟩
termination_by sizeOf conf

theorem ready_iff_filled (root : StoreConfig) : (∀ c, Node root c → c.Ready) ↔ ∀ c, Node root c → c.Filled := by
  constructor
  . intro h c hc
    have hready := h c hc
    obtain ⟨store, hcreate, -⟩ := hready.created
    exact ⟨hready.topic, known_of_create hcreate, hready.buffer, hready.stores, hready.address, hready.path⟩
  . intro h c hc
    have hfilled := h c hc
    have hbelow : ∀ d, Node c d → d.Filled := by
      intro d hd
      exact h d (node_trans hc hd)
    exact ⟨hfilled.topic, create_of_filled hbelow, hfilled.buffer, hfilled.stores, hfilled.address, hfilled.path⟩

end StoreConfig

end Kids
