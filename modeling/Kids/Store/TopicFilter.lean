import Kids.Conf.Instantiate
import Kids.Util.Glob

/-!
The topic filter of a store: what `Store::AddMessage` lets through against the `topic` statements of the block that
the store is made from.
-/

namespace Kids

open Bytes StringMatch

-- `topic_` is the filter and `topic` that of the message
def preAddMessage (nocase : Bool) (fuel : Nat) (topic_ topic : Bytes) : Except Fault Bool :=
  -- avoid string matching
  if topic_.length = 1 ∧ topic_.head? = some star then
    .ok true
  else
    stringmatchlen nocase fuel (.start topic_) (.start topic)

/--
`AddMessage` passes a message of this topic on to `DoAddMessage`.
-/
def Admits (nocase : Bool) (topic_ topic : Bytes) : Prop :=
  ∃ n, ∀ fuel ≥ n, preAddMessage nocase fuel topic_ topic = .ok true

def Matches (nocase : Bool) (pattern topic : Bytes) : Prop :=
  Returns nocase pattern topic (.ok true)

def StoreItem.topic? : StoreItem → Option Values
  | .keyValue kv => if kv.key = ofString "topic" then some kv.value else none
  | .store .. => none

namespace StoreBlock

def topicStatements (b : StoreBlock) : List Values :=
  b.body.filterMap StoreItem.topic?

def patterns (b : StoreBlock) : List Bytes :=
  b.topicStatements.flatMap Values.list

/--
The first pattern of the last `topic` statement.
-/
def lastPattern (b : StoreBlock) : Option Bytes :=
  b.topicStatements.getLast?.map Values.first

/--
The store that is configured by `conf` filters messages of this topic as the statements of its block say.
-/
structure FiltersRight (b : StoreBlock) (conf : StoreConfig) (nocase : Bool) (topic : Bytes) : Prop where
  any : b.topicStatements ≠ [] → (Admits nocase conf.topic topic ↔ ∃ p ∈ b.patterns, Matches nocase p topic)
  none : b.topicStatements = [] → Admits nocase conf.topic topic

end StoreBlock

theorem matches_star (nocase : Bool) (topic : Bytes) : Matches nocase [star] topic := by
  refine ⟨3, fun fuel hfuel => ?_⟩
  obtain ⟨fuel, rfl⟩ := Nat.exists_eq_add_of_le' hfuel
  rfl

theorem admits_iff_matches (nocase : Bool) (topic_ topic : Bytes)
    : Admits nocase topic_ topic ↔ Matches nocase topic_ topic := by
  by_cases hstar : topic_.length = 1 ∧ topic_.head? = some star
  . -- the shortcut does what the matcher would do
    have hfilter : topic_ = [star] := by
      obtain ⟨b, rfl⟩ := List.length_eq_one_iff.mp hstar.1
      rw [Option.some.inj hstar.2]
    apply iff_of_true
    . exact ⟨0, fun _ _ => if_pos hstar⟩
    . rw [hfilter]
      apply matches_star
  . have hcall (fuel : Nat) : preAddMessage nocase fuel topic_ topic =
        stringmatchlen nocase fuel (.start topic_) (.start topic) := if_neg hstar
    unfold Admits Matches Returns
    simp only [hcall]

theorem topic_evalBody (r : StoreConfig × Bool) (body : List StoreItem)
    : (evalBody r body).1.topic = ((body.filterMap StoreItem.topic?).getLast?.map Values.first).getD r.1.topic := by
  induction body generalizing r with
  | nil => simp [evalBody]
  | cons item body ih =>
    rw [evalBody, ih]
    cases item with
    | keyValue kv =>
      have hset : (andThen r fun conf => (StoreItem.keyValue kv).eval conf).1.topic = kv.over "topic" r.1.topic := by
        unfold andThen StoreItem.eval
        apply Field.topic.get_set r.1 kv
      rw [hset]
      unfold KeyValue.over
      by_cases hkey : kv.key = ofString "topic"
      . -- the statement counts unless another one comes behind it
        have hitem : StoreItem.topic? (.keyValue kv) = some kv.value := if_pos hkey
        rw [if_pos hkey, List.filterMap_cons_some hitem, List.getLast?_cons]
        cases (body.filterMap StoreItem.topic?).getLast? with
        | none => rfl
        | some values => rfl
      . have hitem : StoreItem.topic? (.keyValue kv) = none := if_neg hkey
        rw [if_neg hkey, List.filterMap_cons_none hitem]
    | store type bufferType inner =>
      have hkeep : (andThen r fun conf => (StoreItem.store type bufferType inner).eval conf).1.topic = r.1.topic := by
        simp only [StoreItem.eval_store]
        rfl
      rw [hkeep, List.filterMap_cons_none (by rfl)]

namespace StoreBlock

variable {b : StoreBlock} {conf : StoreConfig}

theorem topic_eval (b : StoreBlock) : b.eval.topic = b.lastPattern.getD [] := by
  have hset := Field.topic.get_setType (evalBody (.new, true) b.body).1 b.type b.bufferType
  exact hset.trans (topic_evalBody (.new, true) b.body)

theorem topic_of_passes (h : Passes b.eval conf)
    : conf.topic = if b.eval.topic = [] then ofString "*" else b.eval.topic := by
  rcases passes_cases h with ⟨-, sources, stores, -, -, -, -, rfl⟩ | ⟨-, -, -, rfl⟩
  . rw [defaultTopic_eq]
  . rw [defaultTopic_eq]

theorem ne_nil_of_lastPattern (hworded : Worded (bodyTokens b.body)) (h : b.lastPattern = some p) : p ≠ [] := by
  obtain ⟨values, hlast, rfl⟩ := Option.map_eq_some_iff.mp h
  obtain ⟨item, hitem, htopic⟩ := List.mem_filterMap.mp (List.mem_of_getLast? hlast)
  cases item with
  | store type bufferType inner => cases htopic
  | keyValue kv =>
    unfold StoreItem.topic? at htopic
    dsimp only at htopic
    split at htopic
    . cases htopic
      apply first_ne_nil kv
      intro v hv
      apply hworded v (tokens_subset hitem _)
      rw [StoreItem.tokens]
      apply hv
    . cases htopic

theorem lastPattern_mem (h : b.lastPattern = some p) : p ∈ b.patterns := by
  obtain ⟨values, hlast, rfl⟩ := Option.map_eq_some_iff.mp h
  apply List.mem_flatMap.mpr ⟨values, List.mem_of_getLast? hlast, _⟩
  apply List.head_mem

/--
A store filters a topic as its block says exactly if the topic matches none of the patterns, or matches the first one
of the last `topic` statement.
-/
theorem filtersRight_iff (b : StoreBlock) (hworded : Worded (bodyTokens b.body)) (hpasses : Passes b.eval conf)
    (nocase : Bool) (topic : Bytes)
    : b.FiltersRight conf nocase topic ↔
        ∀ p ∈ b.patterns, Matches nocase p topic → ∃ q, b.lastPattern = some q ∧ Matches nocase q topic := by
  have htopic := topic_of_passes hpasses
  rw [topic_eval] at htopic
  cases hlast : b.lastPattern with
  | none =>
    -- there is no statement
    have hnone : b.topicStatements = [] := by
      unfold lastPattern at hlast
      rw [Option.map_eq_none_iff, List.getLast?_eq_none_iff] at hlast
      apply hlast
    have hpatterns : b.patterns = [] := by
      unfold patterns
      rw [hnone]
      rfl
    apply iff_of_true
    . constructor
      . exact fun hne => absurd hnone hne
      . intro _
        rw [htopic, hlast, admits_iff_matches]
        apply matches_star
    . rw [hpatterns]
      apply List.forall_mem_nil
  | some q =>
    have hne := ne_nil_of_lastPattern hworded hlast
    rw [hlast, Option.getD_some, if_neg hne] at htopic
    have hsome : b.topicStatements ≠ [] := by
      intro hnone
      unfold lastPattern at hlast
      rw [hnone] at hlast
      cases hlast
    constructor
    . intro hright p hp hmatch
      refine ⟨q, rfl, ?_⟩
      rw [← admits_iff_matches, ← htopic]
      apply (hright.any hsome).mpr ⟨p, hp, hmatch⟩
    . intro hcovered
      constructor
      . intro _
        rw [htopic, admits_iff_matches]
        constructor
        . exact fun hmatch => ⟨q, lastPattern_mem hlast, hmatch⟩
        . rintro ⟨p, hp, hmatch⟩
          obtain ⟨q', hq', hmatch'⟩ := hcovered p hp hmatch
          cases hq'
          apply hmatch'
      . exact fun hnone => absurd hnone hsome

-- the example of a null store that ignores three kinds of topics, with shorter names
def ignoring : StoreBlock where
  type := ofString "null"
  bufferType := none
  body := [
    .keyValue ⟨ofString "topic", .single (ofString "a")⟩,
    .keyValue ⟨ofString "topic", .single (ofString "b")⟩
  ]

theorem worded_ignoring : Worded (bodyTokens ignoring.body) := by
  intro v hv
  rintro rfl
  revert hv
  decide

theorem passes_ignoring : Passes ignoring.eval ignoring.eval := by
  rfl

theorem filtersRight_iff_ignoring
    : ignoring.FiltersRight ignoring.eval false (ofString "b") ↔ ∀ p ∈ ignoring.patterns, Matches false p (ofString "b") →
        ∃ q, ignoring.lastPattern = some q ∧ Matches false q (ofString "b") :=
  filtersRight_iff ignoring worded_ignoring passes_ignoring false (ofString "b")

-- the first of the two statements is lost
theorem filtersRight_fails_first : ¬ignoring.FiltersRight ignoring.eval false (ofString "a") := by
  intro hright
  have hmatches (pattern : Bytes) {result : Bool}
      (h : expected false pattern (ofString "a") = .ok result) : Returns false pattern (ofString "a") (.ok result) := by
    rw [← h]
    apply returns_expected false pattern (by decide)
  have hfirst : Matches false (ofString "a") (ofString "a") := hmatches _ (by decide)
  have hlast : Returns false (ofString "b") (ofString "a") (.ok false) := hmatches _ (by decide)
  have hadmits := (hright.any (by decide)).mpr ⟨ofString "a", by decide, hfirst⟩
  rw [admits_iff_matches] at hadmits
  cases hlast.unique hadmits

end StoreBlock
end Kids
