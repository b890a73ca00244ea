import Kids.Conf.ParserLemmas

/-!
A text is read in one way only: the tokens of its items tell where each of them ends.
-/

namespace Kids

open Bytes YyParser

namespace YyParser

variable {r s : List Tok}

theorem idToken_inj (h : idToken v = idToken w) : v = w := by
  cases h
  rfl

theorem values_prefix (vs ws : List Bytes)
    (h : vs.map idToken ++ (tkSemicolon, none) :: r = ws.map idToken ++ (tkSemicolon, none) :: s)
    : vs = ws ∧ r = s := by
  induction vs generalizing ws with
  | nil =>
    cases ws with
    | nil => exact ⟨rfl, List.tail_eq_of_cons_eq h⟩
    | cons w ws => cases h
  | cons v vs ih =>
    cases ws with
    | nil => cases h
    | cons w ws =>
      have hrest := ih ws (List.tail_eq_of_cons_eq h)
      rw [idToken_inj (List.head_eq_of_cons_eq h), hrest.1]
      exact ⟨rfl, hrest.2⟩

theorem keyValue_prefix (kv kw : KeyValue) (h : kv.tokens ++ r = kw.tokens ++ s) : kv = kw ∧ r = s := by
  obtain ⟨key, values, hvalues⟩ := kv
  obtain ⟨key', values', hvalues'⟩ := kw
  simp only [KeyValue.tokens, List.append_assoc, List.cons_append, List.nil_append] at h
  have hkey : key = key' := idToken_inj (List.head_eq_of_cons_eq h)
  obtain ⟨rfl, hrest⟩ := values_prefix values values' (List.tail_eq_of_cons_eq h)
  rw [hkey]
  exact ⟨rfl, hrest⟩

theorem keyValues_prefix (kvs kws : List KeyValue)
    (h : kvs.flatMap KeyValue.tokens ++ (tkRp, none) :: r = kws.flatMap KeyValue.tokens ++ (tkRp, none) :: s)
    : kvs = kws ∧ r = s := by
  induction kvs generalizing kws with
  | nil =>
    cases kws with
    | nil => exact ⟨rfl, List.tail_eq_of_cons_eq h⟩
    | cons kw kws => cases h
  | cons kv kvs ih =>
    cases kws with
    | nil => cases h
    | cons kw kws =>
      rw [List.flatMap_cons, List.flatMap_cons, List.append_assoc, List.append_assoc] at h
      obtain ⟨rfl, hkvs⟩ := keyValue_prefix kv kw h
      obtain ⟨rfl, hrest⟩ := ih kws hkvs
      exact ⟨rfl, hrest⟩

theorem storeHead_prefix
    (h : storeHead type bufferType ++ (tkLp, none) :: r = storeHead type' bufferType' ++ (tkLp, none) :: s)
    : type = type' ∧ bufferType = bufferType' ∧ r = s := by
  cases bufferType <;> cases bufferType' <;> cases h <;> exact ⟨rfl, rfl, rfl⟩

mutual

theorem storeItem_prefix (item item' : StoreItem) (r s : List Tok) (h : item.tokens ++ r = item'.tokens ++ s)
    : item = item' ∧ r = s := by
  match item, item' with
  | .keyValue kv, .keyValue kw =>
    obtain ⟨rfl, hrest⟩ := keyValue_prefix kv kw h
    exact ⟨rfl, hrest⟩
  | .keyValue _, .store .. => cases h
  | .store .., .keyValue _ => cases h
  | .store type bufferType body, .store type' bufferType' body' =>
    simp only [StoreItem.tokens, blockTokens, List.append_assoc, List.cons_append, List.nil_append] at h
    obtain ⟨rfl, rfl, hbody⟩ := storeHead_prefix h
    obtain ⟨rfl, hrest⟩ := body_prefix body body' r s hbody
    exact ⟨rfl, hrest⟩

theorem body_prefix (body body' : List StoreItem) (r s : List Tok)
    (h : bodyTokens body ++ (tkRp, none) :: r = bodyTokens body' ++ (tkRp, none) :: s)
    : body = body' ∧ r = s := by
  match body, body' with
  | [], [] => exact ⟨rfl, List.tail_eq_of_cons_eq h⟩
  | [], .keyValue _ :: _ => cases h
  | [], .store .. :: _ => cases h
  | .keyValue _ :: _, [] => cases h
  | .store .. :: _, [] => cases h
  | item :: body, item' :: body' =>
    rw [bodyTokens, bodyTokens, List.append_assoc, List.append_assoc] at h
    obtain ⟨rfl, hbody⟩ := storeItem_prefix item item' _ _ h
    obtain ⟨rfl, hrest⟩ := body_prefix body body' r s hbody
    exact ⟨rfl, hrest⟩

end

theorem block_prefix {head : Tok} {kvs kws : List KeyValue}
    (h : blockTokens [head] (kvs.flatMap KeyValue.tokens) ++ r = blockTokens [head] (kws.flatMap KeyValue.tokens) ++ s)
    : kvs = kws ∧ r = s := by
  simp only [blockTokens, List.append_assoc, List.cons_append, List.nil_append] at h
  exact keyValues_prefix kvs kws (List.tail_eq_of_cons_eq (List.tail_eq_of_cons_eq h))

theorem confItem_prefix (item item' : ConfItem) (h : item.tokens ++ r = item'.tokens ++ s) : item = item' ∧ r = s := by
  match item, item' with
  | .keyValue kv, .keyValue kw =>
    obtain ⟨rfl, hrest⟩ := keyValue_prefix kv kw h
    exact ⟨rfl, hrest⟩
  | .listen kvs, .listen kws =>
    obtain ⟨rfl, hrest⟩ := block_prefix h
    exact ⟨rfl, hrest⟩
  | .log kvs, .log kws =>
    obtain ⟨rfl, hrest⟩ := block_prefix h
    exact ⟨rfl, hrest⟩
  | .store type bufferType body, .store type' bufferType' body' =>
    obtain ⟨hitem, hrest⟩ := storeItem_prefix (.store type bufferType body) (.store type' bufferType' body') r s h
    cases hitem
    exact ⟨rfl, hrest⟩
  | .keyValue _, .listen _ | .keyValue _, .log _ | .keyValue _, .store .. => cases h
  | .listen _, .keyValue _ | .listen _, .log _ | .listen _, .store .. => cases h
  | .log _, .keyValue _ | .log _, .listen _ | .log _, .store .. => cases h
  | .store .., .keyValue _ | .store .., .listen _ | .store .., .log _ => cases h

theorem items_injective (items items' : List ConfItem)
    (h : items.flatMap ConfItem.tokens = items'.flatMap ConfItem.tokens) : items = items' := by
  induction items generalizing items' with
  | nil =>
    cases items' with
    | nil => rfl
    | cons item' items' => cases item' <;> cases h
  | cons item items ih =>
    cases items' with
    | nil => cases item <;> cases h
    | cons item' items' =>
      rw [List.flatMap_cons, List.flatMap_cons] at h
      obtain ⟨rfl, hrest⟩ := confItem_prefix item item' h
      rw [ih items' hrest]

end YyParser

namespace ConfText

theorem tokens_injective {t u : ConfText} (h : t.tokens = u.tokens) : t = u := by
  have hitems : t.head :: t.tail = u.head :: u.tail := items_injective t.items u.items h
  cases t
  cases u
  cases hitems
  rfl

theorem reads_unique {t u : ConfText} {text : Bytes} (ht : t.Reads text) (hu : u.Reads text) : t = u :=
  tokens_injective (ht.2.symm.trans hu.2)

end ConfText
end Kids
