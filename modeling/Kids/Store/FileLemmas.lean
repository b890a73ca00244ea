import Kids.Store.File

/-!
What is read back from a buffer file, whole or cut off at some byte.
-/

namespace Kids

theorem intOfBytes_sizeBytes (h : size < 2 ^ 31)
    : intOfBytes (.ofNat size) (.ofNat (size / 256)) (.ofNat (size / 65536)) (.ofNat (size / 16777216)) = size := by
  unfold intOfBytes
  simp only [UInt8.toNat_ofNat']
  have hsum : size % 2 ^ 8 + 256 * (size / 256 % 2 ^ 8) + 65536 * (size / 65536 % 2 ^ 8) +
      16777216 * (size / 16777216 % 2 ^ 8) = size := by
    omega
  rw [hsum, if_pos h]

namespace File

def field (s : Sds) : Bytes :=
  sizeBytes s.len ++ s.data

def record (m : Message) : Bytes :=
  field m.topic ++ field m.content

theorem addMessage_eq (file : Bytes) (m : Message) : addMessage file m = file ++ record m := by
  simp [addMessage, write, record, field, Sds.len]

theorem addMessages_eq (file : Bytes) (ms : List Message)
    : addMessages file ms = file ++ (ms.map record).flatten := by
  unfold addMessages
  induction ms generalizing file with
  | nil => simp
  | cons m ms ih =>
    rw [List.foldl_cons, ih, addMessage_eq]
    simp

theorem length_sizeBytes (size : Nat) : (sizeBytes size).length = 4 := rfl

theorem length_field (s : Sds) : (field s).length = 4 + s.len := by
  rw [field, List.length_append, length_sizeBytes, Sds.len]

theorem readSds_sizeBytes (s : Sds) (file : Bytes) : readSds (sizeBytes s.len ++ file) = read file s.len s.len_lt := by
  have hsize := intOfBytes_sizeBytes s.len_lt
  have hnew : sdsnewlen (s.len : Int) = .ok () := by
    unfold sdsnewlen
    rw [if_pos (by omega)]
  unfold Sds.len at hnew ⊢
  simp only [sizeBytes, List.cons_append, List.nil_append, readSds, hsize, hnew, Int.toNat_natCast]

theorem readSds_field (hs : s.data ≠ []) (rest : Bytes) : readSds (field s ++ rest) = .ok (s, rest) := by
  have hpos := List.length_pos_of_ne_nil hs
  rw [field, List.append_assoc, readSds_sizeBytes]
  unfold read Sds.len
  rw [if_neg (by rw [List.length_append]; omega)]
  simp

theorem readSds_empty (hs : s.data = []) (rest : Bytes) : readSds (field s ++ rest) = .error .failed := by
  rw [field, List.append_assoc, readSds_sizeBytes]
  unfold read Sds.len
  rw [if_pos (by simp [hs])]

theorem readSds_take (s : Sds) (hk : k < (field s).length) : readSds ((field s).take k) = .error .failed := by
  rw [length_field] at hk
  rcases Nat.lt_or_ge k 4 with hlt | hge
  . -- not even the size is whole
    have hlen : ((field s).take k).length < 4 := by
      rw [List.length_take]
      omega
    generalize (field s).take k = file at hlen
    match file with
    | [] => rfl
    | [_] => rfl
    | [_, _] => rfl
    | [_, _, _] => rfl
    | _ :: _ :: _ :: _ :: _ =>
      simp only [List.length_cons] at hlen
      omega
  . rw [field, List.take_append, length_sizeBytes, List.take_of_length_le (by rw [length_sizeBytes]; omega)]
    rw [readSds_sizeBytes]
    unfold read
    rw [if_pos]
    right
    rw [List.length_take]
    omega

theorem readMessage_record (htopic : m.topic.data ≠ []) (hcontent : m.content.data ≠ []) (rest : Bytes)
    : readMessage (record m ++ rest) = .ok (m, rest) := by
  unfold readMessage
  rw [record, List.append_assoc, readSds_field htopic]
  simp only [readSds_field hcontent]

theorem readMessage_empty (h : m.topic.data = [] ∨ m.content.data = []) (rest : Bytes)
    : readMessage (record m ++ rest) = .error .failed := by
  unfold readMessage
  rw [record, List.append_assoc]
  by_cases htopic : m.topic.data = []
  . rw [readSds_empty htopic]
  . rw [readSds_field htopic]
    simp only [readSds_empty (h.resolve_left htopic)]

theorem readMessage_take (htopic : m.topic.data ≠ []) (hk : k < (record m).length)
    : readMessage ((record m).take k) = .error .failed := by
  rw [record, List.length_append] at hk
  unfold readMessage
  rw [record]
  rcases Nat.lt_or_ge k (field m.topic).length with hlt | hge
  . rw [List.take_append_of_le_length (Nat.le_of_lt hlt), readSds_take _ hlt]
  . rw [List.take_append, List.take_of_length_le hge, readSds_field htopic]
    simp only [readSds_take m.content (k := k - (field m.topic).length) (by omega)]

theorem getMessages_cons (h : readMessage file = .ok (m, rest))
    : getMessages file = (getMessages rest).map (m :: .) := by
  rw [getMessages]
  split
  . next h' => rw [h] at h'; cases h'
  . next h' => rw [h] at h'; cases h'
  . next h' =>
    rw [h] at h'
    cases h'
    rfl

theorem getMessages_failed (h : readMessage file = .error .failed) : getMessages file = some [] := by
  rw [getMessages]
  split
  . next h' => rw [h] at h'; cases h'
  . rfl
  . next h' => rw [h] at h'; cases h'

def complete (k : Nat) : List Message → List Message
  | [] => []
  | m :: ms => if (record m).length ≤ k then m :: complete (k - (record m).length) ms else []

theorem complete_isPrefix (k : Nat) (ms : List Message) : complete k ms <+: ms := by
  induction ms generalizing k with
  | nil => exact List.prefix_refl _
  | cons m ms ih =>
    rw [complete]
    split
    . rw [List.cons_prefix_cons]
      exact ⟨rfl, ih _⟩
    . exact List.nil_prefix

def NonEmpty (m : Message) : Prop :=
  m.topic.data ≠ [] ∧ m.content.data ≠ []

theorem getMessages_take (ms : List Message) (h : ∀ m ∈ ms, NonEmpty m) (k : Nat)
    : getMessages ((ms.map record).flatten.take k) = some (complete k ms) := by
  induction ms generalizing k with
  | nil =>
    rw [List.map_nil, List.flatten_nil, List.take_nil]
    apply getMessages_failed
    rfl
  | cons m ms ih =>
    obtain ⟨htopic, hcontent⟩ := h m List.mem_cons_self
    rw [List.map_cons, List.flatten_cons, complete]
    split
    . next hle =>
      rw [List.take_append, List.take_of_length_le hle]
      rw [getMessages_cons (readMessage_record htopic hcontent _)]
      rw [ih (fun m hm => h m (List.mem_cons_of_mem _ hm))]
      rfl
    . next hgt =>
      rw [List.take_append_of_le_length (by omega)]
      apply getMessages_failed
      apply readMessage_take htopic
      omega

theorem getMessages_flatten (ms : List Message) (h : ∀ m ∈ ms, NonEmpty m) (rest : Bytes)
    : getMessages ((ms.map record).flatten ++ rest) = (getMessages rest).map (ms ++ .) := by
  induction ms with
  | nil => simp
  | cons m ms ih =>
    obtain ⟨htopic, hcontent⟩ := h m List.mem_cons_self
    rw [List.map_cons, List.flatten_cons, List.append_assoc]
    rw [getMessages_cons (readMessage_record htopic hcontent _)]
    rw [ih (fun m hm => h m (List.mem_cons_of_mem _ hm)), Option.map_map]
    rfl

theorem getMessages_nil : getMessages [] = some [] := by
  apply getMessages_failed
  rfl

-- an empty topic or content stops the reading, so that fewer messages come back
theorem nonEmpty_of_getMessages (ms : List Message) (h : getMessages (ms.map record).flatten = some ms)
    : ∀ m ∈ ms, NonEmpty m := by
  induction ms with
  | nil => simp
  | cons m ms ih =>
    rw [List.map_cons, List.flatten_cons] at h
    by_cases hm : NonEmpty m
    . rw [getMessages_cons (readMessage_record hm.1 hm.2 _)] at h
      rw [Option.map_eq_some_iff] at h
      obtain ⟨ms', hms', heq⟩ := h
      cases heq
      intro m' hm'
      rcases List.mem_cons.mp hm' with rfl | hm'
      . exact hm
      . exact ih hms' m' hm'
    . have hempty : m.topic.data = [] ∨ m.content.data = [] := by
        unfold NonEmpty at hm
        rw [not_and_or, not_not, not_not] at hm
        exact hm
      rw [getMessages_failed (readMessage_empty hempty _)] at h
      cases h

/--
A buffer file gives back the messages written to it, and after a cut at any byte those that are written
completely, if and only if none of them has an empty topic or an empty content.
-/
theorem getMessages_addMessages_iff (ms : List Message)
    : (getMessages (addMessages [] ms) = some ms ∧
          ∀ k, getMessages ((addMessages [] ms).take k) = some (complete k ms) ∧ complete k ms <+: ms) ↔
        ∀ m ∈ ms, m.topic.data ≠ [] ∧ m.content.data ≠ [] := by
  rw [addMessages_eq, List.nil_append]
  constructor
  . intro h
    exact nonEmpty_of_getMessages ms h.1
  . intro h
    refine ⟨?_, fun k => ⟨getMessages_take ms h k, complete_isPrefix k ms⟩⟩
    have hall := getMessages_flatten ms h []
    rw [List.append_nil, getMessages_nil] at hall
    simpa using hall

theorem getMessages_empty_content
    : ¬getMessages (addMessages [] [⟨⟨[97], by decide⟩, ⟨[], by decide⟩⟩, ⟨⟨[97], by decide⟩, ⟨[98], by decide⟩⟩]) =
        some [⟨⟨[97], by decide⟩, ⟨[], by decide⟩⟩, ⟨⟨[97], by decide⟩, ⟨[98], by decide⟩⟩] := by
  rw [addMessages_eq, List.nil_append, List.map_cons, List.flatten_cons]
  rw [getMessages_failed (readMessage_empty (.inr rfl) _)]
  simp

end File
end Kids
