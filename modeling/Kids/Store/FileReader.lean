import Kids.Store.FileLemmas

/-!
`GetOldestMessages` on a file with any bytes: which lengths it passes on, and what it takes for messages.
-/

namespace Kids
namespace File

/--
A length that `sdsnewlen` and then `File::Read` are called with, and how many bytes the file has behind it.
-/
structure Asked where
  size : Int
  remaining : Nat

/--
One round of the loop: the lengths that were read, and the message if there is one.
-/
structure Round where
  asked : List Asked
  message : Option Message

def asks (file : Bytes) : List Asked :=
  match file with
  | a :: b :: c :: d :: file => [⟨intOfBytes a b c d, file.length⟩]
  | _ => []

-- the content is only asked for behind a topic
def asksMessage (file : Bytes) : List Asked :=
  match readSds file with
  | .error _ => asks file
  | .ok (_, rest) => asks file ++ asks rest

def rounds (file : Bytes) : List Round :=
  match h : readMessage file with
  | .error _ => [⟨asksMessage file, none⟩]
  | .ok (m, rest) =>
    have := length_of_readMessage h
    ⟨asksMessage file, some m⟩ :: rounds rest
termination_by file.length

/--
The lengths that are passed on are not negative, a record with a length beyond the end of the file is rejected, and
the messages are the records that the file begins with.
-/
structure Sound (file : Bytes) : Prop where
  nonneg : ∀ r ∈ rounds file, ∀ ask ∈ r.asked, 0 ≤ ask.size
  rejected : ∀ r ∈ rounds file, ∀ ask ∈ r.asked, ask.remaining < ask.size → r.message = none
  messages : getMessages file = some ((rounds file).filterMap Round.message)
  records : ∃ rest, file = addMessages [] ((rounds file).filterMap Round.message) ++ rest

/--
Behind some whole fields that are not empty, the file has a length with its highest bit set.
-/
def HasNegativeLength (file : Bytes) : Prop :=
  ∃ (fields : List Sds) (a b c d : UInt8) (rest : Bytes), (∀ s ∈ fields, s.data ≠ []) ∧ 128 ≤ d.toNat ∧
    file = (fields.map field).flatten ++ a :: b :: c :: d :: rest

section

variable {file rest : Bytes} {s : Sds} {m : Message} {a b c d : UInt8}

theorem intOfBytes_neg_iff : intOfBytes a b c d < 0 ↔ 128 ≤ d.toNat := by
  have ha := a.toNat_lt
  have hb := b.toNat_lt
  have hc := c.toNat_lt
  have hd := d.toNat_lt
  unfold intOfBytes
  dsimp only
  split <;> omega

theorem sizeBytes_intOfBytes (h : 0 ≤ intOfBytes a b c d) : sizeBytes (intOfBytes a b c d).toNat = [a, b, c, d] := by
  have ha := a.toNat_lt
  have hb := b.toNat_lt
  have hc := c.toNat_lt
  have hd := d.toNat_lt
  have hpos := mt intOfBytes_neg_iff.mpr (Int.not_lt.mpr h)
  have hvalue : (intOfBytes a b c d).toNat = a.toNat + 256 * b.toNat + 65536 * c.toNat + 16777216 * d.toNat := by
    unfold intOfBytes
    dsimp only
    rw [if_pos (by omega)]
    rfl
  unfold sizeBytes
  rw [hvalue]
  simp only [List.cons.injEq, and_true, ← UInt8.toNat_inj, UInt8.toNat_ofNat']
  omega

theorem field_of_readSds (h : readSds file = .ok (s, rest)) : file = field s ++ rest ∧ s.data ≠ [] := by
  unfold readSds at h
  split at h
  . next a b c d file =>
    split at h
    . cases h
    . next hnew =>
      have hsign : 0 ≤ intOfBytes a b c d := by
        unfold sdsnewlen at hnew
        split at hnew
        . assumption
        . split at hnew
          . cases hnew
          . cases hnew
      unfold read at h
      split at h
      . cases h
      . next hsize =>
        cases h
        obtain ⟨hne, hle⟩ := not_or.mp hsize
        have hlen : (file.take (intOfBytes a b c d).toNat).length = (intOfBytes a b c d).toNat := by
          rw [List.length_take]
          omega
        refine ⟨?_, ?_⟩
        . unfold field Sds.len
          dsimp only
          rw [hlen, sizeBytes_intOfBytes hsign, List.append_assoc, List.take_append_drop]
          rfl
        . apply List.ne_nil_of_length_pos
          dsimp only
          rw [hlen]
          omega
  . cases h

theorem record_of_readMessage (h : readMessage file = .ok (m, rest)) : file = record m ++ rest := by
  unfold readMessage at h
  split at h
  . cases h
  . next htopic =>
    split at h
    . cases h
    . next hcontent =>
      cases h
      obtain ⟨htopic, -⟩ := field_of_readSds htopic
      obtain ⟨hcontent, -⟩ := field_of_readSds hcontent
      rw [htopic, hcontent, record, List.append_assoc]

theorem asks_field (s : Sds) (rest : Bytes) : asks (field s ++ rest) = [⟨s.len, (s.data ++ rest).length⟩] := by
  have hsize : intOfBytes _ _ _ _ = (s.data.length : Int) := intOfBytes_sizeBytes s.len_lt
  unfold field asks sizeBytes Sds.len
  simp only [List.cons_append, List.nil_append, hsize]

theorem asks_of_readSds (h : readSds file = .ok (s, rest)) {ask : Asked} (hask : ask ∈ asks file)
    : 0 ≤ ask.size ∧ ask.size ≤ ask.remaining := by
  obtain ⟨rfl, -⟩ := field_of_readSds h
  rw [asks_field, List.mem_singleton] at hask
  subst hask
  dsimp only
  rw [List.length_append, Sds.len]
  omega

theorem asks_of_outOfBounds (h : readSds file = .error .outOfBounds) : ∃ ask ∈ asks file, ask.size < 0 := by
  unfold readSds at h
  split at h
  . next a b c d file =>
    refine ⟨_, List.mem_singleton_self _, ?_⟩
    split at h
    . next hnew =>
      unfold sdsnewlen at hnew
      split at hnew
      . cases hnew
      . next hsign => exact Int.not_le.mp hsign
    . unfold read at h
      split at h
      . cases h
      . cases h
  . cases h

-- the negative length is behind the field, not in it
theorem hasNegativeLength_field (h : readSds file = .ok (s, rest))
    : HasNegativeLength file ↔ HasNegativeLength rest := by
  obtain ⟨hfile, hne⟩ := field_of_readSds h
  constructor
  . rintro ⟨fields, a, b, c, d, tail, hfields, hsign, heq⟩
    cases fields with
    | nil =>
      have hasks : asks file = [⟨intOfBytes a b c d, tail.length⟩] := by
        rw [heq]
        rfl
      obtain ⟨hnonneg, -⟩ := asks_of_readSds h (hasks ▸ List.mem_singleton_self _)
      have hneg := intOfBytes_neg_iff (a := a) (b := b) (c := c) |>.mpr hsign
      dsimp only at hnonneg
      omega
    | cons s' fields =>
      obtain ⟨hs', hothers⟩ := List.forall_mem_cons.mp hfields
      rw [List.map_cons, List.flatten_cons, List.append_assoc] at heq
      have hread := readSds_field hs' ((fields.map field).flatten ++ a :: b :: c :: d :: tail)
      rw [← heq, h] at hread
      cases hread
      exact ⟨fields, a, b, c, d, tail, hothers, hsign, rfl⟩
  . rintro ⟨fields, a, b, c, d, tail, hfields, hsign, rfl⟩
    refine ⟨s :: fields, a, b, c, d, tail, List.forall_mem_cons.mpr ⟨hne, hfields⟩, hsign, ?_⟩
    rw [hfile, List.map_cons, List.flatten_cons, List.append_assoc]

theorem hasNegativeLength_failed {e : ReadError} (h : readSds file = .error e)
    : HasNegativeLength file ↔ ∃ ask ∈ asks file, ask.size < 0 := by
  constructor
  . rintro ⟨fields, a, b, c, d, tail, hfields, hsign, rfl⟩
    cases fields with
    | nil => exact ⟨_, List.mem_singleton_self _, intOfBytes_neg_iff.mpr hsign⟩
    | cons s fields =>
      obtain ⟨hs, -⟩ := List.forall_mem_cons.mp hfields
      rw [List.map_cons, List.flatten_cons, List.append_assoc, readSds_field hs] at h
      cases h
  . rintro ⟨ask, hask, hneg⟩
    unfold asks at hask
    split at hask
    . next a b c d tail =>
      rw [List.mem_singleton] at hask
      subst hask
      exact ⟨[], a, b, c, d, tail, nofun, intOfBytes_neg_iff.mp hneg, rfl⟩
    . cases hask

theorem readMessage_cases (file : Bytes)
    : (∃ e, readSds file = .error e ∧ readMessage file = .error e ∧ asksMessage file = asks file) ∨
      (∃ topic rest e, readSds file = .ok (topic, rest) ∧ readSds rest = .error e ∧ readMessage file = .error e ∧
        asksMessage file = asks file ++ asks rest) ∨
      ∃ topic behind content rest, readSds file = .ok (topic, behind) ∧ readSds behind = .ok (content, rest) ∧
        readMessage file = .ok (⟨topic, content⟩, rest) ∧ asksMessage file = asks file ++ asks behind := by
  unfold readMessage asksMessage
  cases htopic : readSds file with
  | error e => exact .inl ⟨e, rfl, rfl, rfl⟩
  | ok r =>
    obtain ⟨topic, behind⟩ := r
    dsimp only
    cases hcontent : readSds behind with
    | error e => exact .inr (.inl ⟨topic, behind, e, rfl, hcontent, rfl, rfl⟩)
    | ok r =>
      obtain ⟨content, rest⟩ := r
      exact .inr (.inr ⟨topic, behind, content, rest, rfl, hcontent, rfl, rfl⟩)

theorem rounds_failed {e : ReadError} (h : readMessage file = .error e) : rounds file = [⟨asksMessage file, none⟩] := by
  rw [rounds]
  split
  . rfl
  . next h' =>
    rw [h] at h'
    cases h'

theorem rounds_cons (h : readMessage file = .ok (m, rest))
    : rounds file = ⟨asksMessage file, some m⟩ :: rounds rest := by
  rw [rounds]
  split
  . next h' =>
    rw [h] at h'
    cases h'
  . next h' =>
    rw [h] at h'
    cases h'
    rfl

theorem asks_negative_iff (file : Bytes)
    : (∃ r ∈ rounds file, ∃ ask ∈ r.asked, ask.size < 0) ↔ HasNegativeLength file := by
  have hfield : ∀ {file : Bytes} {s : Sds} {rest : Bytes}, readSds file = .ok (s, rest) →
      ∀ ask ∈ asks file, ¬ask.size < 0 :=
    fun h ask hask => Int.not_lt.mpr (asks_of_readSds h hask).1
  generalize hlen : file.length = len
  induction len using Nat.strong_induction_on generalizing file with
  | _ len ih =>
    obtain ⟨e, htopic, hread, hasks⟩ | ⟨topic, rest, e, htopic, hcontent, hread, hasks⟩ |
      ⟨topic, behind, content, rest, htopic, hcontent, hread, hasks⟩ := readMessage_cases file
    . rw [hasNegativeLength_failed htopic, rounds_failed hread, hasks]
      simp
    . rw [hasNegativeLength_field htopic, hasNegativeLength_failed hcontent, rounds_failed hread, hasks]
      constructor
      . rintro ⟨r, hr, ask, hask, hneg⟩
        rw [List.mem_singleton] at hr
        subst hr
        rcases List.mem_append.mp hask with hask | hask
        . exact absurd hneg (hfield htopic ask hask)
        . exact ⟨ask, hask, hneg⟩
      . rintro ⟨ask, hask, hneg⟩
        exact ⟨_, List.mem_singleton_self _, ask, List.mem_append_right _ hask, hneg⟩
    . have hrest := ih rest.length (hlen ▸ length_of_readMessage hread) rest rfl
      rw [hasNegativeLength_field htopic, hasNegativeLength_field hcontent, rounds_cons hread, hasks]
      refine Iff.trans ?_ hrest
      constructor
      . rintro ⟨r, hr, ask, hask, hneg⟩
        rcases List.mem_cons.mp hr with rfl | hr
        . rcases List.mem_append.mp hask with hask | hask
          . exact absurd hneg (hfield htopic ask hask)
          . exact absurd hneg (hfield hcontent ask hask)
        . exact ⟨r, hr, ask, hask, hneg⟩
      . rintro ⟨r, hr, hneg⟩
        exact ⟨r, List.mem_cons_of_mem _ hr, hneg⟩

theorem rounds_rejected (file : Bytes)
    : ∀ r ∈ rounds file, ∀ ask ∈ r.asked, ask.remaining < ask.size → r.message = none := by
  generalize hlen : file.length = len
  induction len using Nat.strong_induction_on generalizing file with
  | _ len ih =>
    cases hread : readMessage file with
    | error e =>
      rw [rounds_failed hread]
      intro r hr _ _ _
      rw [List.mem_singleton.mp hr]
    | ok r =>
      obtain ⟨m, rest⟩ := r
      obtain ⟨e, -, herror, -⟩ | ⟨_, _, e, -, -, herror, -⟩ |
        ⟨topic, behind, content, rest', htopic, hcontent, -, hasks⟩ := readMessage_cases file
      . rw [hread] at herror
        cases herror
      . rw [hread] at herror
        cases herror
      . rw [rounds_cons hread]
        intro r hr ask hask hlt
        rcases List.mem_cons.mp hr with rfl | hr
        . dsimp only at hask
          rw [hasks] at hask
          rcases List.mem_append.mp hask with hask | hask
          . have hle := (asks_of_readSds htopic hask).2
            omega
          . have hle := (asks_of_readSds hcontent hask).2
            omega
        . exact ih rest.length (hlen ▸ length_of_readMessage hread) rest rfl r hr ask hask hlt

theorem rounds_records (file : Bytes)
    : ∃ rest, file = (((rounds file).filterMap Round.message).map record).flatten ++ rest := by
  generalize hlen : file.length = len
  induction len using Nat.strong_induction_on generalizing file with
  | _ len ih =>
    cases hread : readMessage file with
    | error e =>
      rw [rounds_failed hread]
      exact ⟨file, rfl⟩
    | ok r =>
      obtain ⟨m, rest⟩ := r
      obtain ⟨tail, htail⟩ := ih rest.length (hlen ▸ length_of_readMessage hread) rest rfl
      have hmessages : (rounds file).filterMap Round.message = m :: (rounds rest).filterMap Round.message := by
        rw [rounds_cons hread]
        rfl
      rw [hmessages, List.map_cons, List.flatten_cons]
      refine ⟨tail, ?_⟩
      rw [List.append_assoc, ← htail]
      exact record_of_readMessage hread

theorem getMessages_eq_rounds (h : ∀ r ∈ rounds file, ∀ ask ∈ r.asked, 0 ≤ ask.size)
    : getMessages file = some ((rounds file).filterMap Round.message) := by
  generalize hlen : file.length = len
  induction len using Nat.strong_induction_on generalizing file with
  | _ len ih =>
    cases hread : readMessage file with
    | error e =>
      rw [rounds_failed hread] at h ⊢
      cases e with
      | failed => exact getMessages_failed hread
      | outOfBounds =>
        -- the block of `sdsnewlen` is only overrun for a negative length
        have hnone : ∀ ask ∈ asksMessage file, ¬ask.size < 0 :=
          fun ask hask => Int.not_lt.mpr (h _ (List.mem_singleton_self _) ask hask)
        obtain ⟨e, htopic, herror, hasks⟩ | ⟨_, _, e, -, hcontent, herror, hasks⟩ | ⟨_, _, _, _, -, -, hok, -⟩ :=
          readMessage_cases file
        . rw [hread] at herror
          cases herror
          obtain ⟨ask, hask, hneg⟩ := asks_of_outOfBounds htopic
          exact absurd hneg (hnone ask (hasks ▸ hask))
        . rw [hread] at herror
          cases herror
          obtain ⟨ask, hask, hneg⟩ := asks_of_outOfBounds hcontent
          exact absurd hneg (hnone ask (hasks ▸ List.mem_append_right _ hask))
        . rw [hread] at hok
          cases hok
    | ok r =>
      obtain ⟨m, rest⟩ := r
      rw [rounds_cons hread] at h ⊢
      rw [getMessages_cons hread, ih rest.length (hlen ▸ length_of_readMessage hread)
        (fun r hr => h r (List.mem_cons_of_mem _ hr)) rfl]
      rfl

/--
The reader is sound on exactly the files that do not lead it to a negative length.
-/
theorem sound_iff_not_hasNegativeLength (file : Bytes) : Sound file ↔ ¬HasNegativeLength file := by
  rw [← asks_negative_iff]
  constructor
  . rintro hsound ⟨r, hr, ask, hask, hneg⟩
    exact absurd hneg (Int.not_lt.mpr (hsound.nonneg r hr ask hask))
  . intro hnone
    have hnonneg : ∀ r ∈ rounds file, ∀ ask ∈ r.asked, 0 ≤ ask.size :=
      fun r hr ask hask => Int.not_lt.mp fun hneg => hnone ⟨r, hr, ask, hask, hneg⟩
    refine ⟨hnonneg, rounds_rejected file, getMessages_eq_rounds hnonneg, ?_⟩
    rw [addMessages_eq]
    exact rounds_records file

-- a file of four bytes, which are all ones
theorem sound_fails_negative : ¬∀ file, Sound file := by
  intro hall
  have hread : readMessage [255, 255, 255, 255] = .error .outOfBounds := rfl
  have hmessages := (hall [255, 255, 255, 255]).nonneg
  rw [rounds_failed hread] at hmessages
  have hnonneg := hmessages _ (List.mem_singleton_self _) ⟨-1, 0⟩ (List.mem_singleton_self _)
  exact absurd hnonneg (by decide)

end

end File
end Kids
