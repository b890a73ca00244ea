import Kids.Buffer.Lemmas

/-!
A buffer that is on its way to a socket, and the loop that writes it. `SendReply` of a client and
`SendRequest` of a network agent share this loop and differ in how they empty a buffer that is sent.
-/

namespace Kids

def maxWritePerEvent : Nat := 1024 * 64

def intBound : Nat := 2 ^ 31

/--
What one `write` returns. `wrote n` stands for a socket with room for `n` bytes.
-/
inductive WriteResult
  | wrote (n : Nat)
  | again
  | failed
  deriving DecidableEq, Repr

structure Outgoing where
  buf : Buffer
  sentlen : Nat

namespace Outgoing

def unsent (o : Outgoing) : Bytes :=
  o.buf.data.drop o.sentlen

structure Written where
  out : Outgoing
  bytes : Bytes
  failed : Bool

-- the bookkeeping behind a `write` that returned `nwritten`
def advance (clear : Buffer → Buffer) (o : Outgoing) (nwritten : Nat) : Outgoing :=
  if o.sentlen + nwritten = o.buf.size then
    ⟨clear o.buf, 0⟩
  else
    ⟨o.buf, o.sentlen + nwritten⟩

/--
The loop `while (sentlen_ < size())`, with what the next calls of `write` return. A list that is used up
is a socket that has become full. `none` is a `sentlen_` that does not fit an `int`.
-/
def writeAll (clear : Buffer → Buffer) (o : Outgoing) (totwritten : Nat) : List WriteResult → Option Written
  | [] => some ⟨o, [], false⟩
  | r :: rs =>
    if o.sentlen < o.buf.size then
      match r with
      | .again => some ⟨o, [], false⟩
      | .failed => some ⟨o, [], true⟩
      | .wrote n =>
        let nwritten := min n (o.buf.size - o.sentlen)
        if nwritten = 0 then
          some ⟨o, [], false⟩
        else if intBound ≤ o.sentlen + nwritten then
          none
        else
          let bytes := o.unsent.take nwritten
          let o := o.advance clear nwritten
          let totwritten := totwritten + nwritten
          -- a single event does not keep the loop from its other clients for longer than this
          if totwritten > maxWritePerEvent then
            some ⟨o, bytes, false⟩
          else
            (writeAll clear o totwritten rs).map fun w => { w with bytes := bytes ++ w.bytes }
    else
      some ⟨o, [], false⟩

def Wf (o : Outgoing) : Prop :=
  o.sentlen = 0 ∨ o.sentlen < o.buf.size

theorem unsent_eq_nil_iff (o : Outgoing) (hwf : o.Wf) : o.unsent = [] ↔ o.buf.data = [] := by
  unfold unsent
  rw [List.drop_eq_nil_iff]
  rw [← List.length_eq_zero_iff]
  unfold Wf Buffer.size at hwf
  omega

structure WriteSpec (o : Outgoing) (w : Written) : Prop where
  unsent_eq : o.unsent = w.bytes ++ w.out.unsent
  wf : w.out.Wf
  data_eq : w.out.buf.data = o.buf.data ∨ w.out.buf.data = []

theorem WriteSpec.size_le (h : WriteSpec o w) : w.out.buf.size ≤ o.buf.size := by
  unfold Buffer.size
  cases h.data_eq with
  | inl hsame =>
    rw [hsame]
  | inr hnil =>
    rw [hnil]
    apply Nat.zero_le

theorem WriteSpec.stop (o : Outgoing) (hwf : o.Wf) : WriteSpec o ⟨o, [], failed⟩ where
  unsent_eq := by simp
  wf := hwf
  data_eq := .inl rfl

theorem advance_spec (clear : Buffer → Buffer) (hclear : ∀ b, (clear b).data = []) (o : Outgoing)
    (failed : Bool) (hn : o.sentlen + n ≤ o.buf.size)
    : WriteSpec o ⟨o.advance clear n, o.unsent.take n, failed⟩ := by
  unfold advance
  split
  . next heq =>
    constructor
    . -- all that was unsent is taken
      have : o.unsent.length ≤ n := by
        simp only [unsent, List.length_drop]
        unfold Buffer.size at heq
        omega
      rw [List.take_of_length_le this]
      simp [unsent, hclear]
    . exact .inl rfl
    . exact .inr (hclear _)
  . next hne =>
    constructor
    . simp only [unsent]
      rw [← List.drop_drop]
      rw [List.take_append_drop]
    . exact .inr (Nat.lt_of_le_of_ne hn hne)
    . exact .inl rfl

theorem WriteSpec.trans (h1 : WriteSpec o ⟨o1, bytes, failed⟩) (h2 : WriteSpec o1 w)
    : WriteSpec o { w with bytes := bytes ++ w.bytes } where
  unsent_eq := by
    rw [h1.unsent_eq]
    dsimp only
    rw [h2.unsent_eq]
    rw [List.append_assoc]
  wf := h2.wf
  data_eq := by
    cases h2.data_eq with
    | inl hsame =>
      rw [hsame]
      exact h1.data_eq
    | inr hnil => exact .inr hnil

theorem WriteSpec.of_writeAll (clear : Buffer → Buffer) (hclear : ∀ b, (clear b).data = []) (o : Outgoing)
    (totwritten : Nat) (rs : List WriteResult) (hwf : o.Wf) (h : writeAll clear o totwritten rs = some w)
    : WriteSpec o w := by
  induction rs generalizing o totwritten w with
  | nil =>
    cases h
    exact .stop o hwf
  | cons r rs ih =>
    unfold writeAll at h
    split at h
    . next hlt =>
      cases r with
      | again =>
        cases h
        exact .stop o hwf
      | failed =>
        cases h
        exact .stop o hwf
      | wrote n =>
        dsimp only at h
        generalize hm : min n (o.buf.size - o.sentlen) = nwritten at h
        have hspec := advance_spec clear hclear o false (n := nwritten) (by omega)
        split at h
        . cases h
          exact .stop o hwf
        . split at h
          . cases h
          . split at h
            . cases h
              exact hspec
            . obtain ⟨w', hw', rfl⟩ := Option.map_eq_some_iff.mp h
              exact hspec.trans (ih _ _ hspec.wf hw')
    . cases h
      exact .stop o hwf

theorem writeAll_defined (clear : Buffer → Buffer) (hclear : ∀ b, (clear b).data = []) (o : Outgoing)
    (totwritten : Nat) (rs : List WriteResult) (hwf : o.Wf) (hsize : o.buf.size < intBound)
    : ∃ w, writeAll clear o totwritten rs = some w := by
  induction rs generalizing o totwritten with
  | nil => exact ⟨_, rfl⟩
  | cons r rs ih =>
    unfold writeAll
    split
    . next hlt =>
      cases r with
      | again => exact ⟨_, rfl⟩
      | failed => exact ⟨_, rfl⟩
      | wrote n =>
        dsimp only
        generalize hm : min n (o.buf.size - o.sentlen) = nwritten
        split
        . exact ⟨_, rfl⟩
        . rw [if_neg (by omega)]
          have hspec := advance_spec clear hclear o false (n := nwritten) (by omega)
          split
          . exact ⟨_, rfl⟩
          . -- the next round starts from a buffer that is no larger
            obtain ⟨w, hw⟩ := ih (o.advance clear nwritten) (totwritten + nwritten) hspec.wf
              (Nat.lt_of_le_of_lt hspec.size_le hsize)
            rw [hw]
            exact ⟨_, rfl⟩
    . exact ⟨_, rfl⟩

theorem writeAll_spec (clear : Buffer → Buffer) (hclear : ∀ b, (clear b).data = []) (o : Outgoing)
    (totwritten : Nat) (rs : List WriteResult) (hwf : o.Wf) (hsize : o.buf.size < intBound)
    : ∃ w, writeAll clear o totwritten rs = some w ∧ WriteSpec o w := by
  obtain ⟨w, hw⟩ := writeAll_defined clear hclear o totwritten rs hwf hsize
  exact ⟨w, hw, .of_writeAll clear hclear o totwritten rs hwf hw⟩

end Outgoing

namespace Buffer

def appendAll (b : Buffer) : List Bytes → Option Buffer
  | [] => some b
  | d :: ds =>
    match b.append d with
    | none => none
    | some b => b.appendAll ds

theorem appendAll_spec (b : Buffer) (ds : List Bytes) (h : b.data.length + ds.flatten.length + 1 < uint32Size)
    : ∃ b', b.appendAll ds = some b' ∧ b'.data = b.data ++ ds.flatten := by
  induction ds generalizing b with
  | nil => exact ⟨b, rfl, by simp⟩
  | cons d ds ih =>
    simp only [List.flatten_cons, List.length_append] at h
    obtain ⟨b1, hb1, hdata1⟩ := b.append_spec d (by omega)
    have hlen : b1.data.length + ds.flatten.length + 1 < uint32Size := by
      rw [hdata1, List.length_append]
      omega
    obtain ⟨b2, hb2, hdata2⟩ := ih b1 hlen
    unfold appendAll
    rw [hb1]
    refine ⟨b2, hb2, ?_⟩
    rw [hdata2, hdata1, List.flatten_cons, List.append_assoc]

theorem data_appendAll {b b' : Buffer} (happ : b.appendAll ds = some b') : b'.data = b.data ++ ds.flatten := by
  induction ds generalizing b with
  | nil =>
    simp only [appendAll, Option.some.injEq] at happ
    simp [happ]
  | cons d ds ih =>
    unfold appendAll at happ
    split at happ
    . simp at happ
    . next b1 hb1 =>
      rw [ih happ, data_append hb1, List.flatten_cons, List.append_assoc]

end Buffer
end Kids
