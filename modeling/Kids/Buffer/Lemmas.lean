import Kids.Buffer.Basic

namespace Kids
namespace Buffer

@[simp]
theorem data_empty : empty.data = [] := rfl

@[simp]
theorem data_ofCapacity : (ofCapacity n h).data = [] := rfl

@[simp]
theorem data_clear (b : Buffer) : b.clear.data = [] := rfl

theorem size_lt (b : Buffer) : b.data.length < uint32Size :=
  Nat.lt_of_le_of_lt b.size_le b.capacity_lt

theorem data_resize {b b' : Buffer} {h : b.data.length ≤ n} (hres : b.resize n h = some b')
    : b'.data = b.data := by
  unfold resize at hres
  split at hres
  . simp only [Option.some.injEq] at hres
    rw [← hres]
  . simp at hres

theorem data_reserve {b b' : Buffer} (hres : b.reserve n = some b') : b'.data = b.data := by
  unfold reserve at hres
  split at hres
  . simp only [Option.some.injEq] at hres
    rw [hres]
  . exact data_resize hres

theorem reserve_spec (b : Buffer) (hn : n + 1 < uint32Size)
    : ∃ b', b.reserve n = some b' ∧ b'.data = b.data ∧ n ≤ b'.capacity := by
  unfold reserve
  split
  . next h => exact ⟨b, rfl, rfl, by omega⟩
  . unfold resize
    have hdouble : 2 * b.capacity % uint32Size + 1 < uint32Size := by
      simp only [uint32Size]
      omega
    rw [dif_pos (by omega)]
    exact ⟨_, rfl, rfl, by simp only; omega⟩

theorem append_spec (b : Buffer) (d : Bytes) (h : b.data.length + d.length + 1 < uint32Size)
    : ∃ b', b.append d = some b' ∧ b'.data = b.data ++ d := by
  unfold append
  split
  . next hd =>
    refine ⟨b, rfl, ?_⟩
    simp [List.length_eq_zero_iff.mp hd]
  . have hmod : (b.size + d.length) % uint32Size = b.data.length + d.length := by
      apply Nat.mod_eq_of_lt
      simp only [size]
      omega
    rw [hmod]
    obtain ⟨b', hb', hdata, hcap⟩ := b.reserve_spec h
    rw [hb']
    dsimp only
    rw [dif_pos (by rw [hdata]; exact hcap)]
    exact ⟨_, rfl, by simp [hdata]⟩

/--
A size that reaches `2 ^ 32` is never detected: the reservation is made for the wrapped size and the
copy runs over the end of the block.
-/
theorem append_overflow (b : Buffer) (d : Bytes) (h : uint32Size ≤ b.data.length + d.length)
    : b.append d = none := by
  unfold append
  split
  . next hd =>
    have := b.size_lt
    omega
  . split
    . rfl
    . next b' hb' =>
      rw [dif_neg]
      have := b'.capacity_lt
      rw [data_reserve hb']
      omega

theorem data_append {b b' : Buffer} (happ : b.append d = some b') : b'.data = b.data ++ d := by
  unfold append at happ
  split at happ
  . next hd =>
    simp only [Option.some.injEq] at happ
    rw [← happ, List.length_eq_zero_iff.mp hd, List.append_nil]
  . split at happ
    . simp at happ
    . next b1 hb1 =>
      split at happ
      . simp only [Option.some.injEq] at happ
        rw [← happ, ← data_reserve hb1]
      . simp at happ

theorem removeFront_spec (b : Buffer) (h : n ≤ b.data.length) (hsmall : b.data.length + 1 < uint32Size)
    : ∃ b', b.removeFront n = some b' ∧ b'.data = b.data.drop n := by
  unfold removeFront
  split
  . next hn => exact ⟨b, rfl, by simp [hn]⟩
  . rw [if_pos (show n ≤ b.size from h)]
    dsimp only
    split
    . unfold resize
      rw [dif_pos (by simp only [size, List.length_drop]; omega)]
      exact ⟨_, rfl, rfl⟩
    . exact ⟨_, rfl, rfl⟩

theorem data_removeFront {b b' : Buffer} (h : b.removeFront n = some b') : n ≤ b.size ∧ b'.data = b.data.drop n := by
  unfold removeFront at h
  split at h
  . next hn =>
    simp only [Option.some.injEq] at h
    simp [← h, hn]
  . split at h
    . next hle =>
      refine ⟨hle, ?_⟩
      dsimp only at h
      split at h
      . rw [data_resize h]
      . simp only [Option.some.injEq] at h
        rw [← h]
    . simp at h

theorem cstr_take (w : Bytes) (h : w[n]? = some Bytes.nul) : Bytes.cstr (w.take (n + 1)) = Bytes.cstr w := by
  induction w generalizing n with
  | nil => simp
  | cons b w ih =>
    by_cases hb : b = Bytes.nul
    . simp [Bytes.cstr, hb]
    . cases n with
      | zero => simp [hb] at h
      | succ n =>
        simp only [List.getElem?_cons_succ] at h
        simpa [Bytes.cstr, hb] using ih h

theorem vaprintf.go_eq (w : Bytes) (k : Nat) : vaprintf.go w k = Bytes.cstr w := by
  generalize hgo : vaprintf.go w k = res
  unfold vaprintf.go at hgo
  have := Nat.two_pow_pos k
  split at hgo
  . next h =>
    rw [← hgo]
    exact go_eq w (k + 1)
  . next h =>
    rw [← hgo]
    by_cases hlen : 16 * 2 ^ k - 1 ≤ w.length
    . have hnul : w[16 * 2 ^ k - 2]? = some Bytes.nul := by
        by_contra hne
        exact h ⟨hlen, hne⟩
      have hsucc : 16 * 2 ^ k - 1 = (16 * 2 ^ k - 2) + 1 := by omega
      rw [hsucc]
      exact cstr_take w hnul
    . rw [List.take_of_length_le (by omega)]
termination_by w.length + 2 - 16 * 2 ^ k
decreasing_by
  have := ‹_ ∧ _›.1
  have : 2 ^ (k + 1) = 2 * 2 ^ k := by rw [Nat.pow_succ]; omega
  omega

@[simp]
theorem vaprintf_eq (w : Bytes) : vaprintf w = Bytes.cstr w := by
  unfold vaprintf
  apply vaprintf.go_eq

end Buffer
end Kids
