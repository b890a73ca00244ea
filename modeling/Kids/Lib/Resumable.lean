import Mathlib.Data.List.Basic

/-!
Consumers that read an input piece by piece. A consumer has a control state and a list of pending
symbols; one step looks at the front of the pending symbols, and either waits for more or consumes
some of them and emits output. If a step that is possible stays possible, with the same outcome, when
more symbols arrive behind, then it does not matter how the input was cut into pieces.
-/

/--
`next q b` is the output, the new control state and the remaining input of one step, or `none` if the
consumer has to wait.
-/
structure Resumable (σ α β : Type) where
  next : σ → List α → Option (List β × σ × List α)
  next_append : ∀ {q b o q' b'} (c : List α),
    next q b = some (o, q', b') → next q (b ++ c) = some (o, q', b' ++ c)

namespace Resumable

variable {σ α β : Type} (M : Resumable σ α β)

inductive Steps : σ → List α → List β → σ → List α → Prop
  | refl (q : σ) (b : List α) : Steps q b [] q b
  | head {q q1 q2 : σ} {b b1 b2 : List α} {o os : List β} :
      M.next q b = some (o, q1, b1) → Steps q1 b1 os q2 b2 → Steps q b (o ++ os) q2 b2

structure Completes (q : σ) (b : List α) (o : List β) (q' : σ) (b' : List α) : Prop where
  steps : M.Steps q b o q' b'
  waits : M.next q' b' = none

variable {M}

theorem Steps.single (h : M.next q b = some (o, q', b')) : M.Steps q b o q' b' := by
  have := Steps.head h (.refl q' b')
  rwa [List.append_nil] at this

theorem Steps.trans (h1 : M.Steps q b o q1 b1) (h2 : M.Steps q1 b1 os q2 b2)
    : M.Steps q b (o ++ os) q2 b2 := by
  induction h1 with
  | refl => simpa using h2
  | head hnext _ ih =>
    rw [List.append_assoc]
    exact .head hnext (ih h2)

theorem Steps.append (h : M.Steps q b o q' b') (c : List α) : M.Steps q (b ++ c) o q' (b' ++ c) := by
  induction h with
  | refl => exact .refl _ _
  | head hnext _ ih => exact .head (M.next_append c hnext) ih

theorem Steps.of_waits (h : M.Steps q b o q' b') (hwaits : M.next q b = none)
    : o = [] ∧ q' = q ∧ b' = b := by
  cases h with
  | refl => exact ⟨rfl, rfl, rfl⟩
  | head hnext => rw [hwaits] at hnext; cases hnext

theorem Steps.completes (h1 : M.Steps q b o q1 b1) (h2 : M.Completes q b os q2 b2)
    : ∃ os', os = o ++ os' ∧ M.Completes q1 b1 os' q2 b2 := by
  induction h1 generalizing os with
  | refl => exact ⟨os, rfl, h2⟩
  | head hnext _ ih =>
    obtain ⟨hsteps, hwaits⟩ := h2
    cases hsteps with
    | refl => rw [hwaits] at hnext; cases hnext
    | head hnext' hsteps' =>
      rw [hnext] at hnext'
      simp only [Option.some.injEq, Prod.mk.injEq] at hnext'
      obtain ⟨rfl, rfl, rfl⟩ := hnext'
      obtain ⟨os', rfl, hcompl⟩ := ih ⟨hsteps', hwaits⟩
      exact ⟨os', by simp, hcompl⟩

namespace Completes

theorem unique (h1 : M.Completes q b o q1 b1) (h2 : M.Completes q b os q2 b2)
    : o = os ∧ q1 = q2 ∧ b1 = b2 := by
  obtain ⟨os', rfl, hcompl⟩ := h1.steps.completes h2
  obtain ⟨rfl, rfl, rfl⟩ := hcompl.steps.of_waits h1.waits
  simp

theorem append (h1 : M.Completes q b o q1 b1) (h2 : M.Completes q1 (b1 ++ c) os q2 b2)
    : M.Completes q (b ++ c) (o ++ os) q2 b2 :=
  ⟨(h1.steps.append c).trans h2.steps, h2.waits⟩

theorem output_isPrefix (h1 : M.Completes q b o q1 b1) (h2 : M.Completes q (b ++ c) os q2 b2)
    : o <+: os := by
  obtain ⟨os', rfl, -⟩ := (h1.steps.append c).completes h2
  exact List.prefix_append o os'

end Completes

section Reads

variable (M)

/--
From `q` the consumer reads all of an input, token by token. `Q` holds of every control state it stops
in on the way, together with the beginning of a token that it has in front of it there.
-/
inductive Reads (Q : σ → List α → Prop) : σ → List α → List β → σ → Prop
  | nil (q : σ) : Reads Q q [] [] q
  | token {q q1 q2 : σ} {t s : List α} {o os : List β} :
      M.next q t = some (o, q1, []) → (∀ b, b <+: t → Q q b) → Reads Q q1 s os q2 →
      Reads Q q (t ++ s) (o ++ os) q2

variable {M} {Q : σ → List α → Prop}

theorem Reads.single (hnext : M.next q t = some (o, q', [])) (hq : ∀ b, b <+: t → Q q b)
    : M.Reads Q q t o q' := by
  have := Reads.token hnext hq (.nil q')
  rwa [List.append_nil, List.append_nil] at this

theorem Reads.trans (h1 : M.Reads Q q s o q1) (h2 : M.Reads Q q1 t os q2)
    : M.Reads Q q (s ++ t) (o ++ os) q2 := by
  induction h1 with
  | nil => exact h2
  | token hnext hq _ ih =>
    rw [List.append_assoc, List.append_assoc]
    exact .token hnext hq (ih h2)

theorem Reads.steps (h : M.Reads Q q s o q') : M.Steps q s o q' [] := by
  induction h with
  | nil => exact .refl _ _
  | token hnext _ _ ih => exact .head (M.next_append _ hnext) ih

theorem next_of_token (hnext : M.next q t = some (o, q', [])) (hb : b <+: t) (hne : b ≠ t)
    : M.next q b = none := by
  obtain ⟨c, rfl⟩ := hb
  cases hb : M.next q b with
  | none => rfl
  | some r =>
    obtain ⟨o1, q1, b1⟩ := r
    rw [M.next_append c hb] at hnext
    simp only [Option.some.injEq, Prod.mk.injEq, List.append_eq_nil_iff] at hnext
    rw [hnext.2.2.2] at hne
    simp at hne

theorem Reads.completes (h : M.Reads Q q s o q') (hend : M.next q' [] = none) (hq : Q q' [])
    (hp : p <+: s)
    : ∃ o1 q1 b, M.Completes q p o1 q1 b ∧ Q q1 b := by
  induction h generalizing p with
  | nil q =>
    obtain rfl := List.prefix_nil.mp hp
    exact ⟨[], q, [], ⟨.refl _ _, hend⟩, hq⟩
  | @token q q1 q2 t s o os hnext htoken _ ih =>
    by_cases hpt : t <+: p
    . obtain ⟨r, rfl⟩ := hpt
      rw [List.prefix_append_right_inj] at hp
      obtain ⟨o1, q3, b, hcompl, hqb⟩ := ih hend hq hp
      exact ⟨o ++ o1, q3, b, ⟨.head (M.next_append r hnext) hcompl.steps, hcompl.waits⟩, hqb⟩
    . -- the cut is inside the token
      have hprefix : p <+: t := by
        cases List.prefix_or_prefix_of_prefix hp (List.prefix_append t s) with
        | inl h => exact h
        | inr h => exact absurd h hpt
      have hne : p ≠ t := by
        rintro rfl
        exact hpt (List.prefix_refl p)
      exact ⟨[], q, p, ⟨.refl _ _, next_of_token hnext hprefix hne⟩, htoken p hprefix⟩

-- what has been found of an input that is not there to its end
theorem Reads.completes_part (h : M.Reads Q q s os q') (hend : M.next q' [] = none) (hq : Q q' []) (hp : p <+: s)
    : ∃ o q1 b, M.Completes q p o q1 b ∧ o <+: os ∧ (p = s → o = os) := by
  have hall : M.Completes q s os q' [] := ⟨h.steps, hend⟩
  obtain ⟨o, q1, b, hcompl, -⟩ := h.completes hend hq hp
  refine ⟨o, q1, b, hcompl, ?_, ?_⟩
  . obtain ⟨rest, hrest⟩ := hp
    rw [← hrest] at hall
    exact hcompl.output_isPrefix hall
  . rintro rfl
    exact (hcompl.unique hall).1

-- only the last token gives output
theorem Reads.silent_of_part (h : M.Reads Q q s [] q1) (hnext : M.next q1 t = some (o, q', [])) (ht : t ≠ [])
    (hq : Q q1 []) (hp : p <+: s ++ t) (hne : p ≠ s ++ t) (hc : M.Completes q p os q2 b) : os = [] := by
  have hend : M.next q1 [] = none := next_of_token hnext List.nil_prefix ht.symm
  by_cases hs : s <+: p
  . obtain ⟨r, rfl⟩ := hs
    rw [List.prefix_append_right_inj] at hp
    have hwaits := next_of_token hnext hp (by rintro rfl; exact hne rfl)
    exact (hc.unique ⟨h.steps.append r, hwaits⟩).1
  . -- the cut is before the last token
    have hprefix : p <+: s := (List.prefix_or_prefix_of_prefix hp (List.prefix_append s t)).resolve_right hs
    obtain ⟨o1, q3, b1, hcompl, hnil, -⟩ := h.completes_part hend hq hprefix
    obtain rfl := List.prefix_nil.mp hnil
    exact (hc.unique hcompl).1

end Reads

end Resumable
