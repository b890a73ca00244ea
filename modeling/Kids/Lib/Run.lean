import Mathlib.Data.List.Basic

/-!
Runs of labelled transition systems. A system is given by a step function into `Option`, where `none`
stands for a step that has no defined outcome, or by a step relation. The rules here are the ones that
the invariants of a concrete system are derived from.
-/

namespace Run

inductive Reaches (R : σ → ℓ → σ → Prop) (s : σ) : List ℓ → σ → Prop
  | nil : Reaches R s [] s
  | snoc {ls : List ℓ} {t u : σ} {l : ℓ} : Reaches R s ls t → R t l u → Reaches R s (ls ++ [l]) u

namespace Reaches

variable {R : σ → ℓ → σ → Prop}

theorem single (h : R s l t) : Reaches R s [l] t :=
  .snoc .nil h

theorem trans (h1 : Reaches R s ls t) (h2 : Reaches R t ks u) : Reaches R s (ls ++ ks) u := by
  induction h2 with
  | nil => simpa using h1
  | snoc _ hstep ih =>
    rw [← List.append_assoc]
    exact .snoc ih hstep

theorem mono {Q : σ → ℓ → σ → Prop} (h : Reaches R s ls t) (hrq : ∀ s l t, R s l t → Q s l t) : Reaches Q s ls t := by
  induction h with
  | nil => exact .nil
  | snoc _ hr ih => exact .snoc ih (hrq _ _ _ hr)

theorem unique (hfun : ∀ s l t u, R s l t → R s l u → t = u) (ht : Reaches R s ls t) (hu : Reaches R s ls u)
    : t = u := by
  induction ht generalizing u with
  | nil =>
    generalize hls : [] = ls at hu
    cases hu with
    | nil => rfl
    | snoc => simp at hls
  | @snoc ls t _ l _ hr ih =>
    generalize hls : ls ++ [l] = ks at hu
    cases hu with
    | nil => simp at hls
    | snoc hv hr' =>
      obtain ⟨rfl, rfl⟩ := List.concat_inj.mp (by simpa using hls)
      obtain rfl := ih hv
      exact hfun _ _ _ _ hr hr'

theorem invariant (Inv : σ → Prop) (h : Reaches R s ls t) (hs : Inv s)
    (hstep : ∀ t l u, Inv t → R t l u → Inv u)
    : Inv t := by
  induction h with
  | nil => exact hs
  | snoc _ hr ih => exact hstep _ _ _ ih hr

end Reaches

/--
The steps of `R` between states of `P`.
-/
def Within (R : σ → ℓ → σ → Prop) (P : σ → Prop) (s : σ) (l : ℓ) (t : σ) : Prop :=
  R s l t ∧ P s ∧ P t

theorem Reaches.of_within {R : σ → ℓ → σ → Prop} (h : Reaches (Within R P) s ls t) : Reaches R s ls t :=
  h.mono fun _ _ _ hstep => hstep.1

/--
A schedule that `step` can run is a run of any system that allows its steps.
-/
theorem Reaches.of_foldlM {R : σ → ℓ → σ → Prop} {step : σ → ℓ → Option σ}
    (hstep : ∀ s l t, step s l = some t → R s l t) (h : ls.foldlM step s = some t) : Reaches R s ls t := by
  induction ls generalizing s with
  | nil =>
    cases h
    exact .nil
  | cons l ls ih =>
    rw [List.foldlM_cons] at h
    obtain ⟨u, hu, hrest⟩ := Option.bind_eq_some_iff.mp h
    exact (Reaches.single (hstep s l u hu)).trans (ih hrest)

theorem Reaches.exists_of_any {R : σ → ℓ → σ → Prop} (step : σ → ℓ → Option σ) (s : σ) (ls : List ℓ) (P : σ → Prop)
    [DecidablePred P] (hstep : ∀ s l t, step s l = some t → R s l t) (h : (ls.foldlM step s).any (fun t => decide (P t)) = true)
    : ∃ t, Reaches R s ls t ∧ P t := by
  cases hrun : ls.foldlM step s with
  | none =>
    rw [hrun] at h
    cases h
  | some t =>
    rw [hrun] at h
    exact ⟨t, .of_foldlM hstep hrun, of_decide_eq_true h⟩

def stepWithin (step : σ → ℓ → Option σ) (P : σ → Prop) [DecidablePred P] (s : σ) (l : ℓ) : Option σ :=
  if P s then (step s l).filter fun t => decide (P t) else none

theorem within_of_stepWithin {R : σ → ℓ → σ → Prop} {step : σ → ℓ → Option σ} {P : σ → Prop} [DecidablePred P]
    (hstep : ∀ s l t, step s l = some t → R s l t) (h : stepWithin step P s l = some t) : Within R P s l t := by
  unfold stepWithin at h
  split at h
  . next hs =>
    obtain ⟨ht, hp⟩ := Option.filter_eq_some_iff.mp h
    exact ⟨hstep s l t ht, hs, of_decide_eq_true hp⟩
  . cases h

section Along

variable (step : σ → ℓ → Option σ)

/--
The run of `ls` from `s` is defined and `P` holds in every state it passes through.
-/
def Along (P : σ → Prop) : σ → List ℓ → Prop
  | s, [] => P s
  | s, l :: ls => P s ∧ ∃ t, step s l = some t ∧ Along P t ls

/--
Every step of the run of `ls` from `s` meets the condition `G`, which speaks about the state before
the step and the label.
-/
def Meets (G : σ → ℓ → Prop) : σ → List ℓ → Prop
  | _, [] => True
  | s, l :: ls => G s l ∧ ∀ t, step s l = some t → Meets G t ls

variable {step}

theorem Along.here {P : σ → Prop} (h : Along step P s ls) : P s := by
  cases ls with
  | nil => exact h
  | cons => exact h.1

theorem Meets.of_forall {L : ℓ → Prop} (h : ∀ l ∈ ls, L l) (s : σ) : Meets step (fun _ l => L l) s ls := by
  induction ls generalizing s with
  | nil => trivial
  | cons l ls ih =>
    rw [List.forall_mem_cons] at h
    exact ⟨h.1, fun t _ => ih h.2 t⟩

theorem Along.of_meets (L : ℓ → Prop) {P : σ → Prop} {G : σ → ℓ → Prop} (hs : P s) (hls : ∀ l ∈ ls, L l)
    (hg : Meets step G s ls) (hstep : ∀ s l, P s → L l → G s l → ∃ t, step s l = some t ∧ P t)
    : Along step P s ls := by
  induction ls generalizing s with
  | nil => exact hs
  | cons l ls ih =>
    rw [List.forall_mem_cons] at hls
    obtain ⟨t, ht, hpt⟩ := hstep s l hs hls.1 hg.1
    exact ⟨hs, t, ht, ih hpt hls.2 (hg.2 t ht)⟩

theorem Along.iff_meets (Inv : σ → Prop) (L : ℓ → Prop) {P : σ → Prop} {G : σ → ℓ → Prop}
    (hi : Inv s) (hs : P s) (hls : ∀ l ∈ ls, L l)
    (hstep : ∀ s l, Inv s → P s → L l → ∃ t, step s l = some t ∧ Inv t ∧ (P t ↔ G s l))
    : Along step P s ls ↔ Meets step G s ls := by
  induction ls generalizing s with
  | nil => exact ⟨fun _ => trivial, fun _ => hs⟩
  | cons l ls ih =>
    rw [List.forall_mem_cons] at hls
    obtain ⟨t, ht, hit, hiff⟩ := hstep s l hi hs hls.1
    constructor
    . rintro ⟨-, u, hu, halong⟩
      obtain rfl : t = u := Option.some.inj (ht.symm.trans hu)
      have hp := halong.here
      refine ⟨hiff.mp hp, ?_⟩
      intro v hv
      obtain rfl : t = v := Option.some.inj (ht.symm.trans hv)
      exact (ih hit hp hls.2).mp halong
    . rintro ⟨hg, hrest⟩
      have hp := hiff.mpr hg
      exact ⟨hs, t, ht, (ih hit hp hls.2).mpr (hrest t ht)⟩

/--
Within the steps that `D` allows, `G` is what keeps `P`: a step that does not meet it has no outcome, or one
without `P`.
-/
theorem Along.iff_meets_within (Inv : σ → Prop) (D : σ → ℓ → Prop) {P : σ → Prop} {G : σ → ℓ → Prop}
    (hi : Inv s) (hd : Meets step D s ls) (hp : ∀ s, Inv s → P s)
    (hkeep : ∀ s l, Inv s → D s l → G s l → ∃ t, step s l = some t ∧ Inv t)
    (hfail : ∀ s l t, Inv s → D s l → ¬G s l → step s l = some t → ¬P t)
    : Along step P s ls ↔ Meets step G s ls := by
  induction ls generalizing s with
  | nil => exact ⟨fun _ => trivial, fun _ => hp s hi⟩
  | cons l ls ih =>
    by_cases hg : G s l
    . obtain ⟨t, ht, hit⟩ := hkeep s l hi hd.1 hg
      have hrest := ih hit (hd.2 t ht)
      constructor
      . rintro ⟨-, u, hu, halong⟩
        obtain rfl : t = u := Option.some.inj (ht.symm.trans hu)
        refine ⟨hg, fun v hv => ?_⟩
        obtain rfl : t = v := Option.some.inj (ht.symm.trans hv)
        exact hrest.mp halong
      . rintro ⟨-, hmeets⟩
        exact ⟨hp s hi, t, ht, hrest.mpr (hmeets t ht)⟩
    . apply iff_of_false
      . rintro ⟨-, t, ht, halong⟩
        exact hfail s l t hi hd.1 hg ht halong.here
      . exact fun hmeets => hg hmeets.1

theorem Along.mono {P Q : σ → Prop} (hpq : ∀ s, P s → Q s) (h : Along step P s ls) : Along step Q s ls := by
  induction ls generalizing s with
  | nil => exact hpq s h
  | cons l ls ih =>
    obtain ⟨hs, t, ht, hrest⟩ := h
    exact ⟨hpq s hs, t, ht, ih hrest⟩

theorem Along.exists_last {P : σ → Prop} (h : Along step P s ls)
    : ∃ t, Reaches (fun s l t => step s l = some t) s ls t ∧ P t := by
  induction ls generalizing s with
  | nil => exact ⟨s, .nil, h⟩
  | cons l ls ih =>
    obtain ⟨-, u, hstep, hrest⟩ := h
    obtain ⟨t, hreaches, ht⟩ := ih hrest
    exact ⟨t, (Reaches.single hstep).trans hreaches, ht⟩

theorem Along.last {P : σ → Prop} (h : Along step P s ls) (hreaches : Reaches (fun s l t => step s l = some t) s ls t)
    : P t := by
  obtain ⟨u, hu, hlast⟩ := h.exists_last
  rw [hreaches.unique (fun _ _ _ _ ht hu => Option.some.inj (ht.symm.trans hu)) hu]
  exact hlast

end Along

section Iterate

variable (step : σ → ℓ → Option σ)

/--
The state after `n` steps that are labelled from an endless sequence.
-/
def iterate (s : σ) (ls : Nat → ℓ) : Nat → Option σ
  | 0 => some s
  | n + 1 => (step s (ls 0)).bind fun t => iterate t (fun i => ls (i + 1)) n

variable {step}

theorem iterate_invariant {Inv : σ → Prop} {ls : Nat → ℓ} {n : Nat} (h : iterate step s ls n = some t) (hs : Inv s)
    (hstep : ∀ s l t, Inv s → step s l = some t → Inv t) : Inv t := by
  induction n generalizing s ls with
  | zero =>
    cases h
    exact hs
  | succ n ih =>
    obtain ⟨u, hu, hrest⟩ := Option.bind_eq_some_iff.mp h
    exact ih hrest (hstep s _ u hs hu)

/--
A measure that every step brings down leads to the goal.
-/
theorem eventually_of_decreases {μ : Type} {r : μ → μ → Prop} (hwf : WellFounded r) (measure : σ → μ)
    (Inv Goal : σ → Prop) (hstep : ∀ s l, Inv s → ∃ t, step s l = some t ∧ (Goal t ∨ Inv t ∧ r (measure t) (measure s)))
    (hs : Inv s) (ls : Nat → ℓ) : ∃ n t, iterate step s ls n = some t ∧ Goal t := by
  generalize hm : measure s = m
  induction m using hwf.induction generalizing s ls with
  | _ m ih =>
    obtain ⟨t, ht, hgoal | ⟨hinv, hless⟩⟩ := hstep s (ls 0) hs
    . exact ⟨1, t, by rw [iterate, ht]; rfl, hgoal⟩
    . obtain ⟨n, u, hu, hgoal⟩ := ih (measure t) (hm ▸ hless) hinv (fun i => ls (i + 1)) rfl
      exact ⟨n + 1, u, by rw [iterate, ht]; exact hu, hgoal⟩

end Iterate

/--
`P` holds of the outcome, if there is one.
-/
def Ensures (x : Option σ) (P : σ → Prop) : Prop :=
  ∀ s, x = some s → P s

namespace Ensures

theorem of_some (h : P s) : Ensures (some s) P := by
  rintro _ ⟨⟩
  exact h

theorem bind {x : Option σ} {f : σ → Option τ} (hx : Ensures x P) (hf : ∀ s, P s → Ensures (f s) Q)
    : Ensures (x >>= f) Q := by
  intro t ht
  obtain ⟨s, hs, hfs⟩ := Option.bind_eq_some_iff.mp ht
  exact hf s (hx s hs) t hfs

theorem map {x : Option σ} {f : σ → τ} (hx : Ensures x P) (hf : ∀ s, P s → Q (f s)) : Ensures (x.map f) Q := by
  intro t ht
  obtain ⟨s, hs, rfl⟩ := Option.map_eq_some_iff.mp ht
  exact hf s (hx s hs)

end Ensures

end Run
