import Mathlib.Data.List.Basic

/-!
The stack of a shift-reduce parser. Each frame was pushed along an edge of the automaton, from the state
below it, and its value stands for the tokens that were read for it. A check of the edges alone, which goes
back from a state, then says what any stack that ends in the state has at its top.
-/

namespace ShiftReduce

structure Edge (Q S : Type) where
  source : Q
  symbol : S
  target : Q
  deriving DecidableEq

variable {F Q S V T : Type}

/--
What is kept in a frame.
-/
structure Reading (F Q S V : Type) where
  state : F → Q
  symbol : F → S
  value : F → V

variable (r : Reading F Q S V) (edges : List (Edge Q S)) (q0 : Q)

-- the stack has its top in front
def top : List F → Q
  | [] => q0
  | f :: _ => r.state f

/--
`Stands s ts v` is to say that the value `v` stands for the tokens `ts`, read for the symbol `s`.
-/
inductive Spells (Stands : S → List T → V → Prop) : List F → List T → Prop
  | nil : Spells Stands [] []
  | cons {stack : List F} {ts us : List T} {f : F}
    : Spells Stands stack ts → ⟨top r q0 stack, r.symbol f, r.state f⟩ ∈ edges →
      Stands (r.symbol f) us (r.value f) → Spells Stands (f :: stack) (ts ++ us)

/--
The values stand for the symbols, one for one.
-/
inductive StandAll (Stands : S → List T → V → Prop) : List S → List T → List V → Prop
  | nil : StandAll Stands [] [] []
  | cons {s : S} {us ts : List T} {v : V} {ss : List S} {vs : List V}
    : Stands s us v → StandAll Stands ss ts vs → StandAll Stands (s :: ss) (us ++ ts) (v :: vs)

variable {Stands : S → List T → V → Prop}

theorem StandAll.concat (h : StandAll Stands ss ts vs) (hv : Stands s us v)
    : StandAll Stands (ss ++ [s]) (ts ++ us) (vs ++ [v]) := by
  induction h with
  | nil => simpa using StandAll.cons hv .nil
  | cons h _ ih =>
    rw [List.append_assoc]
    exact .cons h ih

variable [DecidableEq Q] [DecidableEq S]

/--
Whatever way leads to the state, the symbols stand on top of the stack, the last one on top, and below them
a state that `after` holds of.
-/
def pops (after : Q → Bool) : List S → Q → Bool
  | [], q => after q
  | s :: ss, q =>
    q ≠ q0 && edges.all fun e => e.target ≠ q || (e.symbol = s && pops after ss e.source)

variable {r edges q0}

theorem Spells.pop (h : Spells r edges q0 Stands stack ts) {after : Q → Bool} {ss : List S}
    (hpops : pops edges q0 after ss (top r q0 stack) = true)
    : ∃ frames rest us vs, stack = frames ++ rest ∧ ts = us ++ vs ∧ frames.length = ss.length ∧
        Spells r edges q0 Stands rest us ∧ StandAll Stands ss.reverse vs (frames.map r.value).reverse ∧
        after (top r q0 rest) = true := by
  induction ss generalizing stack ts with
  | nil => exact ⟨[], stack, ts, [], rfl, by simp, rfl, h, .nil, hpops⟩
  | cons s ss ih =>
    unfold pops at hpops
    rw [Bool.and_eq_true, List.all_eq_true] at hpops
    obtain ⟨hne, hall⟩ := hpops
    cases h with
    | nil => simp [top] at hne
    | @cons stack ts us f hstack hedge hstands =>
      have hback := hall _ hedge
      simp only [top, ne_eq, not_true_eq_false, decide_false, Bool.false_or, Bool.and_eq_true,
        decide_eq_true_eq] at hback
      obtain ⟨hsymbol, hback⟩ := hback
      obtain ⟨frames, rest, us', vs, rfl, rfl, hlen, hrest, hvalues, hafter⟩ := ih hstack hback
      refine ⟨f :: frames, rest, us', vs ++ us, rfl, List.append_assoc _ _ _, ?_, hrest, ?_, hafter⟩
      . rw [List.length_cons, List.length_cons, hlen]
      . rw [List.reverse_cons, List.map_cons, List.reverse_cons]
        apply hvalues.concat
        rw [← hsymbol]
        exact hstands

end ShiftReduce
