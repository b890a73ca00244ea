import Kids.Lib.Run

/-!
How a configuration gets from `signal_thread_function` to `Storer::DoConfigReload`. The signal thread owns
the parsed contexts and deletes the previous one when a new file is loaded; the storer thread is handed a
pointer into the newest one and a flag, and reads through the pointer in a later tick.
-/

namespace Kids

-- a `ParseContext`, with the `KidsConfig` and the `StoreConfig` that its destructor deletes
abbrev ContextId := Nat

inductive SignalPc
  | idle
  | parsed (reloaded : ContextId)
  | deletedPrevious (reloaded : ContextId)
  | storedContext (reloaded : ContextId)
  | setConf
  deriving DecidableEq

-- between the `delete` and the assignment of `conf_`
def SignalPc.replacing : SignalPc → Bool
  | .deletedPrevious _ => true
  | .storedContext _ => true
  | _ => false

inductive StorerPc
  | idle
  | flagTaken
  | rebuilding (conf : ContextId)
  deriving DecidableEq

/--
`ctx` is the global of `kids.cc`, which the `ctx` of `main` hides: it starts as a null pointer. `store` is
the configuration that the running store was built from. The last three fields are history.
-/
structure Reload where
  ctx : Option ContextId
  conf : ContextId
  confLoaded : Bool
  signal : SignalPc
  storer : StorerPc
  store : ContextId
  deleted : List ContextId
  created : Nat
  latest : ContextId

namespace Reload

def init : Reload where
  ctx := none
  conf := 0
  confLoaded := true
  signal := .idle
  storer := .idle
  store := 0
  deleted := []
  created := 1
  latest := 0

-- one step of the `SIGHUP` case, `success` is the one of the file that was parsed
def signalStep (s : Reload) (success : Bool) : Reload :=
  match s.signal with
  | .idle =>
    if success then
      { s with signal := .parsed s.created, created := s.created + 1, latest := s.created }
    else
      { s with created := s.created + 1 }
  | .parsed reloaded => { s with signal := .deletedPrevious reloaded, deleted := s.ctx.toList ++ s.deleted }
  | .deletedPrevious reloaded => { s with signal := .storedContext reloaded, ctx := some reloaded }
  | .storedContext reloaded => { s with signal := .setConf, conf := reloaded }
  | .setConf => { s with signal := .idle, confLoaded := false }

-- one step of `Storer::Cron`
def storerStep (s : Reload) : Reload :=
  match s.storer with
  | .idle => { s with confLoaded := true, storer := if s.confLoaded then .idle else .flagTaken }
  | .flagTaken => { s with storer := .rebuilding s.conf }
  | .rebuilding conf => { s with storer := .idle, store := conf }

inductive Label
  | signal (success : Bool)
  | storer

def step (s : Reload) : Label → Option Reload
  | .signal success => some (s.signalStep success)
  | .storer => some s.storerStep

def ReadsLive (s : Reload) : Prop :=
  ∀ conf, s.storer = .rebuilding conf → conf ∉ s.deleted

def Settled (s : Reload) : Prop :=
  s.signal = .idle → s.confLoaded = true → s.storer = .idle → s.store = s.latest

def HandedOff (s : Reload) : Prop :=
  s.ReadsLive ∧ s.Settled

/--
The storer does not read `conf_` while the signal thread is replacing it, and the previous context is not
deleted while a store is being built from it.
-/
def KeepsApart (s : Reload) : Label → Prop
  | .signal _ => ∀ reloaded conf, s.signal = .parsed reloaded → s.storer ≠ .rebuilding conf
  | .storer => s.storer = .flagTaken → s.signal.replacing = false

-- a reload is pending or in progress
def Handed (s : Reload) : Prop :=
  s.confLoaded = false ∨ s.storer ≠ .idle

def Owned (s : Reload) : Prop :=
  s.ctx = some s.conf ∨ s.ctx = none ∧ ¬s.Handed

-- where the two pointers are, for each place that the signal thread can be at
def Placed (s : Reload) : Prop :=
  match s.signal with
  | .idle => s.conf = s.latest ∧ s.Owned
  | .parsed reloaded => reloaded = s.latest ∧ s.conf ≠ s.latest ∧ s.conf ∉ s.deleted ∧ s.Owned
  | .deletedPrevious reloaded => reloaded = s.latest ∧ (s.Handed → s.conf ∈ s.deleted)
  | .storedContext reloaded =>
    reloaded = s.latest ∧ s.ctx = some s.latest ∧ (s.Handed → s.conf ∈ s.deleted)
  | .setConf => s.conf = s.latest ∧ s.ctx = some s.latest

structure Wf (s : Reload) : Prop where
  fresh : ∀ c ∈ s.deleted, c < s.created
  latest_lt : s.latest < s.created
  conf_lt : s.conf < s.created
  latest_live : s.latest ∉ s.deleted
  placed : s.Placed
  rebuilding : ∀ c, s.storer = .rebuilding c → c ∉ s.deleted → c = s.conf ∧ s.signal.replacing = false
  current : s.confLoaded = true → s.signal ≠ .setConf → s.storer = .idle → s.store = s.conf
  current_rebuilding : s.confLoaded = true → s.signal ≠ .setConf → ∀ c, s.storer = .rebuilding c → c = s.conf

theorem Wf.init : Wf init where
  fresh := by simp [Reload.init]
  latest_lt := by simp [Reload.init]
  conf_lt := by simp [Reload.init]
  latest_live := by simp [Reload.init]
  placed := by simp [Placed, Owned, Handed, Reload.init]
  rebuilding := by simp [Reload.init]
  current := by simp [Reload.init]
  current_rebuilding := by simp [Reload.init]

theorem Wf.settled (h : Wf s) : s.Settled := by
  intro hsignal hloaded hstorer
  have hplaced := h.placed
  unfold Placed at hplaced
  rw [hsignal] at hplaced
  rw [h.current hloaded (by rw [hsignal]; simp) hstorer]
  exact hplaced.1

theorem Wf.signalStep (h : Wf s) (success : Bool) : Wf (s.signalStep success) := by
  have ⟨hfresh, hlatest, hconf, hlive, hplaced, hrebuilding, hcurrent, hcurrent'⟩ := h
  unfold Placed at hplaced
  unfold Reload.signalStep
  split
  . next hsignal =>
    rw [hsignal] at hplaced hrebuilding hcurrent hcurrent'
    obtain ⟨heq, howned⟩ := hplaced
    have hdeleted : ∀ c ∈ s.deleted, c < s.created + 1 := fun c hc => Nat.lt_succ_of_lt (hfresh c hc)
    split
    . have hnew : s.created ∉ s.deleted := fun hc => Nat.lt_irrefl _ (hfresh _ hc)
      have hold : s.conf ∉ s.deleted := heq ▸ hlive
      refine ⟨hdeleted, Nat.lt_succ_self _, Nat.lt_succ_of_lt hconf, hnew, ?_, ?_, ?_, ?_⟩
      . exact ⟨rfl, Nat.ne_of_lt hconf, hold, howned⟩
      . exact hrebuilding
      . exact fun hloaded _ => hcurrent hloaded (by simp)
      . exact fun hloaded _ => hcurrent' hloaded (by simp)
    . refine ⟨hdeleted, Nat.lt_succ_of_lt hlatest, Nat.lt_succ_of_lt hconf, hlive, ?_, ?_, ?_, ?_⟩
      . unfold Placed
        rw [hsignal]
        exact ⟨heq, howned⟩
      . rw [hsignal]
        exact hrebuilding
      . exact fun hloaded _ => hcurrent hloaded (by simp)
      . exact fun hloaded _ => hcurrent' hloaded (by simp)
  . next reloaded hsignal =>
    rw [hsignal] at hplaced hrebuilding hcurrent hcurrent'
    obtain ⟨hreloaded, hne, hnotDeleted, howned⟩ := hplaced
    -- what is deleted is the previous context, if there is one
    have hctx : ∀ c ∈ s.ctx.toList, c = s.conf := by
      intro c hc
      rcases howned with hsome | ⟨hnone, -⟩
      . simpa [hsome] using hc
      . simp [hnone] at hc
    refine ⟨?_, hlatest, hconf, ?_, ⟨hreloaded, ?_⟩, ?_, ?_, ?_⟩
    . intro c hc
      rcases List.mem_append.mp hc with hc | hc
      . exact hctx c hc ▸ hconf
      . exact hfresh c hc
    . intro hc
      rcases List.mem_append.mp hc with hc | hc
      . exact hne (hctx _ hc).symm
      . exact hlive hc
    . intro hhanded
      rcases howned with hsome | ⟨-, hnone⟩
      . simp [hsome]
      . exact absurd hhanded hnone
    . intro c hstorer hc
      rw [List.mem_append, not_or] at hc
      obtain rfl := (hrebuilding c hstorer hc.2).1
      rcases howned with hsome | ⟨-, hnone⟩
      . simp [hsome] at hc
      . exact absurd (.inr (by rw [hstorer]; simp)) hnone
    . exact fun hloaded _ => hcurrent hloaded (by simp)
    . exact fun hloaded _ => hcurrent' hloaded (by simp)
  . next reloaded hsignal =>
    rw [hsignal] at hplaced hrebuilding hcurrent hcurrent'
    obtain ⟨rfl, hhanded⟩ := hplaced
    refine ⟨hfresh, hlatest, hconf, hlive, ⟨rfl, rfl, hhanded⟩, ?_, ?_, ?_⟩
    . intro c hstorer hc
      cases (hrebuilding c hstorer hc).2
    . exact fun hloaded _ => hcurrent hloaded (by simp)
    . exact fun hloaded _ => hcurrent' hloaded (by simp)
  . next reloaded hsignal =>
    rw [hsignal] at hplaced hrebuilding
    obtain ⟨rfl, hctx, hhanded⟩ := hplaced
    refine ⟨hfresh, hlatest, hlatest, hlive, ⟨rfl, hctx⟩, ?_, ?_, ?_⟩
    . intro c hstorer hc
      cases (hrebuilding c hstorer hc).2
    . exact fun _ hcontra => absurd rfl hcontra
    . exact fun _ hcontra => absurd rfl hcontra
  . next hsignal =>
    rw [hsignal] at hplaced hrebuilding
    obtain ⟨heq, hctx⟩ := hplaced
    refine ⟨hfresh, hlatest, hconf, hlive, ⟨heq, .inl ?_⟩, hrebuilding, ?_, ?_⟩
    . rw [hctx, heq]
    . exact fun hcontra => by cases hcontra
    . exact fun hcontra => by cases hcontra

theorem Placed.of_storer {s : Reload} (h : s.Placed) {loaded : Bool} {pc : StorerPc} {store : ContextId}
    (hhanded : Handed { s with confLoaded := loaded, storer := pc, store := store } → s.Handed)
    : Placed { s with confLoaded := loaded, storer := pc, store := store } := by
  unfold Placed Owned at h ⊢
  dsimp only
  split at h
  . exact ⟨h.1, h.2.imp id fun hnone => ⟨hnone.1, fun hcontra => hnone.2 (hhanded hcontra)⟩⟩
  . exact ⟨h.1, h.2.1, h.2.2.1, h.2.2.2.imp id fun hnone => ⟨hnone.1, fun hcontra => hnone.2 (hhanded hcontra)⟩⟩
  . exact ⟨h.1, fun hcontra => h.2 (hhanded hcontra)⟩
  . exact ⟨h.1, h.2.1, fun hcontra => h.2.2 (hhanded hcontra)⟩
  . exact h

theorem Placed.deleted_of_replacing {s : Reload} (h : s.Placed) (hhanded : s.Handed)
    (hreplacing : s.signal.replacing = true)
    : s.conf ∈ s.deleted := by
  unfold Placed at h
  split at h
  . next hsignal =>
    rw [hsignal] at hreplacing
    cases hreplacing
  . next hsignal =>
    rw [hsignal] at hreplacing
    cases hreplacing
  . exact h.2 hhanded
  . exact h.2.2 hhanded
  . next hsignal =>
    rw [hsignal] at hreplacing
    cases hreplacing

theorem Wf.storerStep (h : Wf s) : Wf s.storerStep := by
  have ⟨hfresh, hlatest, hconf, hlive, hplaced, hrebuilding, hcurrent, hcurrent'⟩ := h
  unfold Reload.storerStep
  split
  . next hstorer =>
    cases hloaded : s.confLoaded with
    | true =>
      have hsame : ({ s with confLoaded := true, storer := .idle } : Reload) = s := by
        rw [← hloaded, ← hstorer]
      simp only [if_true]
      rw [hsame]
      exact h
    | false =>
      refine ⟨hfresh, hlatest, hconf, hlive, hplaced.of_storer fun _ => .inl hloaded, ?_, ?_, ?_⟩
      . exact fun _ hcontra => by cases hcontra
      . exact fun _ _ hcontra => by cases hcontra
      . exact fun _ _ _ hcontra => by cases hcontra
  . next hstorer =>
    have hhanded : s.Handed := .inr (by rw [hstorer]; simp)
    refine ⟨hfresh, hlatest, hconf, hlive, hplaced.of_storer fun _ => hhanded, ?_, ?_, ?_⟩
    . intro c hc hnotDeleted
      cases hc
      refine ⟨rfl, ?_⟩
      cases hreplacing : s.signal.replacing with
      | false => rfl
      | true => exact absurd (hplaced.deleted_of_replacing hhanded hreplacing) hnotDeleted
    . exact fun _ _ hcontra => by cases hcontra
    . intro _ _ c hc
      cases hc
      rfl
  . next conf hstorer =>
    refine ⟨hfresh, hlatest, hconf, hlive, hplaced.of_storer fun _ => .inr (by rw [hstorer]; simp), ?_, ?_, ?_⟩
    . exact fun _ hcontra => by cases hcontra
    . exact fun hloaded hsignal _ => hcurrent' hloaded hsignal conf hstorer
    . exact fun _ _ _ hcontra => by cases hcontra

theorem readsLive_signalStep (h : Wf s) (hlive : s.ReadsLive) (success : Bool)
    : (s.signalStep success).ReadsLive ↔ s.KeepsApart (.signal success) := by
  unfold KeepsApart
  cases hsignal : s.signal with
  | parsed reloaded =>
    have hplaced := h.placed
    unfold Placed at hplaced
    rw [hsignal] at hplaced
    obtain ⟨-, -, -, howned⟩ := hplaced
    unfold Reload.signalStep ReadsLive
    simp only [hsignal]
    constructor
    . -- what is deleted here is what a rebuild in progress reads
      intro hreads r conf _ hstorer
      apply hreads conf hstorer
      obtain rfl := (h.rebuilding conf hstorer (hlive conf hstorer)).1
      rcases howned with hsome | ⟨-, hnone⟩
      . simp [hsome]
      . exact absurd (.inr (by rw [hstorer]; simp)) hnone
    . intro hapart conf hstorer
      exact absurd hstorer (hapart reloaded conf rfl)
  | idle =>
    have hsame : (s.signalStep success).ReadsLive := by
      unfold Reload.signalStep
      rw [hsignal]
      dsimp only
      split
      . exact hlive
      . exact hlive
    simp [hsame]
  | setConf | deletedPrevious | storedContext =>
    have hsame : (s.signalStep success).ReadsLive := by
      unfold Reload.signalStep
      rw [hsignal]
      exact hlive
    simp [hsame]

theorem readsLive_storerStep (h : Wf s)
    : s.storerStep.ReadsLive ↔ s.KeepsApart .storer := by
  unfold Reload.storerStep ReadsLive KeepsApart
  cases hstorer : s.storer with
  | flagTaken =>
    have hhanded : s.Handed := .inr (by rw [hstorer]; simp)
    simp only [StorerPc.rebuilding.injEq, forall_eq', true_implies]
    constructor
    . intro hnotDeleted
      cases hreplacing : s.signal.replacing with
      | false => rfl
      | true => exact absurd (h.placed.deleted_of_replacing hhanded hreplacing) hnotDeleted
    . intro hapart
      have hplaced := h.placed
      have hlatest := h.latest_live
      unfold Placed at hplaced
      split at hplaced
      . exact hplaced.1 ▸ hlatest
      . exact hplaced.2.2.1
      . next hsignal =>
        rw [hsignal] at hapart
        cases hapart
      . next hsignal =>
        rw [hsignal] at hapart
        cases hapart
      . exact hplaced.1 ▸ hlatest
  | idle =>
    cases s.confLoaded <;> simp
  | rebuilding => simp

theorem handedOff_iff_readsLive (h : Wf s) : s.HandedOff ↔ s.ReadsLive :=
  and_iff_left h.settled

theorem step_handedOff (h : Wf s) (hs : s.HandedOff) (l : Label)
    : ∃ t, s.step l = some t ∧ Wf t ∧ (t.HandedOff ↔ s.KeepsApart l) := by
  cases l with
  | signal success =>
    have ht := h.signalStep success
    refine ⟨_, rfl, ht, ?_⟩
    rw [handedOff_iff_readsLive ht]
    exact readsLive_signalStep h hs.1 success
  | storer =>
    have ht := h.storerStep
    refine ⟨_, rfl, ht, ?_⟩
    rw [handedOff_iff_readsLive ht]
    exact readsLive_storerStep h

/--
The configurations that reloads read are alive and the store ends up with the latest one, in exactly the
runs that keep the reads of the storer apart from the replacement of the context.
-/
theorem handedOff_along_iff (ls : List Label)
    : Run.Along step HandedOff init ls ↔ Run.Meets step KeepsApart init ls := by
  apply Run.Along.iff_meets Wf (fun _ => True)
  . exact Wf.init
  . exact ⟨by simp [ReadsLive, init], Wf.init.settled⟩
  . simp
  . intro s l h hs _
    exact step_handedOff h hs l

-- two loads in a row: the storer takes the flag of the first and reads `conf_` after the second `delete`
def secondSighup : List Label :=
  List.replicate 5 (.signal true) ++ [.storer, .signal true, .signal true, .storer]

theorem handedOff_fails_secondSighup : ¬∀ ls, Run.Along step HandedOff init ls := by
  intro h
  have := h secondSighup
  simp [secondSighup, List.replicate, Run.Along, step, signalStep, storerStep, HandedOff, ReadsLive, init] at this

end Reload
end Kids
