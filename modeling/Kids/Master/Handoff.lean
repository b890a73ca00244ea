import Kids.Notify.Protocol
import Mathlib.Data.Int.CardIntervalMod

/-!
How an accepted connection gets to its worker: `Master::AssignNewConnection`, `Worker::PutNewConnection` and
`Worker::GetNewConnection`. The descriptor goes through a locked deque and its notice through a non-blocking
socket pair.
-/

namespace Kids

/--
A descriptor in a deque. `turn` is history: how many connections were assigned before it.
-/
structure Conn where
  fd : Int
  turn : Nat
  deriving DecidableEq

/--
Where the main thread is: `notifying` is the loop of `PutNewConnection`.
-/
inductive Assigner (W : Nat)
  | idle
  | notifying (w : Fin W)

/--
The master and its `W` workers. The slot of a worker's channel is its `conn_wait_to_notify_`, of which there
are never more than open descriptors. The last four fields are history: every connection that was assigned,
those that were given to and taken by each worker, and the bytes that it has read.
-/
structure Handoff (W : Nat) where
  lastThread : Int
  master : Assigner W
  connQueue : Fin W → List Conn
  channel : Fin W → Channel
  handler : Fin W → Handler
  assigned : List Conn
  given : Fin W → List Conn
  taken : Fin W → List Conn
  bytesRead : Fin W → Nat

namespace Handoff

variable {W : Nat} {s s' : Handoff W}

def init : Handoff W where
  lastThread := -1
  master := .idle
  connQueue := fun _ => []
  channel := fun _ => ⟨0, 0⟩
  handler := fun _ => .idle
  assigned := []
  given := fun _ => []
  taken := fun _ => []
  bytesRead := fun _ => 0

def setChannel (s : Handoff W) (w : Fin W) (channel : Channel) : Handoff W :=
  { s with channel := Function.update s.channel w channel }

/--
`conn_wait_to_notify_` belongs to the main thread, so that its increment is part of the `push_back`.
-/
def putNewConnection (s : Handoff W) (w : Fin W) (sfd : Int) : Handoff W :=
  let c : Conn := ⟨sfd, s.assigned.length⟩
  let channel := s.channel w
  { s.setChannel w { channel with waitToNotify := channel.waitToNotify + 1 } with
    master := .notifying w
    connQueue := Function.update s.connQueue w (s.connQueue w ++ [c])
    assigned := s.assigned ++ [c]
    given := Function.update s.given w (s.given w ++ [c])
  }

theorem toNat_lt (h : 0 ≤ i ∧ i < (W : Int)) : i.toNat < W := by
  omega

def assignNewConnection (s : Handoff W) (fd : Int) : Option (Handoff W) :=
  match s.master with
  | .idle =>
    let last := (s.lastThread + 1).tmod W
    if h : 0 ≤ last ∧ last < W then
      some ({ s with lastThread := last }.putNewConnection ⟨last.toNat, toNat_lt h⟩ fd)
    else
      none
  | .notifying _ => none

def writeNotice (s : Handoff W) (ok : Bool) : Option (Handoff W) :=
  match s.master with
  | .idle => none
  | .notifying w =>
    let channel := s.channel w
    if channel.waitToNotify > 0 && ok then
      some (s.setChannel w ⟨channel.waitToNotify - 1, channel.inFlight + 1⟩)
    else
      some { s with master := .idle }

def readNotice (s : Handoff W) (w : Fin W) (ok : Bool) : Option (Handoff W) :=
  match s.handler w with
  | .idle =>
    let channel := s.channel w
    if ok ∧ channel.inFlight > 0 then
      some { s.setChannel w { channel with inFlight := channel.inFlight - 1 } with
        handler := Function.update s.handler w .notified
        bytesRead := Function.update s.bytesRead w (s.bytesRead w + 1)
      }
    else
      some s
  | .notified => none

def getNewConnection (s : Handoff W) (w : Fin W) : Option (Handoff W) :=
  match s.handler w with
  | .idle => none
  | .notified =>
    match s.connQueue w with
    -- `front` of an empty deque
    | [] => none
    | c :: rest => some { s with
        connQueue := Function.update s.connQueue w rest
        handler := Function.update s.handler w .idle
        taken := Function.update s.taken w (s.taken w ++ [c])
      }

inductive Label (W : Nat)
  | assignNewConnection (fd : Int)
  | writeNotice (ok : Bool)
  | readNotice (w : Fin W) (ok : Bool)
  | getNewConnection (w : Fin W)

def Label.fd? : Label W → Option Int
  | .assignNewConnection fd => some fd
  | _ => none

def step (s : Handoff W) : Label W → Option (Handoff W)
  | .assignNewConnection fd => s.assignNewConnection fd
  | .writeNotice ok => s.writeNotice ok
  | .readNotice w ok => s.readNotice w ok
  | .getNewConnection w => s.getNewConnection w

def Step (s : Handoff W) (l : Label W) (s' : Handoff W) : Prop :=
  s.step l = some s'

/--
The deque and the channel of a worker agree with what was given to it, and the turns go around.
-/
structure Dealt (s : Handoff W) : Prop where
  lastThread_ge : -1 ≤ s.lastThread
  lastThread_eq : (s.lastThread + 1) % W = (s.assigned.length : Int) % W
  turn_eq : s.assigned.map Conn.turn = List.range s.assigned.length
  given_eq : ∀ w, s.given w = s.assigned.filter (fun c => c.turn % W = w)
  taken_append : ∀ w, s.taken w ++ s.connQueue w = s.given w
  read_add_total : ∀ w, s.bytesRead w + (s.channel w).total = (s.given w).length
  read_eq : ∀ w, s.bytesRead w = (s.taken w).length + (s.handler w).count

namespace Dealt

theorem init : Dealt (Handoff.init : Handoff W) where
  lastThread_ge := Int.le_refl _
  lastThread_eq := rfl
  turn_eq := rfl
  given_eq _ := rfl
  taken_append _ := rfl
  read_add_total _ := rfl
  read_eq _ := rfl

theorem putNewConnection (h : Dealt s) {w : Fin W} (hw : (w.val : Int) = (s.lastThread + 1) % W) (fd : Int)
    : Dealt ({ s with lastThread := (w.val : Int) }.putNewConnection w fd) := by
  obtain ⟨hge, hlast, hturn, hgiven, htaken, hread, hcount⟩ := h
  have hlen : s.assigned.length % W = w := by
    rw [hlast] at hw
    exact_mod_cast hw.symm
  constructor
  . simp only [Handoff.putNewConnection, setChannel]
    omega
  . simp only [Handoff.putNewConnection, Handoff.setChannel, List.length_append, List.length_singleton, hw, hlast]
    rw [Int.emod_add_emod]
    rfl
  . simp only [Handoff.putNewConnection, List.map_append, hturn, List.length_append, List.length_singleton,
      List.range_succ]
    rfl
  . intro v
    simp only [Handoff.putNewConnection, List.filter_append, ← hgiven]
    by_cases hv : v = w
    . subst hv
      simp [hlen]
    . have hne : s.assigned.length % W ≠ v := by
        rw [hlen]
        intro heq
        exact hv (Fin.ext heq.symm)
      simp [hv, hne]
  . intro v
    simp only [Handoff.putNewConnection, setChannel]
    by_cases hv : v = w
    . subst hv
      simp only [Function.update_self, ← htaken, List.append_assoc]
    . simp only [Function.update_of_ne hv, htaken]
  . intro v
    have := hread v
    simp only [Handoff.putNewConnection, setChannel]
    by_cases hv : v = w
    . subst hv
      simp only [Function.update_self, List.length_append, List.length_singleton, Channel.total] at this ⊢
      omega
    . simp only [Function.update_of_ne hv]
      exact this
  . exact hcount

theorem assignNewConnection (h : Dealt s) (hstep : s.assignNewConnection fd = some s') : Dealt s' := by
  unfold Handoff.assignNewConnection at hstep
  split at hstep
  . dsimp only at hstep
    split at hstep
    . next hlast =>
      cases hstep
      have hge := h.lastThread_ge
      have hmod : (s.lastThread + 1).tmod W = (s.lastThread + 1) % W :=
        Int.tmod_eq_emod_of_nonneg (by omega)
      have hput := h.putNewConnection (w := ⟨_, toNat_lt hlast⟩) (by rw [← hmod]; exact Int.toNat_of_nonneg hlast.1) fd
      simpa only [Int.toNat_of_nonneg hlast.1] using hput
    . cases hstep
  . cases hstep

theorem setChannel {channel : Channel} (h : Dealt s) (htotal : channel.total = (s.channel w).total)
    : Dealt (s.setChannel w channel) := by
  refine { h with read_add_total := ?_ }
  intro v
  have hread := h.read_add_total v
  simp only [Handoff.setChannel]
  by_cases hv : v = w
  . subst hv
    rw [Function.update_self, htotal]
    exact hread
  . rw [Function.update_of_ne hv]
    exact hread

theorem writeNotice (h : Dealt s) (hstep : s.writeNotice ok = some s') : Dealt s' := by
  unfold Handoff.writeNotice at hstep
  split at hstep
  . cases hstep
  . next w _ =>
    dsimp only at hstep
    split at hstep
    . next hwait =>
      cases hstep
      simp only [Bool.and_eq_true, decide_eq_true_eq] at hwait
      apply h.setChannel
      simp only [Channel.total]
      omega
    . cases hstep
      exact { h with }

theorem readNotice (h : Dealt s) (hstep : s.readNotice w ok = some s') : Dealt s' := by
  unfold Handoff.readNotice at hstep
  split at hstep
  . next hidle =>
    dsimp only at hstep
    split at hstep
    . next hok =>
      cases hstep
      refine { h with read_add_total := ?_, read_eq := ?_ }
      . intro v
        have hread := h.read_add_total v
        simp only [Handoff.setChannel]
        by_cases hv : v = w
        . subst hv
          simp only [Function.update_self, Channel.total] at hread ⊢
          omega
        . simp only [Function.update_of_ne hv]
          exact hread
      . intro v
        have hread := h.read_eq v
        simp only [Handoff.setChannel]
        by_cases hv : v = w
        . subst hv
          rw [hidle] at hread
          simp only [Function.update_self, Handler.count] at hread ⊢
          omega
        . simp only [Function.update_of_ne hv]
          exact hread
    . cases hstep
      exact h
  . cases hstep

theorem getNewConnection (h : Dealt s) (hstep : s.getNewConnection w = some s') : Dealt s' := by
  unfold Handoff.getNewConnection at hstep
  split at hstep
  . cases hstep
  . next hnotified =>
    split at hstep
    . cases hstep
    . next c rest hqueue =>
      cases hstep
      refine { h with taken_append := ?_, read_eq := ?_ }
      . intro v
        have htaken := h.taken_append v
        by_cases hv : v = w
        . subst hv
          rw [hqueue] at htaken
          simp only [Function.update_self, List.append_assoc, List.singleton_append]
          exact htaken
        . simp only [Function.update_of_ne hv]
          exact htaken
      . intro v
        have hread := h.read_eq v
        by_cases hv : v = w
        . subst hv
          rw [hnotified] at hread
          simp only [Function.update_self, Handler.count, List.length_append, List.length_singleton] at hread ⊢
          omega
        . simp only [Function.update_of_ne hv]
          exact hread

theorem step (h : Dealt s) (hstep : Step s l s') : Dealt s' := by
  cases l with
  | assignNewConnection => exact h.assignNewConnection hstep
  | writeNotice => exact h.writeNotice hstep
  | readNotice => exact h.readNotice hstep
  | getNewConnection => exact h.getNewConnection hstep

theorem of_reaches (h : Run.Reaches Step Handoff.init ls s) : Dealt s :=
  h.invariant Dealt .init fun _ _ _ ht hstep => ht.step hstep

theorem connQueue_ne_nil (h : Dealt s) (hw : s.handler w = .notified) : s.connQueue w ≠ [] := by
  intro hempty
  have htaken := h.taken_append w
  have htotal := h.read_add_total w
  have hread := h.read_eq w
  rw [hempty, List.append_nil] at htaken
  rw [hw] at hread
  simp only [htaken, Handler.count] at hread
  omega

theorem nodup_given (h : Dealt s) (w : Fin W) : (s.given w).Nodup := by
  have hnodup : (s.assigned.map Conn.turn).Nodup := by
    rw [h.turn_eq]
    exact List.nodup_range
  rw [h.given_eq]
  exact hnodup.of_map.filter _

theorem mem_given (h : Dealt s) (hc : c ∈ s.taken w) : c.turn % W = w := by
  have hmem : c ∈ s.given w := by
    rw [← h.taken_append]
    exact List.mem_append_left _ hc
  rw [h.given_eq, List.mem_filter] at hmem
  exact of_decide_eq_true hmem.2

theorem length_given (h : Dealt s) (w : Fin W)
    : (s.given w).length = s.assigned.length / W + if w.val < s.assigned.length % W then 1 else 0 := by
  have hpos : 0 < W := Nat.lt_of_le_of_lt (Nat.zero_le _) w.isLt
  have hcount := Nat.count_modEq_card s.assigned.length hpos w
  rw [Nat.mod_eq_of_lt w.isLt, Nat.count_eq_card_filter_range] at hcount
  have hfilter : s.given w = s.assigned.filter (fun c => decide (c.turn ≡ w [MOD W])) := by
    rw [h.given_eq]
    apply List.filter_congr
    intro c _
    simp only [Nat.ModEq, Nat.mod_eq_of_lt w.isLt]
  have hturns
      : (s.given w).map Conn.turn = (List.range s.assigned.length).filter (fun i => decide (i ≡ w [MOD W])) := by
    rw [hfilter, ← h.turn_eq, List.filter_map]
    rfl
  rw [← hcount, ← List.length_map (f := Conn.turn), hturns]
  rfl

end Dealt

theorem Step.assigned_fd (hstep : Step s l s')
    : s'.assigned.map Conn.fd = s.assigned.map Conn.fd ++ l.fd?.toList := by
  change s.step l = some s' at hstep
  cases l with
  | assignNewConnection fd =>
    simp only [step, assignNewConnection] at hstep
    split at hstep
    . split at hstep
      . cases hstep
        apply List.map_append
      . cases hstep
    . cases hstep
  | writeNotice ok =>
    simp only [step, writeNotice] at hstep
    split at hstep
    . cases hstep
    . split at hstep
      all_goals
        cases hstep
        exact (List.append_nil _).symm
  | readNotice w ok =>
    simp only [step, readNotice] at hstep
    split at hstep
    . split at hstep
      all_goals
        cases hstep
        exact (List.append_nil _).symm
    . cases hstep
  | getNewConnection w =>
    simp only [step, getNewConnection] at hstep
    split at hstep
    . cases hstep
    . split at hstep
      . cases hstep
      . cases hstep
        exact (List.append_nil _).symm

theorem assigned_fd (h : Run.Reaches Step (init : Handoff W) ls s)
    : s.assigned.map Conn.fd = ls.filterMap Label.fd? := by
  induction h with
  | nil => rfl
  | @snoc ls t u l _ hstep ih =>
    rw [Step.assigned_fd hstep, ih, List.filterMap_append]
    cases l <;> rfl

theorem div_ceil (hpos : 0 < W) (hmod : 0 < n % W) : (n + W - 1) / W = n / W + 1 := by
  have hdiv := Nat.div_add_mod n W
  have hlt := Nat.mod_lt n hpos
  have hsum : n + W - 1 = (n % W - 1) + W * (n / W + 1) := by
    rw [Nat.mul_add_one]
    omega
  rw [hsum, Nat.add_mul_div_left _ _ hpos, Nat.div_eq_of_lt (by omega), Nat.zero_add]

/--
Whatever the main thread and the workers do next, and whichever writes fail: a worker that has read a notice finds
a connection; the connections a worker takes are the ones given to it, in their order, which are those whose
turn it was, so that no two workers and no worker twice take the same one; the notices of a worker are all read,
in the socket or in its slot, one for each connection given to it; and no worker has been given more than one
connection more than another.
-/
theorem handoff_exact (h : Run.Reaches Step (init : Handoff W) ls s)
    : s.assigned.map Conn.fd = ls.filterMap Label.fd? ∧
      s.assigned.map Conn.turn = List.range s.assigned.length ∧
      (∀ w, s.handler w = .notified → ∃ c rest, s.connQueue w = c :: rest) ∧
      (∀ w, s.taken w ++ s.connQueue w = s.given w ∧
        s.given w = s.assigned.filter (fun c => c.turn % W = w) ∧ (s.taken w).Nodup) ∧
      (∀ c v w, c ∈ s.taken v → c ∈ s.taken w → v = w) ∧
      (∀ w, s.bytesRead w + (s.channel w).inFlight + (s.channel w).waitToNotify = (s.given w).length) ∧
      ∀ w, (s.given w).length = s.assigned.length / W ∨
        (s.given w).length = (s.assigned.length + W - 1) / W := by
  have hdealt := Dealt.of_reaches h
  refine ⟨assigned_fd h, hdealt.turn_eq, ?_, ?_, ?_, ?_, ?_⟩
  . intro w hw
    exact List.exists_cons_of_ne_nil (hdealt.connQueue_ne_nil hw)
  . intro w
    refine ⟨hdealt.taken_append w, hdealt.given_eq w, ?_⟩
    have hnodup := hdealt.nodup_given w
    rw [← hdealt.taken_append w] at hnodup
    exact hnodup.of_append_left
  . intro c v w hv hw
    apply Fin.ext
    rw [← hdealt.mem_given hv, hdealt.mem_given hw]
  . intro w
    have hread := hdealt.read_add_total w
    simp only [Channel.total] at hread
    omega
  . intro w
    have hpos : 0 < W := Nat.lt_of_le_of_lt (Nat.zero_le _) w.isLt
    have hlength := hdealt.length_given w
    split at hlength
    . next hlt =>
      right
      rw [hlength, div_ceil hpos (by omega)]
    . left
      exact hlength

theorem handoff_exact_retried
    : ∃ s : Handoff 1,
        Run.Reaches Step init
          [.assignNewConnection 7, .writeNotice false, .assignNewConnection 8, .writeNotice true, .readNotice 0 true] s ∧
        s.handler 0 = .notified ∧ ∃ c rest, s.connQueue 0 = c :: rest := by
  have hreach : ∃ s : Handoff 1,
      Run.Reaches Step init
        [.assignNewConnection 7, .writeNotice false, .assignNewConnection 8, .writeNotice true, .readNotice 0 true] s ∧
      s.handler 0 = .notified :=
    ⟨_, .snoc (.snoc (.snoc (.snoc (.single (by exact rfl)) (by exact rfl)) (by exact rfl)) (by exact rfl))
      (by exact rfl), rfl⟩
  obtain ⟨s, hreach, hw⟩ := hreach
  exact ⟨s, hreach, hw, (handoff_exact hreach).2.2.1 0 hw⟩

end Handoff
end Kids
