import Kids.GoClient.Routine

/-!
Which runs of the Go client give every call the reply to its command and every pushed frame to the `Logs`
channel, and return every call when nothing more happens.
-/

namespace Kids

open Bytes

namespace GoClient

def Caller.pending : Caller → List Call
  | .idle => []
  | .sent c => [c]
  | .waiting c => [c]

def Reader.frames : Reader → List Frame
  | .selecting f => [f]
  | _ => []

def Reader.logs : Reader → List Log
  | .sending l => [l]
  | _ => []

def Frame.call : Frame → Option Call
  | .reply c _ => some c
  | .push _ => none

-- a reply, as its call is to return it
def Frame.outcome : Frame → Option (Call × Outcome)
  | .reply c a => some (c, c.returns a.fields)
  | .push _ => none

def Frame.log : Frame → Option Log
  | .reply _ _ => none
  | .push p => some p.log

namespace Routine

def onTheWay (s : Routine) : List Frame :=
  s.reader.frames ++ s.wire

/--
The calls have returned the replies to their commands, in order, and what the server has answered beyond that is
on its way. The call that has not returned has its command or its reply on the way. What was pushed is on the
`Logs` channel, behind it, or on the way to it.
-/
structure Kept (s : Routine) : Prop where
  returned : s.returned ++ s.onTheWay.filterMap Frame.outcome =
    s.answered.map (fun (c, a) => (c, c.returns a.fields))
  pending : s.caller.pending = s.onTheWay.filterMap Frame.call ++ s.requests
  delivered : s.taken ++ s.logs ++ s.reader.logs ++ s.onTheWay.filterMap Frame.log = s.pushed.map Pushed.log

-- what the client and the server do by themselves: the user makes no call and reads nothing
def Due : Label → Prop
  | .call _ | .push _ | .take => False
  | .wait | .answer _ | .recv | .select | .put => True

def AtRest (s : Routine) : Prop :=
  ∀ l, Due l → s.step l = some s

/--
Every call has returned the reply to its command, and every message is on the `Logs` channel.
-/
structure Served (s : Routine) : Prop where
  idle : s.caller = .idle
  returned : s.returned = s.answered.map (fun (c, a) => (c, c.returns a.fields))
  delivered : s.taken ++ s.logs = s.pushed.map Pushed.log

/--
The pairs are kept all along, and when nothing is left to do everything has arrived.
-/
structure Paired (ls : List Label) : Prop where
  kept : Run.Along step Kept init ls
  served : ∀ s, Run.Reaches (fun s l t => step s l = some t) init ls s → s.AtRest → s.Served

-- the reader has a message for which `out` has no room
def Blocked (s : Routine) : Prop :=
  s.reader.logs ≠ [] ∧ logsCap ≤ s.logs.length

/--
When the reader enters the `select` with a frame, a call waits if and only if the frame is a reply.
-/
def Meets (s : Routine) : Label → Prop
  | .select => ∀ f, s.reader = .selecting f → ((∃ c, s.caller = .waiting c) ↔ ∃ c a, f = .reply c a)
  | _ => True

theorem route_push (p : Pushed) : route p.fields = .log p.log := by
  cases p with
  | message topic content => rfl
  | pmessage topic content pattern => rfl

-- no reply looks like a message
theorem route_answer (a : Answer) : route a.fields = .drop := by
  cases a with
  | line sign text =>
    have hne : ∀ (name : Bytes) (b : UInt8), name.head? = some b → b ≠ sign.byte → toUpper (sign.byte :: text) ≠ name := by
      rintro name b hhead hb rfl
      cases sign with
      | _ => exact hb (Option.some.inj hhead).symm
    unfold route Answer.fields
    dsimp only
    rw [if_neg (hne _ 77 rfl (by cases sign <;> decide)), if_neg (hne _ 80 rfl (by cases sign <;> decide))]
  | subscribed k name count => cases k <;> rfl
  | unsubscribed k name count => cases k <;> rfl

theorem kept_init : Kept init where
  returned := rfl
  pending := rfl
  delivered := rfl

section

variable {s : Routine} {f : Frame} {c : Call}

-- what the waiting call is handed
theorem kept_handed_iff (h : Kept s) (hreader : s.reader = .selecting f) (hcaller : s.caller = .waiting c)
    : Kept { s with reader := .receiving, caller := .idle, returned := s.returned ++ [(c, c.returns f.fields)] } ↔
        ∃ c a, f = .reply c a := by
  obtain ⟨hreturned, hpending, hdelivered⟩ := h
  unfold onTheWay at hreturned hpending hdelivered
  rw [hreader] at hreturned hpending hdelivered
  rw [hcaller] at hpending
  cases f with
  | reply c' a =>
    refine iff_of_true ?_ ⟨c', a, rfl⟩
    obtain ⟨rfl, hrest⟩ : c = c' ∧ [] = s.wire.filterMap Frame.call ++ s.requests := by
      simpa [Caller.pending, Reader.frames, Frame.call] using hpending
    refine ⟨?_, hrest, ?_⟩
    . rw [← hreturned]
      exact List.append_assoc _ _ _
    . exact hdelivered
  | push p =>
    refine iff_of_false ?_ (fun ⟨_, _, h⟩ => nomatch h)
    -- the message is gone
    intro hkept
    have hlost := hkept.delivered
    rw [← hdelivered] at hlost
    have hlen := congrArg List.length hlost
    simp [onTheWay, Reader.frames, Frame.log, Reader.logs] at hlen

-- the `default` case
def onSelected (s : Routine) : Route → Option Routine
  | .log l => some { s with reader := .sending l }
  | .drop => some { s with reader := .receiving }
  | .outOfRange => none

theorem step_select (hreader : s.reader = .selecting f) (hcaller : ∀ c, s.caller ≠ .waiting c)
    : s.step .select = s.onSelected (route f.fields) := by
  unfold step
  rw [hreader]
  dsimp only
  cases hc : s.caller with
  | idle => cases route f.fields <;> simp only [onSelected, hc]
  | sent c => cases route f.fields <;> simp only [onSelected, hc]
  | waiting c => exact absurd hc (hcaller c)

theorem kept_routed_iff (h : Kept s) (hreader : s.reader = .selecting f) (hcaller : ∀ c, s.caller ≠ .waiting c)
    : ∃ t, s.step .select = some t ∧ (Kept t ↔ ¬∃ c a, f = .reply c a) := by
  obtain ⟨hreturned, hpending, hdelivered⟩ := h
  unfold onTheWay at hreturned hpending hdelivered
  rw [hreader] at hreturned hpending hdelivered
  rw [step_select hreader hcaller]
  cases f with
  | reply c a =>
    refine ⟨{ s with reader := .receiving }, ?_, iff_of_false ?_ (not_not_intro ⟨c, a, rfl⟩)⟩
    . rw [show route (Frame.reply c a).fields = .drop from route_answer a]
      rfl
    . -- the reply is dropped
      intro hkept
      have hlost := hkept.returned
      rw [← hreturned] at hlost
      have hlen := congrArg List.length hlost
      simp [onTheWay, Reader.frames, Frame.outcome] at hlen
  | push p =>
    refine ⟨{ s with reader := .sending p.log }, ?_, iff_of_true ?_ ?_⟩
    . rw [show route (Frame.push p).fields = .log p.log from route_push p]
      rfl
    . refine ⟨hreturned, hpending, ?_⟩
      rw [← hdelivered]
      simp [onTheWay, Reader.frames, Frame.log, Reader.logs]
    . rintro ⟨c, a, h⟩
      cases h

theorem kept_select_iff (h : Kept s) : ∃ t, s.step .select = some t ∧ (Kept t ↔ s.Meets .select) := by
  cases hreader : s.reader with
  | receiving =>
    refine ⟨s, by unfold step; rw [hreader], iff_of_true h fun f hf => ?_⟩
    rw [hreader] at hf
    cases hf
  | sending l =>
    refine ⟨s, by unfold step; rw [hreader], iff_of_true h fun f hf => ?_⟩
    rw [hreader] at hf
    cases hf
  | selecting f =>
    have hmeets : s.Meets .select ↔ ((∃ c, s.caller = .waiting c) ↔ ∃ c a, f = .reply c a) := by
      constructor
      . exact fun hall => hall f hreader
      . intro hiff f' hf'
        rw [hreader] at hf'
        cases hf'
        exact hiff
    rw [hmeets]
    by_cases hwaits : ∃ c, s.caller = .waiting c
    . obtain ⟨c, hc⟩ := hwaits
      refine ⟨_, by unfold step; rw [hreader, hc], (kept_handed_iff h hreader hc).trans ?_⟩
      exact (iff_true_left ⟨c, hc⟩).symm
    . obtain ⟨t, ht, hiff⟩ := kept_routed_iff h hreader fun c hc => hwaits ⟨c, hc⟩
      exact ⟨t, ht, hiff.trans (iff_false_left hwaits).symm⟩

theorem kept_call (c : Call) (h : Kept s) (hcaller : s.caller = .idle)
    : Kept { s with caller := .sent c, requests := s.requests ++ [c] } := by
  obtain ⟨hreturned, hpending, hdelivered⟩ := h
  refine ⟨hreturned, ?_, hdelivered⟩
  rw [hcaller] at hpending
  change [c] = s.onTheWay.filterMap Frame.call ++ (s.requests ++ [c])
  rw [← List.append_assoc, ← hpending]
  rfl

theorem kept_answer (a : Answer) {requests : List Call} (h : Kept s) (hrequests : s.requests = c :: requests)
    : Kept { s with requests := requests, wire := s.wire ++ [.reply c a], answered := s.answered ++ [(c, a)] } := by
  obtain ⟨hreturned, hpending, hdelivered⟩ := h
  unfold onTheWay at hreturned hpending hdelivered
  rw [hrequests] at hpending
  refine ⟨?_, ?_, ?_⟩
  . rw [List.map_append, ← hreturned]
    simp [onTheWay, Frame.outcome]
  . rw [hpending]
    simp [onTheWay, Frame.call]
  . rw [← hdelivered]
    simp [onTheWay, Frame.log]

theorem kept_push (p : Pushed) (h : Kept s)
    : Kept { s with wire := s.wire ++ [.push p], pushed := s.pushed ++ [p] } := by
  obtain ⟨hreturned, hpending, hdelivered⟩ := h
  unfold onTheWay at hreturned hpending hdelivered
  refine ⟨?_, ?_, ?_⟩
  . rw [← hreturned]
    simp [onTheWay, Frame.outcome]
  . rw [hpending]
    simp [onTheWay, Frame.call]
  . rw [List.map_append, ← hdelivered]
    simp [onTheWay, Frame.log]

theorem kept_recv {wire : List Frame} (h : Kept s) (hreader : s.reader = .receiving) (hwire : s.wire = f :: wire)
    : Kept { s with reader := .selecting f, wire := wire } := by
  obtain ⟨hreturned, hpending, hdelivered⟩ := h
  unfold onTheWay at hreturned hpending hdelivered
  rw [hreader, hwire] at hreturned hpending hdelivered
  exact ⟨hreturned, hpending, hdelivered⟩

theorem kept_put {l : Log} (h : Kept s) (hreader : s.reader = .sending l)
    : Kept { s with reader := .receiving, logs := s.logs ++ [l] } := by
  obtain ⟨hreturned, hpending, hdelivered⟩ := h
  unfold onTheWay at hreturned hpending hdelivered
  rw [hreader] at hreturned hpending hdelivered
  refine ⟨hreturned, hpending, ?_⟩
  rw [← hdelivered]
  simp [onTheWay, Reader.frames, Reader.logs]

theorem kept_take {l : Log} {logs : List Log} (h : Kept s) (hlogs : s.logs = l :: logs)
    : Kept { s with logs := logs, taken := s.taken ++ [l] } := by
  obtain ⟨hreturned, hpending, hdelivered⟩ := h
  refine ⟨hreturned, hpending, ?_⟩
  rw [← hdelivered, hlogs]
  simp [onTheWay]

theorem kept_step_iff (l : Label) (h : Kept s) : ∃ t, s.step l = some t ∧ (Kept t ↔ s.Meets l) := by
  have hquiet : ∀ {t : Routine}, Kept t → s.step l = some t → s.Meets l →
      ∃ t, s.step l = some t ∧ (Kept t ↔ s.Meets l) :=
    fun hkept hstep hmeets => ⟨_, hstep, iff_of_true hkept hmeets⟩
  cases l with
  | call c =>
    cases hcaller : s.caller with
    | idle => exact hquiet (kept_call c h hcaller) (by unfold step; rw [hcaller]) trivial
    | sent _ => exact hquiet h (by unfold step; rw [hcaller]) trivial
    | waiting _ => exact hquiet h (by unfold step; rw [hcaller]) trivial
  | wait =>
    cases hcaller : s.caller with
    | idle => exact hquiet h (by unfold step; rw [hcaller]) trivial
    | sent c =>
      refine hquiet (t := { s with caller := .waiting c }) ?_ (by unfold step; rw [hcaller]) trivial
      have hpending := h.pending
      rw [hcaller] at hpending
      exact ⟨h.returned, hpending, h.delivered⟩
    | waiting _ => exact hquiet h (by unfold step; rw [hcaller]) trivial
  | answer a =>
    cases hrequests : s.requests with
    | nil => exact hquiet h (by unfold step; rw [hrequests]) trivial
    | cons c requests => exact hquiet (kept_answer a h hrequests) (by unfold step; rw [hrequests]) trivial
  | push p => exact hquiet (kept_push p h) rfl trivial
  | recv =>
    cases hreader : s.reader with
    | receiving =>
      cases hwire : s.wire with
      | nil => exact hquiet h (by unfold step; rw [hreader, hwire]) trivial
      | cons f wire => exact hquiet (kept_recv h hreader hwire) (by unfold step; rw [hreader, hwire]) trivial
    | selecting f => exact hquiet h (by unfold step; rw [hreader]) trivial
    | sending l => exact hquiet h (by unfold step; rw [hreader]) trivial
  | select => exact kept_select_iff h
  | put =>
    cases hreader : s.reader with
    | receiving => exact hquiet h (by unfold step; rw [hreader]) trivial
    | selecting f => exact hquiet h (by unfold step; rw [hreader]) trivial
    | sending l =>
      by_cases hroom : s.logs.length < logsCap
      . exact hquiet (kept_put h hreader) (by unfold step; rw [hreader]; exact if_pos hroom) trivial
      . exact hquiet h (by unfold step; rw [hreader]; exact if_neg hroom) trivial
  | take =>
    cases hlogs : s.logs with
    | nil => exact hquiet h (by unfold step; rw [hlogs]) trivial
    | cons l logs => exact hquiet (kept_take h hlogs) (by unfold step; rw [hlogs]) trivial

-- the steps that are due come to an end

def Caller.work : Caller → Nat
  | .sent _ => 1
  | _ => 0

def Reader.work : Reader → Nat
  | .receiving => 0
  | .selecting _ => 2
  | .sending _ => 1

def work (s : Routine) : Nat :=
  4 * s.requests.length + 3 * s.wire.length + Reader.work s.reader + Caller.work s.caller

theorem exists_route (f : Frame) : route f.fields = .drop ∨ ∃ l, route f.fields = .log l := by
  cases f with
  | reply c a => exact .inl (route_answer a)
  | push p => exact .inr ⟨p.log, route_push p⟩

theorem work_select (hreader : s.reader = .selecting f) : ∃ t, s.step .select = some t ∧ t.work < s.work := by
  by_cases hwaits : ∃ c, s.caller = .waiting c
  . obtain ⟨c, hc⟩ := hwaits
    refine ⟨_, by unfold step; rw [hreader, hc], ?_⟩
    simp only [work, hreader, hc, Reader.work, Caller.work]
    omega
  . rw [step_select hreader fun c hc => hwaits ⟨c, hc⟩]
    rcases exists_route f with hroute | ⟨l, hroute⟩
    . refine ⟨_, by rw [hroute]; rfl, ?_⟩
      simp only [work, hreader, Reader.work]
      omega
    . refine ⟨_, by rw [hroute]; rfl, ?_⟩
      simp only [work, hreader, Reader.work]
      omega

theorem work_step {l : Label} (hl : Due l) : ∃ t, s.step l = some t ∧ (t = s ∨ t.work < s.work) := by
  cases l with
  | call _ | push _ | take => exact hl.elim
  | select =>
    cases hreader : s.reader with
    | receiving => exact ⟨s, by unfold step; rw [hreader], .inl rfl⟩
    | sending l => exact ⟨s, by unfold step; rw [hreader], .inl rfl⟩
    | selecting f =>
      obtain ⟨t, hstep, hless⟩ := work_select hreader
      exact ⟨t, hstep, .inr hless⟩
  | wait =>
    cases hcaller : s.caller with
    | idle => exact ⟨s, by unfold step; rw [hcaller], .inl rfl⟩
    | waiting c => exact ⟨s, by unfold step; rw [hcaller], .inl rfl⟩
    | sent c =>
      refine ⟨_, by unfold step; rw [hcaller], .inr ?_⟩
      simp only [work, hcaller, Caller.work]
      omega
  | answer a =>
    cases hrequests : s.requests with
    | nil => exact ⟨s, by unfold step; rw [hrequests], .inl rfl⟩
    | cons c requests =>
      refine ⟨_, by unfold step; rw [hrequests], .inr ?_⟩
      simp only [work, hrequests, List.length_append, List.length_cons, List.length_nil]
      omega
  | recv =>
    cases hreader : s.reader with
    | selecting f => exact ⟨s, by unfold step; rw [hreader], .inl rfl⟩
    | sending l => exact ⟨s, by unfold step; rw [hreader], .inl rfl⟩
    | receiving =>
      cases hwire : s.wire with
      | nil => exact ⟨s, by unfold step; rw [hreader, hwire], .inl rfl⟩
      | cons f wire =>
        refine ⟨_, by unfold step; rw [hreader, hwire], .inr ?_⟩
        simp only [work, hreader, hwire, Reader.work, List.length_cons]
        omega
  | put =>
    cases hreader : s.reader with
    | receiving => exact ⟨s, by unfold step; rw [hreader], .inl rfl⟩
    | selecting f => exact ⟨s, by unfold step; rw [hreader], .inl rfl⟩
    | sending l =>
      by_cases hroom : s.logs.length < logsCap
      . refine ⟨_, by unfold step; rw [hreader]; exact if_pos hroom, .inr ?_⟩
        simp only [work, hreader, Reader.work]
        omega
      . exact ⟨s, by unfold step; rw [hreader]; exact if_neg hroom, .inl rfl⟩

/--
Nothing keeps the client from coming to rest.
-/
theorem exists_atRest (s : Routine)
    : ∃ ls t, (∀ l ∈ ls, Due l) ∧ Run.Reaches (fun s l t => step s l = some t) s ls t ∧ t.AtRest := by
  induction hwork : s.work using Nat.strong_induction_on generalizing s with
  | _ n ih =>
    by_cases hrest : s.AtRest
    . exact ⟨[], s, nofun, .nil, hrest⟩
    . unfold AtRest at hrest
      simp only [not_forall] at hrest
      obtain ⟨l, hl, hchanges⟩ := hrest
      obtain ⟨u, hstep, rfl | hless⟩ := work_step (s := s) hl
      . exact absurd hstep hchanges
      . obtain ⟨ls, t, hls, hreaches, ht⟩ := ih u.work (hwork ▸ hless) u rfl
        exact ⟨l :: ls, t, List.forall_mem_cons.mpr ⟨hl, hls⟩, (Run.Reaches.single hstep).trans hreaches, ht⟩

-- what is left at rest

theorem AtRest.requests (h : s.AtRest) : s.requests = [] := by
  cases hrequests : s.requests with
  | nil => rfl
  | cons c requests =>
    have hstep := h (.answer (.line .ok [])) trivial
    unfold step at hstep
    rw [hrequests] at hstep
    have hanswered := congrArg (fun s => s.answered.length) (Option.some.inj hstep)
    simp at hanswered

theorem AtRest.receiving (h : s.AtRest) (hroom : ¬s.Blocked) : s.reader = .receiving := by
  cases hreader : s.reader with
  | receiving => rfl
  | selecting f =>
    obtain ⟨t, ht, hless⟩ := work_select hreader
    obtain rfl := Option.some.inj ((h .select trivial).symm.trans ht)
    exact absurd hless (Nat.lt_irrefl _)
  | sending l =>
    have hlogs : s.reader.logs ≠ [] := by
      rw [hreader]
      exact List.cons_ne_nil l []
    have hput := h .put trivial
    unfold step at hput
    rw [hreader] at hput
    dsimp only at hput
    rw [if_pos (Nat.lt_of_not_le fun hfull => hroom ⟨hlogs, hfull⟩)] at hput
    have hsame := congrArg Routine.reader (Option.some.inj hput)
    rw [hreader] at hsame
    cases hsame

theorem AtRest.onTheWay (h : s.AtRest) (hreader : s.reader = .receiving) : s.onTheWay = [] := by
  have hwire : s.wire = [] := by
    cases hwire : s.wire with
    | nil => rfl
    | cons f wire =>
      have hstep := h .recv trivial
      unfold step at hstep
      rw [hreader, hwire] at hstep
      have hsame := congrArg Routine.reader (Option.some.inj hstep)
      rw [hreader] at hsame
      cases hsame
  unfold Routine.onTheWay
  rw [hreader, hwire]
  rfl

theorem Kept.served (h : Kept s) (hrest : s.AtRest) (hroom : ¬s.Blocked) : s.Served := by
  have hreceiving := hrest.receiving hroom
  obtain ⟨hreturned, hpending, hdelivered⟩ := h
  rw [hrest.onTheWay hreceiving] at hreturned hpending hdelivered
  rw [hrest.requests] at hpending
  rw [hreceiving] at hdelivered
  refine ⟨?_, by simpa using hreturned, by simpa [Reader.logs] using hdelivered⟩
  cases hcaller : s.caller with
  | idle => rfl
  | sent c =>
    rw [hcaller] at hpending
    cases hpending
  | waiting c =>
    rw [hcaller] at hpending
    cases hpending

-- the message that has no room is not on the channel
theorem Served.not_blocked (h : s.Served) (hkept : Kept s) : ¬s.Blocked := by
  rintro ⟨hlogs, -⟩
  apply hlogs
  have hdelivered := hkept.delivered
  rw [← h.delivered] at hdelivered
  have hlen := congrArg List.length hdelivered
  simp only [List.length_append] at hlen
  apply List.eq_nil_of_length_eq_zero
  omega

end

theorem kept_along_iff (ls : List Label) : Run.Along step Kept init ls ↔ Run.Meets step Meets init ls := by
  apply Run.Along.iff_meets (fun _ => True) (fun _ => True) trivial kept_init (fun _ _ => trivial)
  intro s l _ h _
  obtain ⟨t, ht, hiff⟩ := kept_step_iff l h
  exact ⟨t, ht, trivial, hiff⟩

/--
Exactly the runs in which no frame finds the caller at the wrong place, and at the end of which no message waits for
room, give every call its reply and lose nothing.
-/
theorem paired_iff (ls : List Label)
    : Paired ls ↔ Run.Meets step Meets init ls ∧
        ∀ s, Run.Reaches (fun s l t => step s l = some t) init ls s → s.AtRest → ¬s.Blocked := by
  constructor
  . rintro ⟨hkept, hserved⟩
    refine ⟨(kept_along_iff ls).mp hkept, fun s hreaches hrest => ?_⟩
    exact (hserved s hreaches hrest).not_blocked (hkept.last hreaches)
  . rintro ⟨hmeets, hroom⟩
    have hkept := (kept_along_iff ls).mpr hmeets
    exact ⟨hkept, fun s hreaches hrest => (hkept.last hreaches).served hrest (hroom s hreaches hrest)⟩

-- a message for the topic that was subscribed arrives while the call of `Log` waits
theorem paired_fails_message : ¬∀ ls, Paired ls := by
  intro hall
  have hkept := (hall [.call (.subscribe [97]), .wait, .answer (.subscribed .topic [97] 1), .recv, .select,
    .call (.log [97] [98]), .wait, .push (.message [97] [99]), .recv, .select]).kept
  obtain ⟨-, _, ⟨⟩, -, _, ⟨⟩, -, _, ⟨⟩, -, _, ⟨⟩, -, _, ⟨⟩, -, _, ⟨⟩, -, _, ⟨⟩, -, _, ⟨⟩, -, _, ⟨⟩, -, _, ⟨⟩, hkept⟩ := hkept
  cases hkept.delivered

end Routine
end GoClient
end Kids
