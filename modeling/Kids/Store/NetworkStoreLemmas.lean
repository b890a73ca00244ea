import Kids.Store.AgentLemmas
import Kids.Store.BufferStoreLemmas
import Kids.Store.NetworkStore

/-!
Where the messages are that a buffer store over a network store has accepted. A message that was handed
to the agent is kept nowhere else, so a connection that closes takes the unanswered ones with it.
-/

namespace Kids
namespace BufferStore

section Tracks

variable {σ : Type}

/--
A primary store that keeps account of what it took: `R sent p` relates the messages that were sent to it to its state.
-/
structure Tracks (ops : StoreOps σ) (R : List Message → σ → Prop) : Prop where
  open_ : ∀ sent p, R sent p → R sent (ops.open_ p).2
  isOpen : ∀ sent p, R sent p → R sent (ops.isOpen p).2
  close : ∀ sent p, R sent p → R sent (ops.close p)
  cron : ∀ sent p, R sent p → R sent (ops.cron p)
  refuses : ∀ sent msg p p', R sent p → ops.addMessage msg p = (false, p') → R sent p'
  takes : ∀ sent msg p p', R sent p → ops.addMessage msg p = (true, p') → R (sent ++ [msg]) p'

def Tracked (R : List Message → σ → Prop) (s : BufferStore σ) : Prop :=
  R s.toPrimary s.primary

variable {ops : StoreOps σ} {R : List Message → σ → Prop} (hops : Tracks ops R) {s t : BufferStore σ}
include hops

theorem Tracked.addToPrimary (h : Tracked R s) (hadd : s.addToPrimary ops conf env msg = (left, t)) : Tracked R t := by
  have hopened := hops.isOpen _ _ h
  unfold BufferStore.addToPrimary at hadd
  dsimp only at hadd
  split at hadd
  . split at hadd
    . next p hp =>
      cases hadd
      rwa [hp] at hopened
    . next p hp =>
      rw [hp] at hopened
      split at hadd
      . next p' hp' =>
        cases hadd
        exact hops.refuses _ _ _ _ hopened hp'
      . next p' hp' =>
        cases hadd
        exact hops.takes _ _ _ _ hopened hp'
  . cases hadd
    exact h

omit hops in
theorem addToSecondary_frame (hadd : s.addToSecondary conf env msg = some (taken, t))
    : t.primary = s.primary ∧ t.toPrimary = s.toPrimary := by
  unfold BufferStore.addToSecondary at hadd
  dsimp only at hadd
  split at hadd
  . split at hadd
    . cases hadd
    . cases hadd
      exact ⟨rfl, rfl⟩
  . cases hadd
    exact ⟨rfl, rfl⟩

theorem Tracked.addMessage (h : Tracked R s) (hadd : s.addMessage ops conf env msg = some t) : Tracked R t := by
  have hdo : ∀ taken u, s.doAddMessage ops conf env msg = some (taken, u) → Tracked R u := by
    intro taken u hu
    unfold BufferStore.doAddMessage at hu
    split at hu
    . next s1 hs1 =>
      cases hu
      exact h.addToPrimary hops hs1
    . next s1 hs1 =>
      obtain ⟨hprimary, htaken⟩ := addToSecondary_frame hu
      unfold Tracked
      rw [hprimary, htaken]
      exact h.addToPrimary hops hs1
  unfold BufferStore.addMessage at hadd
  split at hadd
  . split at hadd
    . cases hadd
    . next u hu =>
      cases hadd
      exact hdo true u hu
    . next u hu =>
      cases hadd
      exact hdo false _ hu
  . cases hadd
    exact h

theorem tracks_transfer (budget : Nat) (queue sent : List Message) (primary : σ) (h : R sent primary)
    : R (sent ++ (transfer ops budget queue primary).sent) (transfer ops budget queue primary).primary := by
  induction budget generalizing queue sent primary with
  | zero => simpa [transfer] using h
  | succ budget ih =>
    cases queue with
    | nil => simpa [transfer] using h
    | cons msg queue =>
      unfold transfer
      split
      . next p hp =>
        have hrest := ih queue _ p (hops.takes _ _ _ _ h hp)
        rwa [List.append_assoc] at hrest
      . next p hp =>
        dsimp only
        rw [List.append_nil]
        exact hops.refuses _ _ _ _ h hp

theorem Tracked.cronPrimaryOpen (h : Tracked R s) : Tracked R (s.cronPrimaryOpen ops) := by
  have hisOpen := hops.isOpen _ _ h
  unfold BufferStore.cronPrimaryOpen
  split
  . split
    . next p hp => rwa [hp] at hisOpen
    . next p hp => rwa [hp] at hisOpen
  . exact h

theorem Tracked.cronTransfer (h : Tracked R s) : Tracked R (s.cronTransfer ops conf queue) :=
  tracks_transfer hops _ _ _ _ h

omit hops in
theorem Tracked.cronReadFile (h : Tracked R s) (hread : s.cronReadFile env queue = some t) : Tracked R t := by
  unfold BufferStore.cronReadFile at hread
  split at hread
  . dsimp only at hread
    split at hread
    . cases hread
    . cases hread
      exact h
  . cases hread
    exact h

omit hops in
theorem Tracked.cronFinish (h : Tracked R s) : Tracked R (s.cronFinish env queue) := by
  unfold BufferStore.cronFinish
  split
  . exact h
  . exact h

theorem Tracked.cronTransfering (h : Tracked R s) (hcron : s.cronTransfering ops conf env = some t) : Tracked R t := by
  unfold BufferStore.cronTransfering at hcron
  split at hcron
  . split at hcron
    . next queue hqueue =>
      dsimp only at hcron
      split at hcron
      . cases hcron
      . next u hu =>
        cases hcron
        apply Tracked.cronFinish
        exact (h.cronTransfer hops).cronReadFile hu
    . cases hcron
  . cases hcron
    exact h

theorem Tracked.cron (h : Tracked R s) (hcron : s.cron ops conf env = some t) : Tracked R t := by
  unfold BufferStore.cron at hcron
  split at hcron
  . split at hcron
    . cases hcron
    . next u hu =>
      obtain ⟨fs, -, rfl⟩ := Option.map_eq_some_iff.mp hcron
      exact hops.cron _ _ ((h.cronPrimaryOpen hops).cronTransfering hops hu)
  . cases hcron
    exact h

theorem Tracked.close (h : Tracked R s) (env : Env) : Tracked R (s.close ops env) := by
  have hclosed := hops.close _ _ h
  unfold BufferStore.close
  split
  . dsimp only
    split
    . exact hclosed
    . exact hclosed
  . exact h

theorem Tracked.step (h : Tracked R s) (hstep : s.step ops conf l = some t) : Tracked R t := by
  cases l with
  | addMessage env msg => exact h.addMessage hops hstep
  | cron env => exact h.cron hops hstep
  | close env =>
    cases hstep
    exact h.close hops env

end Tracks

end BufferStore

namespace NetworkStore

variable {s t : NetworkStore}

/--
The requests of the connection are on the wire or in the request buffer, in the order of their messages, and those that
are answered are on the wire to their ends. Without a connection none is outstanding.
-/
def Requested (s : NetworkStore) : Prop :=
  match s.agent with
  | none => s.wire = [] ∧ s.answered = [] ∧ s.outstanding = []
  | some agent => s.wire ++ agent.out.unsent = frames (s.answered ++ s.outstanding) ∧
      (frames s.answered).length ≤ s.wire.length

/--
What was sent to the store is outstanding, answered, lost with its connection or was never made a request.
-/
structure Holds (sent : List Message) (s : NetworkStore) : Prop where
  count_eq : ∀ m, sent.count m =
    s.outstanding.count m + s.acked.count m + s.rejected.count m + s.lost.count m + s.unlogged.count m
  requested : s.Requested
  wf : ∀ agent ∈ s.agent, agent.out.Wf

theorem Holds.close (h : Holds sent s) : Holds sent s.close := by
  unfold NetworkStore.close
  split
  . exact h
  . refine ⟨?_, ⟨rfl, rfl, rfl⟩, nofun⟩
    intro m
    have hcount := h.count_eq m
    simp only [List.count_nil, List.count_append]
    omega

-- a new agent has made no request
theorem Holds.open_ (h : Holds sent s) (env : NetworkEnv) : Holds sent (s.open_ env).2 := by
  obtain ⟨hcount, hclosed, hwf⟩ := h.close
  have hrequested := hclosed
  unfold Requested at hrequested
  rw [agent_close] at hrequested
  obtain ⟨hwire, hanswered, houtstanding⟩ := hrequested
  unfold NetworkStore.open_
  dsimp only
  split
  . exact ⟨hcount, hclosed, hwf⟩
  . refine ⟨hcount, ?_, ?_⟩
    . unfold Requested
      dsimp only
      rw [hwire, hanswered, houtstanding]
      split
      . exact ⟨rfl, rfl, rfl⟩
      . next agent hagent =>
        split at hagent
        . cases hagent
          exact ⟨rfl, Nat.le_refl 0⟩
        . cases hagent
    . intro agent hagent
      dsimp only at hagent
      split at hagent
      . cases hagent
        exact .inl rfl
      . cases hagent

theorem Holds.cron (h : Holds sent s) (env : NetworkEnv) : Holds sent (s.cron env) := by
  unfold NetworkStore.cron
  split
  . exact h
  . split
    . exact h.open_ env
    . exact h

-- a request is appended to those that wait, and nothing of it is sent
theorem unsent_log {agent agent' : Agent} (hwf : agent.out.Wf) (hdata : agent'.req.data = agent.req.data ++ frame m)
    (hsent : agent'.out.sentlen = agent.out.sentlen)
    : agent'.out.unsent = agent.out.unsent ++ frame m ∧ agent'.out.Wf := by
  unfold Outgoing.Wf Buffer.size at *
  unfold Outgoing.unsent
  unfold Agent.req at hdata
  rw [hdata, hsent]
  constructor
  . apply List.drop_append_of_le_length
    omega
  . rw [List.length_append]
    omega

theorem Holds.refused (h : Holds sent s) (hadd : s.doAddMessage env msg = (false, t)) : Holds sent t := by
  unfold NetworkStore.doAddMessage at hadd
  split at hadd
  . cases hadd
    exact h
  . dsimp only at hadd
    split at hadd
    . cases hadd
    . split at hadd
      . cases hadd
      . cases hadd

theorem Holds.unlogged (h : Holds sent s) (msg : Message) (state : StoreState) (undefined : Bool)
    : Holds (sent ++ [msg])
        { s with state := state, unlogged := s.unlogged ++ [msg], undefined := undefined } := by
  refine ⟨?_, h.requested, h.wf⟩
  intro m
  have := h.count_eq m
  simp only [List.count_append]
  omega

theorem Holds.doAddMessage (h : Holds sent s) (hadd : s.doAddMessage env msg = (true, t))
    : Holds (sent ++ [msg]) t := by
  have hrequested := h.requested
  unfold NetworkStore.doAddMessage at hadd
  unfold Requested at hrequested
  split at hadd
  . cases hadd
  . next agent hagent =>
    rw [hagent] at hrequested
    obtain ⟨hwire, hanswered⟩ := hrequested
    dsimp only at hadd
    split at hadd
    . cases hadd
      exact h.unlogged msg .sending true
    . next agent' hlog =>
      split at hadd
      . next hevent =>
        cases hadd
        obtain ⟨-, hdata, hsent, -⟩ | ⟨hnone, -⟩ := Agent.log_cases hlog
        . obtain ⟨hunsent, hwf'⟩ := unsent_log (h.wf agent hagent) hdata hsent
          refine ⟨?_, ⟨?_, hanswered⟩, ?_⟩
          . intro m
            have := h.count_eq m
            simp only [List.count_append]
            omega
          . dsimp only
            rw [hunsent, ← List.append_assoc, hwire, ← List.append_assoc, frames_concat]
          . rintro agent'' ⟨⟩
            exact hwf'
        . rw [hevent] at hnone
          cases hnone
      . next hevent =>
        cases hadd
        obtain ⟨hsome, -⟩ | ⟨-, rfl⟩ := Agent.log_cases hlog
        . exact absurd hsome hevent
        . rw [← hagent]
          exact h.unlogged msg .sending s.undefined

theorem Holds.processResult (h : Holds sent s) (line : Bytes) : Holds sent (s.processResult line) := by
  obtain ⟨hcount, hrequested, hwf⟩ := h
  unfold NetworkStore.processResult onMsgSent
  dsimp only
  split
  . exact ⟨hcount, hrequested, hwf⟩
  . next m rest hout =>
    split
    . exact ⟨hcount, hrequested, hwf⟩
    . next hthere =>
      have hanswer : ∀ acked rejected,
          (∀ m', acked.count m' + rejected.count m' = s.acked.count m' + s.rejected.count m' + [m].count m') →
          Holds sent { s with
            state := .free, answered := s.answered ++ [m], outstanding := rest, acked := acked, rejected := rejected } := by
        intro acked rejected hmore
        refine ⟨?_, ?_, hwf⟩
        . intro m'
          have hsent := hcount m'
          have := hmore m'
          rw [hout, ← List.singleton_append, List.count_append] at hsent
          dsimp only
          omega
        . unfold Requested at hrequested ⊢
          dsimp only
          split
          . next hagent =>
            rw [hagent, hout] at hrequested
            cases hrequested.2.2
          . next agent hagent =>
            rw [hagent, hout] at hrequested
            rw [List.append_assoc, List.singleton_append]
            exact ⟨hrequested.1, by omega⟩
      split
      . apply hanswer
        intro m'
        rw [List.count_append]
        omega
      . apply hanswer
        intro m'
        rw [List.count_append]
        omega

theorem Holds.processResults (h : Holds sent s) (lines : List Bytes)
    : Holds sent (lines.foldl NetworkStore.processResult s) := by
  induction lines generalizing s with
  | nil => exact h
  | cons line lines ih =>
    rw [List.foldl_cons]
    exact ih (h.processResult line)

theorem Holds.sendRequest (h : Holds sent s) (hsend : s.sendRequest rs = some t) : Holds sent t := by
  obtain ⟨hcount, hrequested, hwf⟩ := h
  unfold NetworkStore.sendRequest at hsend
  split at hsend
  . cases hsend
    exact ⟨hcount, hrequested, hwf⟩
  . next agent hagent =>
    unfold Requested at hrequested
    rw [hagent] at hrequested
    obtain ⟨hwire, hanswered⟩ := hrequested
    split at hsend
    . cases hsend
    . next agent' bytes disconnect hsent =>
      obtain ⟨hunsent, hwf'⟩ := Agent.unsent_sendRequest (hwf agent hagent) hsent
      have hstep : Holds sent { s with agent := some agent', wire := s.wire ++ bytes } := by
        refine ⟨hcount, ⟨?_, ?_⟩, ?_⟩
        . dsimp only at hunsent ⊢
          rw [List.append_assoc, ← hunsent]
          exact hwire
        . dsimp only
          rw [List.length_append]
          omega
        . rintro agent'' ⟨⟩
          exact hwf'
      cases hsend
      split
      . exact hstep.close
      . exact hstep

theorem Holds.readReply (h : Holds sent s) (hread : s.readReply r = some t) : Holds sent t := by
  obtain ⟨hcount, hrequested, hwf⟩ := h
  unfold NetworkStore.readReply at hread
  split at hread
  . cases hread
    exact ⟨hcount, hrequested, hwf⟩
  . next agent hagent =>
    unfold Requested at hrequested
    rw [hagent] at hrequested
    split at hread
    . cases hread
    . next agent' lines disconnect hreply =>
      have hout : agent'.out = agent.out := Agent.out_readReply hreply
      have hstep : Holds sent { s with agent := some agent' } := by
        refine ⟨hcount, ?_, ?_⟩
        . unfold Requested
          dsimp only
          rw [hout]
          exact hrequested
        . rintro agent'' ⟨⟩
          rw [hout]
          exact hwf agent hagent
      cases hread
      split
      . exact (hstep.processResults lines).close
      . exact hstep.processResults lines

theorem tracks_ops (topicMatch : Bytes → Bool) (env : NetworkEnv)
    : BufferStore.Tracks (ops topicMatch env) Holds where
  open_ := fun _ _ h => h.open_ env
  isOpen := fun _ _ h => h
  close := fun _ _ h => h.close
  cron := fun _ _ h => h.cron env
  refuses := by
    intro sent msg p p' h hadd
    dsimp only [ops] at hadd
    split at hadd
    . exact h.refused hadd
    . cases hadd
      exact h
  takes := by
    intro sent msg p p' h hadd
    dsimp only [ops] at hadd
    split at hadd
    . exact h.doAddMessage hadd
    . cases hadd

end NetworkStore

namespace BufferStore

/--
A message that goes to a file has a topic and content.
-/
def NetworkStep (topicMatch : Bytes → Bool) (conf : BufferConfig) (s : BufferStore NetworkStore) (l : NetworkLabel)
    (t : BufferStore NetworkStore) : Prop :=
  (∀ net env m, l = .call net (.addMessage env m) → WritesFile (NetworkStore.ops topicMatch net) conf s m →
    File.NonEmpty m) ∧ s.networkStep topicMatch conf l = some t

structure NetworkInv (before : UInt64) (s : BufferStore NetworkStore) : Prop where
  accounted : Accounted s
  tracked : Tracked NetworkStore.Holds s
  drops : s.CountsDrops before

theorem NetworkStep.keeps (hstep : NetworkStep topicMatch conf s l t) (h : NetworkInv before s)
    : NetworkInv before t := by
  obtain ⟨hne, hstep⟩ := hstep
  obtain ⟨hacc, htracked, hdrops⟩ := h
  -- the agent moves and the rest of the store does not
  have hsame : ∀ primary, NetworkStore.Holds s.toPrimary primary → NetworkInv before { s with primary := primary } :=
    fun primary hholds => ⟨⟨hacc.wf, hacc.count_eq, hacc.queue_of_transfering, hacc.no_queue⟩, hholds, hdrops⟩
  cases l with
  | call net k =>
    simp only [networkStep] at hstep
    split at hstep
    . cases hstep
    . next u hu =>
      split at hstep
      . cases hstep
      . cases hstep
        exact ⟨hacc.keeps (fun env m heq => hne net env m (by rw [heq])) hu,
          htracked.step (NetworkStore.tracks_ops topicMatch net) hu, hdrops.step hu⟩
  | sendRequest rs =>
    simp only [networkStep, Option.map_eq_some_iff] at hstep
    obtain ⟨primary, hprimary, rfl⟩ := hstep
    exact hsame primary (htracked.sendRequest hprimary)
  | readReply r =>
    simp only [networkStep, Option.map_eq_some_iff] at hstep
    obtain ⟨primary, hprimary, rfl⟩ := hstep
    exact hsame primary (htracked.readReply hprimary)

def NetworkLabel.NonEmpty : NetworkLabel → Prop
  | .call _ l => l.NonEmpty
  | _ => True

instance (l : NetworkLabel) : Decidable l.NonEmpty :=
  match l with
  | .call _ (.addMessage _ _) => inferInstanceAs (Decidable (_ ∧ _))
  | .call _ (.cron _) | .call _ (.close _) | .sendRequest _ | .readReply _ => isTrue trivial

-- a primary store that is connected at once, and an empty directory
def connected : BufferStore NetworkStore :=
  open_ (NetworkStore.ops (fun _ => true) ⟨0, some 5, true⟩) anyTopic .init ⟨[], none, 600, 0⟩ ⟨0, 0, 0⟩ ⟨1, 1, 0, 1⟩

def log (b : UInt8) : NetworkLabel :=
  .call ⟨0, none, true⟩ (.addMessage ⟨1, 1, 0, 1⟩ (.ofBytes 97 b))

end BufferStore
end Kids
