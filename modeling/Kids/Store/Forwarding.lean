import Kids.Client.Chunking
import Kids.Client.Encoding
import Kids.Lib.Run
import Kids.Store.AgentLemmas

/-!
Two kids and the connection between them: an agent that logs messages on one side, a client that reads
the bytes on the other. What the client dispatches is a beginning of what the agent logged.
-/

namespace Kids

open Bytes

namespace Request

theorem readRequest_eq_feed (c : Request) (buf : Bytes) (hne : buf ≠ [])
    (hle : c.req.size + buf.length ≤ maxQuerybufLen)
    : c.readRequest buf = (c.feed buf).map fun (c, evs) => ⟨c, evs, false⟩ := by
  have hroom : c.req.data.length + buf.length + 1 < uint32Size := by
    unfold Buffer.size at hle
    simp only [maxQuerybufLen] at hle
    simp only [uint32Size]
    omega
  obtain ⟨req, hreq, hdata⟩ := c.req.append_spec buf hroom
  unfold readRequest feed
  rw [if_neg (by simpa using hne), hreq]
  dsimp only
  rw [if_neg]
  unfold Buffer.size at hle ⊢
  rw [hdata, List.length_append]
  omega

end Request

namespace RequestControl

theorem reads_frame (msg : Message) (h : msg.FitsBulk)
    : requestMachine.Reads Bounded init (frame msg) [.command (logCommand msg)] init := by
  have hreads := reads_command (logCommand msg) (by simp [logCommand]) (by simp [logCommand, maxMultibulkLen]) ?_
  . -- "LOG" is not "quit", so the client stays open
    have hquit : Request.isQuit (logCommand msg) = false := by
      simp only [Request.isQuit, logCommand, List.headD_cons]
      decide
    simpa [frame, dispatch, hquit] using hreads
  . simp only [logCommand, List.mem_cons, List.not_mem_nil, or_false]
    rintro arg (rfl | rfl | rfl)
    . decide
    . exact h.1
    . exact h.2

theorem reads_frames (msgs : List Message) (h : ∀ msg ∈ msgs, msg.FitsBulk)
    : requestMachine.Reads Bounded init (frames msgs) (msgs.map fun msg => .command (logCommand msg)) init := by
  induction msgs with
  | nil => exact .nil _
  | cons msg msgs ih =>
    rw [List.forall_mem_cons] at h
    exact (reads_frame msg h.1).trans (ih h.2)

theorem logCommand_small (msg : Message) (h : msg.FitsBulk)
    : ∀ arg ∈ [ofString "LOG", msg.topic.data], arg.length ≤ maxBulkLen.toNat := by
  simp only [List.mem_cons, List.not_mem_nil, or_false]
  rintro arg (rfl | rfl)
  . decide
  . exact h.1

/--
For each command that was found in a part of the requests, the request is there to its end.
-/
theorem frames_of_completes (msgs : List Message) (h : ∀ msg ∈ msgs, msg.FitsBulk) (hp : p <+: frames msgs)
    (hc : requestMachine.Completes init p evs q b) : frames (msgs.take evs.length) <+: p := by
  induction msgs generalizing p evs with
  | nil =>
    rw [List.take_nil]
    exact List.nil_prefix
  | cons msg msgs ih =>
    rw [List.forall_mem_cons] at h
    have hframes : frames (msg :: msgs) = frame msg ++ frames msgs := rfl
    rw [hframes] at hp
    by_cases hfirst : frame msg <+: p
    . obtain ⟨r, rfl⟩ := hfirst
      obtain ⟨evs', rfl, hrest⟩ := ((reads_frame msg h.1).steps.append r).completes hc
      have hr := ih h.2 ((List.prefix_append_right_inj _).mp hp) hrest
      exact (List.prefix_append_right_inj (frame msg)).mpr hr
    . have hpart : p <+: frame msg :=
        (List.prefix_or_prefix_of_prefix hp (List.prefix_append _ _)).resolve_right hfirst
      have hsilent : evs = [] := by
        refine silent_of_part [ofString "LOG", msg.topic.data] msg.content.data (by simp [maxMultibulkLen])
          (logCommand_small msg h.1) h.1.2 hpart ?_ hc
        rintro rfl
        exact hfirst List.prefix_rfl
      rw [hsilent]
      exact List.nil_prefix

end RequestControl

/--
`wire` is what the socket has taken from the agent, and `read` how much of it the client has read. The
agent is deleted when it is `closed`.
-/
structure Link where
  agent : Agent
  closed : Bool
  logged : List Message
  wire : Bytes
  read : Nat
  client : Request
  freed : Bool
  events : List RequestEvent

namespace Link

def init (fd : Int) : Link where
  agent := .create fd
  closed := false
  logged := []
  wire := []
  read := 0
  client := .init
  freed := false
  events := []

inductive Event
  | log (ae : Bool) (msg : Message)
  | sendRequest (rs : List WriteResult)
  | readRequest (n : Nat)

-- what the next `read` of the client returns if `n` bytes of what the socket took have arrived
def nextRead (s : Link) (n : Nat) : Bytes :=
  (s.wire.drop s.read).take (min n iobufLen)

def step (s : Link) : Event → Option Link
  | .log ae msg =>
    if s.closed then
      some s
    else
      match s.agent.log ae msg with
      | none => none
      | some agent => some { s with agent := agent, logged := s.logged ++ [msg] }
  | .sendRequest rs =>
    if s.closed then
      some s
    else
      match s.agent.sendRequest rs with
      | none => none
      | some ⟨agent, bytes, disconnect⟩ =>
        some { s with agent := agent, closed := disconnect, wire := s.wire ++ bytes }
  | .readRequest n =>
    -- with nothing to read there is no event
    if s.freed ∨ s.nextRead n = [] then
      some s
    else
      match s.client.readRequest (s.nextRead n) with
      | none => none
      | some ⟨client, evs, freed⟩ =>
        some { s with
          client := client
          freed := freed
          events := s.events ++ evs
          read := s.read + (s.nextRead n).length
        }

def Event.InRange : Event → Prop
  | .log _ msg => msg.FitsBulk
  | _ => True

def HasRoom (s : Link) : Event → Prop
  | .log ae msg => s.closed = false → s.agent.Room ae msg
  | _ => True

structure Forwarded (s : Link) : Prop where
  wire_prefix : s.wire <+: frames s.logged
  wire_unsent : s.wire ++ s.agent.out.unsent = frames s.logged
  writable_iff : s.closed = false → (s.agent.writable = true ↔ s.agent.req.size ≠ 0)
  open_ : s.freed = false
  events_prefix : ∃ k, s.events = (s.logged.take k).map fun msg => .command (logCommand msg)
  events_all : s.agent.req.size = 0 → s.read = s.wire.length →
    s.events = s.logged.map fun msg => .command (logCommand msg)

structure Inv (s : Link) : Prop where
  wf : s.agent.out.Wf
  size_lt : s.agent.req.size < intBound
  wire_unsent : s.wire ++ s.agent.out.unsent = frames s.logged
  writable_iff : s.closed = false → (s.agent.writable = true ↔ s.agent.req.size ≠ 0)
  inRange : ∀ msg ∈ s.logged, msg.FitsBulk
  open_ : s.freed = false
  read_le : s.read ≤ s.wire.length
  receives : ∃ b, s.client.Waits b ∧
    requestMachine.Completes .init (s.wire.take s.read) s.events s.client.control b

theorem inv_init (fd : Int) : (init fd).Inv where
  wf := .inl rfl
  size_lt := show 0 < intBound by decide
  wire_unsent := rfl
  writable_iff := fun _ => by simp [init, Agent.create, Agent.req, Buffer.size]
  inRange := by simp [init]
  open_ := rfl
  read_le := Nat.le_refl 0
  receives := ⟨[], Request.waits_init, .refl _ _, Request.next_nil _⟩

theorem Inv.read_prefix (h : Inv s) : s.wire.take s.read <+: frames s.logged := by
  apply (List.take_prefix s.read s.wire).trans
  rw [← h.wire_unsent]
  apply List.prefix_append

theorem Inv.client_bounded (h : Inv s)
    : s.client.closeAfterReply = false ∧ s.client.req.size ≤ maxBulkLen.toNat + 2 := by
  obtain ⟨b, hwaits, hcompl⟩ := h.receives
  obtain ⟨o, q, b', hcompl', hclosed, hlen⟩ :=
    (RequestControl.reads_frames s.logged h.inRange).completes (Request.next_nil _) ⟨rfl, by simp⟩ h.read_prefix
  obtain ⟨-, hcontrol, rfl⟩ := hcompl.unique hcompl'
  have hopen : s.client.closeAfterReply = false := by
    rw [← hcontrol] at hclosed
    exact hclosed
  refine ⟨hopen, ?_⟩
  unfold Buffer.size
  rw [hwaits.data_eq hopen]
  exact hlen

theorem Inv.log (h : Inv s) (hmsg : msg.FitsBulk) (hroom : s.closed = false → s.agent.Room ae msg)
    : ∃ t, s.step (.log ae msg) = some t ∧ Inv t := by
  unfold Link.step
  dsimp only
  by_cases hclosed : s.closed = true
  . rw [if_pos hclosed]
    exact ⟨s, rfl, h⟩
  . rw [if_neg hclosed]
    simp only [Bool.not_eq_true] at hclosed
    have hroom := hroom hclosed
    have hfits := hroom.fits
    obtain ⟨agent, hlog, hdata, hsent, hwritable⟩ :=
      s.agent.log_spec ae msg hroom (h.writable_iff hclosed).mpr
    rw [hlog]
    have hsize : agent.req.size = s.agent.req.size + (frame msg).length := by
      unfold Buffer.size
      rw [hdata, List.length_append]
    have hsent_le : s.agent.out.sentlen ≤ s.agent.req.data.length := by
      have := h.wf
      unfold Outgoing.Wf at this
      unfold Agent.req
      unfold Buffer.size at this
      omega
    have hunsent : agent.out.unsent = s.agent.out.unsent ++ frame msg := by
      unfold Outgoing.unsent
      unfold Agent.req at hdata hsent_le
      rw [hdata, hsent]
      exact List.drop_append_of_le_length hsent_le
    refine ⟨_, rfl, ?_, ?_, ?_, ?_, ?_, h.open_, h.read_le, h.receives⟩
    . have := h.wf
      unfold Outgoing.Wf at this ⊢
      unfold Agent.req at hsize
      dsimp only
      omega
    . dsimp only
      omega
    . dsimp only
      rw [hunsent, ← List.append_assoc, h.wire_unsent, frames_concat]
    . intro _
      have := List.length_pos_iff.mpr (frame_ne_nil msg)
      dsimp only
      simp only [hwritable, true_iff]
      omega
    . intro m hm
      simp only [List.mem_append, List.mem_singleton] at hm
      cases hm with
      | inl hm => exact h.inRange m hm
      | inr hm => rw [hm]; exact hmsg

theorem Inv.sendRequest (h : Inv s) : ∃ t, s.step (.sendRequest rs) = some t ∧ Inv t := by
  unfold Link.step
  dsimp only
  by_cases hclosed : s.closed = true
  . rw [if_pos hclosed]
    exact ⟨s, rfl, h⟩
  . rw [if_neg hclosed]
    simp only [Bool.not_eq_true] at hclosed
    obtain ⟨r, hr, hwf, hsize, hunsent, hwritable⟩ :=
      s.agent.sendRequest_spec rs h.wf h.size_lt (h.writable_iff hclosed)
    rw [hr]
    refine ⟨_, rfl, hwf, hsize, ?_, hwritable, h.inRange, h.open_, ?_, ?_⟩
    . dsimp only
      rw [List.append_assoc, ← hunsent]
      exact h.wire_unsent
    . have := h.read_le
      simp only [List.length_append]
      omega
    . -- the client has read nothing of the new bytes
      dsimp only
      rw [List.take_append_of_le_length h.read_le]
      exact h.receives

theorem Inv.readRequest (h : Inv s) : ∃ t, s.step (.readRequest n) = some t ∧ Inv t := by
  unfold Link.step
  dsimp only
  split
  . exact ⟨s, rfl, h⟩
  . next hread =>
    rw [not_or] at hread
    generalize hbuf : s.nextRead n = buf at hread ⊢
    have hlen : buf.length ≤ iobufLen ∧ buf.length ≤ s.wire.length - s.read := by
      rw [← hbuf]
      unfold nextRead
      simp only [List.length_take, List.length_drop]
      omega
    obtain ⟨hopen, hsmall⟩ := h.client_bounded
    have hle : s.client.req.size + buf.length ≤ maxQuerybufLen := by
      simp only [maxBulkLen] at hsmall
      simp only [iobufLen] at hlen
      simp only [maxQuerybufLen]
      omega
    rw [s.client.readRequest_eq_feed buf hread.2 hle]
    obtain ⟨b, hwaits, hcompl⟩ := h.receives
    obtain ⟨client, evs, b', hfeed, -, hwaits', hcompl'⟩ := s.client.feed_spec b buf hwaits (by
      simp only [maxQuerybufLen] at hle
      simp only [uint32Size]
      omega)
    rw [hfeed]
    simp only [Option.map_some]
    refine ⟨_, rfl, h.wf, h.size_lt, h.wire_unsent, h.writable_iff, h.inRange, rfl, ?_, b', hwaits', ?_⟩
    . have := h.read_le
      dsimp only
      omega
    . have htake : s.wire.take (s.read + buf.length) = s.wire.take s.read ++ buf := by
        rw [List.take_add]
        congr 1
        rw [← hbuf]
        unfold nextRead
        rw [List.take_eq_take_iff]
        simp
      dsimp only
      rw [htake]
      exact hcompl.append hcompl'

theorem Inv.step (h : Inv s) (hrange : e.InRange) (hroom : HasRoom s e) : ∃ t, s.step e = some t ∧ Inv t := by
  cases e with
  | log ae msg => exact h.log hrange hroom
  | sendRequest rs => exact h.sendRequest
  | readRequest n => exact h.readRequest

theorem Inv.forwarded (h : Inv s) : Forwarded s := by
  have hwire : s.wire <+: frames s.logged := by
    rw [← h.wire_unsent]
    apply List.prefix_append
  have hall := RequestControl.reads_frames s.logged h.inRange
  obtain ⟨b, -, hcompl⟩ := h.receives
  refine ⟨hwire, h.wire_unsent, h.writable_iff, h.open_, ?_, ?_⟩
  . obtain ⟨c, hc⟩ := h.read_prefix
    have hsteps : requestMachine.Completes .init (s.wire.take s.read ++ c)
        (s.logged.map fun msg => .command (logCommand msg)) .init [] := by
      rw [hc]
      exact ⟨hall.steps, Request.next_nil _⟩
    have hprefix := hcompl.output_isPrefix hsteps
    refine ⟨s.events.length, ?_⟩
    rw [List.map_take]
    exact List.prefix_iff_eq_take.mp hprefix
  . intro hempty hread
    have hdata : s.agent.req.data = [] := List.length_eq_zero_iff.mp hempty
    have hunsent : s.agent.out.unsent = [] := (s.agent.out.unsent_eq_nil_iff h.wf).mpr hdata
    have hframes : s.wire.take s.read = frames s.logged := by
      rw [hread, List.take_length, ← h.wire_unsent, hunsent, List.append_nil]
    rw [hframes] at hcompl
    exact (hcompl.unique ⟨hall.steps, Request.next_nil _⟩).1

/--
In every run in which each `Log` finds room in the request buffer, the link forwards at all times.
-/
theorem forwarded_of_hasRoom (fd : Int) (es : List Event) (hrange : ∀ e ∈ es, e.InRange)
    (h : Run.Meets step HasRoom (init fd) es)
    : Run.Along step Forwarded (init fd) es := by
  have hinv : Run.Along step Inv (init fd) es := by
    apply Run.Along.of_meets Event.InRange (inv_init fd) hrange h
    intro s e hs hrange hroom
    exact hs.step hrange hroom
  exact hinv.mono fun _ hs => hs.forwarded

theorem forwarded_of_hasRoom_cut
    : Run.Meets step HasRoom (init 5) [
          .log true ⟨⟨[97, 13, 10], by decide⟩, ⟨[], by decide⟩⟩,
          .sendRequest [.wrote 5, .again],
          .readRequest 3,
          .sendRequest [.wrote 100],
          .readRequest 100] ∧
        Run.Along step Forwarded (init 5) [
          .log true ⟨⟨[97, 13, 10], by decide⟩, ⟨[], by decide⟩⟩,
          .sendRequest [.wrote 5, .again],
          .readRequest 3,
          .sendRequest [.wrote 100],
          .readRequest 100] := by
  have hmeets : Run.Meets step HasRoom (init 5) [
      .log true ⟨⟨[97, 13, 10], by decide⟩, ⟨[], by decide⟩⟩,
      .sendRequest [.wrote 5, .again],
      .readRequest 3,
      .sendRequest [.wrote 100],
      .readRequest 100] := by
    refine ⟨?_, fun _ _ => ⟨trivial, fun _ _ => ⟨trivial, fun _ _ => ⟨trivial, fun _ _ => ⟨trivial, fun _ _ => trivial⟩⟩⟩⟩⟩
    intro _
    refine ⟨by decide, fun _ => rfl, ?_⟩
    rw [length_frame]
    have h0 := decimal_length_le 0 0 (by decide)
    have h3 := decimal_length_le 3 0 (by decide)
    change 0 + (3 + (decimal 3).length + 0 + (decimal 0).length + 23) < 2 ^ 31
    omega
  refine ⟨hmeets, forwarded_of_hasRoom 5 _ ?_ hmeets⟩
  simp only [List.forall_mem_cons]
  exact ⟨⟨by decide, by decide⟩, trivial, trivial, trivial, trivial, by simp⟩

theorem size_of_logs {P : Link → Prop} (msg : Message) (k : Nat) (s : Link) (hclosed : s.closed = false)
    (hfd : 0 < s.agent.fd) (h : Run.Along step P s (List.replicate k (.log true msg)))
    : s.agent.req.size + k * (frame msg).length < uint32Size := by
  induction k generalizing s with
  | zero =>
    have := s.agent.req.size_lt
    unfold Buffer.size
    omega
  | succ k ih =>
    obtain ⟨-, t, ht, hrest⟩ := h
    unfold Link.step at ht
    dsimp only at ht
    rw [if_neg (by simp [hclosed])] at ht
    split at ht
    . simp at ht
    . next agent hlog =>
      simp only [Option.some.injEq] at ht
      obtain ⟨hdata, hfd'⟩ := Agent.data_log hlog hfd rfl
      have hsize : agent.req.size = s.agent.req.size + (frame msg).length := by
        unfold Buffer.size
        rw [hdata, List.length_append]
      rw [← ht] at hrest
      have hrec := ih { s with agent := agent, logged := s.logged ++ [msg] } hclosed (hfd'.symm ▸ hfd) hrest
      dsimp only at hrec
      rw [Nat.succ_mul]
      omega

theorem four_logs_overflow {P : Link → Prop} (msg : Message) (h : 2 ^ 30 ≤ msg.topic.len + msg.content.len)
    : ¬Run.Along step P (init 5) (List.replicate 4 (.log true msg)) := by
  intro halong
  have hsize := size_of_logs msg 4 (init 5) rfl (by decide) halong
  rw [length_frame] at hsize
  simp only [uint32Size] at hsize
  omega

def bytesOf (n : Nat) (b : UInt8) (h : n < 2 ^ 31) : Sds :=
  ⟨List.replicate n b, by simpa using h⟩

theorem len_bytesOf : (bytesOf n b h).len = n := by
  simp [bytesOf, Sds.len]

theorem forwarded_fails_overflow
    : ¬Run.Along step Forwarded (init 5) (List.replicate 4 (.log true
        ⟨bytesOf (512 * 1024 * 1024) 13 (by decide), bytesOf (512 * 1024 * 1024) 10 (by decide)⟩)) := by
  apply four_logs_overflow
  simp only [len_bytesOf]
  omega

end Link
end Kids
