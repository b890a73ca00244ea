import Kids.Client.RequestLemmas

/-!
Chunking independence of the request parser: however the input of a client was cut into reads, the
commands it dispatches and the protocol error it raises are the same.
-/

namespace Kids
namespace Request

open Bytes RequestControl

theorem processRequestBuffer_spec (c : Request) (hwf : c.closeAfterReply = false → c.Wf)
    (hsmall : c.req.size + 1 < uint32Size)
    : ∃ c' evs b', c.processRequestBuffer = some (c', evs) ∧ c'.req.size ≤ c.req.size ∧ c'.Waits b' ∧
        requestMachine.Steps c.control c.req.data evs c'.control b' := by
  obtain ⟨c', evs, b', hgo, hle, hwaits, hsteps⟩ :=
    processRequestBuffer.go_spec (c.req.size + 1) c (by omega) hwf hsmall
  simp only [processRequestBuffer, hgo, Option.map_some]
  split
  . next hempty =>
    have hdata : c'.req.data = [] := List.length_eq_zero_iff.mp hempty
    refine ⟨_, evs, b', rfl, by simp [Buffer.size], ⟨hwaits.waits, ?_, ?_⟩, hsteps⟩
    . intro h
      obtain ⟨hidle, hbusy⟩ := hwaits.wf h
      exact ⟨hidle, hbusy⟩
    . intro h
      rw [← hwaits.data_eq h, hdata]
      rfl
  . exact ⟨c', evs, b', rfl, hle, hwaits, hsteps⟩

theorem feed_spec (c : Request) (b piece : Bytes) (hw : c.Waits b)
    (hsmall : c.req.size + piece.length + 1 < uint32Size)
    : ∃ c' evs b', c.feed piece = some (c', evs) ∧ c'.req.size ≤ c.req.size + piece.length ∧ c'.Waits b' ∧
        requestMachine.Completes c.control (b ++ piece) evs c'.control b' := by
  obtain ⟨req, hreq, hdata⟩ := c.req.append_spec piece hsmall
  have hsize : req.size = c.req.size + piece.length := by
    simp [Buffer.size, hdata]
  simp only [feed, hreq]
  obtain ⟨c', evs, b', hp, hle, hwaits, hsteps⟩ := processRequestBuffer_spec { c with req := req }
    (fun h => ⟨(hw.wf h).idle, (hw.wf h).busy⟩) (by simp only [hsize]; exact hsmall)
  simp only [hsize] at hle
  simp only [hdata] at hsteps
  by_cases hopen : c.closeAfterReply = false
  . rw [hw.data_eq hopen] at hsteps
    exact ⟨c', evs, b', hp, hle, hwaits, hsteps, hwaits.waits⟩
  . -- a closing client takes the bytes and makes no step
    have hclosed : c.control.closed = true := by simpa [control] using hopen
    obtain ⟨rfl, hcontrol, -⟩ := hsteps.of_waits (next_closed hclosed)
    have hclosed' : c'.control.closed = true := by
      rw [hcontrol]
      exact hclosed
    refine ⟨c', [], b ++ piece, hp, hle, ⟨next_closed hclosed', ?_, ?_⟩, ?_, next_closed hclosed'⟩
    . intro h
      rw [show c'.closeAfterReply = true from hclosed'] at h
      cases h
    . intro h
      rw [show c'.closeAfterReply = true from hclosed'] at h
      cases h
    . rw [hcontrol]
      exact .refl _ _

theorem feedAll_spec (c : Request) (b : Bytes) (pieces : List Bytes) (hw : c.Waits b)
    (hsmall : c.req.size + pieces.flatten.length + 1 < uint32Size)
    : ∃ c' evs b', c.feedAll pieces = some (c', evs) ∧ c'.Waits b' ∧
        requestMachine.Completes c.control (b ++ pieces.flatten) evs c'.control b' := by
  induction pieces generalizing c b with
  | nil =>
    refine ⟨c, [], b, rfl, hw, ?_⟩
    simp only [List.flatten_nil, List.append_nil]
    exact ⟨.refl _ _, hw.waits⟩
  | cons piece pieces ih =>
    simp only [List.flatten_cons, List.length_append] at hsmall
    obtain ⟨c1, evs1, b1, hfeed, hle, hw1, hc1⟩ := feed_spec c b piece hw (by omega)
    obtain ⟨c2, evs2, b2, hall, hw2, hc2⟩ := ih c1 b1 hw1 (by omega)
    refine ⟨c2, evs1 ++ evs2, b2, by simp [feedAll, hfeed, hall], hw2, ?_⟩
    rw [List.flatten_cons, ← List.append_assoc]
    exact hc1.append hc2

theorem waits_init : init.Waits [] where
  waits := next_nil _
  wf := fun _ => ⟨fun _ => ⟨rfl, rfl⟩, fun h => absurd rfl h⟩
  data_eq := fun _ => rfl

/--
Feeding a stream piece by piece, or appending all of it and processing the buffer once, gives the same
events in the same order. Both are defined, that is every `ProcessRequestBuffer` returns and no
`remove_front` goes past the end of the buffer.
-/
theorem feedAll_events_eq_feed (stream : Bytes) (pieces : List Bytes)
    (hlen : stream.length ≤ maxQuerybufLen) (hpieces : pieces.flatten = stream)
    : ∃ c c' evs, init.feedAll pieces = some (c, evs) ∧ init.feed stream = some (c', evs) := by
  subst hpieces
  have hsmall : init.req.size + pieces.flatten.length + 1 < uint32Size := by
    simp only [maxQuerybufLen] at hlen
    simp only [init, Buffer.size, Buffer.data_empty, List.length_nil, uint32Size]
    omega
  obtain ⟨c, evs, b, hall, -, hc⟩ := feedAll_spec init [] pieces waits_init hsmall
  obtain ⟨c', evs', b', hfeed, -, -, hc'⟩ := feed_spec init [] pieces.flatten waits_init hsmall
  obtain ⟨rfl, -, -⟩ := hc.unique hc'
  exact ⟨c, c', evs, hall, hfeed⟩

theorem feedAll_events_eq_feed_ping
    : ([[42, 49, 13], [10, 36, 52, 13, 10, 80], [73, 78, 71, 13, 10]] : List Bytes).flatten =
          ofString "*1\r\n$4\r\nPING\r\n" ∧
        ∃ c c' evs,
          init.feedAll [[42, 49, 13], [10, 36, 52, 13, 10, 80], [73, 78, 71, 13, 10]] = some (c, evs) ∧
          init.feed (ofString "*1\r\n$4\r\nPING\r\n") = some (c', evs) := by
  refine ⟨by decide, feedAll_events_eq_feed _ _ ?_ (by decide)⟩
  decide

end Request
end Kids
