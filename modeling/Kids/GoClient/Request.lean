import Kids.Client.Encoding
import Kids.GoClient.Routine

/-!
`sendRequest` of `kids.go` and the calls that use it, as the server reads and answers them.
-/

namespace Kids

open Bytes

namespace GoClient

-- what is in `buf` for the `Write`
def sendRequest (argv : List Bytes) : Bytes :=
  ofString "*" ++ decimal argv.length ++ ofString "\r\n" ++
    (argv.map fun arg => ofString "$" ++ decimal arg.length ++ ofString "\r\n" ++ arg ++ ofString "\r\n").flatten

namespace Call

def argv : Call → List Bytes
  | .log topic data => [ofString "LOG", topic, data]
  | .subscribe topic => [ofString "SUBSCRIBE", topic]
  | .psubscribe pattern => [ofString "PSUBSCRIBE", pattern]
  | .unsubscribe topic => [ofString "UNSUBSCRIBE", topic]
  | .punsubscribe pattern => [ofString "PUNSUBSCRIBE", pattern]

def request (c : Call) : Bytes :=
  sendRequest c.argv

-- the server takes no argument that is longer
def Fits (c : Call) : Prop :=
  ∀ arg ∈ c.argv, arg.length ≤ maxBulkLen.toNat

/--
The reply to a call, for a client with these subscriptions.
-/
def answer (env : CommandEnv) (sub : Subscriber) : Call → Answer
  | .log _ _ => if env.putMessage then .line .int [49] else .line .err (ofString "ERR Some thing bad happens!")
  | .subscribe topic => .subscribed .topic topic (sub.insert .topic topic).count
  | .psubscribe pattern => .subscribed .pattern pattern (sub.insert .pattern pattern).count
  | .unsubscribe topic => .unsubscribed .topic topic sub.count
  | .punsubscribe pattern => .unsubscribed .pattern pattern sub.count

end Call

namespace Answer

def encoding : Answer → Bytes
  | .line sign text => sign.byte :: text ++ crlf
  | .subscribed k name count => (ServerFrame.subscribed k name count).encoding
  | .unsubscribed k name count => (ServerFrame.unsubscribed k name count).encoding

def Fits : Answer → Prop
  | .line _ text => lf ∉ text
  | .subscribed _ name _ => name.length < uint32Size
  | .unsubscribed _ name _ => name.length < uint32Size

end Answer

theorem sendRequest_eq (argv : List Bytes) : sendRequest argv = commandEncoding argv := by
  unfold sendRequest commandEncoding headerLine
  congr 1
  congr 1
  apply List.map_congr_left
  intro arg _
  unfold bulkEncoding headerLine
  simp [ofString, crlf, cr, lf, dollar]

theorem recvResponse_line (sign : LineSign) {text : Bytes} (rest : Bytes) (htext : lf ∉ text)
    : recvResponse (sign.byte :: text ++ crlf ++ rest) = .ok ([sign.byte :: text], rest) := by
  have hline : lf ∉ sign.byte :: text := by
    rw [List.mem_cons, not_or]
    exact ⟨by cases sign <;> decide, htext⟩
  have hslice : slice (sign.byte :: text ++ crlf) 0 ((sign.byte :: text ++ crlf).length - 2) =
      .ok (sign.byte :: text) := by
    have hlen : ((sign.byte :: text ++ crlf).length : Int) - 2 = ((sign.byte :: text).length : Nat) := by
      rw [List.length_append, length_crlf]
      omega
    unfold slice
    rw [hlen, if_pos (by omega), Int.toNat_natCast, List.take_left, List.drop_zero]
  have hsign : (sign.byte :: text ++ crlf).head? = some intSign ∨ (sign.byte :: text ++ crlf).head? = some okSign ∨
      (sign.byte :: text ++ crlf).head? = some errSign := by
    cases sign with
    | int => exact .inl rfl
    | ok => exact .inr (.inl rfl)
    | err => exact .inr (.inr rfl)
  unfold recvResponse
  rw [readLine_crlf hline, ok_bind]
  dsimp only
  rw [if_pos hsign, hslice]
  rfl

theorem recvResponse_answer {a : Answer} (rest : Bytes) (h : a.Fits)
    : recvResponse (a.encoding ++ rest) = .ok (a.fields, rest) := by
  cases a with
  | line sign text => exact recvResponse_line sign rest h
  | subscribed k name count =>
    exact recvResponse_encoding (f := .subscribed k name count) (List.forall_mem_singleton.mpr h)
  | unsubscribed k name count =>
    exact recvResponse_encoding (f := .unsubscribed k name count) (List.forall_mem_singleton.mpr h)

namespace Call

theorem fits_answer {c : Call} (h : c.Fits) (env : CommandEnv) (sub : Subscriber) : (c.answer env sub).Fits := by
  have hname (name : Bytes) (hmem : name ∈ c.argv) : name.length < uint32Size := by
    have := h name hmem
    simp only [maxBulkLen] at this
    simp only [uint32Size]
    omega
  cases c with
  | log topic data =>
    unfold answer
    dsimp only
    split
    . change lf ∉ [49]
      decide
    . change lf ∉ ofString "ERR Some thing bad happens!"
      decide
  | _ => exact hname _ (List.mem_cons_of_mem _ List.mem_cons_self)

def command : Call → Command
  | .log _ _ => .log
  | .subscribe _ => .subscribe
  | .psubscribe _ => .psubscribe
  | .unsubscribe _ => .unsubscribe
  | .punsubscribe _ => .punsubscribe

-- what `strcasecmp` takes the name for
theorem ofName_argv (c : Call) : Command.ofName (c.argv.headD []) = c.command := by
  cases c with
  | log => exact (by decide : Command.ofName (ofString "LOG") = .log)
  | subscribe => exact (by decide : Command.ofName (ofString "SUBSCRIBE") = .subscribe)
  | psubscribe => exact (by decide : Command.ofName (ofString "PSUBSCRIBE") = .psubscribe)
  | unsubscribe => exact (by decide : Command.ofName (ofString "UNSUBSCRIBE") = .unsubscribe)
  | punsubscribe => exact (by decide : Command.ofName (ofString "PUNSUBSCRIBE") = .punsubscribe)

theorem replies_argv (c : Call) (env : CommandEnv) (sub : Subscriber)
    : (Session.replies env sub (.command c.argv)).flatten = (c.answer env sub).encoding := by
  have hname := c.ofName_argv
  unfold Session.replies Session.commandReplies
  dsimp only
  rw [hname]
  cases c with
  | log topic data =>
    unfold answer argv command
    dsimp only
    rw [if_neg (by simp)]
    split
    . rfl
    . unfold Session.errorReply
      rw [cstr_eq_self _ (by decide)]
      rfl
  | subscribe topic => exact List.append_nil _
  | psubscribe pattern => exact List.append_nil _
  | unsubscribe topic => exact List.append_nil _
  | punsubscribe pattern => exact List.append_nil _

theorem reads_request {c : Call} (h : c.Fits)
    : requestMachine.Reads RequestControl.Bounded .init c.request [.command c.argv] .init := by
  have hne : c.argv ≠ [] := by
    cases c <;> exact List.cons_ne_nil _ _
  have hlen : c.argv.length ≤ maxMultibulkLen := by
    have hthree : c.argv.length ≤ 3 := by
      cases c <;> simp [argv]
    simp only [maxMultibulkLen]
    omega
  have hquit : Request.isQuit c.argv = false := by
    cases c with
    | log => exact (by decide : strcaseeq (ofString "LOG") (ofString "quit") = false)
    | subscribe => exact (by decide : strcaseeq (ofString "SUBSCRIBE") (ofString "quit") = false)
    | psubscribe => exact (by decide : strcaseeq (ofString "PSUBSCRIBE") (ofString "quit") = false)
    | unsubscribe => exact (by decide : strcaseeq (ofString "UNSUBSCRIBE") (ofString "quit") = false)
    | punsubscribe => exact (by decide : strcaseeq (ofString "PUNSUBSCRIBE") (ofString "quit") = false)
  have hreads := RequestControl.reads_command c.argv hne hlen h
  unfold request
  rw [sendRequest_eq]
  simpa [RequestControl.dispatch, hquit] using hreads

theorem reads_requests {calls : List Call} (h : ∀ c ∈ calls, c.Fits)
    : requestMachine.Reads RequestControl.Bounded .init (calls.map request).flatten
        (calls.map fun c => .command c.argv) .init := by
  induction calls with
  | nil => exact .nil _
  | cons c calls ih =>
    obtain ⟨hc, hcalls⟩ := List.forall_mem_cons.mp h
    exact (reads_request hc).trans (ih hcalls)

theorem completes_requests {calls : List Call} (h : ∀ c ∈ calls, c.Fits) (hp : p <+: (calls.map request).flatten)
    : ∃ evs q b, requestMachine.Completes .init p evs q b ∧ evs <+: calls.map (fun c => .command c.argv) ∧
        (p = (calls.map request).flatten → evs = calls.map fun c => .command c.argv) := by
  exact (reads_requests h).completes_part (Request.next_nil _) ⟨rfl, by simp⟩ hp

end Call

namespace Pushed

def encoding : Pushed → Bytes
  | .message topic content => (ServerFrame.message topic content).encoding
  | .pmessage topic content pattern => (ServerFrame.pmessage topic content pattern).encoding

def Fits : Pushed → Prop
  | .message topic content => ∀ data ∈ (ServerFrame.message topic content).bulks, data.length < uint32Size
  | .pmessage topic content pattern =>
    ∀ data ∈ (ServerFrame.pmessage topic content pattern).bulks, data.length < uint32Size

end Pushed

namespace Frame

def encoding : Frame → Bytes
  | .reply _ a => a.encoding
  | .push p => p.encoding

def Fits : Frame → Prop
  | .reply _ a => a.Fits
  | .push p => p.Fits

end Frame

theorem recvResponse_frame {f : Frame} (rest : Bytes) (h : f.Fits)
    : recvResponse (f.encoding ++ rest) = .ok (f.fields, rest) := by
  cases f with
  | reply c a => exact recvResponse_answer rest h
  | push p =>
    cases p with
    | message topic content => exact recvResponse_encoding (f := .message topic content) h
    | pmessage topic content pattern => exact recvResponse_encoding (f := .pmessage topic content pattern) h

/--
Frame after frame is read, whatever stands behind them.
-/
theorem recvResponses_frames {frames : List Frame} (rest : Bytes) (h : ∀ f ∈ frames, f.Fits)
    : ∃ resps, recvResponses frames.length ((frames.map Frame.encoding).flatten ++ rest) = .ok resps ∧
        resps.map Prod.fst = frames.map Frame.fields := by
  induction frames with
  | nil => exact ⟨[], rfl, rfl⟩
  | cons f frames ih =>
    obtain ⟨hf, hframes⟩ := List.forall_mem_cons.mp h
    obtain ⟨resps, hresps, hfields⟩ := ih hframes
    refine ⟨(f.fields, (frames.map Frame.encoding).flatten ++ rest) :: resps, ?_, ?_⟩
    . rw [List.map_cons, List.flatten_cons, List.append_assoc, List.length_cons]
      unfold recvResponses
      rw [recvResponse_frame _ hf, ok_bind]
      dsimp only
      rw [hresps]
      rfl
    . rw [List.map_cons, List.map_cons, hfields]

end GoClient
end Kids
