import Kids.Client.RequestMachine
import Kids.Buffer.Lemmas

/-!
The parser of `client.cc` makes the steps of the `requestMachine`, each call of `ProcessRequestBuffer` as
many as the buffered bytes allow. Chunking independence is inherited from there.
-/

namespace Kids
namespace Request

open Bytes RequestControl

def control (c : Request) : RequestControl :=
  ⟨c.argc, c.curArglen, c.argv, c.closeAfterReply⟩

structure Wf (c : Request) : Prop where
  idle : c.argc = 0 → c.argv = [] ∧ c.curArglen = none
  busy : c.argc ≠ 0 → c.argv.length < c.argc

theorem readArglen_shift (data : Bytes) (pos : Nat) (h : pos ≤ data.length)
    : readArglen data pos none =
        match readArglen (data.drop pos) 0 none with
        | .needMore => .needMore
        | .error err => .error err
        | .known p len => .known (pos + p) len := by
  rw [readArglen_none, readArglen_none]
  simp only [List.drop_zero, Nat.zero_add, List.length_drop]
  cases strchr (data.drop pos) cr with
  | none => rfl
  | some newline =>
    dsimp only
    by_cases hlen : data.length < pos + newline + 2
    . have hlen' : data.length - pos < newline + 2 := by omega
      simp [hlen, hlen']
    . have hlen' : ¬data.length - pos < newline + 2 := by omega
      rw [if_neg hlen, if_neg hlen']
      by_cases hdollar : (data.drop pos).headD nul ≠ dollar
      . rw [if_pos hdollar, if_pos hdollar]
      . rw [if_neg hdollar, if_neg hdollar]
        cases headerValue (data.drop pos) newline with
        | none => rfl
        | some ll =>
          dsimp only
          by_cases hll : ll < 0 ∨ ll > maxBulkLen
          . simp [hll]
          . simp [hll, Nat.add_assoc]

section Arglen

variable {data : Bytes} {pos : Nat} {q : RequestControl} (hopen : q.closed = false) (hargc : q.argc ≠ 0)
  (hpos : pos ≤ data.length)
include hopen hargc hpos

theorem readArglen_needMore (h : readArglen data pos q.curArglen = .needMore)
    : requestMachine.next q (data.drop pos) = none := by
  cases hcur : q.curArglen with
  | some len => simp [hcur, readArglen] at h
  | none =>
    rw [hcur, readArglen_shift data pos hpos] at h
    simp only [requestMachine, RequestControl.next, hopen, hargc, hcur, nextArglen]
    cases hlen : readArglen (data.drop pos) 0 none with
    | needMore => simp
    | error => simp [hlen] at h
    | known => simp [hlen] at h

theorem readArglen_error (h : readArglen data pos q.curArglen = .error err)
    : requestMachine.Steps q (data.drop pos) [.protocolError err] q.close (data.drop pos) := by
  apply Resumable.Steps.single
  cases hcur : q.curArglen with
  | some len => simp [hcur, readArglen] at h
  | none =>
    rw [hcur, readArglen_shift data pos hpos] at h
    simp only [requestMachine, RequestControl.next, hopen, hargc, hcur, nextArglen]
    cases hlen : readArglen (data.drop pos) 0 none with
    | needMore => simp [hlen] at h
    | error => simpa [hlen] using h
    | known => simp [hlen] at h

theorem readArglen_known_steps (h : readArglen data pos q.curArglen = .known pos' len)
    : pos ≤ pos' ∧ pos' ≤ data.length ∧
        requestMachine.Steps q (data.drop pos) [] { q with curArglen := some len } (data.drop pos') := by
  cases hcur : q.curArglen with
  | some len' =>
    simp only [hcur, readArglen, Arglen.known.injEq] at h
    obtain ⟨rfl, rfl⟩ := h
    refine ⟨Nat.le_refl _, hpos, ?_⟩
    rw [← hcur]
    exact .refl _ _
  | none =>
    rw [hcur, readArglen_shift data pos hpos] at h
    cases hlen : readArglen (data.drop pos) 0 none with
    | needMore => simp [hlen] at h
    | error => simp [hlen] at h
    | known p len' =>
      simp only [hlen, Arglen.known.injEq] at h
      obtain ⟨rfl, rfl⟩ := h
      have hp := (readArglen_known hlen).2
      simp only [List.length_drop] at hp
      refine ⟨by omega, by omega, ?_⟩
      apply Resumable.Steps.single
      simp [requestMachine, RequestControl.next, hopen, hargc, hcur, nextArglen, hlen]

end Arglen

inductive ArgsSpec (data : Bytes) (q : RequestControl) (pos : Nat) (r : ArgsResult) : Prop
  | error (err : ProtocolError) (rest : Bytes) (herr : r.err = some err)
      (hsteps : requestMachine.Steps q (data.drop pos) [.protocolError err]
        ⟨q.argc, r.curArglen, r.argv, true⟩ rest)
  | command (herr : r.err = none) (hargv : r.argv.length = q.argc) (hcur : r.curArglen = none)
      (hlt : pos < r.pos)
      (hsteps : requestMachine.Steps q (data.drop pos) [.command r.argv]
        (dispatch ⟨q.argc, none, r.argv, false⟩) (data.drop r.pos))
  | waiting (herr : r.err = none) (hargv : r.argv.length < q.argc)
      (hcompl : requestMachine.Completes q (data.drop pos) []
        ⟨q.argc, r.curArglen, r.argv, false⟩ (data.drop r.pos))

theorem ArgsSpec.of_steps (hsteps : requestMachine.Steps q (data.drop pos) [] q' (data.drop pos'))
    (hle : pos ≤ pos') (hargc : q'.argc = q.argc) (h : ArgsSpec data q' pos' r)
    : ArgsSpec data q pos r := by
  cases h with
  | error err rest herr hs =>
    rw [hargc] at hs
    exact .error err rest herr (hsteps.trans hs)
  | command herr hargv hcur hlt hs =>
    rw [hargc] at hs hargv
    exact .command herr hargv hcur (by omega) (hsteps.trans hs)
  | waiting herr hargv hc =>
    rw [hargc] at hc hargv
    exact .waiting herr hargv ⟨hsteps.trans hc.steps, hc.waits⟩

theorem parseArgs_pos_le (data : Bytes) (n pos : Nat) (curArglen : Option Nat) (argv : List Bytes)
    (h : pos ≤ data.length)
    : (parseArgs data n pos curArglen argv).pos ≤ data.length := by
  induction n generalizing pos curArglen argv with
  | zero => exact h
  | succ n ih =>
    simp only [parseArgs]
    cases hlen : readArglen data pos curArglen with
    | needMore => exact h
    | error => exact h
    | known pos' len =>
      have hpos' : pos' ≤ data.length := by
        cases curArglen with
        | some len' =>
          simp only [readArglen, Arglen.known.injEq] at hlen
          omega
        | none =>
          rw [readArglen_shift data pos h] at hlen
          split at hlen
          . simp at hlen
          . simp at hlen
          . next hknown =>
            have := (readArglen_known hknown).2
            simp only [List.length_drop] at this
            simp only [Arglen.known.injEq] at hlen
            omega
      dsimp only
      split
      . exact hpos'
      . apply ih
        omega

theorem parseArgs_spec (data : Bytes) (n pos : Nat) (q : RequestControl) (hopen : q.closed = false)
    (hn : q.argv.length + (n + 1) = q.argc) (hpos : pos ≤ data.length)
    : ArgsSpec data q pos (parseArgs data (n + 1) pos q.curArglen q.argv) := by
  have hargc : q.argc ≠ 0 := by omega
  have hq : q = ⟨q.argc, q.curArglen, q.argv, false⟩ := by rw [← hopen]
  induction n generalizing pos q with
  | zero | succ n ih =>
    generalize hr : parseArgs data _ pos q.curArglen q.argv = r
    rw [parseArgs] at hr
    cases hlen : readArglen data pos q.curArglen with
    | needMore =>
      simp only [hlen] at hr
      subst hr
      apply ArgsSpec.waiting rfl (by dsimp only; omega)
      rw [← hq]
      exact ⟨.refl _ _, readArglen_needMore hopen hargc hpos hlen⟩
    | error err =>
      simp only [hlen] at hr
      subst hr
      exact .error err _ rfl (readArglen_error hopen hargc hpos hlen)
    | known pos' len =>
      obtain ⟨hle, hpos', hsteps⟩ := readArglen_known_steps hopen hargc hpos hlen
      simp only [hlen] at hr
      refine ArgsSpec.of_steps hsteps hle rfl ?_
      split at hr
      . next hshort =>
        subst hr
        apply ArgsSpec.waiting rfl (by dsimp only; omega)
        refine ⟨?_, ?_⟩
        . rw [hopen]
          exact .refl _ _
        . simp [requestMachine, RequestControl.next, hargc, nextArgument]
          omega
      . next hlong =>
        have hrest : (data.drop pos').drop (len + 2) = data.drop (pos' + len + 2) := by
          rw [List.drop_drop]
          congr 1
        have hnext : requestMachine.next { q with curArglen := some len } (data.drop pos') =
            let q' : RequestControl := ⟨q.argc, none, q.argv ++ [(data.drop pos').take len], false⟩
            if q'.argv.length = q'.argc then
              some ([.command q'.argv], q'.dispatch, data.drop (pos' + len + 2))
            else
              some ([], q', data.drop (pos' + len + 2)) := by
          simp only [requestMachine, RequestControl.next, hopen, hargc, nextArgument, hrest]
          rw [if_neg (by simp), if_neg (by simp), if_neg (by simp only [List.length_drop]; omega)]
        first
          | -- the last argument
            subst hr
            rw [if_pos (by simp; omega)] at hnext
            exact .command rfl (by simp [parseArgs]; omega) rfl (by simp only [parseArgs]; omega) (.single hnext)
          | rw [if_neg (by simp; omega)] at hnext
            refine ArgsSpec.of_steps (.single hnext) (by omega) rfl ?_
            rw [← hr]
            exact ih _ ⟨q.argc, none, q.argv ++ [(data.drop pos').take len], false⟩ rfl (by simp; omega)
              (by omega) hargc rfl

inductive ParseSpec (c : Request) (r : ParseResult) : Prop
  | error (err : ProtocolError) (rest : Bytes) (herr : r.err = some err) (hret : r.ret = false)
      (hclosed : r.client.closeAfterReply = true) (hreq : r.client.req = c.req)
      (hsteps : requestMachine.Steps c.control c.req.data [.protocolError err] r.client.control rest)
  | waiting (herr : r.err = none) (hret : r.ret = false) (hwf : r.client.Wf)
      (hopen : r.client.closeAfterReply = false) (hle : r.client.req.size ≤ c.req.size)
      (hcompl : requestMachine.Completes c.control c.req.data [] r.client.control r.client.req.data)
  | skip (hret : r.ret = true) (hargv : r.client.argv = [])
      (hopen : r.client.closeAfterReply = false) (hlt : r.client.req.size < c.req.size)
      (hsteps : requestMachine.Steps c.control c.req.data [] r.client.resetArgumentVector.control
        r.client.req.data)
  | command (hret : r.ret = true) (hargv : r.client.argv ≠ [])
      (hopen : r.client.closeAfterReply = false) (hlt : r.client.req.size < c.req.size)
      (hsteps : requestMachine.Steps c.control c.req.data [.command r.client.argv]
        (dispatch r.client.control) r.client.req.data)

theorem parseArguments_spec (c c' : Request) (pos : Nat) (hopen : c'.closeAfterReply = false)
    (hbusy : c'.argv.length < c'.argc) (hreq : c'.req = c.req) (hpos : pos ≤ c.req.size)
    (hsmall : c.req.size + 1 < uint32Size)
    (hsteps : requestMachine.Steps c.control c.req.data [] c'.control (c.req.data.drop pos))
    : ∃ r, c'.parseArguments pos = some r ∧ ParseSpec c r := by
  obtain ⟨n, hn⟩ : ∃ n, c'.argc - c'.argv.length = n + 1 := ⟨c'.argc - c'.argv.length - 1, by omega⟩
  have hle := parseArgs_pos_le c.req.data (n + 1) pos c'.curArglen c'.argv hpos
  have hspec := parseArgs_spec c.req.data n pos c'.control hopen (by simp only [control]; omega) hpos
  simp only [control] at hspec
  simp only [parseArguments, hn, hreq]
  generalize hr : parseArgs c.req.data (n + 1) pos c'.curArglen c'.argv = r at hspec hle
  cases hspec with
  | error err rest herr hs =>
    refine ⟨_, by rw [herr], ?_⟩
    exact .error err rest rfl rfl rfl rfl (hsteps.trans hs)
  | command herr hargv hcur hlt hs =>
    obtain ⟨req, hreq', hdata⟩ := c.req.removeFront_spec hle hsmall
    refine ⟨_, by rw [herr]; simp only [hreq']; rfl, ?_⟩
    apply ParseSpec.command
    . simp only [hargv, decide_true]
    . rw [← List.length_pos_iff]
      simp only [hargv]
      omega
    . exact hopen
    . simp only [Buffer.size] at hpos ⊢
      rw [hdata, List.length_drop]
      omega
    . simp only [hdata, control, hcur, hopen]
      exact hsteps.trans hs
  | waiting herr hargv hc =>
    obtain ⟨req, hreq', hdata⟩ := c.req.removeFront_spec hle hsmall
    refine ⟨_, by rw [herr]; simp only [hreq']; rfl, ?_⟩
    dsimp only at hargv
    apply ParseSpec.waiting rfl
    . simp only [decide_eq_false_iff_not]
      omega
    . exact ⟨fun h => by simp only at h; omega, fun _ => hargv⟩
    . exact hopen
    . simp only [Buffer.size, hdata, List.length_drop]
      omega
    . simp only [hdata, control, hopen]
      exact ⟨hsteps.trans hc.steps, hc.waits⟩

theorem parseRequestBuffer_spec (c : Request) (hwf : c.Wf) (hopen : c.closeAfterReply = false)
    (hsmall : c.req.size + 1 < uint32Size)
    : ∃ r, c.parseRequestBuffer = some r ∧ ParseSpec c r := by
  unfold parseRequestBuffer
  split
  . next hargc =>
    obtain ⟨hargv, hcur⟩ := hwf.idle hargc
    have hnext : requestMachine.next c.control c.req.data = c.control.nextHeader c.req.data := by
      simp [requestMachine, RequestControl.next, control, hopen, hargc]
    unfold nextHeader headerValue at hnext
    cases hnl : strchr c.req.data cr with
    | none =>
      rw [hnl] at hnext
      exact ⟨_, rfl, .waiting rfl rfl hwf hopen (Nat.le_refl _) ⟨.refl _ _, hnext⟩⟩
    | some newline =>
      simp only [hnl] at hnext ⊢
      split
      . next hlen =>
        rw [if_pos (show c.req.data.length < newline + 2 from hlen)] at hnext
        exact ⟨_, rfl, .waiting rfl rfl hwf hopen (Nat.le_refl _) ⟨.refl _ _, hnext⟩⟩
      . next hlen =>
        rw [if_neg (show ¬c.req.data.length < newline + 2 from hlen)] at hnext
        cases hv : string2ll (c.req.data.drop 1) (sizeT ((newline : Int) - 1)) with
        | none =>
          rw [hv] at hnext
          exact ⟨_, rfl, .error _ _ rfl rfl rfl rfl (.single hnext)⟩
        | some ll =>
          simp only [hv] at hnext ⊢
          split
          . next hmax =>
            rw [if_pos hmax] at hnext
            exact ⟨_, rfl, .error _ _ rfl rfl rfl rfl (.single hnext)⟩
          . next hmax =>
            rw [if_neg hmax] at hnext
            have hpos : newline + 2 ≤ c.req.size := by omega
            split
            . next hll =>
              rw [if_pos hll] at hnext
              obtain ⟨req, hreq, hdata⟩ := c.req.removeFront_spec hpos hsmall
              refine ⟨_, by rw [hreq], .skip rfl hargv hopen ?_ ?_⟩
              . simp only [Buffer.size, hdata, List.length_drop] at hpos ⊢
                omega
              . have hinit : { c with req := req }.resetArgumentVector.control = RequestControl.init := by
                  simp only [control, resetArgumentVector, hopen, RequestControl.init]
                rw [hinit, hdata]
                exact .single hnext
            . next hll =>
              rw [if_neg hll] at hnext
              apply parseArguments_spec c { c with argc := ll.toNat, argv := [] } _ hopen _ rfl hpos hsmall
                (.single hnext)
              simp only [List.length_nil]
              omega
  . next hargc =>
    apply parseArguments_spec c c 0 hopen (hwf.busy hargc) rfl (Nat.zero_le _) hsmall
    exact .refl _ _

theorem next_nil (q : RequestControl) : requestMachine.next q [] = none := by
  simp only [requestMachine, RequestControl.next, nextHeader, nextArglen, nextArgument, readArglen]
  split
  . rfl
  . split
    . rfl
    . split
      . rfl
      . simp

theorem next_closed (h : q.closed = true) : requestMachine.next q b = none := by
  simp [requestMachine, RequestControl.next, h]

/--
The client `c` is where the machine is in control state `c.control` with `b` pending, and it waits for
more input. Once it is closing, its buffer does not matter any more.
-/
structure Waits (c : Request) (b : Bytes) : Prop where
  waits : requestMachine.next c.control b = none
  wf : c.closeAfterReply = false → c.Wf
  data_eq : c.closeAfterReply = false → c.req.data = b

theorem processRequestBuffer.go_spec (fuel : Nat) (c : Request) (hfuel : c.req.size < fuel)
    (hwf : c.closeAfterReply = false → c.Wf) (hsmall : c.req.size + 1 < uint32Size)
    : ∃ c' evs b', go fuel c = some (c', evs) ∧ c'.req.size ≤ c.req.size ∧ c'.Waits b' ∧
        requestMachine.Steps c.control c.req.data evs c'.control b' := by
  induction fuel generalizing c with
  | zero => omega
  | succ fuel ih =>
    by_cases hclosed : c.closeAfterReply = true
    . refine ⟨c, [], c.req.data, by simp [go, hclosed], Nat.le_refl _, ⟨next_closed hclosed, ?_, ?_⟩, .refl _ _⟩
      all_goals simp [hclosed]
    . have hopen : c.closeAfterReply = false := by simpa using hclosed
      by_cases hempty : c.req.size = 0
      . have hdata : c.req.data = [] := List.length_eq_zero_iff.mp hempty
        refine ⟨c, [], [], by simp [go, hempty], Nat.le_refl _, ⟨next_nil _, hwf, fun _ => hdata⟩, ?_⟩
        rw [hdata]
        exact .refl _ _
      . obtain ⟨⟨client, err, ret⟩, hr, hspec⟩ := parseRequestBuffer_spec c (hwf hopen) hopen hsmall
        simp only [go]
        rw [if_neg (by simp [hempty, hclosed]), hr]
        cases hspec with
        | error e rest herr hret hc hreq hs =>
          simp only at herr hret hc hreq hs
          subst herr hret
          refine ⟨client, _, rest, rfl, by rw [hreq], ⟨next_closed hc, ?_, ?_⟩, hs⟩
          all_goals simp [hc]
        | waiting herr hret hwf' hopen' hle hcompl =>
          simp only at herr hret
          subst herr hret
          exact ⟨client, _, client.req.data, rfl, hle, ⟨hcompl.waits, fun _ => hwf', fun _ => rfl⟩, hcompl.steps⟩
        | skip hret hargv hopen' hlt hs =>
          simp only at hret hargv hopen' hlt hs
          subst hret
          obtain ⟨c', evs, b', hgo, hle, hwaits, hsteps⟩ := ih client.resetArgumentVector
            (by simp only [resetArgumentVector]; omega)
            (fun _ => ⟨fun _ => ⟨rfl, rfl⟩, fun h => absurd rfl h⟩)
            (by simp only [resetArgumentVector]; omega)
          simp only [resetArgumentVector] at hle
          refine ⟨c', evs, b', ?_, by omega, hwaits, hs.trans hsteps⟩
          simpa [hargv] using hgo
        | command hret hargv hopen' hlt hs =>
          simp only at hret hargv hopen' hlt hs
          subst hret
          by_cases hquit : isQuit client.argv = true
          . obtain ⟨c', evs, b', hgo, hle, hwaits, hsteps⟩ := ih { client with closeAfterReply := true }
              (by dsimp only; omega) (by simp) (by dsimp only; omega)
            have hdispatch : dispatch client.control = { client with closeAfterReply := true }.control := by
              simp [dispatch, control, hquit, close]
            rw [hdispatch] at hs
            refine ⟨c', .command client.argv :: evs, b', ?_, ?_, hwaits, hs.trans hsteps⟩
            . simp [hargv, processCommand, hquit, hgo]
            . dsimp only at hle
              omega
          . obtain ⟨c', evs, b', hgo, hle, hwaits, hsteps⟩ := ih client.resetArgumentVector
              (by simp only [resetArgumentVector]; omega)
              (fun _ => ⟨fun _ => ⟨rfl, rfl⟩, fun h => absurd rfl h⟩)
              (by simp only [resetArgumentVector]; omega)
            have hdispatch : dispatch client.control = client.resetArgumentVector.control := by
              simp [dispatch, control, hquit, RequestControl.init, resetArgumentVector, hopen']
            rw [hdispatch] at hs
            refine ⟨c', .command client.argv :: evs, b', ?_, ?_, hwaits, hs.trans hsteps⟩
            . simp [hargv, processCommand, hquit, hgo]
            . simp only [resetArgumentVector] at hle
              omega

end Request
end Kids
