import Kids.Client.Request
import Kids.Lib.Resumable

/-!
The request protocol as a resumable consumer: one step takes a header line, an argument header or an
argument off the front of the pending bytes. The parser of `client.cc` makes these steps in batches and
trims its buffer after each batch.
-/

namespace Kids

open Bytes

@[ext]
structure RequestControl where
  argc : Nat
  curArglen : Option Nat
  argv : List Bytes
  closed : Bool

namespace RequestControl

def init : RequestControl :=
  ⟨0, none, [], false⟩

def close (q : RequestControl) : RequestControl :=
  { q with closed := true }

def headerValue (b : Bytes) (newline : Nat) : Option Int :=
  string2ll (b.drop 1) (sizeT ((newline : Int) - 1))

def nextHeader (q : RequestControl) (b : Bytes) : Option (List RequestEvent × RequestControl × Bytes) :=
  match strchr b cr with
  | none => none
  | some newline =>
    if b.length < newline + 2 then
      none
    else
      match headerValue b newline with
      | none => some ([.protocolError .invalidMultibulkLength], q.close, b)
      | some ll =>
        if ll > maxMultibulkLen then
          some ([.protocolError .invalidMultibulkLength], q.close, b)
        else if ll ≤ 0 then
          some ([], init, b.drop (newline + 2))
        else
          some ([], { q with argc := ll.toNat, argv := [] }, b.drop (newline + 2))

def nextArglen (q : RequestControl) (b : Bytes) : Option (List RequestEvent × RequestControl × Bytes) :=
  match Request.readArglen b 0 none with
  | .needMore => none
  | .error err => some ([.protocolError err], q.close, b)
  | .known pos len => some ([], { q with curArglen := some len }, b.drop pos)

def dispatch (q : RequestControl) : RequestControl :=
  if Request.isQuit q.argv then q.close else init

def nextArgument (q : RequestControl) (len : Nat) (b : Bytes)
    : Option (List RequestEvent × RequestControl × Bytes) :=
  if b.length < len + 2 then
    none
  else
    let q := { q with curArglen := none, argv := q.argv ++ [b.take len] }
    if q.argv.length = q.argc then
      some ([.command q.argv], q.dispatch, b.drop (len + 2))
    else
      some ([], q, b.drop (len + 2))

def next (q : RequestControl) (b : Bytes) : Option (List RequestEvent × RequestControl × Bytes) :=
  if q.closed then
    none
  else if q.argc = 0 then
    q.nextHeader b
  else
    match q.curArglen with
    | none => q.nextArglen b
    | some len => q.nextArgument len b

theorem headerValue_append (b c : Bytes) (h : newline < b.length)
    : headerValue (b ++ c) newline = headerValue b newline := by
  unfold headerValue
  cases newline with
  | zero =>
    -- the length of the number is computed as -1, which no line can have
    rw [string2ll_long _ _ (by decide), string2ll_long _ _ (by decide)]
  | succ n =>
    rw [List.drop_append_of_le_length (by omega)]
    apply string2ll_append
    simp only [sizeT, List.length_drop]
    omega

theorem nextHeader_append (c : Bytes) (h : nextHeader q b = some (o, q', b'))
    : nextHeader q (b ++ c) = some (o, q', b' ++ c) := by
  unfold nextHeader at h ⊢
  split at h
  . simp at h
  . next newline hnl =>
    rw [strchr_append b c hnl]
    dsimp only
    split at h
    . simp at h
    . next hlen =>
      rw [if_neg (by simp; omega), headerValue_append b c (strchr_lt b hnl)]
      have hdrop : (b ++ c).drop (newline + 2) = b.drop (newline + 2) ++ c :=
        List.drop_append_of_le_length (by omega)
      cases hv : headerValue b newline with
      | none =>
        simp only [hv, Option.some.injEq, Prod.mk.injEq] at h
        simp [← h.1, ← h.2.1, ← h.2.2]
      | some ll =>
        simp only [hv] at h ⊢
        split at h
        . next hll =>
          simp only [Option.some.injEq, Prod.mk.injEq] at h
          simp [hll, ← h.1, ← h.2.1, ← h.2.2]
        . next hll =>
          rw [if_neg hll, hdrop]
          split at h
          . next hll0 =>
            simp only [Option.some.injEq, Prod.mk.injEq] at h
            simp [hll0, ← h.1, ← h.2.1, ← h.2.2]
          . next hll0 =>
            simp only [Option.some.injEq, Prod.mk.injEq] at h
            simp [hll0, ← h.1, ← h.2.1, ← h.2.2]

theorem readArglen_none (data : Bytes) (pos : Nat)
    : Request.readArglen data pos none =
        match strchr (data.drop pos) cr with
        | none => .needMore
        | some newline =>
          if data.length < pos + newline + 2 then
            .needMore
          else if (data.drop pos).headD nul ≠ dollar then
            .error (.expectedDollar ((data.drop pos).headD nul))
          else
            match headerValue (data.drop pos) newline with
            | none => .error .invalidBulkLength
            | some ll =>
              if ll < 0 ∨ ll > maxBulkLen then
                .error .invalidBulkLength
              else
                .known (pos + newline + 2) ll.toNat := by
  unfold headerValue
  rw [List.drop_drop]
  rfl

theorem readArglen_append (b c : Bytes) (h : Request.readArglen b 0 none ≠ .needMore)
    : Request.readArglen (b ++ c) 0 none = Request.readArglen b 0 none := by
  rw [readArglen_none] at h
  rw [readArglen_none, readArglen_none]
  simp only [List.drop_zero, Nat.zero_add] at h ⊢
  cases hnl : strchr b cr with
  | none => simp [hnl] at h
  | some newline =>
    simp only [hnl] at h
    rw [strchr_append b c hnl]
    dsimp only
    split at h
    . simp at h
    . next hlen =>
      have hlt := strchr_lt b hnl
      have hhead : (b ++ c).headD nul = b.headD nul := by
        cases b with
        | nil => simp at hlt
        | cons => rfl
      rw [if_neg (by simp; omega), if_neg hlen, hhead, headerValue_append b c hlt]

theorem readArglen_known (h : Request.readArglen b 0 none = .known pos len) : 2 ≤ pos ∧ pos ≤ b.length := by
  rw [readArglen_none] at h
  simp only [List.drop_zero, Nat.zero_add] at h
  split at h
  . simp at h
  . split at h
    . simp at h
    . split at h
      . simp at h
      . split at h
        . simp at h
        . split at h
          . simp at h
          . simp only [Request.Arglen.known.injEq] at h
            omega

theorem nextArglen_append (c : Bytes) (h : nextArglen q b = some (o, q', b'))
    : nextArglen q (b ++ c) = some (o, q', b' ++ c) := by
  unfold nextArglen at h ⊢
  cases hlen : Request.readArglen b 0 none with
  | needMore => simp [hlen] at h
  | error err =>
    rw [readArglen_append b c (by simp [hlen])]
    simp only [hlen, Option.some.injEq, Prod.mk.injEq] at h ⊢
    simp [← h.1, ← h.2.1, ← h.2.2]
  | known pos len =>
    rw [readArglen_append b c (by simp [hlen])]
    simp only [hlen, Option.some.injEq, Prod.mk.injEq] at h ⊢
    rw [List.drop_append_of_le_length (readArglen_known hlen).2]
    simp [← h.1, ← h.2.1, ← h.2.2]

theorem nextArgument_append (c : Bytes) (h : nextArgument q len b = some (o, q', b'))
    : nextArgument q len (b ++ c) = some (o, q', b' ++ c) := by
  unfold nextArgument at h ⊢
  split at h
  . simp at h
  . next hlen =>
    rw [if_neg (by simp; omega), List.take_append_of_le_length (by omega),
      List.drop_append_of_le_length (by omega)]
    dsimp only at h ⊢
    split at h
    . next hargc =>
      simp only [Option.some.injEq, Prod.mk.injEq] at h
      rw [if_pos hargc]
      simp [← h.1, ← h.2.1, ← h.2.2]
    . next hargc =>
      simp only [Option.some.injEq, Prod.mk.injEq] at h
      rw [if_neg hargc]
      simp [← h.1, ← h.2.1, ← h.2.2]

theorem next_append (c : Bytes) (h : next q b = some (o, q', b'))
    : next q (b ++ c) = some (o, q', b' ++ c) := by
  unfold next at h ⊢
  split at h
  . simp at h
  . next hclosed =>
    rw [if_neg hclosed]
    split at h
    . next hargc =>
      rw [if_pos hargc]
      exact nextHeader_append c h
    . next hargc =>
      rw [if_neg hargc]
      split at h
      . exact nextArglen_append c h
      . exact nextArgument_append c h

end RequestControl

def requestMachine : Resumable RequestControl UInt8 RequestEvent where
  next := RequestControl.next
  next_append := RequestControl.next_append

end Kids
