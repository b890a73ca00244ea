import Kids.Client.RequestLemmas
import Kids.Util.Protocol

/-!
The request protocol reads back what `commandEncoding` writes, whatever bytes the arguments have.
-/

namespace Kids
namespace RequestControl

open Bytes Request

/--
Where a reader of encoded commands can stop: it is open and has no more than one argument in front of it.
-/
def Bounded (q : RequestControl) (b : Bytes) : Prop :=
  q.closed = false ∧ b.length ≤ maxBulkLen.toNat + 2

theorem Bounded.of_prefix (hopen : q.closed = false) (ht : t.length ≤ maxBulkLen.toNat + 2)
    : ∀ b, b <+: t → Bounded q b := by
  intro b hb
  have := hb.length_le
  exact ⟨hopen, by omega⟩

theorem strchr_headerLine (type : UInt8) (n : Nat) (hcr : type ≠ cr) (hnul : type ≠ nul)
    : strchr (headerLine type n) cr = some ((decimal n).length + 1) := by
  have hline : headerLine type n = (type :: decimal n) ++ cr :: [lf] := by
    simp [headerLine, crlf]
  rw [hline, strchr_line]
  . simp
  . simp only [List.mem_cons, not_or]
    exact ⟨hcr.symm, not_mem_decimal n cr (by decide)⟩
  . simp only [List.mem_cons, not_or]
    exact ⟨hnul.symm, not_mem_decimal n nul (by decide)⟩

theorem headerValue_headerLine (type : UInt8) (n : Nat) (hn : n ≤ llongMax) (hlen : (decimal n).length < 2 ^ 64)
    : headerValue (headerLine type n) ((decimal n).length + 1) = some (n : Int) := by
  have hsize : sizeT (((decimal n).length + 1 : Nat) - 1 : Int) = (decimal n).length := by
    unfold sizeT
    omega
  unfold headerValue
  rw [hsize]
  exact string2ll_decimal n crlf hn

theorem drop_headerLine (type : UInt8) (n : Nat) : (headerLine type n).drop ((decimal n).length + 1 + 2) = [] := by
  rw [List.drop_eq_nil_iff, length_headerLine]

theorem decimal_length_small (n : Nat) (h : n ≤ maxBulkLen.toNat) : (decimal n).length ≤ 9 := by
  apply decimal_length_le n 8
  simp only [maxBulkLen] at h
  omega

theorem next_commandHeader (n : Nat) (hpos : 0 < n) (hle : n ≤ maxMultibulkLen)
    : requestMachine.next init (headerLine 42 n) = some ([], { init with argc := n }, []) := by
  simp only [maxMultibulkLen] at hle
  have hsmall : n ≤ maxBulkLen.toNat := by
    simp only [maxBulkLen]
    omega
  have hlen := decimal_length_small n hsmall
  change nextHeader init (headerLine 42 n) = _
  unfold nextHeader
  rw [strchr_headerLine 42 n (by decide) (by decide)]
  dsimp only
  rw [if_neg (by rw [length_headerLine]; omega)]
  rw [headerValue_headerLine 42 n (by simp only [llongMax]; omega) (by omega)]
  dsimp only
  rw [if_neg (by simp only [maxMultibulkLen]; omega)]
  rw [if_neg (by omega)]
  rw [drop_headerLine]
  rfl

theorem next_bulkHeader (q : RequestControl) (n : Nat) (hopen : q.closed = false) (hargc : q.argc ≠ 0)
    (hcur : q.curArglen = none) (hle : n ≤ maxBulkLen.toNat)
    : requestMachine.next q (headerLine dollar n) = some ([], { q with curArglen := some n }, []) := by
  have hlen := decimal_length_small n hle
  have hnext : requestMachine.next q (headerLine dollar n) = q.nextArglen (headerLine dollar n) := by
    simp [requestMachine, next, hopen, hargc, hcur]
  rw [hnext]
  unfold nextArglen
  rw [readArglen_none]
  simp only [List.drop_zero, Nat.zero_add]
  rw [strchr_headerLine dollar n (by decide) (by decide)]
  dsimp only
  rw [if_neg (by rw [length_headerLine]; omega)]
  rw [if_neg (by simp [headerLine])]
  simp only [maxBulkLen] at hle
  rw [headerValue_headerLine dollar n (by simp only [llongMax]; omega) (by omega)]
  dsimp only
  rw [if_neg (by simp only [maxBulkLen]; omega)]
  dsimp only
  rw [drop_headerLine]
  rfl

theorem next_argument (q : RequestControl) (data : Bytes) (hopen : q.closed = false) (hargc : q.argc ≠ 0)
    (hcur : q.curArglen = some data.length)
    : requestMachine.next q (data ++ crlf) =
        if q.argv.length + 1 = q.argc then
          some ([.command (q.argv ++ [data])],
            dispatch ⟨q.argc, none, q.argv ++ [data], false⟩, [])
        else
          some ([], { q with curArglen := none, argv := q.argv ++ [data] }, []) := by
  simp [requestMachine, next, hopen, hargc, hcur, nextArgument, show crlf.drop 2 = [] from rfl]

-- the arguments before the last one, and the header of the last one
theorem reads_lastHeader (argc : Nat) (argv args : List Bytes) (last : Bytes)
    (hargc : argv.length + args.length + 1 = argc) (hlen : ∀ arg ∈ args, arg.length ≤ maxBulkLen.toNat)
    (hlast : last.length ≤ maxBulkLen.toNat)
    : requestMachine.Reads Bounded ⟨argc, none, argv, false⟩
        ((args.map bulkEncoding).flatten ++ headerLine dollar last.length) []
        ⟨argc, some last.length, argv ++ args, false⟩ := by
  have hbusy : argc ≠ 0 := by omega
  have hheader : ∀ (argv : List Bytes) (arg : Bytes), arg.length ≤ maxBulkLen.toNat →
      requestMachine.Reads Bounded ⟨argc, none, argv, false⟩ (headerLine dollar arg.length) []
        ⟨argc, some arg.length, argv, false⟩ := by
    intro argv arg harg
    have hsmall := decimal_length_small arg.length harg
    apply Resumable.Reads.single
    . exact next_bulkHeader _ arg.length rfl hbusy rfl harg
    . apply Bounded.of_prefix rfl
      rw [length_headerLine]
      simp only [maxBulkLen]
      omega
  induction args generalizing argv with
  | nil =>
    rw [List.append_nil]
    exact hheader argv last hlast
  | cons arg args ih =>
    rw [List.forall_mem_cons] at hlen
    simp only [List.length_cons] at hargc
    have hnext := next_argument ⟨argc, some arg.length, argv, false⟩ arg rfl hbusy rfl
    rw [if_neg (by dsimp only; omega)] at hnext
    have hbounded : ∀ b, b <+: arg ++ crlf → Bounded ⟨argc, some arg.length, argv, false⟩ b := by
      apply Bounded.of_prefix rfl
      simpa using hlen.1
    have hrest := ih (argv ++ [arg]) (by simp only [List.length_append, List.length_singleton]; omega) hlen.2
    rw [List.append_assoc, List.singleton_append] at hrest
    simp only [List.map_cons, List.flatten_cons, bulkEncoding, List.append_assoc]
    apply (hheader argv arg hlen.1).trans
    rw [← List.append_assoc]
    exact .token hnext hbounded hrest

theorem next_lastArgument (argc : Nat) (args : List Bytes) (last : Bytes) (hargc : args.length + 1 = argc)
    : requestMachine.next ⟨argc, some last.length, args, false⟩ (last ++ crlf) =
        some ([.command (args ++ [last])], dispatch ⟨argc, none, args ++ [last], false⟩, []) := by
  rw [next_argument _ last rfl (by dsimp only; omega) rfl, if_pos hargc]

theorem bulks_concat (args : List Bytes) (last : Bytes)
    : ((args ++ [last]).map bulkEncoding).flatten =
        (args.map bulkEncoding).flatten ++ headerLine dollar last.length ++ (last ++ crlf) := by
  simp [bulkEncoding]

theorem reads_header (argc : Nat) (hpos : 0 < argc) (hle : argc ≤ maxMultibulkLen)
    : requestMachine.Reads Bounded init (headerLine 42 argc) [] ⟨argc, none, [], false⟩ := by
  have hsmall : argc ≤ maxBulkLen.toNat := by
    simp only [maxMultibulkLen] at hle
    simp only [maxBulkLen]
    omega
  have hdigits := decimal_length_small argc hsmall
  apply Resumable.Reads.single
  . exact next_commandHeader argc hpos hle
  . apply Bounded.of_prefix rfl
    rw [length_headerLine]
    simp only [maxBulkLen]
    omega

section

variable (args : List Bytes) (last : Bytes) (hargc : args.length + 1 ≤ maxMultibulkLen)
  (hlen : ∀ arg ∈ args, arg.length ≤ maxBulkLen.toNat) (hlast : last.length ≤ maxBulkLen.toNat)
include hargc hlen hlast

theorem reads_beforeLast
    : requestMachine.Reads Bounded init
        (headerLine 42 (args.length + 1) ++ ((args.map bulkEncoding).flatten ++ headerLine dollar last.length)) []
        ⟨args.length + 1, some last.length, args, false⟩ :=
  (reads_header (args.length + 1) (Nat.succ_pos _) hargc).trans
    (reads_lastHeader (args.length + 1) [] args last (by simp) hlen hlast)

omit hargc hlen hlast in
theorem commandEncoding_concat
    : commandEncoding (args ++ [last]) =
        headerLine 42 (args.length + 1) ++ ((args.map bulkEncoding).flatten ++ headerLine dollar last.length) ++
          (last ++ crlf) := by
  unfold commandEncoding
  rw [bulks_concat, List.length_append, List.length_singleton, List.append_assoc, List.append_assoc, List.append_assoc]

-- the last argument dispatches the command
theorem reads_concat
    : requestMachine.Reads Bounded init (commandEncoding (args ++ [last])) [.command (args ++ [last])]
        (dispatch ⟨args.length + 1, none, args ++ [last], false⟩) := by
  rw [commandEncoding_concat]
  apply (reads_beforeLast args last hargc hlen hlast).trans
  apply Resumable.Reads.single
  . exact next_lastArgument _ args last rfl
  . apply Bounded.of_prefix rfl
    simpa using hlast

-- and there is none before its end
theorem silent_of_part (hp : p <+: commandEncoding (args ++ [last])) (hne : p ≠ commandEncoding (args ++ [last]))
    (hc : requestMachine.Completes init p evs q b) : evs = [] := by
  rw [commandEncoding_concat] at hp hne
  refine (reads_beforeLast args last hargc hlen hlast).silent_of_part (next_lastArgument _ args last rfl) ?_ ?_ hp hne hc
  . exact List.append_ne_nil_of_right_ne_nil _ (List.cons_ne_nil _ _)
  . exact ⟨rfl, Nat.zero_le _⟩

end

theorem reads_command (argv : List Bytes) (hne : argv ≠ []) (hargc : argv.length ≤ maxMultibulkLen)
    (hlen : ∀ arg ∈ argv, arg.length ≤ maxBulkLen.toNat)
    : requestMachine.Reads Bounded init (commandEncoding argv) [.command argv]
        (dispatch ⟨argv.length, none, argv, false⟩) := by
  obtain ⟨args, last, hconcat⟩ := (List.eq_nil_or_concat argv).resolve_left hne
  rw [List.concat_eq_append] at hconcat
  subst hconcat
  rw [List.forall_mem_append, List.forall_mem_singleton] at hlen
  rw [List.length_append, List.length_singleton] at hargc ⊢
  exact reads_concat args last hargc hlen.1 hlen.2

end RequestControl
end Kids
