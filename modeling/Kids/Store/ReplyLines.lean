import Kids.Store.AgentReplies

/-!
A stream of replies of one line each, cut off anywhere: the agent takes the lines that are there to their ends.
-/

namespace Kids

open Bytes

theorem exists_take_of_prefix {ls : List (List α)} {s : List α} (h : s <+: ls.flatten)
    : ∃ k rest, s = (ls.take k).flatten ++ rest ∧ (rest = [] ∨ ∃ l, ls[k]? = some l ∧ rest <+: l ∧ rest ≠ l) ∧
        k ≤ ls.length := by
  induction ls generalizing s with
  | nil => exact ⟨0, [], List.prefix_nil.mp h, .inl rfl, Nat.le_refl 0⟩
  | cons l ls ih =>
    rw [List.flatten_cons] at h
    by_cases hl : l <+: s
    . obtain ⟨s, rfl⟩ := hl
      obtain ⟨k, rest, rfl, hrest, hk⟩ := ih ((List.prefix_append_right_inj l).mp h)
      exact ⟨k + 1, rest, (List.append_assoc ..).symm, hrest, Nat.succ_le_succ hk⟩
    . have hs : s <+: l := (List.prefix_or_prefix_of_prefix h (List.prefix_append l ls.flatten)).resolve_right hl
      refine ⟨0, s, rfl, .inr ⟨l, rfl, hs, ?_⟩, Nat.zero_le _⟩
      rintro rfl
      exact hl List.prefix_rfl

/--
The text of a reply, without the CR and the LF behind it.
-/
structure ReplyText (text : Bytes) : Prop where
  nonempty : text ≠ []
  noCr : cr ∉ text
  noNul : nul ∉ text
  length_le : (text ++ crlf).length ≤ iobufLen

/--
What the agent keeps until more has come.
-/
structure Kept (rest : Bytes) : Prop where
  none_in : repliesIn rest = 0
  ne_cr : rest ≠ [cr]
  noNul : nul ∉ rest
  length_le : rest.length ≤ iobufLen

section

variable {s t text rest : Bytes}

theorem repliesIn_of_not_mem (h : cr ∉ s) : repliesIn s = 0 := by
  induction s with
  | nil => rfl
  | cons b s ih =>
    rw [List.mem_cons, not_or] at h
    rw [repliesIn_ne (Ne.symm h.1), ih h.2]

theorem repliesIn_text_cr (h : cr ∉ t) : repliesIn (t ++ [cr]) = 0 := by
  induction t with
  | nil => rfl
  | cons b t ih =>
    rw [List.mem_cons, not_or] at h
    rw [List.cons_append, repliesIn_ne (Ne.symm h.1), ih h.2]

theorem Kept.nil : Kept [] :=
  ⟨rfl, nofun, List.not_mem_nil, Nat.zero_le _⟩

-- a line that is not there to its end
theorem ReplyText.kept (h : ReplyText text) (hbegin : rest <+: text ++ crlf) (hne : rest ≠ text ++ crlf)
    : Kept rest := by
  have hcut : repliesIn rest = 0 ∧ rest ≠ [cr] := by
    have hcr := h.noCr
    obtain ⟨more, hmore⟩ := hbegin
    rw [List.append_eq_append_iff] at hmore
    obtain ⟨left, rfl, -⟩ | ⟨left, rfl, hcrlf⟩ := hmore
    . rw [List.mem_append, not_or] at hcr
      refine ⟨repliesIn_of_not_mem hcr.1, ?_⟩
      rintro rfl
      exact hcr.1 (List.mem_singleton_self cr)
    . obtain rfl | rfl : left = [] ∨ left = [cr] := by
        cases left with
        | nil => exact .inl rfl
        | cons b left =>
          obtain ⟨rfl, hlf⟩ := List.cons.inj hcrlf
          cases left with
          | nil => exact .inr rfl
          | cons b' left =>
            obtain ⟨rfl, hnil⟩ := List.cons.inj hlf
            obtain ⟨rfl, -⟩ := List.append_eq_nil_iff.mp (Eq.symm hnil)
            exact absurd rfl hne
      . rw [List.append_nil]
        refine ⟨repliesIn_of_not_mem hcr, ?_⟩
        rintro rfl
        exact hcr (List.mem_singleton_self cr)
      . refine ⟨repliesIn_text_cr hcr, ?_⟩
        intro heq
        have happend : text ++ [cr] = [] ++ [cr] := heq
        exact h.nonempty (List.append_cancel_right happend)
  refine ⟨hcut.1, hcut.2, ?_, Nat.le_trans hbegin.length_le h.length_le⟩
  intro hmem
  obtain htext | hcrlf := List.mem_append.mp (hbegin.subset hmem)
  . exact h.noNul htext
  . exact absurd hcrlf (by decide)

end

namespace Agent

variable {a : Agent} {texts : List Bytes} {text rest : Bytes}

theorem parseReplyBuffer_line (h : ReplyText text) (hdata : a.rep.data = text ++ crlf ++ rest)
    (hsmall : a.rep.data.length + 1 < uint32Size)
    : ∃ rep, a.parseReplyBuffer = some ({ a with rep := rep }, some text) ∧ rep.data = rest := by
  have hlen : a.rep.size = text.length + 2 + rest.length := by
    unfold Buffer.size
    rw [hdata, List.length_append, List.length_append, length_crlf]
  have hstrchr : strchr a.rep.data cr = some text.length := by
    rw [hdata, List.append_assoc]
    exact strchr_line text (lf :: rest) h.noCr h.noNul
  obtain ⟨rep, hrep, hrest⟩ := a.rep.removeFront_spec (n := text.length + 2)
    (show text.length + 2 ≤ a.rep.data.length by unfold Buffer.size at hlen; omega) (by unfold Buffer.size at hlen; omega)
  refine ⟨rep, ?_, ?_⟩
  . unfold parseReplyBuffer
    rw [hstrchr]
    dsimp only
    unfold uint32Size Buffer.size at *
    rw [if_neg (by omega), hrep, hdata, List.append_assoc, List.take_left]
  . rw [hrest, hdata]
    apply List.drop_left'
    rw [List.length_append, length_crlf]

theorem processReplyBuffer_go_lines (htexts : ∀ text ∈ texts, ReplyText text) (hrest : Kept rest)
    (hdata : a.rep.data = (texts.map (. ++ crlf)).flatten ++ rest) (hsmall : a.rep.data.length + 1 < uint32Size)
    : ∃ rep, processReplyBuffer.go a = some ({ a with rep := rep }, texts) ∧ rep.data = rest := by
  induction texts generalizing a with
  | nil =>
    have hdata : a.rep.data = rest := hdata
    rw [processReplyBuffer.go]
    split
    . exact ⟨a.rep, rfl, hdata⟩
    . obtain ⟨hparse, -⟩ | ⟨rep, line, i, -, -, -, hcount, -⟩ :=
        parseReplyBuffer_spec (hdata ▸ hrest.noNul) hsmall (hdata ▸ hrest.ne_cr)
      . rw [hparse]
        exact ⟨a.rep, rfl, hdata⟩
      . rw [hdata, hrest.none_in] at hcount
        cases hcount
  | cons text texts ih =>
    obtain ⟨htext, htexts⟩ := List.forall_mem_cons.mp htexts
    rw [List.map_cons, List.flatten_cons, List.append_assoc] at hdata
    obtain ⟨rep, hparse, hmore⟩ := parseReplyBuffer_line htext hdata hsmall
    have hne : ¬a.rep.size = 0 := by
      unfold Buffer.size
      rw [hdata, List.length_append, List.length_append, length_crlf]
      omega
    have hshort : rep.data.length ≤ a.rep.data.length := by
      rw [hdata, hmore]
      exact (List.suffix_append (text ++ crlf) _).length_le
    obtain ⟨rep', hgo, hrep'⟩ := ih (a := { a with rep := rep }) htexts hmore (by dsimp only; omega)
    rw [processReplyBuffer.go, if_neg hne, hparse]
    dsimp only at hgo ⊢
    rw [hgo]
    exact ⟨rep', rfl, hrep'⟩

theorem readReply_lines {buf : Bytes} (hbuf : buf ≠ []) (htexts : ∀ text ∈ texts, ReplyText text) (hrest : Kept rest)
    (hdata : a.rep.data ++ buf = (texts.map (. ++ crlf)).flatten ++ rest)
    (hsmall : (a.rep.data ++ buf).length + 1 < uint32Size)
    : ∃ rep, (a.req.size ≤ maxQuerybufLen ∧ a.readReply (.bytes buf) = some ⟨{ a with rep := rep }, texts, false⟩ ∧
          rep.data = rest) ∨
        a.readReply (.bytes buf) = some ⟨{ a with rep := rep }, [], true⟩ := by
  have hlen : ¬buf.length = 0 := by simpa using hbuf
  rw [List.length_append] at hsmall
  obtain ⟨rep, happ, hrep⟩ := a.rep.append_spec buf hsmall
  unfold readReply
  dsimp only
  rw [if_neg hlen, happ]
  dsimp only
  by_cases hbig : ({ a with rep := rep } : Agent).req.size > maxQuerybufLen
  . rw [if_pos hbig]
    exact ⟨rep, .inr rfl⟩
  . have hsize : a.req.size ≤ maxQuerybufLen := Nat.le_of_not_lt hbig
    obtain ⟨rep', hgo, hrep'⟩ := processReplyBuffer_go_lines (a := { a with rep := rep }) htexts hrest
      (hrep.trans hdata) (by dsimp only; rw [hrep, List.length_append]; omega)
    rw [if_neg hbig]
    unfold processReplyBuffer
    rw [hgo, Option.map_some, Option.map_some]
    dsimp only
    by_cases hempty : rep'.size = 0
    . rw [if_pos hempty]
      have hnil : rep'.data = [] := List.length_eq_zero_iff.mp hempty
      exact ⟨rep'.clear, .inl ⟨hsize, rfl, hnil.symm.trans hrep'⟩⟩
    . rw [if_neg hempty]
      exact ⟨rep', .inl ⟨hsize, rfl, hrep'⟩⟩

end Agent
end Kids
