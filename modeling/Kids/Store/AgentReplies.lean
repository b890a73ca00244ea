import Kids.Store.AgentLemmas

/-!
What an agent makes of the replies of the remote kids, however they come in reads.
-/

namespace Kids

open Bytes

/--
The replies of a stream that is there as a whole: a CR with a byte behind it ends one, and two bytes go with it.
-/
def repliesIn : Bytes → Nat
  | [] => 0
  | [_] => 0
  | b :: c :: s => if b = cr then repliesIn s + 1 else repliesIn (c :: s)

/--
What comes behind the last of the replies.
-/
def unread : Bytes → Bytes
  | [] => []
  | [b] => [b]
  | b :: c :: s =>
    if b = cr then
      unread s
    else if repliesIn (c :: s) = 0 then
      b :: c :: s
    else
      unread (c :: s)

section

variable {b c : UInt8} {s t : Bytes}

theorem repliesIn_cr : repliesIn (cr :: c :: s) = repliesIn s + 1 := by
  rw [repliesIn, if_pos rfl]

theorem repliesIn_ne (hb : b ≠ cr) : repliesIn (b :: s) = repliesIn s := by
  cases s with
  | nil => rfl
  | cons c s => rw [repliesIn, if_neg hb]

theorem unread_cr : unread (cr :: c :: s) = unread s := by
  rw [unread, if_pos rfl]

theorem unread_ne (hb : b ≠ cr) : unread (b :: s) = if repliesIn s = 0 then b :: s else unread s := by
  cases s with
  | nil => rfl
  | cons c s => rw [unread, if_neg hb]

theorem unread_eq_self (h : repliesIn s = 0) : unread s = s := by
  match s with
  | [] => rfl
  | [b] => rfl
  | b :: c :: s =>
    by_cases hb : b = cr
    . subst hb
      rw [repliesIn_cr] at h
      cases h
    . rw [repliesIn_ne hb] at h
      rw [unread_ne hb, if_pos h]

theorem unread_suffix (s : Bytes) : unread s <:+ s := by
  induction s using repliesIn.induct with
  | case1 => exact List.suffix_refl _
  | case2 b => exact List.suffix_refl _
  | case3 c s ih =>
    rw [unread_cr]
    exact ih.trans ((List.suffix_cons _ _).trans (List.suffix_cons _ _))
  | case4 b c s hb ih =>
    rw [unread_ne hb]
    split
    . exact List.suffix_refl _
    . exact ih.trans (List.suffix_cons _ _)

-- the replies before the end of the first part, and those that it begins
theorem repliesIn_append (s t : Bytes) : repliesIn (s ++ t) = repliesIn s + repliesIn (unread s ++ t) := by
  induction s using repliesIn.induct with
  | case1 => simp [repliesIn, unread]
  | case2 b => simp [repliesIn, unread]
  | case3 c s ih =>
    rw [List.cons_append, List.cons_append, repliesIn_cr, repliesIn_cr, unread_cr, ih]
    omega
  | case4 b c s hb ih =>
    rw [List.cons_append, repliesIn_ne hb, repliesIn_ne hb, unread_ne hb]
    split
    . next h =>
      rw [h, Nat.zero_add]
      exact (repliesIn_ne hb).symm
    . exact ih

theorem unread_append (s t : Bytes) : unread (s ++ t) = unread (unread s ++ t) := by
  induction s using repliesIn.induct with
  | case1 => rfl
  | case2 b => rfl
  | case3 c s ih =>
    rw [List.cons_append, List.cons_append, unread_cr, unread_cr, ih]
  | case4 b c s hb ih =>
    by_cases h : repliesIn (c :: s) = 0
    . rw [unread_ne hb, if_pos h]
    . have hmore : repliesIn (c :: s ++ t) ≠ 0 := by
        rw [repliesIn_append]
        omega
      rw [List.cons_append, unread_ne hb, unread_ne hb, if_neg h, if_neg hmore]
      exact ih

theorem nul_not_mem_unread (h : nul ∉ s) : nul ∉ unread s :=
  fun hmem => h ((unread_suffix s).subset hmem)

-- the first CR, with a byte behind it or without
theorem strchr_cr_cases (hnul : nul ∉ s)
    : (strchr s cr = none ∧ repliesIn s = 0) ∨
      (∃ i, strchr s cr = some i ∧ i + 1 = s.length ∧ repliesIn s = 0) ∨
      ∃ i, strchr s cr = some i ∧ i + 1 < s.length ∧ repliesIn s = repliesIn (s.drop (i + 2)) + 1 ∧
        unread s = unread (s.drop (i + 2)) := by
  induction s with
  | nil => exact .inl ⟨rfl, rfl⟩
  | cons b s ih =>
    rw [List.mem_cons, not_or] at hnul
    by_cases hb : b = cr
    . subst hb
      have hzero : strchr (cr :: s) cr = some 0 := by
        rw [strchr, if_pos rfl]
      cases s with
      | nil => exact .inr (.inl ⟨0, hzero, rfl, rfl⟩)
      | cons c s => exact .inr (.inr ⟨0, hzero, by simp, repliesIn_cr, unread_cr⟩)
    . have hnext : strchr (b :: s) cr = (strchr s cr).map (· + 1) := by
        rw [strchr, if_neg hb, if_neg (Ne.symm hnul.1)]
      rw [hnext, repliesIn_ne hb]
      obtain ⟨hnone, hzero⟩ | ⟨i, hi, hlast, hzero⟩ | ⟨i, hi, hlt, hcount, hrest⟩ := ih hnul.2
      . exact .inl ⟨by rw [hnone]; rfl, hzero⟩
      . exact .inr (.inl ⟨i + 1, by rw [hi]; rfl, by simp [hlast], hzero⟩)
      . refine .inr (.inr ⟨i + 1, by rw [hi]; rfl, by simpa using hlt, hcount, ?_⟩)
        rw [unread_ne hb, if_neg (by omega), hrest]
        rfl

end

namespace Agent

section

variable {a : Agent}

/--
A CR that is all there is in the buffer makes `rep_.size() - 2` wrap, and two bytes are taken from the one.
-/
theorem parseReplyBuffer_cr (h : a.rep.data = [cr]) : a.parseReplyBuffer = none := by
  have hsize : a.rep.size = 1 := congrArg List.length h
  unfold parseReplyBuffer
  rw [h, hsize, show strchr [cr] cr = some 0 from rfl]
  dsimp only
  rw [if_neg (by unfold uint32Size; omega)]
  unfold Buffer.removeFront
  rw [if_neg (by omega), if_neg (by omega)]

theorem parseReplyBuffer_spec (hnul : nul ∉ a.rep.data) (hsmall : a.rep.data.length + 1 < uint32Size)
    (hne : a.rep.data ≠ [cr])
    : (a.parseReplyBuffer = some (a, none) ∧ repliesIn a.rep.data = 0) ∨
      ∃ rep line i, a.parseReplyBuffer = some ({ a with rep := rep }, some line) ∧ i + 1 < a.rep.data.length ∧
        rep.data = a.rep.data.drop (i + 2) ∧ repliesIn a.rep.data = repliesIn rep.data + 1 ∧
        unread a.rep.data = unread rep.data := by
  have hsize : a.rep.size = a.rep.data.length := rfl
  unfold parseReplyBuffer
  unfold uint32Size at hsmall
  obtain ⟨hnone, hzero⟩ | ⟨i, hi, hlast, hzero⟩ | ⟨i, hi, hlt, hcount, hrest⟩ := strchr_cr_cases hnul
  . rw [hnone]
    exact .inl ⟨rfl, hzero⟩
  . -- the CR is the last of several bytes
    have hlong : 2 ≤ a.rep.data.length := by
      by_contra hshort
      have hone : i = 0 := by omega
      rw [hone] at hi hlast
      obtain ⟨b, hb⟩ := List.length_eq_one_iff.mp hlast.symm
      rw [hb, strchr] at hi
      split at hi
      . next hcr => exact hne (by rw [hb, hcr])
      . split at hi
        . cases hi
        . cases hi
    rw [hi]
    dsimp only
    rw [if_pos (by rw [hsize]; unfold uint32Size; omega)]
    exact .inl ⟨rfl, hzero⟩
  . obtain ⟨rep, hrep, hdata⟩ := a.rep.removeFront_spec (show i + 2 ≤ a.rep.data.length by omega)
      (by unfold uint32Size; omega)
    rw [hi]
    dsimp only
    rw [if_neg (by rw [hsize]; unfold uint32Size; omega), hrep]
    exact .inr ⟨rep, _, i, rfl, hlt, hdata, by rw [hdata]; exact hcount, by rw [hdata]; exact hrest⟩

theorem processReplyBuffer_go_spec (hnul : nul ∉ a.rep.data) (hsmall : a.rep.data.length + 1 < uint32Size)
    : if unread a.rep.data = [cr] then
        processReplyBuffer.go a = none
      else
        ∃ rep lines, processReplyBuffer.go a = some ({ a with rep := rep }, lines) ∧
          rep.data = unread a.rep.data ∧ lines.length = repliesIn a.rep.data := by
  generalize hlen : a.rep.data.length = len
  induction len using Nat.strong_induction_on generalizing a with
  | _ len ih =>
    rw [processReplyBuffer.go]
    by_cases hempty : a.rep.size = 0
    . have hnil : a.rep.data = [] := List.length_eq_zero_iff.mp hempty
      have hne : unread [] ≠ [cr] := (List.cons_ne_nil cr []).symm
      rw [if_pos hempty, hnil, if_neg hne]
      exact ⟨a.rep, [], rfl, hnil, rfl⟩
    rw [if_neg hempty]
    by_cases hcr : a.rep.data = [cr]
    . rw [parseReplyBuffer_cr hcr, hcr]
      rfl
    obtain ⟨hparse, hzero⟩ | ⟨rep, line, i, hparse, hlt, hdata, hcount, hrest⟩ :=
      parseReplyBuffer_spec hnul hsmall hcr
    . rw [hparse, unread_eq_self hzero, if_neg hcr, hzero]
      exact ⟨a.rep, [], rfl, rfl, rfl⟩
    . have hshort : rep.data.length < len := by
        rw [hdata, List.length_drop]
        omega
      have hmem : nul ∉ rep.data := by
        rw [hdata]
        exact fun h => hnul (List.mem_of_mem_drop h)
      have hrep := ih rep.data.length hshort (a := { a with rep := rep }) hmem (by dsimp only; omega) rfl
      rw [hparse, hrest, hcount]
      dsimp only at hrep ⊢
      split at hrep
      . next h =>
        rw [if_pos h, hrep]
        rfl
      . next h =>
        obtain ⟨rep', lines, hgo, hdata', hlines⟩ := hrep
        rw [if_neg h, hgo]
        exact ⟨rep', line :: lines, rfl, hdata', by rw [List.length_cons, hlines]⟩

theorem processReplyBuffer_spec (hnul : nul ∉ a.rep.data) (hsmall : a.rep.data.length + 1 < uint32Size)
    : if unread a.rep.data = [cr] then
        a.processReplyBuffer = none
      else
        ∃ rep lines, a.processReplyBuffer = some ({ a with rep := rep }, lines) ∧
          rep.data = unread a.rep.data ∧ lines.length = repliesIn a.rep.data := by
  have hgo := processReplyBuffer_go_spec hnul hsmall
  unfold processReplyBuffer
  split at hgo
  . next h =>
    rw [if_pos h, hgo]
    rfl
  . next h =>
    obtain ⟨rep, lines, hgo, hdata, hlines⟩ := hgo
    rw [if_neg h, hgo]
    by_cases hempty : rep.size = 0
    . refine ⟨rep.clear, lines, ?_, ?_, hlines⟩
      . rw [Option.map_some]
        dsimp only
        rw [if_pos hempty]
      . rw [← hdata]
        exact (List.length_eq_zero_iff.mp hempty).symm
    . refine ⟨rep, lines, ?_, hdata, hlines⟩
      rw [Option.map_some]
      dsimp only
      rw [if_neg hempty]

theorem append_none {b : Buffer} {d : Bytes} (hd : d ≠ []) (h : uint32Size ≤ b.data.length + d.length + 1)
    : b.append d = none := by
  by_cases hover : uint32Size ≤ b.data.length + d.length
  . exact b.append_overflow d hover
  . -- the size is the largest there is, so that the block would have none
    have hsize : (b.size + d.length) % uint32Size + 1 = uint32Size := by
      unfold Buffer.size uint32Size at *
      omega
    have hcap := b.capacity_lt
    unfold Buffer.append
    rw [if_neg (by simpa using hd)]
    have hreserve : b.reserve ((b.size + d.length) % uint32Size) = none := by
      unfold Buffer.reserve
      rw [dif_neg (by omega)]
      unfold Buffer.resize
      rw [dif_neg (by omega)]
    rw [hreserve]

theorem readReply_spec {buf : Bytes} (hreq : a.req.size ≤ maxQuerybufLen) (hbuf : buf ≠ [])
    (hnul : nul ∉ a.rep.data ++ buf)
    : if uint32Size ≤ (a.rep.data ++ buf).length + 1 ∨ unread (a.rep.data ++ buf) = [cr] then
        a.readReply (.bytes buf) = none
      else
        ∃ rep lines, a.readReply (.bytes buf) = some ⟨{ a with rep := rep }, lines, false⟩ ∧
          rep.data = unread (a.rep.data ++ buf) ∧ lines.length = repliesIn (a.rep.data ++ buf) := by
  have hlen : ¬buf.length = 0 := by simpa using hbuf
  unfold readReply
  dsimp only
  rw [if_neg hlen]
  by_cases hsmall : uint32Size ≤ (a.rep.data ++ buf).length + 1
  . rw [if_pos (.inl hsmall), append_none hbuf (by rwa [← List.length_append])]
  . rw [List.length_append] at hsmall
    obtain ⟨rep, happ, hdata⟩ := a.rep.append_spec buf (by omega)
    have hprocess := processReplyBuffer_spec (a := { a with rep := rep }) (by rwa [← hdata] at hnul)
      (by rw [hdata, List.length_append]; omega)
    rw [happ]
    dsimp only at hprocess ⊢
    have hkeep : ¬({ a with rep := rep } : Agent).req.size > maxQuerybufLen := Nat.not_lt.mpr hreq
    rw [if_neg hkeep]
    rw [hdata] at hprocess
    split at hprocess
    . next h =>
      rw [if_pos (.inr h), hprocess]
      rfl
    . next h =>
      obtain ⟨rep', lines, hgo, hdata', hlines⟩ := hprocess
      rw [if_neg (not_or.mpr ⟨by rw [List.length_append]; omega, h⟩), hgo]
      exact ⟨rep', lines, rfl, hdata', hlines⟩

/--
The reads of a connection, and how often `OnMsgSent` was called in them.
-/
def readReplies (a : Agent) : List Bytes → Option (Agent × Nat)
  | [] => some (a, 0)
  | buf :: bufs =>
    match a.readReply (.bytes buf) with
    | none => none
    | some ⟨a, lines, disconnect⟩ =>
      if disconnect then
        some (a, lines.length)
      else
        (a.readReplies bufs).map fun (a, n) => (a, lines.length + n)

/--
No read leaves a CR as all that is unread, and there is room for each. The first argument is what was read before.
-/
def Splits : Bytes → List Bytes → Prop
  | _, [] => True
  | seen, buf :: bufs =>
    unread (seen ++ buf) ≠ [cr] ∧ (unread seen ++ buf).length + 1 < uint32Size ∧ Splits (seen ++ buf) bufs

/--
The requests that wait are too many, so that the first read closes the connection, and there is no reply.
-/
structure Closes (a : Agent) (bufs : List Bytes) : Prop where
  exceeds : maxQuerybufLen < a.req.size
  room : ∀ buf ∈ bufs.head?, buf.length + 1 < uint32Size
  replies : repliesIn bufs.flatten = 0

theorem readReplies_iff_from {bufs : List Bytes} (seen : Bytes) (hrep : a.rep.data = unread seen)
    (hreq : a.req.size ≤ maxQuerybufLen) (hseen : nul ∉ seen) (hbufs : ∀ buf ∈ bufs, buf ≠ [] ∧ nul ∉ buf)
    : (∃ a' n, a.readReplies bufs = some (a', n) ∧ repliesIn seen + n = repliesIn (seen ++ bufs.flatten)) ↔
        Splits seen bufs := by
  induction bufs generalizing a seen with
  | nil =>
    refine iff_of_true ⟨a, 0, rfl, ?_⟩ trivial
    rw [List.flatten_nil, List.append_nil, Nat.add_zero]
  | cons buf bufs ih =>
    obtain ⟨⟨hne, hnul⟩, hbufs⟩ := List.forall_mem_cons.mp hbufs
    have hboth : nul ∉ unread seen ++ buf := by
      rw [List.mem_append, not_or]
      exact ⟨nul_not_mem_unread hseen, hnul⟩
    have hread := readReply_spec hreq hne (by rwa [hrep])
    rw [hrep, ← unread_append seen buf] at hread
    unfold readReplies Splits
    split at hread
    . next hbad =>
      rw [hread]
      refine iff_of_false (fun ⟨_, _, h, _⟩ => nomatch h) ?_
      rintro ⟨hcr, hroom, -⟩
      rcases hbad with h | h
      . omega
      . exact hcr h
    . next hgood =>
      obtain ⟨hroom, hcr⟩ := not_or.mp hgood
      obtain ⟨rep, lines, hread, hdata, hlines⟩ := hread
      rw [hread]
      dsimp only
      rw [if_neg Bool.false_ne_true]
      have hrest := ih (a := { a with rep := rep }) (seen ++ buf) hdata hreq
        (by rw [List.mem_append, not_or]; exact ⟨hseen, hnul⟩) hbufs
      have hcount := repliesIn_append seen buf
      rw [List.flatten_cons, ← List.append_assoc]
      constructor
      . rintro ⟨a', n, hmap, hsum⟩
        obtain ⟨⟨a1, n1⟩, hrec, heq⟩ := Option.map_eq_some_iff.mp hmap
        cases heq
        exact ⟨hcr, by omega, hrest.mp ⟨a1, n1, hrec, by omega⟩⟩
      . rintro ⟨-, -, hsplits⟩
        obtain ⟨a1, n1, hrec, hsum⟩ := hrest.mpr hsplits
        exact ⟨a1, lines.length + n1, by rw [hrec]; rfl, by omega⟩

theorem readReplies_iff_within {bufs : List Bytes} (hrep : a.rep.data = []) (hreq : a.req.size ≤ maxQuerybufLen)
    (hbufs : ∀ buf ∈ bufs, buf ≠ [] ∧ nul ∉ buf)
    : (∃ a', a.readReplies bufs = some (a', repliesIn bufs.flatten)) ↔ Splits [] bufs := by
  rw [← readReplies_iff_from [] hrep hreq (by simp) hbufs]
  constructor
  . rintro ⟨a', h⟩
    exact ⟨a', _, h, Nat.zero_add _⟩
  . rintro ⟨a', n, h, hcount⟩
    obtain rfl : n = repliesIn bufs.flatten := (Nat.zero_add n).symm.trans hcount
    exact ⟨a', h⟩

theorem readReplies_iff_closes {bufs : List Bytes} (hrep : a.rep.data = []) (hreq : maxQuerybufLen < a.req.size)
    (hbufs : ∀ buf ∈ bufs, buf ≠ [] ∧ nul ∉ buf)
    : (∃ a', a.readReplies bufs = some (a', repliesIn bufs.flatten)) ↔ Closes a bufs := by
  cases bufs with
  | nil => exact iff_of_true ⟨a, rfl⟩ ⟨hreq, nofun, rfl⟩
  | cons buf bufs =>
    have hne := (hbufs buf List.mem_cons_self).1
    have hlen : ¬buf.length = 0 := by simpa using hne
    have hsize : a.rep.data.length + buf.length = buf.length := by rw [hrep, List.length_nil, Nat.zero_add]
    unfold readReplies readReply
    dsimp only
    rw [if_neg hlen]
    by_cases hroom : buf.length + 1 < uint32Size
    . obtain ⟨rep, happ, -⟩ := a.rep.append_spec buf (by omega)
      rw [happ]
      dsimp only
      have hover : ({ a with rep := rep } : Agent).req.size > maxQuerybufLen := hreq
      rw [if_pos hover]
      constructor
      . rintro ⟨a', h⟩
        refine ⟨hreq, ?_, (congrArg Prod.snd (Option.some.inj h)).symm⟩
        rintro buf' ⟨⟩
        exact hroom
      . intro h
        rw [h.replies]
        exact ⟨_, rfl⟩
    . rw [append_none hne (by omega)]
      exact iff_of_false (fun ⟨_, h⟩ => nomatch h) fun h => hroom (h.room buf rfl)

/--
The reads find the replies of the whole stream, without a size that wraps and without taking more bytes than there
are, exactly if the stream is split so and the connection is kept, or there is nothing to find.
-/
theorem readReplies_iff_splits {bufs : List Bytes} (hrep : a.rep.data = [])
    (hbufs : ∀ buf ∈ bufs, buf ≠ [] ∧ nul ∉ buf)
    : (∃ a', a.readReplies bufs = some (a', repliesIn bufs.flatten)) ↔
        a.req.size ≤ maxQuerybufLen ∧ Splits [] bufs ∨ Closes a bufs := by
  by_cases hreq : a.req.size ≤ maxQuerybufLen
  . rw [readReplies_iff_within hrep hreq hbufs]
    exact ⟨fun h => .inl ⟨hreq, h⟩, fun h => h.elim And.right fun h => absurd h.exceeds (Nat.not_lt.mpr hreq)⟩
  . rw [readReplies_iff_closes hrep (Nat.lt_of_not_le hreq) hbufs]
    exact ⟨.inr, fun h => h.elim (fun h => absurd h.1 hreq) id⟩

-- two replies, the second of them in two reads
theorem readReplies_iff_splits_two
    : (∃ a', (create 3).readReplies [[58, 49, cr, lf, 58], [49, cr, lf]] =
          some (a', repliesIn [[58, 49, cr, lf, 58], [49, cr, lf]].flatten)) ↔
        (create 3).req.size ≤ maxQuerybufLen ∧ Splits [] [[58, 49, cr, lf, 58], [49, cr, lf]] ∨
          Closes (create 3) [[58, 49, cr, lf, 58], [49, cr, lf]] :=
  readReplies_iff_splits rfl (by decide)

-- a read that ends between the CR and the LF of an empty line
theorem readReplies_fails_cr : ¬∀ (a : Agent) (bufs : List Bytes), a.rep.data = [] → a.req.size ≤ maxQuerybufLen →
    (∀ buf ∈ bufs, buf ≠ [] ∧ nul ∉ buf) → ∃ a', a.readReplies bufs = some (a', repliesIn bufs.flatten) := by
  intro hall
  obtain ⟨a', h⟩ := hall (create 3) [[cr], [lf]] rfl (Nat.zero_le _) (by decide)
  have hnul : nul ∉ (create 3).rep.data ++ [cr] := by decide
  have hread := readReply_spec (Nat.zero_le _) (List.cons_ne_nil _ _) hnul
  rw [if_pos (.inr rfl)] at hread
  unfold readReplies at h
  rw [hread] at h
  cases h

end

end Agent
end Kids
