import Kids.MessageQueue.Lemmas
import Kids.Lib.Run

/-!
Every interleaving of pushes, `MQNext` calls and garbage collection keeps the queue well formed: nothing
that was freed is touched, every consumer reads the messages in the order they were pushed, and a garbage
collection frees the items that all the positions it was given are behind.
-/

namespace Kids
namespace MessageQueue

variable {W : Nat} {q : MessageQueue W} {log log' : Log W} {addrs addrs' positions : List Addr}

theorem Snapshot.mono (h : Snapshot log addrs positions) (haddrs : addrs <+: addrs')
    (hbase : log'.base = log.base) (hpos : ∀ i, log.pos i ≤ log'.pos i)
    : Snapshot log' addrs' positions := by
  intro j a ha
  obtain ⟨k, hk, hle, hkpos⟩ := h j a ha
  obtain ⟨l, rfl⟩ := haddrs
  exact ⟨k, getElem?_append_of_some hk l, by omega, Nat.le_trans hkpos (hpos j)⟩

structure Consistent (q : MessageQueue W) (log : Log W) (addrs : List Addr) : Prop extends Repr q log addrs where
  gcOk : GcOk q log addrs

namespace Consistent

theorem mqOpen (a : Addr) : Consistent (MessageQueue.mqOpen a : MessageQueue W) .init [a] where
  toRepr := Repr.mqOpen a
  gcOk := {
    oldest_eq := rfl
    size_eq := rfl
    memoryUsage_eq := rfl
    snapshot := by
      intro j b hb
      simp [MessageQueue.mqOpen, Gc.positions] at hb
    length_le := Nat.zero_le _
    length_eq := by
      intro _ _ _ _ hgc
      cases hgc
  }

theorem mqPush (h : Consistent q log addrs) (m : Message) (ha : q.heap a = none)
    : ∃ q', q.mqPush a m = some q' ∧ q'.gc = q.gc ∧ q'.head = q.head ∧ q'.deleted = q.deleted ∧
        Consistent q' (log.append m) (addrs ++ [a]) := by
  obtain ⟨q', hpush, hgc, hhead, hsize, hmem, hdel, hrepr⟩ := h.toRepr.mqPush m ha
  refine ⟨q', hpush, hgc, hhead, hdel, hrepr, ?_⟩
  have hbase := base_le_length log
  have husage := usage_append log.items m hbase
  have hcount := h.gcOk.size_eq
  have hfreed := h.gcOk.memoryUsage_eq
  constructor
  . simp only [oldest, hgc, hhead]
    exact getElem?_append_of_some h.gcOk.oldest_eq _
  . simp only [hgc, hsize, SharedLog.append, List.length_append, List.length_singleton]
    omega
  . simp only [hgc, hmem, SharedLog.append]
    omega
  . rw [hgc]
    exact h.gcOk.snapshot.mono (List.prefix_append _ _) rfl (fun _ => Nat.le_refl _)
  . rw [hgc]
    exact h.gcOk.length_le
  . rw [hgc]
    exact h.gcOk.length_eq

theorem mqNext (h : Consistent q log addrs) (i : Fin (W + 1))
    : ∃ (q' : MessageQueue W) (log' : Log W), q.mqNext i = some (q', log.items[log.pos i]?) ∧
        q'.gc = q.gc ∧ q'.head = q.head ∧ q'.deleted = q.deleted ∧
        log'.items = log.items ∧ log'.base = log.base ∧
        log'.pos = Function.update log.pos i (min (log.pos i + 1) log.items.length) ∧
        Consistent q' log' addrs := by
  rcases h.toRepr.mqNext i with ⟨hend, hnext⟩ | ⟨hlt, q', hnext, hgc, hhead, hsize, hmem, hdel, hrepr⟩
  . refine ⟨q, log, ?_, rfl, rfl, rfl, rfl, rfl, ?_, h⟩
    . rw [hnext, hend, List.getElem?_eq_none (Nat.le_refl _)]
    . rw [Nat.min_eq_right (by omega), ← hend, Function.update_eq_self]
  . refine ⟨q', log.advance i hlt, hnext, hgc, hhead, hdel, rfl, rfl, ?_, hrepr, ?_⟩
    . rw [Nat.min_eq_left (by omega)]
      rfl
    . have hpos : ∀ j, log.pos j ≤ (log.advance i hlt).pos j := by
        intro j
        simp only [SharedLog.advance]
        by_cases hj : j = i
        . subst hj
          simp
        . simp [hj]
      constructor
      . simp only [oldest, hgc, hhead]
        exact h.gcOk.oldest_eq
      . rw [hgc, hsize]
        exact h.gcOk.size_eq
      . rw [hgc, hmem]
        exact h.gcOk.memoryUsage_eq
      . rw [hgc]
        exact h.gcOk.snapshot.mono (List.prefix_refl _) rfl hpos
      . rw [hgc]
        exact h.gcOk.length_le
      . rw [hgc]
        exact h.gcOk.length_eq

theorem base_lt_pos (h : Consistent q log addrs) (hgc : q.gc = .freeing positions p count memoryFreed)
    (hp : p ∉ positions) (i : Fin (W + 1))
    : log.base < log.pos i := by
  have hlen := h.gcOk.length_eq _ _ _ _ hgc
  have hsnap := h.gcOk.snapshot
  have hold := h.gcOk.oldest_eq
  rw [hgc] at hsnap
  simp only [oldest, hgc] at hold
  have hi : i.val < positions.length := by omega
  obtain ⟨k, hk, hle, hkpos⟩ := hsnap i positions[i] (List.getElem?_eq_getElem hi)
  rcases Nat.lt_or_eq_of_le hle with hlt | heq
  . omega
  . rw [← heq, hold] at hk
    exact absurd (Option.some.inj hk ▸ List.getElem_mem hi) hp

theorem freeing_done (h : Consistent q log addrs) (hgc : q.gc = .freeing positions p count memoryFreed)
    (hp : p ∈ positions)
    : ∃ q', q.master = some q' ∧ q'.gc = .unlinked count memoryFreed ∧ q'.head = p ∧
        q'.deleted = q.deleted ∧ Consistent q' log addrs := by
  have hold := h.gcOk.oldest_eq
  have hsize := h.gcOk.size_eq
  have hmem := h.gcOk.memoryUsage_eq
  simp only [oldest, hgc, Gc.count, Gc.memoryFreed] at hold hsize hmem
  refine ⟨{ q with head := p, gc := .unlinked count memoryFreed }, ?_, rfl, rfl, rfl, { h.toRepr with }, ?_⟩
  . simp only [master, hgc, freeOldest, if_pos hp]
  . exact {
      oldest_eq := hold
      size_eq := hsize
      memoryUsage_eq := hmem
      snapshot := by
        intro j b hb
        simp [Gc.positions] at hb
      length_le := Nat.zero_le _
      length_eq := by
        intro _ _ _ _ hgc'
        cases hgc'
    }

theorem freeing_delete (h : Consistent q log addrs) (hgc : q.gc = .freeing positions p count memoryFreed)
    (hp : p ∉ positions)
    : ∃ (q' : MessageQueue W) (log' : Log W) (next : Addr) (memoryFreed' : Nat), q.master = some q' ∧
        q'.gc = .freeing positions next (count + 1) memoryFreed' ∧ q'.deleted = q.deleted ++ [p] ∧
        log'.items = log.items ∧ log'.pos = log.pos ∧ log'.base = log.base + 1 ∧ Consistent q' log' addrs := by
  have hread := h.base_lt_pos hgc hp
  have hold := h.gcOk.oldest_eq
  have hsize := h.gcOk.size_eq
  have hmem := h.gcOk.memoryUsage_eq
  have hsnap := h.gcOk.snapshot
  simp only [oldest, hgc, Gc.count, Gc.memoryFreed, Gc.positions] at hold hsize hmem hsnap
  have hlt : log.base < log.items.length := Nat.lt_of_lt_of_le (hread 0) (log.pos_le 0)
  have husage := usage_succ log.items (Nat.le_of_lt hlt)
  have hlen := h.length_eq
  obtain ⟨next, hnext⟩ : ∃ next, addrs[log.base + 1]? = some next :=
    ⟨addrs[log.base + 1], List.getElem?_eq_getElem (by omega)⟩
  have hitem := h.heap_eq _ _ (Nat.le_refl _) hold
  rw [hnext] at hitem
  generalize hres : q.master = res
  simp only [master, hgc, freeOldest, if_neg hp, hitem] at hres
  subst hres
  refine ⟨_, log.discard hread, next, _, rfl, rfl, rfl, rfl, rfl, rfl, h.toRepr.delete hold hread _ _, ?_⟩
  constructor
  . exact hnext
  . simp only [SharedLog.discard, Gc.count]
    omega
  . simp only [SharedLog.discard, Gc.memoryFreed]
    omega
  . intro j a ha
    obtain ⟨k, hk, hle, hkpos⟩ := hsnap j a ha
    refine ⟨k, hk, ?_, hkpos⟩
    rcases Nat.lt_or_eq_of_le hle with hlt | heq
    . exact hlt
    . rw [← heq, hold] at hk
      exact absurd (Option.some.inj hk ▸ List.mem_of_getElem? ha) hp
  . exact Nat.le_of_eq (h.gcOk.length_eq _ _ _ _ hgc)
  . intro _ _ _ _ hgc'
    cases hgc'
    exact h.gcOk.length_eq _ _ _ _ hgc

theorem master_other (h : Consistent q log addrs)
    (hgc : ∀ positions p count memoryFreed, q.gc ≠ .freeing positions p count memoryFreed)
    : ∃ q', q.master = some q' ∧ Consistent q' log addrs := by
  have hold := h.gcOk.oldest_eq
  have hsize := h.gcOk.size_eq
  have hmem := h.gcOk.memoryUsage_eq
  have hsnap := h.gcOk.snapshot
  have hle := h.gcOk.length_le
  generalize hq : q.gc = gc at *
  simp only [oldest, hq] at hold
  cases gc with
  | idle =>
    refine ⟨{ q with gc := .reading [] }, ?_, { h.toRepr with }, hold, hsize, hmem, hsnap, hle, ?_⟩
    . simp only [master, hq]
    . intro _ _ _ _ hgc'
      cases hgc'
  | reading positions =>
    simp only [Gc.positions] at hsnap hle
    by_cases hlt : positions.length < W + 1
    . refine ⟨{ q with gc := .reading (positions ++ [q.cursor ⟨positions.length, hlt⟩]) }, ?_,
        { h.toRepr with }, hold, hsize, hmem, ?_, ?_, ?_⟩
      . simp only [master, hq, dif_pos hlt]
      . intro j a ha
        simp only [Gc.positions] at ha
        rcases Nat.lt_or_ge j.val positions.length with hj | hj
        . rw [List.getElem?_append_left hj] at ha
          exact hsnap j a ha
        . obtain rfl : j = ⟨positions.length, hlt⟩ := by
            apply Fin.ext
            have := (List.getElem?_eq_some_iff.mp ha).1
            simp only [List.length_append, List.length_singleton] at this
            simp only
            omega
          rw [List.getElem?_concat_length, Option.some.injEq] at ha
          subst ha
          exact ⟨_, h.cursor_eq _, log.base_le _, Nat.le_refl _⟩
      . simp only [Gc.positions, List.length_append, List.length_singleton]
        omega
      . intro _ _ _ _ hgc'
        cases hgc'
    . refine ⟨{ q with gc := .freeing positions q.head 0 0 }, ?_, { h.toRepr with }, hold, hsize, hmem, hsnap,
        hle, ?_⟩
      . simp only [master, hq, dif_neg hlt]
      . intro _ _ _ _ hgc'
        cases hgc'
        omega
  | freeing positions p count memoryFreed => exact absurd rfl (hgc positions p count memoryFreed)
  | unlinked count memoryFreed =>
    simp only [Gc.count, Gc.memoryFreed] at hsize hmem
    refine ⟨{ q with memoryUsage := q.memoryUsage - memoryFreed, size := q.size - count, gc := .idle }, ?_,
      { h.toRepr with }, hold, ?_, ?_, ?_, Nat.zero_le _, ?_⟩
    . simp only [master, hq]
    . simp only [Gc.count]
      omega
    . simp only [Gc.memoryFreed]
      omega
    . intro j b hb
      simp [Gc.positions] at hb
    . intro _ _ _ _ hgc'
      cases hgc'

theorem master (h : Consistent q log addrs)
    : ∃ (q' : MessageQueue W) (log' : Log W), q.master = some q' ∧ log'.items = log.items ∧
        log'.pos = log.pos ∧ Consistent q' log' addrs := by
  by_cases hgc : ∃ positions p count memoryFreed, q.gc = .freeing positions p count memoryFreed
  . obtain ⟨positions, p, count, memoryFreed, hgc⟩ := hgc
    by_cases hp : p ∈ positions
    . obtain ⟨q', hmaster, -, -, -, hok⟩ := h.freeing_done hgc hp
      exact ⟨q', log, hmaster, rfl, rfl, hok⟩
    . obtain ⟨q', log', -, -, hmaster, -, -, hitems, hpos, -, hok⟩ := h.freeing_delete hgc hp
      exact ⟨q', log', hmaster, hitems, hpos, hok⟩
  . simp only [not_exists] at hgc
    obtain ⟨q', hmaster, hok⟩ := h.master_other hgc
    exact ⟨q', log, hmaster, rfl, rfl, hok⟩

theorem step (h : Consistent q log addrs) (l : Label W) (hl : q.Legal l)
    : ∃ (q' : MessageQueue W) (log' : Log W) (addrs' : List Addr), q.step l = some q' ∧
        Consistent q' log' addrs' := by
  cases l with
  | push a m =>
    obtain ⟨q', hpush, -, -, -, hok⟩ := h.mqPush m hl
    exact ⟨q', _, _, hpush, hok⟩
  | next i =>
    obtain ⟨q', log', hnext, -, -, -, -, -, -, hok⟩ := h.mqNext i
    refine ⟨q', log', addrs, ?_, hok⟩
    simp only [MessageQueue.step, hnext, Option.map_some]
  | master =>
    obtain ⟨q', log', hmaster, -, -, hok⟩ := h.master
    exact ⟨q', log', addrs, hmaster, hok⟩

end Consistent

theorem consistent_of_reaches (h : Run.Reaches Step (mqOpen a : MessageQueue W) ls q)
    : ∃ log addrs, Consistent q log addrs := by
  refine h.invariant (fun q => ∃ log addrs, Consistent q log addrs) ?_ ?_
  . exact ⟨_, _, Consistent.mqOpen a⟩
  . rintro q l q' ⟨log, addrs, hok⟩ ⟨hlegal, hstep⟩
    obtain ⟨t, log', addrs', ht, hok'⟩ := hok.step l hlegal
    obtain rfl : t = q' := Option.some.inj (ht.symm.trans hstep)
    exact ⟨log', addrs', hok'⟩

theorem Repr.linked (h : Repr q log addrs) (hk : log.base ≤ k) (hlt : k < addrs.length)
    : Linked q.heap (addrs.drop k) := by
  have hitem := h.heap_eq k addrs[k] hk (List.getElem?_eq_getElem hlt)
  rw [List.drop_eq_getElem_cons hlt]
  rcases Nat.lt_or_ge (k + 1) addrs.length with hlt' | hge
  . have ih := h.linked (k := k + 1) (by omega) hlt'
    rw [List.drop_eq_getElem_cons hlt'] at ih ⊢
    rw [List.getElem?_eq_getElem hlt'] at hitem
    exact ⟨⟨_, hitem⟩, ih⟩
  . rw [List.drop_eq_nil_of_le hge]
    rw [List.getElem?_eq_none hge] at hitem
    exact ⟨_, hitem⟩
termination_by addrs.length - k

theorem Repr.usage_eq (h : Repr q log addrs) (hk : log.base ≤ k) (hlt : k < addrs.length)
    : ((addrs.drop k).map (memoryAt q.heap)).sum = usage log.items k := by
  have hlen := h.length_eq
  have hitem := h.heap_eq k addrs[k] hk (List.getElem?_eq_getElem hlt)
  rw [List.drop_eq_getElem_cons hlt, usage_succ log.items (by omega)]
  simp only [List.map_cons, List.sum_cons]
  have hhere : memoryAt q.heap addrs[k] = ((itemValue log.items k).map Message.memory).getD 0 := by
    simp only [memoryAt, hitem, Option.bind_some]
  rcases Nat.lt_or_ge (k + 1) addrs.length with hlt' | hge
  . rw [h.usage_eq (by omega) hlt', hhere]
    omega
  . rw [List.drop_eq_nil_of_le hge, hhere]
    simp only [usage]
    rw [List.drop_eq_nil_of_le (by omega)]
    simp
termination_by addrs.length - k

def CursorAlive (q : MessageQueue W) (i : Fin (W + 1)) : Prop :=
  ∃ item, q.heap (q.cursor i) = some item ∧ item.value = (q.results i).getLast?

theorem Repr.cursorAlive (h : Repr q log addrs) (i : Fin (W + 1)) : q.CursorAlive i := by
  refine ⟨_, h.heap_eq _ _ (log.base_le i) (h.cursor_eq i), ?_⟩
  have hle := log.pos_le i
  rw [h.results_eq]
  simp only [SharedLog.read]
  cases hp : log.pos i with
  | zero => rfl
  | succ n =>
    rw [hp] at hle
    rw [itemValue, List.getLast?_take, if_neg (Nat.succ_ne_zero n), Nat.add_sub_cancel,
      List.getElem?_eq_getElem hle]
    rfl

def Accounted (q : MessageQueue W) : Prop :=
  ∃ chain, Linked q.heap chain ∧ chain.Nodup ∧ (∀ a, q.heap a ≠ none ↔ a ∈ chain) ∧
    chain.head? = some q.head ∧ chain.getLast? = some q.tail ∧
    q.size = chain.length - 1 ∧ q.memoryUsage = (chain.map (memoryAt q.heap)).sum

theorem Repr.mem_iff (h : Repr q log addrs) (a : Addr) : q.heap a ≠ none ↔ a ∈ addrs.drop log.base :=
  ⟨h.mem_of_heap a, fun hmem ha => h.not_mem_of_heap ha hmem⟩

theorem Repr.getLast_eq (h : Repr q log addrs) : (addrs.drop log.base).getLast? = some q.tail := by
  have hbase := h.base_lt
  rw [List.getLast?_drop, if_neg (by omega), List.getLast?_eq_getElem?, h.length_eq, Nat.add_sub_cancel]
  exact h.tail_eq

theorem Consistent.accounted (h : Consistent q log addrs) (hgc : q.gc.isFreeing = false) : q.Accounted := by
  have hlen := h.length_eq
  have hold := h.gcOk.oldest_eq
  have hsize := h.gcOk.size_eq
  have hmem := h.gcOk.memoryUsage_eq
  have hhead : q.oldest = q.head := by
    simp only [oldest]
    split
    . next hq => simp [hq, Gc.isFreeing] at hgc
    . rfl
  have hcount : q.gc.count = 0 ∧ q.gc.memoryFreed = 0 := by
    cases hq : q.gc with
    | idle => exact ⟨rfl, rfl⟩
    | reading => exact ⟨rfl, rfl⟩
    | freeing => simp [hq, Gc.isFreeing] at hgc
    | unlinked => simp [hq, Gc.isFreeing] at hgc
  refine ⟨addrs.drop log.base, h.linked (Nat.le_refl _) h.base_lt, h.nodup, h.mem_iff, ?_, h.getLast_eq, ?_, ?_⟩
  . rw [List.head?_drop, hold, hhead]
  . rw [List.length_drop]
    omega
  . rw [h.usage_eq (Nat.le_refl _) h.base_lt]
    omega

def rounds (ls : List (Label W)) : Nat :=
  ls.countP Label.isMaster

def Frees (s : MessageQueue W) (positions before : List Addr) (e : Addr) (n : Nat) (t : MessageQueue W) : Prop :=
  (n ≤ before.length →
    t.deleted = s.deleted ++ before.take n ∧
      ∃ p count memoryFreed, t.gc = .freeing positions p count memoryFreed) ∧
  (n = before.length + 1 →
    t.deleted = s.deleted ++ before ∧ t.head = e ∧ ∃ count memoryFreed, t.gc = .unlinked count memoryFreed)

theorem Frees.congr (h : Frees s positions before e n t) (hgc : t'.gc = t.gc) (hhead : t'.head = t.head)
    (hdel : t'.deleted = t.deleted)
    : Frees s positions before e n t' := by
  simp only [Frees, hgc, hhead, hdel]
  exact h

theorem Consistent.split_at_position (h : Consistent q log addrs)
    (hgc : q.gc = .freeing positions p count memoryFreed)
    : ∃ before e after, addrs.drop log.base = before ++ e :: after ∧ e ∈ positions ∧
        ∀ x ∈ before, x ∉ positions := by
  have hlen := h.gcOk.length_eq _ _ _ _ hgc
  have hsnap := h.gcOk.snapshot
  rw [hgc] at hsnap
  have hpos : 0 < positions.length := by omega
  obtain ⟨k, hk, hle, -⟩ := hsnap 0 positions[0] (List.getElem?_eq_getElem hpos)
  have hfind : ((addrs.drop log.base).find? (. ∈ positions)).isSome := by
    rw [List.find?_isSome]
    refine ⟨positions[0], List.mem_iff_getElem?.mpr ⟨k - log.base, ?_⟩, by simp⟩
    rw [List.getElem?_drop, Nat.add_sub_cancel' hle]
    exact hk
  obtain ⟨e, he⟩ := Option.isSome_iff_exists.mp hfind
  obtain ⟨hmem, before, after, hsplit, hbefore⟩ := List.find?_eq_some_iff_append.mp he
  exact ⟨before, e, after, hsplit, by simpa using hmem, by simpa using hbefore⟩

structure FreesTo (s : MessageQueue W) (positions before : List Addr) (e : Addr) (n : Nat)
    (t : MessageQueue W) : Prop where
  frees : Frees s positions before e n t
  consistent : ∃ log addrs, Consistent t log addrs ∧
    (n ≤ before.length → before.drop n ++ [e] <+: addrs.drop log.base)

theorem FreesTo.step (h : FreesTo s positions before e n t) (he : e ∈ positions)
    (hbefore : ∀ x ∈ before, x ∉ positions) (hstep : Step t l t')
    : FreesTo s positions before e (n + if l.isMaster then 1 else 0) t' := by
  obtain ⟨hfrees, log, addrs, hok, hahead⟩ := h
  obtain ⟨hlegal, hstep⟩ := hstep
  cases l with
  | push a m =>
    obtain ⟨u, hpush, hgc, hhead, hdel, hok'⟩ := hok.mqPush m hlegal
    obtain rfl : u = t' := Option.some.inj (hpush.symm.trans hstep)
    refine ⟨hfrees.congr hgc hhead hdel, _, _, hok', ?_⟩
    intro hn
    have hbase := hok.base_lt
    simp only [SharedLog.append]
    rw [List.drop_append_of_le_length (by omega)]
    exact (hahead hn).trans (List.prefix_append _ _)
  | next i =>
    obtain ⟨u, log', hnext, hgc, hhead, hdel, -, hbase, -, hok'⟩ := hok.mqNext i
    simp only [MessageQueue.step, hnext, Option.map_some, Option.some.injEq] at hstep
    subst hstep
    refine ⟨hfrees.congr hgc hhead hdel, _, _, hok', ?_⟩
    rw [hbase]
    exact hahead
  | master =>
    simp only [Label.isMaster, if_true]
    change t.master = some t' at hstep
    rcases Nat.lt_or_ge before.length n with hgt | hle
    . obtain ⟨u, log', hmaster, -, -, hok'⟩ := hok.master
      obtain rfl : u = t' := Option.some.inj (hmaster.symm.trans hstep)
      exact ⟨⟨by omega, by omega⟩, log', addrs, hok', by omega⟩
    -- the item at the front of what is ahead is the one that the loop looks at
    obtain ⟨hdel, p, count, memoryFreed, hgc⟩ := hfrees.1 hle
    have hahead := hahead hle
    obtain ⟨p', hp', hdrop⟩ := hok.drop_base
    have hold := hok.gcOk.oldest_eq
    simp only [oldest, hgc] at hold
    obtain rfl : p = p' := Option.some.inj (hold.symm.trans hp')
    rw [hdrop] at hahead
    rcases Nat.lt_or_eq_of_le hle with hlt | heq
    . rw [List.drop_eq_getElem_cons hlt, List.cons_append, List.cons_prefix_cons] at hahead
      obtain ⟨hnth, hrest⟩ := hahead
      have hp : p ∉ positions := hbefore p (hnth ▸ List.getElem_mem hlt)
      obtain ⟨u, log', next, memoryFreed', hmaster, hgc', hdel', -, -, hbase, hok'⟩ := hok.freeing_delete hgc hp
      obtain rfl : u = t' := Option.some.inj (hmaster.symm.trans hstep)
      refine ⟨⟨?_, by omega⟩, log', addrs, hok', ?_⟩
      . intro _
        refine ⟨?_, next, _, _, hgc'⟩
        rw [hdel', hdel, List.append_assoc, ← hnth, List.take_append_getElem hlt]
      . intro _
        rw [hbase]
        exact hrest
    . subst heq
      rw [List.drop_length, List.nil_append, List.cons_prefix_cons] at hahead
      obtain ⟨rfl, -⟩ := hahead
      obtain ⟨u, hmaster, hgc', hhead, hdel', hok'⟩ := hok.freeing_done hgc he
      obtain rfl : u = t' := Option.some.inj (hmaster.symm.trans hstep)
      refine ⟨⟨by omega, ?_⟩, log, addrs, hok', by omega⟩
      intro _
      refine ⟨?_, hhead, _, _, hgc'⟩
      rw [hdel', hdel, List.take_length]

theorem FreesTo.reaches (he : e ∈ positions) (hbefore : ∀ x ∈ before, x ∉ positions)
    (hs : FreesTo s positions before e 0 s) (h : Run.Reaches Step s ls t)
    : FreesTo s positions before e (rounds ls) t := by
  induction h with
  | nil => exact hs
  | snoc _ hstep ih =>
    simp only [rounds, List.countP_append, List.countP_singleton]
    exact ih.step he hbefore hstep

theorem mqNext_cursor_of_ne (h : q.mqNext j = some (q', r)) (hij : i ≠ j)
    : q'.cursor i = q.cursor i ∧ q'.results i = q.results i := by
  unfold mqNext at h
  split at h
  . cases h
  . split at h
    . cases h
      exact ⟨rfl, rfl⟩
    . split at h
      . cases h
      . cases h
        simp [hij]

theorem mqNext_alive (h : q.mqNext i = some (q', some m))
    : ∃ item, q'.heap (q'.cursor i) = some item ∧ item.value = some m := by
  unfold mqNext at h
  split at h
  . cases h
  . split at h
    . cases h
    . split at h
      . cases h
      . next hitem =>
        simp only [Option.some.injEq, Prod.mk.injEq] at h
        obtain ⟨rfl, hm⟩ := h
        refine ⟨_, ?_, hm⟩
        rw [← hitem]
        simp

theorem master_frame (h : q.master = some q')
    : q'.cursor = q.cursor ∧ q'.results = q.results ∧ q'.pushed = q.pushed := by
  unfold master at h
  split at h
  . cases h
    exact ⟨rfl, rfl, rfl⟩
  . split at h
    all_goals
      cases h
      exact ⟨rfl, rfl, rfl⟩
  . unfold freeOldest at h
    split at h
    . cases h
      exact ⟨rfl, rfl, rfl⟩
    . split at h
      . cases h
      . split at h
        . cases h
        . cases h
          exact ⟨rfl, rfl, rfl⟩
  . cases h
    exact ⟨rfl, rfl, rfl⟩

theorem mqPush_frame (h : q.mqPush a m = some q')
    : q'.cursor = q.cursor ∧ q'.results = q.results ∧ q'.pushed = q.pushed ++ [m] := by
  unfold mqPush at h
  split at h
  . cases h
  . cases h
    exact ⟨rfl, rfl, rfl⟩

theorem cursor_frame {s t : MessageQueue W} (h : Run.Reaches Step s ls t) (hi : Label.next i ∉ ls)
    : t.cursor i = s.cursor i ∧ t.results i = s.results i := by
  induction h with
  | nil => exact ⟨rfl, rfl⟩
  | @snoc ls t u l _ hstep ih =>
    simp only [List.mem_append, List.mem_singleton, not_or] at hi
    obtain ⟨hc, hr⟩ := ih hi.1
    rw [← hc, ← hr]
    obtain ⟨-, hstep⟩ := hstep
    cases l with
    | push a m =>
      obtain ⟨hc', hr', -⟩ := mqPush_frame hstep
      rw [hc', hr']
      exact ⟨rfl, rfl⟩
    | next j =>
      simp only [MessageQueue.step, Option.map_eq_some_iff] at hstep
      obtain ⟨⟨u', r⟩, hnext, rfl⟩ := hstep
      refine mqNext_cursor_of_ne hnext ?_
      rintro rfl
      exact hi.2 rfl
    | master =>
      obtain ⟨hc', hr', -⟩ := master_frame hstep
      rw [hc', hr']
      exact ⟨rfl, rfl⟩

theorem mqNext_of_lt {s : MessageQueue W} (h : Run.Reaches Step (mqOpen a) ls s)
    (hlt : (s.results i).length < s.pushed.length)
    : ∃ t m, s.mqNext i = some (t, some m) ∧ t.pushed = s.pushed ∧
        t.results = Function.update s.results i (s.results i ++ [m]) ∧ t.results i <+: t.pushed := by
  obtain ⟨log, addrs, hok⟩ := consistent_of_reaches h
  rw [hok.results_eq, hok.pushed_eq, SharedLog.read, List.length_take] at hlt
  rcases hok.toRepr.mqNext i with ⟨hend, -⟩ | ⟨hpos, t, hnext, -, -, -, -, -, hrepr⟩
  . omega
  . rw [List.getElem?_eq_getElem hpos] at hnext
    refine ⟨t, log.items[log.pos i], hnext, ?_, ?_, ?_⟩
    . rw [hrepr.pushed_eq, hok.pushed_eq]
      rfl
    . rw [hrepr.results_eq, SharedLog.read_advance, hok.results_eq, List.getElem?_eq_getElem hpos]
      rfl
    . rw [hrepr.results_eq, hrepr.pushed_eq]
      exact SharedLog.read_isPrefix _ i

/--
In every state that the threads can bring the queue into: no consumer is at a freed item and no step
touches one; the message a consumer has got stays where it is until the consumer asks for the next one;
what each consumer has read is a prefix of what was pushed; a running `MQFreeOldMessages` deletes the items
before the first of its positions and stops there; outside it, the counters agree with the items.
-/
theorem mq_safe {s : MessageQueue W} (h : Run.Reaches Step (mqOpen a) ls s)
    : (∀ i, s.CursorAlive i) ∧
      (∀ l, s.Legal l → ∃ t, s.step l = some t) ∧
      (∀ i t m, s.mqNext i = some (t, some m) → ∃ item, t.heap (t.cursor i) = some item ∧ item.value = some m) ∧
      (∀ i ks t, Run.Reaches Step s ks t → Label.next i ∉ ks →
        t.cursor i = s.cursor i ∧ (t.heap (t.cursor i)).map MQItem.value = (s.heap (s.cursor i)).map MQItem.value) ∧
      (∀ i, s.results i <+: s.pushed) ∧
      (∀ positions p count memoryFreed, s.gc = .freeing positions p count memoryFreed →
        ∃ before e after, Linked s.heap (before ++ e :: after) ∧
          (before ++ e :: after).head? = some p ∧ (before ++ e :: after).getLast? = some s.tail ∧
          e ∈ positions ∧ (∀ x ∈ before, x ∉ positions) ∧
          ∀ ks t, Run.Reaches Step s ks t → Frees s positions before e (rounds ks) t) ∧
      (s.gc.isFreeing = false → s.Accounted) := by
  obtain ⟨log, addrs, hok⟩ := consistent_of_reaches h
  refine ⟨hok.cursorAlive, ?_, ?_, ?_, ?_, ?_, hok.accounted⟩
  . intro l hl
    obtain ⟨t, -, -, ht, -⟩ := hok.step l hl
    exact ⟨t, ht⟩
  . intro i t m hnext
    exact mqNext_alive hnext
  . intro i ks t hreach hi
    obtain ⟨_, _, hok'⟩ := consistent_of_reaches (h.trans hreach)
    obtain ⟨hcursor, hresults⟩ := cursor_frame hreach hi
    obtain ⟨item, hitem, hvalue⟩ := hok.cursorAlive i
    obtain ⟨item', hitem', hvalue'⟩ := hok'.cursorAlive i
    refine ⟨hcursor, ?_⟩
    rw [hitem, hitem', Option.map_some, Option.map_some, hvalue, hvalue', hresults]
  . intro i
    rw [hok.results_eq, hok.pushed_eq]
    exact log.read_isPrefix i
  . intro positions p count memoryFreed hgc
    obtain ⟨before, e, after, hsplit, he, hbefore⟩ := hok.split_at_position hgc
    have hold := hok.gcOk.oldest_eq
    simp only [oldest, hgc] at hold
    refine ⟨before, e, after, ?_, ?_, ?_, he, hbefore, ?_⟩
    . rw [← hsplit]
      exact hok.linked (Nat.le_refl _) hok.base_lt
    . rw [← hsplit, List.head?_drop, hold]
    . rw [← hsplit]
      exact hok.getLast_eq
    . intro ks t hreach
      refine (FreesTo.reaches he hbefore ⟨⟨?_, by omega⟩, log, addrs, hok, ?_⟩ hreach).frees
      . intro _
        exact ⟨by simp, p, count, memoryFreed, hgc⟩
      . intro _
        rw [hsplit]
        simp

theorem mq_safe_freeing
    : ∃ s : MessageQueue 0,
        Run.Reaches Step (mqOpen 0)
          [.push 1 ⟨⟨[97], by decide⟩, ⟨[98], by decide⟩⟩, .next 0, .master, .master, .master] s ∧
        s.gc = .freeing [1] 0 0 0 ∧ s.results 0 <+: s.pushed ∧
        ∃ before e after, Linked s.heap (before ++ e :: after) ∧ e ∈ [1] ∧
          ∀ ks t, Run.Reaches Step s ks t → Frees s [1] before e (rounds ks) t := by
  have hreach : ∃ s : MessageQueue 0,
      Run.Reaches Step (mqOpen 0)
        [.push 1 ⟨⟨[97], by decide⟩, ⟨[98], by decide⟩⟩, .next 0, .master, .master, .master] s ∧
      s.gc = .freeing [1] 0 0 0 :=
    ⟨_, .snoc (.snoc (.snoc (.snoc (.single ⟨rfl, rfl⟩) ⟨trivial, rfl⟩) ⟨trivial, rfl⟩) ⟨trivial, rfl⟩)
      ⟨trivial, rfl⟩, rfl⟩
  obtain ⟨s, hreach, hgc⟩ := hreach
  obtain ⟨-, -, -, -, hread, hfrees, -⟩ := mq_safe hreach
  obtain ⟨before, e, after, hlinked, -, -, he, -, hrun⟩ := hfrees _ _ _ _ hgc
  exact ⟨s, hreach, hgc, hread 0, before, e, after, hlinked, he, hrun⟩

end MessageQueue
end Kids
