import Kids.Lib.Spread
import Kids.Store.Ledger

/-!
What each kind of store does with the messages that it accepts: it keeps its policy in every call, if the stores below
it keep account of theirs.
-/

namespace Kids

open Spread

namespace GroupKind

-- the result of an `AddMessage`, from those of the stores
def ok : GroupKind → List Bool → Bool
  | .multipleAll, results => results.all id
  | _, results => results.any id

/--
What the stores of a group have accepted, if the group has accepted this.
-/
def Policy (accepted : List MessageId) (stores : List (List MessageId)) : GroupKind → Prop
  | .priority => accepted.Perm stores.flatten ∧ ∀ l ∈ stores, l.Sublist accepted
  | .multipleAny => accepted.Subperm stores.flatten ∧ ∀ l ∈ stores, l.Sublist accepted
  | .multipleAll => ∀ l ∈ stores, accepted.Sublist l

variable {accepted : List MessageId} {stores : List (List MessageId)} {kind : GroupKind}

theorem Policy.nil (h : ∀ l ∈ stores, l = []) : kind.Policy [] stores := by
  have hflatten : stores.flatten = [] := List.flatten_eq_nil_iff.mpr h
  have hsublist : ∀ l ∈ stores, l.Sublist [] := by
    intro l hl
    rw [h l hl]
  cases kind with
  | priority =>
    refine ⟨?_, hsublist⟩
    rw [hflatten]
  | multipleAny => exact ⟨List.nil_subperm, hsublist⟩
  | multipleAll => exact fun l _ => List.nil_sublist l

theorem Policy.give (h : kind.Policy accepted stores) (m : MessageId) (results : List Bool)
    (hlen : results.length = stores.length)
    (hone : kind = .priority → results.count true ≤ 1)
    : kind.Policy (give m accepted (kind.ok results)) (List.zipWith (Spread.give m) stores results) := by
  cases kind with
  | priority => exact ⟨perm_one h.1 hlen (hone rfl), sublist_any h.2⟩
  | multipleAny => exact ⟨subperm_any h.1 hlen, sublist_any h.2⟩
  | multipleAll => exact sublist_all h

end GroupKind

namespace StoreBuffer

/--
What the two stores of a buffer have accepted. `direct` went to the primary store when it came, and what else is there
was transferred.
-/
def Policy (accepted primary secondary : List MessageId) : Prop :=
  ∃ direct, direct.Sublist primary ∧ GroupKind.Policy accepted [direct, secondary] .priority

variable {accepted primary secondary : List MessageId}

theorem Policy.nil : Policy [] [] [] :=
  ⟨[], List.Sublist.refl [], GroupKind.Policy.nil (by simp)⟩

theorem Policy.transfer (h : Policy accepted primary secondary) (more : List MessageId)
    : Policy accepted (primary ++ more) secondary := by
  obtain ⟨direct, hdirect, hpolicy⟩ := h
  exact ⟨direct, hdirect.trans (List.sublist_append_left primary more), hpolicy⟩

theorem Policy.toPrimary (h : Policy accepted primary secondary) (m : MessageId)
    : Policy (accepted ++ [m]) (primary ++ [m]) secondary := by
  obtain ⟨direct, hdirect, hpolicy⟩ := h
  exact ⟨direct ++ [m], hdirect.append (List.Sublist.refl [m]),
    hpolicy.give m [true, false] rfl (fun _ => by decide)⟩

theorem Policy.toSecondary (h : Policy accepted primary secondary) (m : MessageId) (ok : Bool)
    : Policy (give m accepted ok) primary (give m secondary ok) := by
  obtain ⟨direct, hdirect, hpolicy⟩ := h
  refine ⟨direct, hdirect, ?_⟩
  cases ok with
  | false => exact hpolicy
  | true => exact hpolicy.give m [false, true] rfl (fun _ => by decide)

end StoreBuffer

namespace TreeOps

/--
`accepted` is kept up by the calls of a store, and so is `Good`.
-/
structure Records (ops : TreeOps σ) (accepted : σ → List MessageId) (Good : σ → Prop) : Prop where
  close : ∀ w s, Good s → Good (ops.close w s).1 ∧ accepted (ops.close w s).1 = accepted s
  open_ : ∀ env w s, Good s → Good (ops.open_ env w s).1.1 ∧ accepted (ops.open_ env w s).1.1 = accepted s
  doAddMessage : ∀ env m w s, Good s → Good (ops.doAddMessage env m w s).1.1 ∧
    accepted (ops.doAddMessage env m w s).1.1 = give m (accepted s) (ops.doAddMessage env m w s).1.2
  cron : ∀ env w s, Good s → Good (ops.cron env w s).1 ∧ accepted (ops.cron env w s).1 = accepted s

namespace Records

variable {ops : TreeOps σ} {accepted : σ → List MessageId} {Good : σ → Prop}

theorem addMessage (h : ops.Records accepted Good) (env : TreeEnv) (m : MessageId) (w : World) (s : σ) (hs : Good s)
    : Good (ops.addMessage env m w s).1.1 ∧
        accepted (ops.addMessage env m w s).1.1 = give m (accepted s) (ops.addMessage env m w s).1.2 := by
  unfold TreeOps.addMessage
  split
  . exact h.doAddMessage env m w s hs
  . exact ⟨hs, rfl⟩

theorem each_keeps {f : World → σ → τ × World} (store : τ → σ)
    (hf : ∀ w s, Good s → Good (store (f w s).1) ∧ accepted (store (f w s).1) = accepted s) (w : World)
    (stores : List σ) (hgood : ∀ s ∈ stores, Good s)
    : (∀ s ∈ (each f w stores).1.map store, Good s) ∧
        ((each f w stores).1.map store).map accepted = stores.map accepted := by
  induction stores generalizing w with
  | nil => exact ⟨hgood, rfl⟩
  | cons s stores ih =>
    rw [List.forall_mem_cons] at hgood
    obtain ⟨hs, heq⟩ := hf w s hgood.1
    obtain ⟨hstores, heqs⟩ := ih (f w s).2 hgood.2
    exact ⟨List.forall_mem_cons.mpr ⟨hs, hstores⟩, List.cons_eq_cons.mpr ⟨heq, heqs⟩⟩

theorem each_gives (h : ops.Records accepted Good) (env : TreeEnv) (m : MessageId) (w : World) (stores : List σ)
    (hgood : ∀ s ∈ stores, Good s)
    : (∀ s ∈ (each (ops.addMessage env m) w stores).1.map Prod.fst, Good s) ∧
        ((each (ops.addMessage env m) w stores).1.map Prod.fst).map accepted =
          List.zipWith (give m) (stores.map accepted) ((each (ops.addMessage env m) w stores).1.map Prod.snd) ∧
        ((each (ops.addMessage env m) w stores).1.map Prod.snd).length = stores.length := by
  induction stores generalizing w with
  | nil => exact ⟨hgood, rfl, rfl⟩
  | cons s stores ih =>
    rw [List.forall_mem_cons] at hgood
    obtain ⟨hs, heq⟩ := h.addMessage env m w s hgood.1
    obtain ⟨hstores, heqs, hlen⟩ := ih (ops.addMessage env m w s).2 hgood.2
    exact ⟨List.forall_mem_cons.mpr ⟨hs, hstores⟩, List.cons_eq_cons.mpr ⟨heq, heqs⟩, congrArg Nat.succ hlen⟩

-- at most one of the stores takes the message
theorem addToFirst (h : ops.Records accepted Good) (env : TreeEnv) (m : MessageId) (w : World) (stores : List σ)
    (hgood : ∀ s ∈ stores, Good s)
    : (∀ s ∈ (StoreGroup.addToFirst ops env m w stores).1.1, Good s) ∧
        ∃ results, results.length = stores.length ∧ results.count true ≤ 1 ∧
          (StoreGroup.addToFirst ops env m w stores).1.2 = results.any id ∧
          (StoreGroup.addToFirst ops env m w stores).1.1.map accepted =
            List.zipWith (give m) (stores.map accepted) results := by
  induction stores generalizing w with
  | nil => exact ⟨hgood, [], rfl, Nat.zero_le 1, rfl, rfl⟩
  | cons s stores ih =>
    rw [List.forall_mem_cons] at hgood
    obtain ⟨hs, heq⟩ := h.addMessage env m w s hgood.1
    obtain ⟨hstores, results, hlen, hone, hok, heqs⟩ := ih (ops.addMessage env m w s).2 hgood.2
    unfold StoreGroup.addToFirst
    generalize ops.addMessage env m w s = r at *
    obtain ⟨⟨t, ok⟩, w1⟩ := r
    dsimp only at *
    cases ok with
    | true =>
      -- those behind it are not asked
      refine ⟨List.forall_mem_cons.mpr ⟨hs, hgood.2⟩, true :: List.replicate stores.length false, ?_, ?_, rfl, ?_⟩
      . rw [List.length_cons, List.length_replicate, List.length_cons]
      . rw [List.count_cons_self, List.count_replicate]
        exact Nat.le_refl 1
      . have hrest : List.zipWith (give m) (stores.map accepted) (List.replicate stores.length false) =
            stores.map accepted := by
          apply List.ext_getElem
          . simp
          . intro i hi hi'
            rw [List.getElem_zipWith, List.getElem_replicate]
            rfl
        rw [List.map_cons, List.zipWith_cons_cons, hrest]
        exact congrArg (. :: stores.map accepted) heq
    | false =>
      refine ⟨List.forall_mem_cons.mpr ⟨hs, hstores⟩, false :: results, congrArg Nat.succ hlen, ?_, hok, ?_⟩
      . rwa [List.count_cons_of_ne (by decide)]
      . exact List.cons_eq_cons.mpr ⟨heq, heqs⟩

end Records
end TreeOps

namespace StoreLayer

/--
A store with its account, above stores with theirs.
-/
def Kept (accepted : σ → List MessageId) (Good : σ → Prop) (account : List MessageId) : StoreLayer σ → Prop
  | .leaf _ => True
  | .group g => g.kind.Policy account (g.stores.map accepted) ∧ ∀ s ∈ g.stores, Good s
  | .buffer b => StoreBuffer.Policy account (accepted b.primary) (accepted b.secondary) ∧ Good b.primary ∧ Good b.secondary

end StoreLayer

section

variable {ops : TreeOps σ} {accepted : σ → List MessageId} {Good : σ → Prop} (h : ops.Records accepted Good)
  {account : List MessageId}
include h

namespace StoreGroup

variable {g : StoreGroup σ}

theorem kept_close (w : World) (hg : StoreLayer.Kept accepted Good account (.group g))
    : StoreLayer.Kept accepted Good account (.group (g.close ops w).1) := by
  obtain ⟨hstores, heq⟩ := TreeOps.Records.each_keeps id h.close w g.stores hg.2
  unfold close
  split
  . rw [List.map_id] at hstores heq
    refine ⟨?_, hstores⟩
    dsimp only
    rw [heq]
    exact hg.1
  . exact hg

theorem kept_open (env : TreeEnv) (w : World) (hg : StoreLayer.Kept accepted Good account (.group g))
    : StoreLayer.Kept accepted Good account (.group (g.open_ ops env w).1.1) := by
  have hclose := kept_close h w hg
  unfold open_
  generalize g.close ops w = closed at hclose
  obtain ⟨hstores, heq⟩ := TreeOps.Records.each_keeps Prod.fst (h.open_ env) closed.2 closed.1.stores hclose.2
  refine ⟨?_, hstores⟩
  dsimp only
  rw [heq]
  exact hclose.1

theorem kept_cron (env : TreeEnv) (w : World) (hg : StoreLayer.Kept accepted Good account (.group g))
    : StoreLayer.Kept accepted Good account (.group (g.cron ops env w).1) := by
  obtain ⟨hstores, heq⟩ := TreeOps.Records.each_keeps id (h.cron env) w g.stores hg.2
  unfold cron
  split
  . rw [List.map_id] at hstores heq
    refine ⟨?_, hstores⟩
    dsimp only
    rw [heq]
    exact hg.1
  . exact hg

theorem kept_doAddMessage (env : TreeEnv) (m : MessageId) (w : World)
    (hg : StoreLayer.Kept accepted Good account (.group g))
    : StoreLayer.Kept accepted Good (give m account (g.doAddMessage ops env m w).1.2)
        (.group (g.doAddMessage ops env m w).1.1) := by
  obtain ⟨hpolicy, hgood⟩ := hg
  obtain ⟨hstores, heq, hlen⟩ := h.each_gives env m w g.stores hgood
  have hsome (hkind : g.kind ≠ .priority) := hpolicy.give m _
    (hlen.trans (List.length_map _).symm) fun hpriority => absurd hpriority hkind
  unfold doAddMessage
  cases hkind : g.kind with
  | priority =>
    obtain ⟨hfirst, results, hlen, hone, hok, heq⟩ := h.addToFirst env m w g.stores hgood
    have hgiven := hpolicy.give m results (hlen.trans (List.length_map _).symm) fun _ => hone
    refine ⟨?_, hfirst⟩
    dsimp only
    rw [heq, hok]
    rw [hkind] at hgiven
    exact hgiven
  | multipleAny =>
    have hgiven := hsome (by rw [hkind]; exact nofun)
    refine ⟨?_, hstores⟩
    dsimp only
    rw [heq]
    rw [hkind] at hgiven
    exact hgiven
  | multipleAll =>
    have hgiven := hsome (by rw [hkind]; exact nofun)
    refine ⟨?_, hstores⟩
    dsimp only
    rw [heq]
    rw [hkind] at hgiven
    exact hgiven

end StoreGroup

namespace StoreBuffer

variable {b b' : StoreBuffer σ}

omit h in
theorem kept_transferred (hb : StoreLayer.Kept accepted Good account (.buffer b)) (more : List MessageId)
    (hprimary : Good b'.primary ∧ accepted b'.primary = accepted b.primary ++ more)
    (hsecondary : Good b'.secondary ∧ accepted b'.secondary = accepted b.secondary)
    : StoreLayer.Kept accepted Good account (.buffer b') := by
  refine ⟨?_, hprimary.1, hsecondary.1⟩
  rw [hprimary.2, hsecondary.2]
  exact hb.1.transfer more

omit h in
theorem kept_same (hb : StoreLayer.Kept accepted Good account (.buffer b))
    (hprimary : Good b'.primary ∧ accepted b'.primary = accepted b.primary)
    (hsecondary : Good b'.secondary ∧ accepted b'.secondary = accepted b.secondary)
    : StoreLayer.Kept accepted Good account (.buffer b') := by
  rw [← List.append_nil (accepted b.primary)] at hprimary
  exact kept_transferred hb [] hprimary hsecondary

theorem kept_close (w : World) (hb : StoreLayer.Kept accepted Good account (.buffer b))
    : StoreLayer.Kept accepted Good account (.buffer (b.close ops w).1) := by
  unfold close
  split
  . exact kept_same hb (h.close _ _ hb.2.1) (h.close _ _ hb.2.2)
  . exact hb

theorem kept_open (env : TreeEnv) (w : World) (hb : StoreLayer.Kept accepted Good account (.buffer b))
    : StoreLayer.Kept accepted Good account (.buffer (b.open_ ops env w).1.1) := by
  have hclose := kept_close h w hb
  unfold open_
  generalize b.close ops w = closed at hclose
  have hprimary := h.open_ env closed.2 closed.1.primary hclose.2.1
  dsimp only
  split
  . split
    . exact kept_same hclose hprimary ⟨hclose.2.2, rfl⟩
    . exact kept_same hclose hprimary ⟨hclose.2.2, rfl⟩
  . split
    . exact kept_same hclose hprimary (h.open_ _ _ _ hclose.2.2)
    . exact kept_same hclose hprimary (h.open_ _ _ _ hclose.2.2)

theorem kept_addToPrimary (env : TreeEnv) (m : MessageId) (w : World)
    (hb : StoreLayer.Kept accepted Good account (.buffer b))
    : StoreLayer.Kept accepted Good (give m account (!(b.addToPrimary ops env m w).1.2))
        (.buffer (b.addToPrimary ops env m w).1.1) := by
  unfold addToPrimary
  dsimp only
  split
  . split
    . obtain ⟨hgood, haccepted⟩ := h.addMessage env m w b.primary hb.2.1
      cases hok : (ops.addMessage env m w b.primary).1.2 with
      | true =>
        rw [hok] at haccepted
        refine ⟨?_, hgood, hb.2.2⟩
        rw [if_pos rfl]
        dsimp only
        rw [haccepted]
        exact hb.1.toPrimary m
      | false =>
        rw [hok] at haccepted
        exact kept_same hb ⟨hgood, haccepted⟩ (h.open_ _ _ _ hb.2.2)
    . exact kept_same hb ⟨hb.2.1, rfl⟩ (h.open_ _ _ _ hb.2.2)
  . exact hb

theorem kept_addToSecondary (env : TreeEnv) (m : MessageId) (w : World)
    (hb : StoreLayer.Kept accepted Good account (.buffer b))
    : StoreLayer.Kept accepted Good (give m account (b.addToSecondary ops env m w).1.2)
        (.buffer (b.addToSecondary ops env m w).1.1) := by
  have hopen : Good (openSecondary ops env w b.secondary).1 ∧
      accepted (openSecondary ops env w b.secondary).1 = accepted b.secondary := by
    unfold openSecondary
    split
    . exact ⟨hb.2.2, rfl⟩
    . exact h.open_ _ _ _ hb.2.2
  unfold addToSecondary
  obtain ⟨hgood, haccepted⟩ := h.addMessage env m (openSecondary ops env w b.secondary).2
    (openSecondary ops env w b.secondary).1 hopen.1
  refine ⟨?_, hb.2.1, hgood⟩
  dsimp only
  rw [haccepted, hopen.2]
  exact hb.1.toSecondary m _

theorem kept_doAddMessage (env : TreeEnv) (m : MessageId) (w : World)
    (hb : StoreLayer.Kept accepted Good account (.buffer b))
    : StoreLayer.Kept accepted Good (give m account (b.doAddMessage ops env m w).1.2)
        (.buffer (b.doAddMessage ops env m w).1.1) := by
  have hprimary := kept_addToPrimary h env m w hb
  unfold doAddMessage
  generalize b.addToPrimary ops env m w = r at *
  obtain ⟨⟨b1, more⟩, w1⟩ := r
  cases more with
  | true => exact kept_addToSecondary h env m w1 hprimary
  | false => exact hprimary

theorem transfer_accepted (env : TreeEnv) (w : World) (primary : σ) (n : Nat) (msgs : List MessageId)
    (hprimary : Good primary)
    : ∃ more, Good (transfer ops env w primary n msgs).1.2 ∧
        accepted (transfer ops env w primary n msgs).1.2 = accepted primary ++ more := by
  induction n generalizing w primary msgs with
  | zero => exact ⟨[], hprimary, (List.append_nil _).symm⟩
  | succ n ih =>
    cases msgs with
    | nil => exact ⟨[], hprimary, (List.append_nil _).symm⟩
    | cons m msgs =>
      obtain ⟨hgood, haccepted⟩ := h.addMessage env m w primary hprimary
      unfold transfer
      generalize ops.addMessage env m w primary = r at *
      obtain ⟨⟨primary1, ok⟩, w1⟩ := r
      dsimp only at *
      cases ok with
      | true =>
        obtain ⟨more, hgood, hmore⟩ := ih w1 primary1 msgs hgood
        refine ⟨[m] ++ more, hgood, ?_⟩
        rw [if_pos rfl, hmore, haccepted]
        exact List.append_assoc _ _ _
      | false => exact ⟨[], hgood, haccepted.trans (List.append_nil _).symm⟩

theorem readOldest_accepted (env : TreeEnv) (w : World) (secondary : σ) (msgs : List MessageId)
    (hsecondary : Good secondary)
    : Good (readOldest ops env w secondary msgs).1.2 ∧
        accepted (readOldest ops env w secondary msgs).1.2 = accepted secondary := by
  unfold readOldest
  dsimp only
  split
  . split
    . exact h.close _ _ hsecondary
    . exact ⟨hsecondary, rfl⟩
  . exact ⟨hsecondary, rfl⟩

theorem kept_endTransfer (env : TreeEnv) (w : World) (msgs : List MessageId)
    (hb : StoreLayer.Kept accepted Good account (.buffer b))
    : StoreLayer.Kept accepted Good account (.buffer (b.endTransfer ops env w msgs).1) := by
  unfold endTransfer
  dsimp only
  split
  . split
    . exact hb
    . exact kept_same hb ⟨hb.2.1, rfl⟩ (h.close _ _ hb.2.2)
  . exact hb

theorem kept_handOver (env : TreeEnv) (w : World) (hb : StoreLayer.Kept accepted Good account (.buffer b))
    : StoreLayer.Kept accepted Good account (.buffer (b.handOver ops env w).1) := by
  have hstart : StoreLayer.Kept accepted Good account (.buffer
      (if b.state = .toSecondary ∧ ops.isOpen b.primary then
        { b with state := .transfering, msgs := .queue [] } else b)) := by
    split
    . exact hb
    . exact hb
  unfold handOver
  dsimp only
  generalize (if b.state = .toSecondary ∧ ops.isOpen b.primary then
    { b with state := .transfering, msgs := .queue [] } else b) = b1 at hstart
  split
  . apply kept_endTransfer h
    obtain ⟨more, hprimary⟩ := transfer_accepted h env _ b1.primary maxMsgPerCron _ hstart.2.1
    exact kept_transferred hstart more hprimary (readOldest_accepted h env _ _ _ hstart.2.2)
  . exact hstart

theorem kept_cron (env : TreeEnv) (w : World) (hb : StoreLayer.Kept accepted Good account (.buffer b))
    : StoreLayer.Kept accepted Good account (.buffer (b.cron ops env w).1) := by
  have hhanded := kept_handOver h env w hb
  unfold cron
  split
  . exact kept_same hhanded (h.cron _ _ _ hhanded.2.1) (h.cron _ _ _ hhanded.2.2)
  . exact hb

end StoreBuffer

theorem TreeOps.Records.layer : TreeOps.Records (Recorded.ops (StoreLayer.ops ops)) Recorded.accepted
    fun r => StoreLayer.Kept accepted Good r.accepted r.store where
  close w r hr := by
    obtain ⟨s, account⟩ := r
    refine ⟨?_, rfl⟩
    cases s with
    | leaf l => exact trivial
    | group g => exact StoreGroup.kept_close h w hr
    | buffer b => exact StoreBuffer.kept_close h w hr
  open_ env w r hr := by
    obtain ⟨s, account⟩ := r
    refine ⟨?_, rfl⟩
    cases s with
    | leaf l => exact trivial
    | group g => exact StoreGroup.kept_open h env w hr
    | buffer b => exact StoreBuffer.kept_open h env w hr
  doAddMessage env m w r hr := by
    obtain ⟨s, account⟩ := r
    refine ⟨?_, rfl⟩
    cases s with
    | leaf l => exact trivial
    | group g => exact StoreGroup.kept_doAddMessage h env m w hr
    | buffer b => exact StoreBuffer.kept_doAddMessage h env m w hr
  cron env w r hr := by
    obtain ⟨s, account⟩ := r
    refine ⟨?_, rfl⟩
    cases s with
    | leaf l => exact trivial
    | group g => exact StoreGroup.kept_cron h env w hr
    | buffer b => exact StoreBuffer.kept_cron h env w hr

end

end Kids
