import Kids.Client.Ownership
import Kids.Lib.Run

/-!
The handlers move strings from one owner to another and lose none, but for a message that the queue refuses
and for what is left in `argv_` at the end.
-/

namespace Kids
namespace ClientStrings

theorem count_owners (s : ClientStrings) (id : SdsId)
    : s.owners.count id = s.argv.reduceOption.count id + (s.subTopics.count id + (s.subPatterns.count id +
        (s.queued.count id + s.freed.count id))) := by
  unfold owners
  simp only [List.count_append]

/--
Nothing is lost on the way from `s` to `t`.
-/
structure Keeps (s t : ClientStrings) : Prop where
  count_eq : ∀ id, t.owners.count id = s.owners.count id
  created_eq : t.created = s.created
  destroyed_eq : t.destroyed = s.destroyed
  patterns : s.pubsubPatterns = s.subPatterns → t.pubsubPatterns = t.subPatterns

theorem Keeps.refl (s : ClientStrings) : Keeps s s where
  count_eq := fun _ => rfl
  created_eq := rfl
  destroyed_eq := rfl
  patterns := id

theorem Keeps.trans (h1 : Keeps s t) (h2 : Keeps t u) : Keeps s u where
  count_eq := fun id => (h2.count_eq id).trans (h1.count_eq id)
  created_eq := h2.created_eq.trans h1.created_eq
  destroyed_eq := h2.destroyed_eq.trans h1.destroyed_eq
  patterns := fun h => h2.patterns (h1.patterns h)

def withArgv (s : ClientStrings) (argv : List (Option SdsId)) : ClientStrings :=
  { s with argv := argv }

theorem keeps_insert (k : SubscriptionKind) (s : ClientStrings) (id : SdsId) (pre slots : List (Option SdsId))
    : Keeps (s.withArgv (pre ++ some id :: slots)) ((s.insert k id).withArgv (pre ++ none :: slots)) := by
  constructor
  . intro other
    rw [count_owners, count_owners]
    cases k with
    | topic =>
      simp [withArgv, insert, queued, List.reduceOption_append, List.count_append, List.count_cons]
      omega
    | pattern =>
      simp [withArgv, insert, queued, List.reduceOption_append, List.count_append, List.count_cons]
      omega
  . cases k with
    | topic => rfl
    | pattern => rfl
  . cases k with
    | topic => rfl
    | pattern => rfl
  . intro h
    cases k with
    | topic => exact h
    | pattern =>
      change s.pubsubPatterns ++ [id] = s.subPatterns ++ [id]
      rw [show s.pubsubPatterns = s.subPatterns from h]

theorem keeps_subscribeSlot (k : SubscriptionKind) (s : ClientStrings) (slot : Option SdsId)
    (pre slots : List (Option SdsId))
    : Keeps (s.withArgv (pre ++ slot :: slots))
        ((s.subscribeSlot k slot).1.withArgv (pre ++ (s.subscribeSlot k slot).2 :: slots)) := by
  unfold subscribeSlot
  split
  . apply Keeps.refl
  . split
    . apply Keeps.refl
    . apply keeps_insert

theorem keeps_subscribeEach (k : SubscriptionKind) (s : ClientStrings) (pre slots : List (Option SdsId))
    : Keeps (s.withArgv (pre ++ slots))
        ((s.subscribeEach k slots).1.withArgv (pre ++ (s.subscribeEach k slots).2)) := by
  induction slots generalizing s pre with
  | nil => apply Keeps.refl
  | cons slot slots ih =>
    apply (keeps_subscribeSlot k s slot pre slots).trans
    have hrest := ih (s.subscribeSlot k slot).1 (pre ++ [(s.subscribeSlot k slot).2])
    rw [List.append_assoc, List.append_assoc] at hrest
    exact hrest

theorem keeps_subscribeNames (k : SubscriptionKind) (s : ClientStrings) : Keeps s (s.subscribeNames k) := by
  have hsplit : s.withArgv (s.argv.take 1 ++ s.argv.tail) = s := by
    rw [← List.drop_one, List.take_append_drop]
    rfl
  have hkeeps := keeps_subscribeEach k s (s.argv.take 1) s.argv.tail
  rw [hsplit] at hkeeps
  exact hkeeps

theorem eraseP_of_find? {p : SdsId → Bool} {l : List SdsId} {id : SdsId} (h : l.find? p = some id)
    : l.eraseP p = l.erase id := by
  induction l with
  | nil => simp at h
  | cons other l ih =>
    rw [List.find?_cons] at h
    split at h
    . next hp =>
      cases h
      rw [List.eraseP_cons_of_pos hp, List.erase_cons_head]
    . next hp =>
      have hne : other ≠ id := by
        rintro rfl
        rw [List.find?_some h] at hp
        cases hp
      rw [List.eraseP_cons_of_neg (by simp [hp]), ih h, List.erase_cons_tail (by simpa using hne)]

theorem keeps_unsubscribeName (k : SubscriptionKind) (s : ClientStrings) (name : Bytes)
    : Keeps s (s.unsubscribeName k name) := by
  unfold unsubscribeName
  split
  . apply Keeps.refl
  . next id hid =>
    have hmem := List.mem_of_find?_eq_some hid
    have hcount : ∀ other, (s.names k).count other = ((s.names k).erase id).count other + [id].count other := by
      intro other
      have hpos := List.count_pos_iff.mpr hmem
      rw [List.count_erase, List.count_singleton]
      by_cases heq : id = other
      . subst heq
        simp only [beq_self_eq_true, ↓reduceIte]
        omega
      . simp [heq]
    cases k with
    | topic =>
      constructor
      . intro other
        have := hcount other
        rw [count_owners, count_owners]
        simp only [names] at this
        simp only [queued, List.count_append]
        omega
      . rfl
      . rfl
      . exact fun h => h
    | pattern =>
      constructor
      . intro other
        have := hcount other
        rw [count_owners, count_owners]
        simp only [names] at this
        simp only [queued, List.count_append]
        omega
      . rfl
      . rfl
      . intro h
        change s.pubsubPatterns.eraseP _ = s.subPatterns.erase id
        rw [h]
        exact eraseP_of_find? hid

theorem argv_unsubscribeName (k : SubscriptionKind) (s : ClientStrings) (name : Bytes)
    : (s.unsubscribeName k name).argv = s.argv := by
  unfold unsubscribeName
  split
  . rfl
  . cases k with
    | topic => rfl
    | pattern => rfl

theorem subTopics_unsubscribeName (s : ClientStrings) (name : Bytes)
    : (s.unsubscribeName .pattern name).subTopics = s.subTopics := by
  unfold unsubscribeName
  split
  . rfl
  . rfl

theorem length_unsubscribeName {k : SubscriptionKind} {s : ClientStrings} {id : SdsId} (h : id ∈ s.names k)
    : ((s.unsubscribeName k (s.text id)).names k).length + 1 = (s.names k).length := by
  have hsome : ((s.names k).find? (fun other => s.text other = s.text id)).isSome = true := by
    rw [List.find?_isSome]
    exact ⟨id, h, decide_eq_true rfl⟩
  obtain ⟨found, hfound⟩ := Option.isSome_iff_exists.mp hsome
  have hmem := List.mem_of_find?_eq_some hfound
  have hpos := List.length_pos_of_mem hmem
  have hless := List.length_erase_of_mem hmem
  unfold unsubscribeName
  rw [hfound]
  cases k with
  | topic =>
    change (s.subTopics.erase found).length + 1 = s.subTopics.length
    simp only [names] at hless hpos
    omega
  | pattern =>
    change (s.subPatterns.erase found).length + 1 = s.subPatterns.length
    simp only [names] at hless hpos
    omega

theorem unsubscribeAll_spec (order : BeginOrder SdsId) (k : SubscriptionKind) (s : ClientStrings)
    (hfuel : (s.names k).length = fuel)
    : ∃ t, s.unsubscribeAll order k fuel = some t ∧ Keeps s t ∧ t.names k = [] ∧ t.argv = s.argv ∧
        (k = .pattern → t.subTopics = s.subTopics) := by
  induction fuel generalizing s with
  | zero =>
    have hnil := List.eq_nil_of_length_eq_zero hfuel
    unfold unsubscribeAll
    rw [hnil]
    exact ⟨s, rfl, .refl s, hnil, rfl, fun _ => rfl⟩
  | succ fuel ih =>
    cases hnames : s.names k with
    | nil =>
      rw [hnames] at hfuel
      cases hfuel
    | cons id ids =>
      have hmem : order.first id ids ∈ s.names k := hnames ▸ order.mem id ids
      have hless := length_unsubscribeName hmem
      obtain ⟨t, ht, hkeeps, hleft, hargv, hothers⟩ :=
        ih (s.unsubscribeName k (s.text (order.first id ids))) (by omega)
      unfold unsubscribeAll
      rw [hnames]
      refine ⟨t, ht, (keeps_unsubscribeName k s _).trans hkeeps, hleft, ?_, ?_⟩
      . rw [hargv]
        apply argv_unsubscribeName
      . rintro rfl
        rw [hothers rfl]
        apply subTopics_unsubscribeName

theorem keeps_foldl_unsubscribeName (k : SubscriptionKind) (s : ClientStrings) (names : List Bytes)
    : Keeps s (names.foldl (unsubscribeName k) s) := by
  induction names generalizing s with
  | nil => apply Keeps.refl
  | cons name names ih => exact (keeps_unsubscribeName k s name).trans (ih _)

theorem unsubscribeNames_spec (order : BeginOrder SdsId) (k : SubscriptionKind) (s : ClientStrings)
    : ∃ t, s.unsubscribeNames order k = some t ∧ Keeps s t := by
  unfold unsubscribeNames
  split
  . exact ⟨_, rfl, keeps_foldl_unsubscribeName k s _⟩
  . obtain ⟨t, ht, hkeeps, -⟩ := unsubscribeAll_spec order k s rfl
    exact ⟨t, ht, hkeeps⟩

theorem reduceOption_cons (slot : Option SdsId) (slots : List (Option SdsId))
    : (slot :: slots).reduceOption = slot.toList ++ slots.reduceOption := by
  cases slot with
  | none => rfl
  | some id => rfl

theorem count_processLog (accepted : Bool) (s : ClientStrings) {name topic content : Option SdsId}
    (h : s.argv = [name, topic, content]) (id : SdsId)
    : (s.processLog accepted).owners.count id + (if accepted then 0 else (messageStrings (topic, content)).count id)
        = s.owners.count id := by
  unfold processLog
  rw [count_owners, count_owners, h]
  simp only [queued, reduceOption_cons, List.reduceOption_nil, Option.toList_none, List.append_nil, List.count_append]
  cases accepted with
  | true =>
    simp only [↓reduceIte, List.flatMap_append, List.flatMap_cons, List.flatMap_nil, List.append_nil,
      List.count_append, messageStrings]
    omega
  | false =>
    simp only [Bool.false_eq_true, ↓reduceIte, List.count_append, messageStrings]
    omega

theorem keeps_processLog_accepted (s : ClientStrings) : Keeps s (s.processLog true) := by
  by_cases h : ∃ name topic content, s.argv = [name, topic, content]
  . obtain ⟨name, topic, content, hargv⟩ := h
    constructor
    . exact count_processLog true s hargv
    . unfold processLog
      rw [hargv]
    . unfold processLog
      rw [hargv]
    . unfold processLog
      rw [hargv]
      exact fun h => h
  . unfold processLog
    split
    . next name topic content hargv => exact absurd ⟨name, topic, content, hargv⟩ h
    . apply Keeps.refl

theorem keeps_resetArgumentVector (s : ClientStrings) : Keeps s s.resetArgumentVector := by
  constructor
  . intro id
    rw [count_owners, count_owners]
    simp only [resetArgumentVector, queued, List.reduceOption_nil, List.count_nil, List.count_append]
    omega
  . rfl
  . rfl
  . exact fun h => h

theorem keeps_freeOldMessages (n : Nat) (s : ClientStrings) : Keeps s (s.freeOldMessages n) := by
  have hqueue : s.queued = (s.queue.take n).flatMap messageStrings ++ (s.queue.drop n).flatMap messageStrings := by
    rw [← List.flatMap_append, List.take_append_drop]
    rfl
  constructor
  . intro id
    rw [count_owners, count_owners, hqueue]
    simp only [freeOldMessages, queued, List.count_append]
    omega
  . rfl
  . rfl
  . exact fun h => h

theorem processCommand_spec (accepted : Bool) (order : BeginOrder SdsId) (s : ClientStrings)
    (hlog : s.command = .log → s.argv.length = 3 → accepted = true)
    : ∃ t ret, s.processCommand accepted order = some (t, ret) ∧ Keeps s t ∧ (ret = false → t.argv = s.argv) := by
  unfold processCommand
  generalize s.command = command at hlog ⊢
  cases command with
  | quit => exact ⟨_, _, rfl, ⟨fun _ => rfl, rfl, rfl, fun h => h⟩, fun _ => rfl⟩
  | log =>
    refine ⟨_, _, rfl, ?_, fun h => by cases h⟩
    by_cases hlen : s.argv.length = 3
    . rw [hlog rfl hlen]
      apply keeps_processLog_accepted
    . unfold processLog
      split
      . next hargv => simp [hargv] at hlen
      . apply Keeps.refl
  | subscribe => exact ⟨_, _, rfl, keeps_subscribeNames .topic s, fun h => by cases h⟩
  | psubscribe => exact ⟨_, _, rfl, keeps_subscribeNames .pattern s, fun h => by cases h⟩
  | unsubscribe =>
    obtain ⟨t, ht, hkeeps⟩ := unsubscribeNames_spec order .topic s
    dsimp only
    rw [ht]
    exact ⟨_, _, rfl, hkeeps, fun h => by cases h⟩
  | punsubscribe =>
    obtain ⟨t, ht, hkeeps⟩ := unsubscribeNames_spec order .pattern s
    dsimp only
    rw [ht]
    exact ⟨_, _, rfl, hkeeps, fun h => by cases h⟩
  | ping | info | shutdown | select | hello | other => exact ⟨_, _, rfl, .refl s, fun h => by cases h⟩

theorem processArguments_spec (accepted : Bool) (order : BeginOrder SdsId) (s : ClientStrings)
    (hlog : s.command = .log → s.argv.length = 3 → accepted = true)
    : ∃ t, s.processArguments accepted order = some t ∧ Keeps s t ∧ (t.argv = [] ∨ t.argv = s.argv) := by
  unfold processArguments
  split
  . exact ⟨_, rfl, keeps_resetArgumentVector s, .inl rfl⟩
  . obtain ⟨t, ret, ht, hkeeps, hargv⟩ := processCommand_spec accepted order s hlog
    rw [ht]
    dsimp only
    cases ret with
    | true => exact ⟨_, rfl, hkeeps.trans (keeps_resetArgumentVector t), .inl rfl⟩
    | false => exact ⟨_, rfl, hkeeps, .inr (hargv rfl)⟩

/--
What holds whether or not strings have been lost.
-/
structure Wf (s : ClientStrings) : Prop where
  fresh : ∀ id ∈ s.owners, id < s.created
  full : none ∉ s.argv
  patterns : s.pubsubPatterns = s.subPatterns
  gone : s.destroyed = true → s.argv = [] ∧ s.subTopics = [] ∧ s.subPatterns = []

theorem wf_init : Wf init where
  fresh := by simp [init, owners, queued]
  full := by simp [init]
  patterns := rfl
  gone := fun h => by cases h

def Once (s : ClientStrings) : Prop :=
  ∀ id, id < s.created → s.owners.count id = 1

theorem Wf.oneOwner (h : Wf s) (honce : Once s) : OneOwner s where
  once := honce
  live := by
    intro id hid hfreed
    rw [h.patterns] at hid
    have hlt : id < s.created := h.fresh id (by simp [owners, hfreed])
    have hcount := honce id hlt
    have hsub := List.count_pos_iff.mpr hid
    have hfree := List.count_pos_iff.mpr hfreed
    rw [count_owners] at hcount
    omega
  released := by
    intro hdestroyed id hlt
    obtain ⟨hargv, htopics, hpatterns⟩ := h.gone hdestroyed
    have hmem : id ∈ s.owners := List.count_pos_iff.mp (by rw [honce id hlt]; exact Nat.one_pos)
    simpa [owners, hargv, htopics, hpatterns] using hmem

theorem Wf.keeps (h : Wf s) (hkeeps : Keeps s t) (hargv : t.argv = [] ∨ t.argv = s.argv)
    (hopen : s.destroyed = false)
    : Wf t where
  fresh := by
    intro id hid
    rw [hkeeps.created_eq]
    apply h.fresh
    apply List.count_pos_iff.mp
    rw [← hkeeps.count_eq]
    exact List.count_pos_iff.mpr hid
  full := by
    cases hargv with
    | inl hnil => simp [hnil]
    | inr heq =>
      rw [heq]
      exact h.full
  patterns := hkeeps.patterns h.patterns
  gone := by
    intro hdestroyed
    rw [hkeeps.destroyed_eq, hopen] at hdestroyed
    cases hdestroyed

theorem Once.keeps (h : Once s) (hkeeps : Keeps s t) : Once t := by
  intro id hlt
  rw [hkeeps.created_eq] at hlt
  rw [hkeeps.count_eq]
  exact h id hlt

theorem count_argument (s : ClientStrings) (data : Bytes) (id : SdsId)
    : (s.argument data).owners.count id = s.owners.count id + [s.created].count id := by
  rw [count_owners, count_owners]
  simp only [argument, queued, List.reduceOption_append, List.count_append]
  rw [show [some s.created].reduceOption = [s.created] from rfl]
  omega

theorem Wf.argument (h : Wf s) (data : Bytes) (hopen : s.destroyed = false) : Wf (s.argument data) where
  fresh := by
    intro id hid
    change id < s.created + 1
    have hcount := count_argument s data id
    have hpos := List.count_pos_iff.mpr hid
    by_cases hold : id ∈ s.owners
    . exact Nat.lt_succ_of_lt (h.fresh id hold)
    . rw [List.count_eq_zero.mpr hold, List.count_singleton] at hcount
      split at hcount
      . next heq =>
        rw [beq_iff_eq] at heq
        rw [heq]
        exact Nat.lt_succ_self id
      . omega
  full := by simp [ClientStrings.argument, h.full]
  patterns := h.patterns
  gone := by
    intro hdestroyed
    change s.destroyed = true at hdestroyed
    rw [hopen] at hdestroyed
    cases hdestroyed

theorem Once.argument (h : Once s) (hwf : Wf s) (data : Bytes) : Once (s.argument data) := by
  intro id hlt
  change id < s.created + 1 at hlt
  rw [count_argument, List.count_singleton]
  by_cases heq : s.created = id
  . -- the new string is one that nobody has yet
    have hnew : id ∉ s.owners := by
      intro hid
      rw [← heq] at hid
      exact Nat.lt_irrefl _ (hwf.fresh _ hid)
    rw [List.count_eq_zero.mpr hnew]
    simp [heq]
  . rw [h id (Nat.lt_of_le_of_ne (Nat.le_of_lt_succ hlt) (Ne.symm heq))]
    simp [heq]

theorem Wf.freeOldMessages (h : Wf s) (n : Nat) : Wf (s.freeOldMessages n) where
  fresh := by
    intro id hid
    apply h.fresh
    apply List.count_pos_iff.mp
    rw [← (keeps_freeOldMessages n s).count_eq]
    exact List.count_pos_iff.mpr hid
  full := h.full
  patterns := h.patterns
  gone := h.gone

theorem destroy_spec (order : BeginOrder SdsId) (s : ClientStrings)
    : ∃ t, s.destroy order = some t ∧ t.created = s.created ∧ t.argv = [] ∧ t.subTopics = [] ∧ t.subPatterns = [] ∧
        (s.pubsubPatterns = s.subPatterns → t.pubsubPatterns = t.subPatterns) ∧
        ∀ id, t.owners.count id + s.argv.reduceOption.count id = s.owners.count id := by
  obtain ⟨t1, ht1, hkeeps1, hnames1, hargv1, -⟩ := unsubscribeAll_spec order .topic s rfl
  obtain ⟨t2, ht2, hkeeps2, hnames2, hargv2, hothers⟩ := unsubscribeAll_spec order .pattern t1 rfl
  have hkeeps := hkeeps1.trans hkeeps2
  unfold destroy
  rw [show s.unsubscribeAll order .topic s.subTopics.length = some t1 from ht1]
  dsimp only [bind, Option.bind]
  rw [show t1.unsubscribeAll order .pattern t1.subPatterns.length = some t2 from ht2]
  refine ⟨_, rfl, hkeeps.created_eq, rfl, (hothers rfl).trans hnames1, hnames2, hkeeps.patterns, ?_⟩
  intro id
  rw [← hkeeps.count_eq id]
  rw [count_owners, count_owners]
  simp only [queued, List.reduceOption_nil, List.count_nil, hargv2, hargv1]
  omega

theorem Wf.destroy (order : BeginOrder SdsId) (h : Wf s) (honce : Once s)
    : ∃ t, s.destroy order = some t ∧ Wf t ∧ (Once t ↔ s.argv = []) := by
  obtain ⟨t, ht, hcreated, hargv, htopics, hnames, hpatterns, hcount⟩ := s.destroy_spec order
  refine ⟨t, ht, ⟨?_, ?_, hpatterns h.patterns, fun _ => ⟨hargv, htopics, hnames⟩⟩, ?_⟩
  . intro id hid
    rw [hcreated]
    apply h.fresh
    apply List.count_pos_iff.mp
    have := hcount id
    have := List.count_pos_iff.mpr hid
    omega
  . simp [hargv]
  . constructor
    . intro hafter
      apply Classical.byContradiction
      intro hne
      -- a string that is left in a slot has lost its owner
      obtain ⟨slot, slots, hslots⟩ := List.exists_cons_of_ne_nil hne
      cases slot with
      | none => exact h.full (by simp [hslots])
      | some id =>
        have hid : id ∈ s.argv.reduceOption := by
          rw [hslots, reduceOption_cons]
          simp
        have hlt : id < s.created := h.fresh id (by simp [owners, hid])
        have hbefore := honce id hlt
        have hzero := hafter id (hcreated ▸ hlt)
        have hpos := List.count_pos_iff.mpr hid
        have := hcount id
        omega
    . intro hnil id hlt
      have := hcount id
      rw [hnil] at this
      rw [← honce id (hcreated ▸ hlt)]
      simpa using this

theorem refused_loses (order : BeginOrder SdsId) (h : Wf s) (honce : Once s) (hcommand : s.command = .log) (hlen : s.argv.length = 3)
    : ∃ t, s.processArguments false order = some t ∧ Wf t ∧ ¬ Once t := by
  obtain ⟨name, topic, content, hargv⟩ := List.length_eq_three.mp hlen
  cases topic with
  | none => exact absurd (by simp [hargv]) h.full
  | some id =>
    have hprocess : s.processArguments false order = some (s.processLog false).resetArgumentVector := by
      unfold processArguments processCommand
      rw [if_neg (by omega), hcommand]
      rfl
    have hcount (other : SdsId)
        : (s.processLog false).resetArgumentVector.owners.count other +
            (messageStrings (some id, content)).count other = s.owners.count other := by
      rw [(keeps_resetArgumentVector _).count_eq]
      exact count_processLog false s hargv other
    have hfields : (s.processLog false).created = s.created ∧ (s.processLog false).destroyed = s.destroyed ∧
        (s.processLog false).pubsubPatterns = s.pubsubPatterns ∧ (s.processLog false).subPatterns = s.subPatterns := by
      unfold processLog
      rw [hargv]
      exact ⟨rfl, rfl, rfl, rfl⟩
    obtain ⟨hcreated, hdestroyed, hpubsub, hsub⟩ := hfields
    refine ⟨_, hprocess, ⟨?_, by simp [resetArgumentVector], ?_, ?_⟩, ?_⟩
    . intro other hother
      change other < (s.processLog false).created
      rw [hcreated]
      apply h.fresh
      apply List.count_pos_iff.mp
      have := hcount other
      have := List.count_pos_iff.mpr hother
      omega
    . change (s.processLog false).pubsubPatterns = (s.processLog false).subPatterns
      rw [hpubsub, hsub]
      exact h.patterns
    . intro hgone
      change (s.processLog false).destroyed = true at hgone
      rw [hdestroyed] at hgone
      rw [(h.gone hgone).1] at hlen
      cases hlen
    . intro hafter
      have hlt : id < s.created := by
        apply h.fresh
        simp [owners, hargv, reduceOption_cons]
      have hone : (s.processLog false).resetArgumentVector.owners.count id = 1 := by
        apply hafter
        change id < (s.processLog false).created
        rw [hcreated]
        exact hlt
      have hpos : 0 < (messageStrings (some id, content)).count id :=
        List.count_pos_iff.mpr (by simp [messageStrings])
      have := hcount id
      have := honce id hlt
      omega

theorem step_spec (l : Label) (h : Wf s) (honce : Once s)
    : ∃ t, s.step l = some t ∧ Wf t ∧ (Once t ↔ Allowed s l) := by
  have hstay (hallowed : Allowed s l) : ∃ t, some s = some t ∧ Wf t ∧ (Once t ↔ Allowed s l) :=
    ⟨s, rfl, h, fun _ => hallowed, fun _ => honce⟩
  unfold step
  cases l with
  | argument data =>
    dsimp only
    split
    . exact hstay trivial
    . next hopen =>
      simp only [Bool.or_eq_true, not_or, Bool.not_eq_true] at hopen
      exact ⟨_, rfl, h.argument data hopen.1, fun _ => trivial, fun _ => honce.argument h data⟩
  | processArguments accepted order =>
    dsimp only
    split
    . next hclosed =>
      apply hstay
      intro hclosing _ hlen
      simp only [hclosing, Bool.or_false] at hclosed
      rw [(h.gone hclosed).1] at hlen
      cases hlen
    . next hopen =>
      simp only [Bool.or_eq_true, not_or, Bool.not_eq_true] at hopen
      by_cases hlog : s.command = .log → s.argv.length = 3 → accepted = true
      . obtain ⟨t, ht, hkeeps, hargv⟩ := processArguments_spec accepted order s hlog
        exact ⟨t, ht, h.keeps hkeeps hargv hopen.1, fun _ _ => hlog, fun _ => honce.keeps hkeeps⟩
      . simp only [not_forall, exists_prop, Bool.not_eq_true] at hlog
        obtain ⟨hcommand, hlen, rfl⟩ := hlog
        obtain ⟨t, ht, hwf, hlost⟩ := refused_loses order h honce hcommand hlen
        refine ⟨t, ht, hwf, fun hafter => absurd hafter hlost, ?_⟩
        intro hallowed
        cases hallowed hopen.2 hcommand hlen
  | processProtocolError =>
    dsimp only
    split
    . exact hstay trivial
    . exact ⟨_, rfl, ⟨h.fresh, h.full, h.patterns, h.gone⟩, fun _ => trivial, fun _ => honce⟩
  | freeOldMessages n =>
    refine ⟨_, rfl, h.freeOldMessages n, fun _ => trivial, fun _ => ?_⟩
    exact honce.keeps (keeps_freeOldMessages n s)
  | destroy order =>
    dsimp only
    split
    . next hgone => exact hstay (h.gone hgone).1
    . exact h.destroy order honce

/--
The subscriptions as the handlers of `Session` see them, by what is in the strings.
-/
def view (s : ClientStrings) : Subscriber where
  subTopics := s.subTopics.map s.text
  subPatterns := s.subPatterns.map s.text

theorem names_view (s : ClientStrings) (k : SubscriptionKind) : s.view.names k = (s.names k).map s.text := by
  cases k with
  | topic => rfl
  | pattern => rfl

theorem view_insert (s : ClientStrings) (k : SubscriptionKind) (id : SdsId)
    : (s.insert k id).view = s.view.setNames k (s.view.names k ++ [s.text id]) := by
  cases k with
  | topic => simp [view, insert, Subscriber.setNames, Subscriber.names]
  | pattern => simp [view, insert, Subscriber.setNames, Subscriber.names]

theorem view_subscribeSlot (k : SubscriptionKind) (s : ClientStrings) (id : SdsId)
    : (s.subscribeSlot k (some id)).1.view = s.view.insert k (s.text id) ∧
        (s.subscribeSlot k (some id)).1.text = s.text := by
  have hany : (s.names k).any (fun other => s.text other = s.text id) = true ↔
      (s.view.names k).contains (s.text id) = true := by
    rw [names_view, List.any_eq_true, List.contains_iff_mem, List.mem_map]
    simp
  unfold subscribeSlot Subscriber.insert
  dsimp only
  split
  . next h =>
    rw [if_pos (hany.mp h)]
    exact ⟨rfl, rfl⟩
  . next h =>
    rw [if_neg (fun hmem => h (hany.mpr hmem))]
    refine ⟨s.view_insert k id, ?_⟩
    cases k with
    | topic => rfl
    | pattern => rfl

theorem view_subscribeEach (k : SubscriptionKind) (s : ClientStrings) (ids : List SdsId)
    : (s.subscribeEach k (ids.map some)).1.view = (ids.map s.text).foldl (fun sub name => sub.insert k name) s.view := by
  induction ids generalizing s with
  | nil => rfl
  | cons id ids ih =>
    obtain ⟨hview, htext⟩ := view_subscribeSlot k s id
    rw [List.map_cons, List.map_cons, List.foldl_cons]
    unfold subscribeEach
    dsimp only
    rw [ih, hview, htext]

theorem map_erase_of_find? {f : SdsId → Bytes} {l : List SdsId} {id : SdsId} {name : Bytes}
    (h : l.find? (fun other => f other = name) = some id)
    : (l.erase id).map f = (l.map f).erase name := by
  induction l with
  | nil => simp at h
  | cons other l ih =>
    rw [List.find?_cons] at h
    split at h
    . next heq =>
      cases h
      rw [List.erase_cons_head, List.map_cons, of_decide_eq_true heq, List.erase_cons_head]
    . next hne =>
      have hid := List.find?_some h
      have hother : other ≠ id := by
        rintro rfl
        rw [hid] at hne
        cases hne
      rw [List.erase_cons_tail (by simpa using hother), List.map_cons, List.map_cons, ih h,
        List.erase_cons_tail (by simpa using of_decide_eq_false hne)]

theorem view_unsubscribeName (k : SubscriptionKind) (s : ClientStrings) (name : Bytes)
    : (s.unsubscribeName k name).view = s.view.erase k name ∧ (s.unsubscribeName k name).text = s.text := by
  unfold unsubscribeName
  split
  . next hnone =>
    have hnot : name ∉ s.view.names k := by
      rw [names_view, List.mem_map]
      rintro ⟨id, hid, heq⟩
      have := List.find?_eq_none.mp hnone id hid
      simp [heq] at this
    refine ⟨?_, rfl⟩
    unfold Subscriber.erase
    rw [List.erase_of_not_mem hnot]
    cases k with
    | topic => rfl
    | pattern => rfl
  . next id hid =>
    have herase := map_erase_of_find? hid
    cases k with
    | topic =>
      refine ⟨?_, rfl⟩
      change (⟨(s.subTopics.erase id).map s.text, _⟩ : Subscriber) = ⟨(s.subTopics.map s.text).erase name, _⟩
      rw [show (s.subTopics.erase id).map s.text = _ from herase]
      rfl
    | pattern =>
      refine ⟨?_, rfl⟩
      change (⟨_, (s.subPatterns.erase id).map s.text⟩ : Subscriber) = ⟨_, (s.subPatterns.map s.text).erase name⟩
      rw [show (s.subPatterns.erase id).map s.text = _ from herase]
      rfl

theorem view_foldl_unsubscribeName (k : SubscriptionKind) (s : ClientStrings) (names : List Bytes)
    : (names.foldl (unsubscribeName k) s).view = names.foldl (fun sub name => sub.erase k name) s.view := by
  induction names generalizing s with
  | nil => rfl
  | cons name names ih =>
    rw [List.foldl_cons, List.foldl_cons, ih, (view_unsubscribeName k s name).1]

/--
Every string has one owner throughout a run exactly if no message of it is refused and the client is
destroyed with an empty `argv_`.
-/
theorem oneOwner_along_iff (ls : List Label)
    : Run.Along step OneOwner init ls ↔ Run.Meets step Allowed init ls := by
  apply Run.Along.iff_meets Wf (fun _ => True) wf_init
  . apply wf_init.oneOwner
    intro id hlt
    cases hlt
  . exact fun _ _ => trivial
  . intro s l hwf howner _
    obtain ⟨t, ht, hwf', hiff⟩ := step_spec l hwf howner.once
    refine ⟨t, ht, hwf', ?_⟩
    rw [← hiff]
    exact ⟨fun howner' => howner'.once, hwf'.oneOwner⟩

theorem oneOwner_fails_refused_and_quit
    : ¬ Run.Along step OneOwner init [
          .argument (Bytes.ofString "LOG"),
          .argument (Bytes.ofString "t"),
          .argument (Bytes.ofString "c"),
          .processArguments false .insertion] ∧
        ¬ Run.Along step OneOwner init [
          .argument (Bytes.ofString "QUIT"),
          .processArguments true .insertion,
          .destroy .insertion] := by
  constructor
  . rintro ⟨-, t1, h1, -, t2, h2, -, t3, h3, -, t4, h4, howner⟩
    cases h1
    cases h2
    cases h3
    cases h4
    exact absurd (howner.once 1 (by decide)) (by decide)
  . rintro ⟨-, t1, h1, -, t2, h2, -, t3, h3, howner⟩
    cases h1
    cases h2
    cases h3
    exact absurd (howner.once 0 (by decide)) (by decide)

end ClientStrings
end Kids
