import Kids.Worker.PubSubLemmas

/-!
Every command, every way of freeing a client and every published message keeps the indexes of a worker in
step with the clients' own subscriptions, so that a message goes to its subscribers and to nobody else.
-/

namespace Kids
namespace Worker

variable {w w' : Worker} {c d : ClientId} {sub : Subscriber} {stringMatch : Bytes → Bytes → Bool}

theorem live_of_topic (htopic : topic ∈ w.subTopics c) : w.heap c ≠ none := by
  intro hnone
  simp [subTopics, hnone] at htopic

theorem live_of_pattern (hpattern : pattern ∈ w.subPatterns c) : w.heap c ≠ none := by
  intro hnone
  simp [subPatterns, hnone] at hpattern

structure Sound (w : Worker) : Prop where
  indexed : Indexed w
  owned : Owned w

namespace Sound

theorem init : Sound Worker.init where
  indexed := Indexed.init
  owned := Owned.init

theorem getNewConnection (h : Sound w) (hc : w.heap c = none) : Sound (w.getNewConnection c) := by
  have hnotMem : c ∉ w.clients ++ w.clientsToClose := by
    rw [← h.owned.live_iff]
    simpa using hc
  constructor
  . have htopics : (w.getNewConnection c).subTopics = w.subTopics := by
      rw [subTopics_update rfl]
      apply Function.update_eq_self_iff.mpr
      simp [subTopics, hc]
    have hpatterns : (w.getNewConnection c).subPatterns = w.subPatterns := by
      rw [subPatterns_update rfl]
      apply Function.update_eq_self_iff.mpr
      simp [subPatterns, hc]
    constructor
    . rw [htopics]
      exact h.indexed.topics
    . rw [hpatterns]
      exact h.indexed.patterns
  . have hnodup := h.owned.nodup
    have hlive := h.owned.live_iff
    unfold Worker.getNewConnection
    constructor
    . simp only [List.nodup_append] at hnodup ⊢
      grind
    . intro d
      by_cases hd : d = c
      . subst hd
        simp
      . simp only [Function.update_of_ne hd, hlive d]
        grind

theorem reply (h : Sound w) (c : ClientId) (limitReached : Bool) : Sound (w.reply c limitReached) where
  indexed := h.indexed.reply c limitReached
  owned := h.owned.reply c limitReached

theorem edits (h : Sound w) (hc : w.heap c ≠ none) (hedits : Edits w c sub w') : Sound w' where
  indexed := hedits.indexed
  owned := h.owned.edits hc hedits

theorem processEach (body : Nat → Worker → Bytes → Option Worker)
    (hbody : ∀ i w arg, Sound w → w.heap c ≠ none → ∃ w', body i w arg = some w' ∧ Sound w' ∧ w'.heap c ≠ none)
    (h : Sound w) (hc : w.heap c ≠ none) (args : List Bytes)
    : ∃ w', w.processEach body args = some w' ∧ Sound w' := by
  unfold Worker.processEach
  generalize 0 = i
  induction args generalizing i w with
  | nil => exact ⟨w, rfl, h⟩
  | cons arg args ih =>
    obtain ⟨w1, hw1, h1, hc1⟩ := hbody i w arg h hc
    unfold Worker.processEach.go
    simp only [hw1]
    apply ih h1 hc1

theorem processSubscribe (h : Sound w) (hc : w.heap c ≠ none) (limitReached : Nat → Bool) (args : List Bytes)
    : ∃ w', w.processSubscribe c limitReached args = some w' ∧ Sound w' := by
  unfold Worker.processSubscribe
  split
  . exact ⟨_, rfl, h.reply c _⟩
  . apply processEach _ _ h hc
    intro i w topic h hc
    obtain ⟨sub, hsub⟩ := Option.ne_none_iff_exists'.mp hc
    obtain ⟨w1, sub1, hw1, hedits⟩ := h.indexed.subscribeTopic hsub topic
    refine ⟨w1.reply c (limitReached i), ?_, ?_, ?_⟩
    . simp only [hw1, Option.map_some]
    . apply (h.edits hc hedits).reply
    . simp [hedits.heap_self]

theorem processPSubscribe (h : Sound w) (hc : w.heap c ≠ none) (limitReached : Nat → Bool) (args : List Bytes)
    : ∃ w', w.processPSubscribe c limitReached args = some w' ∧ Sound w' := by
  unfold Worker.processPSubscribe
  split
  . exact ⟨_, rfl, h.reply c _⟩
  . apply processEach _ _ h hc
    intro i w pattern h hc
    obtain ⟨sub, hsub⟩ := Option.ne_none_iff_exists'.mp hc
    obtain ⟨w1, sub1, hw1, hedits⟩ := h.indexed.subscribePattern hsub pattern
    refine ⟨w1.reply c (limitReached i), ?_, ?_, ?_⟩
    . simp only [hw1, Option.map_some]
    . apply (h.edits hc hedits).reply
    . simp [hedits.heap_self]

theorem processUnSubscribe (order : BeginOrder Bytes) (h : Sound w) (hc : w.heap c ≠ none)
    (limitReached : Nat → Bool) (args : List Bytes)
    : ∃ w', w.processUnSubscribe order c limitReached args = some w' ∧ Sound w' := by
  unfold Worker.processUnSubscribe
  split
  . obtain ⟨sub, hsub⟩ := Option.ne_none_iff_exists'.mp hc
    rw [subTopics_of_heap hsub]
    obtain ⟨w1, hw1, hanswers⟩ := h.indexed.unsubscribeAllTopics order hsub limitReached (Nat.le_refl _)
    exact ⟨w1, hw1, hanswers.indexed, hanswers.owned h.owned⟩
  . apply processEach _ _ h hc
    intro i w topic h hc
    obtain ⟨sub, hsub⟩ := Option.ne_none_iff_exists'.mp hc
    have hreply := h.reply c (limitReached i)
    obtain ⟨w1, hw1, hedits⟩ := hreply.indexed.unsubscribeTopic (by simpa using hsub) topic
    refine ⟨w1, hw1, ?_, ?_⟩
    . apply hreply.edits _ hedits
      simpa using hc
    . simp [hedits.heap_self]

theorem processPUnSubscribe (order : BeginOrder Bytes) (h : Sound w) (hc : w.heap c ≠ none)
    (limitReached : Nat → Bool) (args : List Bytes)
    : ∃ w', w.processPUnSubscribe order c limitReached args = some w' ∧ Sound w' := by
  unfold Worker.processPUnSubscribe
  split
  . obtain ⟨sub, hsub⟩ := Option.ne_none_iff_exists'.mp hc
    rw [subPatterns_of_heap hsub]
    obtain ⟨w1, hw1, hanswers⟩ := h.indexed.unsubscribeAllPatterns order hsub limitReached (Nat.le_refl _)
    exact ⟨w1, hw1, hanswers.indexed, hanswers.owned h.owned⟩
  . apply processEach _ _ h hc
    intro i w pattern h hc
    obtain ⟨sub, hsub⟩ := Option.ne_none_iff_exists'.mp hc
    have hreply := h.reply c (limitReached i)
    obtain ⟨w1, hw1, hedits⟩ := hreply.indexed.unsubscribePattern (by simpa using hsub) pattern
    refine ⟨w1, hw1, ?_, ?_⟩
    . apply hreply.edits _ hedits
      simpa using hc
    . simp [hedits.heap_self]

theorem freeClient (order : BeginOrder Bytes) (h : Sound w) (hc : w.heap c ≠ none)
    : ∃ w', w.freeClient order c = some w' ∧ Sound w' := by
  have hnodup := h.owned.nodup
  have hlive := h.owned.live_iff
  unfold Worker.freeClient
  split
  . next hmem =>
    have hindexed : Indexed { w with clients := w.clients.erase c } := h.indexed.of_heap_eq rfl rfl rfl
    obtain ⟨w1, hw1, hindexed1, hheap, hclients, htoClose⟩ := hindexed.delete order hc
    refine ⟨w1, hw1, hindexed1, ?_, ?_⟩
    . rw [hclients, htoClose]
      simp only [List.nodup_append] at hnodup ⊢
      grind
    . intro d
      rw [hheap, hclients, htoClose]
      simp only [List.nodup_append] at hnodup
      by_cases hd : d = c
      . subst hd
        grind
      . rw [Function.update_of_ne hd]
        grind
  . exact ⟨w, rfl, h⟩

theorem freeClientsInAsyncFreeQueue (order : BeginOrder Bytes) (h : Sound w)
    : ∃ w', w.freeClientsInAsyncFreeQueue order = some w' ∧ Sound w' := by
  have hnodup := h.owned.nodup
  have hlive := h.owned.live_iff
  simp only [List.nodup_append] at hnodup
  obtain ⟨w1, hw1, hindexed, hheap, hclients⟩ := h.indexed.deleteAll order hnodup.2.1 (by grind)
  unfold Worker.freeClientsInAsyncFreeQueue
  simp only [hw1]
  refine ⟨_, rfl, hindexed.of_heap_eq rfl rfl rfl, ?_, ?_⟩
  . simp only [hclients, List.append_nil]
    exact hnodup.1
  . intro d
    simp only [hclients, List.append_nil]
    rw [hheap]
    grind

theorem publish_go (h : Sound w) (limitReached : Nat → Bool) (l : List (ClientId × Delivery))
    (hlive : ∀ x ∈ l, w.heap x.1 ≠ none)
    : ∃ w', publishMessage.go limitReached i w l = some (w', l.map Prod.snd) ∧ Sound w' := by
  induction l generalizing i w with
  | nil => exact ⟨w, rfl, h⟩
  | cons x l ih =>
    obtain ⟨c, delivery⟩ := x
    obtain ⟨sub, hsub⟩ := Option.ne_none_iff_exists'.mp (hlive _ List.mem_cons_self)
    have hlive' : ∀ x ∈ l, (w.reply c (limitReached i)).heap x.1 ≠ none := by
      intro x hx
      rw [reply_heap]
      exact hlive x (List.mem_cons_of_mem _ hx)
    obtain ⟨w1, hw1, h1⟩ := ih (i := i + 1) (h.reply c (limitReached i)) hlive'
    refine ⟨w1, ?_, h1⟩
    unfold publishMessage.go
    simp only [hsub, hw1, List.map_cons]

theorem mem_pubsubPatterns (h : Sound w) : (pattern, c) ∈ w.pubsubPatterns ↔ pattern ∈ w.subPatterns c := by
  rw [← List.count_pos_iff, h.indexed.patterns.count_eq, List.count_pos_iff]

theorem count_topic (h : Sound w) (topic : Bytes) (c : ClientId)
    : ((w.clientsByTopic topic).getD []).count c = if topic ∈ w.subTopics c then 1 else 0 := by
  rw [h.indexed.topics.count_eq, (h.indexed.topics.nodup c).count]

theorem count_pattern (h : Sound w) (pattern : Bytes) (c : ClientId)
    : w.pubsubPatterns.count (pattern, c) = if pattern ∈ w.subPatterns c then 1 else 0 := by
  rw [h.indexed.patterns.count_eq, (h.indexed.patterns.nodup c).count]

theorem publishMessage (h : Sound w) (stringMatch : Bytes → Bytes → Bool) (topic : Bytes)
    (limitReached : Nat → Bool)
    : ∃ w' deliveries, w.publishMessage stringMatch topic limitReached = some (w', deliveries) ∧ Sound w' ∧
        (∀ c, deliveries.count (.message c) = if topic ∈ w.subTopics c then 1 else 0) ∧
        (∀ c pattern, deliveries.count (.patternMessage c pattern) =
          if pattern ∈ w.subPatterns c ∧ stringMatch pattern topic then 1 else 0) := by
  have hmessage : Function.Injective Delivery.message := by
    intro c d heq
    cases heq
    rfl
  have hpatternMessage : Function.Injective fun entry : Bytes × ClientId =>
      Delivery.patternMessage entry.2 entry.1 := by
    intro x y heq
    cases x
    cases y
    cases heq
    rfl
  unfold Worker.publishMessage
  obtain ⟨w1, hw1, h1⟩ := h.publish_go (i := 0) limitReached
    (((w.clientsByTopic topic).getD []).map (fun c => (c, Delivery.message c)) ++
      (w.pubsubPatterns.filter fun entry => stringMatch entry.1 topic).map fun entry =>
        (entry.2, Delivery.patternMessage entry.2 entry.1)) (by
      intro x hx
      rw [List.mem_append, List.mem_map, List.mem_map] at hx
      rcases hx with ⟨c, hc, rfl⟩ | ⟨⟨pattern, c⟩, hc, rfl⟩
      . apply live_of_topic
        exact (h.indexed.topics.mem_iff topic c).mp hc
      . apply live_of_pattern
        exact h.mem_pubsubPatterns.mp (List.mem_of_mem_filter hc))
  refine ⟨w1, _, hw1, h1, ?_, ?_⟩
  . intro c
    rw [List.map_append, List.map_map, List.map_map, List.count_append]
    rw [← h.count_topic topic c]
    rw [← List.count_map_of_injective _ Delivery.message hmessage]
    simp [Function.comp_def, List.count_eq_zero]
  . intro c pattern
    rw [List.map_append, List.map_map, List.map_map, List.count_append]
    have hdirect : ((((w.clientsByTopic topic).getD []).map
        (Prod.snd ∘ fun c => (c, Delivery.message c))).count (.patternMessage c pattern)) = 0 := by
      simp [Function.comp_def, List.count_eq_zero]
    have hpattern := h.count_pattern pattern c
    rw [hdirect, Nat.zero_add]
    change List.count _ (List.map (fun entry : Bytes × ClientId => Delivery.patternMessage entry.2 entry.1) _) = _
    rw [show Delivery.patternMessage c pattern =
        (fun entry : Bytes × ClientId => Delivery.patternMessage entry.2 entry.1) (pattern, c) from rfl]
    rw [List.count_map_of_injective _ _ hpatternMessage]
    cases hmatch : stringMatch pattern topic with
    | true =>
      have hfilter : (w.pubsubPatterns.filter fun entry => stringMatch entry.1 topic).count (pattern, c) =
          w.pubsubPatterns.count (pattern, c) :=
        List.count_filter hmatch
      rw [hfilter, hpattern]
      simp
    | false =>
      simp [List.count_eq_zero, hmatch]

theorem step (h : Sound w) (stringMatch : Bytes → Bytes → Bool) (l : Label) (hl : w.Legal l)
    : ∃ w', w.step stringMatch l = some w' ∧ Sound w' := by
  cases l with
  | getNewConnection c => exact ⟨_, rfl, h.getNewConnection hl⟩
  | subscribe c args limitReached => exact h.processSubscribe hl limitReached args
  | psubscribe c args limitReached => exact h.processPSubscribe hl limitReached args
  | unsubscribe order c args limitReached => exact h.processUnSubscribe order hl limitReached args
  | punsubscribe order c args limitReached => exact h.processPUnSubscribe order hl limitReached args
  | freeClient order c => exact h.freeClient order hl
  | freeClientAsync c =>
    refine ⟨_, rfl, ?_, h.owned.freeClientAsync c⟩
    apply h.indexed.of_heap_eq <;> simp
  | freeClientsInAsyncFreeQueue order => exact h.freeClientsInAsyncFreeQueue order
  | publishMessage topic limitReached =>
    obtain ⟨w1, deliveries, hw1, h1, -⟩ := h.publishMessage stringMatch topic limitReached
    refine ⟨w1, ?_, h1⟩
    simp only [Worker.step, hw1, Option.map_some]

theorem of_reaches (h : Run.Reaches (Step stringMatch) Worker.init ls w) : Sound w := by
  apply h.invariant Sound Sound.init
  intro w l w' hw hstep
  obtain ⟨w1, hw1, h1⟩ := hw.step stringMatch l hstep.1
  rw [hstep.2, Option.some.injEq] at hw1
  subst hw1
  exact h1

theorem count_clients (h : Sound w) (hc : w.heap c ≠ none) : w.clients.count c + w.clientsToClose.count c = 1 := by
  rw [← List.count_append]
  apply List.count_eq_one_of_mem h.owned.nodup
  exact (h.owned.live_iff c).mp hc

end Sound

/--
For every worker that runs commands, frees clients and publishes messages in any order: the indexes mirror
the clients' topics and patterns, what they list is alive and in one list of clients, no further step uses
a freed client, deletes one twice, misses an entry or loops for ever, and a published message reaches the
subscribers it matches, once for each way it matches.
-/
theorem subscriptions_consistent (h : Run.Reaches (Step stringMatch) init ls w)
    : (∀ topic c, ((w.clientsByTopic topic).getD []).count c = if topic ∈ w.subTopics c then 1 else 0) ∧
      (∀ pattern c, w.pubsubPatterns.count (pattern, c) = if pattern ∈ w.subPatterns c then 1 else 0) ∧
      (∀ topic, w.clientsByTopic topic ≠ some []) ∧
      (∀ topic c, c ∈ (w.clientsByTopic topic).getD [] →
        w.heap c ≠ none ∧ w.clients.count c + w.clientsToClose.count c = 1) ∧
      (∀ pattern c, (pattern, c) ∈ w.pubsubPatterns →
        w.heap c ≠ none ∧ w.clients.count c + w.clientsToClose.count c = 1) ∧
      (∀ l, w.Legal l → ∃ w', w.step stringMatch l = some w') ∧
      (∀ topic limitReached,
        ∃ w' deliveries, w.publishMessage stringMatch topic limitReached = some (w', deliveries) ∧
          (∀ c, deliveries.count (.message c) = if topic ∈ w.subTopics c then 1 else 0) ∧
          (∀ c pattern, deliveries.count (.patternMessage c pattern) =
            if pattern ∈ w.subPatterns c ∧ stringMatch pattern topic then 1 else 0)) := by
  have hsound := Sound.of_reaches h
  refine ⟨hsound.count_topic, hsound.count_pattern, hsound.indexed.topics.ne_nil, ?_, ?_, ?_, ?_⟩
  . intro topic c hmem
    have hlive : w.heap c ≠ none := by
      apply live_of_topic
      exact (hsound.indexed.topics.mem_iff topic c).mp hmem
    exact ⟨hlive, hsound.count_clients hlive⟩
  . intro pattern c hmem
    have hlive : w.heap c ≠ none := by
      apply live_of_pattern
      exact hsound.mem_pubsubPatterns.mp hmem
    exact ⟨hlive, hsound.count_clients hlive⟩
  . intro l hl
    obtain ⟨w1, hw1, -⟩ := hsound.step stringMatch l hl
    exact ⟨w1, hw1⟩
  . intro topic limitReached
    obtain ⟨w1, deliveries, hw1, -, hmessage, hpattern⟩ := hsound.publishMessage stringMatch topic limitReached
    exact ⟨w1, deliveries, hw1, hmessage, hpattern⟩

theorem subscriptions_consistent_twice
    : ∃ w, Run.Reaches (Step fun _ _ => true) init
          [.getNewConnection 1, .subscribe 1 [[97], [97]] (fun _ => false), .psubscribe 1 [[42]] (fun _ => true)] w ∧
        ((w.clientsByTopic [97]).getD []).count 1 = (if [97] ∈ w.subTopics 1 then 1 else 0) ∧
        [97] ∈ w.subTopics 1 ∧ w.clientsToClose = [1] := by
  have hreach : ∃ w, Run.Reaches (Step fun _ _ => true) init
        [.getNewConnection 1, .subscribe 1 [[97], [97]] (fun _ => false), .psubscribe 1 [[42]] (fun _ => true)] w ∧
      [97] ∈ w.subTopics 1 ∧ w.clientsToClose = [1] := by
    refine ⟨_, .snoc (.snoc (.single ⟨rfl, rfl⟩) ⟨?_, rfl⟩) ⟨?_, rfl⟩, ?_, ?_⟩
    . exact Option.some_ne_none _
    . decide
    . decide
    . exact Option.some_ne_none _
  obtain ⟨w, hreach, htopic, htoClose⟩ := hreach
  exact ⟨w, hreach, (subscriptions_consistent hreach).1 [97] 1, htopic, htoClose⟩

end Worker
end Kids
