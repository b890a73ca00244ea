import Kids.Worker.PubSub
import Kids.Lib.Index
import Kids.Lib.Run

/-!
The two sides of a subscription agree: a client is listed under a topic as often as the topic is among its
topics, and that is at most once; likewise for patterns.
-/

namespace Kids
namespace Worker

variable {w w' : Worker} {c d : ClientId} {sub : Subscriber}

structure Indexed (w : Worker) : Prop where
  topics : Index.ByKey w.subTopics w.clientsByTopic
  patterns : Index.Pairs w.subPatterns w.pubsubPatterns

structure Owned (w : Worker) : Prop where
  nodup : (w.clients ++ w.clientsToClose).Nodup
  live_iff : ∀ c, w.heap c ≠ none ↔ c ∈ w.clients ++ w.clientsToClose

-- an operation on the subscriptions of `c` changes no other client and no list of clients
structure Edits (w : Worker) (c : ClientId) (sub : Subscriber) (w' : Worker) : Prop where
  heap_eq : w'.heap = Function.update w.heap c (some sub)
  clients_eq : w'.clients = w.clients
  clientsToClose_eq : w'.clientsToClose = w.clientsToClose
  indexed : Indexed w'

theorem subTopics_update (h : w'.heap = Function.update w.heap c (some sub))
    : w'.subTopics = Function.update w.subTopics c sub.subTopics := by
  funext d
  unfold subTopics
  rw [h]
  by_cases hd : d = c
  . subst hd
    simp
  . simp [hd]

theorem subPatterns_update (h : w'.heap = Function.update w.heap c (some sub))
    : w'.subPatterns = Function.update w.subPatterns c sub.subPatterns := by
  funext d
  unfold subPatterns
  rw [h]
  by_cases hd : d = c
  . subst hd
    simp
  . simp [hd]

theorem subTopics_of_heap (h : w.heap c = some sub) : w.subTopics c = sub.subTopics := by
  simp [subTopics, h]

theorem subPatterns_of_heap (h : w.heap c = some sub) : w.subPatterns c = sub.subPatterns := by
  simp [subPatterns, h]

theorem addClient_eq (clients : Option (List ClientId)) (c : ClientId)
    : addClient clients c = clients.getD [] ++ [c] := by
  cases clients <;> rfl

theorem Edits.refl (h : Indexed w) (hc : w.heap c = some sub) : Edits w c sub w where
  heap_eq := by rw [← hc, Function.update_eq_self]
  clients_eq := rfl
  clientsToClose_eq := rfl
  indexed := h

theorem Edits.heap_self (h : Edits w c sub w') : w'.heap c = some sub := by
  rw [h.heap_eq, Function.update_self]

-- a change of the topics alone
theorem Edits.of_topics (h : Indexed w) (hc : w.heap c = some sub)
    (heap_eq : w'.heap = Function.update w.heap c (some { sub with subTopics := topics }))
    (hclients : w'.clients = w.clients) (htoClose : w'.clientsToClose = w.clientsToClose)
    (hpubsub : w'.pubsubPatterns = w.pubsubPatterns)
    (hindex : Index.ByKey (Function.update w.subTopics c topics) w'.clientsByTopic)
    : Edits w c { sub with subTopics := topics } w' := by
  refine ⟨heap_eq, hclients, htoClose, ?_, ?_⟩
  . rw [subTopics_update heap_eq]
    exact hindex
  . rw [subPatterns_update heap_eq, ← subPatterns_of_heap hc, Function.update_eq_self, hpubsub]
    exact h.patterns

-- a change of the patterns alone
theorem Edits.of_patterns (h : Indexed w) (hc : w.heap c = some sub)
    (heap_eq : w'.heap = Function.update w.heap c (some { sub with subPatterns := patterns }))
    (hclients : w'.clients = w.clients) (htoClose : w'.clientsToClose = w.clientsToClose)
    (hbyTopic : w'.clientsByTopic = w.clientsByTopic)
    (hindex : Index.Pairs (Function.update w.subPatterns c patterns) w'.pubsubPatterns)
    : Edits w c { sub with subPatterns := patterns } w' := by
  refine ⟨heap_eq, hclients, htoClose, ?_, ?_⟩
  . rw [subTopics_update heap_eq, ← subTopics_of_heap hc, Function.update_eq_self, hbyTopic]
    exact h.topics
  . rw [subPatterns_update heap_eq]
    exact hindex

namespace Indexed

theorem init : Indexed Worker.init where
  topics := Index.ByKey.empty
  patterns := Index.Pairs.empty

theorem subscribeTopic (h : Indexed w) (hc : w.heap c = some sub) (topic : Bytes)
    : ∃ w' sub', w.subscribeTopic c topic = some w' ∧ Edits w c sub' w' := by
  unfold Worker.subscribeTopic
  simp only [hc]
  split
  . exact ⟨w, sub, rfl, Edits.refl h hc⟩
  . next htopic =>
    refine ⟨_, _, rfl, Edits.of_topics h hc rfl rfl rfl rfl ?_⟩
    rw [addClient_eq]
    rw [← subTopics_of_heap hc] at htopic ⊢
    apply h.topics.add htopic

theorem subscribePattern (h : Indexed w) (hc : w.heap c = some sub) (pattern : Bytes)
    : ∃ w' sub', w.subscribePattern c pattern = some w' ∧ Edits w c sub' w' := by
  unfold Worker.subscribePattern
  simp only [hc]
  split
  . exact ⟨w, sub, rfl, Edits.refl h hc⟩
  . next hpattern =>
    refine ⟨_, _, rfl, Edits.of_patterns h hc rfl rfl rfl rfl ?_⟩
    rw [← subPatterns_of_heap hc] at hpattern ⊢
    apply h.patterns.add hpattern

theorem unsubscribeTopic (h : Indexed w) (hc : w.heap c = some sub) (topic : Bytes)
    : ∃ w', w.unsubscribeTopic c topic = some w' ∧
        Edits w c { sub with subTopics := sub.subTopics.erase topic } w' := by
  unfold Worker.unsubscribeTopic
  simp only [hc]
  split
  . next htopic =>
    rw [← subTopics_of_heap hc] at htopic ⊢
    -- a client that has the topic is in its list, so there is a list
    obtain ⟨clients, hclients⟩ := h.topics.exists_of_mem htopic
    simp only [hclients]
    refine ⟨_, rfl, Edits.of_topics h hc rfl rfl rfl rfl ?_⟩
    apply h.topics.remove htopic hclients
  . next htopic =>
    refine ⟨w, rfl, ?_⟩
    rw [List.erase_of_not_mem htopic]
    exact Edits.refl h hc

theorem unsubscribePattern (h : Indexed w) (hc : w.heap c = some sub) (pattern : Bytes)
    : ∃ w', w.unsubscribePattern c pattern = some w' ∧
        Edits w c { sub with subPatterns := sub.subPatterns.erase pattern } w' := by
  unfold Worker.unsubscribePattern
  simp only [hc]
  split
  . refine ⟨_, rfl, Edits.of_patterns h hc rfl rfl rfl rfl ?_⟩
    rw [← subPatterns_of_heap hc]
    apply h.patterns.remove
  . next hpattern =>
    refine ⟨w, rfl, ?_⟩
    rw [List.erase_of_not_mem hpattern]
    exact Edits.refl h hc

end Indexed

section Reply

variable (w c) (limitReached : Bool)

@[simp]
theorem freeClientAsync_heap : (w.freeClientAsync c).heap = w.heap := by
  unfold freeClientAsync
  split <;> rfl

@[simp]
theorem freeClientAsync_clientsByTopic : (w.freeClientAsync c).clientsByTopic = w.clientsByTopic := by
  unfold freeClientAsync
  split <;> rfl

@[simp]
theorem freeClientAsync_pubsubPatterns : (w.freeClientAsync c).pubsubPatterns = w.pubsubPatterns := by
  unfold freeClientAsync
  split <;> rfl

@[simp]
theorem reply_heap : (w.reply c limitReached).heap = w.heap := by
  unfold reply
  split <;> simp

@[simp]
theorem reply_clientsByTopic : (w.reply c limitReached).clientsByTopic = w.clientsByTopic := by
  unfold reply
  split <;> simp

@[simp]
theorem reply_pubsubPatterns : (w.reply c limitReached).pubsubPatterns = w.pubsubPatterns := by
  unfold reply
  split <;> simp

end Reply

theorem Indexed.of_heap_eq (h : Indexed w) (hheap : w'.heap = w.heap)
    (hbyTopic : w'.clientsByTopic = w.clientsByTopic) (hpubsub : w'.pubsubPatterns = w.pubsubPatterns)
    : Indexed w' := by
  have htopics : w'.subTopics = w.subTopics := by
    unfold subTopics
    rw [hheap]
  have hpatterns : w'.subPatterns = w.subPatterns := by
    unfold subPatterns
    rw [hheap]
  constructor
  . rw [htopics, hbyTopic]
    exact h.topics
  . rw [hpatterns, hpubsub]
    exact h.patterns

theorem Indexed.reply (h : Indexed w) (c : ClientId) (limitReached : Bool) : Indexed (w.reply c limitReached) := by
  apply h.of_heap_eq <;> simp

namespace Owned

theorem init : Owned Worker.init where
  nodup := List.nodup_nil
  live_iff c := by simp [Worker.init]

theorem freeClientAsync (h : Owned w) (c : ClientId) : Owned (w.freeClientAsync c) := by
  have hnodup := h.nodup
  have hlive := h.live_iff
  unfold Worker.freeClientAsync
  split
  . next hc =>
    constructor
    . simp only [List.nodup_append] at hnodup ⊢
      grind
    . intro d
      rw [hlive d]
      simp only [List.mem_append, List.mem_filter]
      grind
  . exact h

theorem reply (h : Owned w) (c : ClientId) (limitReached : Bool) : Owned (w.reply c limitReached) := by
  unfold Worker.reply
  split
  . apply h.freeClientAsync
  . exact h

theorem edits (h : Owned w) (hc : w.heap c ≠ none) (hedits : Edits w c sub w') : Owned w' := by
  constructor
  . rw [hedits.clients_eq, hedits.clientsToClose_eq]
    exact h.nodup
  . intro d
    rw [hedits.clients_eq, hedits.clientsToClose_eq, hedits.heap_eq]
    by_cases hd : d = c
    . subst hd
      simp only [Function.update_self, ne_eq, reduceCtorEq, not_false_eq_true, true_iff]
      exact (h.live_iff d).mp hc
    . rw [Function.update_of_ne hd]
      exact h.live_iff d

end Owned

structure Answers (limitReached : Nat → Bool) (w : Worker) (c : ClientId) (sub : Subscriber) (w' : Worker) : Prop where
  heap_eq : w'.heap = Function.update w.heap c (some sub)
  indexed : Indexed w'
  owned : Owned w → Owned w'
  quiet : (∀ i, limitReached i = false) → w'.clients = w.clients ∧ w'.clientsToClose = w.clientsToClose

theorem Answers.refl (h : Indexed w) (hc : w.heap c = some sub) : Answers limitReached w c sub w where
  heap_eq := by rw [← hc, Function.update_eq_self]
  indexed := h
  owned := id
  quiet _ := ⟨rfl, rfl⟩

-- one round of an unsubscribe loop in front of the others
theorem Answers.of_edits (hc : w.heap c ≠ none) (hedits : Edits (w.reply c (limitReached i)) c sub w')
    (h : Answers limitReached w' c sub' w'')
    : Answers limitReached w c sub' w'' := by
  constructor
  . rw [h.heap_eq, hedits.heap_eq, Function.update_idem, reply_heap]
  . exact h.indexed
  . intro howned
    apply h.owned
    apply Owned.edits _ _ hedits
    . apply howned.reply
    . simpa using hc
  . intro hquiet
    obtain ⟨hclients, htoClose⟩ := h.quiet hquiet
    rw [hclients, htoClose, hedits.clients_eq, hedits.clientsToClose_eq, hquiet i]
    exact ⟨rfl, rfl⟩

theorem Indexed.unsubscribeAllTopics (order : BeginOrder Bytes) (h : Indexed w) (hc : w.heap c = some sub)
    (limitReached : Nat → Bool) (hfuel : sub.subTopics.length ≤ fuel)
    : ∃ w', w.unsubscribeAllTopics order c limitReached fuel = some w' ∧
        Answers limitReached w c { sub with subTopics := [] } w' := by
  induction fuel generalizing w sub with
  | zero =>
    obtain ⟨topics, patterns⟩ := sub
    cases topics with
    | nil =>
      refine ⟨w, ?_, Answers.refl h hc⟩
      unfold Worker.unsubscribeAllTopics
      simp only [hc]
    | cons => simp at hfuel
  | succ fuel ih =>
    obtain ⟨topics, patterns⟩ := sub
    unfold Worker.unsubscribeAllTopics
    simp only [hc]
    cases topics with
    | nil => exact ⟨w, rfl, Answers.refl h hc⟩
    | cons topic rest =>
      have hc' : (w.reply c (limitReached fuel)).heap c = some ⟨topic :: rest, patterns⟩ := by simpa using hc
      obtain ⟨w1, hw1, hedits⟩ := (h.reply c (limitReached fuel)).unsubscribeTopic hc' (order.first topic rest)
      have hless : ((topic :: rest).erase (order.first topic rest)).length ≤ fuel := by
        rw [List.length_erase_of_mem (order.mem topic rest)]
        exact Nat.le_of_succ_le_succ hfuel
      obtain ⟨w2, hw2, hanswers⟩ := ih hedits.indexed hedits.heap_self hless
      simp only [hw1]
      refine ⟨w2, hw2, ?_⟩
      apply Answers.of_edits _ hedits hanswers
      simp [hc]

theorem Indexed.unsubscribeAllPatterns (order : BeginOrder Bytes) (h : Indexed w) (hc : w.heap c = some sub)
    (limitReached : Nat → Bool) (hfuel : sub.subPatterns.length ≤ fuel)
    : ∃ w', w.unsubscribeAllPatterns order c limitReached fuel = some w' ∧
        Answers limitReached w c { sub with subPatterns := [] } w' := by
  induction fuel generalizing w sub with
  | zero =>
    obtain ⟨topics, patterns⟩ := sub
    cases patterns with
    | nil =>
      refine ⟨w, ?_, Answers.refl h hc⟩
      unfold Worker.unsubscribeAllPatterns
      simp only [hc]
    | cons => simp at hfuel
  | succ fuel ih =>
    obtain ⟨topics, patterns⟩ := sub
    unfold Worker.unsubscribeAllPatterns
    simp only [hc]
    cases patterns with
    | nil => exact ⟨w, rfl, Answers.refl h hc⟩
    | cons pattern rest =>
      have hc' : (w.reply c (limitReached fuel)).heap c = some ⟨topics, pattern :: rest⟩ := by simpa using hc
      obtain ⟨w1, hw1, hedits⟩ := (h.reply c (limitReached fuel)).unsubscribePattern hc' (order.first pattern rest)
      have hless : ((pattern :: rest).erase (order.first pattern rest)).length ≤ fuel := by
        rw [List.length_erase_of_mem (order.mem pattern rest)]
        exact Nat.le_of_succ_le_succ hfuel
      obtain ⟨w2, hw2, hanswers⟩ := ih hedits.indexed hedits.heap_self hless
      simp only [hw1]
      refine ⟨w2, hw2, ?_⟩
      apply Answers.of_edits _ hedits hanswers
      simp [hc]

theorem Indexed.delete (order : BeginOrder Bytes) (h : Indexed w) (hc : w.heap c ≠ none)
    : ∃ w', w.delete order c = some w' ∧ Indexed w' ∧ w'.heap = Function.update w.heap c none ∧
        w'.clients = w.clients ∧ w'.clientsToClose = w.clientsToClose := by
  obtain ⟨sub, hc⟩ := Option.ne_none_iff_exists'.mp hc
  obtain ⟨w1, hw1, htopics⟩ := h.unsubscribeAllTopics order hc (fun _ => false) (Nat.le_refl _)
  have hc1 : w1.heap c = some ⟨[], sub.subPatterns⟩ := by
    rw [htopics.heap_eq, Function.update_self]
  obtain ⟨w2, hw2, hpatterns⟩ := htopics.indexed.unsubscribeAllPatterns order hc1 (fun _ => false) (Nat.le_refl _)
  have hc2 : w2.heap c = some ⟨[], []⟩ := by
    rw [hpatterns.heap_eq, Function.update_self]
  unfold Worker.delete
  rw [subTopics_of_heap hc]
  simp only [hw1]
  rw [subPatterns_of_heap hc1]
  simp only [hw2]
  refine ⟨_, rfl, ?_, ?_, ?_, ?_⟩
  . -- the client had no topics and no patterns any more
    have htopics' : subTopics { w2 with heap := Function.update w2.heap c none } = w2.subTopics := by
      funext d
      by_cases hd : d = c
      . subst hd
        simp [subTopics, hc2]
      . simp [subTopics, hd]
    have hpatterns' : subPatterns { w2 with heap := Function.update w2.heap c none } = w2.subPatterns := by
      funext d
      by_cases hd : d = c
      . subst hd
        simp [subPatterns, hc2]
      . simp [subPatterns, hd]
    constructor
    . rw [htopics']
      exact hpatterns.indexed.topics
    . rw [hpatterns']
      exact hpatterns.indexed.patterns
  . simp only [hpatterns.heap_eq, htopics.heap_eq, Function.update_idem]
  . exact (hpatterns.quiet fun _ => rfl).1.trans (htopics.quiet fun _ => rfl).1
  . exact (hpatterns.quiet fun _ => rfl).2.trans (htopics.quiet fun _ => rfl).2

theorem Indexed.deleteAll (order : BeginOrder Bytes) {l : List ClientId} (h : Indexed w) (hnodup : l.Nodup)
    (hlive : ∀ c ∈ l, w.heap c ≠ none)
    : ∃ w', l.foldlM (Worker.delete order) w = some w' ∧ Indexed w' ∧
        (∀ c, w'.heap c = if c ∈ l then none else w.heap c) ∧ w'.clients = w.clients := by
  induction l generalizing w with
  | nil => exact ⟨w, rfl, h, by simp, rfl⟩
  | cons c l ih =>
    rw [List.nodup_cons] at hnodup
    obtain ⟨w1, hw1, hindexed, hheap, hclients, -⟩ := h.delete order (hlive c List.mem_cons_self)
    have hlive' : ∀ d ∈ l, w1.heap d ≠ none := by
      intro d hd
      have hne : d ≠ c := by
        rintro rfl
        exact hnodup.1 hd
      rw [hheap, Function.update_of_ne hne]
      exact hlive d (List.mem_cons_of_mem c hd)
    obtain ⟨w2, hw2, hindexed2, hheap2, hclients2⟩ := ih hindexed hnodup.2 hlive'
    refine ⟨w2, ?_, hindexed2, ?_, hclients2.trans hclients⟩
    . rw [List.foldlM_cons, hw1]
      exact hw2
    . intro d
      rw [hheap2, hheap]
      by_cases hd : d = c
      . subst hd
        simp [hnodup.1]
      . simp [hd]

end Worker
end Kids
