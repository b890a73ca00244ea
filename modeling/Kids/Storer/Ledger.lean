import Kids.Store.Policies
import Kids.Store.Recovery

/-!
Where the messages of the storer are: in every run, and in every store of its tree, they are where the policies of the
stores say.
-/

namespace Kids

open Spread

namespace StoreLedger

/--
Every store of the tree has its messages where its policy says.
-/
def Kept : (n : Nat) → StoreLedger n → Prop
  | 0, _ => True
  | n + 1, r => StoreLayer.Kept (accepted n) (Kept n) (Recorded.accepted r) (Recorded.store r)

theorem records : (n : Nat) → (ops n).Records (accepted n) (Kept n)
  | 0 => ⟨fun _ _ _ => ⟨trivial, rfl⟩, fun _ _ _ _ => ⟨trivial, rfl⟩, fun _ _ _ _ _ => ⟨trivial, rfl⟩,
      fun _ _ _ _ => ⟨trivial, rfl⟩⟩
  | n + 1 => (records n).layer

def mapNetwork (f : NetworkLeaf → NetworkLeaf) : (n : Nat) → StoreLedger n → StoreLedger n
  | 0, r => { r with store := StoreTree.mapNetwork f 0 (Recorded.store r) }
  | n + 1, r => { r with
      store := match Recorded.store r with
        | .leaf (.network l) => .leaf (.network (f l))
        | .leaf l => .leaf l
        | .group g => .group (g.map (mapNetwork f n))
        | .buffer b => .buffer (b.map (mapNetwork f n)) }

variable (f : NetworkLeaf → NetworkLeaf)

theorem accepted_mapNetwork : (n : Nat) → (r : StoreLedger n) → accepted n (mapNetwork f n r) = accepted n r
  | 0, _ => rfl
  | _ + 1, _ => rfl

theorem forget_mapNetwork : (n : Nat) → (r : StoreLedger n)
    → forget n (mapNetwork f n r) = StoreTree.mapNetwork f n (forget n r)
  | 0, _ => rfl
  | n + 1, ⟨.leaf l, account⟩ => by cases l <;> rfl
  | n + 1, ⟨.group g, account⟩ => by
    have hstores : (g.stores.map (mapNetwork f n)).map (forget n) =
        (g.stores.map (forget n)).map (StoreTree.mapNetwork f n) := by
      rw [List.map_map, List.map_map]
      exact List.map_congr_left fun s _ => forget_mapNetwork n s
    change StoreLayer.group { g with stores := (g.stores.map (mapNetwork f n)).map (forget n) } = _
    rw [hstores]
    rfl
  | n + 1, ⟨.buffer b, account⟩ => by
    change StoreLayer.buffer { b with
      primary := forget n (mapNetwork f n b.primary), secondary := forget n (mapNetwork f n b.secondary) } = _
    rw [forget_mapNetwork n, forget_mapNetwork n]
    rfl

theorem kept_mapNetwork : (n : Nat) → (r : StoreLedger n) → Kept n r → Kept n (mapNetwork f n r)
  | 0, _, _ => trivial
  | n + 1, ⟨.leaf l, account⟩, _ => by cases l <;> exact trivial
  | n + 1, ⟨.group g, account⟩, h => by
    obtain ⟨hpolicy, hstores⟩ := h
    have heq : (g.stores.map (mapNetwork f n)).map (accepted n) = g.stores.map (accepted n) := by
      rw [List.map_map]
      exact List.map_congr_left fun s _ => accepted_mapNetwork f n s
    constructor
    . change g.kind.Policy account ((g.stores.map (mapNetwork f n)).map (accepted n))
      rw [heq]
      exact hpolicy
    . intro s hs
      obtain ⟨t, ht, rfl⟩ := List.mem_map.mp hs
      exact kept_mapNetwork n t (hstores t ht)
  | n + 1, ⟨.buffer b, account⟩, h => by
    obtain ⟨hpolicy, hprimary, hsecondary⟩ := h
    refine ⟨?_, kept_mapNetwork n _ hprimary, kept_mapNetwork n _ hsecondary⟩
    change StoreBuffer.Policy account (accepted n (mapNetwork f n b.primary)) (accepted n (mapNetwork f n b.secondary))
    rw [accepted_mapNetwork, accepted_mapNetwork]
    exact hpolicy

end StoreLedger

/--
The storer with the accounts of its stores. `given` is what `MQNext` has returned in `StoreMessage`, and `refused` what
it has counted as dropped.
-/
structure StorerLedger (n : Nat) where
  store : StoreLedger n
  world : World
  given : List MessageId
  refused : List MessageId

namespace StorerLedger

def onStore (s : StorerLedger n) (store : StoreLedger n) (world : World) : Option (StorerLedger n) :=
  if world.undefined then none else some { s with store := store, world := world }

def start (env : TreeEnv) (store : StoreTree n) : Option (StorerLedger n) :=
  let ((opened, _), world) := (StoreLedger.ops n).open_ env .init (StoreLedger.blank n store)
  onStore ⟨opened, .init, [], []⟩ opened world

def onNetwork (id : LeafId) (f : NetworkLeaf → NetworkLeaf) (s : StorerLedger n) : StorerLedger n :=
  { s with
    store := StoreLedger.mapNetwork (fun l => if l.id = id then f l else l) n s.store
    world := s.world.next
  }

def step (s : StorerLedger n) : StorerTree.Label → Option (StorerLedger n)
  | .disconnect id => some (s.onNetwork id NetworkLeaf.close)
  | .msgSent id => some (s.onNetwork id fun l => { l with sending := false })
  | .storeMessage env m =>
    if (StoreLedger.ops n).sending s.store then
      some { s with world := s.world.next }
    else
      let ((store, ok), world) := (StoreLedger.ops n).addMessage env m s.world.next s.store
      onStore { s with given := s.given ++ [m], refused := if ok then s.refused else s.refused ++ [m] } store
        (if ok then world else world.drop m)
  | .cron env =>
    let (store, world) := (StoreLedger.ops n).cron env s.world.next s.store
    s.onStore store world

/--
What the storer was given is accepted by its store or refused, and what is refused is among what `msg_drop` counts. The
stores below count there too what they cannot keep themselves.
-/
structure Sound (s : StorerLedger n) : Prop where
  kept : StoreLedger.Kept n s.store
  shared : GroupKind.Policy s.given [StoreLedger.accepted n s.store, s.refused] .priority
  counted : s.refused.Sublist s.world.dropped
  msgDrop : s.world.msgDrop = s.world.dropped.length

/--
What the storer has counted, in the calls of one step. Nothing is taken back.
-/
def Counts (refused : List MessageId) (w : World) : Prop :=
  refused.Sublist w.dropped ∧ w.msgDrop = w.dropped.length

theorem stable_counts (refused : List MessageId) : World.Stable (Counts refused) where
  calls := fun _ _ h => h
  opened := fun _ _ h => h
  drop := by
    rintro w m ⟨hsublist, hlen⟩
    refine ⟨hsublist.trans (List.sublist_append_left _ _), ?_⟩
    unfold World.drop
    dsimp only
    rw [hlen, List.length_append, List.length_singleton]
  lose := fun _ _ h => h
  undefined := fun _ h => h

section

variable {s s' : StorerLedger n}

theorem onStore_eq_some {store : StoreLedger n} {world : World} (h : s.onStore store world = some s')
    : s' = { s with store := store, world := world } ∧ world.undefined = false := by
  unfold onStore at h
  split at h
  . cases h
  . next hdefined =>
    cases h
    exact ⟨rfl, by rwa [Bool.not_eq_true] at hdefined⟩

theorem Sound.onNetwork (h : s.Sound) (id : LeafId) (f : NetworkLeaf → NetworkLeaf) : (s.onNetwork id f).Sound := by
  refine ⟨StoreLedger.kept_mapNetwork _ n _ h.kept, ?_, h.counted, h.msgDrop⟩
  unfold StorerLedger.onNetwork
  dsimp only
  rw [StoreLedger.accepted_mapNetwork]
  exact h.shared

theorem Sound.step (h : s.Sound) (hstep : s.step l = some s') : s'.Sound := by
  have hcounts : Counts s.refused s.world.next := ⟨h.counted, h.msgDrop⟩
  cases l with
  | disconnect id =>
    cases hstep
    exact h.onNetwork id _
  | msgSent id =>
    cases hstep
    exact h.onNetwork id _
  | storeMessage env m =>
    unfold StorerLedger.step at hstep
    dsimp only at hstep
    split at hstep
    . cases hstep
      exact ⟨h.kept, h.shared, h.counted, h.msgDrop⟩
    . obtain ⟨rfl, -⟩ := onStore_eq_some hstep
      obtain ⟨hkept, haccepted⟩ := (StoreLedger.records n).addMessage env m s.world.next s.store h.kept
      have hmore := (StoreTree.keeps (stable_counts s.refused) n).addMessage env m s.world.next
        (StoreLedger.forget n s.store) hcounts
      rw [(StoreLedger.simulates n).addMessage] at hmore
      refine ⟨hkept, ?_, ?_, ?_⟩
      . dsimp only
        rw [haccepted]
        cases ((StoreLedger.ops n).addMessage env m s.world.next s.store).1.2 with
        | true => exact h.shared.give m [true, false] rfl fun _ => by decide
        | false => exact h.shared.give m [false, true] rfl fun _ => by decide
      . dsimp only
        split
        . exact hmore.1
        . exact hmore.1.append (List.Sublist.refl [m])
      . dsimp only
        split
        . exact hmore.2
        . exact ((stable_counts s.refused).drop _ m hmore).2
  | cron env =>
    obtain ⟨rfl, -⟩ := onStore_eq_some hstep
    obtain ⟨hkept, haccepted⟩ := (StoreLedger.records n).cron env s.world.next s.store h.kept
    have hmore := (StoreTree.keeps (stable_counts s.refused) n).cron env s.world.next (StoreLedger.forget n s.store)
      hcounts
    rw [(StoreLedger.simulates n).cron] at hmore
    refine ⟨hkept, ?_, hmore.1, hmore.2⟩
    dsimp only
    rw [haccepted]
    exact h.shared

/--
The storer moves as the one with the accounts.
-/
structure Matches (s : StorerLedger n) (t : StorerTree n) : Prop where
  store : StoreLedger.forget n s.store = t.store
  world : s.world = t.world

theorem matches_onStore {tree : StoreTree n} {ledger : StoreLedger n} {world world' : World} {due : List LeafId}
    (hstep : s.onStore ledger world = some s') (hstore : tree = StoreLedger.forget n ledger) (hworld : world' = world)
    : ∃ t, StorerTree.onStore tree world' due = some t ∧ s'.Matches t := by
  obtain ⟨rfl, hdefined⟩ := onStore_eq_some hstep
  rw [hstore, hworld]
  exact ⟨_, StorerTree.onStore_of_defined hdefined due, rfl, rfl⟩

theorem Matches.step {t : StorerTree n} (h : s.Matches t) (hstep : s.step l = some s')
    : ∃ t', t.step l = some t' ∧ s'.Matches t' := by
  obtain ⟨hstore, hworld⟩ := h
  have hsim := StoreLedger.simulates n
  cases l with
  | disconnect id =>
    cases hstep
    refine ⟨_, rfl, ?_, congrArg World.next hworld⟩
    rw [← hstore]
    exact StoreLedger.forget_mapNetwork _ n s.store
  | msgSent id =>
    cases hstep
    refine ⟨_, rfl, ?_, congrArg World.next hworld⟩
    rw [← hstore]
    exact StoreLedger.forget_mapNetwork _ n s.store
  | storeMessage env m =>
    unfold StorerLedger.step at hstep
    unfold StorerTree.step
    dsimp only at hstep ⊢
    rw [← hstore, ← hworld, hsim.sending, hsim.addMessage]
    split at hstep
    . next hsending =>
      cases hstep
      rw [if_pos hsending]
      exact ⟨_, rfl, rfl, rfl⟩
    . next hsending =>
      rw [if_neg hsending]
      exact matches_onStore hstep rfl rfl
  | cron env =>
    unfold StorerLedger.step at hstep
    unfold StorerTree.step
    rw [← hstore, ← hworld]
    have hcron := hsim.cron env s.world.next s.store
    exact matches_onStore hstep (congrArg Prod.fst hcron) (congrArg Prod.snd hcron)

end

-- messages for a server go to a file while it is away
def bufferedServer : StoreTree 2 :=
  .group ⟨.priority, [], false, [.buffer ⟨[], false, .toPrimary, .null, .network ⟨0, [], false, false, 0⟩,
    .file ⟨[], true, 600, false, []⟩⟩]⟩

end StorerLedger
end Kids
