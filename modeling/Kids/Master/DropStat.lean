import Kids.Lib.Run
import Kids.Store.StoreTreeLemmas
import Mathlib.Data.List.Dedup

/-!
The counter `msg_drop`. `Master::PutMessage` counts on the statistic of the master, the storer and its
stores on the one of the storer, and `Master::Cron` sums the statistics up for `INFO`.
-/

namespace Kids

open Bytes

structure Statistic where
  startTime : Int
  msgIn : UInt64
  msgInTraffic : UInt64
  msgInPs : UInt64
  msgInTrafficPs : UInt64
  msgOut : UInt64
  msgOutTraffic : UInt64
  msgOutPs : UInt64
  msgOutTrafficPs : UInt64
  msgInQueue : UInt64
  queueMemSize : UInt64
  msgStore : UInt64
  msgStoreSize : UInt64
  msgBuffer : UInt64
  msgBufferSize : UInt64
  msgDrop : UInt64
  clients : UInt64
  topics : UInt64
  patterns : UInt64
  deriving DecidableEq

namespace Statistic

def init : Statistic := ⟨0, 0, 0, 0, 0, 0, 0, 0, 0, 0, 0, 0, 0, 0, 0, 0, 0, 0, 0⟩

-- `Add`, which leaves the start time and the rates alone
def add (s stat : Statistic) : Statistic :=
  { s with
    msgIn := s.msgIn + stat.msgIn
    msgInTraffic := s.msgInTraffic + stat.msgInTraffic
    msgOut := s.msgOut + stat.msgOut
    msgOutTraffic := s.msgOutTraffic + stat.msgOutTraffic
    msgInQueue := s.msgInQueue + stat.msgInQueue
    queueMemSize := s.queueMemSize + stat.queueMemSize
    msgStore := s.msgStore + stat.msgStore
    msgStoreSize := s.msgStoreSize + stat.msgStoreSize
    msgBuffer := s.msgBuffer + stat.msgBuffer
    msgBufferSize := s.msgBufferSize + stat.msgBufferSize
    msgDrop := s.msgDrop + stat.msgDrop
    clients := s.clients + stat.clients
    topics := s.topics + stat.topics
    patterns := s.patterns + stat.patterns
  }

end Statistic

/--
The static variables of `Master::Cron`.
-/
structure CronVars where
  lastIn : UInt64
  lastOut : UInt64
  lastInTraffic : UInt64
  lastOutTraffic : UInt64
  lastTime : Int

/--
What `Master::Cron` finds. Of the statistic of the storer everything but `msg_drop` is read here.
-/
structure CronInput where
  unixtime : Int
  msgInQueue : UInt64
  queueMemSize : UInt64
  workers : List Statistic
  storer : Statistic

-- every five seconds
def CronVars.rates (vars : CronVars) (unixtime : Int) (stat : Statistic) : Statistic × CronVars :=
  if unixtime - vars.lastTime ≥ 5 then
    let seconds := UInt64.ofNat (unixtime - vars.lastTime).toNat
    ({ stat with
        msgInPs := (stat.msgIn - vars.lastIn) / seconds
        msgOutPs := (stat.msgOut - vars.lastOut) / seconds
        msgInTrafficPs := (stat.msgInTraffic - vars.lastInTraffic) / seconds
        msgOutTrafficPs := (stat.msgOutTraffic - vars.lastOutTraffic) / seconds
      },
      ⟨stat.msgIn, stat.msgOut, stat.msgInTraffic, stat.msgOutTraffic, unixtime⟩)
  else
    (stat, vars)

theorem CronVars.msgDrop_rates (vars : CronVars) (unixtime : Int) (stat : Statistic)
    : (vars.rates unixtime stat).1.msgDrop = stat.msgDrop := by
  unfold rates
  split
  . rfl
  . rfl

/--
The master, the storer and the messages between them. `cron` is the local variable of a `Master::Cron` that
has read the statistics and not assigned `stat_` yet. The last three fields are history: the messages that
`PutMessage` refused, those of them that came since `cron` was read, and those that an assignment of `stat_`
took off the counter.
-/
structure DropStat (n : Nat) where
  queueLimit : Nat
  nextId : MessageId
  queued : List MessageId
  store : StoreTree n
  world : World
  stat : Statistic
  vars : CronVars
  cron : Option Statistic
  refused : Nat
  sinceRead : Nat
  overwritten : Nat

namespace DropStat

inductive Label (n : Nat)
  -- `size` is what `MQSize` returns
  | putMessage (size : Nat)
  | storeMessage (env : TreeEnv)
  | storerCron (env : TreeEnv)
  | doConfigReload (env : TreeEnv) (store : StoreTree n)
  | disconnect (i : LeafId)
  | msgSent (i : LeafId)
  | cronRead (input : CronInput)
  | cronWrite

-- the master with an empty queue, and the store before it is opened
def init (queueLimit : Nat) (startTime : Int) (store : StoreTree n) : DropStat n where
  queueLimit := queueLimit
  nextId := 0
  queued := []
  store := store
  world := .init
  stat := { Statistic.init with startTime := startTime }
  vars := ⟨0, 0, 0, 0, 0⟩
  cron := none
  refused := 0
  sinceRead := 0
  overwritten := 0

def putMessage (s : DropStat n) (size : Nat) : DropStat n :=
  if size ≥ s.queueLimit then
    { s with
      stat := { s.stat with msgDrop := s.stat.msgDrop + 1 }
      refused := s.refused + 1
      sinceRead := s.sinceRead + 1
    }
  else
    { s with nextId := s.nextId + 1, queued := s.queued ++ [s.nextId] }

-- a step of the storer, which goes on unless a pointer to no queue was used or a tick divided by 0
def onStore (s : DropStat n) (store : StoreTree n) (world : World) : Option (DropStat n) :=
  if world.undefined then none else some { s with store := store, world := world }

def start (queueLimit : Nat) (startTime : Int) (env : TreeEnv) (store : StoreTree n) : Option (DropStat n) :=
  let ((opened, _), world) := (StoreTree.ops n).open_ env .init store
  (init queueLimit startTime store).onStore opened world

def storeMessage (s : DropStat n) (env : TreeEnv) : Option (DropStat n) :=
  if (StoreTree.ops n).sending s.store then
    some s
  else
    match s.queued with
    | [] => some s
    | m :: queued =>
      let ((store, ok), world) := (StoreTree.ops n).addMessage env m s.world s.store
      onStore { s with queued := queued } store (if ok then world else world.drop m)

def storerCron (s : DropStat n) (env : TreeEnv) : Option (DropStat n) :=
  let (store, world) := (StoreTree.ops n).cron env s.world s.store
  s.onStore store world

def doConfigReload (s : DropStat n) (env : TreeEnv) (store : StoreTree n) : Option (DropStat n) :=
  let world := StoreTree.delete n s.world s.store
  let ((store, _), world) := (StoreTree.ops n).open_ env world store
  s.onStore store world

def onNetwork (s : DropStat n) (i : LeafId) (f : NetworkLeaf → NetworkLeaf) : DropStat n :=
  { s with store := StoreTree.mapNetwork (fun l => if l.id = i then f l else l) n s.store }

-- the statistics that `Master::Cron` sums up, with the fields that it takes from `stat_`
def sumUp (s : DropStat n) (input : CronInput) : Statistic :=
  let storer := { input.storer with msgDrop := UInt64.ofNat s.world.msgDrop }
  let stat := (input.workers.foldl Statistic.add .init).add storer
  { stat with
    queueMemSize := input.queueMemSize
    msgInQueue := input.msgInQueue
    startTime := s.stat.startTime
    msgInPs := s.stat.msgInPs
    msgOutPs := s.stat.msgOutPs
    msgInTrafficPs := s.stat.msgInTrafficPs
    msgOutTrafficPs := s.stat.msgOutTrafficPs
    msgDrop := s.stat.msgDrop
  }

def cronRead (s : DropStat n) (input : CronInput) : Option (DropStat n) :=
  match s.cron with
  | some _ => none
  | none =>
    let (stat, vars) := s.vars.rates input.unixtime (s.sumUp input)
    some { s with cron := some stat, vars := vars, sinceRead := 0 }

def cronWrite (s : DropStat n) : Option (DropStat n) :=
  match s.cron with
  | none => none
  | some stat =>
    some { s with stat := stat, cron := none, overwritten := s.overwritten + s.sinceRead, sinceRead := 0 }

def step (s : DropStat n) : Label n → Option (DropStat n)
  | .putMessage size => some (s.putMessage size)
  | .storeMessage env => s.storeMessage env
  | .storerCron env => s.storerCron env
  | .doConfigReload env store => s.doConfigReload env store
  | .disconnect i => some (s.onNetwork i NetworkLeaf.close)
  | .msgSent i => some (s.onNetwork i fun l => { l with sending := false })
  | .cronRead input => s.cronRead input
  | .cronWrite => s.cronWrite

-- the figure `message_drop` of `INFO`
def messageDrop (s : DropStat n) : Nat :=
  s.stat.msgDrop.toNat

/--
The messages that were dropped. One that `PutMessage` refused was never in the queue and is none of those
that the stores dropped, whether they counted it or not.
-/
def distinctDropped (s : DropStat n) : Nat :=
  s.refused + (s.world.dropped ++ s.world.lost).dedup.length

/--
What the counters say about the history.
-/
structure Inv (s : DropStat n) : Prop where
  world : s.world.msgDrop = s.world.dropped.length
  overwritten : s.overwritten ≤ s.refused
  stat : s.stat.msgDrop = UInt64.ofNat (s.refused - s.overwritten)
  sinceRead : s.cron.isSome → s.overwritten + s.sinceRead ≤ s.refused
  cron : ∀ stat, s.cron = some stat → stat.msgDrop = UInt64.ofNat (s.refused - s.overwritten - s.sinceRead)

theorem stable_dropped : World.Stable fun w => w.msgDrop = w.dropped.length where
  calls := fun _ _ h => h
  opened := fun _ _ h => h
  drop := by
    intro w m h
    simp [World.drop, h]
  lose := fun _ _ h => h
  undefined := fun _ h => h

theorem inv_init (queueLimit : Nat) (startTime : Int) (store : StoreTree n) : (init queueLimit startTime store).Inv where
  world := rfl
  overwritten := Nat.le_refl 0
  stat := rfl
  sinceRead := fun h => nomatch h
  cron := fun _ h => nomatch h

theorem Inv.putMessage {s : DropStat n} (h : s.Inv) (size : Nat) : (s.putMessage size).Inv := by
  have hle := h.overwritten
  unfold DropStat.putMessage
  split
  . refine ⟨h.world, ?_, ?_, ?_, ?_⟩
    . exact Nat.le_succ_of_le hle
    . dsimp only
      rw [h.stat, Nat.sub_add_comm hle, UInt64.ofNat_add]
      rfl
    . intro hcron
      exact Nat.succ_le_succ (h.sinceRead hcron)
    . intro stat hstat
      have hsince := h.sinceRead (Option.isSome_iff_exists.mpr ⟨stat, hstat⟩)
      rw [h.cron stat hstat]
      congr 1
      dsimp only
      omega
  . exact ⟨h.world, hle, h.stat, h.sinceRead, h.cron⟩

theorem Inv.onStore {s : DropStat n} (h : s.Inv) (store : StoreTree n) {world : World}
    (hworld : world.msgDrop = world.dropped.length)
    : Run.Ensures (s.onStore store world) Inv := by
  unfold DropStat.onStore
  split
  . exact fun _ h => nomatch h
  . exact .of_some ⟨hworld, h.overwritten, h.stat, h.sinceRead, h.cron⟩

theorem inv_start (queueLimit : Nat) (startTime : Int) (env : TreeEnv) (store : StoreTree n)
    : Run.Ensures (start queueLimit startTime env store) Inv :=
  (inv_init queueLimit startTime store).onStore _ ((StoreTree.keeps stable_dropped n).open_ env .init store rfl)

theorem Inv.storeMessage {s : DropStat n} (h : s.Inv) (env : TreeEnv) : Run.Ensures (s.storeMessage env) Inv := by
  unfold DropStat.storeMessage
  split
  . exact .of_some h
  . split
    . exact .of_some h
    . next m queued _ =>
      have hadded := (StoreTree.keeps stable_dropped n).addMessage env m s.world s.store h.world
      apply Inv.onStore
      . exact ⟨h.world, h.overwritten, h.stat, h.sinceRead, h.cron⟩
      . split
        . exact hadded
        . exact stable_dropped.drop _ m hadded

theorem Inv.cronRead {s : DropStat n} (h : s.Inv) (input : CronInput) : Run.Ensures (s.cronRead input) Inv := by
  unfold DropStat.cronRead
  split
  . exact fun _ h => nomatch h
  . apply Run.Ensures.of_some
    refine ⟨h.world, h.overwritten, h.stat, fun _ => h.overwritten, ?_⟩
    intro stat hstat
    rw [← Option.some.inj hstat]
    exact (CronVars.msgDrop_rates s.vars input.unixtime (s.sumUp input)).trans h.stat

theorem Inv.cronWrite {s : DropStat n} (h : s.Inv) : Run.Ensures s.cronWrite Inv := by
  unfold DropStat.cronWrite
  split
  . exact fun _ h => nomatch h
  . next stat hstat =>
    have hsince := h.sinceRead (Option.isSome_iff_exists.mpr ⟨stat, hstat⟩)
    apply Run.Ensures.of_some
    refine ⟨h.world, hsince, ?_, (fun h => nomatch h), fun _ h => nomatch h⟩
    rw [h.cron stat hstat, Nat.sub_sub]

theorem Inv.step {s : DropStat n} (h : s.Inv) (l : Label n) : Run.Ensures (s.step l) Inv := by
  cases l with
  | putMessage size => exact .of_some (h.putMessage size)
  | storeMessage env => exact h.storeMessage env
  | storerCron env =>
    apply h.onStore
    exact (StoreTree.keeps stable_dropped n).cron env s.world s.store h.world
  | doConfigReload env store =>
    apply h.onStore
    apply (StoreTree.keeps stable_dropped n).open_
    exact StoreTree.keeps_delete stable_dropped n s.world s.store h.world
  | disconnect i => exact .of_some ⟨h.world, h.overwritten, h.stat, h.sinceRead, h.cron⟩
  | msgSent i => exact .of_some ⟨h.world, h.overwritten, h.stat, h.sinceRead, h.cron⟩
  | cronRead input => exact h.cronRead input
  | cronWrite => exact h.cronWrite

/--
`message_drop` is the number of the messages that were dropped as long as all of them were refused by
`PutMessage`, none of them while `Master::Cron` was at work, and the counter has not wrapped.
-/
theorem messageDrop_eq_iff (queueLimit : Nat) (startTime : Int) (env : TreeEnv) (store : StoreTree n)
    (h0 : start queueLimit startTime env store = some s0) (h : Run.Reaches (fun s l t => step s l = some t) s0 ls s)
    : s.messageDrop = s.distinctDropped ↔
        s.world.dropped = [] ∧ s.world.lost = [] ∧ s.overwritten = 0 ∧ s.refused < 2 ^ 64 := by
  have hinv : s.Inv := by
    apply h.invariant Inv (inv_start queueLimit startTime env store _ h0)
    exact fun t l u hinv hstep => hinv.step l u hstep
  have hle := hinv.overwritten
  have hmod := Nat.mod_le (s.refused - s.overwritten) (2 ^ 64)
  unfold messageDrop distinctDropped
  rw [hinv.stat, UInt64.toNat_ofNat']
  constructor
  . intro heq
    have hnone : (s.world.dropped ++ s.world.lost).dedup.length = 0 := by omega
    rw [List.length_eq_zero_iff, List.dedup_eq_nil, List.append_eq_nil_iff] at hnone
    exact ⟨hnone.1, hnone.2, by omega, by omega⟩
  . rintro ⟨hdropped, hlost, hall, hlt⟩
    rw [hdropped, hlost, hall, Nat.sub_zero, Nat.mod_eq_of_lt hlt]
    rfl

-- the first two calls that can go either way succeed, a connect, and then none
def firstTwo : TreeEnv where
  unixtime := 0
  answer := fun n => n < 2
  oldest := fun _ => []
  topicOf := fun _ => []
  preAddMessage := fun _ _ => true

def cronInput : CronInput := ⟨0, 0, 0, [Statistic.init], .init⟩

-- a server that is up, with a file for the messages
def bufferedServer : StoreTree 1 :=
  .buffer ⟨ofString "*", false, .toPrimary, .null, .network ⟨0, ofString "*", false, false, 0⟩,
    .file ⟨ofString "*", true, 600, false, []⟩⟩

-- two messages come into the queue, one is refused, and the storer sends one on
theorem messageDrop_eq_iff_queueFull
    : ∃ s0 s, start 2 0 firstTwo bufferedServer = some s0 ∧ Run.Reaches (fun s l t => step s l = some t) s0
          [.putMessage 0, .putMessage 1, .putMessage 2, .storeMessage firstTwo, .cronRead cronInput, .cronWrite] s ∧
        s.queued = [1] ∧ s.refused = 1 ∧ s.messageDrop = s.distinctDropped := by
  have hrun : ∃ s0 s, start 2 0 firstTwo bufferedServer = some s0 ∧ Run.Reaches (fun s l t => step s l = some t) s0
      [.putMessage 0, .putMessage 1, .putMessage 2, .storeMessage firstTwo, .cronRead cronInput, .cronWrite] s ∧
      s.queued = [1] ∧ s.refused = 1 ∧ s.world.dropped = [] ∧ s.world.lost = [] ∧ s.overwritten = 0 ∧ s.refused < 2 ^ 64 :=
    ⟨_, _, rfl, .snoc (.snoc (.snoc (.snoc (.snoc (.snoc .nil rfl) rfl) rfl) rfl) rfl) rfl, rfl, rfl, rfl, rfl, rfl,
      by decide⟩
  obtain ⟨s0, s, h0, hreaches, hqueued, hrefused, hcond⟩ := hrun
  exact ⟨s0, s, h0, hreaches, hqueued, hrefused, (messageDrop_eq_iff 2 0 firstTwo _ h0 hreaches).mpr hcond⟩

-- no file can be opened
def noneOpens : TreeEnv :=
  { firstTwo with answer := fun _ => false }

/--
The server goes away, and the directory for the files cannot be made: the message is counted twice by the storer, by
`BufferStore` and by `StoreMessage`, and not at all by `INFO`.
-/
theorem messageDrop_fails_secondary
    : ∃ s0 s, start 5 0 firstTwo bufferedServer = some s0 ∧ Run.Reaches (fun s l t => step s l = some t) s0
          [.disconnect 0, .putMessage 0, .storeMessage noneOpens, .cronRead cronInput, .cronWrite] s ∧
        s.world.msgDrop = 2 ∧ s.distinctDropped = 1 ∧ s.messageDrop = 0 :=
  ⟨_, _, rfl, .snoc (.snoc (.snoc (.snoc (.snoc .nil rfl) rfl) rfl) rfl) rfl, rfl, rfl, rfl⟩

end DropStat
end Kids
