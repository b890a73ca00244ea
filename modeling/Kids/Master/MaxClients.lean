import Kids.Util.Bytes
import Kids.Lib.Run
import Mathlib.Data.List.Count
import Mathlib.Logic.Function.Basic

/-!
How the master counts the connections of each host for `max_clients`: `AcceptTcpHandler`,
`AcceptUnixHandler`, `ShouldAccept` and the `RemoveClient` of a client's destructor. The count is kept
under the name of the peer at accept time and taken back under a name that is asked for again at the end.
-/

namespace Kids

abbrev Host := Bytes

def unknownHost : Host := Bytes.ofString "?"

inductive Peer
  | tcp (host : Host)
  | unix
  deriving DecidableEq

structure Acceptor where
  connectedClients : Host → UInt16
  peers : List Peer

namespace Acceptor

def init : Acceptor where
  connectedClients := fun _ => 0
  peers := []

def shouldAccept (maxClients : Int) (s : Acceptor) (host : Host) : Bool × Acceptor :=
  if maxClients ≤ 0 then
    (true, s)
  else if (s.connectedClients host).toNat < maxClients then
    (true, { s with connectedClients := Function.update s.connectedClients host (s.connectedClients host + 1) })
  else
    (false, s)

def removeClient (maxClients : Int) (s : Acceptor) (host : Host) : Acceptor :=
  if maxClients ≤ 0 then
    s
  else
    { s with connectedClients := Function.update s.connectedClients host (s.connectedClients host - 1) }

-- if `accept` fails, the name is whatever was in the memory of `ip`
def acceptTcp (maxClients : Int) (s : Acceptor) (ip : Host) (accepted : Bool) : Acceptor :=
  match s.shouldAccept maxClients ip with
  | (false, s) => s
  | (true, s) => if accepted then { s with peers := s.peers ++ [.tcp ip] } else s

def acceptUnix (s : Acceptor) : Acceptor :=
  { s with peers := s.peers ++ [.unix] }

/--
The destructor of a client, with what `getpeername` says about its socket. For a Unix socket that is no
address, and `inet_ntop` makes a name of the bytes it finds.
-/
def destroyClient (maxClients : Int) (s : Acceptor) (peer : Peer) (peerName : Option Host) : Acceptor :=
  if peer ∈ s.peers then
    let s := if maxClients ≠ 0 then s.removeClient maxClients (peerName.getD unknownHost) else s
    { s with peers := s.peers.erase peer }
  else
    s

inductive Label
  | acceptTcp (ip : Host)
  | acceptTcpFailed (ip : Host)
  | acceptUnix
  | destroyTcp (host : Host) (found : Bool)
  | destroyUnix (peerName : Option Host)

def step (maxClients : Int) (s : Acceptor) : Label → Option Acceptor
  | .acceptTcp ip => some (s.acceptTcp maxClients ip true)
  | .acceptTcpFailed ip => some (s.acceptTcp maxClients ip false)
  | .acceptUnix => some s.acceptUnix
  | .destroyTcp host found => some (s.destroyClient maxClients (.tcp host) (if found then some host else none))
  | .destroyUnix peerName => some (s.destroyClient maxClients .unix peerName)

def openCount (s : Acceptor) (host : Host) : Nat :=
  s.peers.count (.tcp host)

def Counted (maxClients : Int) (s : Acceptor) : Prop :=
  (∀ host, (s.connectedClients host).toNat = s.openCount host) ∧
    (∀ host, (s.openCount host : Int) ≤ maxClients) ∧
    (∀ host, (s.shouldAccept maxClients host).1 = false → (s.openCount host : Int) = maxClients)

/--
The steps that count right: `accept` does not fail, unless the name left over belongs to a host that has
all its connections; a host gets no connection more than a 16-bit counter holds; `getpeername` works when
a TCP client is destroyed; and no Unix client is destroyed.
-/
def CountsRight (maxClients : Int) (s : Acceptor) : Label → Prop
  | .acceptTcp ip => s.openCount ip = 65535 → maxClients ≤ 65535
  | .acceptTcpFailed ip => maxClients ≤ s.openCount ip
  | .acceptUnix => True
  | .destroyTcp host found => .tcp host ∈ s.peers → found = true ∨ host = unknownHost
  | .destroyUnix _ => .unix ∉ s.peers

section Step

variable {maxClients : Int} {s : Acceptor}

theorem openCount_le (h : ∀ host, (s.connectedClients host).toNat = s.openCount host) (host : Host)
    : s.openCount host ≤ 65535 := by
  have := (s.connectedClients host).toNat_lt
  rw [h host] at this
  omega

-- the other two parts follow from the counters
theorem Counted.of_counters (h : ∀ host, (s.connectedClients host).toNat = s.openCount host)
    (hmax : ∀ host, (s.openCount host : Int) ≤ maxClients)
    : Counted maxClients s := by
  refine ⟨h, hmax, ?_⟩
  intro host hrefused
  unfold shouldAccept at hrefused
  split at hrefused
  . cases hrefused
  . split at hrefused
    . cases hrefused
    . have := h host
      have := hmax host
      omega

theorem toNat_add_one (n : UInt16) (h : n.toNat < 65535) : (n + 1).toNat = n.toNat + 1 := by
  rw [UInt16.toNat_add]
  simp only [UInt16.reduceToNat]
  omega

theorem add_one_ne (n : UInt16) : (n + 1).toNat ≠ n.toNat := by
  have := n.toNat_lt
  rw [UInt16.toNat_add]
  simp only [UInt16.reduceToNat]
  omega

theorem toNat_sub_one (n : UInt16) (h : 0 < n.toNat) : (n - 1).toNat = n.toNat - 1 := by
  have := n.toNat_lt
  rw [UInt16.toNat_sub]
  simp only [UInt16.reduceToNat]
  omega

theorem sub_one_ne (n : UInt16) : (n - 1).toNat ≠ n.toNat := by
  have := n.toNat_lt
  rw [UInt16.toNat_sub]
  simp only [UInt16.reduceToNat]
  omega

theorem shouldAccept_of_lt (hmax : 0 < maxClients) (h : (s.connectedClients host).toNat < maxClients)
    : s.shouldAccept maxClients host =
        (true, { s with
          connectedClients := Function.update s.connectedClients host (s.connectedClients host + 1) }) := by
  unfold shouldAccept
  rw [if_neg (by omega), if_pos h]

theorem shouldAccept_of_ge (hmax : 0 < maxClients) (h : ¬(s.connectedClients host).toNat < maxClients)
    : s.shouldAccept maxClients host = (false, s) := by
  unfold shouldAccept
  rw [if_neg (by omega), if_neg h]

theorem openCount_append_tcp (ip host : Host)
    : openCount { s with connectedClients := f, peers := s.peers ++ [.tcp ip] } host =
        s.openCount host + if host = ip then 1 else 0 := by
  unfold openCount
  by_cases hhost : host = ip
  . subst hhost
    simp
  . simp [hhost, Ne.symm hhost]

theorem counted_acceptTcp (hmax : 0 < maxClients) (h : Counted maxClients s) (ip : Host)
    : Counted maxClients (s.acceptTcp maxClients ip true) ↔ CountsRight maxClients s (.acceptTcp ip) := by
  have hcount := h.1 ip
  unfold acceptTcp
  by_cases hlt : (s.connectedClients ip).toNat < maxClients
  . rw [shouldAccept_of_lt hmax hlt]
    simp only [if_true]
    constructor
    . intro hafter
      have hip := hafter.1 ip
      rw [openCount_append_tcp] at hip
      simp only [Function.update_self, if_true] at hip
      intro hfull
      have hwrap := (s.connectedClients ip + 1).toNat_lt
      rw [hip, hfull] at hwrap
      omega
    . intro hright
      have hlt' : (s.connectedClients ip).toNat < 65535 := by
        have := openCount_le h.1 ip
        rcases Nat.lt_or_eq_of_le this with hlt' | hfull
        . omega
        . have := hright hfull
          omega
      apply Counted.of_counters
      . intro host
        rw [openCount_append_tcp, ← h.1 host]
        by_cases hhost : host = ip
        . subst hhost
          simp only [Function.update_self, if_true]
          apply toNat_add_one _ hlt'
        . simp only [Function.update_of_ne hhost, if_neg hhost, Nat.add_zero]
      . intro host
        rw [openCount_append_tcp]
        have := h.2.1 host
        by_cases hhost : host = ip
        . subst hhost
          rw [if_pos rfl]
          omega
        . rw [if_neg hhost]
          omega
  . rw [shouldAccept_of_ge hmax hlt]
    constructor
    . intro _ hfull
      omega
    . intro _
      exact h

theorem counted_acceptTcpFailed (hmax : 0 < maxClients) (h : Counted maxClients s) (ip : Host)
    : Counted maxClients (s.acceptTcp maxClients ip false) ↔
        CountsRight maxClients s (.acceptTcpFailed ip) := by
  have hcount := h.1 ip
  unfold acceptTcp
  by_cases hlt : (s.connectedClients ip).toNat < maxClients
  . rw [shouldAccept_of_lt hmax hlt]
    simp only [Bool.false_eq_true, if_false]
    constructor
    . intro hafter
      have hip := hafter.1 ip
      simp only [Function.update_self] at hip
      exact absurd (hip.trans hcount.symm) (add_one_ne _)
    . intro hright
      unfold CountsRight at hright
      omega
  . rw [shouldAccept_of_ge hmax hlt]
    constructor
    . intro _
      unfold CountsRight
      omega
    . intro _
      exact h

theorem counted_acceptUnix (h : Counted maxClients s) : Counted maxClients s.acceptUnix := by
  have hopen : ∀ host, s.acceptUnix.openCount host = s.openCount host := by
    intro host
    unfold acceptUnix openCount
    simp
  apply Counted.of_counters
  . intro host
    rw [hopen]
    exact h.1 host
  . intro host
    rw [hopen]
    exact h.2.1 host

theorem counted_destroyTcp (hmax : 0 < maxClients) (h : Counted maxClients s) (host : Host) (found : Bool)
    : Counted maxClients (s.destroyClient maxClients (.tcp host) (if found then some host else none)) ↔
        CountsRight maxClients s (.destroyTcp host found) := by
  unfold destroyClient CountsRight removeClient
  by_cases hmem : Peer.tcp host ∈ s.peers
  . have hpos : 0 < s.openCount host := List.count_pos_iff.mpr hmem
    -- the name that the count is taken back from
    generalize hname : (if found = true then some host else none).getD unknownHost = name
    rw [if_pos hmem, if_pos (by omega), if_neg (by omega)]
    have hopen : ∀ other, openCount { s with
          connectedClients := Function.update s.connectedClients name (s.connectedClients name - 1)
          peers := s.peers.erase (.tcp host) } other = s.openCount other - if other = host then 1 else 0 := by
      intro other
      unfold openCount
      rw [List.count_erase]
      by_cases hother : other = host
      . subst hother
        simp
      . simp [hother, Ne.symm hother]
    have hiff : (Peer.tcp host ∈ s.peers → found = true ∨ host = unknownHost) ↔ name = host := by
      cases found with
      | true => simpa using hname.symm
      | false =>
        simp only [Bool.false_eq_true, if_false, Option.getD_none] at hname
        rw [← hname]
        simp [hmem, eq_comm]
    apply Iff.trans _ hiff.symm
    constructor
    . intro hafter
      by_contra hne
      have hother := hafter.1 name
      rw [hopen] at hother
      simp only [Function.update_self, if_neg hne, Nat.sub_zero] at hother
      exact absurd (hother.trans (h.1 name).symm) (sub_one_ne _)
    . rintro rfl
      apply Counted.of_counters
      . intro other
        rw [hopen, ← h.1 other]
        by_cases hother : other = name
        . subst hother
          simp only [Function.update_self, if_true]
          apply toNat_sub_one
          rw [h.1]
          exact hpos
        . simp only [Function.update_of_ne hother, if_neg hother, Nat.sub_zero]
      . intro other
        rw [hopen]
        have := h.2.1 other
        omega
  . rw [if_neg hmem]
    simp [hmem, h]

theorem counted_destroyUnix (hmax : 0 < maxClients) (h : Counted maxClients s) (peerName : Option Host)
    : Counted maxClients (s.destroyClient maxClients .unix peerName) ↔
        CountsRight maxClients s (.destroyUnix peerName) := by
  unfold destroyClient CountsRight removeClient
  by_cases hmem : Peer.unix ∈ s.peers
  . rw [if_pos hmem, if_pos (by omega), if_neg (by omega)]
    simp only [hmem, not_true_eq_false, iff_false]
    intro hafter
    have hname := hafter.1 (peerName.getD unknownHost)
    unfold openCount at hname
    rw [List.count_erase_of_ne (by simp)] at hname
    simp only [Function.update_self] at hname
    exact absurd (hname.trans (h.1 _).symm) (sub_one_ne _)
  . rw [if_neg hmem]
    simp [hmem, h]

theorem counted_step (hmax : 0 < maxClients) (h : Counted maxClients s) (l : Label)
    : ∃ t, s.step maxClients l = some t ∧ (Counted maxClients t ↔ CountsRight maxClients s l) := by
  cases l with
  | acceptTcp ip => exact ⟨_, rfl, counted_acceptTcp hmax h ip⟩
  | acceptTcpFailed ip => exact ⟨_, rfl, counted_acceptTcpFailed hmax h ip⟩
  | acceptUnix => exact ⟨_, rfl, fun _ => trivial, fun _ => counted_acceptUnix h⟩
  | destroyTcp host found => exact ⟨_, rfl, counted_destroyTcp hmax h host found⟩
  | destroyUnix peerName => exact ⟨_, rfl, counted_destroyUnix hmax h peerName⟩

end Step

theorem counted_init (hmax : 0 < maxClients) : Counted maxClients init := by
  apply Counted.of_counters
  . intro host
    rfl
  . intro host
    exact Int.le_of_lt hmax

/--
The counters are right all along a run if and only if every step of it counts right.
-/
theorem counted_iff_countsRight (hmax : 0 < maxClients) (ls : List Label)
    : Run.Along (step maxClients) (Counted maxClients) init ls ↔
        Run.Meets (step maxClients) (CountsRight maxClients) init ls := by
  apply Run.Along.iff_meets (fun _ => True) (fun _ => True) trivial (counted_init hmax) (fun _ _ => trivial)
  intro s l _ h _
  obtain ⟨t, ht, hiff⟩ := counted_step hmax h l
  exact ⟨t, ht, trivial, hiff⟩

theorem counted_iff_countsRight_reconnect
    : 0 < (1 : Int) ∧ Run.Along (step 1) (Counted 1) init
        [.acceptTcp (.ofString "10.0.0.1"), .destroyTcp (.ofString "10.0.0.1") true, .acceptUnix] := by
  refine ⟨by decide, (counted_iff_countsRight (by decide) _).mpr ⟨?_, ?_⟩⟩
  . intro hfull
    cases hfull
  . intro t _
    refine ⟨fun _ => .inl rfl, ?_⟩
    intro u _
    exact ⟨trivial, fun _ _ => trivial⟩

theorem counted_fails_reset
    : ¬Run.Along (step 1) (Counted 1) init
        [.acceptTcp (.ofString "10.0.0.1"), .destroyTcp (.ofString "10.0.0.1") false] := by
  rintro ⟨-, t, ht, -, u, hu, hcounted⟩
  cases ht
  cases hu
  exact absurd (hcounted.1 (.ofString "10.0.0.1")) (by decide)

end Acceptor
end Kids
