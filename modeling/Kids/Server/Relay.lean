import Kids.Server.LogAnswers
import Kids.Server.Traffic

/-!
A network store of one kids and the server of another, on one connection. What the store counts as acknowledged the
server has accepted, whatever happens on the connection and in the server.
-/

namespace Kids

open Bytes

namespace Agent

variable {a a' : Agent}

theorem rep_log (h : a.log ae msg = some a') : a'.rep = a.rep := by
  rw [log_eq] at h
  unfold setWriteEvent at h
  split at h
  . cases h
    rfl
  . next a1 ha1 =>
    have hrep : a1.rep = a.rep := by
      split at ha1
      . cases ha1
      . split at ha1
        . cases ha1
          rfl
        . split at ha1
          . cases ha1
            rfl
          . cases ha1
    split at h
    . cases h
    . cases h
      exact hrep

theorem rep_sendRequest (h : a.sendRequest rs = some r) : r.agent.rep = a.rep := by
  unfold sendRequest at h
  split at h
  . cases h
  . dsimp only at h
    split at h
    . cases h
      rfl
    . split at h
      . cases h
        rfl
      . cases h
        rfl

end Agent

/--
The client `c` of a worker `w` of the server is the other end of the store's connection. `logged` is what the agent
was given, `wire` what its socket has taken, and `replied` how much of what the server wrote the agent has read.
-/
structure Relay (W : Nat) where
  store : NetworkStore
  logged : List Message
  wire : Bytes
  replied : Nat
  server : Server W

namespace Relay

variable {W : Nat}

def init (env : NetworkEnv) (a : Addr) : Relay W where
  store := (NetworkStore.init.open_ env).2
  logged := []
  wire := []
  replied := 0
  server := .init a

inductive Event (W : Nat)
  | addMessage (env : NetworkEnv) (msg : Message)
  | sendRequest (rs : List WriteResult)
  | readReply (n : Nat)
  | hangUp
  | server (l : Server.Label W)

def endpoint (s : Relay W) (w : Fin W) (c : ClientId) : Endpoint :=
  (s.server.thread w).endpoint c

-- what the next `read` of the agent returns if `n` bytes of what the server wrote have arrived
def nextReply (s : Relay W) (w : Fin W) (c : ClientId) (n : Nat) : Bytes :=
  ((s.endpoint w c).written.drop s.replied).take (min n iobufLen)

def step (queueLimit : Nat) (stringMatch : Bytes → Bytes → Bool) (w : Fin W) (c : ClientId) (s : Relay W)
    : Event W → Option (Relay W)
  | .addMessage env msg =>
    match s.store.doAddMessage env msg with
    | (false, store) => some { s with store := store }
    | (true, store) => some { s with store := store, logged := s.logged ++ [msg] }
  | .sendRequest rs =>
    match s.store.agent with
    | none => some s
    | some agent =>
      match agent.sendRequest rs with
      | none => none
      | some ⟨_, bytes, _⟩ => (s.store.sendRequest rs).map fun store => { s with store := store, wire := s.wire ++ bytes }
  | .readReply n =>
    -- with nothing to read there is no event
    if s.store.isOpen = false ∨ s.nextReply w c n = [] then
      some s
    else
      (s.store.readReply (.bytes (s.nextReply w c n))).map fun store =>
        { s with store := store, replied := s.replied + (s.nextReply w c n).length }
  | .hangUp => (s.store.readReply .failed).map fun store => { s with store := store }
  | .server l => (s.server.openedStep queueLimit stringMatch w c l).map fun server => { s with server := server }

/--
The server reads what the agent has sent, on a connection that is made once, and each `Log` finds room.
-/
def Legal (w : Fin W) (c : ClientId) (s : Relay W) : Event W → Prop
  | .addMessage env msg => msg.FitsBulk ∧ ∀ agent ∈ s.store.agent, agent.Room env.ae msg
  | .server l => (s.endpoint w c).received ++ l.reads w c <+: s.wire ∧
      (l.connects w c = true → (s.endpoint w c).received = [])
  | _ => True

def Step (queueLimit : Nat) (stringMatch : Bytes → Bytes → Bool) (w : Fin W) (c : ClientId) (s : Relay W) (e : Event W)
    (s' : Relay W) : Prop :=
  s.Legal w c e ∧ s.step queueLimit stringMatch w c e = some s'

/--
`k` of the replies have been read.
-/
structure Accounted (w : Fin W) (c : ClientId) (s : Relay W) (k : Nat) : Prop where
  received : (s.endpoint w c).received <+: s.wire
  wire : s.wire <+: frames s.logged
  inRange : ∀ m ∈ s.logged, m.FitsBulk
  defined : s.store.undefined = false
  le : k ≤ (s.endpoint w c).outputs.length
  acked : s.store.acked = ((s.endpoint w c).outputs.take k).filterMap Output.acknowledged
  rejected : s.store.rejected = ((s.endpoint w c).outputs.take k).filterMap Output.refused
  left : s.store.lost ++ s.store.outstanding = s.logged.drop k

-- the agent side of the connection, of which nothing has been read there
def link (s : Relay W) (agent : Agent) (closed : Bool) : Link :=
  ⟨agent, closed, s.logged, s.wire, 0, .init, false, []⟩

structure Connected (w : Fin W) (c : ClientId) (s : Relay W) (k : Nat) (agent : Agent) : Prop where
  link : (s.link agent false).Inv
  wire : s.store.wire = s.wire
  answered : s.store.answered = s.logged.take k
  lost : s.store.lost = []
  replied : s.replied ≤ (s.endpoint w c).written.length
  read : (s.endpoint w c).written.take s.replied =
    (((s.endpoint w c).outputs.take k).map Output.encoding).flatten ++ agent.rep.data
  cut : agent.rep.data = [] ∨ ∃ o, (s.endpoint w c).outputs[k]? = some o ∧ agent.rep.data <+: o.encoding ∧
    agent.rep.data ≠ o.encoding

structure Inv (queueLimit : Nat) (stringMatch : Bytes → Bytes → Bool) (w : Fin W) (c : ClientId) (a : Addr)
    (s : Relay W) (k : Nat) : Prop where
  reaches : ∃ ls, Run.Reaches (Server.Opened queueLimit stringMatch w c) (Server.init a) ls s.server
  accounted : s.Accounted w c k
  connected : ∀ agent, s.store.agent = some agent → s.Connected w c k agent

section

variable {w : Fin W} {c : ClientId} {s : Relay W} {k : Nat}

theorem Accounted.close (h : s.Accounted w c k) : Accounted w c { s with store := s.store.close } k := by
  unfold NetworkStore.close
  split
  . exact h
  . obtain ⟨hreceived, hwire, hrange, hdefined, hle, hacked, hrejected, hleft⟩ := h
    refine ⟨hreceived, hwire, hrange, hdefined, hle, hacked, hrejected, ?_⟩
    dsimp only
    rw [List.append_nil]
    exact hleft

theorem Connected.arrived (h : s.Connected w c k agent) (hk : k ≤ (s.endpoint w c).outputs.length)
    (hsaid : (s.endpoint w c).written <+: ((s.endpoint w c).outputs.map Output.encoding).flatten) (n : Nat)
    : ∃ j rest, agent.rep.data ++ s.nextReply w c n =
          ((((s.endpoint w c).outputs.drop k).take j).map Output.encoding).flatten ++ rest ∧
        (rest = [] ∨ ∃ o, (s.endpoint w c).outputs[k + j]? = some o ∧ rest <+: o.encoding ∧ rest ≠ o.encoding) ∧
        k + j ≤ (s.endpoint w c).outputs.length ∧
        s.replied + (s.nextReply w c n).length ≤ (s.endpoint w c).written.length ∧
        (s.endpoint w c).written.take (s.replied + (s.nextReply w c n).length) =
          (((s.endpoint w c).outputs.take (k + j)).map Output.encoding).flatten ++ rest := by
  have hread := h.read
  have hreplied := h.replied
  unfold nextReply
  generalize s.endpoint w c = p at *
  generalize hbuf : (p.written.drop s.replied).take (min n iobufLen) = buf
  have hlen : buf.length ≤ p.written.length - s.replied := by
    rw [← hbuf, List.length_take, List.length_drop]
    exact Nat.min_le_right _ _
  have htake : p.written.take (s.replied + buf.length) = p.written.take s.replied ++ buf := by
    rw [List.take_add, ← hbuf]
    congr 1
    rw [List.length_take]
    exact (List.take_eq_take_min ..).symm
  have harrived : agent.rep.data ++ buf <+: ((p.outputs.drop k).map Output.encoding).flatten := by
    have hbegin := (List.take_prefix (s.replied + buf.length) p.written).trans hsaid
    rw [htake, hread, List.append_assoc] at hbegin
    conv at hbegin => rhs; rw [← List.take_append_drop k p.outputs, List.map_append, List.flatten_append]
    exact (List.prefix_append_right_inj _).mp hbegin
  obtain ⟨j, rest, hdata, hrest, hj⟩ := exists_take_of_prefix harrived
  rw [List.length_map, List.length_drop] at hj
  rw [← List.map_take] at hdata
  refine ⟨j, rest, hdata, ?_, by omega, by omega, ?_⟩
  . obtain hnil | ⟨l, hl, hcut⟩ := hrest
    . exact .inl hnil
    . rw [List.getElem?_map, List.getElem?_drop] at hl
      obtain ⟨o, ho, rfl⟩ := Option.map_eq_some_iff.mp hl
      exact .inr ⟨o, ho, hcut⟩
  . rw [htake, hread, List.append_assoc, hdata, List.take_add, List.map_append, List.flatten_append,
      List.append_assoc]

-- what the agent keeps of a reply that is not there to its end
theorem kept_of_cut {os : List Output} {ms : List Message} {i : Nat} {rest : Bytes}
    (h : List.Forall₂ Output.AnswersLog os ms)
    (hcut : rest = [] ∨ ∃ o, os[i]? = some o ∧ rest <+: o.encoding ∧ rest ≠ o.encoding) : Kept rest := by
  obtain rfl | ⟨o, ho, hbegin, hne⟩ := hcut
  . exact .nil
  . obtain ⟨m, hm⟩ := exists_answersLog h o (List.mem_of_getElem? ho)
    rw [hm.encoding_eq] at hbegin hne
    exact hm.replyText.kept hbegin hne

namespace Inv

-- of an agent that is gone nothing is kept up
theorem close (h : s.Inv queueLimit stringMatch w c a k)
    : Inv queueLimit stringMatch w c a { s with store := s.store.close } k where
  reaches := h.reaches
  accounted := h.accounted.close
  connected agent hagent := by
    rw [NetworkStore.agent_close] at hagent
    cases hagent

theorem told (h : s.Inv queueLimit stringMatch w c a k)
    : List.Forall₂ Output.AnswersLog (s.endpoint w c).outputs (s.logged.take (s.endpoint w c).outputs.length) ∧
        (s.endpoint w c).outputs.length ≤ s.logged.length ∧
        frames (s.logged.take (s.endpoint w c).outputs.length) <+: s.wire := by
  obtain ⟨ls, hreaches⟩ := h.reaches
  obtain ⟨hlogs, hle, hthere, -⟩ :=
    Server.told_logs hreaches h.accounted.inRange (h.accounted.received.trans h.accounted.wire)
  exact ⟨hlogs, hle, hthere.trans h.accounted.received⟩

theorem addMessage (h : s.Inv queueLimit stringMatch w c a k) (hlegal : s.Legal w c (.addMessage env msg))
    : ∃ t, s.step queueLimit stringMatch w c (.addMessage env msg) = some t ∧ t.Inv queueLimit stringMatch w c a k := by
  obtain ⟨hfits, hroom⟩ := hlegal
  unfold step NetworkStore.doAddMessage
  dsimp only
  cases hagent : s.store.agent with
  | none => exact ⟨s, rfl, h⟩
  | some agent =>
    obtain ⟨hlink, hsame, hanswered, hlost, hreplied, hread, hcut⟩ := h.connected agent hagent
    obtain ⟨t, ht, hinv⟩ := hlink.log hfits fun _ => hroom agent hagent
    unfold Link.step Relay.link at ht
    dsimp only at ht
    rw [if_neg Bool.false_ne_true] at ht
    split at ht
    . cases ht
    . next agent' hlog =>
      cases ht
      have hroom := hroom agent hagent
      simp only [hlog, if_pos (Agent.setWriteEvent_isSome hroom.fd_pos hroom.armable)]
      obtain ⟨hreceived, hwire, hrange, hdefined, hle, hacked, hrejected, hleft⟩ := h.accounted
      have hk := Nat.le_trans hle h.told.2.1
      refine ⟨_, rfl, h.reaches, ⟨hreceived, ?_, ?_, hdefined, hle, hacked, hrejected, ?_⟩, ?_⟩
      . rw [frames_concat]
        exact hwire.trans (List.prefix_append _ _)
      . intro m hm
        obtain hm | hm := List.mem_append.mp hm
        . exact hrange m hm
        . rw [List.mem_singleton.mp hm]
          exact hfits
      . dsimp only
        rw [List.drop_append_of_le_length hk, ← hleft, List.append_assoc]
      . intro agent'' heq
        cases heq
        rw [← Agent.rep_log hlog] at hread hcut
        refine ⟨hinv, hsame, ?_, hlost, hreplied, hread, hcut⟩
        dsimp only
        rw [List.take_append_of_le_length hk]
        exact hanswered

theorem sendRequest (h : s.Inv queueLimit stringMatch w c a k) (rs : List WriteResult)
    : ∃ t, s.step queueLimit stringMatch w c (.sendRequest rs) = some t ∧ t.Inv queueLimit stringMatch w c a k := by
  unfold step NetworkStore.sendRequest
  dsimp only
  cases hagent : s.store.agent with
  | none => exact ⟨s, rfl, h⟩
  | some agent =>
    obtain ⟨hlink, hsame, hanswered, hlost, hreplied, hread, hcut⟩ := h.connected agent hagent
    have hsent : ∃ t, (s.link agent false).step (.sendRequest rs) = some t ∧ t.Inv := hlink.sendRequest
    obtain ⟨t, ht, hinv⟩ := hsent
    unfold Link.step Relay.link at ht
    dsimp only at ht
    rw [if_neg Bool.false_ne_true] at ht
    split at ht
    . cases ht
    . next agent' bytes disconnect hsend =>
      cases ht
      dsimp only
      rw [hsend]
      obtain ⟨hreceived, hwire, hrange, hdefined, hle, hacked, hrejected, hleft⟩ := h.accounted
      have hmore : s.wire ++ bytes <+: frames s.logged := by
        rw [← hinv.wire_unsent]
        exact List.prefix_append _ _
      have hsent : Accounted w c { s with
          store := { s.store with agent := some agent', wire := s.store.wire ++ bytes }
          wire := s.wire ++ bytes } k :=
        ⟨hreceived.trans (List.prefix_append _ _), hmore, hrange, hdefined, hle, hacked, hrejected, hleft⟩
      cases disconnect with
      | true => exact ⟨_, rfl, h.reaches, hsent.close, nofun⟩
      | false =>
        refine ⟨_, rfl, h.reaches, hsent, ?_⟩
        intro agent'' heq
        cases heq
        have hrep : agent'.rep = agent.rep := Agent.rep_sendRequest hsend
        rw [← hrep] at hread hcut
        exact ⟨hinv, congrArg (. ++ bytes) hsame, hanswered, hlost, hreplied, hread, hcut⟩

theorem hangUp (h : s.Inv queueLimit stringMatch w c a k)
    : ∃ t, s.step queueLimit stringMatch w c .hangUp = some t ∧ t.Inv queueLimit stringMatch w c a k := by
  unfold step NetworkStore.readReply
  dsimp only
  cases hagent : s.store.agent with
  | none => exact ⟨s, rfl, h⟩
  | some agent =>
    obtain ⟨hreceived, hwire, hrange, hdefined, hle, hacked, hrejected, hleft⟩ := h.accounted
    have hsame : Accounted w c { s with store := { s.store with agent := some agent } } k :=
      ⟨hreceived, hwire, hrange, hdefined, hle, hacked, hrejected, hleft⟩
    exact ⟨_, rfl, h.reaches, hsame.close, nofun⟩

theorem readReply (h : s.Inv queueLimit stringMatch w c a k)
    : ∃ t j, s.step queueLimit stringMatch w c (.readReply n) = some t ∧
        t.Inv queueLimit stringMatch w c a (k + j) := by
  unfold step
  dsimp only
  by_cases hskip : s.store.isOpen = false ∨ s.nextReply w c n = []
  . rw [if_pos hskip]
    exact ⟨s, 0, rfl, h⟩
  rw [if_neg hskip]
  obtain ⟨hopen, hbuf⟩ := not_or.mp hskip
  obtain ⟨agent, hagent⟩ := Option.isSome_iff_exists.mp (Bool.not_eq_false _ ▸ hopen)
  obtain ⟨hlink, hsame, hanswered, hlost, hreplied, hread, hcut⟩ := h.connected agent hagent
  obtain ⟨hreceived, hwire, hrange, hdefined, hle, hacked, hrejected, hleft⟩ := h.accounted
  obtain ⟨htold, hlogged, hthere⟩ := h.told
  obtain ⟨ls, hreaches⟩ := h.reaches
  have hsaid : (s.endpoint w c).written <+: ((s.endpoint w c).outputs.map Output.encoding).flatten :=
    ⟨_, (Server.streamed_of_reaches hreaches).stream⟩
  obtain ⟨j, rest, hdata, hrest, hj, hreplied', hread'⟩ := (h.connected agent hagent).arrived hle hsaid n
  have hbufLen : (s.nextReply w c n).length ≤ iobufLen := by
    unfold nextReply
    rw [List.length_take]
    omega
  generalize s.nextReply w c n = buf at hbuf hdata hread' hreplied' hbufLen ⊢
  have hanswers := exists_answersLog htold
  generalize hos : ((s.endpoint w c).outputs.drop k).take j = os at hdata
  have hmem : ∀ o ∈ os, ∃ m, o.AnswersLog m := by
    rw [← hos]
    exact fun o ho => hanswers o (List.mem_of_mem_drop (List.mem_of_mem_take ho))
  have hlines : agent.rep.data ++ buf = ((os.map Output.logLine).map (. ++ crlf)).flatten ++ rest := by
    rw [hdata, encodings_eq_lines hmem]
  have hsmall : (agent.rep.data ++ buf).length + 1 < uint32Size := by
    have hkept := (kept_of_cut htold hcut).length_le
    rw [List.length_append]
    simp only [iobufLen] at hkept hbufLen
    simp only [uint32Size]
    omega
  obtain ⟨rep, ⟨-, hreply, hrep⟩ | hreply⟩ :=
    Agent.readReply_lines hbuf (replyText_of_mem hmem) (kept_of_cut htold hrest) hlines hsmall
  . have hms : List.Forall₂ Output.AnswersLog os ((s.logged.drop k).take j) := by
      have hpart := List.forall₂_take j (List.forall₂_drop k htold)
      rwa [hos, List.drop_take, List.take_take, Nat.min_eq_left (by omega)] at hpart
    have hout : s.store.outstanding = (s.logged.drop k).take j ++ (s.logged.drop k).drop j := by
      rw [List.take_append_drop, ← hleft, hlost, List.nil_append]
    have htakes : s.logged.take k ++ (s.logged.drop k).take j = s.logged.take (k + j) := List.take_add.symm
    have hcomplete : (frames (s.store.answered ++ (s.logged.drop k).take j)).length ≤ s.store.wire.length := by
      rw [hanswered, htakes, hsame, ← Nat.min_eq_left hj, ← List.take_take]
      refine List.IsPrefix.length_le (.trans ?_ hthere)
      exact frames_take_prefix _ _
    obtain ⟨state, hresults⟩ := Output.AnswersLog.processResults hms
      (s := { s.store with agent := some { agent with rep := rep } }) hout hcomplete
    have htaken : (s.endpoint w c).outputs.take (k + j) = (s.endpoint w c).outputs.take k ++ os := by
      rw [List.take_add, hos]
    refine ⟨{ s with
        store := { s.store with
          agent := some { agent with rep := rep }
          state := state
          answered := s.store.answered ++ (s.logged.drop k).take j
          outstanding := (s.logged.drop k).drop j
          acked := s.store.acked ++ os.filterMap Output.acknowledged
          rejected := s.store.rejected ++ os.filterMap Output.refused }
        replied := s.replied + buf.length }, j, ?_, ⟨ls, hreaches⟩,
      ⟨hreceived, hwire, hrange, hdefined, hj, ?_, ?_, ?_⟩, ?_⟩
    . unfold NetworkStore.readReply
      rw [hagent]
      dsimp only
      rw [hreply]
      dsimp only
      rw [hresults]
      rfl
    . change _ = ((s.endpoint w c).outputs.take (k + j)).filterMap _
      rw [htaken, List.filterMap_append, ← hacked]
    . change _ = ((s.endpoint w c).outputs.take (k + j)).filterMap _
      rw [htaken, List.filterMap_append, ← hrejected]
    . dsimp only
      rw [hlost, List.nil_append, List.drop_drop]
    . intro agent' heq
      cases heq
      have hlink' : (s.link { agent with rep := rep } false).Inv :=
        ⟨hlink.wf, hlink.size_lt, hlink.wire_unsent, hlink.writable_iff, hlink.inRange, rfl, Nat.zero_le _,
          hlink.receives⟩
      refine ⟨hlink', hsame, ?_, hlost, hreplied', ?_, ?_⟩
      . dsimp only
        rw [hanswered, htakes]
      . rw [← hrep] at hread'
        exact hread'
      . rw [← hrep] at hrest
        exact hrest
  . have hsame : Accounted w c { s with
        store := { s.store with agent := some { agent with rep := rep } }, replied := s.replied + buf.length } k :=
      ⟨hreceived, hwire, hrange, hdefined, hle, hacked, hrejected, hleft⟩
    have hstore : s.store.readReply (.bytes buf) =
        some { s.store with agent := some { agent with rep := rep } }.close := by
      unfold NetworkStore.readReply
      rw [hagent]
      dsimp only
      rw [hreply]
      rfl
    rw [hstore]
    refine ⟨_, 0, rfl, ⟨ls, hreaches⟩, hsame.close, ?_⟩
    intro agent' heq
    cases heq

theorem server (h : s.Inv queueLimit stringMatch w c a k) (hlegal : s.Legal w c (.server l))
    (hstep : s.step queueLimit stringMatch w c (.server l) = some t) : t.Inv queueLimit stringMatch w c a k := by
  obtain ⟨hread, hfresh⟩ := hlegal
  obtain ⟨server, hserver, rfl⟩ := Option.map_eq_some_iff.mp hstep
  have hopened := Server.opened_of_openedStep hserver
  obtain ⟨ls, hreaches⟩ := h.reaches
  have hconnect : l.connects w c = true → Endpoint.Traffic (s.endpoint w c) (.init 0) [] := by
    intro hl
    have hnothing := hfresh hl
    have houtputs : (s.endpoint w c).outputs = [] := by
      have hempty : ((s.server.thread w).endpoint c).received <+: frames [] := List.prefix_nil.mpr hnothing
      have hlogs := Server.told_logs hreaches (List.forall_mem_nil _) hempty
      exact List.length_eq_zero_iff.mp (Nat.le_zero.mp hlogs.2.1)
    have hwritten : (s.endpoint w c).written = [] := by
      have hstream := (Server.streamed_of_reaches hreaches).stream
      unfold Endpoint.said at hstream
      change (s.endpoint w c).written ++ _ = (List.map _ (s.endpoint w c).outputs).flatten at hstream
      rw [houtputs] at hstream
      exact (List.append_eq_nil_iff.mp hstream).1
    refine ⟨?_, ?_, ?_⟩
    . rw [hnothing]
      rfl
    . rw [hwritten]
      exact List.prefix_rfl
    . rw [houtputs]
      exact List.prefix_rfl
  have htraffic : Endpoint.Traffic (s.endpoint w c) (endpoint { s with server := server } w c) (l.reads w c) :=
    Server.traffic_step hopened.1 hconnect
  obtain ⟨hreceived, hwire, hrange, hdefined, hle, hacked, hrejected, hleft⟩ := h.accounted
  have hconnected := h.connected
  have htake : (endpoint { s with server := server } w c).outputs.take k = (s.endpoint w c).outputs.take k := by
    obtain ⟨more, hmore⟩ := htraffic.outputs_prefix
    rw [← hmore, List.take_append_of_le_length hle]
  refine ⟨⟨_, hreaches.snoc hopened⟩, ⟨?_, hwire, hrange, hdefined, ?_, ?_, ?_, hleft⟩, ?_⟩
  . rw [htraffic.received_eq]
    exact hread
  . exact Nat.le_trans hle htraffic.outputs_prefix.length_le
  . rw [htake]
    exact hacked
  . rw [htake]
    exact hrejected
  . intro agent hagent
    obtain ⟨hlink, hsame, hanswered, hlost, hreplied, hreplies, hcut⟩ := hconnected agent hagent
    refine ⟨hlink, hsame, hanswered, hlost, Nat.le_trans hreplied htraffic.written_prefix.length_le, ?_, ?_⟩
    . obtain ⟨more, hmore⟩ := htraffic.written_prefix
      rw [htake, ← hmore, List.take_append_of_le_length hreplied]
      exact hreplies
    . obtain hnil | ⟨o, ho, hbegin, hne⟩ := hcut
      . exact .inl hnil
      . refine .inr ⟨o, ?_, hbegin, hne⟩
        obtain ⟨more, hmore⟩ := htraffic.outputs_prefix
        obtain ⟨hlt, -⟩ := List.getElem?_eq_some_iff.mp ho
        rw [← hmore, List.getElem?_append_left hlt]
        exact ho

theorem init (env : NetworkEnv) (a : Addr) : Inv queueLimit stringMatch w c a (init env a) 0 := by
  refine ⟨⟨[], .nil⟩, ?_, ?_⟩
  . unfold Relay.init NetworkStore.open_
    cases env.connect with
    | none => exact ⟨List.prefix_rfl, List.prefix_rfl, List.forall_mem_nil _, rfl, Nat.le_refl 0, rfl, rfl, rfl⟩
    | some fd => exact ⟨List.prefix_rfl, List.prefix_rfl, List.forall_mem_nil _, rfl, Nat.le_refl 0, rfl, rfl, rfl⟩
  . unfold Relay.init NetworkStore.open_
    cases env.connect with
    | none => exact nofun
    | some fd =>
      intro agent hagent
      dsimp only at hagent
      split at hagent
      . cases hagent
        exact ⟨Link.inv_init fd, rfl, rfl, rfl, Nat.le_refl 0, rfl, .inl rfl⟩
      . cases hagent

theorem step (h : s.Inv queueLimit stringMatch w c a k) (hstep : Step queueLimit stringMatch w c s e t)
    : ∃ k', t.Inv queueLimit stringMatch w c a k' := by
  obtain ⟨hlegal, hstep⟩ := hstep
  have hsame {k' : Nat} (hinv : ∃ u, s.step queueLimit stringMatch w c e = some u ∧ u.Inv queueLimit stringMatch w c a k')
      : ∃ k', t.Inv queueLimit stringMatch w c a k' := by
    obtain ⟨u, hu, hinv⟩ := hinv
    rw [hstep] at hu
    cases hu
    exact ⟨k', hinv⟩
  cases e with
  | addMessage env msg => exact hsame (h.addMessage hlegal)
  | sendRequest rs => exact hsame (h.sendRequest rs)
  | readReply n =>
    obtain ⟨u, j, hu, hinv⟩ := h.readReply (n := n)
    exact hsame ⟨u, hu, hinv⟩
  | hangUp => exact hsame h.hangUp
  | server l => exact ⟨k, h.server hlegal hstep⟩

theorem of_reaches (h : Run.Reaches (Step queueLimit stringMatch w c) (Relay.init env a : Relay W) es s)
    : ∃ k, s.Inv queueLimit stringMatch w c a k :=
  h.invariant (fun s => ∃ k, s.Inv queueLimit stringMatch w c a k) ⟨0, .init env a⟩ fun _ _ _ ⟨_, hs⟩ hstep =>
    hs.step hstep

end Inv

/--
The connection is open, and everything on it is sent, read, answered, written and read.
-/
structure Quiet (w : Fin W) (c : ClientId) (s : Relay W) : Prop where
  sent : ∃ agent, s.store.agent = some agent ∧ agent.req.size = 0
  received : (s.endpoint w c).received = s.wire
  done : ¬(s.server.thread w).task.About c
  small : (s.endpoint w c).request.req.size ≤ maxQuerybufLen
  written : (s.endpoint w c).reply.out.unsent = []
  replied : s.replied = (s.endpoint w c).written.length

theorem Inv.all_read (h : s.Inv queueLimit stringMatch w c a k) (hquiet : s.Quiet w c) : k = s.logged.length := by
  obtain ⟨⟨agent, hagent, hsize⟩, hreceived, hdone, hsmall, hwritten, hreplied⟩ := hquiet
  obtain ⟨hlink, -, -, -, -, hread, hcut⟩ := h.connected agent hagent
  obtain ⟨ls, hreaches⟩ := h.reaches
  have hframes : s.wire = frames s.logged := by
    have hunsent : agent.out.unsent = [] :=
      (agent.out.unsent_eq_nil_iff hlink.wf).mpr (List.length_eq_zero_iff.mp hsize)
    have hwire : s.wire ++ agent.out.unsent = frames s.logged := hlink.wire_unsent
    rw [← hwire, hunsent, List.append_nil]
  obtain ⟨hlogs, -, -, hall⟩ := Server.told_logs hreaches h.accounted.inRange (h.accounted.received.trans h.accounted.wire)
  have hlen : (s.endpoint w c).outputs.length = s.logged.length := hall hdone hsmall (hreceived.trans hframes)
  have hstream : (s.endpoint w c).written ++ (s.endpoint w c).reply.out.unsent =
      ((s.endpoint w c).outputs.map Output.encoding).flatten := (Server.streamed_of_reaches hreaches).stream
  have hle := h.accounted.le
  rw [hwritten, List.append_nil] at hstream
  rw [hreplied, List.take_length, hstream] at hread
  rw [← hlen]
  by_contra hne
  -- there is another reply, and it is in what the agent keeps
  have hk : k < (s.endpoint w c).outputs.length := by omega
  obtain ⟨m, hm⟩ := exists_answersLog hlogs _ (List.getElem_mem hk)
  have hrep : (s.endpoint w c).outputs[k].encoding <+: agent.rep.data := by
    conv at hread => lhs; rw [← List.take_append_drop k (s.endpoint w c).outputs, List.map_append, List.flatten_append]
    rw [← List.append_cancel_left hread, List.drop_eq_getElem_cons hk, List.map_cons, List.flatten_cons]
    exact List.prefix_append _ _
  obtain hnil | ⟨o, ho, hbegin, hcut⟩ := hcut
  . rw [hnil, List.prefix_nil, hm.encoding_eq] at hrep
    exact List.append_ne_nil_of_right_ne_nil _ (List.cons_ne_nil _ _) hrep
  . rw [List.getElem?_eq_getElem hk] at ho
    cases ho
    exact hcut (hbegin.eq_of_length_le hrep.length_le)

end

/--
In every run of the two, the store takes the replies in the order of its messages: the messages that it counts as
acknowledged or as rejected are those that the server has accepted or refused, and the rest of what it gave to its
agent waits for a reply or was lost with the connection. What is acknowledged is published by every worker for which
no notice is left, nothing waits on a quiet connection, and the store never reads outside of a buffer.
-/
theorem relay_accounts (h : Run.Reaches (Step queueLimit stringMatch w c) (init env a : Relay W) es s)
    : ∃ k ≤ (s.endpoint w c).outputs.length,
        List.Forall₂ Output.AnswersLog (s.endpoint w c).outputs (s.logged.take (s.endpoint w c).outputs.length) ∧
        s.store.acked = ((s.endpoint w c).outputs.take k).filterMap Output.acknowledged ∧
        s.store.rejected = ((s.endpoint w c).outputs.take k).filterMap Output.refused ∧
        s.store.lost ++ s.store.outstanding = s.logged.drop k ∧
        (∀ v, s.server.Settled v → s.store.acked.Sublist ((s.server.thread v).published.map Prod.fst)) ∧
        (s.Quiet w c → s.store.outstanding = []) ∧
        s.store.undefined = false ∧
        ∀ e, (∀ l, e ≠ .server l) → s.Legal w c e → ∃ t, s.step queueLimit stringMatch w c e = some t := by
  obtain ⟨k, hinv⟩ := Inv.of_reaches h
  obtain ⟨-, -, -, hdefined, hle, hacked, hrejected, hleft⟩ := hinv.accounted
  refine ⟨k, hle, hinv.told.1, hacked, hrejected, hleft, ?_, ?_, hdefined, ?_⟩
  . intro v hv
    obtain ⟨ls, hreaches⟩ := hinv.reaches
    have hsteps := hreaches.mono fun _ _ _ hstep => hstep.1
    have hsublist : s.store.acked.Sublist (s.endpoint w c).acknowledged := by
      rw [hacked]
      exact (List.take_sublist k _).filterMap _
    rw [(Server.Inv.of_reaches hsteps).published_of_settled hv]
    exact (hsublist.trans ((Server.Acknowledges.of_reaches hsteps w).acknowledged c)).trans (s.server.pushedBy_sublist w)
  . intro hquiet
    rw [hinv.all_read hquiet, List.drop_length] at hleft
    exact (List.append_eq_nil_iff.mp hleft).2
  . intro e hserver hlegal
    cases e with
    | addMessage env msg =>
      obtain ⟨t, ht, -⟩ := hinv.addMessage hlegal
      exact ⟨t, ht⟩
    | sendRequest rs =>
      obtain ⟨t, ht, -⟩ := hinv.sendRequest rs
      exact ⟨t, ht⟩
    | readReply n =>
      obtain ⟨t, j, ht, -⟩ := hinv.readReply (n := n)
      exact ⟨t, ht⟩
    | hangUp =>
      obtain ⟨t, ht, -⟩ := hinv.hangUp
      exact ⟨t, ht⟩
    | server l => exact absurd rfl (hserver l)

instance (agent : Agent) (ae : Bool) (msg : Message) : Decidable (agent.Room ae msg) :=
  decidable_of_iff (0 < agent.fd ∧ (agent.req.size = 0 → ae = true) ∧ agent.req.size + (frame msg).length < intBound)
    ⟨fun h => ⟨h.1, h.2.1, h.2.2⟩, fun h => ⟨h.fd_pos, h.armable, h.fits⟩⟩

instance (msg : Message) : Decidable msg.FitsBulk :=
  inferInstanceAs (Decidable (_ ∧ _))

instance (s : Relay W) (w : Fin W) (c : ClientId) (e : Event W) : Decidable (s.Legal w c e) :=
  match e with
  | .addMessage _ _ => inferInstanceAs (Decidable (_ ∧ _))
  | .server _ => inferInstanceAs (Decidable (_ ∧ _))
  | .sendRequest _ | .readReply _ | .hangUp => isTrue trivial

def legalStep (queueLimit : Nat) (stringMatch : Bytes → Bytes → Bool) (w : Fin W) (c : ClientId) (s : Relay W)
    (e : Event W) : Option (Relay W) :=
  if s.Legal w c e then s.step queueLimit stringMatch w c e else none

theorem step_of_legalStep (h : legalStep queueLimit stringMatch w c s e = some t)
    : Step queueLimit stringMatch w c s e t := by
  unfold legalStep at h
  split at h
  . next hlegal => exact ⟨hlegal, h⟩
  . cases h

/--
A message goes to the server, which publishes and acknowledges it.
-/
def relaying (thread : Fin 1) : List (Event 1) := [
  .addMessage ⟨0, none, true⟩ (.ofBytes 97 98),
  .sendRequest [.wrote 100],
  .server (.getNewConnection thread 1 5),
  .server (.readRequest thread 1 (.data (frame (.ofBytes 97 98))))
] ++ Server.publishing.tail.map .server ++ [
  .server (.sendReply thread 1 [.wrote 100]),
  .readReply 2,
  .readReply 100
]

theorem relay_accounts_relaying
    : ∃ s : Relay 1, Run.Reaches (Step 10 (fun _ _ => true) 0 1) (init ⟨0, some 3, true⟩ 0) (relaying 0) s ∧
        s.store.acked = [.ofBytes 97 98] ∧ s.store.outstanding = [] ∧
        (Message.ofBytes 97 98) ∈ (s.server.thread 0).published.map Prod.fst := by
  obtain ⟨s, hreach, hsettled, hacked, hsent, hreceived, hdone, hsmall, hwritten, hreplied⟩ :=
    Run.Reaches.exists_of_any (legalStep 10 (fun _ _ => true) 0 1) (init ⟨0, some 3, true⟩ 0) (relaying 0)
      (fun s => s.server.Settled 0 ∧ s.store.acked = [.ofBytes 97 98] ∧
        s.store.agent.map (fun agent => agent.req.size) = some 0 ∧ (s.endpoint 0 1).received = s.wire ∧
        (s.server.thread 0).task = .waiting ∧ (s.endpoint 0 1).request.req.size ≤ maxQuerybufLen ∧
        (s.endpoint 0 1).reply.out.unsent = [] ∧ s.replied = (s.endpoint 0 1).written.length)
      (fun _ _ _ => step_of_legalStep) (by decide +kernel)
  obtain ⟨k, -, -, -, -, -, hpublished, hquiet, -, -⟩ := relay_accounts hreach
  have hnot : ¬(s.server.thread 0).task.About 1 := by
    rw [hdone]
    exact Thread.not_about_waiting 1
  refine ⟨s, hreach, hacked, hquiet ⟨Option.map_eq_some_iff.mp hsent, hreceived, hnot, hsmall, hwritten, hreplied⟩, ?_⟩
  have hsublist := hpublished 0 hsettled
  rw [hacked] at hsublist
  exact List.singleton_sublist.mp hsublist

end Relay
end Kids
