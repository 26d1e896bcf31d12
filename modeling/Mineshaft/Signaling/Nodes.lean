import Mineshaft.Signaling.Route

namespace Mineshaft.Signaling

open Mineshaft.Core Mineshaft.Lib
open Mineshaft.Client (GameSignal MessagePacket forwardSignal_eq_some injectSignal)
open Mineshaft.Server (WiredFor handled)

def Peer.unsent (q : Peer) : List ClientMessage := q.wire ++ q.forwarding.toList

def Relay.pending (w : Relay) (p : Pairing) (side : Side) : List ClientMessage :=
  ((w.server.task (p.conn side)).bind handled).toList ++ (w.peer side).unsent

def Peer.packetsFor (q : Peer) (id : UInt64) : List MessagePacket :=
  (q.packets.filter (fun x => decide (x.1 = id))).map (fun x => x.2)

/-- The packet that a node is to build of a signal: the host sees the joiner as
the sender, and the game of the joiner sees the advertised server. -/
def Pairing.present (p : Pairing) : Side → UInt64 × String → MessagePacket
  | .joiner, x => ⟨p.target, p.game .joiner, x.2⟩
  | .host, x => ⟨x.1, p.game .host, x.2⟩

def Knows (p : Pairing) (q : Peer) : Prop :=
  q.joinConns.lookup p.connection = some (p.game .joiner, p.target)

structure Sound (p : Pairing) (w : Relay) : Prop extends Routed p w.server where
  marked : ∀ side, ∀ msg ∈ w.pending p side, Marked p side msg
  known : Knows p (w.peer .joiner) ∨
    (∀ msg ∈ w.pending p .joiner, signalOf p.connection msg = none) ∧
      w.server.reg.sessions.lookup p.connection = none
  received : ∀ side, (w.peer side).received ≤ (inbox w.server (p.conn side)).length
  packets : ∀ side, (w.peer side).packetsFor p.connection =
    (relays p.connection ((inbox w.server (p.conn side)).take (w.peer side).received)).map
      (p.present side)

theorem Sound.init (p : Pairing) : Sound p Relay.init where
  toRouted := Routed.init p
  marked := by intro side msg hm; cases hm
  known := Or.inr ⟨(fun msg hm => nomatch hm), rfl⟩
  received := by intro side; exact Nat.zero_le _
  packets := by intro side; rfl

variable {p : Pairing} {w w' : Relay}

theorem mem_pending_handling {side : Side} {msg : ClientMessage}
    (ht : w.server.task (p.conn side) = some (.handling msg)) : msg ∈ w.pending p side := by
  simp [Relay.pending, ht, handled]

theorem mem_pending_setPeer {side side' : Side} {q : Peer} {msg : ClientMessage}
    (hm : msg ∈ (w.setPeer side q).pending p side') :
    msg ∈ w.pending p side' ∨ side' = side ∧ msg ∈ q.unsent := by
  by_cases he : side' = side
  · subst he
    simp only [Relay.pending, setPeer_server, setPeer_peer, Function.update_self] at hm
    obtain hm | hm := List.mem_append.mp hm
    · exact Or.inl (List.mem_append_left _ hm)
    · exact Or.inr ⟨rfl, hm⟩
  · left
    simpa only [Relay.pending, setPeer_server, setPeer_peer, Function.update_of_ne he] using hm

theorem mem_pending_server {l : Server.Label} (hs : w.serverStep p l = some w') {side : Side}
    {msg : ClientMessage} (hm : msg ∈ w'.pending p side) : msg ∈ w.pending p side := by
  obtain ⟨hstep, hpeer⟩ := serverStep_iff hs
  obtain ⟨wire, he, hown, hother⟩ := hpeer side
  have hwire : ∀ m ∈ wire, m ∈ (w.peer side).wire := by
    intro m hmem
    by_cases hc : l.conn = p.conn side
    · obtain ⟨msg', -, hw⟩ | ⟨-, rfl⟩ := hown hc
      · rw [hw]
        exact List.mem_cons_of_mem _ hmem
      · exact hmem
    · rwa [hother hc] at hmem
  simp only [Relay.pending, List.mem_append, Option.mem_toList] at hm
  obtain hm | hm := hm
  · obtain ⟨t, ht, hh⟩ := Option.bind_eq_some_iff.mp hm
    have ht : w'.server.task (p.conn side) = some (.handling msg) := by
      cases t with
      | handling msg' => cases hh; exact ht
      | _ => cases hh
    obtain hold | rfl := Server.handling_step hstep ht
    · exact mem_pending_handling hold
    · obtain ⟨msg', hl, hw⟩ | ⟨hn, -⟩ := hown rfl
      · cases hl
        simp [Relay.pending, Peer.unsent, hw]
      · exact absurd rfl (hn msg)
  · simp only [he, Peer.unsent, List.mem_append] at hm
    simp only [Relay.pending, Peer.unsent, List.mem_append]
    obtain hm | hm := hm
    · exact Or.inr (Or.inl (hwire msg hm))
    · exact Or.inr (Or.inr hm)

theorem Sound.marked_handling (h : Sound p w) (side : Side) (msg : ClientMessage)
    (ht : w.server.task (p.conn side) = some (.handling msg)) : Marked p side msg :=
  h.marked side msg (mem_pending_handling ht)

theorem Sound.knows (h : Sound p w) (ho : w.server.reg.sessions.lookup p.connection ≠ none) :
    Knows p (w.peer .joiner) :=
  h.known.resolve_right (fun hn => ho hn.2)

theorem Sound.server (h : Sound p w) (hw : WiredFor p.IsPeer w.server.view) {l : Server.Label}
    (hset : ServerSetting p w.server l) (hs : w.serverStep p l = some w') : Sound p w' := by
  obtain ⟨hstep, hpeer⟩ := serverStep_iff hs
  have hr := h.toRouted.step hw hset hstep h.marked_handling
  have hsame : ∀ side, (w'.peer side).joinConns = (w.peer side).joinConns ∧
      (w'.peer side).received = (w.peer side).received ∧
      (w'.peer side).packets = (w.peer side).packets := by
    intro side
    obtain ⟨wire, he, -⟩ := hpeer side
    rw [he]
    exact ⟨rfl, rfl, rfl⟩
  refine ⟨hr, fun side msg hm => h.marked side msg (mem_pending_server hs hm), ?_, ?_, ?_⟩
  · obtain hk | ⟨hp, hn⟩ := h.known
    · left
      rw [Knows, (hsame .joiner).1]
      exact hk
    · right
      refine ⟨fun msg hm => hp msg (mem_pending_server hs hm), ?_⟩
      rw [Option.eq_none_iff_forall_ne_some]
      intro q hq
      rcases (Server.effect_sessions (Server.step_effect hstep) p.connection q).mp hq with
        hrec | ⟨-, hold, -⟩
      · obtain ⟨⟨n, data, rfl⟩, -⟩ :=
          h.toRouted.recorded_paired hset hstep h.marked_handling hrec
        have hnone := hp _ (mem_pending_handling (Server.task_handle hstep))
        rw [signalOf_signal] at hnone
        cases hnone
      · rw [show w.server.view.reg.sessions.lookup p.connection = none from hn] at hold
        cases hold
  · intro side
    rw [inbox_step hstep, List.length_append, (hsame side).2.1]
    exact Nat.le_add_right_of_le (h.received side)
  · intro side
    rw [Peer.packetsFor, (hsame side).2.2, (hsame side).2.1, inbox_step hstep,
      List.take_append_of_le_length (h.received side)]
    exact h.packets side

theorem Sound.setPeer (h : Sound p w) {side : Side} {q : Peer}
    (hm : ∀ msg ∈ q.unsent, msg ∈ (w.peer side).unsent ∨ Marked p side msg)
    (hk : side = .joiner → Knows p q ∨
      q.joinConns.lookup p.connection = (w.peer side).joinConns.lookup p.connection ∧
        ∀ msg ∈ q.unsent, msg ∈ (w.peer side).unsent ∨ signalOf p.connection msg = none)
    (hr : q.received ≤ (inbox w.server (p.conn side)).length)
    (hp : q.packetsFor p.connection =
      (relays p.connection ((inbox w.server (p.conn side)).take q.received)).map
        (p.present side)) : Sound p (w.setPeer side q) := by
  have hun : ∀ msg ∈ (w.peer side).unsent, msg ∈ w.pending p side :=
    fun msg hmem => List.mem_append_right _ hmem
  refine ⟨h.toRouted, ?_, ?_, ?_, ?_⟩
  · intro side' msg hmem
    obtain hold | ⟨rfl, hnew⟩ := mem_pending_setPeer hmem
    · exact h.marked side' msg hold
    · exact (hm msg hnew).elim (fun ho => h.marked side' msg (hun msg ho)) id
  · by_cases he : side = .joiner
    · subst he
      simp only [setPeer_peer, Function.update_self]
      obtain hk | ⟨hjoin, hsig⟩ := hk rfl
      · exact Or.inl hk
      · obtain hold | ⟨hpend, hn⟩ := h.known
        · left
          rw [Knows, hjoin]
          exact hold
        · refine Or.inr ⟨fun msg hmem => ?_, hn⟩
          obtain hmem | ⟨-, hmem⟩ := mem_pending_setPeer hmem
          · exact hpend msg hmem
          · exact (hsig msg hmem).elim (fun ho => hpend msg (hun msg ho)) id
    · simp only [setPeer_peer, Function.update_of_ne (Ne.symm he)]
      refine h.known.imp_right (fun ⟨hpend, hn⟩ => ⟨fun msg hmem => ?_, hn⟩)
      obtain hmem | ⟨hj, -⟩ := mem_pending_setPeer hmem
      · exact hpend msg hmem
      · exact absurd hj.symm he
  · intro side'
    by_cases he : side' = side
    · subst he
      simpa using hr
    · simpa [he] using h.received side'
  · intro side'
    by_cases he : side' = side
    · subst he
      simpa using hp
    · simpa [he] using h.packets side'

theorem signalOf_eq_none_of_ne {id t i n : UInt64} {data : String} (hi : i ≠ id) :
    signalOf id (.signal t i n data) = none := if_neg hi

theorem signalOf_of_not_isSignal {id : UInt64} {msg : ClientMessage} (h : isSignal msg = false) :
    signalOf id msg = none := by
  cases msg with
  | signal t i n data => cases h
  | _ => rfl

theorem Marked.of_not_isSignal {side : Side} {msg : ClientMessage} (h : isSignal msg = false) :
    Marked p side msg := by
  rintro t n data rfl
  cases h

theorem node_unsent {l : Label} (hl : ∀ k, l ≠ .server k) (hs : w.step p l = some w') {side : Side}
    {msg : ClientMessage} (hm : msg ∈ (w'.peer side).unsent) :
    msg ∈ (w.peer side).unsent ∨ isSignal msg = false ∨
      ∃ signal target, l = .forward side signal target ∧
        msg = .signal (target.getD 0) signal.connectionId (p.networkId side) signal.line := by
  have hframe : ∀ {side' q}, w' = w.setPeer side' q → side' ≠ side → msg ∈ (w.peer side).unsent := by
    rintro side' q rfl hne
    simpa [Ne.symm hne] using hm
  cases l with
  | server l => exact absurd rfl (hl l)
  | forward side' signal target =>
    simp only [Relay.step] at hs
    split at hs
    next hnone =>
      split at hs
      next joins msg' hf =>
        cases hs
        by_cases he : side' = side
        · subst he
          obtain ⟨rfl, -⟩ := forwardSignal_eq_some hf
          have hfwd : (w.peer side').forwarding = none := by simpa using hnone
          simp only [setPeer_peer, Function.update_self, Peer.unsent, hfwd, Option.toList_none,
            Option.toList_some, List.append_nil, List.mem_append, List.mem_singleton] at hm ⊢
          exact hm.imp_right (fun hm => Or.inr ⟨signal, target, rfl, hm⟩)
        · exact Or.inl (hframe rfl he)
      · cases hs
        exact Or.inl hm
    · cases hs
  | write side' ok =>
    simp only [Relay.step] at hs
    split at hs
    next msg' hf =>
      cases hs
      left
      by_cases he : side' = side
      · subst he
        cases ok with
        | true => simpa [Peer.unsent, hf] using hm
        | false => exact List.mem_append_left _ (by simpa [Peer.unsent] using hm)
      · exact hframe rfl he
    · cases hs
  | other side' msg' =>
    simp only [Relay.step] at hs
    split at hs
    · cases hs
    next hsig =>
      cases hs
      by_cases he : side' = side
      · subst he
        simp only [setPeer_peer, Function.update_self, Peer.unsent, List.mem_append,
          List.mem_singleton] at hm ⊢
        obtain (hm | rfl) | hm := hm
        · exact Or.inl (Or.inl hm)
        · exact Or.inr (Or.inl (by simpa using hsig))
        · exact Or.inl (Or.inr hm)
      · exact Or.inl (hframe rfl he)
  | receive side' =>
    obtain ⟨msg', -, rfl⟩ := Option.map_eq_some_iff.mp hs
    by_cases he : side' = side
    · subst he
      exact Or.inl (by simpa [Peer.unsent] using hm)
    · exact Or.inl (hframe rfl he)

theorem Sound.forward (h : Sound p w) {side : Side} {signal : GameSignal} {target : Option UInt64}
    (hset : ForwardSetting p side signal target)
    (hs : w.step p (.forward side signal target) = some w') : Sound p w' := by
  have hun : ∀ m ∈ (w'.peer side).unsent, m ∈ (w.peer side).unsent ∨ isSignal m = false ∨
      m = .signal (target.getD 0) signal.connectionId (p.networkId side) signal.line := by
    intro m hm
    refine (node_unsent (by simp) hs hm).imp_right (Or.imp_right ?_)
    rintro ⟨_, _, he, rfl⟩
    cases he
    rfl
  simp only [Relay.step] at hs
  split at hs
  · split at hs
    next joins msg hf =>
      cases hs
      simp only [setPeer_peer, Function.update_self] at hun
      obtain ⟨-, sender, hsender, hne, rfl⟩ := forwardSignal_eq_some hf
      by_cases hi : signal.connectionId = p.connection
      · obtain ⟨rfl, hgame⟩ := hset hi
        refine h.setPeer (fun m hm => (hun m hm).imp_right ?_) ?_ (h.received side) (h.packets side)
        · rintro (hm | rfl) t n data he
          · exact Marked.of_not_isSignal hm t n data he
          · simp only [ClientMessage.signal.injEq] at he
            exact ⟨he.1.symm, he.2.2.1.symm⟩
        · rintro rfl
          left
          obtain rfl := (hgame rfl sender hsender).resolve_left hne
          simp [Knows, Pairing.joinTarget, hi]
      · refine h.setPeer (fun m hm => (hun m hm).imp_right ?_) (fun _ => Or.inr ⟨?_, fun m hm =>
          (hun m hm).imp_right ?_⟩) (h.received side) (h.packets side)
        · rintro (hm | rfl) t n data he
          · exact Marked.of_not_isSignal hm t n data he
          · simp only [ClientMessage.signal.injEq] at he
            exact absurd he.2.1 hi
        · cases target with
          | none => rfl
          | some t =>
            change (AList.insert _ _ _).lookup p.connection = _
            rw [HashMap.lookup_insert_eq, if_neg (Ne.symm hi)]
        · rintro (hm | rfl)
          · exact signalOf_of_not_isSignal hm
          · exact signalOf_eq_none_of_ne hi
    · cases hs
      exact h
  · cases hs

theorem Sound.setPeer_plain (h : Sound p w) {l : Label} {side : Side} {q : Peer}
    (hl : ∀ k, l ≠ .server k) (hl' : ∀ signal target, l ≠ .forward side signal target)
    (hs : w.step p l = some (w.setPeer side q)) (hj : q.joinConns = (w.peer side).joinConns)
    (hr : q.received ≤ (inbox w.server (p.conn side)).length)
    (hp : q.packetsFor p.connection =
      (relays p.connection ((inbox w.server (p.conn side)).take q.received)).map
        (p.present side)) : Sound p (w.setPeer side q) := by
  have hun : ∀ m ∈ q.unsent, m ∈ (w.peer side).unsent ∨ isSignal m = false := by
    intro m hm
    refine (node_unsent hl hs (by simpa using hm)).imp_right (fun ho => ho.resolve_right ?_)
    rintro ⟨signal, target, he, -⟩
    exact hl' signal target he
  exact h.setPeer (fun m hm => (hun m hm).imp_right Marked.of_not_isSignal)
    (fun _ => Or.inr ⟨by rw [hj], fun m hm => (hun m hm).imp_right signalOf_of_not_isSignal⟩) hr hp

theorem Sound.write (h : Sound p w) {side : Side} {ok : Bool}
    (hs : w.step p (.write side ok) = some w') : Sound p w' := by
  have hs' := hs
  simp only [Relay.step] at hs
  split at hs <;> cases hs
  exact h.setPeer_plain (by simp) (by simp) hs' rfl (h.received side) (h.packets side)

theorem Sound.other (h : Sound p w) {side : Side} {msg : ClientMessage}
    (hs : w.step p (.other side msg) = some w') : Sound p w' := by
  have hs' := hs
  simp only [Relay.step] at hs
  split at hs <;> cases hs
  exact h.setPeer_plain (by simp) (by simp) hs' rfl (h.received side) (h.packets side)

theorem next_eq_some {c : Server.ConnId} {n : Nat} {msg : ServerMessage}
    (h : w.next c n = some msg) : (inbox w.server c)[n]? = some msg := by
  obtain ⟨k, hk, h⟩ := Option.bind_eq_some_iff.mp h
  split at h
  · simpa [inbox, Server.State.queue, hk] using h
  · cases h

theorem Sound.inject (h : Sound p w) {side : Side} {msg : ServerMessage}
    (hmem : msg ∈ inbox w.server (p.conn side)) :
    (((w.peer side).inject (p.localGameId side) msg).filter
        (fun x => decide (x.1 = p.connection))).map (fun x => x.2) =
      (relays p.connection [msg]).map (p.present side) := by
  cases msg with
  | signal i n data =>
    by_cases hi : i = p.connection
    · subst hi
      have hrel : relayOf p.connection (.signal p.connection n data) = some (n, data) := if_pos rfl
      cases side with
      | host =>
        simp [Peer.inject, injectSignal, Pairing.localGameId, relays, hrel, Pairing.present]
      | joiner =>
        have ho : w.server.reg.sessions.lookup p.connection ≠ none := by
          intro hn
          have := relays_eq_nil.mp ((h.fresh hn).2 .joiner) _ hmem
          rw [hrel] at this
          cases this
        have hk := h.knows ho
        rw [Knows] at hk
        simp [Peer.inject, injectSignal, Pairing.localGameId, relays, hrel, Pairing.present, hk]
    · have hrel : relayOf p.connection (.signal i n data) = none := if_neg hi
      cases hj : injectSignal (p.localGameId side) (w.peer side).joinConns i n data with
      | none => simp [Peer.inject, relays, hrel, hj]
      | some packet => simp [Peer.inject, relays, hrel, hj, hi]
  | _ => rfl

theorem Sound.receive (h : Sound p w) {side : Side}
    (hs : w.step p (.receive side) = some w') : Sound p w' := by
  obtain ⟨msg, hn, rfl⟩ := Option.map_eq_some_iff.mp hs
  have hget := next_eq_some hn
  obtain ⟨hlt, -⟩ := List.getElem?_eq_some_iff.mp hget
  refine h.setPeer_plain (by simp) (by simp) hs rfl hlt ?_
  have hp := h.packets side
  have hi := h.inject (List.mem_of_getElem? hget)
  rw [Peer.packetsFor] at hp ⊢
  simp only [List.filter_append, List.map_append, hp, hi, List.take_add_one, hget,
    Option.toList_some, relays_append]

theorem Sound.step (h : Sound p w) (hw : WiredFor p.IsPeer w.server.view) {l : Label}
    (hset : Setting p ⟨w, l⟩) (hs : w.step p l = some w') : Sound p w' := by
  cases l with
  | forward side signal target => exact h.forward hset hs
  | write side ok => exact h.write hs
  | other side msg => exact h.other hs
  | receive side => exact h.receive hs
  | server l => exact h.server hw hset hs

end Mineshaft.Signaling
