import Mineshaft.Server.ReturnRoute
import Mineshaft.Signaling.Flow
import Mineshaft.Signaling.Relay

namespace Mineshaft.Signaling

open Mineshaft.Core
open Mineshaft.Client (GameSignal parseU64)
open Mineshaft.Server (ConnId WiredFor effect_sessions mem_outgoing_sendTo recorded recorded_cases
  stage_handle step_effect toHost_iff)

def Pairing.joinTarget (p : Pairing) : Side → Option UInt64
  | .joiner => some p.target
  | .host => none

def OwnsTarget (p : Pairing) (s : Server.State) : Prop :=
  ∃ a ∈ s.reg.hosts.lookup p.target, s.view.stage (p.conn .host) = some (a, .inserted)

/-- Both nodes stay connected, the host owns the target id whenever a signal of
the joiner is routed, no other client signals for the connection, and no
connect request is issued its id. -/
def ServerSetting (p : Pairing) (s : Server.State) : Server.Label → Prop
  | .read c msg => p.side c = none → signalOf p.connection msg = none
  | .handle c msg => c = p.conn .joiner → (signalOf p.connection msg).isSome → OwnsTarget p s
  | .leave c | .cleanup c | .closeRx c => p.side c = none
  | .openSession _ _ _ => s.reg.nextSessionId ≠ p.connection
  | .accept _ _ | .insert _ | .listHosts _ _ | .sendTo _ _ _ | .write _ => True

/-- On the connection, `join_target` names the host to the joiner only, and the
signals that the joiner takes up are those of its game. -/
def ForwardSetting (p : Pairing) (side : Side) (signal : GameSignal) (target : Option UInt64) : Prop :=
  signal.connectionId = p.connection → target = p.joinTarget side ∧
    (side = .joiner → ∀ g ∈ parseU64 signal.networkId,
      g = p.networkId .joiner ∨ g = p.game .joiner)

def Setting (p : Pairing) (e : Event) : Prop :=
  match e.label with
  | .forward side signal target => ForwardSetting p side signal target
  | .server l => ServerSetting p e.pre.server l
  | .write _ _ | .other _ _ | .receive _ => True

instance (p : Pairing) (s : Server.State) : Decidable (OwnsTarget p s) :=
  inferInstanceAs (Decidable (∃ a ∈ s.reg.hosts.lookup p.target,
    s.view.stage (p.conn .host) = some (a, .inserted)))

instance (p : Pairing) (s : Server.State) : DecidablePred (ServerSetting p s)
  | .read c msg =>
    inferInstanceAs (Decidable (p.side c = none → signalOf p.connection msg = none))
  | .handle c msg => inferInstanceAs (Decidable
      (c = p.conn .joiner → (signalOf p.connection msg).isSome → OwnsTarget p s))
  | .leave c | .cleanup c | .closeRx c => inferInstanceAs (Decidable (p.side c = none))
  | .openSession _ _ _ => inferInstanceAs (Decidable (s.reg.nextSessionId ≠ p.connection))
  | .accept _ _ | .insert _ | .listHosts _ _ | .sendTo _ _ _ | .write _ => isTrue trivial

instance (p : Pairing) (side : Side) (signal : GameSignal) (target : Option UInt64) :
    Decidable (ForwardSetting p side signal target) :=
  have : Decidable (∀ g ∈ parseU64 signal.networkId,
      g = p.networkId .joiner ∨ g = p.game .joiner) := Option.decidableForallMem _
  inferInstanceAs (Decidable (signal.connectionId = p.connection → target = p.joinTarget side ∧
    (side = .joiner → ∀ g ∈ parseU64 signal.networkId,
      g = p.networkId .joiner ∨ g = p.game .joiner)))

instance (p : Pairing) : DecidablePred (Setting p)
  | ⟨_, .forward side signal target⟩ =>
    inferInstanceAs (Decidable (ForwardSetting p side signal target))
  | ⟨w, .server l⟩ => inferInstanceAs (Decidable (ServerSetting p w.server l))
  | ⟨_, .write _ _⟩ | ⟨_, .other _ _⟩ | ⟨_, .receive _⟩ => isTrue trivial

def Marked (p : Pairing) (side : Side) (msg : ClientMessage) : Prop :=
  ∀ t n data, msg = .signal t p.connection n data →
    t = (p.joinTarget side).getD 0 ∧ n = p.networkId side

structure Routed (p : Pairing) (s : Server.State) : Prop where
  isOpen : ∀ side, (s.conns (p.conn side)).isSome → s.rxOpen (p.conn side) = true
  foreign : ∀ a msg, p.side a = none → s.task a = some (.handling msg) →
    signalOf p.connection msg = none
  addressed : ∀ a q x, q ∈ s.outgoing a → relayOf p.connection q.2 = some x →
    ∃ side, a = p.conn side ∧ s.view.stage (p.conn side.other) = some (q.1, .inserted)
  paired : ∀ q, s.reg.sessions.lookup p.connection = some q →
    s.view.stage (p.conn .joiner) = some (q.1, .inserted) ∧
      s.view.stage (p.conn .host) = some (q.2, .inserted)
  fresh : s.reg.sessions.lookup p.connection = none →
    (∀ a, relays p.connection ((s.outgoing a).map (fun q => q.2)) = []) ∧
      ∀ side, relays p.connection (inbox s (p.conn side)) = []

theorem Routed.init (p : Pairing) : Routed p Server.State.init where
  isOpen := by intro side h; cases h
  foreign := by intro a msg _ h; cases h
  addressed := by intro a q x h; cases h
  paired := by intro q h; cases h
  fresh := fun _ => ⟨fun _ => rfl, fun _ => rfl⟩

variable {p : Pairing} {s s' : Server.State} {l : Server.Label}

theorem signalOf_signal (id t n : UInt64) (data : String) :
    signalOf id (.signal t id n data) = some (n, data) := if_pos rfl

theorem relays_eq_nil {id : UInt64} {msgs : List ServerMessage} :
    relays id msgs = [] ↔ ∀ msg ∈ msgs, relayOf id msg = none :=
  List.filterMap_eq_nil_iff

theorem ServerSetting.inserted (hset : ServerSetting p s l) (hs : Server.step s l = some s')
    {side : Side} {a : SocketAddr} (ha : s.view.stage (p.conn side) = some (a, .inserted)) :
    s'.view.stage (p.conn side) = some (a, .inserted) := by
  refine (step_effect hs).inserted ha ?_
  rintro rfl
  exact side_eq_none.mp hset side rfl

theorem Routed.signal_side (h : Routed p s)
    (hm : ∀ side msg, s.task (p.conn side) = some (.handling msg) → Marked p side msg)
    {a : ConnId} {t n : UInt64} {data : String}
    (hs : Server.step s (.handle a (.signal t p.connection n data)) = some s') :
    ∃ side, a = p.conn side ∧ t = (p.joinTarget side).getD 0 ∧ n = p.networkId side := by
  have ht := Server.task_handle hs
  cases ha : p.side a with
  | none =>
    have hn := h.foreign a _ ha ht
    rw [signalOf_signal] at hn
    cases hn
  | some side =>
    obtain rfl := side_eq_some.mp ha
    exact ⟨side, rfl, hm side _ ht t n data rfl⟩

section Step

variable (h : Routed p s) (hw : WiredFor p.IsPeer s.view) (hset : ServerSetting p s l)
  (hs : Server.step s l = some s')
  (hm : ∀ side msg, s.task (p.conn side) = some (.handling msg) → Marked p side msg)

include h hset hs

theorem Routed.isOpen_step (side : Side) (hc : (s'.conns (p.conn side)).isSome) :
    s'.rxOpen (p.conn side) = true := by
  refine Server.rxOpen_kept hs ?_ (h.isOpen side) hc
  rintro rfl
  exact side_eq_none.mp hset side rfl

theorem Routed.foreign_step (a : ConnId) (msg : ClientMessage) (ha : p.side a = none)
    (ht : s'.task a = some (.handling msg)) : signalOf p.connection msg = none := by
  obtain ht | rfl := Server.handling_step hs ht
  · exact h.foreign a msg ha ht
  · exact hset ha

include hw in
theorem Routed.session_kept (ho : s.reg.sessions.lookup p.connection ≠ none) :
    s'.reg.sessions.lookup p.connection ≠ none := by
  obtain ⟨q, hq⟩ := Option.ne_none_iff_exists'.mp ho
  have he := step_effect hs
  by_cases hrec : ∃ r, recorded s.view l = some (p.connection, r)
  · obtain ⟨r, hrec⟩ := hrec
    have hq' := (effect_sessions he p.connection r).mpr (Or.inl hrec)
    exact Option.ne_none_iff_exists'.mpr ⟨r, hq'⟩
  · push Not at hrec
    have hq' := (effect_sessions he p.connection q).mpr (Or.inr ⟨hrec, hq, ?_⟩)
    · exact Option.ne_none_iff_exists'.mpr ⟨q, hq'⟩
    · intro a ha
      obtain ⟨hj, hh⟩ := h.paired q hq
      cases l with
      | cleanup d =>
        obtain ⟨k, hk, ht, -⟩ := Server.atTask_eq_some.mp hs
        have hd : s.view.stage d = some (k.addr, .inserted) :=
          Server.stage_of_task hk (by rw [ht]; rfl)
        simp only [Server.cleaned, hd, Option.map_some, Option.some.injEq] at ha
        subst ha
        have hne : ∀ side, p.conn side ≠ d := fun side => Ne.symm (side_eq_none.mp hset side)
        exact ⟨hw.addr_ne ⟨.joiner, rfl⟩ hj hd (by decide) (by decide) (hne .joiner),
          hw.addr_ne ⟨.host, rfl⟩ hh hd (by decide) (by decide) (hne .host)⟩
      | _ => cases ha

include hw in
theorem Routed.fresh_step (hn : s'.reg.sessions.lookup p.connection = none) :
    (∀ a, relays p.connection ((s'.outgoing a).map (fun q => q.2)) = []) ∧
      ∀ side, relays p.connection (inbox s' (p.conn side)) = [] := by
  have hold : s.reg.sessions.lookup p.connection = none := by
    by_contra ho
    exact h.session_kept hw hset hs ho hn
  obtain ⟨hout, hin⟩ := h.fresh hold
  constructor
  · intro a
    rw [relays_eq_nil, List.forall_mem_map]
    intro q hq
    rw [Option.eq_none_iff_forall_ne_some]
    intro x hx
    obtain hq | ⟨t, rfl, hd⟩ := outgoing_relay hs hq hx
    · have := relays_eq_nil.mp (hout a) q.2 (List.mem_map_of_mem hq)
      rw [this] at hx
      cases hx
    · by_cases ht : t = 0
      · simp [Server.Registry.routeDest, ht, hold] at hd
      · -- a signal toward a host records the session as it is routed
        obtain ⟨addr, hins⟩ := stage_handle hs
        simp only [Server.Registry.routeDest, ne_eq, ht, not_false_eq_true, ↓reduceIte] at hd
        have hl : s.view.reg.hosts.lookup t = some q.1 := hd
        have hrec : recorded s.view (.handle a (.signal t p.connection x.1 x.2)) =
            some (p.connection, addr, q.1) := by
          simp [recorded, ht, hins, hl]
        have hq' := (effect_sessions (step_effect hs) _ _).mpr (Or.inl hrec)
        rw [show s'.view.reg.sessions.lookup p.connection = none from hn] at hq'
        cases hq'
  · intro side
    rw [inbox_step hs, relays_append, hin side, List.nil_append]
    cases l with
    | sendTo a dest msg =>
      have hmem := mem_outgoing_sendTo hs
      have hnone := relays_eq_nil.mp (hout a) msg (List.mem_map_of_mem hmem)
      simp only [delivered]
      split
      · simp [relays, hnone]
      · rfl
    | _ => rfl

include hm

theorem Routed.routeDest_other {a : ConnId} {t n : UInt64} {data : String} {dest : SocketAddr}
    (hl : l = .handle a (.signal t p.connection n data))
    (hd : s.reg.routeDest t p.connection = some dest) :
    ∃ side, a = p.conn side ∧ s.view.stage (p.conn side.other) = some (dest, .inserted) := by
  subst hl
  obtain ⟨side, rfl, rfl, -⟩ := h.signal_side hm hs
  refine ⟨side, rfl, ?_⟩
  cases side with
  | joiner =>
    obtain ⟨host, hhost, hst⟩ := hset rfl (by rw [signalOf_signal]; rfl)
    have ht : p.target ≠ 0 := p.target_ne
    simp only [Server.Registry.routeDest, Pairing.joinTarget, Option.getD_some, ne_eq, ht,
      not_false_eq_true, ↓reduceIte, Option.mem_def.mp hhost, Option.some.injEq] at hd
    subst hd
    exact hst
  | host =>
    simp only [Server.Registry.routeDest, Pairing.joinTarget, Option.getD_none, ne_eq,
      not_true_eq_false, ↓reduceIte] at hd
    obtain ⟨q, hq, rfl⟩ := Option.map_eq_some_iff.mp hd
    exact (h.paired q hq).1

theorem Routed.addressed_step (a : ConnId) (q : SocketAddr × ServerMessage) (x : UInt64 × String)
    (hq : q ∈ s'.outgoing a) (hx : relayOf p.connection q.2 = some x) :
    ∃ side, a = p.conn side ∧ s'.view.stage (p.conn side.other) = some (q.1, .inserted) := by
  obtain hq | ⟨t, hl, hd⟩ := outgoing_relay hs hq hx
  · obtain ⟨side, ha, hst⟩ := h.addressed a q x hq hx
    exact ⟨side, ha, hset.inserted hs hst⟩
  · obtain ⟨side, ha, hst⟩ := h.routeDest_other hset hs hm hl hd
    exact ⟨side, ha, hset.inserted hs hst⟩

theorem Routed.recorded_paired {q : SocketAddr × SocketAddr}
    (hrec : recorded s.view l = some (p.connection, q)) :
    (∃ n data, l = .handle (p.conn .joiner) (.signal p.target p.connection n data)) ∧
      s.view.stage (p.conn .joiner) = some (q.1, .inserted) ∧
      s.view.stage (p.conn .host) = some (q.2, .inserted) := by
  obtain ⟨c, t, st, hq, hst, ho⟩ | ⟨hsh, hid, -⟩ := recorded_cases hrec
  · obtain ⟨ht, n, data, rfl⟩ := toHost_iff.mp hq
    have hd : s.reg.routeDest t p.connection = some q.2 := by
      simp only [Server.Registry.routeDest, ht, ne_eq, not_false_eq_true, ↓reduceIte]
      exact ho
    obtain ⟨side, rfl, rfl, -⟩ := h.signal_side hm hs
    obtain ⟨side', he, hother⟩ := h.routeDest_other hset hs hm rfl hd
    cases side with
    | host => exact absurd rfl ht
    | joiner =>
      cases side' with
      | host => exact absurd he p.conn_ne
      | joiner =>
        obtain ⟨addr, hins⟩ := stage_handle hs
        rw [hins] at hst
        simp only [Option.some.injEq, Prod.mk.injEq] at hst
        rw [hst.1] at hins
        exact ⟨⟨n, data, rfl⟩, hins, hother⟩
  · cases l with
    | openSession c host n => exact absurd hid hset
    | _ => cases hsh

theorem Routed.paired_step (q : SocketAddr × SocketAddr)
    (hq : s'.reg.sessions.lookup p.connection = some q) :
    s'.view.stage (p.conn .joiner) = some (q.1, .inserted) ∧
      s'.view.stage (p.conn .host) = some (q.2, .inserted) := by
  have hold : s.view.stage (p.conn .joiner) = some (q.1, .inserted) ∧
      s.view.stage (p.conn .host) = some (q.2, .inserted) := by
    obtain hrec | ⟨-, hq, -⟩ := (effect_sessions (step_effect hs) p.connection q).mp hq
    · exact (h.recorded_paired hset hs hm hrec).2
    · exact h.paired q hq
  exact ⟨hset.inserted hs hold.1, hset.inserted hs hold.2⟩

include hw in
theorem Routed.step : Routed p s' where
  isOpen := h.isOpen_step hset hs
  foreign := h.foreign_step hset hs
  addressed := h.addressed_step hset hs hm
  paired := h.paired_step hset hs hm
  fresh := h.fresh_step hw hset hs

end Step

end Mineshaft.Signaling
