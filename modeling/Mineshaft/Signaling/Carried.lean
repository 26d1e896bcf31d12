import Mineshaft.Signaling.Nodes

namespace Mineshaft.Signaling

open Mineshaft.Core Mineshaft.Lib Mineshaft.Lib.Transition
open Mineshaft.Server (WiredFor)

def writes (p : Pairing) (side : Side) (e : Event) : List (UInt64 × String) :=
  match e.label with
  | .write side' true =>
    if side' = side then signals p.connection (e.pre.peer side).forwarding.toList else []
  | .write _ false | .forward _ _ _ | .other _ _ | .receive _ | .server _ => []

def written (p : Pairing) (side : Side) : List Event → List (UInt64 × String) :=
  collect (writes p side)

def drops (p : Pairing) (side : Side) (e : Event) : List (UInt64 × String) :=
  match e.label with
  | .server l => if l.conn = p.conn side then dropped p.connection e.pre.server.reg l else []
  | .forward _ _ _ | .write _ _ | .other _ _ | .receive _ => []

theorem drops_server (p : Pairing) (side : Side) (w : Relay) (l : Server.Label) :
    drops p side ⟨w, .server l⟩ =
      if l.conn = p.conn side then dropped p.connection w.server.reg l else [] := rfl

def unrouted (p : Pairing) (side : Side) : List Event → List (UInt64 × String) :=
  collect (drops p side)

/-- The game of the host signals on the connection only in answer to a packet. -/
def Answers (p : Pairing) (e : Event) : Prop :=
  match e.label with
  | .forward .host signal _ =>
    signal.connectionId = p.connection → (e.pre.peer .host).packetsFor p.connection ≠ []
  | .forward .joiner _ _ | .write _ _ | .other _ _ | .receive _ | .server _ => True

instance (p : Pairing) : DecidablePred (Answers p)
  | ⟨w, .forward .host signal _⟩ => inferInstanceAs (Decidable
      (signal.connectionId = p.connection → (w.peer .host).packetsFor p.connection ≠ []))
  | ⟨_, .forward .joiner _ _⟩ | ⟨_, .write _ _⟩ | ⟨_, .other _ _⟩ | ⟨_, .receive _⟩
  | ⟨_, .server _⟩ => isTrue trivial

variable {p : Pairing} {w w' : Relay}

theorem node_wire {l : Label} (hl : ∀ k, l ≠ .server k) (hs : w.step p l = some w') (side : Side) :
    ∃ more, (w'.peer side).wire = (w.peer side).wire ++ more ∧
      signals p.connection more = writes p side ⟨w, l⟩ := by
  have hkeep : ∀ side' q, q.wire = (w.peer side').wire →
      ((w.setPeer side' q).peer side).wire = (w.peer side).wire ++ [] := by
    intro side' q hq
    by_cases he : side = side'
    · subst he; simp [hq]
    · simp [he]
  cases l with
  | server l => exact absurd rfl (hl l)
  | forward side' signal target =>
    simp only [Relay.step] at hs
    split at hs
    · split at hs <;> cases hs
      · exact ⟨[], hkeep side' _ rfl, rfl⟩
      · exact ⟨[], (List.append_nil _).symm, rfl⟩
    · cases hs
  | write side' ok =>
    simp only [Relay.step] at hs
    split at hs
    next msg hf =>
      cases hs
      cases ok with
      | false => exact ⟨[], hkeep side' _ rfl, rfl⟩
      | true =>
        by_cases he : side = side'
        · subst he
          exact ⟨[msg], by simp, by simp [writes, hf]⟩
        · exact ⟨[], by simp [he], by simp [writes, Ne.symm he]⟩
    · cases hs
  | other side' msg =>
    simp only [Relay.step] at hs
    split at hs <;> cases hs
    next hsig =>
      by_cases he : side = side'
      · subst he
        refine ⟨[msg], by simp, ?_⟩
        simp [signals, signalOf_of_not_isSignal (by simpa using hsig), writes]
      · exact ⟨[], by simp [he], rfl⟩
  | receive side' =>
    obtain ⟨msg, -, rfl⟩ := Option.map_eq_some_iff.mp hs
    exact ⟨[], hkeep side' _ rfl, rfl⟩

section Server

variable {l : Server.Label} {s' : Server.State} (h : Sound p w)

include h

theorem Sound.delivered_eq (hw : WiredFor p.IsPeer w.server.view) (hs : Server.step w.server l = some s')
    (side : Side) : relays p.connection (delivered w.server (p.conn side.other) l) =
      if l.conn = p.conn side then passed p.connection l else [] := by
  cases l with
  | sendTo a dest msg =>
    change relays _ (if _ then _ else _) = if a = p.conn side then relays p.connection [msg] else []
    cases hx : relayOf p.connection msg with
    | none =>
      have hnil : relays p.connection [msg] = [] := relays_eq_nil.mpr (by simpa using hx)
      split <;> simp [hnil]
    | some x =>
      obtain ⟨side', rfl, hst⟩ := h.addressed a _ x (Server.mem_outgoing_sendTo hs) hx
      have hcl : w.server.reg.clients.lookup dest = some ⟨p.conn side'.other⟩ :=
        hw.client _ _ ⟨side'.other, rfl⟩ hst
      by_cases he : side' = side
      · subst he
        obtain ⟨k, hk, -⟩ := Option.map_eq_some_iff.mp hst
        have ho := h.isOpen side'.other (by rw [hk]; rfl)
        simp [hcl, ho]
      · have hne : p.conn side' ≠ p.conn side := fun hc => he (conn_inj hc)
        have hne' : p.conn side'.other ≠ p.conn side.other := by
          intro hc
          cases side <;> cases side' <;> simp_all [Side.other]
        simp [hcl, hne, hne']
  | _ => simp [delivered, passed]

theorem Sound.dropped_cases (hset : ServerSetting p w.server l)
    (hs : Server.step w.server l = some s') {side : Side} (hl : l.conn = p.conn side)
    (hne : dropped p.connection w.server.reg l ≠ []) :
    side = .host ∧ w.server.reg.sessions.lookup p.connection = none ∧
      ∃ n data, l = .handle (p.conn .host) (.signal 0 p.connection n data) := by
  obtain ⟨t, n, data, he, hd⟩ := dropped_ne_nil hne
  rw [he] at hs
  obtain ⟨side', hc, rfl, -⟩ := h.signal_side h.marked_handling hs
  obtain rfl := conn_inj (hc.symm.trans hl)
  cases side' with
  | joiner =>
    rw [he] at hset
    obtain ⟨a, ha, -⟩ := hset hc (by rw [signalOf_signal]; rfl)
    have ht : p.target ≠ 0 := p.target_ne
    simp only [Server.Registry.routeDest, Pairing.joinTarget, Option.getD_some, ne_eq, ht,
      not_false_eq_true, ↓reduceIte, Option.mem_def.mp ha, reduceCtorEq] at hd
  | host =>
    refine ⟨rfl, ?_, n, data, by rw [← hc]; exact he⟩
    simpa [Server.Registry.routeDest, Pairing.joinTarget] using hd

end Server

/-- What the history of a run and its state have to do with each other. The
flow says that every signal for the connection that a node wrote was dropped,
is in the queue of the other node, or is on its way there, in this order. -/
structure Carried (p : Pairing) (h : List Event) (w : Relay) : Prop extends Sound p w where
  flow : ∀ side, written p side h = unrouted p side h ++
    relays p.connection (inbox w.server (p.conn side.other)) ++
    upstream p.connection w.server (p.conn side) (w.peer side).wire
  named : ∀ side, ∀ x ∈ written p side h, x.1 = p.networkId side
  taken : unrouted p .joiner h = []
  answered : (∀ e ∈ h, Answers p e) → unrouted p .host h = [] ∧
    (w.server.reg.sessions.lookup p.connection = none →
      ∀ msg ∈ w.pending p .host, signalOf p.connection msg = none)

theorem Carried.init (p : Pairing) : Carried p [] Relay.init where
  toSound := Sound.init p
  flow := by intro side; rfl
  named := by intro side x hx; cases hx
  taken := rfl
  answered := fun _ => ⟨rfl, fun _ msg hm => nomatch hm⟩

variable {h : List Event}

theorem signalOf_eq_some {id : UInt64} {msg : ClientMessage} {x : UInt64 × String}
    (hx : signalOf id msg = some x) : ∃ t, msg = .signal t id x.1 x.2 := by
  cases msg with
  | signal t i n data =>
    simp only [signalOf] at hx
    split at hx
    next hi =>
      cases hx
      exact ⟨t, by rw [hi]⟩
    · cases hx
  | _ => cases hx

theorem writes_named (hc : Sound p w) (l : Label) (side : Side) :
    ∀ x ∈ writes p side ⟨w, l⟩, x.1 = p.networkId side := by
  intro x hx
  unfold writes at hx
  split at hx
  next side' _ =>
    split at hx
    next he =>
      subst he
      obtain ⟨msg, hmem, hsig⟩ := List.mem_filterMap.mp hx
      have hp : msg ∈ w.pending p side' :=
        List.mem_append_right _ (List.mem_append_right _ hmem)
      obtain ⟨t, rfl⟩ := signalOf_eq_some hsig
      exact (hc.marked side' _ hp t x.1 x.2 rfl).2
    · cases hx
  all_goals cases hx

theorem Carried.node (hc : Carried p h w) {l : Label} (hl : ∀ k, l ≠ .server k)
    (hsound : Sound p w') (hs : w.step p l = some w') : Carried p (⟨w, l⟩ :: h) w' := by
  have hserver := step_server hl hs
  have hdrops : ∀ side, drops p side ⟨w, l⟩ = [] := by
    intro side
    cases l with
    | server l => exact absurd rfl (hl l)
    | _ => rfl
  have hunrouted : ∀ side, unrouted p side (⟨w, l⟩ :: h) = unrouted p side h := by
    intro side
    rw [unrouted, collect, hdrops, List.append_nil]
  refine ⟨hsound, ?_, ?_, ?_, ?_⟩
  · intro side
    obtain ⟨more, hwire, hsig⟩ := node_wire hl hs side
    rw [hunrouted, hserver, hwire, upstream_append, hsig, ← List.append_assoc, ← hc.flow side]
    rfl
  · intro side x hx
    obtain hx | hx := List.mem_append.mp hx
    · exact hc.named side x hx
    · exact writes_named hc.toSound l side x hx
  · rw [hunrouted]
    exact hc.taken
  · intro ha
    obtain ⟨hu, hn⟩ := hc.answered (fun e he => ha e (List.mem_cons_of_mem _ he))
    refine ⟨by rw [hunrouted]; exact hu, fun hnone msg hm => ?_⟩
    rw [hserver] at hnone
    have hold := hn hnone
    obtain hm | hm := List.mem_append.mp hm
    · rw [hserver] at hm
      exact hold msg (List.mem_append_left _ hm)
    · obtain hm | hm | ⟨signal, target, rfl, rfl⟩ := node_unsent hl hs hm
      · exact hold msg (List.mem_append_right _ hm)
      · exact signalOf_of_not_isSignal hm
      · -- without a session no packet has reached the game of the host yet
        refine signalOf_eq_none_of_ne (fun hi => ?_)
        have hpackets := ha _ List.mem_cons_self hi
        have hin := (hc.fresh hnone).2 .host
        have hsplit := List.take_append_drop (w.peer .host).received (inbox w.server (p.conn .host))
        rw [← hsplit, relays_append, List.append_eq_nil_iff] at hin
        exact hpackets (by rw [hc.packets .host, hin.1]; rfl)

theorem Carried.flow_server (hc : Carried p h w) (hw : WiredFor p.IsPeer w.server.view) {l : Server.Label}
    (hset : ServerSetting p w.server l) (hs : w.serverStep p l = some w') (side : Side) :
    written p side h = unrouted p side h ++ drops p side ⟨w, .server l⟩ ++
      relays p.connection (inbox w'.server (p.conn side.other)) ++
      upstream p.connection w'.server (p.conn side) (w'.peer side).wire := by
  obtain ⟨hstep, hpeer⟩ := serverStep_iff hs
  obtain ⟨wire, hwire, hown, hother⟩ := hpeer side
  rw [hc.flow side, inbox_step hstep, relays_append, hc.delivered_eq hw hstep, hwire]
  by_cases hl : l.conn = p.conn side
  · have hup := upstream_own hstep (hown hl) p.connection
    rw [hl] at hup
    rw [hup, drops_server, if_pos hl, if_pos hl]
    by_cases hd : dropped p.connection w.server.reg l = []
    · simp only [hd, List.append_nil, List.append_assoc]
    · obtain ⟨rfl, hnone, n, data, rfl⟩ := hc.dropped_cases hset hstep hl hd
      have hin : relays p.connection (inbox w.server (p.conn Side.host.other)) = [] :=
        (hc.fresh hnone).2 .joiner
      simp only [hin, passed, List.nil_append, List.append_nil, List.append_assoc]
  · have hup := upstream_frame hstep (Ne.symm hl) p.connection wire
    rw [hup, hother hl, drops_server, if_neg hl, if_neg hl, List.append_nil, List.append_nil]

theorem Carried.server (hc : Carried p h w) (hw : WiredFor p.IsPeer w.server.view) {l : Server.Label}
    (hset : ServerSetting p w.server l) (hs : w.serverStep p l = some w') :
    Carried p (⟨w, .server l⟩ :: h) w' := by
  have hstep := (serverStep_iff hs).1
  have hdropped : ∀ side, drops p side ⟨w, .server l⟩ ≠ [] →
      side = .host ∧ w.server.reg.sessions.lookup p.connection = none ∧
        ∃ n data, l = .handle (p.conn .host) (.signal 0 p.connection n data) := by
    intro side hne
    rw [drops_server] at hne
    split at hne
    next hl => exact hc.dropped_cases hset hstep hl hne
    · exact absurd rfl hne
  refine ⟨hc.toSound.server hw hset hs, ?_, ?_, ?_, ?_⟩
  · intro side
    rw [written, collect, writes, List.append_nil]
    exact hc.flow_server hw hset hs side
  · intro side x hx
    rw [written, collect, writes, List.append_nil] at hx
    exact hc.named side x hx
  · have hnil : drops p .joiner ⟨w, .server l⟩ = [] := by
      by_contra hne
      cases (hdropped .joiner hne).1
    rw [unrouted, collect, hnil, List.append_nil]
    exact hc.taken
  · intro ha
    obtain ⟨hu, hn⟩ := hc.answered (fun e he => ha e (List.mem_cons_of_mem _ he))
    constructor
    · have hnil : drops p .host ⟨w, .server l⟩ = [] := by
        by_contra hne
        obtain ⟨-, hnone, n, data, rfl⟩ := hdropped .host hne
        have := hn hnone _ (mem_pending_handling (Server.task_handle hstep))
        rw [signalOf_signal] at this
        cases this
      rw [unrouted, collect, hnil, List.append_nil]
      exact hu
    · intro hnone msg hm
      refine hn ?_ msg (mem_pending_server hs hm)
      by_contra ho
      exact hc.session_kept hw hset hstep ho hnone

theorem run_carried (hr : Run (Relay.machine p) h w) (hd : OwnAddrs p h)
    (hset : ∀ e ∈ h, Setting p e) : Carried p h w := by
  induction hr with
  | nil => exact Carried.init p
  | @cons h w w' l hr hs ih =>
    have hd' : OwnAddrs p h := fun e he =>
      hd e (((List.sublist_cons_self _ _).filterMap _).subset he)
    have hc := ih hd' (fun e he => hset e (List.mem_cons_of_mem _ he))
    have hw := Server.run_wiredFor (server_run hr) hd'
    have hl := hset ⟨w, l⟩ List.mem_cons_self
    cases l with
    | server l => exact hc.server hw hl hs
    | forward | write | other | receive =>
      exact hc.node (by simp) (hc.toSound.step hw hl hs) hs

end Mineshaft.Signaling
