import Mineshaft.Server.Pairings

namespace Mineshaft.Server

open Mineshaft.Core Mineshaft.Lib Mineshaft.Lib.Transition

def Label.toHost : Label → Option (ConnId × UInt64 × UInt64)
  | .handle c (.signal targetSenderId connectionId _ _) =>
    if targetSenderId = 0 then none else some (c, targetSenderId, connectionId)
  | _ => none

def RoutesTo (c : ConnId) (id : UInt64) (a : SocketAddr) (e : Event) : Prop :=
  ∃ q ∈ e.label.toHost, q.1 = c ∧ q.2.2 = id ∧ e.pre.reg.hosts.lookup q.2.1 = some a

def RoutedTo (c : ConnId) (id : UInt64) (a : SocketAddr) (h : List Event) : Prop :=
  ∃ e ∈ h, RoutesTo c id a e

def Routes (c : ConnId) (id : UInt64) (joiner : SocketAddr) (e : Event) : Prop :=
  e.pre.addr c = some joiner ∧
    ∃ q ∈ e.label.toHost, q.1 = c ∧ q.2.2 = id ∧ (e.pre.reg.hosts.lookup q.2.1).isSome

/-- Neither the joiner nor a host that its signals for `id` were routed to is
cleaned up, and no other client sends a signal for `id` toward a host. -/
def LeavesRoute (c : ConnId) (id : UInt64) (joiner : SocketAddr) (h : List Event) (e : Event) : Prop :=
  (∀ a ∈ cleaned e.pre.view e.label, a ≠ joiner ∧ ¬ RoutedTo c id a h) ∧
    ∀ q ∈ e.label.toHost, q.2.2 = id → q.1 = c

def NotIssued (id : UInt64) (e : Event) : Prop :=
  ∀ _host ∈ e.label.sessionHost, e.pre.reg.nextSessionId ≠ id

def Issues (id : UInt64) (joiner host : SocketAddr) (e : Event) : Prop :=
  e.label.sessionHost = some host ∧ e.pre.addr e.label.conn = some joiner ∧
    e.pre.reg.nextSessionId = id

def KeepsEnds (joiner host : SocketAddr) (e : Event) : Prop :=
  ∀ a ∈ cleaned e.pre.view e.label, a ≠ joiner ∧ a ≠ host

/-- No signal for `id` is routed to a host. -/
def NotSignalled (id : UInt64) (e : Event) : Prop :=
  ∀ q ∈ e.label.toHost, q.2.2 = id → e.pre.reg.hosts.lookup q.2.1 = none

instance (c : ConnId) (id : UInt64) (a : SocketAddr) : DecidablePred (RoutesTo c id a) := fun e =>
  inferInstanceAs (Decidable (∃ q ∈ e.label.toHost,
    q.1 = c ∧ q.2.2 = id ∧ e.pre.reg.hosts.lookup q.2.1 = some a))

instance (c : ConnId) (id : UInt64) (a : SocketAddr) : DecidablePred (RoutedTo c id a) := fun h =>
  inferInstanceAs (Decidable (∃ e ∈ h, RoutesTo c id a e))

instance (c : ConnId) (id : UInt64) (a : SocketAddr) : DecidablePred (Routes c id a) := fun e =>
  inferInstanceAs (Decidable (e.pre.addr c = some a ∧ ∃ q ∈ e.label.toHost,
    q.1 = c ∧ q.2.2 = id ∧ (e.pre.reg.hosts.lookup q.2.1).isSome))

instance (c : ConnId) (id : UInt64) (a : SocketAddr) (h : List Event) :
    DecidablePred (LeavesRoute c id a h) := fun e =>
  inferInstanceAs (Decidable ((∀ a' ∈ cleaned e.pre.view e.label, a' ≠ a ∧ ¬ RoutedTo c id a' h) ∧
    ∀ q ∈ e.label.toHost, q.2.2 = id → q.1 = c))

instance (id : UInt64) : DecidablePred (NotIssued id) := fun e =>
  inferInstanceAs (Decidable (∀ _host ∈ e.label.sessionHost, e.pre.reg.nextSessionId ≠ id))

instance (id : UInt64) (a b : SocketAddr) : DecidablePred (Issues id a b) := fun e =>
  inferInstanceAs (Decidable (e.label.sessionHost = some b ∧ e.pre.addr e.label.conn = some a ∧
    e.pre.reg.nextSessionId = id))

instance (a b : SocketAddr) : DecidablePred (KeepsEnds a b) := fun e =>
  inferInstanceAs (Decidable (∀ a' ∈ cleaned e.pre.view e.label, a' ≠ a ∧ a' ≠ b))

instance (id : UInt64) : DecidablePred (NotSignalled id) := fun e =>
  inferInstanceAs (Decidable (∀ q ∈ e.label.toHost, q.2.2 = id →
    e.pre.reg.hosts.lookup q.2.1 = none))

theorem recorded_cases {v : View} {l : Label} {id : UInt64} {p : SocketAddr × SocketAddr}
    (h : recorded v l = some (id, p)) :
    (∃ c t st, l.toHost = some (c, t, id) ∧ v.stage c = some (p.1, st) ∧
      v.reg.hosts.lookup t = some p.2) ∨
    l.sessionHost = some p.2 ∧ v.reg.nextSessionId = id ∧ ∃ st, v.stage l.conn = some (p.1, st) := by
  unfold recorded at h
  split at h
  next c t i n d =>
    split at h
    · cases h
    next ht =>
      obtain ⟨q, hq, hm⟩ := Option.bind_eq_some_iff.mp h
      obtain ⟨host, hl, he⟩ := Option.map_eq_some_iff.mp hm
      simp only [Prod.mk.injEq] at he
      obtain ⟨rfl, rfl⟩ := he
      exact Or.inl ⟨c, t, q.2, by simp [Label.toHost, ht], hq, hl⟩
  next c host n =>
    obtain ⟨q, hq, he⟩ := Option.map_eq_some_iff.mp h
    simp only [Prod.mk.injEq] at he
    obtain ⟨he, rfl⟩ := he
    exact Or.inr ⟨rfl, he, q.2, hq⟩
  · cases h

theorem toHost_iff {l : Label} {c : ConnId} {t id : UInt64} : l.toHost = some (c, t, id) ↔
    t ≠ 0 ∧ ∃ n data, l = .handle c (.signal t id n data) := by
  constructor
  · intro h
    unfold Label.toHost at h
    split at h
    next c' t' i n data =>
      split at h
      · cases h
      next ht =>
        simp only [Option.some.injEq, Prod.mk.injEq] at h
        obtain ⟨rfl, rfl, rfl⟩ := h
        exact ⟨ht, n, data, rfl⟩
    · cases h
  · rintro ⟨ht, n, data, rfl⟩
    simp [Label.toHost, ht]

theorem Routes.recorded {s s' : State} {l : Label} {c : ConnId} {id : UInt64} {joiner : SocketAddr}
    (h : Routes c id joiner ⟨s, l⟩) (hs : step s l = some s') :
    ∃ host, s'.reg.sessions.lookup id = some (joiner, host) ∧ RoutesTo c id host ⟨s, l⟩ ∧
      s'.view.stage c = some (joiner, .inserted) := by
  obtain ⟨ha, ⟨c', t, id'⟩, hq, rfl, rfl, ho⟩ := h
  obtain ⟨host, hl⟩ := Option.isSome_iff_exists.mp ho
  dsimp only at ha hq hl
  obtain ⟨ht, n, data, rfl⟩ := toHost_iff.mp hq
  have he := step_effect hs
  refine ⟨host, ?_, ⟨(c', t, id'), hq, rfl, rfl, hl⟩, ?_⟩
  · rw [show s'.reg = s'.view.reg from rfl, effect_sessions he]
    left
    obtain ⟨k, hk, hka⟩ := Option.map_eq_some_iff.mp ha
    simp [Server.recorded, ht, hl, State.view, State.stage, hk, hka]
  · generalize hv : s.view = v at he
    generalize s'.view = v' at he
    cases he with
    | @handle _ a _ hc =>
      subst hv
      have := stage_addr hc
      rw [ha] at this
      cases this
      exact hc

/-- What a step leaves of the route of client `c` when nobody disturbs it. -/
theorem route_step {H : List Event} {s s' : State} {l : Label} {c : ConnId} {id : UInt64}
    {joiner host : SocketAddr} (hs : step s l = some s') (hin : (⟨s, l⟩ : Event) ∈ H)
    (hl : s.reg.sessions.lookup id = some (joiner, host)) (hrt : RoutedTo c id host H)
    (hst : s.view.stage c = some (joiner, .inserted))
    (hk : LeavesRoute c id joiner H ⟨s, l⟩) (hn : NotIssued id ⟨s, l⟩) :
    ∃ host', s'.reg.sessions.lookup id = some (joiner, host') ∧ RoutedTo c id host' H ∧
      s'.view.stage c = some (joiner, .inserted) := by
  have he := step_effect hs
  have hst' := inserted_kept he hst (fun ha => (hk.1 joiner ha).1 rfl)
  by_cases hrec : ∃ p, recorded s.view l = some (id, p)
  · obtain ⟨⟨j, host'⟩, hrec⟩ := hrec
    have hl' := (effect_sessions he id (j, host')).mpr (Or.inl hrec)
    obtain ⟨d, t, st, hq, hd, ho⟩ | ⟨hsh, hid, -⟩ := recorded_cases hrec
    · -- only the joiner itself may have sent the signal that was routed
      obtain rfl : d = c := hk.2 (d, t, id) hq rfl
      rw [hst] at hd
      cases hd
      exact ⟨host', hl', ⟨⟨s, l⟩, hin, (d, t, id), hq, rfl, rfl, ho⟩, hst'⟩
    · exact absurd hid (hn host' hsh)
  · push Not at hrec
    refine ⟨host, (effect_sessions he id (joiner, host)).mpr (Or.inr ⟨hrec, hl, ?_⟩), hrt, hst'⟩
    intro a ha
    refine ⟨Ne.symm (hk.1 a ha).1, ?_⟩
    rintro rfl
    exact (hk.1 _ ha).2 hrt

theorem route_kept {H h : List Event} {s : State} (hr : Run h s) (hsub : h ⊆ H) {c : ConnId}
    {id : UInt64} {joiner : SocketAddr}
    (hs : Since (fun e => LeavesRoute c id joiner H e ∧ NotIssued id e)
      (fun e _ => Routes c id joiner e) h) :
    ∃ host, s.reg.sessions.lookup id = some (joiner, host) ∧ RoutedTo c id host H ∧
      s.view.stage c = some (joiner, .inserted) := by
  induction hr with
  | nil => cases hs
  | @cons h s s' l hr hstep ih =>
    have hin : (⟨s, l⟩ : Event) ∈ H := hsub List.mem_cons_self
    cases hs with
    | here hp =>
      obtain ⟨host, hl, hrt, hst⟩ := hp.recorded hstep
      exact ⟨host, hl, ⟨_, hin, hrt⟩, hst⟩
    | keep hk hs =>
      obtain ⟨host, hl, hrt, hst⟩ := ih (fun e he => hsub (List.mem_cons_of_mem _ he)) hs
      exact route_step hstep hin hl hrt hst hk.1 hk.2

theorem issued_kept {h : List Event} {s : State} (hr : Run h s) {id : UInt64}
    {joiner host : SocketAddr}
    (hs : Since (fun e => KeepsEnds joiner host e ∧ NotSignalled id e ∧ NotIssued id e)
      (fun e _ => Issues id joiner host e) h) :
    s.reg.sessions.lookup id = some (joiner, host) := by
  induction hr with
  | nil => cases hs
  | @cons h s s' l hr hstep ih =>
    have he := step_effect hstep
    rw [show s'.reg = s'.view.reg from rfl, effect_sessions he]
    cases hs with
    | here hp =>
      left
      obtain ⟨hh, ha, hid⟩ := hp
      dsimp only at hh ha hid
      cases l with
      | openSession c host' n =>
        cases hh
        obtain ⟨k, hk, hka⟩ := Option.map_eq_some_iff.mp ha
        have hk' : s.conns c = some k := hk
        simp [recorded, State.view, State.stage, hk', hka, hid]
      | _ => cases hh
    | keep hk hs =>
      right
      refine ⟨?_, ih hs, fun a ha => ⟨Ne.symm (hk.1 a ha).1, Ne.symm (hk.1 a ha).2⟩⟩
      intro p hrec
      obtain ⟨c, t, st, hq, -, ho⟩ | ⟨hsh, hid, -⟩ := recorded_cases hrec
      · have hnone := hk.2.1 (c, t, id) hq rfl
        rw [show s.view.reg.hosts.lookup t = none from hnone] at ho
        cases ho
      · exact hk.2.2 _ hsh hid

theorem sendTo_client {s s' : State} {c x : ConnId} {addr : SocketAddr} {msg : ServerMessage}
    (hw : WiredFor (fun d => d = c) s.view) (hc : s.view.stage c = some (addr, .inserted))
    (hs : step s (.sendTo x addr msg) = some s') (b : ConnId) :
    s'.queue b = s.queue b ++ if b = c ∧ s.rxOpen b then [⟨x, msg⟩] else [] := by
  have hl : s.reg.clients.lookup addr = some ⟨c⟩ := hw.client c addr rfl hc
  rw [step_sendTo_queue hs, hl]
  simp only [Option.some.injEq, ClientHandle.mk.injEq, eq_comm (a := c)]

/-- Connect requests leave the return route of a signaling connection alone,
and signals leave the pairing of an issued session alone, as long as the
counter and the games do not draw the same id. Replies on the route then reach
the queue of the joiner and no other, when no unfinished connection shares its
address. -/
theorem return_route {h : List Event} {s : State} (hr : Run h s) :
    (∀ c id joiner,
      Since (LeavesRoute c id joiner h) (fun e _ => Routes c id joiner e) h →
      Since (NotIssued id) (fun e _ => Routes c id joiner e) h →
      (∃ host, s.reg.sessions.lookup id = some (joiner, host)) ∧
      (∀ x n data s', step s (.handle x (.signal 0 id n data)) = some s' →
        s'.task x = some (.sending (joiner, .signal id n data) [])) ∧
      ((∀ e ∈ h, FreshFor (fun d => d = c) e.pre.view e.label) →
        ∀ x msg s', step s (.sendTo x joiner msg) = some s' → ∀ b,
          s'.queue b = s.queue b ++ if b = c ∧ s.rxOpen b then [⟨x, msg⟩] else [])) ∧
    ∀ id joiner host,
      Since (KeepsEnds joiner host) (fun e _ => Issues id joiner host e) h →
      Since (fun e => NotSignalled id e ∧ NotIssued id e) (fun e _ => Issues id joiner host e) h →
      s.reg.sessions.lookup id = some (joiner, host) := by
  refine ⟨?_, fun id joiner host hk hn => issued_kept hr (hk.and hn)⟩
  intro c id joiner hk hn
  obtain ⟨host, hl, -, hst⟩ := route_kept hr (List.Subset.refl h) (hk.and hn)
  refine ⟨⟨host, hl⟩, ?_, fun hf x msg s' hs => sendTo_client (run_wiredFor hr hf) hst hs⟩
  intro x n data s' hs
  have ht := signal_task hs
  simpa [Registry.routeDest, hl] using ht

/-- A connect request of a third client takes an id that no game uses. -/
def undisturbed : List Label :=
  signalled ++ [.handle 2 (.signal 0 5 6 "CONNECTRESPONSE 5 z"),
    .sendTo 2 (.v4 1 2) (.signal 5 6 "CONNECTRESPONSE 5 z"), .read 2 (.connectRequest 7 6),
    .handle 2 (.connectRequest 7 6), .openSession 2 (.v4 1 1) 6]

theorem return_route_undisturbed :
    (∃ host, (replay machine undisturbed).2.reg.sessions.lookup 5 = some (.v4 1 2, host)) ∧
      (replay machine undisturbed).2.reg.sessions.lookup 1 = some (.v4 1 3, .v4 1 1) ∧
      ∀ x n data s', step (replay machine undisturbed).2 (.handle x (.signal 0 5 n data)) = some s' →
        s'.task x = some (.sending (.v4 1 2, .signal 5 n data) []) := by
  have hr := return_route (replay_run undisturbed)
  obtain ⟨hj, ht, -⟩ := hr.1 1 5 (.v4 1 2) (by decide +kernel) (by decide +kernel)
  exact ⟨hj, hr.2 1 (.v4 1 3) (.v4 1 1) (by decide +kernel) (by decide +kernel), ht⟩

/-- The game of client 1 draws the id that the counter issues next. -/
def collided : List Label :=
  [.accept 0 (.v4 1 1), .insert 0, .read 0 (.registerHost ⟨7, default⟩),
    .handle 0 (.registerHost ⟨7, default⟩), .sendTo 0 (.v4 1 1) (.registered 7),
    .accept 1 (.v4 1 2), .insert 1, .read 1 (.signal 7 1 9 "CONNECTREQUEST 1 x"),
    .handle 1 (.signal 7 1 9 "CONNECTREQUEST 1 x"),
    .sendTo 1 (.v4 1 1) (.signal 1 9 "CONNECTREQUEST 1 x"),
    .accept 2 (.v4 1 3), .insert 2, .read 2 (.connectRequest 7 6),
    .handle 2 (.connectRequest 7 6), .openSession 2 (.v4 1 1) 6]

/-- A connect request takes over the return route of a signaling connection
that nobody left and for which nobody else signalled. -/
theorem return_route_collided :
    ∃ h s, Run h s ∧ DistinctAddrs h ∧
      Since (LeavesRoute 1 1 (.v4 1 2) h) (fun e _ => Routes 1 1 (.v4 1 2) e) h ∧
      s.reg.sessions.lookup 1 = some (.v4 1 3, .v4 1 1) := by
  refine ⟨_, _, replay_run collided, replay_distinctAddrs collided (by decide), ?_⟩
  decide +kernel

end Mineshaft.Server
