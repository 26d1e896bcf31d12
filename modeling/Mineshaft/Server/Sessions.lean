import Mineshaft.Server.Consistency

namespace Mineshaft.Server

open Mineshaft.Core Mineshaft.Lib Mineshaft.Lib.Transition

/-- The session id and the pairing of joiner and host that a step records. -/
def recorded (v : View) : Label → Option (UInt64 × SocketAddr × SocketAddr)
  | .handle c (.signal targetSenderId connectionId _ _) =>
    if targetSenderId = 0 then none
    else (v.stage c).bind (fun p =>
      (v.reg.hosts.lookup targetSenderId).map (fun host => (connectionId, p.1, host)))
  | .openSession c host _ => (v.stage c).map (fun p => (v.reg.nextSessionId, p.1, host))
  | _ => none

def cleaned (v : View) : Label → Option SocketAddr
  | .cleanup c => (v.stage c).map (fun p => p.1)
  | _ => none

theorem inserted_kept {v v' : View} {l : Label} (he : Effect v l v') {c : ConnId} {a : SocketAddr}
    (hc : v.stage c = some (a, .inserted)) (ha : a ∉ cleaned v l) :
    v'.stage c = some (a, .inserted) := by
  refine he.inserted hc ?_
  rintro rfl
  exact ha (by simp [cleaned, hc])

theorem regAfter_sessions {reg : Registry} {addr : SocketAddr} {msg : ClientMessage}
    (h : ∀ t c n d, msg = .signal t c n d → t = 0) : (regAfter reg addr msg).sessions = reg.sessions := by
  cases msg with
  | registerHost | ping | listHosts | connectRequest => rfl
  | updateHost server => simp only [regAfter, Registry.updateHost]; split <;> rfl
  | unregisterHost id => simp only [regAfter, Registry.unregisterHost]; split <;> rfl
  | signal t c n d =>
    obtain rfl := h t c n d rfl
    rfl

/-- What a step does to the session map: it records one pairing, or it keeps
what does not involve the client it cleans up. -/
theorem effect_sessions {v v' : View} {l : Label} (he : Effect v l v') (id : UInt64)
    (p : SocketAddr × SocketAddr) :
    v'.reg.sessions.lookup id = some p ↔ recorded v l = some (id, p) ∨
      (∀ q, recorded v l ≠ some (id, q)) ∧ v.reg.sessions.lookup id = some p ∧
        ∀ a, cleaned v l = some a → p.1 ≠ a ∧ p.2 ≠ a := by
  cases he with
  | accept | insert | read | listHosts | sendTo | leave | write | closeRx =>
    simp [recorded, cleaned, Registry.insertClient]
  | cleanup hc =>
    rw [Registry.cleanup_sessions]
    simp [recorded, cleaned, hc]
  | @openSession c addr host n hc =>
    simp only [Registry.openSession, HashMap.lookup_insert_eq, recorded, cleaned, hc]
    by_cases hi : id = v.reg.nextSessionId
    · simp [hi, eq_comm]
    · simp [hi, Ne.symm hi]
  | @handle c addr msg hc =>
    by_cases hs : ∀ t k n d, msg = .signal t k n d → t = 0
    · rw [regAfter_sessions hs]
      have hr : recorded v (.handle c msg) = none := by
        cases msg with
        | signal t k n d => simp [recorded, hs t k n d rfl]
        | _ => rfl
      simp [hr, cleaned]
    · push Not at hs
      obtain ⟨t, k, n, d, rfl, ht⟩ := hs
      cases hl : v.reg.hosts.lookup t with
      | none => simp [regAfter, Registry.routeSignal, recorded, cleaned, ht, hl]
      | some host =>
        simp only [regAfter, Registry.routeSignal, ht, ne_eq, not_false_eq_true, ↓reduceIte, hl,
          HashMap.lookup_insert_eq, recorded, cleaned, hc]
        by_cases hi : id = k
        · simp [hi, eq_comm]
        · simp [hi, Ne.symm hi]

/-- Both ends of every session are connected. -/
def SessionsLive (reg : Registry) : Prop :=
  ∀ id joiner host, reg.sessions.lookup id = some (joiner, host) →
    joiner ∈ reg.clients ∧ host ∈ reg.clients

def Label.sessionHost : Label → Option SocketAddr
  | .openSession _ host _ => some host
  | _ => none

/-- A connect request that records its session still finds the host it looked
up under the earlier acquisition of the lock. -/
def HostPresent (e : Event) : Prop := ∀ host ∈ e.label.sessionHost, host ∈ e.pre.reg.clients

instance : DecidablePred HostPresent := fun e =>
  inferInstanceAs (Decidable (∀ host ∈ e.label.sessionHost, host ∈ e.pre.reg.clients))

theorem recorded_live {v : View} {l : Label} (hw : Wired v) (hc : Consistent v.reg)
    (hp : ∀ host ∈ l.sessionHost, host ∈ v.reg.clients) {v' : View}
    (he : Effect v l v') {id : UInt64} {joiner host : SocketAddr}
    (hr : recorded v l = some (id, joiner, host)) :
    joiner ∈ v.reg.clients ∧ host ∈ v.reg.clients := by
  have hjoin : ∀ {c a}, v.stage c = some (a, .inserted) → a ∈ v.reg.clients := by
    intro c a hs
    exact AList.lookup_isSome.mp (by simp [hw.client c a hs])
  cases he with
  | accept | insert | read | listHosts | sendTo | leave | write | closeRx | cleanup => cases hr
  | @openSession c a host' n hs =>
    simp only [recorded, hs, Option.map_some, Option.some.injEq, Prod.mk.injEq] at hr
    obtain ⟨-, rfl, rfl⟩ := hr
    exact ⟨hjoin hs, hp host' rfl⟩
  | @handle c a msg hs =>
    cases msg with
    | signal t k n d =>
      simp only [recorded, hs, Option.bind_some] at hr
      split at hr
      · cases hr
      · obtain ⟨host', hl, hq⟩ := Option.map_eq_some_iff.mp hr
        simp only [Prod.mk.injEq] at hq
        obtain ⟨-, rfl, rfl⟩ := hq
        exact ⟨hjoin hs, AList.lookup_isSome.mp (hc.owner t host' hl)⟩
    | _ => cases hr

theorem clients_kept {v v' : View} {l : Label} (he : Effect v l v') {a : SocketAddr}
    (ha : a ∈ v.reg.clients) (hc : cleaned v l ≠ some a) : a ∈ v'.reg.clients := by
  cases he with
  | accept | read | listHosts | sendTo | leave | write | closeRx | openSession => exact ha
  | insert => exact (AList.mem_insert _).mpr (Or.inr ha)
  | handle => rw [regAfter_clients]; exact ha
  | @cleanup c addr hs =>
    have hne : a ≠ addr := by
      rintro rfl
      exact hc (by simp [cleaned, hs])
    exact AList.mem_erase.mpr ⟨hne, ha⟩

theorem cleaned_clients {v v' : View} {l : Label} (he : Effect v l v') {id : UInt64}
    {p : SocketAddr × SocketAddr} (hr : recorded v l = some (id, p)) (a : SocketAddr) :
    cleaned v l ≠ some a := by
  cases he with
  | cleanup => cases hr
  | _ => simp [cleaned]

theorem SessionsLive.step {v v' : View} {l : Label} (h : SessionsLive v.reg) (hw : Wired v)
    (hc : Consistent v.reg) (hp : ∀ host ∈ l.sessionHost, host ∈ v.reg.clients)
    (he : Effect v l v') : SessionsLive v'.reg := by
  intro id joiner host hl
  obtain hr | ⟨-, hold, hcl⟩ := (effect_sessions he id (joiner, host)).mp hl
  · obtain ⟨hj, hh⟩ := recorded_live hw hc hp he hr
    exact ⟨clients_kept he hj (cleaned_clients he hr _), clients_kept he hh (cleaned_clients he hr _)⟩
  · obtain ⟨hj, hh⟩ := h id joiner host hold
    exact ⟨clients_kept he hj (fun ha => (hcl joiner ha).1 rfl),
      clients_kept he hh (fun ha => (hcl host ha).2 rfl)⟩

theorem openSession_dead {s s' : State} {c : ConnId} {host : SocketAddr} {n : UInt64}
    (hs : step s (.openSession c host n) = some s') (hl : SessionsLive s'.reg) :
    host ∈ s.reg.clients := by
  obtain ⟨k, -, -, he⟩ := atTask_eq_some.mp hs
  cases he
  exact (hl s.reg.nextSessionId k.addr host (AList.lookup_insert _)).2

/-- A run leaves no session with a dead end in any of its states exactly when
every connect request still finds its host when it records the session. -/
theorem sessions_live_iff {h : List Event} {s : State} (hr : Run h s) (hd : DistinctAddrs h) :
    (∀ t ∈ states h s, SessionsLive t.reg) ↔ ∀ e ∈ h, HostPresent e := by
  constructor
  · intro hl e he host hh
    obtain ⟨t, hs, ht⟩ := hr.post_mem he
    cases hlabel : e.label with
    | openSession c host' n =>
      rw [hlabel] at hs hh
      obtain rfl : host' = host := Option.some.inj hh
      exact openSession_dead hs (hl t ht)
    | _ => rw [hlabel] at hh; cases hh
  · intro hp t ht
    have hi : Wired t.view ∧ Consistent t.reg ∧ SessionsLive t.reg :=
      hr.invariant_states (fun e : Event => FreshAddr e.pre.view e.label ∧ HostPresent e)
        (fun s : State => Wired s.view ∧ Consistent s.reg ∧ SessionsLive s.reg)
        ⟨Wired.init, Consistent.init, fun _ _ _ hl => by cases hl⟩
        (fun _ _ _ ha hi hs => ⟨hi.1.step ha.1 (step_effect hs), hi.2.1.step hi.1 (step_effect hs),
          hi.2.2.step hi.1 hi.2.1 ha.2 (step_effect hs)⟩)
        (fun e he => ⟨hd e he, hp e he⟩) t ht
    exact hi.2.2

/-- A joiner whose host stays connected between the two acquisitions. -/
def joining : List Label :=
  [.accept 0 (.v4 1 1), .insert 0, .read 0 (.registerHost ⟨7, default⟩),
    .handle 0 (.registerHost ⟨7, default⟩), .sendTo 0 (.v4 1 1) (.registered 7),
    .accept 1 (.v4 1 2), .insert 1, .read 1 (.connectRequest 7 9),
    .handle 1 (.connectRequest 7 9), .openSession 1 (.v4 1 1) 9]

theorem sessions_live_joining :
    (replay machine joining).2.reg.sessions.lookup 1 = some (.v4 1 2, .v4 1 1) ∧
      ∀ t ∈ states (replay machine joining).1 (replay machine joining).2, SessionsLive t.reg := by
  refine ⟨by decide +kernel, ?_⟩
  rw [sessions_live_iff (replay_run joining) (replay_distinctAddrs joining (by decide))]
  decide +kernel

/-- The host leaves and is cleaned up between the two acquisitions. -/
def lateJoin : List Label :=
  [.accept 0 (.v4 1 1), .insert 0, .read 0 (.registerHost ⟨7, default⟩),
    .handle 0 (.registerHost ⟨7, default⟩), .sendTo 0 (.v4 1 1) (.registered 7),
    .accept 1 (.v4 1 2), .insert 1, .read 1 (.connectRequest 7 9),
    .handle 1 (.connectRequest 7 9), .leave 0, .cleanup 0, .openSession 1 (.v4 1 1) 9]

theorem sessions_dead_lateJoin :
    ∃ h s, Run h s ∧ DistinctAddrs h ∧
      s.reg.sessions.lookup 1 = some (.v4 1 2, .v4 1 1) ∧ SocketAddr.v4 1 1 ∉ s.reg.clients ∧
      ¬ SessionsLive s.reg := by
  have hs : (replay machine lateJoin).2.reg.sessions.lookup 1 = some (.v4 1 2, .v4 1 1) := by
    decide +kernel
  have hc : SocketAddr.v4 1 1 ∉ (replay machine lateJoin).2.reg.clients := by decide +kernel
  exact ⟨_, _, replay_run lateJoin, replay_distinctAddrs lateJoin (by decide), hs, hc,
    fun hl => hc (hl 1 _ _ hs).2⟩

end Mineshaft.Server
