import Mineshaft.Server.Tasks

namespace Mineshaft.Server

open Mineshaft.Core Mineshaft.Lib

inductive Stage
  | spawned
  | inserted
  | finished
  deriving DecidableEq

def Task.stage : Task → Stage
  | .spawned => .spawned
  | .finished => .finished
  | .reading | .handling _ | .connecting _ _ | .sending _ _ | .returned => .inserted

/-- The server as the registry lock sees it: the registry, and for every
connection its address and stage. -/
structure View where
  reg : Registry
  stage : ConnId → Option (SocketAddr × Stage)

namespace State

def stage (s : State) (c : ConnId) : Option (SocketAddr × Stage) :=
  (s.conns c).map (fun k => (k.addr, k.task.stage))

def view (s : State) : View := ⟨s.reg, s.stage⟩

@[simp] theorem modify_reg (s : State) (c : ConnId) (f : Conn → Conn) : (s.modify c f).reg = s.reg := rfl

@[simp] theorem setTask_reg (s : State) (c : ConnId) (t : Task) : (s.setTask c t).reg = s.reg := rfl

theorem modify_conns (s : State) (c d : ConnId) (f : Conn → Conn) :
    (s.modify c f).conns d = if d = c then (s.conns d).map f else s.conns d := rfl

theorem setTask_conns (s : State) (c d : ConnId) (t : Task) :
    (s.setTask c t).conns d =
      if d = c then (s.conns d).map (fun k => { k with task := t }) else s.conns d := rfl

theorem modify_stage (s : State) (c : ConnId) (f : Conn → Conn)
    (hf : ∀ k, (f k).addr = k.addr ∧ (f k).task = k.task) : (s.modify c f).stage = s.stage := by
  funext d
  simp only [stage, modify_conns]
  split
  · simp [Option.map_map, Function.comp_def, hf]
  · rfl

theorem setTask_stage {s : State} {c : ConnId} {k : Conn} (t : Task) (hk : s.conns c = some k) :
    (s.setTask c t).stage = Function.update s.stage c (some (k.addr, t.stage)) := by
  funext d
  by_cases h : d = c
  · subst h; simp [stage, setTask_conns, hk]
  · simp [stage, setTask_conns, h]

theorem setTask_stage_eq {s : State} {c : ConnId} {k : Conn} (t : Task)
    (hk : s.conns c = some k) (ht : t.stage = k.task.stage) : (s.setTask c t).stage = s.stage := by
  rw [setTask_stage t hk, ht]
  apply Function.update_eq_self_iff.mpr
  simp [stage, hk]

@[simp] theorem enqueue_reg (s : State) (d c : ConnId) (msg : ServerMessage) :
    (s.enqueue d c msg).reg = s.reg := rfl

theorem enqueue_stage (s : State) (d c : ConnId) (msg : ServerMessage) :
    (s.enqueue d c msg).stage = s.stage := by
  apply modify_stage
  intro k
  split <;> exact ⟨rfl, rfl⟩

@[simp] theorem sendTo_reg (s : State) (c : ConnId) (dest : SocketAddr) (msg : ServerMessage) :
    (s.sendTo c dest msg).reg = s.reg := by
  unfold sendTo
  split <;> simp

theorem sendTo_stage (s : State) (c : ConnId) (dest : SocketAddr) (msg : ServerMessage) :
    (s.sendTo c dest msg).stage = s.stage := by
  unfold sendTo
  split
  · exact enqueue_stage _ _ _ _
  · rfl

theorem sendTo_conns (s : State) (c a : ConnId) (dest : SocketAddr) (msg : ServerMessage) :
    (s.sendTo c dest msg).conns a = (s.conns a).map (fun k =>
      if s.reg.clients.lookup dest = some ⟨a⟩ ∧ k.rxOpen then
        { k with queue := k.queue ++ [⟨c, msg⟩] }
      else k) := by
  unfold sendTo
  cases hl : s.reg.clients.lookup dest with
  | none => simp
  | some client =>
    cases client with
    | mk tx =>
      by_cases ha : a = tx
      · subst ha; simp [enqueue, modify_conns]
      · simp [enqueue, modify_conns, ha, Ne.symm ha]

end State

theorem atTask_eq_some {s : State} {c : ConnId} {t : Task} {f : Conn → Option State} {s' : State} :
    atTask s c t f = some s' ↔ ∃ k, s.conns c = some k ∧ k.task = t ∧ f k = some s' := by
  unfold atTask
  cases s.conns c with
  | none => simp
  | some k => simp

theorem step_accept_iff {s s' : State} {c : ConnId} {addr : SocketAddr} :
    step s (.accept c addr) = some s' ↔ s.conns c = none ∧ s' = { s with
      conns := fun d => if d = c then some ⟨addr, .spawned, true, [], 0⟩ else s.conns d } := by
  simp only [step]
  cases s.conns c with
  | none => simp [eq_comm]
  | some k => simp

theorem step_sendTo_iff {s s' : State} {c : ConnId} {dest : SocketAddr} {msg : ServerMessage} :
    step s (.sendTo c dest msg) = some s' ↔ ∃ k rest, s.conns c = some k ∧
      k.task = .sending (dest, msg) rest ∧
      s' = (s.sendTo c dest msg).setTask c (afterSends rest) := by
  constructor
  · intro h
    simp only [step] at h
    split at h
    next k hk =>
      split at h
      next next rest ht =>
        split at h
        next he => exact ⟨k, rest, hk, by rw [ht, he], (Option.some.inj h).symm⟩
        · cases h
      · cases h
    · cases h
  · rintro ⟨k, rest, hk, ht, rfl⟩
    simp [step, hk, ht]

theorem step_write_iff {s s' : State} {c : ConnId} :
    step s (.write c) = some s' ↔ ∃ k, s.conns c = some k ∧ k.rxOpen ∧ k.taken < k.queue.length ∧
      s' = s.modify c (fun k => { k with taken := k.taken + 1 }) := by
  simp only [step]
  cases s.conns c with
  | none => simp
  | some k =>
    by_cases hw : k.rxOpen ∧ k.taken < k.queue.length
    · simp [hw, eq_comm (a := s')]
    · simp only [hw, ↓reduceIte, reduceCtorEq, false_iff]
      rintro ⟨_, hk, ho, ht, -⟩
      cases hk
      exact hw ⟨ho, ht⟩

theorem step_closeRx_iff {s s' : State} {c : ConnId} :
    step s (.closeRx c) = some s' ↔ ∃ k, s.conns c = some k ∧ k.rxOpen ∧
      s' = s.modify c (fun k => { k with rxOpen := false }) := by
  simp only [step]
  cases s.conns c with
  | none => simp
  | some k =>
    by_cases ho : k.rxOpen = true
    · simp [ho, eq_comm (a := s')]
    · simp [ho]

/-- The registry after a message is handled up to its first release. -/
def regAfter (reg : Registry) (addr : SocketAddr) : ClientMessage → Registry
  | .registerHost server => reg.registerHost addr server
  | .updateHost server => reg.updateHost addr server
  | .unregisterHost senderId => reg.unregisterHost addr senderId
  | .signal targetSenderId connectionId _ _ => reg.routeSignal addr targetSenderId connectionId
  | .ping | .listHosts | .connectRequest _ _ => reg

theorem handle_spec {reg : Registry} {addr : SocketAddr} {msg : ClientMessage} {r : Registry × Task}
    (h : handle reg addr msg = some r) : r.1 = regAfter reg addr msg ∧ r.2.stage = .inserted := by
  cases msg with
  | listHosts => cases h
  | ping | registerHost | updateHost | unregisterHost => cases h; exact ⟨rfl, rfl⟩
  | connectRequest t n =>
    simp only [handle] at h
    split at h <;> cases h <;> exact ⟨rfl, rfl⟩
  | signal t c n d =>
    cases h
    refine ⟨rfl, ?_⟩
    dsimp only
    split <;> rfl

/-- Every step of the server as the registry lock sees it. -/
inductive Effect : View → Label → View → Prop
  | accept {v : View} {c : ConnId} {addr : SocketAddr} : v.stage c = none →
      Effect v (.accept c addr) ⟨v.reg, Function.update v.stage c (some (addr, .spawned))⟩
  | insert {v : View} {c : ConnId} {addr : SocketAddr} : v.stage c = some (addr, .spawned) →
      Effect v (.insert c) ⟨v.reg.insertClient addr ⟨c⟩,
        Function.update v.stage c (some (addr, .inserted))⟩
  | handle {v : View} {c : ConnId} {addr : SocketAddr} {msg : ClientMessage} :
      v.stage c = some (addr, .inserted) →
      Effect v (.handle c msg) ⟨regAfter v.reg addr msg, v.stage⟩
  | openSession {v : View} {c : ConnId} {addr host : SocketAddr} {n : UInt64} :
      v.stage c = some (addr, .inserted) →
      Effect v (.openSession c host n) ⟨v.reg.openSession addr host, v.stage⟩
  | cleanup {v : View} {c : ConnId} {addr : SocketAddr} : v.stage c = some (addr, .inserted) →
      Effect v (.cleanup c) ⟨v.reg.cleanup addr,
        Function.update v.stage c (some (addr, .finished))⟩
  | read {v : View} {c : ConnId} {msg : ClientMessage} : Effect v (.read c msg) v
  | listHosts {v : View} {c : ConnId} {hosts : List AdvertisedServer} :
      Effect v (.listHosts c hosts) v
  | sendTo {v : View} {c : ConnId} {dest : SocketAddr} {msg : ServerMessage} :
      Effect v (.sendTo c dest msg) v
  | leave {v : View} {c : ConnId} : Effect v (.leave c) v
  | write {v : View} {c : ConnId} : Effect v (.write c) v
  | closeRx {v : View} {c : ConnId} : Effect v (.closeRx c) v

theorem Effect.inserted {v v' : View} {l : Label} (he : Effect v l v') {c : ConnId} {a : SocketAddr}
    (hc : v.stage c = some (a, .inserted)) (hl : l ≠ .cleanup c) :
    v'.stage c = some (a, .inserted) := by
  cases he with
  | handle | openSession | read | listHosts | sendTo | leave | write | closeRx => exact hc
  | @accept d _ hn =>
    have hcd : c ≠ d := by rintro rfl; simp [hn] at hc
    simpa [hcd] using hc
  | @insert d _ hd =>
    have hcd : c ≠ d := by rintro rfl; simp [hd] at hc
    simpa [hcd] using hc
  | @cleanup d _ hd =>
    have hcd : c ≠ d := by rintro rfl; exact hl rfl
    simpa [hcd] using hc

theorem view_setTask {s : State} {c : ConnId} {k : Conn} (reg : Registry) (t : Task)
    (hk : s.conns c = some k) (ht : t.stage = k.task.stage) :
    ({ s with reg := reg }.setTask c t).view = ⟨reg, s.stage⟩ := by
  have hs : (State.setTask { s with reg := reg } c t).stage = State.stage { s with reg := reg } :=
    State.setTask_stage_eq t hk ht
  simp only [State.view, State.setTask_reg, hs]
  rfl

theorem view_setTask_update {s : State} {c : ConnId} {k : Conn} (reg : Registry) (t : Task)
    (hk : s.conns c = some k) :
    ({ s with reg := reg }.setTask c t).view =
      ⟨reg, Function.update s.stage c (some (k.addr, t.stage))⟩ := by
  have hs : (State.setTask { s with reg := reg } c t).stage =
      Function.update (State.stage { s with reg := reg }) c (some (k.addr, t.stage)) :=
    State.setTask_stage t hk
  simp only [State.view, State.setTask_reg, hs]
  rfl

theorem stage_of_task {s : State} {c : ConnId} {k : Conn} {st : Stage}
    (hk : s.conns c = some k) (ht : k.task.stage = st) : s.view.stage c = some (k.addr, st) := by
  simp [State.view, State.stage, hk, ht]

theorem afterSends_stage (out : List (SocketAddr × ServerMessage)) :
    (afterSends out).stage = .inserted := by
  cases out <;> rfl

/-- The concrete steps refine the effects at the registry lock. -/
theorem step_effect {s s' : State} {l : Label} (h : step s l = some s') :
    Effect s.view l s'.view := by
  cases l with
  | accept c addr =>
    obtain ⟨hn, rfl⟩ := step_accept_iff.mp h
    have hs : s.view.stage c = none := by simp [State.view, State.stage, hn]
    convert Effect.accept hs using 1
    simp only [State.view, View.mk.injEq, true_and]
    funext d
    by_cases hd : d = c <;> simp [State.stage, hd, Task.stage]
  | insert c =>
    obtain ⟨k, hk, ht, hs⟩ := atTask_eq_some.mp h
    cases hs
    have hst : k.task.stage = .spawned := by rw [ht]; rfl
    rw [view_setTask_update _ _ hk]
    exact Effect.insert (stage_of_task hk hst)
  | read c msg =>
    obtain ⟨k, hk, ht, hs⟩ := atTask_eq_some.mp h
    cases hs
    have hv := view_setTask s.reg (.handling msg) hk (by rw [ht]; rfl)
    rw [hv]
    exact Effect.read
  | handle c msg =>
    obtain ⟨k, hk, ht, hs⟩ := atTask_eq_some.mp h
    obtain ⟨r, hr, hs'⟩ := Option.map_eq_some_iff.mp hs
    obtain ⟨h1, h2⟩ := handle_spec hr
    have hst : k.task.stage = .inserted := by rw [ht]; rfl
    rw [← hs', view_setTask _ _ hk (by rw [h2, hst]), h1]
    exact Effect.handle (stage_of_task hk hst)
  | listHosts c hosts =>
    obtain ⟨k, hk, ht, hs⟩ := atTask_eq_some.mp h
    split at hs
    · cases hs
      have hv := view_setTask s.reg (afterSends [(k.addr, .hostList hosts)]) hk (by rw [ht]; rfl)
      rw [hv]
      exact Effect.listHosts
    · cases hs
  | openSession c host n =>
    obtain ⟨k, hk, ht, hs⟩ := atTask_eq_some.mp h
    cases hs
    have hst : k.task.stage = .inserted := by rw [ht]; rfl
    rw [view_setTask _ _ hk (by rw [afterSends_stage, hst])]
    exact Effect.openSession (stage_of_task hk hst)
  | sendTo c dest msg =>
    obtain ⟨k, rest, hk, ht, rfl⟩ := step_sendTo_iff.mp h
    have hst : k.task.stage = .inserted := by rw [ht]; rfl
    obtain ⟨k', hk', hks⟩ : ∃ k', (s.sendTo c dest msg).conns c = some k' ∧
        k'.task.stage = .inserted := by
      refine ⟨_, by rw [State.sendTo_conns, hk]; rfl, ?_⟩
      dsimp only
      split <;> exact hst
    have he := State.setTask_stage_eq (afterSends rest) hk' (by rw [afterSends_stage, hks])
    have hv : ((s.sendTo c dest msg).setTask c (afterSends rest)).view = s.view := by
      simp only [State.view, State.setTask_reg, State.sendTo_reg, he, State.sendTo_stage]
    rw [hv]
    exact Effect.sendTo
  | leave c =>
    obtain ⟨k, hk, ht, hs⟩ := atTask_eq_some.mp h
    cases hs
    have hv := view_setTask s.reg .returned hk (by rw [ht]; rfl)
    rw [hv]
    exact Effect.leave
  | cleanup c =>
    obtain ⟨k, hk, ht, hs⟩ := atTask_eq_some.mp h
    cases hs
    have hst : k.task.stage = .inserted := by rw [ht]; rfl
    rw [view_setTask_update _ _ hk]
    exact Effect.cleanup (stage_of_task hk hst)
  | write c =>
    obtain ⟨k, hk, _, _, rfl⟩ := step_write_iff.mp h
    have hv : (s.modify c (fun k => { k with taken := k.taken + 1 })).stage = s.stage :=
      State.modify_stage s c _ (fun _ => ⟨rfl, rfl⟩)
    simp only [State.view, State.modify_reg, hv]
    exact Effect.write
  | closeRx c =>
    obtain ⟨k, hk, _, rfl⟩ := step_closeRx_iff.mp h
    have hv : (s.modify c (fun k => { k with rxOpen := false })).stage = s.stage :=
      State.modify_stage s c _ (fun _ => ⟨rfl, rfl⟩)
    simp only [State.view, State.modify_reg, hv]
    exact Effect.closeRx

end Mineshaft.Server
