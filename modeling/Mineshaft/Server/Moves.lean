import Mineshaft.Server.Effect

namespace Mineshaft.Server

open Mineshaft.Core Mineshaft.Lib

def Label.conn : Label → ConnId
  | .accept c _ | .insert c | .read c _ | .handle c _ | .listHosts c _ | .openSession c _ _
  | .sendTo c _ _ | .leave c | .cleanup c | .write c | .closeRx c => c

def State.task (s : State) (c : ConnId) : Option Task := (s.conns c).map (fun k => k.task)

theorem State.task_eq_some {s : State} {c : ConnId} {t : Task} :
    s.task c = some t ↔ ∃ k, s.conns c = some k ∧ k.task = t := by
  simp [State.task]

theorem State.modify_task (s : State) (c a : ConnId) (f : Conn → Conn)
    (hf : ∀ k, (f k).task = k.task) : (s.modify c f).task a = s.task a := by
  simp only [State.task, State.modify_conns]
  split
  · simp [Function.comp_def, hf]
  · rfl

theorem State.setTask_task (s : State) (c a : ConnId) (t : Task) :
    (s.setTask c t).task a = if a = c then (s.task a).map (fun _ => t) else s.task a := by
  simp only [State.task, State.setTask_conns]
  split
  · simp [Function.comp_def]
  · rfl

theorem State.sendTo_task (s : State) (c a : ConnId) (dest : SocketAddr) (msg : ServerMessage) :
    (s.sendTo c dest msg).task a = s.task a := by
  simp only [State.task, State.sendTo_conns, Option.map_map]
  congr 1
  funext k
  simp only [Function.comp]
  split <;> rfl

def State.addr (s : State) (c : ConnId) : Option SocketAddr := (s.conns c).map (fun k => k.addr)

theorem stage_addr {s : State} {c : ConnId} {a : SocketAddr} {st : Stage}
    (h : s.view.stage c = some (a, st)) : s.addr c = some a := by
  obtain ⟨k, hk, he⟩ := Option.map_eq_some_iff.mp h
  simp only [Prod.mk.injEq] at he
  simp [State.addr, hk, he.1]

theorem State.setTask_addr (s : State) (c a : ConnId) (t : Task) :
    (s.setTask c t).addr a = s.addr a := by
  simp only [State.addr, State.setTask_conns]
  split
  · simp [Function.comp_def]
  · rfl

theorem State.modify_addr (s : State) (c a : ConnId) (f : Conn → Conn)
    (hf : ∀ k, (f k).addr = k.addr) : (s.modify c f).addr a = s.addr a := by
  simp only [State.addr, State.modify_conns]
  split
  · simp [Function.comp_def, hf]
  · rfl

theorem State.sendTo_addr (s : State) (c a : ConnId) (dest : SocketAddr) (msg : ServerMessage) :
    (s.sendTo c dest msg).addr a = s.addr a := by
  simp only [State.addr, State.sendTo_conns, Option.map_map]
  congr 1
  funext k
  simp only [Function.comp]
  split <;> rfl

inductive Moves (reg : Registry) (addr : SocketAddr) : Label → Option Task → Option Task → Prop
  | accept {c : ConnId} : Moves reg addr (.accept c addr) none (some .spawned)
  | insert {c : ConnId} : Moves reg addr (.insert c) (some .spawned) (some .reading)
  | read {c : ConnId} {msg : ClientMessage} :
      Moves reg addr (.read c msg) (some .reading) (some (.handling msg))
  | handle {c : ConnId} {msg : ClientMessage} {r : Registry × Task} :
      handle reg addr msg = some r →
      Moves reg addr (.handle c msg) (some (.handling msg)) (some r.2)
  | listHosts {c : ConnId} {hosts : List AdvertisedServer} :
      hosts.Perm reg.hostRecords.values → Moves reg addr (.listHosts c hosts)
        (some (.handling .listHosts)) (some (afterSends [(addr, .hostList hosts)]))
  | openSession {c : ConnId} {host : SocketAddr} {n : UInt64} :
      Moves reg addr (.openSession c host n) (some (.connecting host n))
        (some (afterSends [(host, .incomingJoin n reg.nextSessionId),
          (addr, .joinAccepted reg.nextSessionId)]))
  | sendTo {c : ConnId} {dest : SocketAddr} {msg : ServerMessage}
      {rest : List (SocketAddr × ServerMessage)} :
      Moves reg addr (.sendTo c dest msg) (some (.sending (dest, msg) rest))
        (some (afterSends rest))
  | leave {c : ConnId} : Moves reg addr (.leave c) (some .reading) (some .returned)
  | cleanup {c : ConnId} : Moves reg addr (.cleanup c) (some .returned) (some .finished)
  | write {c : ConnId} {t : Task} : Moves reg addr (.write c) (some t) (some t)
  | closeRx {c : ConnId} {t : Task} : Moves reg addr (.closeRx c) (some t) (some t)

theorem moves_setTask {s : State} {l : Label} {k : Conn} {t t' : Task} (reg : Registry)
    (hk : s.conns l.conn = some k) (ht : k.task = t)
    (hm : Moves s.reg k.addr l (some t) (some t')) :
    (({ s with reg := reg }.setTask l.conn t').addr l.conn = some k.addr ∧
      s.addr l.conn = (s.task l.conn).map (fun _ => k.addr) ∧
      Moves s.reg k.addr l (s.task l.conn) (({ s with reg := reg }.setTask l.conn t').task l.conn)) ∧
    ∀ a, a ≠ l.conn → ({ s with reg := reg }.setTask l.conn t').task a = s.task a ∧
      ({ s with reg := reg }.setTask l.conn t').addr a = s.addr a := by
  have hb : s.task l.conn = some t := State.task_eq_some.mpr ⟨k, hk, ht⟩
  have ha : s.addr l.conn = some k.addr := by simp [State.addr, hk]
  have hu : (State.setTask { s with reg := reg } l.conn t').task l.conn = some t' := by
    rw [State.setTask_task, if_pos rfl]
    change Option.map _ (s.task l.conn) = _
    rw [hb]
    rfl
  refine ⟨⟨?_, ?_, ?_⟩, ?_⟩
  · rw [State.setTask_addr]; exact ha
  · rw [ha, hb]; rfl
  · rw [hb, hu]; exact hm
  · intro a hne
    rw [State.setTask_task, if_neg hne, State.setTask_addr]
    exact ⟨rfl, rfl⟩

theorem moves_modify {s : State} {l : Label} {k : Conn} (f : Conn → Conn)
    (hf : ∀ k, (f k).addr = k.addr ∧ (f k).task = k.task) (hk : s.conns l.conn = some k)
    (hm : Moves s.reg k.addr l (some k.task) (some k.task)) :
    ((s.modify l.conn f).addr l.conn = some k.addr ∧
      s.addr l.conn = (s.task l.conn).map (fun _ => k.addr) ∧
      Moves s.reg k.addr l (s.task l.conn) ((s.modify l.conn f).task l.conn)) ∧
    ∀ a, a ≠ l.conn → (s.modify l.conn f).task a = s.task a ∧
      (s.modify l.conn f).addr a = s.addr a := by
  have ht := fun a => State.modify_task s l.conn a f (fun k => (hf k).2)
  have ha := fun a => State.modify_addr s l.conn a f (fun k => (hf k).1)
  have hb : s.task l.conn = some k.task := by simp [State.task, hk]
  refine ⟨⟨?_, ?_, ?_⟩, fun a _ => ⟨ht a, ha a⟩⟩
  · rw [ha]; simp [State.addr, hk]
  · simp [State.addr, hb, hk]
  · rw [ht, hb]; exact hm

/-- A step moves the task of its own connection and no other. -/
theorem step_moves {s s' : State} {l : Label} (h : step s l = some s') :
    (∃ addr, s'.addr l.conn = some addr ∧ s.addr l.conn = (s.task l.conn).map (fun _ => addr) ∧
      Moves s.reg addr l (s.task l.conn) (s'.task l.conn)) ∧
    ∀ a, a ≠ l.conn → s'.task a = s.task a ∧ s'.addr a = s.addr a := by
  cases l with
  | accept c addr =>
    obtain ⟨hn, rfl⟩ := step_accept_iff.mp h
    refine ⟨⟨addr, by simp [State.addr, Label.conn], by simp [State.addr, State.task, Label.conn, hn],
      ?_⟩, ?_⟩
    · have hb : s.task c = none := by simp [State.task, hn]
      simp only [Label.conn, hb]
      convert Moves.accept
      simp [State.task]
    · intro a ha
      have hc : a ≠ c := ha
      simp [State.task, State.addr, hc]
  | insert c =>
    obtain ⟨k, hk, ht, hs⟩ := atTask_eq_some.mp h
    cases hs
    have hm := moves_setTask (l := .insert c) (s.reg.insertClient k.addr ⟨c⟩) hk ht Moves.insert
    exact ⟨⟨_, hm.1⟩, hm.2⟩
  | read c msg =>
    obtain ⟨k, hk, ht, hs⟩ := atTask_eq_some.mp h
    cases hs
    have hm := moves_setTask (l := .read c msg) s.reg hk ht Moves.read
    exact ⟨⟨_, hm.1⟩, hm.2⟩
  | handle c msg =>
    obtain ⟨k, hk, ht, hs⟩ := atTask_eq_some.mp h
    obtain ⟨r, hr, rfl⟩ := Option.map_eq_some_iff.mp hs
    have hm := moves_setTask (l := .handle c msg) r.1 hk ht (Moves.handle hr)
    exact ⟨⟨_, hm.1⟩, hm.2⟩
  | listHosts c hosts =>
    obtain ⟨k, hk, ht, hs⟩ := atTask_eq_some.mp h
    split at hs
    next hp =>
      cases hs
      have hm := moves_setTask (l := .listHosts c hosts) s.reg hk ht (Moves.listHosts hp)
      exact ⟨⟨_, hm.1⟩, hm.2⟩
    · cases hs
  | openSession c host n =>
    obtain ⟨k, hk, ht, hs⟩ := atTask_eq_some.mp h
    cases hs
    have hm := moves_setTask (l := .openSession c host n) (s.reg.openSession k.addr host)
      hk ht Moves.openSession
    exact ⟨⟨_, hm.1⟩, hm.2⟩
  | sendTo c dest msg =>
    obtain ⟨k, rest, hk, ht, rfl⟩ := step_sendTo_iff.mp h
    have hb : s.task c = some (.sending (dest, msg) rest) := State.task_eq_some.mpr ⟨k, hk, ht⟩
    have hu : ((s.sendTo c dest msg).setTask c (afterSends rest)).task c = some (afterSends rest) := by
      rw [State.setTask_task, if_pos rfl, State.sendTo_task, hb]
      rfl
    refine ⟨⟨k.addr, ?_, ?_, ?_⟩, ?_⟩
    · rw [State.setTask_addr, State.sendTo_addr]
      simp [State.addr, Label.conn, hk]
    · simp [State.addr, State.task, Label.conn, hk]
    · simp only [Label.conn, hb, hu]
      exact Moves.sendTo
    · intro a ha
      have hc : a ≠ c := ha
      rw [State.setTask_task, if_neg hc, State.setTask_addr, State.sendTo_task, State.sendTo_addr]
      exact ⟨rfl, rfl⟩
  | leave c =>
    obtain ⟨k, hk, ht, hs⟩ := atTask_eq_some.mp h
    cases hs
    have hm := moves_setTask (l := .leave c) s.reg hk ht Moves.leave
    exact ⟨⟨_, hm.1⟩, hm.2⟩
  | cleanup c =>
    obtain ⟨k, hk, ht, hs⟩ := atTask_eq_some.mp h
    cases hs
    have hm := moves_setTask (l := .cleanup c) (s.reg.cleanup k.addr) hk ht Moves.cleanup
    exact ⟨⟨_, hm.1⟩, hm.2⟩
  | write c =>
    obtain ⟨k, hk, _, _, rfl⟩ := step_write_iff.mp h
    have hm := moves_modify (l := .write c) (fun k => { k with taken := k.taken + 1 })
      (fun _ => ⟨rfl, rfl⟩) hk Moves.write
    exact ⟨⟨_, hm.1⟩, hm.2⟩
  | closeRx c =>
    obtain ⟨k, hk, _, rfl⟩ := step_closeRx_iff.mp h
    have hm := moves_modify (l := .closeRx c) (fun k => { k with rxOpen := false })
      (fun _ => ⟨rfl, rfl⟩) hk Moves.closeRx
    exact ⟨⟨_, hm.1⟩, hm.2⟩

theorem task_cases {s s' : State} {l : Label} (h : step s l = some s') {a : ConnId} {t : Task}
    (ht : s'.task a = some t) :
    a ≠ l.conn ∧ s.task a = some t ∨ a = l.conn ∧ t = .spawned ∨
      a = l.conn ∧ ∃ addr t₀, s'.addr l.conn = some addr ∧ s.task l.conn = some t₀ ∧
        Moves s.reg addr l (some t₀) (some t) := by
  obtain ⟨⟨addr, ha, -, hm⟩, hframe⟩ := step_moves h
  by_cases hc : a = l.conn
  · subst hc
    cases hb : s.task l.conn with
    | none =>
      rw [hb, ht] at hm
      cases hm with
      | accept => exact Or.inr (Or.inl ⟨rfl, rfl⟩)
    | some t₀ =>
      rw [hb, ht] at hm
      exact Or.inr (Or.inr ⟨rfl, addr, t₀, ha, rfl, hm⟩)
  · rw [(hframe a hc).1] at ht
    exact Or.inl ⟨hc, ht⟩

theorem step_addr {s s' : State} {l : Label} (h : step s l = some s') {a : ConnId}
    {x : SocketAddr} (hx : s.addr a = some x) : s'.addr a = some x := by
  obtain ⟨⟨addr, h1, h2, -⟩, hframe⟩ := step_moves h
  by_cases ha : a = l.conn
  · subst ha
    rw [hx] at h2
    obtain ⟨t, -, rfl⟩ := Option.map_eq_some_iff.mp h2.symm
    exact h1
  · rw [(hframe a ha).2]
    exact hx

def Task.outgoing : Task → List (SocketAddr × ServerMessage)
  | .sending next rest => next :: rest
  | .spawned | .reading | .handling _ | .connecting _ _ | .returned | .finished => []

@[simp] theorem outgoing_sending (next : SocketAddr × ServerMessage)
    (rest : List (SocketAddr × ServerMessage)) :
    (Task.sending next rest).outgoing = next :: rest := rfl

@[simp] theorem outgoing_handling (msg : ClientMessage) : (Task.handling msg).outgoing = [] := rfl

@[simp] theorem outgoing_connecting (host : SocketAddr) (n : UInt64) :
    (Task.connecting host n).outgoing = [] := rfl

@[simp] theorem outgoing_afterSends (out : List (SocketAddr × ServerMessage)) :
    (afterSends out).outgoing = out := by
  cases out <;> rfl

def replies (reg : Registry) (addr : SocketAddr) : ClientMessage → List (SocketAddr × ServerMessage)
  | .ping => [(addr, .pong)]
  | .registerHost server => [(addr, .registered server.senderId)]
  | .updateHost _ | .unregisterHost _ | .listHosts => []
  | .connectRequest targetSenderId _ =>
    if (reg.hosts.lookup targetSenderId).isSome then []
    else [(addr, .error ("no such host: 0x" ++ lowerHex targetSenderId))]
  | .signal targetSenderId connectionId joinerNetworkId data =>
    (reg.routeDest targetSenderId connectionId).toList.map
      (fun dest => (dest, .signal connectionId joinerNetworkId data))

theorem handle_outgoing {reg : Registry} {addr : SocketAddr} {msg : ClientMessage}
    {r : Registry × Task} (h : handle reg addr msg = some r) :
    r.2.outgoing = replies reg addr msg := by
  cases msg with
  | listHosts => cases h
  | ping | registerHost | updateHost | unregisterHost => cases h; rfl
  | connectRequest t n =>
    simp only [handle] at h
    split at h
    next host hl => cases h; simp [replies, hl]
    next hl => cases h; simp [replies, hl]
  | signal t c n d =>
    cases h
    simp only [replies]
    cases reg.routeDest t c <;> simp

theorem handle_not_handling {reg : Registry} {addr : SocketAddr} {msg msg' : ClientMessage}
    {r : Registry × Task} (h : handle reg addr msg = some r) : r.2 ≠ .handling msg' := by
  cases msg with
  | listHosts => cases h
  | ping | registerHost | updateHost | unregisterHost => cases h; simp [afterSends]
  | connectRequest t n =>
    simp only [handle] at h
    split at h <;> cases h <;> simp [afterSends]
  | signal t c n d =>
    cases h
    dsimp only
    split <;> simp [afterSends]

def handled : Task → Option ClientMessage
  | .handling msg => some msg
  | .spawned | .reading | .connecting _ _ | .sending _ _ | .returned | .finished => none

@[simp] theorem handled_afterSends (out : List (SocketAddr × ServerMessage)) :
    handled (afterSends out) = none := by
  cases out <;> rfl

theorem handled_handle {reg : Registry} {addr : SocketAddr} {msg : ClientMessage}
    {r : Registry × Task} (h : handle reg addr msg = some r) : handled r.2 = none := by
  cases ht : r.2 with
  | handling msg' => exact absurd ht (handle_not_handling h)
  | spawned | reading | connecting | sending | returned | finished => rfl

def Consumes (l : Label) (wire wire' : List ClientMessage) : Prop :=
  (∃ msg, l = .read l.conn msg ∧ wire = msg :: wire') ∨ (∀ msg, l ≠ .read l.conn msg) ∧ wire' = wire

theorem task_handle {s s' : State} {c : ConnId} {msg : ClientMessage}
    (hs : step s (.handle c msg) = some s') : s.task c = some (.handling msg) := by
  obtain ⟨k, hk, ht, -⟩ := atTask_eq_some.mp hs
  exact State.task_eq_some.mpr ⟨k, hk, ht⟩

theorem stage_handle {s s' : State} {c : ConnId} {msg : ClientMessage}
    (hs : step s (.handle c msg) = some s') : ∃ a, s.view.stage c = some (a, .inserted) := by
  obtain ⟨k, hk, ht, -⟩ := atTask_eq_some.mp hs
  exact ⟨k.addr, stage_of_task hk (by rw [ht]; rfl)⟩

theorem handling_step {s s' : State} {l : Label} (hs : step s l = some s')
    {c : ConnId} {msg : ClientMessage} (ht : s'.task c = some (.handling msg)) :
    s.task c = some (.handling msg) ∨ l = .read c msg := by
  obtain ⟨⟨addr, -, -, hm⟩, hframe⟩ := step_moves hs
  by_cases hc : c = l.conn
  · subst hc
    have hh : (s'.task l.conn).bind handled = some msg := by rw [ht]; rfl
    generalize s.task l.conn = t at hm
    generalize s'.task l.conn = t' at hm hh ht
    cases hm with
    | accept | insert | leave | cleanup => cases hh
    | listHosts | openSession | sendTo => simp at hh
    | handle hr => simp [handled_handle hr] at hh
    | read =>
      cases ht
      exact Or.inr rfl
    | write | closeRx => exact Or.inl ht
  · rw [(hframe c hc).1] at ht
    exact Or.inl ht

end Mineshaft.Server
