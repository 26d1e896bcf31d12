import Mineshaft.Server.Wiring

namespace Mineshaft.Server

open Mineshaft.Core Mineshaft.Lib Mineshaft.Lib.Transition

namespace State

def queue (s : State) (d : ConnId) : List Entry := ((s.conns d).map (fun k => k.queue)).getD []

def rxOpen (s : State) (d : ConnId) : Bool := ((s.conns d).map (fun k => k.rxOpen)).getD false

def outgoing (s : State) (a : ConnId) : List (SocketAddr × ServerMessage) :=
  ((s.task a).map Task.outgoing).getD []

def takes (s : State) (d : ConnId) (dest : SocketAddr) : Bool :=
  decide (s.addr d = some dest ∧ s.reg.clients.lookup dest = some ⟨d⟩) && s.rxOpen d

theorem setTask_queue (s : State) (c d : ConnId) (t : Task) : (s.setTask c t).queue d = s.queue d := by
  simp only [queue, setTask_conns]
  split
  · simp [Function.comp_def]
  · rfl

theorem modify_queue (s : State) (c d : ConnId) (f : Conn → Conn) (hf : ∀ k, (f k).queue = k.queue) :
    (s.modify c f).queue d = s.queue d := by
  simp only [queue, modify_conns]
  split
  · simp [Function.comp_def, hf]
  · rfl

theorem sendTo_queue (s : State) (c d : ConnId) (dest : SocketAddr) (msg : ServerMessage) :
    (s.sendTo c dest msg).queue d = s.queue d ++
      if s.reg.clients.lookup dest = some ⟨d⟩ ∧ s.rxOpen d then [⟨c, msg⟩] else [] := by
  cases hk : s.conns d with
  | none => simp [queue, rxOpen, sendTo_conns, hk]
  | some k =>
    simp only [queue, rxOpen, sendTo_conns, hk, Option.map_some, Option.getD_some]
    split <;> simp

end State

theorem step_queue {s s' : State} {l : Label} (hs : step s l = some s') (d : ConnId)
    (hl : ∀ c dest msg, l ≠ .sendTo c dest msg) : s'.queue d = s.queue d := by
  cases l with
  | accept c addr =>
    obtain ⟨hn, rfl⟩ := step_accept_iff.mp hs
    by_cases hd : d = c
    · subst hd; simp [State.queue, hn]
    · simp [State.queue, hd]
  | sendTo c dest msg => exact absurd rfl (hl c dest msg)
  | write c =>
    obtain ⟨k, -, -, -, rfl⟩ := step_write_iff.mp hs
    exact State.modify_queue s c d _ (fun _ => rfl)
  | closeRx c =>
    obtain ⟨k, -, -, rfl⟩ := step_closeRx_iff.mp hs
    exact State.modify_queue s c d _ (fun _ => rfl)
  | handle c msg =>
    obtain ⟨k, -, -, hs⟩ := atTask_eq_some.mp hs
    obtain ⟨r, -, rfl⟩ := Option.map_eq_some_iff.mp hs
    exact State.setTask_queue _ c d _
  | listHosts c hosts =>
    obtain ⟨k, -, -, hs⟩ := atTask_eq_some.mp hs
    split at hs <;> cases hs
    exact State.setTask_queue _ c d _
  | insert c | read c msg | openSession c host n | leave c | cleanup c =>
    obtain ⟨k, -, -, hs⟩ := atTask_eq_some.mp hs
    cases hs
    exact State.setTask_queue _ c d _

theorem step_sendTo_queue {s s' : State} {c : ConnId} {dest : SocketAddr} {msg : ServerMessage}
    (hs : step s (.sendTo c dest msg) = some s') (d : ConnId) :
    s'.queue d = s.queue d ++
      if s.reg.clients.lookup dest = some ⟨d⟩ ∧ s.rxOpen d then [⟨c, msg⟩] else [] := by
  obtain ⟨k, rest, -, -, rfl⟩ := step_sendTo_iff.mp hs
  rw [State.setTask_queue, State.sendTo_queue]

theorem mem_outgoing_sendTo {s s' : State} {c : ConnId} {dest : SocketAddr} {msg : ServerMessage}
    (hs : step s (.sendTo c dest msg) = some s') : (dest, msg) ∈ s.outgoing c := by
  obtain ⟨k, rest, hk, ht, -⟩ := step_sendTo_iff.mp hs
  simp [State.outgoing, State.task, hk, ht]

theorem rxOpen_frame {s s' : State} {l : Label} (hs : step s l = some s') {d : ConnId}
    (hd : (s.conns d).isSome) (hl : l ≠ .closeRx d) : s'.rxOpen d = s.rxOpen d := by
  have hset : ∀ (s : State) (c : ConnId) (t : Task), (s.setTask c t).rxOpen d = s.rxOpen d := by
    intro s c t
    simp only [State.rxOpen, State.setTask_conns]
    split
    · simp [Function.comp_def]
    · rfl
  cases l with
  | accept c addr =>
    obtain ⟨hn, rfl⟩ := step_accept_iff.mp hs
    have hdc : d ≠ c := by rintro rfl; simp [hn] at hd
    simp [State.rxOpen, hdc]
  | sendTo c dest msg =>
    obtain ⟨k, rest, -, -, rfl⟩ := step_sendTo_iff.mp hs
    rw [hset]
    simp only [State.rxOpen, State.sendTo_conns, Option.map_map]
    cases hk : s.conns d with
    | none => rfl
    | some k =>
      simp only [Option.map_some, Function.comp, Option.getD_some]
      split <;> rfl
  | write c =>
    obtain ⟨k, -, -, -, rfl⟩ := step_write_iff.mp hs
    simp only [State.rxOpen, State.modify_conns]
    split
    · simp [Function.comp_def]
    · rfl
  | closeRx c =>
    obtain ⟨k, -, -, rfl⟩ := step_closeRx_iff.mp hs
    have hdc : d ≠ c := by rintro rfl; exact hl rfl
    simp [State.rxOpen, State.modify_conns, hdc]
  | handle c msg =>
    obtain ⟨k, -, -, hs⟩ := atTask_eq_some.mp hs
    obtain ⟨r, -, rfl⟩ := Option.map_eq_some_iff.mp hs
    exact hset _ _ _
  | listHosts c hosts =>
    obtain ⟨k, -, -, hs⟩ := atTask_eq_some.mp hs
    split at hs <;> cases hs
    exact hset _ _ _
  | insert c | read c msg | openSession c host n | leave c | cleanup c =>
    obtain ⟨k, -, -, hs⟩ := atTask_eq_some.mp hs
    cases hs
    exact hset _ _ _

theorem step_rxOpen {s s' : State} {l : Label} (hs : step s l = some s') {d : ConnId}
    (hd : (s.conns d).isSome) (ho : s'.rxOpen d = true) : s.rxOpen d = true := by
  by_cases hl : l = .closeRx d
  · subst hl
    obtain ⟨k, hk, hopen, -⟩ := step_closeRx_iff.mp hs
    simp [State.rxOpen, hk, hopen]
  · rwa [rxOpen_frame hs hd hl] at ho

theorem rxOpen_kept {s s' : State} {l : Label} (hs : step s l = some s') {d : ConnId}
    (hl : l ≠ .closeRx d) (ho : (s.conns d).isSome → s.rxOpen d = true)
    (hd : (s'.conns d).isSome) : s'.rxOpen d = true := by
  cases hk : s.conns d with
  | some k => rw [rxOpen_frame hs (by simp [hk]) hl, ho (by simp [hk])]
  | none =>
    have hb : s.task d = none := by simp [State.task, hk]
    obtain ⟨⟨addr, -, -, hm⟩, hframe⟩ := step_moves hs
    by_cases hc : d = l.conn
    · subst hc
      rw [hb] at hm
      generalize s'.task l.conn = t' at hm
      cases hm with
      | accept =>
        obtain ⟨-, rfl⟩ := step_accept_iff.mp hs
        simp [State.rxOpen, Label.conn]
    · have ht := (hframe d hc).1
      rw [hb, State.task, Option.map_eq_none_iff] at ht
      simp [ht] at hd

def labelOutputs (reg : Registry) (addr : SocketAddr) : Label → List (SocketAddr × ServerMessage)
  | .handle _ msg => replies reg addr msg
  | .listHosts _ hosts => [(addr, .hostList hosts)]
  | .openSession _ host joinerNetworkId =>
    [(host, .incomingJoin joinerNetworkId reg.nextSessionId),
      (addr, .joinAccepted reg.nextSessionId)]
  | _ => []

def outputs (a : ConnId) (e : Event) : List (SocketAddr × ServerMessage) :=
  if e.label.conn = a then
    (e.pre.addr a).toList.flatMap (fun addr => labelOutputs e.pre.reg addr e.label)
  else []

/-- Everything that the messages processed by the handler of `a` determine. -/
def determined (a : ConnId) : List Event → List (SocketAddr × ServerMessage) := collect (outputs a)

def sending (a : ConnId) (e : Event) : List (State × SocketAddr × ServerMessage) :=
  match e.label with
  | .sendTo c dest msg => if c = a then [(e.pre, dest, msg)] else []
  | _ => []

def sends (a : ConnId) : List Event → List (State × SocketAddr × ServerMessage) :=
  collect (sending a)

theorem sending_of_ne {a : ConnId} {e : Event} (h : a ≠ e.label.conn) : sending a e = [] := by
  unfold sending
  split
  next c dest msg hl =>
    rw [hl] at h
    exact if_neg (Ne.symm h)
  · rfl

/-- One step moves what its connection owes: it is determined, waits with the
handler, and is sent, in this order. -/
theorem outputs_own {s s' : State} {l : Label} (hs : step s l = some s') :
    s.outgoing l.conn ++ outputs l.conn ⟨s, l⟩ =
      (sending l.conn ⟨s, l⟩).map (fun q => q.2) ++ s'.outgoing l.conn := by
  obtain ⟨⟨addr, -, ha, hm⟩, -⟩ := step_moves hs
  simp only [State.outgoing, outputs, ↓reduceIte, ha]
  generalize s.task l.conn = t at hm
  generalize s'.task l.conn = t' at hm
  cases hm with
  | accept | insert | read | leave | cleanup => rfl
  | handle hr =>
    simp [sending, labelOutputs, handle_outgoing hr]
  | listHosts | openSession => simp [sending, labelOutputs]
  | sendTo => simp [sending, labelOutputs, Label.conn]
  | write | closeRx => simp [sending, labelOutputs]

theorem determined_eq {h : List Event} {s : State} (hr : Run h s) (a : ConnId) :
    determined a h = (sends a h).map (fun q => q.2) ++ s.outgoing a := by
  induction hr with
  | nil => rfl
  | @cons h s s' l hr hs ih =>
    simp only [determined, sends, collect] at ih ⊢
    rw [ih, List.map_append, List.append_assoc, List.append_assoc]
    congr 1
    by_cases ha : a = l.conn
    · subst ha
      exact outputs_own hs
    · have ho : outputs a ⟨s, l⟩ = [] := if_neg (Ne.symm ha)
      have hf := ((step_moves hs).2 a ha).1
      rw [ho, sending_of_ne ha]
      simp [State.outgoing, hf]

theorem takes_iff {s : State} (hw : Wired s.view) {d : ConnId} {dest : SocketAddr} :
    s.takes d dest = true ↔ s.reg.clients.lookup dest = some ⟨d⟩ ∧ s.rxOpen d = true := by
  simp only [State.takes, Bool.and_eq_true, decide_eq_true_eq]
  constructor
  · rintro ⟨⟨-, hl⟩, ho⟩
    exact ⟨hl, ho⟩
  · rintro ⟨hl, ho⟩
    refine ⟨⟨?_, hl⟩, ho⟩
    obtain ⟨k, hk, he⟩ := Option.map_eq_some_iff.mp (hw.live dest d hl)
    simp only [Prod.mk.injEq] at he
    simp [State.addr, hk, he.1]

def fromOrigin (a : ConnId) (q : List Entry) : List ServerMessage :=
  (q.filter (fun x => decide (x.origin = a))).map (fun x => x.msg)

theorem fromOrigin_queue {h : List Event} {s : State} (hr : Run h s) (hd : DistinctAddrs h)
    (a d : ConnId) :
    fromOrigin a (s.queue d) =
      ((sends a h).filter (fun q => q.1.takes d q.2.1)).map (fun q => q.2.2) := by
  induction hr with
  | nil => rfl
  | @cons h s s' l hr hs ih =>
    have hd' := hd.tail
    have hw := run_wired hr hd'
    have ih := ih hd'
    simp only [sends, collect, List.filter_append, List.map_append] at ih ⊢
    rw [← ih]
    by_cases hl : ∃ c dest msg, l = .sendTo c dest msg
    · obtain ⟨c, dest, msg, rfl⟩ := hl
      rw [step_sendTo_queue hs]
      by_cases hc : c = a <;> by_cases ht : s.takes d dest = true
      · have hq := (takes_iff hw).mp ht
        simp [fromOrigin, sending, hc, ht, hq]
      · have hq := mt (takes_iff hw).mpr ht
        simp [fromOrigin, sending, hc, ht, hq]
      · have hq := (takes_iff hw).mp ht
        simp [fromOrigin, sending, hc, hq]
      · have hq := mt (takes_iff hw).mpr ht
        simp [fromOrigin, sending, hc, hq]
    · push Not at hl
      rw [step_queue hs d hl]
      have hsend : sending a ⟨s, l⟩ = [] := by
        unfold sending
        split
        next c dest msg he => exact absurd he (hl c dest msg)
        · rfl
      simp [hsend]

theorem sends_own {h : List Event} {s : State} (hr : Run h s) (hd : DistinctAddrs h) {a : ConnId} :
    ∀ q ∈ sends a h, ∃ addr, q.1.addr a = some addr ∧ s.addr a = some addr ∧
      (s.rxOpen a = true → q.2.1 = addr → q.1.takes a q.2.1 = true) := by
  induction hr with
  | nil => intro q hq; cases hq
  | @cons h s s' l hr hs ih =>
    have hd' := hd.tail
    intro q hq
    simp only [sends, collect, List.mem_append] at hq
    obtain hq | hq := hq
    · obtain ⟨addr, hq, ha, ht⟩ := ih hd' q hq
      obtain ⟨k, hk, -⟩ := Option.map_eq_some_iff.mp ha
      exact ⟨addr, hq, step_addr hs ha, fun ho => ht (step_rxOpen hs (by simp [hk]) ho)⟩
    · unfold sending at hq
      split at hq
      next c dest msg hl =>
        split at hq
        next hc =>
          subst hc
          obtain rfl := List.mem_singleton.mp hq
          dsimp only at hl
          subst hl
          have hs : step s (.sendTo c dest msg) = some s' := hs
          obtain ⟨k, rest, hk, ht, -⟩ := step_sendTo_iff.mp hs
          have ha : s.addr c = some k.addr := by simp [State.addr, hk]
          refine ⟨k.addr, ha, step_addr hs ha, fun ho hdest => ?_⟩
          have hst : s.view.stage c = some (k.addr, .inserted) :=
            stage_of_task hk (by rw [ht]; rfl)
          have hw := run_wired hr hd'
          have hcl := hw.client c k.addr hst
          rw [← hdest] at hcl
          exact (takes_iff hw).mpr ⟨hcl, step_rxOpen hs (by simp [hk]) ho⟩
        · cases hq
      · cases hq

theorem queue_determined {h : List Event} {s : State} (hr : Run h s) {d : ConnId} {x : Entry}
    (hx : x ∈ s.queue d) : ∃ dest, (dest, x.msg) ∈ determined x.origin h := by
  induction hr with
  | nil => cases hx
  | @cons h s s' l hr hs ih =>
    have hold : x ∈ s.queue d → ∃ dest, (dest, x.msg) ∈ determined x.origin (⟨s, l⟩ :: h) := by
      intro hq
      obtain ⟨dest, hd⟩ := ih hq
      exact ⟨dest, List.mem_append_left _ hd⟩
    by_cases hl : ∃ c dest msg, l = .sendTo c dest msg
    · obtain ⟨c, dest, msg, rfl⟩ := hl
      rw [step_sendTo_queue hs, List.mem_append] at hx
      obtain hx | hx := hx
      · exact hold hx
      · split at hx
        · obtain rfl := List.mem_singleton.mp hx
          refine ⟨dest, List.mem_append_left _ ?_⟩
          have hd := determined_eq hr c
          simp only [determined] at hd
          rw [hd]
          exact List.mem_append_right _ (mem_outgoing_sendTo hs)
        · cases hx
    · push Not at hl
      exact hold (step_queue hs d hl ▸ hx)

end Mineshaft.Server
