import Mineshaft.Server.Queues

namespace Mineshaft.Server

open Mineshaft.Core Mineshaft.Lib Mineshaft.Lib.Transition

def Registry.connAt (reg : Registry) (addr : SocketAddr) : Option ConnId :=
  (reg.clients.lookup addr).map (fun handle => handle.tx)

theorem Registry.connAt_eq_some {reg : Registry} {addr : SocketAddr} {c : ConnId} :
    reg.connAt addr = some c ↔ reg.clients.lookup addr = some ⟨c⟩ := by
  rw [connAt, Option.map_eq_some_iff]
  constructor
  · rintro ⟨⟨tx⟩, hl, rfl⟩
    exact hl
  · intro hl
    exact ⟨_, hl, rfl⟩

/-- An output of a handler: the connection it was determined for, and the call
of `send_to` that is to carry it. -/
structure Output where
  recipient : Option ConnId
  dest : SocketAddr
  msg : ServerMessage
  deriving DecidableEq

def Output.call (o : Output) : SocketAddr × ServerMessage := (o.dest, o.msg)

/-- The connection at which the last `ConnectRequest` of `a` found its host. -/
def foundHost (a : ConnId) : List Event → Option ConnId
  | [] => none
  | e :: h =>
    match e.label with
    | .handle c (.connectRequest targetSenderId _) =>
      if c = a then (e.pre.reg.hosts.lookup targetSenderId).bind e.pre.reg.connAt
      else foundHost a h
    | _ => foundHost a h

/-- The connection an output is determined for. A signal is routed and an
`IncomingJoin` is for the host that was looked up; anything else is a reply. -/
def recipient (a : ConnId) (h : List Event) (e : Event) (dest : SocketAddr) :
    ServerMessage → Option ConnId
  | .signal _ _ _ => e.pre.reg.connAt dest
  | .incomingJoin _ _ => foundHost a h
  | _ => some a

def produced (a : ConnId) (h : List Event) (e : Event) : List Output :=
  (outputs a e).map (fun call => ⟨recipient a h e call.1 call.2, call.1, call.2⟩)

/-- Everything the processed messages of `a` determine, with the recipients. -/
def promised (a : ConnId) : List Event → List Output
  | [] => []
  | e :: h => promised a h ++ produced a h e

/-- The outputs of `a` that are still to be sent. A call of `send_to` takes the
oldest one. -/
def owed (a : ConnId) : List Event → List Output
  | [] => []
  | e :: h => (owed a h ++ produced a h e).drop (sending a e).length

/-- The outputs of `a` that were sent, with the states in which they were. -/
def dispatched (a : ConnId) : List Event → List (State × Output)
  | [] => []
  | e :: h => dispatched a h ++
    ((owed a h ++ produced a h e).take (sending a e).length).map (fun o => (e.pre, o))

namespace State

/-- The handle of `d` is in the clients map, and its writer holds the receiver. -/
def live (s : State) (d : ConnId) : Bool :=
  decide ((s.addr d).bind s.reg.connAt = some d) && s.rxOpen d

def dests (s : State) (a : ConnId) : List SocketAddr :=
  match s.task a with
  | some (.sending next rest) => (next :: rest).map (fun call => call.1)
  | some (.connecting host _) => [host]
  | _ => []

end State

/-- The connection `d` gets an address to which `a` has still to send. -/
def TakesOver (a d : ConnId) (e : Event) : Prop :=
  e.label = .insert d ∧ ∃ dest ∈ e.pre.dests a, e.pre.addr d = some dest

instance (a d : ConnId) : DecidablePred (TakesOver a d) :=
  fun _ => inferInstanceAs (Decidable (_ ∧ _))

def enqueued (a d : ConnId) (h : List Event) : List (State × Output) :=
  (dispatched a h).filter (fun q => q.1.takes d q.2.dest)

variable {h : List Event} {s s' : State} {l : Label} {a d : ConnId}

theorem produced_calls (a : ConnId) (h : List Event) (e : Event) :
    (produced a h e).map Output.call = outputs a e := by
  simp [produced, Output.call, Function.comp_def]

theorem owed_calls (hr : Run h s) (a : ConnId) : (owed a h).map Output.call = s.outgoing a := by
  induction hr with
  | nil => rfl
  | @cons h s s' l hr hs ih =>
    rw [owed, List.map_drop, List.map_append, ih, produced_calls]
    by_cases ha : a = l.conn
    · subst ha
      rw [outputs_own hs]
      exact List.drop_left' (List.length_map _)
    · have ho : outputs a ⟨s, l⟩ = [] := if_neg (Ne.symm ha)
      have hf := ((step_moves hs).2 a ha).1
      simp [ho, sending_of_ne (e := ⟨s, l⟩) ha, State.outgoing, hf]

theorem promised_eq (a : ConnId) (h : List Event) :
    promised a h = (dispatched a h).map (fun q => q.2) ++ owed a h := by
  induction h with
  | nil => rfl
  | cons e h ih =>
    simp only [promised, dispatched, owed, ih, List.map_append, List.map_map, Function.comp_def,
      List.map_id', List.append_assoc, List.take_append_drop]

theorem dispatched_sends (hr : Run h s) (a : ConnId) :
    (dispatched a h).map (fun q => (q.1, q.2.dest, q.2.msg)) = sends a h := by
  induction hr with
  | nil => rfl
  | @cons h s s' l hr hs ih =>
    have hcalls : ((owed a h ++ produced a h ⟨s, l⟩).take (sending a ⟨s, l⟩).length).map
        Output.call = (sending a ⟨s, l⟩).map (fun q => q.2) := by
      rw [List.map_take, List.map_append, owed_calls hr a, produced_calls]
      by_cases ha : a = l.conn
      · subst ha
        rw [outputs_own hs]
        exact List.take_left' (List.length_map _)
      · simp [sending_of_ne (e := ⟨s, l⟩) ha]
    have hpre : ∀ q ∈ sending a ⟨s, l⟩, q = (s, q.2) := by
      intro q hq
      unfold sending at hq
      split at hq
      · split at hq
        · obtain rfl := List.mem_singleton.mp hq
          rfl
        · cases hq
      · cases hq
    have hstep := congrArg (List.map (fun call => (s, call))) hcalls
    simp only [List.map_map, Function.comp_def, Output.call] at hstep
    rw [← List.map_congr_left hpre, List.map_id'] at hstep
    simp only [dispatched, List.map_append, List.map_map, Function.comp_def, ih, hstep, sends,
      collect]

/-- An output that `a` owes, or is about to owe to the host that it has found. -/
def Pending (a : ConnId) (h : List Event) (s : State) (r : Option ConnId)
    (dest : SocketAddr) : Prop :=
  (∃ o ∈ owed a h, o.recipient = r ∧ o.dest = dest) ∨
    ∃ n, s.task a = some (.connecting dest n) ∧ foundHost a h = r

theorem Pending.mem_dests (hr : Run h s) {r : Option ConnId} {dest : SocketAddr}
    (hp : Pending a h s r dest) : dest ∈ s.dests a := by
  obtain ⟨o, ho, -, rfl⟩ | ⟨n, ht, -⟩ := hp
  · have hm : o.call ∈ s.outgoing a := by
      rw [← owed_calls hr a]
      exact List.mem_map_of_mem ho
    unfold State.outgoing at hm
    cases ht : s.task a with
    | none => simp [ht] at hm
    | some t =>
      cases t with
      | sending next rest =>
        have hm : o.call ∈ next :: rest := by simpa [ht] using hm
        rw [State.dests, ht]
        exact List.mem_map_of_mem hm
      | _ => simp [ht, Task.outgoing] at hm
  · simp [State.dests, ht]

theorem foundHost_of_ne {e : Event} (hc : a ≠ e.label.conn) :
    foundHost a (e :: h) = foundHost a h := by
  obtain ⟨pre, l⟩ := e
  cases l with
  | handle c msg =>
    have hca : ¬ c = a := fun hca => hc hca.symm
    cases msg <;> simp [foundHost, hca]
  | _ => rfl

theorem connAt_own (hw : Wired s.view) {addr : SocketAddr}
    (hst : s.view.stage a = some (addr, .inserted)) : s.reg.connAt addr = some a :=
  Registry.connAt_eq_some.mpr (hw.client a addr hst)

theorem effect_clients {v v' : View} (he : Effect v l v')
    (hl : ∀ c, l ≠ .insert c ∧ l ≠ .cleanup c) : v'.reg.clients = v.reg.clients := by
  cases he with
  | @insert c => exact absurd rfl (hl c).1
  | @cleanup c => exact absurd rfl (hl c).2
  | handle => exact regAfter_clients _ _ _
  | accept | openSession | read | listHosts | sendTo | leave | write | closeRx => rfl

theorem recipient_replies {e : Event} {addr : SocketAddr} (hself : e.pre.reg.connAt addr = some a)
    {msg : ClientMessage} {call : SocketAddr × ServerMessage}
    (hm : call ∈ replies e.pre.reg addr msg) :
    recipient a h e call.1 call.2 = e.pre.reg.connAt call.1 := by
  cases msg with
  | updateHost | unregisterHost | listHosts => cases hm
  | ping | registerHost =>
    obtain rfl := List.mem_singleton.mp hm
    exact hself.symm
  | connectRequest t n =>
    simp only [replies] at hm
    split at hm
    · cases hm
    · obtain rfl := List.mem_singleton.mp hm
      exact hself.symm
  | signal t i n data =>
    obtain ⟨dest, -, rfl⟩ := List.mem_map.mp hm
    rfl

theorem produced_pending (hw : Wired s.view) (hs : step s l = some s') {o : Output}
    (ho : o ∈ produced a h ⟨s, l⟩) :
    Pending a h s o.recipient o.dest ∨
      o.recipient = s.reg.connAt o.dest ∧ s'.reg.clients = s.reg.clients := by
  obtain ⟨call, hcall, rfl⟩ := List.mem_map.mp ho
  unfold outputs at hcall
  split at hcall
  next hc =>
    obtain ⟨addr, ha, hm⟩ := List.mem_flatMap.mp hcall
    clear ho hcall
    have haddr : s.addr a = some addr := by simpa using ha
    dsimp only at hc hm ⊢
    have hown : ∀ k : Conn, s.conns a = some k → k.task.stage = .inserted →
        s.reg.connAt addr = some a := by
      intro k hk ht
      obtain rfl : k.addr = addr := by simpa [State.addr, hk] using haddr
      exact connAt_own hw (stage_of_task hk ht)
    cases l with
    | handle c msg =>
      obtain rfl : c = a := hc
      obtain ⟨k, hk, ht, -⟩ := atTask_eq_some.mp hs
      have hself := hown k hk (by rw [ht]; rfl)
      refine Or.inr ⟨?_, effect_clients (step_effect hs) (by simp)⟩
      exact recipient_replies hself hm
    | listHosts c hosts =>
      obtain rfl : c = a := hc
      obtain ⟨k, hk, ht, -⟩ := atTask_eq_some.mp hs
      have hself := hown k hk (by rw [ht]; rfl)
      obtain rfl := List.mem_singleton.mp hm
      exact Or.inr ⟨hself.symm, effect_clients (step_effect hs) (by simp)⟩
    | openSession c host n =>
      obtain rfl : c = a := hc
      obtain ⟨k, hk, ht, -⟩ := atTask_eq_some.mp hs
      have hself := hown k hk (by rw [ht]; rfl)
      have hclients := effect_clients (step_effect hs) (by simp)
      simp only [labelOutputs, List.mem_cons, List.not_mem_nil, or_false] at hm
      obtain rfl | rfl := hm
      · exact Or.inl (Or.inr ⟨n, State.task_eq_some.mpr ⟨k, hk, ht⟩, rfl⟩)
      · exact Or.inr ⟨hself.symm, hclients⟩
    | accept | insert | read | sendTo | leave | cleanup | write | closeRx => cases hm
  · cases hcall

theorem handle_connecting {reg : Registry} {addr host : SocketAddr} {msg : ClientMessage}
    {r : Registry × Task} {n : UInt64} (hh : handle reg addr msg = some r)
    (hr : r.2 = .connecting host n) :
    ∃ target, msg = .connectRequest target n ∧ reg.hosts.lookup target = some host := by
  cases msg with
  | listHosts => cases hh
  | ping | registerHost | updateHost | unregisterHost => cases hh; cases hr
  | connectRequest t m =>
    simp only [handle] at hh
    split at hh
    next host' hl =>
      cases hh
      cases hr
      exact ⟨t, rfl, hl⟩
    · cases hh
      cases hr
  | signal t c m data =>
    cases hh
    dsimp only at hr
    split at hr <;> cases hr

theorem connecting_step (hs : step s l = some s') {host : SocketAddr} {n : UInt64}
    (ht : s'.task l.conn = some (.connecting host n)) :
    (∃ target, l = .handle l.conn (.connectRequest target n) ∧
      s.reg.hosts.lookup target = some host) ∨
      s.task l.conn = some (.connecting host n) ∧ ∀ msg, l ≠ .handle l.conn msg := by
  obtain ⟨⟨addr, -, -, hm⟩, -⟩ := step_moves hs
  rw [ht] at hm
  generalize s.task l.conn = t at hm
  generalize ht' : some (Task.connecting host n) = t' at hm
  cases hm with
  | accept | insert | read | leave | cleanup => cases ht'
  | handle hh =>
    obtain ⟨target, rfl, hl⟩ := handle_connecting hh (Option.some.inj ht').symm
    exact Or.inl ⟨target, rfl, hl⟩
  | listHosts | openSession => cases ht'
  | @sendTo c dest msg rest => cases rest <;> cases ht'
  | write | closeRx =>
    cases ht'
    exact Or.inr ⟨rfl, by simp⟩

theorem foundHost_of_not_handle {e : Event} (he : ∀ msg, e.label ≠ .handle e.label.conn msg) :
    foundHost a (e :: h) = foundHost a h := by
  obtain ⟨pre, l⟩ := e
  cases l with
  | handle c msg => exact absurd rfl (he msg)
  | _ => rfl

theorem pending_step (hw : Wired s.view) (hs : step s l = some s') {r : Option ConnId}
    {dest : SocketAddr} (hp : Pending a (⟨s, l⟩ :: h) s' r dest) :
    Pending a h s r dest ∨ r = s.reg.connAt dest ∧ s'.reg.clients = s.reg.clients := by
  obtain ⟨o, ho, rfl, rfl⟩ | ⟨n, ht, hf⟩ := hp
  · obtain ho | ho := List.mem_append.mp (List.mem_of_mem_drop ho)
    · exact Or.inl (Or.inl ⟨o, ho, rfl, rfl⟩)
    · exact produced_pending hw hs ho
  · by_cases hc : a = l.conn
    · rw [hc] at ht
      obtain ⟨target, hl, hlook⟩ | ⟨hb, hne⟩ := connecting_step hs ht
      · rw [← hc] at hl
        subst hl
        refine Or.inr ⟨?_, effect_clients (step_effect hs) (by simp)⟩
        simpa [foundHost, hlook, eq_comm] using hf
      · rw [foundHost_of_not_handle hne] at hf
        rw [← hc] at hb
        exact Or.inl (Or.inr ⟨n, hb, hf⟩)
    · rw [foundHost_of_ne hc] at hf
      rw [((step_moves hs).2 a hc).1] at ht
      exact Or.inl (Or.inr ⟨n, ht, hf⟩)

theorem pending_addr (hr : Run h s) (hd : DistinctAddrs h) {r : Option ConnId} {dest : SocketAddr}
    (hp : Pending a h s r dest) (hrd : r = some d) : s.addr d = some dest := by
  induction hr generalizing r dest with
  | nil =>
    obtain ⟨o, ho, -⟩ | ⟨n, ht, -⟩ := hp
    · cases ho
    · cases ht
  | @cons h s s' l hr hs ih =>
    have hw := run_wired hr hd.tail
    obtain hp | ⟨rfl, -⟩ := pending_step hw hs hp
    · exact step_addr hs (ih hd.tail hp hrd)
    · have hst := hw.live dest d (Registry.connAt_eq_some.mp hrd)
      exact step_addr hs (stage_addr hst)

theorem connAt_step (hs : step s l = some s') {dest : SocketAddr}
    (hc : s'.reg.connAt dest = some d) :
    s.reg.connAt dest = some d ∨ l = .insert d ∧ s.addr d = some dest := by
  have he := step_effect hs
  rw [Registry.connAt_eq_some] at hc ⊢
  change s'.view.reg.clients.lookup dest = some ⟨d⟩ at hc
  change s.view.reg.clients.lookup dest = some ⟨d⟩ ∨ _
  generalize s'.view = v' at he hc
  cases he with
  | @insert c addr hst =>
    change (s.reg.clients.insert addr ⟨c⟩).lookup dest = some ⟨d⟩ at hc
    rw [HashMap.lookup_insert_eq] at hc
    split at hc
    next ha =>
      obtain rfl : c = d := by simpa using hc
      exact Or.inr ⟨rfl, by rw [ha]; exact stage_addr hst⟩
    next ha => exact Or.inl hc
  | cleanup =>
    rw [Registry.cleanup_clients] at hc
    split at hc
    · cases hc
    · exact Or.inl hc
  | handle =>
    rw [regAfter_clients] at hc
    exact Or.inl hc
  | accept | openSession | read | listHosts | sendTo | leave | write | closeRx => exact Or.inl hc

theorem pending_recipient (hr : Run h s) (hd : DistinctAddrs h)
    (hn : ∀ e ∈ h, ¬ TakesOver a d e) {r : Option ConnId} {dest : SocketAddr}
    (hp : Pending a h s r dest) (hc : s.reg.connAt dest = some d) : r = some d := by
  induction hr generalizing r dest with
  | nil => cases hc
  | @cons h s s' l hr hs ih =>
    have hn' : ∀ e ∈ h, ¬ TakesOver a d e := fun e he => hn e (List.mem_cons_of_mem _ he)
    obtain hp | ⟨rfl, hsame⟩ := pending_step (run_wired hr hd.tail) hs hp
    · obtain hc | ⟨hl, ha⟩ := connAt_step hs hc
      · exact ih hd.tail hn' hp hc
      · exact absurd ⟨hl, dest, hp.mem_dests hr, ha⟩ (hn _ List.mem_cons_self)
    · rwa [Registry.connAt, hsame] at hc

theorem sending_or_produced (a : ConnId) (h : List Event) (e : Event) :
    sending a e = [] ∨ produced a h e = [] := by
  obtain ⟨pre, l⟩ := e
  cases l with
  | sendTo c dest msg =>
    refine Or.inr ?_
    simp [produced, outputs, labelOutputs]
  | _ => exact Or.inl rfl

theorem dispatched_pending (hr : Run h s) {q : State × Output} (hq : q ∈ dispatched a h) :
    ∃ early, early ⊆ h ∧ Run early q.1 ∧ Pending a early q.1 q.2.recipient q.2.dest := by
  induction hr with
  | nil => cases hq
  | @cons h s s' l hr hs ih =>
    obtain hq | hq := List.mem_append.mp hq
    · obtain ⟨early, hsub, hrun, hp⟩ := ih hq
      exact ⟨early, List.subset_cons_of_subset _ hsub, hrun, hp⟩
    · obtain ⟨o, ho, rfl⟩ := List.mem_map.mp hq
      refine ⟨h, List.subset_cons_self _ _, hr, Or.inl ⟨o, ?_, rfl, rfl⟩⟩
      obtain he | he := sending_or_produced a h ⟨s, l⟩
      · simp [he] at ho
      · rw [he, List.append_nil] at ho
        exact List.mem_of_mem_take ho

theorem takes_recipient (hr : Run h s) (hd : DistinctAddrs h) {q : State × Output}
    (hq : q ∈ dispatched a h) (hrd : q.2.recipient = some d) :
    q.1.takes d q.2.dest = q.1.live d := by
  obtain ⟨early, hsub, hrun, hp⟩ := dispatched_pending hr hq
  have hd' : DistinctAddrs early := fun e he => hd e (hsub he)
  rw [Bool.eq_iff_iff, takes_iff (run_wired hrun hd'), State.live, pending_addr hrun hd' hp hrd]
  simp [Registry.connAt_eq_some]

theorem recipient_of_takes (hr : Run h s) (hd : DistinctAddrs h)
    (hn : ∀ e ∈ h, ¬ TakesOver a d e) {q : State × Output} (hq : q ∈ dispatched a h)
    (ht : q.1.takes d q.2.dest = true) : q.2.recipient = some d := by
  obtain ⟨early, hsub, hrun, hp⟩ := dispatched_pending hr hq
  have hd' : DistinctAddrs early := fun e he => hd e (hsub he)
  have hl := ((takes_iff (run_wired hrun hd')).mp ht).1
  exact pending_recipient hrun hd' (fun e he => hn e (hsub he)) hp (Registry.connAt_eq_some.mpr hl)

theorem not_takesOver_own (hr : Run h s) {e : Event} (he : e ∈ h) : ¬ TakesOver a a e := by
  rintro ⟨hl, dest, hdest, -⟩
  obtain ⟨s', hs, -⟩ := hr.post_mem he
  change step e.pre e.label = some s' at hs
  rw [hl] at hs
  obtain ⟨k, hk, ht, -⟩ := atTask_eq_some.mp hs
  have htask : e.pre.task a = some .spawned := State.task_eq_some.mpr ⟨k, hk, ht⟩
  simp [State.dests, htask] at hdest

theorem takes_own (hr : Run h s) (hd : DistinctAddrs h) (ho : s.rxOpen a = true)
    {q : State × Output} (hq : q ∈ dispatched a h) (hra : q.2.recipient = some a) :
    q.1.takes a q.2.dest = true := by
  have hm : (q.1, q.2.dest, q.2.msg) ∈ sends a h := by
    rw [← dispatched_sends hr a]
    exact List.mem_map_of_mem hq
  obtain ⟨addr, ha, -, ht⟩ := sends_own hr hd _ hm
  obtain ⟨early, hsub, hrun, hp⟩ := dispatched_pending hr hq
  have hdest := pending_addr hrun (fun e he => hd e (hsub he)) hp hra
  refine ht ho ?_
  rw [ha] at hdest
  exact (Option.some.inj hdest).symm

theorem enqueued_filter {p : State × Output → Bool}
    (hto : ∀ q ∈ dispatched a h, q.1.takes d q.2.dest = true → q.2.recipient = some d)
    (hp : ∀ q ∈ dispatched a h, q.2.recipient = some d → q.1.takes d q.2.dest = p q) :
    enqueued a d h = (dispatched a h).filter (fun q => decide (q.2.recipient = some d) && p q) := by
  apply List.filter_congr
  intro q hm
  by_cases hrd : q.2.recipient = some d
  · simp [hrd, hp q hm hrd]
  · simp [hrd, mt (hto q hm) hrd]

/-- Whatever the interleaving, every output that the processed messages of `a`
determine is sent once, in order, or still waits with the handler, and the
messages that `a` put into the queue of `d` are those sent to the address of `d`
while it could take them. Among them are, as determined for `d`, exactly the
outputs for `d` that were sent while its handle was in the clients map and its
writer held the receiver; there are no others unless `d` took over an address to
which `a` had still to send. To itself a handler sends nothing in vain as long
as its writer holds the receiver. -/
theorem relay_queues (hr : Run h s) (hd : DistinctAddrs h) (a d : ConnId) :
    promised a h = (dispatched a h).map (fun q => q.2) ++ owed a h ∧
    (owed a h).map Output.call = s.outgoing a ∧
    (dispatched a h).map (fun q => (q.1, q.2.dest, q.2.msg)) = sends a h ∧
    fromOrigin a (s.queue d) = (enqueued a d h).map (fun q => q.2.msg) ∧
    (enqueued a d h).filter (fun q => decide (q.2.recipient = some d)) =
      (dispatched a h).filter (fun q => decide (q.2.recipient = some d) && q.1.live d) ∧
    ((∀ e ∈ h, ¬ TakesOver a d e) → fromOrigin a (s.queue d) =
      ((dispatched a h).filter (fun q => decide (q.2.recipient = some d) && q.1.live d)).map
        (fun q => q.2.msg)) ∧
    (s.rxOpen a = true → fromOrigin a (s.queue a) =
      ((dispatched a h).filter (fun q => decide (q.2.recipient = some a))).map
        (fun q => q.2.msg)) := by
  have hq := fromOrigin_queue hr hd a
  simp only [← dispatched_sends hr a, List.filter_map, List.map_map, Function.comp_def] at hq
  have hown : ∀ e ∈ h, ¬ TakesOver a a e := fun e he => not_takesOver_own hr he
  refine ⟨promised_eq a h, owed_calls hr a, dispatched_sends hr a, hq d, ?_, ?_, ?_⟩
  · rw [enqueued, List.filter_filter]
    apply List.filter_congr
    intro q hm
    by_cases hrd : q.2.recipient = some d
    · simp [hrd, takes_recipient hr hd hm hrd]
    · simp [hrd]
  · intro hn
    have hf := enqueued_filter (fun q hm => recipient_of_takes hr hd hn hm)
      (fun q hm hrd => takes_recipient hr hd hm hrd)
    rw [hq d, ← hf]
    rfl
  · intro ho
    have hf := enqueued_filter (fun q hm => recipient_of_takes hr hd hown hm)
      (fun q hm hra => takes_own hr hd ho hm hra)
    simp only [Bool.and_true] at hf
    rw [hq a, ← hf]
    rfl

/-- A client asks to join a world, and signals its host. -/
def greeting : List Label :=
  [.accept 0 (.v4 1 1), .insert 0, .read 0 (.registerHost ⟨7, default⟩),
    .handle 0 (.registerHost ⟨7, default⟩), .sendTo 0 (.v4 1 1) (.registered 7),
    .accept 1 (.v4 1 2), .insert 1, .read 1 (.connectRequest 7 9), .handle 1 (.connectRequest 7 9),
    .openSession 1 (.v4 1 1) 9, .sendTo 1 (.v4 1 1) (.incomingJoin 9 1),
    .sendTo 1 (.v4 1 2) (.joinAccepted 1), .read 1 (.signal 7 5 9 "CONNECTREQUEST"),
    .handle 1 (.signal 7 5 9 "CONNECTREQUEST"), .sendTo 1 (.v4 1 1) (.signal 5 9 "CONNECTREQUEST"),
    .read 1 .ping, .handle 1 .ping]

theorem relay_queues_greeting :
    fromOrigin 1 ((replay machine greeting).2.queue 0) =
      [.incomingJoin 9 1, .signal 5 9 "CONNECTREQUEST"] ∧
    fromOrigin 1 ((replay machine greeting).2.queue 1) = [.joinAccepted 1] ∧
    (owed 1 (replay machine greeting).1).map Output.call = [(.v4 1 2, .pong)] := by
  obtain ⟨-, howed, -, -, -, hd, ho⟩ :=
    relay_queues (replay_run greeting) (replay_distinctAddrs greeting (by decide)) 1 0
  refine ⟨?_, ?_, ?_⟩
  · rw [hd (by decide +kernel)]
    decide +kernel
  · rw [ho (by decide +kernel)]
    decide +kernel
  · rw [howed]
    decide +kernel

/-- The writer of a client fails before the client is cleaned up. -/
def deadWriter : List Label :=
  [.accept 0 (.v4 1 1), .insert 0, .closeRx 0, .read 0 .ping, .handle 0 .ping,
    .sendTo 0 (.v4 1 1) .pong]

/-- A host leaves after a signal was routed to it, and a new connection gets its
address before the signal is sent. -/
def takenOver : List Label :=
  [.accept 0 (.v4 1 1), .insert 0, .read 0 (.registerHost ⟨7, default⟩),
    .handle 0 (.registerHost ⟨7, default⟩), .sendTo 0 (.v4 1 1) (.registered 7),
    .accept 1 (.v4 1 2), .insert 1, .read 1 (.signal 7 5 9 "CONNECTREQUEST"),
    .handle 1 (.signal 7 5 9 "CONNECTREQUEST"), .leave 0, .cleanup 0, .accept 2 (.v4 1 1),
    .insert 2, .sendTo 1 (.v4 1 1) (.signal 5 9 "CONNECTREQUEST")]

theorem relay_queues_inexact :
    (∃ h s, Run h s ∧ DistinctAddrs h ∧ promised 0 h = [⟨some 0, .v4 1 1, .pong⟩] ∧
      owed 0 h = [] ∧ (∀ q ∈ dispatched 0 h, (q.1.addr 0).bind q.1.reg.connAt = some 0) ∧
      fromOrigin 0 (s.queue 0) = []) ∧
    ∃ h s, Run h s ∧ DistinctAddrs h ∧
      promised 1 h = [⟨some 0, .v4 1 1, .signal 5 9 "CONNECTREQUEST"⟩] ∧
      fromOrigin 1 (s.queue 2) = [.signal 5 9 "CONNECTREQUEST"] := by
  refine ⟨⟨_, _, replay_run deadWriter, replay_distinctAddrs deadWriter (by decide), ?_⟩,
    _, _, replay_run takenOver, ?_, ?_⟩
  · decide +kernel
  · exact distinctAddrs_of_apart (replay_run takenOver) (by decide +kernel)
  · decide +kernel

end Mineshaft.Server
