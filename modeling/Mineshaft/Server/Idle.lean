import Mineshaft.Client.Timing
import Mineshaft.Server.Directory

namespace Mineshaft.Server

open Mineshaft.Core Mineshaft.Lib Mineshaft.Lib.Transition
open Mineshaft.Client (clientIdleTimeout)

def Task.patience : Task → Nat
  | .reading => clientIdleTimeout
  | .spawned | .handling _ | .connecting _ _ | .sending _ _ | .returned | .finished => 0

/-- The server in time: for each connection when its handler took its last step,
and when it read its last frame or was spawned. -/
structure Idle where
  server : State
  now : Nat
  accepted : List ConnId
  since : ConnId → Nat
  heard : ConnId → Nat

namespace Idle

inductive Label
  | wait (d : Nat)
  | server (l : Server.Label)

def init : Idle := ⟨State.init, 0, [], fun _ => 0, fun _ => 0⟩

/-- A handler that has not finished goes on at most `slack` later than it means
to, whatever it waits for: the lock, the scheduler or the timer. -/
def Waits (slack : Nat) (s : Idle) (d : Nat) : Prop :=
  ∀ c ∈ s.accepted, ∀ t ∈ s.server.task c, t ≠ .finished →
    s.now + d ≤ s.since c + t.patience + slack

instance (slack : Nat) (s : Idle) (d : Nat) : Decidable (Waits slack s d) :=
  inferInstanceAs (Decidable (∀ c ∈ s.accepted, ∀ t ∈ s.server.task c, t ≠ .finished →
    s.now + d ≤ s.since c + t.patience + slack))

def after (s : Idle) (s' : State) : Server.Label → Idle
  | .accept c _ =>
    { s with
      server := s'
      accepted := c :: s.accepted
      since := Function.update s.since c s.now
      heard := Function.update s.heard c s.now }
  | .read c _ =>
    { s with
      server := s'
      since := Function.update s.since c s.now
      heard := Function.update s.heard c s.now }
  | .insert c | .handle c _ | .listHosts c _ | .openSession c _ _ | .sendTo c _ _ | .leave c
  | .cleanup c => { s with server := s', since := Function.update s.since c s.now }
  | .write _ | .closeRx _ => { s with server := s' }

def step (slack : Nat) (s : Idle) : Label → Option Idle
  | .wait d => if Waits slack s d then some { s with now := s.now + d } else none
  | .server l => (Server.step s.server l).map (fun s' => s.after s' l)

def machine (slack : Nat) : Machine Idle Label := ⟨init, step slack⟩

abbrev Event := Transition.Event Idle Label

def lag (slack : Nat) : Task → Nat
  | .spawned | .handling _ => 0
  | .connecting _ _ => slack
  | .sending _ rest => (3 - rest.length) * slack
  | .reading => 4 * slack
  | .returned => 5 * slack + clientIdleTimeout
  | .finished => 6 * slack + clientIdleTimeout

def Short : Task → Prop
  | .sending _ rest => rest.length ≤ 1
  | .spawned | .reading | .handling _ | .connecting _ _ | .returned | .finished => True

/-- The handler of `c`, which stands at `t`, is on time. -/
structure Paced (slack : Nat) (s : Idle) (c : ConnId) (t : Task) : Prop where
  accepted : c ∈ s.accepted
  lag : s.since c ≤ s.heard c + lag slack t
  now : s.now ≤ s.since c + t.patience + slack
  short : Short t

variable {slack : Nat} {s s' : Idle} {c : ConnId}

theorem lag_handling (msg : ClientMessage) :
    lag slack (.handling msg) + (Task.handling msg).patience + slack = slack := by
  simp [lag, Task.patience]

theorem lag_reading : slack ≤ lag slack .reading ∧ Short .reading :=
  ⟨by simp only [lag]; omega, trivial⟩

theorem lag_sending (x : SocketAddr × ServerMessage) :
    slack ≤ lag slack (.sending x []) ∧ Short (.sending x []) :=
  ⟨by simp only [lag, List.length_nil]; omega, Nat.zero_le 1⟩

theorem handle_task {reg : Registry} {addr : SocketAddr} {msg : ClientMessage}
    {r : Registry × Task} (h : handle reg addr msg = some r) :
    r.2 = .reading ∨ (∃ x, r.2 = .sending x []) ∨ ∃ host n, r.2 = .connecting host n := by
  cases msg with
  | listHosts => cases h
  | ping | registerHost =>
    cases h
    exact Or.inr (Or.inl ⟨_, rfl⟩)
  | updateHost | unregisterHost =>
    cases h
    exact Or.inl rfl
  | connectRequest t n =>
    simp only [handle] at h
    split at h <;> cases h
    · exact Or.inr (Or.inr ⟨_, _, rfl⟩)
    · exact Or.inr (Or.inl ⟨_, rfl⟩)
  | signal t k n d =>
    cases h
    dsimp only
    split
    · exact Or.inr (Or.inl ⟨_, rfl⟩)
    · exact Or.inl rfl

theorem handle_lag {reg : Registry} {addr : SocketAddr} {msg : ClientMessage}
    {r : Registry × Task} (h : handle reg addr msg = some r) :
    slack ≤ lag slack r.2 ∧ Short r.2 := by
  obtain ht | ⟨x, ht⟩ | ⟨host, n, ht⟩ := handle_task h <;> rw [ht]
  · exact lag_reading
  · exact lag_sending x
  · exact ⟨Nat.le_refl _, trivial⟩

theorem sends_lag {next : SocketAddr × ServerMessage} {rest : List (SocketAddr × ServerMessage)}
    (hs : Short (.sending next rest)) :
    lag slack (.sending next rest) + (Task.sending next rest).patience + slack ≤
      lag slack (afterSends rest) ∧ Short (afterSends rest) := by
  have hlen : rest.length ≤ 1 := hs
  cases rest with
  | nil =>
    refine ⟨?_, trivial⟩
    simp only [afterSends, lag, Task.patience, List.length_nil]
    omega
  | cons x rest =>
    have hrest : rest.length = 0 := by simpa using hlen
    refine ⟨?_, by simp [afterSends, Short, hrest]⟩
    simp only [afterSends, lag, Task.patience, List.length_cons, hrest]
    omega

theorem moves_after {reg : Registry} {addr : SocketAddr} {l : Server.Label} {t t' : Task}
    (hm : Moves reg addr l (some t) (some t')) (ht : Short t) (slack : Nat) (s : Idle) (u : State) :
    t' = t ∧ s.after u l = { s with server := u } ∨
    (∃ msg, t' = .handling msg ∧ s.after u l = { s with
      server := u
      since := Function.update s.since l.conn s.now
      heard := Function.update s.heard l.conn s.now }) ∨
    lag slack t + t.patience + slack ≤ lag slack t' ∧ Short t' ∧ s.after u l = { s with
      server := u
      since := Function.update s.since l.conn s.now } := by
  cases hm with
  | write | closeRx => exact Or.inl ⟨rfl, rfl⟩
  | @read c msg => exact Or.inr (Or.inl ⟨msg, rfl, rfl⟩)
  | insert | leave | cleanup =>
    refine Or.inr (Or.inr ⟨?_, trivial, rfl⟩)
    simp only [lag, Task.patience]
    omega
  | handle hh =>
    obtain ⟨h1, h2⟩ := handle_lag hh
    exact Or.inr (Or.inr ⟨(lag_handling _).trans_le h1, h2, rfl⟩)
  | listHosts _ =>
    obtain ⟨h1, h2⟩ := lag_sending _
    exact Or.inr (Or.inr ⟨(lag_handling _).trans_le h1, h2, rfl⟩)
  | openSession =>
    refine Or.inr (Or.inr ⟨?_, Nat.le_refl 1, rfl⟩)
    simp only [afterSends, lag, Task.patience, List.length_cons, List.length_nil]
    omega
  | sendTo =>
    obtain ⟨h1, h2⟩ := sends_lag ht
    exact Or.inr (Or.inr ⟨h1, h2, rfl⟩)

theorem after_frame (s : Idle) (u : State) {l : Server.Label} (hc : c ≠ l.conn) :
    (s.after u l).since c = s.since c ∧ (s.after u l).heard c = s.heard c ∧
      (c ∈ s.accepted → c ∈ (s.after u l).accepted) := by
  cases l with
  | accept d addr =>
    have hd : c ≠ d := hc
    simp [after, hd]
  | _ =>
    have hd := hc
    simp only [Label.conn] at hd
    simp [after, hd]

@[simp] theorem after_now (s : Idle) (u : State) (l : Server.Label) :
    (s.after u l).now = s.now := by
  cases l <;> rfl

@[simp] theorem after_server (s : Idle) (u : State) (l : Server.Label) :
    (s.after u l).server = u := by
  cases l <;> rfl

theorem moves_finished {reg : Registry} {addr : SocketAddr} {l : Server.Label} {t t' : Task}
    (hm : Moves reg addr l (some t) (some t')) (hf : t' ≠ .finished) : t ≠ .finished := by
  rintro rfl
  cases hm <;> exact hf rfl

def AllPaced (slack : Nat) (s : Idle) : Prop :=
  ∀ c t, s.server.task c = some t → t ≠ .finished → Paced slack s c t

theorem server_paced {u : State} {l : Server.Label} (hi : AllPaced slack s)
    (hs : Server.step s.server l = some u) : AllPaced slack (s.after u l) := by
  intro c t ht hf
  rw [after_server] at ht
  obtain ⟨⟨addr, -, -, hm⟩, hframe⟩ := step_moves hs
  by_cases hc : c = l.conn
  · subst hc
    rw [ht] at hm
    cases hb : s.server.task l.conn with
    | none =>
      rw [hb] at hm
      cases hm with
      | accept =>
        refine ⟨List.mem_cons_self, ?_, ?_, trivial⟩
        · simp [after, Label.conn]
        · simp only [after, Label.conn, Function.update_self]
          omega
    | some t₀ =>
      rw [hb] at hm
      obtain ⟨hacc, hlag, hnow, hshort⟩ := hi _ t₀ hb (moves_finished hm hf)
      obtain ⟨rfl, he⟩ | ⟨msg, rfl, he⟩ | ⟨hle, hsh, he⟩ := moves_after hm hshort slack s u
      · rw [he]
        exact ⟨hacc, hlag, hnow, hshort⟩
      · rw [he]
        refine ⟨hacc, ?_, ?_, trivial⟩ <;> simp only [Function.update_self] <;> omega
      · rw [he]
        refine ⟨hacc, ?_, ?_, hsh⟩ <;> simp only [Function.update_self] <;> omega
  · rw [(hframe c hc).1] at ht
    obtain ⟨hacc, hlag, hnow, hshort⟩ := hi c t ht hf
    obtain ⟨hsince, hheard, haccept⟩ := after_frame s u hc
    refine ⟨haccept hacc, ?_, ?_, hshort⟩
    · rw [hsince, hheard]
      exact hlag
    · rw [hsince, after_now]
      exact hnow

theorem step_paced {l : Label} (hi : AllPaced slack s) (hs : step slack s l = some s') :
    AllPaced slack s' := by
  cases l with
  | wait d =>
    simp only [step] at hs
    split at hs <;> cases hs
    next hw =>
      intro c t ht hf
      obtain ⟨hacc, hlag, -, hshort⟩ := hi c t ht hf
      exact ⟨hacc, hlag, hw c hacc t ht hf, hshort⟩
  | server l =>
    obtain ⟨u, hu, rfl⟩ := Option.map_eq_some_iff.mp hs
    exact server_paced hi hu

theorem run_paced {h : List Event} (hr : Transition.Run (machine slack) h s) : AllPaced slack s := by
  induction hr with
  | nil =>
    intro c t ht
    cases ht
  | cons _ hs ih => exact step_paced ih hs

theorem Paced.now_le {t : Task} (hp : Paced slack s c t) (hf : t ≠ .finished) :
    s.now ≤ s.heard c + clientIdleTimeout + 6 * slack := by
  have hlag := hp.lag
  have hnow := hp.now
  have hle : Idle.lag slack t + t.patience ≤ clientIdleTimeout + 5 * slack := by
    cases t with
    | finished => exact absurd rfl hf
    | sending next rest =>
      have h3 : (3 - rest.length) * slack ≤ 3 * slack := Nat.mul_le_mul_right _ (by omega)
      simp only [Idle.lag, Task.patience]
      omega
    | spawned | reading | handling | connecting | returned =>
      simp only [Idle.lag, Task.patience]
      omega
  omega

theorem handling_enabled {u : State} {k : Conn} {msg : ClientMessage} (hk : u.conns c = some k)
    (ht : k.task = .handling msg) :
    ∃ u', Server.step u (.handle c msg) = some u' ∨
      Server.step u (.listHosts c u.reg.hostRecords.values) = some u' := by
  by_cases hmsg : msg = .listHosts
  · subst hmsg
    exact ⟨_, Or.inr (atTask_eq_some.mpr ⟨k, hk, ht, if_pos (List.Perm.refl _)⟩)⟩
  · have hsome : ∃ r, handle u.reg k.addr msg = some r := by
      cases msg with
      | listHosts => exact absurd rfl hmsg
      | connectRequest t n =>
        simp only [handle]
        split <;> exact ⟨_, rfl⟩
      | _ => exact ⟨_, rfl⟩
    obtain ⟨r, hr⟩ := hsome
    exact ⟨_, Or.inl (atTask_eq_some.mpr ⟨k, hk, ht, by rw [hr]; rfl⟩)⟩

/-- A step by which a handler goes on and does not hang up. -/
def GoesOn (l : Server.Label) : Prop := ∀ c, l ≠ .write c ∧ l ≠ .closeRx c ∧ l ≠ .leave c

theorem handler_enabled {u : State} {t : Task} (ht : u.task c = some t) (hf : t ≠ .finished) :
    ∃ l u', Server.step u l = some u' ∧ l.conn = c ∧ GoesOn l ∧ ∀ s : Idle,
      (s.after u' l).since = Function.update s.since c s.now ∧
        (s.after u' l).accepted = s.accepted := by
  obtain ⟨k, hk, hkt⟩ := State.task_eq_some.mp ht
  cases t with
  | spawned =>
    exact ⟨.insert c, _, atTask_eq_some.mpr ⟨k, hk, hkt, rfl⟩, rfl, by simp [GoesOn],
      fun _ => ⟨rfl, rfl⟩⟩
  | reading =>
    exact ⟨.read c .ping, _, atTask_eq_some.mpr ⟨k, hk, hkt, rfl⟩, rfl, by simp [GoesOn],
      fun _ => ⟨rfl, rfl⟩⟩
  | handling msg =>
    obtain ⟨u', hs | hs⟩ := handling_enabled hk hkt
    · exact ⟨_, u', hs, rfl, by simp [GoesOn], fun _ => ⟨rfl, rfl⟩⟩
    · exact ⟨_, u', hs, rfl, by simp [GoesOn], fun _ => ⟨rfl, rfl⟩⟩
  | connecting host n =>
    exact ⟨.openSession c host n, _, atTask_eq_some.mpr ⟨k, hk, hkt, rfl⟩, rfl, by simp [GoesOn],
      fun _ => ⟨rfl, rfl⟩⟩
  | sending next rest =>
    exact ⟨.sendTo c next.1 next.2, _, step_sendTo_iff.mpr ⟨k, rest, hk, hkt, rfl⟩, rfl,
      by simp [GoesOn], fun _ => ⟨rfl, rfl⟩⟩
  | returned =>
    exact ⟨.cleanup c, _, atTask_eq_some.mpr ⟨k, hk, hkt, rfl⟩, rfl, by simp [GoesOn],
      fun _ => ⟨rfl, rfl⟩⟩
  | finished => exact absurd rfl hf

/-- How many steps lead a handler to wait for a frame anew. -/
def rounds : Task → Nat
  | .reading => 5
  | .handling _ => 4
  | .connecting _ _ => 3
  | .sending _ rest => rest.length + 1
  | .spawned | .returned => 1
  | .finished => 0

theorem moves_rounds {reg : Registry} {addr : SocketAddr} {l : Server.Label} {t t' : Task}
    (hm : Moves reg addr l (some t) (some t')) (hl : GoesOn l) :
    t' = .reading ∨ t' = .finished ∨ rounds t' < rounds t := by
  cases hm with
  | @write c => exact absurd rfl (hl c).1
  | @closeRx c => exact absurd rfl (hl c).2.1
  | @leave c => exact absurd rfl (hl c).2.2
  | insert => exact Or.inl rfl
  | cleanup => exact Or.inr (Or.inl rfl)
  | read | openSession => exact Or.inr (Or.inr (Nat.lt_add_one _))
  | listHosts _ => exact Or.inr (Or.inr (by simp [afterSends, rounds]))
  | handle hh =>
    obtain ht | ⟨x, ht⟩ | ⟨host, n, ht⟩ := handle_task hh <;> rw [ht]
    · exact Or.inl rfl
    · exact Or.inr (Or.inr (by simp [rounds]))
    · exact Or.inr (Or.inr (by simp [rounds]))
  | @sendTo c dest msg rest =>
    cases rest with
    | nil => exact Or.inl rfl
    | cons x rest => exact Or.inr (Or.inr (Nat.lt_add_one _))

/-- The handler of `c` has just begun to wait for a frame, or has finished. -/
def Rested (s : Idle) (c : ConnId) : Prop :=
  ∀ t, s.server.task c = some t → t ≠ .finished → t = .reading ∧ s.since c = s.now

structure Onward (slack : Nat) (h : List Event) (s : Idle) (late : List Event) (s' : Idle) : Prop where
  run : Transition.Run (machine slack) (late ++ h) s'
  now : s'.now = s.now
  accepted : s'.accepted = s.accepted
  stays : ∀ e ∈ late, ∀ c, e.label ≠ .server (.leave c)

theorem Onward.refl {h : List Event} (hr : Transition.Run (machine slack) h s) :
    Onward slack h s [] s :=
  ⟨hr, rfl, rfl, by simp⟩

theorem Onward.trans {h late later : List Event} {s'' : Idle} (ho : Onward slack h s late s')
    (ho' : Onward slack (late ++ h) s' later s'') : Onward slack h s (later ++ late) s'' where
  run := by
    rw [List.append_assoc]
    exact ho'.run
  now := ho'.now.trans ho.now
  accepted := ho'.accepted.trans ho.accepted
  stays := by
    intro e he
    obtain he | he := List.mem_append.mp he
    · exact ho'.stays e he
    · exact ho.stays e he

theorem step_onward {h : List Event} (hr : Transition.Run (machine slack) h s) {t : Task}
    (ht : s.server.task c = some t) (hf : t ≠ .finished) :
    ∃ late s' t', Onward slack h s late s' ∧ s'.server.task c = some t' ∧ s'.since c = s'.now ∧
      (t' = .reading ∨ t' = .finished ∨ rounds t' < rounds t) ∧
      ∀ d, d ≠ c → Rested s d → Rested s' d := by
  obtain ⟨l, u, hu, rfl, hl, hafter⟩ := handler_enabled ht hf
  obtain ⟨hsince, hacc⟩ := hafter s
  obtain ⟨⟨addr, -, -, hm⟩, hframe⟩ := step_moves hu
  have hs : step slack s (.server l) = some (s.after u l) := by simp only [step, hu, Option.map_some]
  rw [ht] at hm
  generalize ht' : u.task l.conn = t' at hm
  cases t' with
  | none => cases hm
  | some t' =>
    refine ⟨[⟨s, .server l⟩], s.after u l, t', ⟨hr.cons hs, by simp, hacc, ?_⟩, by simpa using ht',
      ?_, moves_rounds hm hl, ?_⟩
    · intro e he c
      obtain rfl := List.mem_singleton.mp he
      simpa using (hl c).2.2
    · rw [hsince, Function.update_self, after_now]
    · intro d hd hrest t₀ ht₀ hf₀
      rw [after_server, (hframe d hd).1] at ht₀
      rw [hsince, Function.update_of_ne hd, after_now]
      exact hrest t₀ ht₀ hf₀

theorem rest_onward {h : List Event} (hr : Transition.Run (machine slack) h s) {n : Nat} {t : Task}
    (ht : s.server.task c = some t) (hf : t ≠ .finished) (hn : rounds t ≤ n) :
    ∃ late s', Onward slack h s late s' ∧ Rested s' c ∧ ∀ d, d ≠ c → Rested s d → Rested s' d := by
  induction n generalizing h s t with
  | zero =>
    cases t with
    | finished => exact absurd rfl hf
    | reading | handling | connecting | sending | spawned | returned => simp [rounds] at hn
  | succ n ih =>
    obtain ⟨late, s₁, t₁, ho, ht₁, hsince, hcase, hothers⟩ := step_onward hr ht hf
    by_cases hdone : t₁ = .reading ∨ t₁ = .finished
    · refine ⟨late, s₁, ho, ?_, hothers⟩
      intro t₂ ht₂ hf₂
      obtain rfl := Option.some.inj (ht₁.symm.trans ht₂)
      exact ⟨hdone.resolve_right hf₂, hsince⟩
    · obtain ⟨hne, hf₁⟩ := not_or.mp hdone
      have hlt := (hcase.resolve_left hne).resolve_left hf₁
      obtain ⟨later, s₂, ho₂, hrest, hothers₂⟩ := ih ho.run ht₁ hf₁ (by omega)
      exact ⟨later ++ late, s₂, ho.trans ho₂, hrest, fun d hd hd₀ => hothers₂ d hd (hothers d hd hd₀)⟩

theorem rest_all {h : List Event} (hr : Transition.Run (machine slack) h s) (cs : List ConnId) :
    ∃ late s', Onward slack h s late s' ∧ ∀ c ∈ cs, Rested s' c := by
  induction cs with
  | nil => exact ⟨[], s, Onward.refl hr, by simp⟩
  | cons c cs ih =>
    obtain ⟨late, s₁, ho, hall⟩ := ih
    by_cases hc : Rested s₁ c
    · refine ⟨late, s₁, ho, fun d hd => ?_⟩
      obtain rfl | hd := List.mem_cons.mp hd
      · exact hc
      · exact hall d hd
    · have hex : ∃ t, s₁.server.task c = some t ∧ t ≠ .finished := by
        by_contra hno
        push Not at hno
        exact hc (fun t ht hf => absurd (hno t ht) hf)
      obtain ⟨t, ht, hf⟩ := hex
      obtain ⟨later, s₂, ho₂, hrest, hothers⟩ := rest_onward ho.run ht hf (Nat.le_refl _)
      refine ⟨later ++ late, s₂, ho.trans ho₂, fun d hd => ?_⟩
      by_cases hdc : d = c
      · rw [hdc]
        exact hrest
      · exact hothers d hdc (hall d ((List.mem_cons.mp hd).resolve_left hdc))

/-- The bound on the delays never stops the clock: without any client leaving,
all handlers can come to wait for frames. -/
theorem time_passes {h : List Event} (hr : Transition.Run (machine slack) h s) {d : Nat}
    (hd : d ≤ clientIdleTimeout + slack) :
    ∃ late s', Transition.Run (machine slack) (late ++ h) s' ∧ s'.now = s.now + d ∧
      ∀ e ∈ late, ∀ c, e.label ≠ .server (.leave c) := by
  obtain ⟨late, s', ho, hall⟩ := rest_all hr s.accepted
  have hw : Waits slack s' d := by
    intro c hc t ht hf
    rw [ho.accepted] at hc
    obtain ⟨rfl, hs⟩ := hall c hc t ht hf
    simp only [Task.patience]
    omega
  have hs : step slack s' (.wait d) = some { s' with now := s'.now + d } := if_pos hw
  refine ⟨⟨s', .wait d⟩ :: late, _, ho.run.cons hs, by simp [ho.now], ?_⟩
  intro e he
  obtain rfl | he := List.mem_cons.mp he
  · simp
  · exact ho.stays e he

def serverEvents (h : List Event) : List Server.Event :=
  h.filterMap (fun e =>
    match e.label with
    | .server l => some ⟨e.pre.server, l⟩
    | .wait _ => none)

theorem server_run {h : List Event} (hr : Transition.Run (machine slack) h s) :
    Server.Run (serverEvents h) s.server := by
  refine hr.project (fun s : Idle => s.server) _ rfl ?_
  intro s l s' hs
  cases l with
  | wait d =>
    change (if Waits slack s d then _ else none) = some s' at hs
    split at hs <;> cases hs
    exact Or.inr ⟨rfl, rfl⟩
  | server l =>
    obtain ⟨u, hu, rfl⟩ := Option.map_eq_some_iff.mp hs
    refine Or.inl ⟨l, rfl, ?_⟩
    rw [after_server]
    exact hu

theorem client_heard {h : List Event} (hr : Transition.Run (machine slack) h s)
    (hd : DistinctAddrs (serverEvents h)) {a : SocketAddr}
    (hc : s.server.reg.clients.lookup a = some ⟨c⟩) :
    s.now ≤ s.heard c + clientIdleTimeout + 6 * slack := by
  have hst := (run_wired (server_run hr) hd).live a c hc
  obtain ⟨k, hk, he⟩ := Option.map_eq_some_iff.mp hst
  have hf : k.task ≠ .finished := by
    intro hf
    simp [hf, Task.stage] at he
  exact (run_paced hr c k.task (State.task_eq_some.mpr ⟨k, hk, rfl⟩) hf).now_le hf

theorem host_heard {h : List Event} (hr : Transition.Run (machine slack) h s)
    (hd : DistinctAddrs (serverEvents h)) {id : UInt64} {r : AdvertisedServer}
    (hl : s.server.reg.hostRecords.lookup id = some r) :
    ∃ c, hostConn s.server.reg id = some c ∧ s.now ≤ s.heard c + clientIdleTimeout + 6 * slack := by
  have hcon := run_consistent (server_run hr) hd
  obtain ⟨a, ha⟩ := Option.isSome_iff_exists.mp ((hcon.keys id).trans (by rw [hl]; rfl))
  obtain ⟨⟨c⟩, hc⟩ := Option.isSome_iff_exists.mp (hcon.owner id a ha)
  refine ⟨c, ?_, client_heard hr hd hc⟩
  simp [hostConn, ha, hc]

/-- No ghosts. When every handler goes on within `slack` and connections have
distinct addresses, a client is connected only while it was heard within the idle
timeout and six such delays; the same holds of the host behind every entry of
every host list. This is no effect of time standing still: from every state the
clock can go on for the whole idle timeout, with nobody leaving. -/
theorem no_ghost_hosts {slack : Nat} {h : List Event} {s : Idle}
    (hr : Transition.Run (machine slack) h s) (hd : DistinctAddrs (serverEvents h)) :
    (∀ a c, s.server.reg.clients.lookup a = some ⟨c⟩ →
      s.now ≤ s.heard c + clientIdleTimeout + 6 * slack) ∧
    (∀ e ∈ h, ∀ c hosts, e.label = .server (.listHosts c hosts) → ∀ r ∈ hosts,
      ∃ owner, hostConn e.pre.server.reg r.senderId = some owner ∧
        e.pre.now ≤ e.pre.heard owner + clientIdleTimeout + 6 * slack) ∧
    ∀ d ≤ clientIdleTimeout + slack, ∃ late s', Transition.Run (machine slack) (late ++ h) s' ∧
      s'.now = s.now + d ∧ ∀ e ∈ late, ∀ c, e.label ≠ .server (.leave c) := by
  refine ⟨fun a c hc => client_heard hr hd hc, ?_, fun d hd => time_passes hr hd⟩
  intro e he c hosts hl r hmem
  obtain ⟨early, hsub, hrun⟩ := hr.of_mem he
  have hd' : DistinctAddrs (serverEvents early) :=
    fun e he => hd e (List.filterMap_subset _ hsub he)
  obtain ⟨s', hs, -⟩ := hr.post_mem he
  have hs : step slack e.pre e.label = some s' := hs
  rw [hl] at hs
  obtain ⟨u, hu, -⟩ := Option.map_eq_some_iff.mp hs
  obtain ⟨a, -, hperm⟩ := listHosts_inv hu
  obtain ⟨id, hid⟩ := (HashMap.mem_values _ _).mp (hperm.mem_iff.mp hmem)
  have hkey := (run_consistent (server_run hrun) hd').senderId id r hid
  rw [hkey]
  exact host_heard hrun hd' hid

/-- A host falls silent and is listed a last time after its idle timeout. -/
def silentHost : List Label :=
  [.server (.accept 0 (.v4 1 1)), .server (.insert 0),
    .server (.read 0 (.registerHost ⟨7, default⟩)), .server (.handle 0 (.registerHost ⟨7, default⟩)),
    .server (.sendTo 0 (.v4 1 1) (.registered 7)), .wait 45005, .server (.accept 1 (.v4 1 2)),
    .server (.insert 1), .server (.read 1 .listHosts), .server (.listHosts 1 [⟨7, default⟩])]

theorem no_ghost_hosts_silentHost :
    (replay (machine 10) silentHost).1.length = 10 ∧
      (replay (machine 10) silentHost).2.now ≤
        (replay (machine 10) silentHost).2.heard 0 + clientIdleTimeout + 6 * 10 := by
  have hr : Transition.Run (machine 10) _ _ := replay_run silentHost
  have hd : DistinctAddrs (serverEvents (replay (machine 10) silentHost).1) :=
    distinctAddrs_of_nodup (server_run hr) (by decide +kernel)
  refine ⟨by decide +kernel, (no_ghost_hosts hr hd).1 (.v4 1 1) 0 ?_⟩
  decide +kernel

end Idle

end Mineshaft.Server
