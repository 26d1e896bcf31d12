import Mineshaft.Lib.Transition

namespace Mineshaft.Core.Heartbeat

open Mineshaft.Lib Mineshaft.Lib.Transition

/-- How far a call of `start` or `stop` is. A `stop` that has taken the task
keeps the lock of the slot while it waits for the task. -/
inductive Phase
  | starting
  | stopping
  | awaiting (task : Nat)
  | returned
  deriving DecidableEq

/-- The calls and the heartbeat tasks are numbered in the order in which they
begin. A task that is alive owns a handle to the service. -/
structure Service where
  handles : Nat
  cancelled : Bool
  slot : Option Nat
  calls : List Phase
  alive : List Bool

/-- Handles are cloned and dropped, calls begin, get the lock and see their task
end, and a heartbeat ticks or notices the cancellation. -/
inductive Label
  | clone
  | drop
  | start
  | stop
  | enter (call : Nat)
  | join (call : Nat)
  | tick (task : Nat)
  | exit (task : Nat)
  deriving DecidableEq

def Phase.isStop : Phase → Bool
  | .stopping | .awaiting _ => true
  | .starting | .returned => false

def Phase.isAwaiting : Phase → Bool
  | .awaiting _ => true
  | .starting | .stopping | .returned => false

def Service.locked (s : Service) : Bool := s.calls.any Phase.isAwaiting

def Service.stopInProgress (s : Service) : Bool := s.calls.any Phase.isStop

/-- A call borrows a handle until it returns. -/
def Service.borrowed (s : Service) : Bool := s.calls.any (fun phase => decide (phase ≠ .returned))

def Service.anyAlive (s : Service) : Bool := s.alive.any id

def step (s : Service) : Label → Option Service
  | .clone => if 0 < s.handles then some { s with handles := s.handles + 1 } else none
  | .drop =>
    if s.handles = 0 ∨ s.handles = 1 ∧ s.borrowed then none
    else
      -- `Drop` runs when no handle is left, that of the task included
      some { s with
        handles := s.handles - 1
        cancelled := s.cancelled || (s.handles = 1 && !s.anyAlive) }
  | .start => if 0 < s.handles then some { s with calls := s.calls ++ [.starting] } else none
  | .stop =>
    if 0 < s.handles then some { s with calls := s.calls ++ [.stopping], cancelled := true }
    else none
  | .enter call =>
    if s.locked then none
    else
      match s.calls[call]?, s.slot with
      | some .starting, some _ => some { s with calls := s.calls.set call .returned }
      | some .starting, none =>
        some { s with
          calls := s.calls.set call .returned
          slot := some s.alive.length
          alive := s.alive ++ [true] }
      | some .stopping, some task =>
        some { s with calls := s.calls.set call (.awaiting task), slot := none }
      | some .stopping, none => some { s with calls := s.calls.set call .returned }
      | _, _ => none
  | .join call =>
    match s.calls[call]? with
    | some (.awaiting task) =>
      if s.alive[task]? = some false then some { s with calls := s.calls.set call .returned }
      else none
    | _ => none
  | .tick task => if s.alive[task]? = some true then some s else none
  | .exit task =>
    if s.alive[task]? = some true ∧ s.cancelled then
      some { s with alive := s.alive.set task false }
    else none

/-- A new service has one handle and no heartbeat. -/
def machine : Machine Service Label := ⟨⟨1, false, none, [], []⟩, step⟩

abbrev Event := Transition.Event Service Label

/-- The call is a `start` that began when every earlier `stop` had returned, and
no `stop` has begun since. -/
def StartedClear (call : Nat) (h : List Event) : Prop :=
  Since (fun e => e.label ≠ .stop)
    (fun e _ => e.label = .start ∧ e.pre.calls.length = call ∧ e.pre.stopInProgress = false) h

/-- At most one heartbeat is alive; one is, and not cancelled, between the
return of a `start` that no `stop` disturbs and the next `stop`; and none
outlives the handles without being cancelled. -/
structure Lifecycle (h : List Event) (s : Service) : Prop where
  single : ∀ i j : Nat, s.alive[i]? = some true → s.alive[j]? = some true → i = j
  started : ∀ call, StartedClear call h → s.calls[call]? = some .returned →
    s.anyAlive = true ∧ s.cancelled = false
  dropped : ¬ (s.handles = 0 ∧ s.anyAlive = true ∧ s.cancelled = false)

/-- A `start` that meets no `stop` in progress finds the token as it was made,
and the last handle is dropped before the first `start` or after a `stop`. -/
structure Disciplined (e : Event) : Prop where
  fresh : e.label = .start → e.pre.stopInProgress = false → e.pre.cancelled = false
  stopped : e.label = .drop → e.pre.handles = 1 → e.pre.slot = none ∨ e.pre.cancelled = true

/-- The tasks that are alive are in the slot or awaited by the one `stop` that
holds the lock, and only a cancelled task has ended. -/
structure Tidy (s : Service) : Prop where
  owned : ∀ i : Nat, s.alive[i]? = some true →
    s.slot = some i ∨ ∃ c : Nat, s.calls[c]? = some (.awaiting i)
  slotted : ∀ i c j : Nat, s.slot = some i → s.calls[c]? ≠ some (.awaiting j)
  holder : ∀ c d i j : Nat,
    s.calls[c]? = some (.awaiting i) → s.calls[d]? = some (.awaiting j) → c = d
  running : ∀ i, s.cancelled = false → s.slot = some i → s.alive[i]? = some true
  quiet : s.cancelled = false → ∀ (c : Nat) phase, s.calls[c]? = some phase → phase.isStop = false

section Steps

variable {s s' : Service} {l : Label}

inductive Moves (s : Service) : Label → Service → Prop
  | clone (hh : 0 < s.handles) : Moves s .clone { s with handles := s.handles + 1 }
  | drop (hh : 0 < s.handles) (hb : s.handles = 1 → s.borrowed = false) :
      Moves s .drop
        { s with
          handles := s.handles - 1
          cancelled := s.cancelled || (s.handles = 1 && !s.anyAlive) }
  | start (hh : 0 < s.handles) : Moves s .start { s with calls := s.calls ++ [.starting] }
  | stop (hh : 0 < s.handles) :
      Moves s .stop { s with calls := s.calls ++ [.stopping], cancelled := true }
  | enterStarted (c task : Nat) (hc : s.calls[c]? = some .starting) (hs : s.slot = some task) :
      Moves s (.enter c) { s with calls := s.calls.set c .returned }
  | enterSpawn (c : Nat) (hl : s.locked = false) (hc : s.calls[c]? = some .starting)
      (hs : s.slot = none) :
      Moves s (.enter c)
        { s with
          calls := s.calls.set c .returned
          slot := some s.alive.length
          alive := s.alive ++ [true] }
  | enterTake (c task : Nat) (hl : s.locked = false) (hc : s.calls[c]? = some .stopping)
      (hs : s.slot = some task) :
      Moves s (.enter c) { s with calls := s.calls.set c (.awaiting task), slot := none }
  | enterIdle (c : Nat) (hc : s.calls[c]? = some .stopping) (hs : s.slot = none) :
      Moves s (.enter c) { s with calls := s.calls.set c .returned }
  | join (c task : Nat) (hc : s.calls[c]? = some (.awaiting task))
      (ha : s.alive[task]? = some false) :
      Moves s (.join c) { s with calls := s.calls.set c .returned }
  | tick (task : Nat) : Moves s (.tick task) s
  | exit (task : Nat) (ha : s.alive[task]? = some true) (hc : s.cancelled = true) :
      Moves s (.exit task) { s with alive := s.alive.set task false }

theorem step_moves (hs : step s l = some s') : Moves s l s' := by
  cases l with
  | clone =>
    simp only [step] at hs
    split at hs
    next hh => cases hs; exact Moves.clone hh
    next => simp at hs
  | drop =>
    simp only [step] at hs
    split at hs
    next => simp at hs
    next hh =>
      cases hs
      refine Moves.drop (by omega) (fun h1 => ?_)
      by_contra hb
      exact hh (Or.inr ⟨h1, by simpa using hb⟩)
  | start =>
    simp only [step] at hs
    split at hs
    next hh => cases hs; exact Moves.start hh
    next => simp at hs
  | stop =>
    simp only [step] at hs
    split at hs
    next hh => cases hs; exact Moves.stop hh
    next => simp at hs
  | enter c =>
    simp only [step] at hs
    split at hs
    next => simp at hs
    next hl =>
      have hfree : s.locked = false := by simpa using hl
      split at hs
      next task hc hslot => cases hs; exact Moves.enterStarted c task hc hslot
      next hc hslot => cases hs; exact Moves.enterSpawn c hfree hc hslot
      next task hc hslot => cases hs; exact Moves.enterTake c task hfree hc hslot
      next hc hslot => cases hs; exact Moves.enterIdle c hc hslot
      next => simp at hs
  | join c =>
    simp only [step] at hs
    split at hs
    next task hc =>
      split at hs
      next ha => cases hs; exact Moves.join c task hc ha
      next => simp at hs
    next => simp at hs
  | tick task =>
    simp only [step] at hs
    split at hs
    next => cases hs; exact Moves.tick task
    next => simp at hs
  | exit task =>
    simp only [step] at hs
    split at hs
    next ha => cases hs; exact Moves.exit task ha.1 ha.2
    next => simp at hs

theorem locked_eq_false (hl : s.locked = false) (c i : Nat) :
    s.calls[c]? ≠ some (.awaiting i) := by
  intro hc
  have hm := List.mem_of_getElem? hc
  simp only [Service.locked, List.any_eq_false] at hl
  exact hl _ hm rfl

theorem anyAlive_iff : s.anyAlive = true ↔ ∃ i : Nat, s.alive[i]? = some true := by
  simp only [Service.anyAlive, List.any_eq_true, id_eq, exists_eq_right, List.mem_iff_getElem?]

theorem awaiting_append {calls : List Phase} {phase : Phase} (hp : phase.isAwaiting = false)
    (c i : Nat) :
    (calls ++ [phase])[c]? = some (.awaiting i) ↔ calls[c]? = some (.awaiting i) := by
  rw [List.getElem?_append]
  split
  next => rfl
  next hge =>
    have hnone : calls[c]? = none := List.getElem?_eq_none (by omega)
    rw [hnone, List.getElem?_singleton]
    split
    next =>
      simp only [Option.some.injEq, reduceCtorEq, iff_false]
      rintro rfl
      simp [Phase.isAwaiting] at hp
    next => rfl

theorem awaiting_set {calls : List Phase} {c : Nat} {old phase : Phase}
    (hc : calls[c]? = some old) (ho : old.isAwaiting = false) (hp : phase.isAwaiting = false)
    (d i : Nat) :
    (calls.set c phase)[d]? = some (.awaiting i) ↔ calls[d]? = some (.awaiting i) := by
  rw [List.getElem?_set]
  split
  next hd =>
    subst hd
    rw [hc]
    cases old <;> cases phase <;> simp_all [Phase.isAwaiting]
  next => rfl

theorem tidy_init : Tidy machine.init := by
  constructor <;> simp [machine]

theorem Tidy.congr (ht : Tidy s) (hslot : s'.slot = s.slot) (halive : s'.alive = s.alive)
    (hcalls : ∀ c i : Nat, s'.calls[c]? = some (.awaiting i) ↔ s.calls[c]? = some (.awaiting i))
    (hcancel : s'.cancelled = false → s.cancelled = false)
    (hquiet : s'.cancelled = false →
      ∀ (c : Nat) phase, s'.calls[c]? = some phase → phase.isStop = false) : Tidy s' := by
  constructor
  · intro i hi
    rw [halive] at hi
    obtain h | ⟨c, hc⟩ := ht.owned i hi
    · exact Or.inl (hslot.trans h)
    · exact Or.inr ⟨c, (hcalls c i).mpr hc⟩
  · intro i c j hi hc
    exact ht.slotted i c j (hslot.symm.trans hi) ((hcalls c j).mp hc)
  · intro c d i j hc hd
    exact ht.holder c d i j ((hcalls c i).mp hc) ((hcalls d j).mp hd)
  · intro i hc hi
    rw [halive]
    exact ht.running i (hcancel hc) (hslot.symm.trans hi)
  · exact hquiet

theorem step_tidy (hs : step s l = some s') (ht : Tidy s) : Tidy s' := by
  obtain ⟨howned, hslotted, hholder, hrunning, hquiet⟩ := id ht
  cases step_moves hs with
  | clone | tick => exact ⟨howned, hslotted, hholder, hrunning, hquiet⟩
  | drop hh hb =>
    have hcancel : ∀ b : Bool, (s.cancelled || b) = false → s.cancelled = false :=
      fun b h => (Bool.or_eq_false_iff.mp h).1
    exact ht.congr rfl rfl (fun _ _ => Iff.rfl) (hcancel _) (fun h => hquiet (hcancel _ h))
  | start hh =>
    refine ht.congr rfl rfl (awaiting_append rfl) id ?_
    grind [Phase.isStop]
  | stop hh => exact ht.congr rfl rfl (awaiting_append rfl) (by simp) (by simp)
  | enterStarted c task hc hslot =>
    refine ht.congr rfl rfl (awaiting_set hc rfl rfl) id ?_
    grind [Phase.isStop]
  | enterIdle c hc hslot =>
    refine ht.congr rfl rfl (awaiting_set hc rfl rfl) id ?_
    grind [Phase.isStop]
  | enterSpawn c hl hc hslot =>
    have hfree := locked_eq_false hl
    have hsame := awaiting_set hc (rfl : Phase.starting.isAwaiting = false)
      (rfl : Phase.returned.isAwaiting = false)
    constructor <;> grind [Phase.isStop]
  | enterTake c task hl hc hslot =>
    have hfree := locked_eq_false hl
    have hcancel : s.cancelled = true := by grind [Phase.isStop]
    refine ⟨fun i hi => Or.inr ⟨c, ?_⟩, by simp, ?_, by simp, by simp [hcancel]⟩
    · grind
    · grind
  | join c task hc ha =>
    have hcancel : s.cancelled = true := by grind [Phase.isStop]
    refine ⟨fun i hi => Or.inl ?_, ?_, ?_, by simp [hcancel], by simp [hcancel]⟩
    · grind
    · grind
    · grind
  | exit task ha hc =>
    refine ⟨fun i hi => howned i ?_, hslotted, hholder, by simp [hc], by simp [hc]⟩
    grind

structure Calm (call : Nat) (s : Service) : Prop where
  token : s.cancelled = false
  phase : s.calls[call]? = some .starting ∨
    s.calls[call]? = some .returned ∧ ∃ task, s.slot = some task

theorem Calm.alive {call : Nat} (hc : Calm call s) (ht : Tidy s)
    (hret : s.calls[call]? = some .returned) : s.anyAlive = true := by
  obtain hp | ⟨-, task, hslot⟩ := hc.phase
  · rw [hret] at hp
    cases hp
  · exact anyAlive_iff.mpr ⟨task, ht.running task hc.token hslot⟩

theorem Calm.kept {call : Nat} (hc : Calm call s) (ht : Tidy s) (h1 : s.handles = 1)
    (hb : s.handles = 1 → s.borrowed = false) : s.anyAlive = true := by
  have hret : s.calls[call]? = some .returned := by
    obtain hp | ⟨hp, -⟩ := hc.phase
    · have hfree := hb h1
      simp only [Service.borrowed, List.any_eq_false, decide_eq_true_eq] at hfree
      exact absurd (by simp) (hfree _ (List.mem_of_getElem? hp))
    · exact hp
  exact hc.alive ht hret

theorem step_calm {call : Nat} (hs : step s l = some s') (ht : Tidy s) (hl : l ≠ .stop)
    (hc : Calm call s) : Calm call s' := by
  obtain ⟨htoken, hphase⟩ := id hc
  cases step_moves hs with
  | clone | tick => exact ⟨htoken, hphase⟩
  | drop hh hb =>
    refine ⟨?_, hphase⟩
    by_cases h1 : s.handles = 1
    · simp [htoken, hc.kept ht h1 hb]
    · simp [htoken, h1]
  | start hh =>
    refine ⟨htoken, ?_⟩
    have hlt : call < s.calls.length := by grind
    simpa [List.getElem?_append_left hlt] using hphase
  | stop hh => exact absurd rfl hl
  | enterStarted c task hcall hslot => exact ⟨htoken, by grind⟩
  | enterSpawn c hfree hcall hslot => exact ⟨htoken, by grind⟩
  | enterTake c task hfree hcall hslot =>
    -- a `stop` under way has cancelled the token
    have hq := ht.quiet htoken c _ hcall
    simp [Phase.isStop] at hq
  | enterIdle c hcall hslot =>
    have hq := ht.quiet htoken c _ hcall
    simp [Phase.isStop] at hq
  | join c task hcall ha =>
    have hq := ht.quiet htoken c _ hcall
    simp [Phase.isStop] at hq
  | exit task ha hcancel => simp [htoken] at hcancel

def Released (s : Service) : Prop := s.handles = 0 → s.cancelled = true

theorem step_released (hs : step s l = some s') (ht : Tidy s) (hd : Disciplined ⟨s, l⟩)
    (hr : Released s) : Released s' := by
  unfold Released at hr ⊢
  cases step_moves hs with
  | clone hh => simp
  | drop hh hb =>
    intro h0
    have h1 : s.handles = 1 := by
      change s.handles - 1 = 0 at h0
      omega
    have hcond : s.slot = none ∨ s.cancelled = true := hd.stopped rfl h1
    obtain hslot | hcancel := hcond
    · by_cases hcancel : s.cancelled = true
      · simp [hcancel]
      · have hdead : s.anyAlive = false := by
          rw [Bool.eq_false_iff, ne_eq, anyAlive_iff]
          rintro ⟨i, hi⟩
          obtain h | ⟨c, hc⟩ := ht.owned i hi
          · rw [hslot] at h
            cases h
          · have hq := ht.quiet (by simpa using hcancel) c _ hc
            simp [Phase.isStop] at hq
        simp [h1, hdead]
    · simp [hcancel]
  | stop hh => simp
  | start | tick | enterStarted | enterSpawn | enterTake | enterIdle | join | exit => exact hr

end Steps

section Runs

variable {h : List Event} {s : Service}

theorem tidy_run (hr : Run machine h s) : Tidy s :=
  hr.invariant (fun _ => True) Tidy tidy_init (fun _ _ _ _ ht hs => step_tidy hs ht)
    (fun _ _ => trivial)

theorem Tidy.single (ht : Tidy s) (i j : Nat) (hi : s.alive[i]? = some true)
    (hj : s.alive[j]? = some true) : i = j := by
  rcases ht.owned i hi with h | ⟨c, hc⟩ <;> rcases ht.owned j hj with h' | ⟨d, hd⟩
  · exact Option.some.inj (h.symm.trans h')
  · exact absurd hd (ht.slotted i d j h)
  · exact absurd hc (ht.slotted j c i h')
  · obtain rfl := ht.holder c d i j hc hd
    rw [hc] at hd
    cases hd
    rfl

theorem calm_run (hr : Run machine h s) (hd : ∀ e ∈ h, Disciplined e) {call : Nat}
    (hstart : StartedClear call h) : Calm call s := by
  induction hr with
  | nil => cases hstart
  | @cons h s s' l hr hs ih =>
    obtain ⟨hl, hcall, hclear⟩ | ⟨hl, hrest⟩ := since_cons.mp hstart
    · simp only at hl hcall hclear
      subst hl hcall
      have htoken := (hd _ List.mem_cons_self).fresh rfl hclear
      have hbegin : step s .start = some s' := hs
      cases step_moves hbegin with
      | start hh => exact ⟨htoken, Or.inl (by simp)⟩
    · exact step_calm hs (tidy_run hr) hl (ih (fun e he => hd e (List.mem_cons_of_mem _ he)) hrest)

theorem released_run (hr : Run machine h s) (hd : ∀ e ∈ h, Disciplined e) : Released s := by
  have hboth : Tidy s ∧ Released s := by
    refine hr.invariant Disciplined (fun s => Tidy s ∧ Released s) ⟨tidy_init, ?_⟩ ?_ hd
    · simp [Released, machine]
    · intro s l s' hd ⟨ht, hr⟩ hs
      exact ⟨step_tidy hs ht, step_released hs ht hd hr⟩
  exact hboth.2

end Runs

/-- The lifecycle law in every state of a run that restarts nothing after a
`stop` has returned and stops the service before it lets the last handle go. -/
theorem lifecycle_of_disciplined {h : List Event} {s : Service} (hr : Run machine h s)
    (hd : ∀ e ∈ h, Disciplined e) : Lifecycle h s := by
  have ht := tidy_run hr
  refine ⟨ht.single, ?_, ?_⟩
  · intro call hstart hret
    have hcalm := calm_run hr hd hstart
    exact ⟨hcalm.alive ht hret, hcalm.token⟩
  · rintro ⟨h0, -, htoken⟩
    rw [released_run hr hd h0] at htoken
    cases htoken

theorem disciplined_iff (e : Event) :
    Disciplined e ↔
      (e.label = .start → e.pre.stopInProgress = false → e.pre.cancelled = false) ∧
      (e.label = .drop → e.pre.handles = 1 → e.pre.slot = none ∨ e.pre.cancelled = true) :=
  ⟨fun h => ⟨h.fresh, h.stopped⟩, fun h => ⟨h.1, h.2⟩⟩

instance : DecidablePred Disciplined := fun e => decidable_of_iff _ (disciplined_iff e).symm

/-- Two owners; the second one stops the service before it goes. -/
def orderly : List Label :=
  [.clone, .start, .enter 0, .start, .tick 0, .drop, .enter 1, .stop, .enter 2, .exit 0, .join 2,
    .drop]

theorem lifecycle_of_disciplined_orderly :
    (replay machine orderly).1.length = 12 ∧ (replay machine orderly).2.handles = 0 ∧
      Lifecycle (replay machine orderly).1 (replay machine orderly).2 :=
  ⟨by decide +kernel, by decide +kernel,
    lifecycle_of_disciplined (replay_run orderly) (by decide +kernel)⟩

/-- The owner goes without a `stop`: the task keeps the service alive. -/
def leaked : List Label := [.start, .enter 0, .drop]

/-- A `start` after a `stop` gets the token that the `stop` has cancelled. -/
def restarted : List Label :=
  [.start, .enter 0, .stop, .enter 1, .exit 0, .join 1, .start, .enter 2]

instance (call : Nat) : DecidablePred (StartedClear call) :=
  fun h => inferInstanceAs (Decidable (Since _ _ h))

theorem lifecycle_broken :
    ((replay machine leaked).2.handles = 0 ∧ (replay machine leaked).2.anyAlive = true ∧
      (replay machine leaked).2.cancelled = false ∧
      ¬ Lifecycle (replay machine leaked).1 (replay machine leaked).2) ∧
    StartedClear 2 (replay machine restarted).1 ∧
      (replay machine restarted).2.calls[2]? = some .returned ∧
      (replay machine restarted).2.cancelled = true ∧
      ¬ Lifecycle (replay machine restarted).1 (replay machine restarted).2 := by
  have hleak : (replay machine leaked).2.handles = 0 ∧
      (replay machine leaked).2.anyAlive = true ∧
      (replay machine leaked).2.cancelled = false := by decide +kernel
  have hclear : StartedClear 2 (replay machine restarted).1 := by decide +kernel
  have hret : (replay machine restarted).2.calls[2]? = some .returned := by decide +kernel
  have hcancel : (replay machine restarted).2.cancelled = true := by decide +kernel
  refine ⟨⟨hleak.1, hleak.2.1, hleak.2.2, fun hl => hl.dropped hleak⟩, hclear, hret, hcancel, ?_⟩
  intro hl
  have htoken := (hl.started 2 hclear hret).2
  rw [hcancel] at htoken
  cases htoken

end Mineshaft.Core.Heartbeat
