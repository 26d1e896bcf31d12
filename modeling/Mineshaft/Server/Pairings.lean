import Mineshaft.Server.Queues
import Mineshaft.Server.Sessions

namespace Mineshaft.Server

open Mineshaft.Core Mineshaft.Lib Mineshaft.Lib.Transition

/-- The joiner's own signal or connect request has recorded the pairing. -/
def Paired (id : UInt64) (joiner host : SocketAddr) (h : List Event) : Prop :=
  ∃ e ∈ h, recorded e.pre.view e.label = some (id, joiner, host)

theorem run_paired {h : List Event} {s : State} (hr : Run h s) {id : UInt64}
    {joiner host : SocketAddr} (hl : s.reg.sessions.lookup id = some (joiner, host)) :
    Paired id joiner host h := by
  induction hr with
  | nil => cases hl
  | @cons h s s' l hr hs ih =>
    obtain hrec | ⟨-, hold, -⟩ := (effect_sessions (step_effect hs) id (joiner, host)).mp hl
    · exact ⟨⟨s, l⟩, List.mem_cons_self, hrec⟩
    · obtain ⟨e, he, hrec⟩ := ih hold
      exact ⟨e, List.mem_cons_of_mem _ he, hrec⟩

def Label.reply : Label → Option (ConnId × UInt64)
  | .handle c (.signal targetSenderId connectionId _ _) =>
    if targetSenderId = 0 then some (c, connectionId) else none
  | _ => none

def Forwards (e : Event) (x : ConnId) (id : UInt64) (dest : SocketAddr) : Prop :=
  ∃ s' n data, step e.pre e.label = some s' ∧
    s'.task x = some (.sending (dest, .signal id n data) [])

theorem reply_iff {l : Label} {x : ConnId} {id : UInt64} : l.reply = some (x, id) ↔
    ∃ n data, l = .handle x (.signal 0 id n data) := by
  constructor
  · intro h
    unfold Label.reply at h
    split at h
    next c t i n data =>
      split at h
      next ht =>
        simp only [Option.some.injEq, Prod.mk.injEq] at h
        exact ⟨n, data, by rw [ht, h.1, h.2]⟩
      · cases h
    · cases h
  · rintro ⟨n, data, rfl⟩
    rfl

theorem signal_task {s s' : State} {x : ConnId} {t id n : UInt64} {data : String}
    (hs : step s (.handle x (.signal t id n data)) = some s') :
    s'.task x = some (match s.reg.routeDest t id with
      | some dest => .sending (dest, .signal id n data) []
      | none => .reading) := by
  obtain ⟨⟨addr, -, -, hm⟩, -⟩ := step_moves hs
  change Moves _ _ _ (s.task x) (s'.task x) at hm
  generalize s.task x = t₀ at hm
  generalize s'.task x = t₁ at hm
  cases hm with
  | handle hr =>
    cases hr
    cases s.reg.routeDest t id <;> rfl

theorem forwards_reply {e : Event} {x : ConnId} {id : UInt64} (joiner : SocketAddr)
    (hl : e.label.reply = some (x, id)) {s' : State} (hs : step e.pre e.label = some s') :
    Forwards e x id joiner ↔ ∃ host, e.pre.reg.sessions.lookup id = some (joiner, host) := by
  obtain ⟨n, data, hlab⟩ := reply_iff.mp hl
  rw [hlab] at hs
  have ht := signal_task hs
  simp only [Registry.routeDest, ne_eq, not_true_eq_false, ↓reduceIte] at ht
  cases hlk : e.pre.reg.sessions.lookup id with
  | none =>
    simp only [hlk, Option.map_none] at ht
    constructor
    · rintro ⟨s'', n', data', hs'', ht'⟩
      rw [hlab, hs] at hs''
      cases hs''
      rw [ht] at ht'
      cases ht'
    · rintro ⟨host, hh⟩
      cases hh
  | some p =>
    simp only [hlk, Option.map_some] at ht
    constructor
    · rintro ⟨s'', n', data', hs'', ht'⟩
      rw [hlab, hs] at hs''
      cases hs''
      rw [ht] at ht'
      simp only [Option.some.injEq, Task.sending.injEq, Prod.mk.injEq] at ht'
      exact ⟨p.2, by rw [← ht'.1.1]⟩
    · rintro ⟨host, hh⟩
      cases hh
      exact ⟨s', n, data, by rw [hlab]; exact hs, ht⟩

/-- A signal on the reply path comes from the host that its session names. -/
def FromPairedHost (e : Event) : Prop :=
  ∀ q ∈ e.label.reply, ∀ p ∈ e.pre.reg.sessions.lookup q.2, e.pre.addr q.1 = some p.2

instance : DecidablePred FromPairedHost := fun e =>
  inferInstanceAs (Decidable (∀ q ∈ e.label.reply, ∀ p ∈ e.pre.reg.sessions.lookup q.2,
    e.pre.addr q.1 = some p.2))

/-- A run forwards signals on the reply path only between the ends of a pairing
that the joiner itself had recorded, exactly when every such signal that finds
a session comes from the host that the session names. -/
theorem reply_path_iff {h : List Event} {s : State} (hr : Run h s) :
    (∀ post e early, h = post ++ e :: early → ∀ x id joiner, e.label.reply = some (x, id) →
      Forwards e x id joiner → ∃ host, e.pre.addr x = some host ∧
        e.pre.reg.sessions.lookup id = some (joiner, host) ∧ Paired id joiner host early) ↔
    ∀ e ∈ h, FromPairedHost e := by
  constructor
  · rintro hf e he ⟨x, id⟩ hq ⟨joiner, host⟩ hp
    obtain ⟨post, early, rfl⟩ := List.append_of_mem he
    obtain ⟨-, s', hs, -⟩ := hr.split
    have hfw := (forwards_reply joiner hq hs).mpr ⟨host, hp⟩
    obtain ⟨host', ha, hl, -⟩ := hf post e early rfl x id joiner hq hfw
    rw [hp] at hl
    cases hl
    exact ha
  · rintro hp post e early rfl x id joiner hq hfw
    obtain ⟨hr', s', hs, -⟩ := hr.split
    obtain ⟨host, hl⟩ := (forwards_reply joiner hq hs).mp hfw
    exact ⟨host, hp e (by simp) (x, id) hq (joiner, host) hl, hl, run_paired hr' hl⟩

/-- Client 1 has signalled host 0 under connection id 5. A third client is
connected. The host and the third client both send on the reply path. -/
def signalled : List Label :=
  [.accept 0 (.v4 1 1), .insert 0, .read 0 (.registerHost ⟨7, default⟩),
    .handle 0 (.registerHost ⟨7, default⟩), .sendTo 0 (.v4 1 1) (.registered 7),
    .accept 1 (.v4 1 2), .insert 1, .read 1 (.signal 7 5 9 "CONNECTREQUEST 5 x"),
    .handle 1 (.signal 7 5 9 "CONNECTREQUEST 5 x"),
    .sendTo 1 (.v4 1 1) (.signal 5 9 "CONNECTREQUEST 5 x"),
    .accept 2 (.v4 1 3), .insert 2, .read 2 (.signal 0 5 6 "CONNECTRESPONSE 5 z"),
    .read 0 (.signal 0 5 8 "CONNECTRESPONSE 5 y")]

theorem reply_path_signalled :
    Forwards ⟨(replay machine signalled).2, .handle 0 (.signal 0 5 8 "CONNECTRESPONSE 5 y")⟩
      0 5 (.v4 1 2) ∧ Paired 5 (.v4 1 2) (.v4 1 1) (replay machine signalled).1 := by
  have hs : (step (replay machine signalled).2
      (.handle 0 (.signal 0 5 8 "CONNECTRESPONSE 5 y"))).isSome := by decide +kernel
  obtain ⟨s', hs'⟩ := Option.isSome_iff_exists.mp hs
  have hr := run_step (replay_run signalled) hs'
  have hl : (replay machine signalled).2.reg.sessions.lookup 5 = some (.v4 1 2, .v4 1 1) := by
    decide +kernel
  have hf := (forwards_reply (.v4 1 2)
    (e := ⟨(replay machine signalled).2, .handle 0 (.signal 0 5 8 "CONNECTRESPONSE 5 y")⟩)
    (x := 0) rfl hs').mpr ⟨.v4 1 1, hl⟩
  obtain ⟨host, -, hl', hp⟩ :=
    (reply_path_iff hr).mpr (by decide +kernel) [] _ _ rfl 0 5 (.v4 1 2) rfl hf
  rw [hl] at hl'
  cases hl'
  exact ⟨hf, hp⟩

/-- A client that is neither end of the session reaches the joiner. -/
theorem reply_path_third_client :
    ∃ h s e, Run h s ∧ h.head? = some e ∧ e.label.reply = some (2, 5) ∧
      e.pre.addr 2 = some (.v4 1 3) ∧
      e.pre.reg.sessions.lookup 5 = some (.v4 1 2, .v4 1 1) ∧ Forwards e 2 5 (.v4 1 2) := by
  have hs : (step (replay machine signalled).2
      (.handle 2 (.signal 0 5 6 "CONNECTRESPONSE 5 z"))).isSome := by decide +kernel
  obtain ⟨s', hs'⟩ := Option.isSome_iff_exists.mp hs
  have hl : (replay machine signalled).2.reg.sessions.lookup 5 = some (.v4 1 2, .v4 1 1) := by
    decide +kernel
  exact ⟨_, s', _, run_step (replay_run signalled) hs', rfl, rfl, by decide +kernel, hl,
    (forwards_reply _ rfl hs').mpr ⟨_, hl⟩⟩

end Mineshaft.Server
