import Mineshaft.Lib.Refinement

namespace Mineshaft.Lib.Fifo

open Mineshaft.Lib.Transition

variable {T : Type}

inductive Op (T : Type)
  | put (msg : T)
  | get (msg : T)

def Op.putted : Op T → Option T
  | .put msg => some msg
  | .get _ => none

def Op.gotten : Op T → Option T
  | .put _ => none
  | .get msg => some msg

variable [DecidableEq T]

def step (queue : List T) : Op T → Option (List T)
  | .put msg => some (queue ++ [msg])
  | .get msg =>
    match queue with
    | next :: rest => if next = msg then some rest else none
    | [] => none

def machine : Machine (List T) (Op T) := ⟨[], step⟩

theorem step_get (msg : T) (rest : List T) : step (msg :: rest) (.get msg) = some rest := if_pos rfl

theorem step_cases {queue queue' : List T} {op : Op T} (hs : step queue op = some queue') :
    (∃ msg, op = .put msg ∧ queue' = queue ++ [msg]) ∨
      ∃ msg, op = .get msg ∧ queue = msg :: queue' := by
  cases op with
  | put msg =>
    cases hs
    exact Or.inl ⟨msg, rfl, rfl⟩
  | get msg =>
    cases queue with
    | nil => cases hs
    | cons next rest =>
      simp only [step] at hs
      split at hs
      next hn =>
        cases hs
        exact Or.inr ⟨msg, rfl, by rw [hn]⟩
      · cases hs

/-- What was put is what was got, and then what is in the queue. -/
theorem run_conserves {h : List (Event (List T) (Op T))} {queue : List T}
    (hr : Run machine h queue) :
    (h.map (fun e => e.label)).reverse.filterMap Op.putted =
      (h.map (fun e => e.label)).reverse.filterMap Op.gotten ++ queue := by
  induction hr with
  | nil => rfl
  | cons _ hs ih =>
    simp only [List.map_cons, List.reverse_cons, List.filterMap_append, ih]
    obtain ⟨msg, rfl, rfl⟩ | ⟨msg, rfl, rfl⟩ := step_cases hs
    · simp [Op.putted, Op.gotten]
    · simp [Op.putted, Op.gotten]

end Mineshaft.Lib.Fifo
