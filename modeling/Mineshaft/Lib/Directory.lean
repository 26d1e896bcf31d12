import Mathlib.Data.Set.Insert
import Mathlib.Logic.Function.Basic
import Mineshaft.Lib.Refinement

namespace Mineshaft.Lib

open Transition

/-- A directory: who takes part, and for every key the member that answers for
it with the record that it announced. -/
structure Directory (M K V : Type) where
  members : Set M
  entry : K → Option (M × V)

namespace Directory

/-- The atomic operations, with the answers that they give. -/
inductive Op (M K V : Type)
  | join (m : M)
  | announce (m : M) (v : V)
  | revise (m : M) (v : V)
  | withdraw (m : M) (k : K)
  | list (m : M) (vs : List V)
  | find (m : M) (k : K) (owner : Option M)
  | depart (m : M)
  deriving DecidableEq

variable {M K V : Type}

def empty : Directory M K V := ⟨∅, fun _ => none⟩

def owner (d : Directory M K V) (k : K) : Option M := (d.entry k).map (fun p => p.1)

/-- The list has every record of the directory once, in some order. -/
def Lists (key : V → K) (d : Directory M K V) (vs : List V) : Prop :=
  (vs.map key).Nodup ∧ ∀ v, v ∈ vs ↔ ∃ m, d.entry (key v) = some (m, v)

def Allowed (key : V → K) (d : Directory M K V) : Op M K V → Prop
  | .join m => m ∉ d.members
  | .announce m _ | .revise m _ | .withdraw m _ | .depart m => m ∈ d.members
  | .list m vs => m ∈ d.members ∧ d.Lists key vs
  | .find m k o => m ∈ d.members ∧ o = d.owner k

variable [DecidableEq M] [DecidableEq K]

/-- An announcement takes its key over. Only the owner revises or withdraws, and
a member that departs takes its records along. -/
def apply (key : V → K) (d : Directory M K V) : Op M K V → Directory M K V
  | .join m => { d with members := insert m d.members }
  | .announce m v => { d with entry := Function.update d.entry (key v) (some (m, v)) }
  | .revise m v =>
    if d.owner (key v) = some m then
      { d with entry := Function.update d.entry (key v) (some (m, v)) }
    else d
  | .withdraw m k =>
    if d.owner k = some m then { d with entry := Function.update d.entry k none } else d
  | .list _ _ | .find _ _ _ => d
  | .depart m =>
    ⟨d.members \ {m}, fun k => (d.entry k).filter (fun p => decide (p.1 ≠ m))⟩

open Classical in
noncomputable def machine (key : V → K) : Machine (Directory M K V) (Op M K V) :=
  ⟨empty, fun d o => if d.Allowed key o then some (d.apply key o) else none⟩

variable {key : V → K} {d d' : Directory M K V} {o : Op M K V}

theorem step_iff : (machine key).step d o = some d' ↔ d.Allowed key o ∧ d' = d.apply key o := by
  simp [machine, eq_comm]

def stored : Op M K V → Option (M × V)
  | .announce m v | .revise m v => some (m, v)
  | .join _ | .withdraw _ _ | .list _ _ | .find _ _ _ | .depart _ => none

theorem entry_apply {k : K} {m : M} {v : V} (h : (d.apply key o).entry k = some (m, v)) :
    d.entry k = some (m, v) ∨ stored o = some (m, v) ∧ key v = k := by
  have hupdate : ∀ {m' v'}, Function.update d.entry (key v') (some (m', v')) k = some (m, v) →
      d.entry k = some (m, v) ∨ (m', v') = (m, v) ∧ key v = k := by
    intro m' v' hu
    by_cases hk : k = key v'
    · subst hk
      simp only [Function.update_self, Option.some.injEq] at hu
      cases hu
      exact Or.inr ⟨rfl, rfl⟩
    · rw [Function.update_of_ne hk] at hu
      exact Or.inl hu
  cases o with
  | join | list | find => exact Or.inl h
  | announce m' v' => simpa [stored] using hupdate h
  | revise m' v' =>
    simp only [apply] at h
    split at h
    · simpa [stored] using hupdate h
    · exact Or.inl h
  | withdraw m' k' =>
    simp only [apply] at h
    split at h
    · by_cases hk : k = k'
      · subst hk
        simp at h
      · exact Or.inl (by simpa [hk] using h)
    · exact Or.inl h
  | depart m' => exact Or.inl (Option.filter_eq_some_iff.mp h).1

/-- Every record lies under its own key and belongs to a member. -/
def Sound (key : V → K) (d : Directory M K V) : Prop :=
  ∀ k m v, d.entry k = some (m, v) → m ∈ d.members ∧ key v = k

theorem Sound.step (hs : Sound key d) (ha : d.Allowed key o) : Sound key (d.apply key o) := by
  intro k m v he
  obtain hold | ⟨hst, hk⟩ := entry_apply he
  · obtain ⟨hm, hk⟩ := hs k m v hold
    refine ⟨?_, hk⟩
    cases o with
    | announce | list | find => exact hm
    | revise | withdraw =>
      simp only [apply]
      split <;> exact hm
    | join m' => exact Set.mem_insert_of_mem _ hm
    | depart m' =>
      have hne := (Option.filter_eq_some_iff.mp he).2
      exact ⟨hm, by simpa using hne⟩
  · refine ⟨?_, hk⟩
    cases o with
    | announce m' v' =>
      cases hst
      exact ha
    | revise m' v' =>
      cases hst
      simp only [apply]
      split <;> exact ha
    | join | withdraw | list | find | depart => cases hst

variable {h : List (Event (Directory M K V) (Op M K V))}

theorem run_sound (hr : Run (machine key) h d) : Sound key d := by
  refine hr.invariant (fun _ => True) (Sound key) ?_ ?_ (fun _ _ => trivial)
  · intro k m v he
    cases he
  · intro d o d' _ hs hstep
    obtain ⟨ha, rfl⟩ := step_iff.mp hstep
    exact hs.step ha

end Directory

end Mineshaft.Lib
