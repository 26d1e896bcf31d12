import Mineshaft.Lib.Transition

namespace Mineshaft.Lib.Transition

variable {S L S' L' : Type} {sys : Machine S L} {sys' : Machine S' L'}
variable {h : List (Event S L)} {s : S}

/-- One step of the concrete system, matched by the abstract step that it is
observed as, or by none. -/
def Matches (sys' : Machine S' L') (rel : S → S' → Prop) (a : S') (s' : S) : Option L' → Prop
  | some k => ∃ a', sys'.step a k = some a' ∧ rel s' a'
  | none => rel s' a

/-- Forward simulation. When every step of a run that meets the assumption is
matched, the run refines a run of the abstract system with the observed labels. -/
theorem Run.simulate (assume : Event S L → Prop) (rel : S → S' → Prop)
    (observe : Event S L → Option L') (h0 : rel sys.init sys'.init)
    (hstep : ∀ h s l s' a, Run sys h s → (∀ e ∈ h, assume e) → assume ⟨s, l⟩ → rel s a →
      sys.step s l = some s' → Matches sys' rel a s' (observe ⟨s, l⟩))
    (hr : Run sys h s) (ha : ∀ e ∈ h, assume e) :
    ∃ h' a, Run sys' h' a ∧ h'.map (fun e => e.label) = h.filterMap observe ∧ rel s a := by
  induction hr with
  | nil => exact ⟨[], sys'.init, Run.nil, rfl, h0⟩
  | @cons h s s' l hr hs ih =>
    have ha' := fun e he => ha e (List.mem_cons_of_mem _ he)
    obtain ⟨h', a, hr', hl, hrel⟩ := ih ha'
    have hm := hstep h s l s' a hr ha' (ha _ List.mem_cons_self) hrel hs
    cases ho : observe ⟨s, l⟩ with
    | none =>
      rw [ho] at hm
      exact ⟨h', a, hr', by rw [hl, List.filterMap_cons_none ho], hm⟩
    | some k =>
      rw [ho] at hm
      obtain ⟨a', hk, hrel'⟩ := hm
      refine ⟨⟨a, k⟩ :: h', a', Run.cons hr' hk, ?_, hrel'⟩
      rw [List.map_cons, hl, List.filterMap_cons_some ho]

/-- A component runs like the component alone, when in every run that meets the
assumption each step is a step of the component or leaves it as it is. -/
theorem Run.project_of (assume : Event S L → Prop) (f : S → S')
    (g : Event S L → Option (Event S' L')) (h0 : f sys.init = sys'.init)
    (hstep : ∀ h s l s', Run sys h s → (∀ e ∈ h, assume e) → assume ⟨s, l⟩ →
      sys.step s l = some s' →
      (∃ k, g ⟨s, l⟩ = some ⟨f s, k⟩ ∧ sys'.step (f s) k = some (f s')) ∨
        g ⟨s, l⟩ = none ∧ f s' = f s)
    (hr : Run sys h s) (ha : ∀ e ∈ h, assume e) : Run sys' (h.filterMap g) (f s) := by
  induction hr with
  | nil =>
    rw [h0]
    exact Run.nil
  | @cons h s s' l hr hs ih =>
    have ha' := fun e he => ha e (List.mem_cons_of_mem _ he)
    obtain ⟨k, hg, hk⟩ | ⟨hg, hf⟩ := hstep h s l s' hr ha' (ha _ List.mem_cons_self) hs
    · rw [List.filterMap_cons_some hg]
      exact Run.cons (ih ha') hk
    · rw [List.filterMap_cons_none hg, hf]
      exact ih ha'

theorem Run.unique (hr : Run sys h s) {s' : S} (hr' : Run sys h s') : s = s' := by
  cases hr with
  | nil =>
    cases hr'
    rfl
  | cons _ hs =>
    cases hr' with
    | cons _ hs' => exact Option.some.inj (hs.symm.trans hs')

theorem collect_getElem {α : Type} {f : Event S L → List α} {k : Nat} {a : α}
    (hk : (collect f h)[k]? = some a) :
    ∃ post e early, h = post ++ e :: early ∧ a ∈ f e ∧ (collect f early).length ≤ k ∧
      k < (collect f (e :: early)).length := by
  induction h with
  | nil => cases hk
  | cons e h ih =>
    by_cases hlt : k < (collect f h).length
    · rw [collect, List.getElem?_append_left hlt] at hk
      obtain ⟨post, e', early, rfl, ha, hle, hlt'⟩ := ih hk
      exact ⟨e :: post, e', early, rfl, ha, hle, hlt'⟩
    · have hle : (collect f h).length ≤ k := Nat.le_of_not_lt hlt
      refine ⟨[], e, h, rfl, ?_, hle, (List.getElem?_eq_some_iff.mp hk).1⟩
      rw [collect, List.getElem?_append_right hle] at hk
      exact List.mem_of_getElem? hk

end Mineshaft.Lib.Transition
