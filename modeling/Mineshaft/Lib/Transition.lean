import Mathlib.Data.List.Basic

namespace Mineshaft.Lib.Transition

/-- A labelled transition system given by an executable partial step. The
label resolves every choice, so interleavings are sequences of labels. -/
structure Machine (S L : Type) where
  init : S
  step : S → L → Option S

structure Event (S L : Type) where
  pre : S
  label : L

variable {S L : Type}

/-- Runs from the initial state. The history lists the newest event first. -/
inductive Run (sys : Machine S L) : List (Event S L) → S → Prop
  | nil : Run sys [] sys.init
  | cons {h : List (Event S L)} {s s' : S} {l : L} :
      Run sys h s → sys.step s l = some s' → Run sys (⟨s, l⟩ :: h) s'

def states (h : List (Event S L)) (s : S) : List S := s :: h.map (fun e => e.pre)

variable {sys : Machine S L} {h : List (Event S L)} {s : S}

/-- A property that holds initially and is kept by every step that meets the
assumption holds at the end of every run whose steps all meet it. -/
theorem Run.invariant (assume : Event S L → Prop) (inv : S → Prop) (h0 : inv sys.init)
    (hstep : ∀ s l s', assume ⟨s, l⟩ → inv s → sys.step s l = some s' → inv s')
    (hr : Run sys h s) (ha : ∀ e ∈ h, assume e) : inv s := by
  induction hr with
  | nil => exact h0
  | cons _ hs ih =>
    have hi := ih (fun e he => ha e (List.mem_cons_of_mem _ he))
    exact hstep _ _ _ (ha _ List.mem_cons_self) hi hs

theorem Run.split {post early : List (Event S L)} {e : Event S L}
    (hr : Run sys (post ++ e :: early) s) :
    Run sys early e.pre ∧ ∃ s', sys.step e.pre e.label = some s' ∧ Run sys (e :: early) s' := by
  induction post generalizing s with
  | nil =>
    cases hr with
    | cons hr hs => exact ⟨hr, _, hs, Run.cons hr hs⟩
  | cons a post ih =>
    cases hr with
    | cons hr _ => exact ih hr

theorem Run.of_mem (hr : Run sys h s) {e : Event S L} (he : e ∈ h) :
    ∃ early, early ⊆ h ∧ Run sys early e.pre := by
  obtain ⟨post, early, rfl⟩ := List.append_of_mem he
  refine ⟨early, ?_, hr.split.1⟩
  intro a ha
  simp [ha]

theorem Run.post_mem (hr : Run sys h s) {e : Event S L} (he : e ∈ h) :
    ∃ s', sys.step e.pre e.label = some s' ∧ s' ∈ states h s := by
  induction hr with
  | nil => simp at he
  | @cons h s s' l hr hs ih =>
    obtain rfl | he := List.mem_cons.mp he
    · exact ⟨s', hs, by simp [states]⟩
    · obtain ⟨t, ht, hm⟩ := ih he
      refine ⟨t, ht, ?_⟩
      simp only [states, List.map_cons, List.mem_cons] at hm ⊢
      exact Or.inr hm

theorem Run.invariant_states (assume : Event S L → Prop) (inv : S → Prop) (h0 : inv sys.init)
    (hstep : ∀ s l s', assume ⟨s, l⟩ → inv s → sys.step s l = some s' → inv s')
    (hr : Run sys h s) (ha : ∀ e ∈ h, assume e) : ∀ t ∈ states h s, inv t := by
  intro t ht
  obtain rfl | ht := List.mem_cons.mp ht
  · exact hr.invariant assume inv h0 hstep ha
  · obtain ⟨e, he, rfl⟩ := List.mem_map.mp ht
    obtain ⟨early, hsub, hr'⟩ := hr.of_mem he
    exact hr'.invariant assume inv h0 hstep (fun e he => ha e (hsub he))

/-- A component of a system runs like the component alone, when every step of
the system is a step of the component or leaves it as it is. -/
theorem Run.project {S' L' : Type} {sys' : Machine S' L'} (f : S → S')
    (g : Event S L → Option (Event S' L')) (h0 : f sys.init = sys'.init)
    (hstep : ∀ s l s', sys.step s l = some s' →
      (∃ k, g ⟨s, l⟩ = some ⟨f s, k⟩ ∧ sys'.step (f s) k = some (f s')) ∨
        g ⟨s, l⟩ = none ∧ f s' = f s)
    (hr : Run sys h s) : Run sys' (h.filterMap g) (f s) := by
  induction hr with
  | nil =>
    rw [h0]
    exact Run.nil
  | @cons h s s' l hr hs ih =>
    obtain ⟨k, hg, hk⟩ | ⟨hg, hf⟩ := hstep s l s' hs
    · rw [List.filterMap_cons_some hg]
      exact Run.cons ih hk
    · rw [List.filterMap_cons_none hg, hf]
      exact ih

/-- Going back from the newest event through events that satisfy `keep`, one
meets an event that satisfies `here` together with the history before it. -/
inductive Since (keep : Event S L → Prop) (here : Event S L → List (Event S L) → Prop) :
    List (Event S L) → Prop
  | here {e : Event S L} {h : List (Event S L)} : here e h → Since keep here (e :: h)
  | keep {e : Event S L} {h : List (Event S L)} :
      keep e → Since keep here h → Since keep here (e :: h)

theorem since_cons {keep : Event S L → Prop} {here : Event S L → List (Event S L) → Prop}
    {e : Event S L} : Since keep here (e :: h) ↔ here e h ∨ keep e ∧ Since keep here h := by
  constructor
  · intro hs
    cases hs with
    | here hp => exact Or.inl hp
    | keep hk hs => exact Or.inr ⟨hk, hs⟩
  · rintro (hp | ⟨hk, hs⟩)
    · exact Since.here hp
    · exact Since.keep hk hs

instance decidableSince (keep : Event S L → Prop) (here : Event S L → List (Event S L) → Prop)
    [DecidablePred keep] [∀ e h, Decidable (here e h)] : DecidablePred (Since keep here)
  | [] => isFalse (fun hs => nomatch hs)
  | e :: h =>
    have := decidableSince keep here h
    decidable_of_iff (here e h ∨ keep e ∧ Since keep here h) since_cons.symm

theorem Since.and {keep₁ keep₂ : Event S L → Prop} {here : Event S L → List (Event S L) → Prop}
    (h₁ : Since keep₁ here h) (h₂ : Since keep₂ here h) :
    Since (fun e => keep₁ e ∧ keep₂ e) here h := by
  induction h₁ with
  | here hp => exact Since.here hp
  | keep hk _ ih =>
    cases h₂ with
    | here hp => exact Since.here hp
    | keep hk' h₂ => exact Since.keep ⟨hk, hk'⟩ (ih h₂)

def Every (p : List (Event S L) → Event S L → Prop) : List (Event S L) → Prop
  | [] => True
  | e :: h => p h e ∧ Every p h

instance decidableEvery (p : List (Event S L) → Event S L → Prop) [∀ h e, Decidable (p h e)] :
    DecidablePred (Every p)
  | [] => isTrue trivial
  | e :: h =>
    have := decidableEvery p h
    inferInstanceAs (Decidable (p h e ∧ Every p h))

def collect {α : Type} (f : Event S L → List α) : List (Event S L) → List α
  | [] => []
  | e :: h => collect f h ++ f e

theorem mem_collect {α : Type} {f : Event S L → List α} {a : α} :
    a ∈ collect f h ↔ ∃ e ∈ h, a ∈ f e := by
  induction h with
  | nil => simp [collect]
  | cons e h ih =>
    rw [collect, List.mem_append, ih]
    simp [or_comm]

def execFrom (sys : Machine S L) : List L → List (Event S L) × S → Option (List (Event S L) × S)
  | [], r => some r
  | l :: ls, r => (sys.step r.2 l).bind (fun s' => execFrom sys ls (⟨r.2, l⟩ :: r.1, s'))

def exec (sys : Machine S L) (ls : List L) : Option (List (Event S L) × S) :=
  execFrom sys ls ([], sys.init)

theorem execFrom_run (ls : List L) (q r : List (Event S L) × S) (hq : Run sys q.1 q.2)
    (he : execFrom sys ls q = some r) : Run sys r.1 r.2 := by
  induction ls generalizing q with
  | nil =>
    cases he
    exact hq
  | cons l ls ih =>
    obtain ⟨s', hs, hr⟩ := Option.bind_eq_some_iff.mp he
    exact ih _ (Run.cons hq hs) hr

theorem exec_run (ls : List L) (r : List (Event S L) × S) (he : exec sys ls = some r) :
    Run sys r.1 r.2 :=
  execFrom_run ls _ r Run.nil he

theorem execFrom_labels (ls : List L) (q r : List (Event S L) × S)
    (he : execFrom sys ls q = some r) :
    r.1.map (fun e => e.label) = ls.reverse ++ q.1.map (fun e => e.label) := by
  induction ls generalizing q with
  | nil => cases he; rfl
  | cons l ls ih =>
    obtain ⟨s', -, hr⟩ := Option.bind_eq_some_iff.mp he
    rw [ih _ hr]
    simp

/-- The run that takes the given labels, when they can be taken. -/
def replay (sys : Machine S L) (ls : List L) : List (Event S L) × S :=
  (exec sys ls).getD ([], sys.init)

theorem replay_run (ls : List L) : Run sys (replay sys ls).1 (replay sys ls).2 := by
  unfold replay
  cases he : exec sys ls with
  | none => exact Run.nil
  | some r => exact exec_run ls r he

theorem replay_labels (ls : List L) :
    (replay sys ls).1.map (fun e => e.label) |>.Sublist ls.reverse := by
  unfold replay
  cases he : exec sys ls with
  | none => simp
  | some r =>
    rw [Option.getD_some, execFrom_labels ls _ r he]
    simp

end Mineshaft.Lib.Transition
