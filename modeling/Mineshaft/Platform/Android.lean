import Mathlib.Data.List.Infix
import Mineshaft.Platform.ProcNet

namespace Mineshaft.Platform.Android

open Mineshaft.Lib.Text

structure Entry where
  fileName : List UInt8
  comm : Except ErrorKind (List Char)
  cmdline : Except ErrorKind (List UInt8)

/-- What `read_dir` gives: each entry of the listing can fail by itself. -/
abbrev Proc := Except ErrorKind (List (Except ErrorKind Entry))

def names : List (List Char) :=
  ["Minecraft.Windows.exe".toList, "minecraft".toList, "mcpelauncher".toList,
    "minecraftlinux".toList, "bedrock_server".toList, "bedrock-server".toList]

def isAsciiDigit (b : UInt8) : Bool := 48 ≤ b && b ≤ 57

def Entry.isProcess (entry : Entry) : Bool :=
  (toStr entry.fileName).isSome && entry.fileName.all isAsciiDigit

def commMatches (names : List (List Char)) (entry : Entry) : Bool :=
  match entry.comm with
  | .ok comm => names.any (fun candidate => decide (trim comm = candidate))
  | .error _ => false

section Lowercase

-- `to_lowercase` of the standard library, over the tables of Unicode
variable (toLowercase : List Char → List Char)

def cmdlineMatches (names : List (List Char)) (entry : Entry) : Bool :=
  match entry.cmdline with
  | .ok cmdline =>
    let haystack := toLowercase
      ((fromUtf8Lossy cmdline).map (fun c => if c = Char.ofNat 0 then ' ' else c))
    names.any (fun candidate => decide (toLowercase candidate <:+: haystack))
  | .error _ => false

/-- The loop of `proc_visible_matches`. Entries that could not be read are
skipped. -/
def visit (names : List (List Char)) (anyVisible : Bool) :
    List (Except ErrorKind Entry) → Option Bool
  | [] => if anyVisible then some false else none
  | .error _ :: rest => visit names anyVisible rest
  | .ok entry :: rest =>
    if entry.isProcess then
      if commMatches names entry then some true
      else if cmdlineMatches toLowercase names entry then some true
      else visit names true rest
    else visit names anyVisible rest

def procVisibleMatches (names : List (List Char)) (proc : Proc) : Option Bool :=
  match proc with
  | .ok entries => visit toLowercase names false entries
  | .error _ => none

def minecraftProcessRunning (proc : Proc) : Bool :=
  match procVisibleMatches toLowercase names proc with
  | some found => found
  | none => true

end Lowercase

def processes : List (Except ErrorKind Entry) → List Entry
  | [] => []
  | .error _ :: rest => processes rest
  | .ok entry :: rest => if entry.isProcess then entry :: processes rest else processes rest

def Entry.Readable (entry : Entry) : Prop :=
  (∃ comm, entry.comm = .ok comm) ∧ ∃ cmdline, entry.cmdline = .ok cmdline

def Unrestricted (entries : List (Except ErrorKind Entry)) : Prop :=
  (∀ e ∈ entries, ∃ entry, e = .ok entry) ∧ ∀ entry ∈ processes entries, entry.Readable

def Matches (toLowercase : List Char → List Char) (entry : Entry) : Prop :=
  commMatches names entry = true ∨ cmdlineMatches toLowercase names entry = true

/-- The answer is `false` only when everything was seen and nothing matched, and
`true` whenever something could not be seen. -/
structure BiasedTowardRunning (toLowercase : List Char → List Char) (proc : Proc) : Prop where
  seen : minecraftProcessRunning toLowercase proc = false →
    ∃ entries, proc = .ok entries ∧ processes entries ≠ [] ∧ Unrestricted entries ∧
      ∀ entry ∈ processes entries, ¬ Matches toLowercase entry
  restricted : (∀ entries, proc = .ok entries → processes entries = [] ∨ ¬ Unrestricted entries) →
    minecraftProcessRunning toLowercase proc = true

section Running

variable {toLowercase : List Char → List Char}

theorem visit_eq_some_false {anyVisible : Bool} {entries : List (Except ErrorKind Entry)} :
    visit toLowercase names anyVisible entries = some false ↔
      (anyVisible = true ∨ processes entries ≠ []) ∧
        ∀ entry ∈ processes entries, ¬ Matches toLowercase entry := by
  induction entries generalizing anyVisible with
  | nil => cases anyVisible <;> simp [visit, processes]
  | cons e rest ih =>
    cases e with
    | error kind => exact ih
    | ok entry =>
      by_cases hp : entry.isProcess = true
      · by_cases hm : Matches toLowercase entry
        · have hv : visit toLowercase names anyVisible (.ok entry :: rest) = some true := by
            simp only [visit, if_pos hp]
            obtain hc | hl := hm
            · rw [if_pos hc]
            · rw [if_pos hl]
              split <;> rfl
          simp [hv, processes, hp, hm]
        · have hc : ¬ commMatches names entry = true := fun h => hm (Or.inl h)
          have hl : ¬ cmdlineMatches toLowercase names entry = true := fun h => hm (Or.inr h)
          simp [visit, processes, hp, hc, hl, ih, hm]
      · simp [visit, processes, hp, ih]

theorem running_eq_false_iff {entries : List (Except ErrorKind Entry)} :
    minecraftProcessRunning toLowercase (.ok entries) = false ↔
      processes entries ≠ [] ∧ ∀ entry ∈ processes entries, ¬ Matches toLowercase entry := by
  have hv := @visit_eq_some_false toLowercase false entries
  rw [minecraftProcessRunning, procVisibleMatches]
  split
  next found h =>
    rw [h] at hv
    simpa using hv
  next h =>
    rw [h] at hv
    simpa using hv

end Running

/-- What cannot be read counts as running only where the listing fails as a
whole or shows no process: one visible process that does not match is enough
for `false`, whatever is hidden beside it or in it. -/
theorem biasedTowardRunning_iff (toLowercase : List Char → List Char) (proc : Proc) :
    BiasedTowardRunning toLowercase proc ↔
      ∀ entries, proc = .ok entries → processes entries = [] ∨
        (∃ entry ∈ processes entries, Matches toLowercase entry) ∨ Unrestricted entries := by
  constructor
  · rintro ⟨hseen, -⟩ entries rfl
    by_cases hnone : processes entries = []
    · exact Or.inl hnone
    by_cases hmatch : ∃ entry ∈ processes entries, Matches toLowercase entry
    · exact Or.inr (Or.inl hmatch)
    have hfalse := running_eq_false_iff.mpr
      ⟨hnone, fun entry he hm => hmatch ⟨entry, he, hm⟩⟩
    obtain ⟨entries', heq, -, hall, -⟩ := hseen hfalse
    cases heq
    exact Or.inr (Or.inr hall)
  · intro hcond
    have hseen : minecraftProcessRunning toLowercase proc = false →
        ∃ entries, proc = .ok entries ∧ processes entries ≠ [] ∧ Unrestricted entries ∧
          ∀ entry ∈ processes entries, ¬ Matches toLowercase entry := by
      intro hfalse
      cases proc with
      | error e => simp [minecraftProcessRunning, procVisibleMatches] at hfalse
      | ok entries =>
        obtain ⟨hsome, hno⟩ := running_eq_false_iff.mp hfalse
        refine ⟨entries, rfl, hsome, ?_, hno⟩
        obtain h | ⟨entry, he, hm⟩ | h := hcond entries rfl
        · exact absurd h hsome
        · exact absurd hm (hno entry he)
        · exact h
    refine ⟨hseen, fun hres => ?_⟩
    by_contra hfalse
    obtain ⟨entries, heq, hsome, hall, -⟩ := hseen (Bool.eq_false_iff.mpr hfalse)
    obtain h | h := hres entries heq
    · exact hsome h
    · exact h hall

/-- A build that shows the process directories and hides what is in them. -/
def hiddenProcess : Proc :=
  .ok [.ok ⟨[52, 55, 49, 49], .error .permissionDenied, .error .permissionDenied⟩]

theorem biasedTowardRunning_hiddenProcess :
    minecraftProcessRunning (fun text => text.map Char.toLower) hiddenProcess = false ∧
      ¬ BiasedTowardRunning (fun text => text.map Char.toLower) hiddenProcess := by
  have hfalse : minecraftProcessRunning (fun text => text.map Char.toLower) hiddenProcess =
      false := by decide
  refine ⟨hfalse, ?_⟩
  rintro ⟨hseen, -⟩
  obtain ⟨entries, heq, -, ⟨-, hread⟩, -⟩ := hseen hfalse
  cases heq
  obtain ⟨⟨comm, hcomm⟩, -⟩ := hread _ (List.mem_singleton.mpr rfl)
  cases hcomm

end Mineshaft.Platform.Android
