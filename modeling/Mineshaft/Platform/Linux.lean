import Mineshaft.Platform.Android

namespace Mineshaft.Platform.Linux

open Mineshaft.Lib.Text
open Mineshaft.Platform.Android (Entry Proc commMatches cmdlineMatches processes Matches
  running_eq_false_iff)

def names : List (List Char) :=
  ["Minecraft.Windows.exe".toList, "minecraft".toList, "mcpelauncher".toList,
    "minecraftlinux".toList, "bedrock_server".toList, "bedrock-server".toList]

/-- The loop of `proc_comm_matches` and of `proc_cmdline_matches`, which differ
in the file that they compare. Entries that could not be read are skipped. -/
def anyProcess (matching : Entry → Bool) : List (Except ErrorKind Entry) → Bool
  | [] => false
  | .error _ :: rest => anyProcess matching rest
  | .ok entry :: rest =>
    if entry.isProcess then
      if matching entry then true
      else anyProcess matching rest
    else anyProcess matching rest

def procMatches (matching : Entry → Bool) (proc : Proc) : Bool :=
  match proc with
  | .ok entries => anyProcess matching entries
  | .error _ => false

def procCommMatches (names : List (List Char)) (proc : Proc) : Bool :=
  procMatches (commMatches names) proc

section Lowercase

-- `to_lowercase` of the standard library, over the tables of Unicode
variable (toLowercase : List Char → List Char)

def procCmdlineMatches (names : List (List Char)) (proc : Proc) : Bool :=
  procMatches (cmdlineMatches toLowercase names) proc

/-- `minecraft_process_running`. It lists `/proc` twice, and then asks `pgrep`. -/
def minecraftProcessRunning (commProc cmdlineProc : Proc)
    (commandSucceeds : String → List String → Bool) : Bool :=
  if procCommMatches names commProc || procCmdlineMatches toLowercase names cmdlineProc then true
  else
    commandSucceeds "pgrep" ["-f", "Minecraft.Windows.exe"] ||
      commandSucceeds "pgrep" ["-f", "bedrock_server"]

end Lowercase

def visible (proc : Proc) : List Entry :=
  match proc with
  | .ok entries => processes entries
  | .error _ => []

theorem anyProcess_iff {matching : Entry → Bool} {entries : List (Except ErrorKind Entry)} :
    anyProcess matching entries = true ↔ ∃ entry ∈ processes entries, matching entry = true := by
  induction entries with
  | nil => simp [anyProcess, processes]
  | cons e rest ih =>
    cases e with
    | error kind => exact ih
    | ok entry =>
      by_cases hp : entry.isProcess = true
      · by_cases hm : matching entry = true
        · simp [anyProcess, processes, hp, hm]
        · simp [anyProcess, processes, hp, hm, ih]
      · simp [anyProcess, processes, hp, ih]

theorem procMatches_iff {matching : Entry → Bool} {proc : Proc} :
    procMatches matching proc = true ↔ ∃ entry ∈ visible proc, matching entry = true := by
  cases proc with
  | error e => simp [procMatches, visible]
  | ok entries => exact anyProcess_iff

def fallback (commandSucceeds : String → List String → Bool) : Bool :=
  commandSucceeds "pgrep" ["-f", "Minecraft.Windows.exe"] ||
    commandSucceeds "pgrep" ["-f", "bedrock_server"]

variable {toLowercase : List Char → List Char} {commandSucceeds : String → List String → Bool}

theorem running_iff {commProc cmdlineProc : Proc} :
    minecraftProcessRunning toLowercase commProc cmdlineProc commandSucceeds = true ↔
      (∃ entry ∈ visible commProc, commMatches names entry = true) ∨
      (∃ entry ∈ visible cmdlineProc, cmdlineMatches toLowercase names entry = true) ∨
      fallback commandSucceeds = true := by
  unfold minecraftProcessRunning
  split
  next h =>
    rw [Bool.or_eq_true, procCommMatches, procCmdlineMatches, procMatches_iff, procMatches_iff] at h
    simp only [true_iff]
    obtain h | h := h
    · exact Or.inl h
    · exact Or.inr (Or.inl h)
  next h =>
    rw [Bool.or_eq_true, procCommMatches, procCmdlineMatches, procMatches_iff, procMatches_iff] at h
    push Not at h
    constructor
    · intro hf
      exact Or.inr (Or.inr hf)
    · rintro (⟨entry, he, hm⟩ | ⟨entry, he, hm⟩ | hf)
      · exact absurd hm (h.1 entry he)
      · exact absurd hm (h.2 entry he)
      · exact hf

theorem android_running_iff {proc : Proc} :
    Android.minecraftProcessRunning toLowercase proc = true ↔
      visible proc = [] ∨ ∃ entry ∈ visible proc, Matches toLowercase entry := by
  cases proc with
  | error e => simp [Android.minecraftProcessRunning, Android.procVisibleMatches, visible]
  | ok entries =>
    have hf := @running_eq_false_iff toLowercase entries
    rw [← Bool.not_eq_true, not_iff_comm] at hf
    rw [← hf]
    simp only [visible]
    constructor
    · intro h
      by_cases hnil : processes entries = []
      · exact Or.inl hnil
      · right
        by_contra hno
        push Not at hno
        exact h ⟨hnil, hno⟩
    · rintro (hnil | ⟨entry, he, hm⟩) ⟨hne, hno⟩
      · exact hne hnil
      · exact hno entry he hm

/-- On one and the same listing the two backends look for the same names in the
same files. They differ exactly where nothing matches: there Linux asks `pgrep`,
and Android says `true` when it has seen no process at all. -/
theorem backends_agree_iff (toLowercase : List Char → List Char)
    (commandSucceeds : String → List String → Bool) (proc : Proc) :
    minecraftProcessRunning toLowercase proc proc commandSucceeds =
        Android.minecraftProcessRunning toLowercase proc ↔
      (∃ entry ∈ visible proc, Matches toLowercase entry) ∨
        (fallback commandSucceeds = true ↔ visible proc = []) := by
  have hlinux := @running_iff toLowercase commandSucceeds proc proc
  have handroid := @android_running_iff toLowercase proc
  rw [Bool.eq_iff_iff, hlinux, handroid]
  by_cases hm : ∃ entry ∈ visible proc, Matches toLowercase entry
  · obtain ⟨entry, he, hmatch⟩ := hm
    refine iff_of_true ?_ (Or.inl ⟨entry, he, hmatch⟩)
    refine iff_of_true ?_ (Or.inr ⟨entry, he, hmatch⟩)
    obtain h | h := hmatch
    · exact Or.inl ⟨entry, he, h⟩
    · exact Or.inr (Or.inl ⟨entry, he, h⟩)
  · have hcomm : ¬ ∃ entry ∈ visible proc, commMatches names entry = true :=
      fun ⟨entry, he, h⟩ => hm ⟨entry, he, Or.inl h⟩
    have hcmd : ¬ ∃ entry ∈ visible proc, cmdlineMatches toLowercase names entry = true :=
      fun ⟨entry, he, h⟩ => hm ⟨entry, he, Or.inr h⟩
    simp only [hm, hcomm, hcmd, false_or, or_false]

end Mineshaft.Platform.Linux
