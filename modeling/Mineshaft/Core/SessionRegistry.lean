import Mineshaft.Lib.HashMap
import Mineshaft.Lib.Transition

namespace Mineshaft.Core

open Mineshaft.Lib Mineshaft.Lib.Transition

structure SessionSummary (A : Type) where
  networkId : String
  connectionId : UInt64
  localAddr : A
  remoteAddr : A
  deriving DecidableEq

structure SessionRegistry (S : Type) where
  sessions : HashMap (String × UInt64) S

namespace SessionRegistry

variable {S : Type}

def upsert (reg : SessionRegistry S) (networkId : String) (connectionId : UInt64) (session : S) :
    SessionRegistry S := ⟨reg.sessions.insert (networkId, connectionId) session⟩

def remove (reg : SessionRegistry S) (networkId : String) (connectionId : UInt64) :
    SessionRegistry S := ⟨reg.sessions.erase (networkId, connectionId)⟩

def get (reg : SessionRegistry S) (networkId : String) (connectionId : UInt64) : Option S :=
  reg.sessions.lookup (networkId, connectionId)

def len (reg : SessionRegistry S) : Nat := reg.sessions.len

end SessionRegistry

/-- A call of `snapshot` that waits for an address: the copied entries that are
left, the local address of the first of them when it is known, and the
summaries so far. -/
structure Snapshot (S A : Type) where
  entries : List ((String × UInt64) × S)
  localAddr : Option A
  out : List (SessionSummary A)
  deriving DecidableEq

structure Sessions (S A : Type) where
  registry : SessionRegistry S
  localAddr : S → A
  remoteAddr : S → A
  calls : Nat → Option (Snapshot S A)

namespace Sessions

/-- A session is stored or removed; the transport of a session changes its
addresses; a call of `snapshot` copies the entries in the order in which the map
gives them, and learns the local and then the remote address of the next one. -/
inductive Label (S A : Type)
  | upsert (networkId : String) (connectionId : UInt64) (session : S)
  | remove (networkId : String) (connectionId : UInt64)
  | moved (session : S) (localAddr remoteAddr : A)
  | snapshot (call : Nat) (entries : List ((String × UInt64) × S))
  | askLocal (call : Nat)
  | askRemote (call : Nat)

variable {S A : Type} {post : List (Transition.Event (Sessions S A) (Label S A))}

/-- The session that was stored last for a key and not removed since. -/
def live (key : String × UInt64) : List (Transition.Event (Sessions S A) (Label S A)) → Option S
  | [] => none
  | e :: h =>
    match e.label with
    | .upsert networkId connectionId session =>
      if key = (networkId, connectionId) then some session else live key h
    | .remove networkId connectionId =>
      if key = (networkId, connectionId) then none else live key h
    | .moved _ _ _ | .snapshot _ _ | .askLocal _ | .askRemote _ => live key h

def Summarizes (post : List (Transition.Event (Sessions S A) (Label S A)))
    (entry : (String × UInt64) × S) (summary : SessionSummary A) : Prop :=
  (summary.networkId, summary.connectionId) = entry.1 ∧
    (∃ e ∈ post, summary.localAddr = e.pre.localAddr entry.2) ∧
    ∃ e ∈ post, summary.remoteAddr = e.pre.remoteAddr entry.2

def Progress (post : List (Transition.Event (Sessions S A) (Label S A)))
    (copied : List ((String × UInt64) × S)) (c : Snapshot S A) : Prop :=
  ∃ done, copied = done ++ c.entries ∧ List.Forall₂ (Summarizes post) done c.out ∧
    ∀ a, c.localAddr = some a → ∀ entry ∈ c.entries.head?, ∃ e ∈ post, a = e.pre.localAddr entry.2

theorem Summarizes.later {entry : (String × UInt64) × S} {summary : SessionSummary A}
    (hs : Summarizes post entry summary) (e : Transition.Event (Sessions S A) (Label S A)) :
    Summarizes (e :: post) entry summary := by
  obtain ⟨hk, ⟨e₁, h₁, hl⟩, e₂, h₂, hr⟩ := hs
  exact ⟨hk, ⟨e₁, List.mem_cons_of_mem _ h₁, hl⟩, e₂, List.mem_cons_of_mem _ h₂, hr⟩

theorem Progress.later {copied : List ((String × UInt64) × S)} {c : Snapshot S A}
    (hp : Progress post copied c) (e : Transition.Event (Sessions S A) (Label S A)) :
    Progress (e :: post) copied c := by
  obtain ⟨done, hd, hout, hlocal⟩ := hp
  refine ⟨done, hd, hout.imp (fun _ _ hs => hs.later e), ?_⟩
  intro a ha entry hentry
  obtain ⟨e₁, h₁, hl⟩ := hlocal a ha entry hentry
  exact ⟨e₁, List.mem_cons_of_mem _ h₁, hl⟩

def copied (reg : SessionRegistry S) : List ((String × UInt64) × S) :=
  reg.sessions.entries.map (fun e => (e.1, e.2))

theorem copied_keys (reg : SessionRegistry S) :
    (copied reg).map (fun entry => entry.1) = reg.sessions.keys := by
  rw [copied, List.map_map]
  rfl

theorem mem_copied {reg : SessionRegistry S} {entry : (String × UInt64) × S}
    (hm : entry ∈ copied reg) : reg.get entry.1.1 entry.1.2 = some entry.2 := by
  obtain ⟨⟨k, v⟩, he, rfl⟩ := List.mem_map.mp hm
  exact (HashMap.lookup_eq_some_iff reg.sessions k v).mpr he

variable {entries : List ((String × UInt64) × S)} {out : List (SessionSummary A)}

theorem summaries_keys (hf : List.Forall₂ (Summarizes post) entries out) :
    out.map (fun x => (x.networkId, x.connectionId)) = entries.map (fun entry => entry.1) := by
  induction hf with
  | nil => rfl
  | cons hs _ ih => rw [List.map_cons, List.map_cons, ih, hs.1]

theorem summaries_mem (hf : List.Forall₂ (Summarizes post) entries out) {x : SessionSummary A}
    (hx : x ∈ out) : ∃ entry ∈ entries, Summarizes post entry x := by
  induction hf with
  | nil => cases hx
  | cons hs _ ih =>
    obtain rfl | hx := List.mem_cons.mp hx
    · exact ⟨_, List.mem_cons_self, hs⟩
    · obtain ⟨entry, hm, hs'⟩ := ih hx
      exact ⟨entry, List.mem_cons_of_mem _ hm, hs'⟩

variable [DecidableEq S]

def setCall (s : Sessions S A) (call : Nat) (c : Snapshot S A) : Sessions S A :=
  { s with calls := Function.update s.calls call (some c) }

def step (s : Sessions S A) : Label S A → Option (Sessions S A)
  | .upsert networkId connectionId session =>
    some { s with registry := s.registry.upsert networkId connectionId session }
  | .remove networkId connectionId =>
    some { s with registry := s.registry.remove networkId connectionId }
  | .moved session localAddr remoteAddr =>
    some { s with
      localAddr := Function.update s.localAddr session localAddr
      remoteAddr := Function.update s.remoteAddr session remoteAddr }
  | .snapshot call entries =>
    match s.calls call with
    | none =>
      if entries.Perm (s.registry.sessions.entries.map (fun e => (e.1, e.2))) then
        some (s.setCall call ⟨entries, none, []⟩)
      else
        none
    | some _ => none
  | .askLocal call =>
    match s.calls call with
    | some ⟨(key, session) :: rest, none, out⟩ =>
      some (s.setCall call ⟨(key, session) :: rest, some (s.localAddr session), out⟩)
    | _ => none
  | .askRemote call =>
    match s.calls call with
    | some ⟨(key, session) :: rest, some localAddr, out⟩ =>
      some (s.setCall call
        ⟨rest, none, out ++ [⟨key.1, key.2, localAddr, s.remoteAddr session⟩]⟩)
    | _ => none

def machine (localAddr remoteAddr : S → A) : Machine (Sessions S A) (Label S A) :=
  ⟨⟨⟨∅⟩, localAddr, remoteAddr, fun _ => none⟩, step⟩

variable {localAddr remoteAddr : S → A} {s s' : Sessions S A}
variable {h : List (Transition.Event (Sessions S A) (Label S A))}

theorem step_cases {l : Label S A} (hs : step s l = some s') :
    s'.calls = s.calls ∧ (∀ i entries, l ≠ .snapshot i entries ∧ l ≠ .askLocal i ∧
        l ≠ .askRemote i) ∨
    s'.registry = s.registry ∧
      ((∃ i entries, l = .snapshot i entries ∧ s.calls i = none ∧
          entries.Perm (copied s.registry) ∧ s' = s.setCall i ⟨entries, none, []⟩) ∨
        (∃ i key session rest out, l = .askLocal i ∧
          s.calls i = some ⟨(key, session) :: rest, none, out⟩ ∧
          s' = s.setCall i ⟨(key, session) :: rest, some (s.localAddr session), out⟩) ∨
        ∃ i key session rest a out, l = .askRemote i ∧
          s.calls i = some ⟨(key, session) :: rest, some a, out⟩ ∧
          s' = s.setCall i ⟨rest, none, out ++ [⟨key.1, key.2, a, s.remoteAddr session⟩]⟩) := by
  cases l with
  | upsert _ _ _ | remove _ _ | moved _ _ _ =>
    cases hs
    exact Or.inl ⟨rfl, by simp⟩
  | snapshot i entries =>
    simp only [step] at hs
    split at hs
    next hc =>
      split at hs <;> cases hs
      next hperm => exact Or.inr ⟨rfl, Or.inl ⟨i, entries, rfl, hc, hperm, rfl⟩⟩
    · cases hs
  | askLocal i =>
    simp only [step] at hs
    split at hs <;> cases hs
    next key session rest out hc =>
      exact Or.inr ⟨rfl, Or.inr (Or.inl ⟨i, key, session, rest, out, rfl, hc, rfl⟩)⟩
  | askRemote i =>
    simp only [step] at hs
    split at hs <;> cases hs
    next key session rest a out hc =>
      exact Or.inr ⟨rfl, Or.inr (Or.inr ⟨i, key, session, rest, a, out, rfl, hc, rfl⟩)⟩

theorem run_live (hr : Run (machine localAddr remoteAddr) h s) (key : String × UInt64) :
    s.registry.get key.1 key.2 = live key h := by
  change s.registry.sessions.lookup key = live key h
  induction hr with
  | nil => rfl
  | @cons h s s' l _ hs ih =>
    have hs : step s l = some s' := hs
    cases l with
    | upsert n c session =>
      cases hs
      rw [SessionRegistry.upsert, HashMap.lookup_insert_eq, ih]
      rfl
    | remove n c =>
      cases hs
      rw [SessionRegistry.remove, HashMap.lookup_erase_eq, ih]
      rfl
    | moved session a b =>
      cases hs
      exact ih
    | snapshot i _ | askLocal i | askRemote i =>
      obtain ⟨-, hl⟩ | ⟨hreg, -⟩ := step_cases hs
      · have hi := fun entries => hl i entries
        simp at hi
      · rw [hreg, ih]
        rfl

/-- Every call goes through the entries that it has copied when it began. -/
theorem run_progress (hr : Run (machine localAddr remoteAddr) h s) {i : Nat} {c : Snapshot S A}
    (hc : s.calls i = some c) :
    ∃ post e early entries, h = post ++ e :: early ∧ e.label = .snapshot i entries ∧
      entries.Perm (copied e.pre.registry) ∧ Progress post entries c := by
  induction hr generalizing c with
  | nil => cases hc
  | @cons h s s' l _ hs ih =>
    have hs : step s l = some s' := hs
    -- a call that this step does not concern
    have hother : s.calls i = some c → ∃ post e early entries,
        ⟨s, l⟩ :: h = post ++ e :: early ∧ e.label = .snapshot i entries ∧
          entries.Perm (copied e.pre.registry) ∧ Progress post entries c := by
      intro hc
      obtain ⟨post, e, early, entries, rfl, hl, hperm, hp⟩ := ih hc
      exact ⟨⟨s, l⟩ :: post, e, early, entries, rfl, hl, hperm, hp.later _⟩
    obtain ⟨hcalls, -⟩ | ⟨-, ⟨j, entries, rfl, -, hperm, rfl⟩ |
      ⟨j, key, session, rest, out, rfl, hj, rfl⟩ |
      ⟨j, key, session, rest, a, out, rfl, hj, rfl⟩⟩ := step_cases hs
    · exact hother (by rw [← hcalls]; exact hc)
    · by_cases hij : i = j
      · subst hij
        obtain rfl : c = ⟨entries, none, []⟩ := by
          simpa [setCall] using hc.symm
        exact ⟨[], _, h, entries, rfl, rfl, hperm, [], rfl, List.Forall₂.nil, by simp⟩
      · exact hother (by simpa [setCall, hij] using hc)
    · by_cases hij : i = j
      · subst hij
        obtain rfl : c = ⟨(key, session) :: rest, some (s.localAddr session), out⟩ := by
          simpa [setCall] using hc.symm
        obtain ⟨post, e, early, entries, rfl, hl, hperm, hp⟩ := ih hj
        obtain ⟨done, hd, hout, -⟩ := hp.later ⟨s, .askLocal i⟩
        refine ⟨⟨s, .askLocal i⟩ :: post, e, early, entries, rfl, hl, hperm, done, hd, hout, ?_⟩
        rintro b hb entry ⟨⟩
        cases hb
        exact ⟨_, List.mem_cons_self, rfl⟩
      · exact hother (by simpa [setCall, hij] using hc)
    · by_cases hij : i = j
      · subst hij
        obtain rfl : c = ⟨rest, none, out ++ [⟨key.1, key.2, a, s.remoteAddr session⟩]⟩ := by
          simpa [setCall] using hc.symm
        obtain ⟨post, e, early, entries, rfl, hl, hperm, hp⟩ := ih hj
        obtain ⟨done, hd, hout, hlocal⟩ := hp.later ⟨s, .askRemote i⟩
        refine ⟨⟨s, .askRemote i⟩ :: post, e, early, entries, rfl, hl, hperm, done ++ [(key, session)],
          ?_, ?_, by simp⟩
        · rw [hd]
          simp
        · refine List.rel_append hout (List.Forall₂.cons ?_ List.Forall₂.nil)
          exact ⟨rfl, hlocal a rfl (key, session) rfl, _, List.mem_cons_self, rfl⟩
      · exact hother (by simpa [setCall, hij] using hc)

/-- A finished snapshot is the registry of one instant: that of its beginning,
whatever is stored and removed while it asks the sessions for their addresses.
It has one summary for each session that was live then, with addresses that
this session had later, while the call ran. -/
theorem snapshot_of_one_instant {h : List (Transition.Event (Sessions S A) (Label S A))}
    {s : Sessions S A} (hr : Run (machine localAddr remoteAddr) h s) {i : Nat}
    {out : List (SessionSummary A)} (hc : s.calls i = some ⟨[], none, out⟩) :
    ∃ post e early entries, h = post ++ e :: early ∧ e.label = .snapshot i entries ∧
      (out.map (fun x => (x.networkId, x.connectionId))).Nodup ∧
      out.length = e.pre.registry.len ∧
      (∀ key, key ∈ out.map (fun x => (x.networkId, x.connectionId)) ↔ (live key early).isSome) ∧
      ∀ x ∈ out, ∃ session, live (x.networkId, x.connectionId) early = some session ∧
        (∃ e₁ ∈ post, x.localAddr = e₁.pre.localAddr session) ∧
        ∃ e₂ ∈ post, x.remoteAddr = e₂.pre.remoteAddr session := by
  obtain ⟨post, e, early, entries, rfl, hl, hperm, done, hd, hf, -⟩ := run_progress hr hc
  rw [List.append_nil] at hd
  subst hd
  have hlive := run_live hr.split.1
  -- the summaries stand in the order of the iteration, the keys are those of the map
  have hkeys : (out.map (fun x => (x.networkId, x.connectionId))).Perm
      e.pre.registry.sessions.keys := by
    rw [summaries_keys hf, ← copied_keys]
    exact hperm.map _
  refine ⟨post, e, early, entries, rfl, hl, ?_, ?_, ?_, ?_⟩
  · exact hkeys.nodup_iff.mpr e.pre.registry.sessions.keys_nodup
  · have hlen := hkeys.length_eq
    rwa [List.length_map] at hlen
  · intro key
    rw [hkeys.mem_iff, ← hlive key, SessionRegistry.get, AList.lookup_isSome, AList.mem_keys]
  · intro x hx
    obtain ⟨entry, hm, hk, hlocal, hremote⟩ := summaries_mem hf hx
    refine ⟨entry.2, ?_, hlocal, hremote⟩
    rw [hk, ← hlive]
    exact mem_copied (hperm.mem_iff.mp hm)

/-- A session is removed and one changes its addresses while a snapshot runs; the
iteration begins with the older of the two. -/
def overlapped : List (Label Nat Nat) :=
  [.upsert "a" 1 10, .upsert "b" 2 20, .snapshot 0 [(("a", 1), 10), (("b", 2), 20)],
    .remove "a" 1, .askLocal 0, .moved 20 7 8, .askRemote 0, .askLocal 0, .askRemote 0]

theorem snapshot_of_one_instant_overlapped :
    (replay (machine (fun n : Nat => n + 1) (fun n => n + 2)) overlapped).2.registry.len = 1 ∧
      ∃ e ∈ (replay (machine (fun n : Nat => n + 1) (fun n => n + 2)) overlapped).1,
        e.pre.registry.len = 2 ∧ ∃ entries, e.label = .snapshot 0 entries := by
  have hc : (replay (machine (fun n : Nat => n + 1) (fun n => n + 2)) overlapped).2.calls 0 =
      some ⟨[], none, [⟨"a", 1, 11, 12⟩, ⟨"b", 2, 7, 8⟩]⟩ := by decide +kernel
  obtain ⟨post, e, early, entries, hh, hl, -, hlen, -, -⟩ :=
    snapshot_of_one_instant (replay_run overlapped) hc
  refine ⟨by decide +kernel, e, ?_, hlen.symm, entries, hl⟩
  rw [hh]
  simp

end Sessions

end Mineshaft.Core
