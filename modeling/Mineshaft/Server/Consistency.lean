import Mineshaft.Server.Wiring

namespace Mineshaft.Server

open Mineshaft.Core Mineshaft.Lib Mineshaft.Lib.Transition

/-- The three maps agree: the host maps have the same keys, a record is
stored under its own sender id, and the owner of a host is connected. -/
structure Consistent (reg : Registry) : Prop where
  keys : ∀ id, (reg.hosts.lookup id).isSome = (reg.hostRecords.lookup id).isSome
  senderId : ∀ id r, reg.hostRecords.lookup id = some r → r.senderId = id
  owner : ∀ id addr, reg.hosts.lookup id = some addr → (reg.clients.lookup addr).isSome

namespace Consistent

variable {reg : Registry} {addr : SocketAddr}

theorem init : Consistent Registry.init where
  keys := by intro id; rfl
  senderId := by intro id r h; cases h
  owner := by intro id a h; cases h

theorem insertClient (h : Consistent reg) (handle : ClientHandle) :
    Consistent (reg.insertClient addr handle) where
  keys := h.keys
  senderId := h.senderId
  owner := by
    intro id a ha
    change ((reg.clients.insert addr handle).lookup a).isSome
    rw [HashMap.lookup_insert_eq]
    split
    · rfl
    · exact h.owner id a ha

theorem registerHost (h : Consistent reg) (hc : (reg.clients.lookup addr).isSome)
    (server : AdvertisedServer) : Consistent (reg.registerHost addr server) where
  keys := by
    intro id
    simp only [Registry.registerHost, HashMap.lookup_insert_eq]
    split
    · rfl
    · exact h.keys id
  senderId := by
    intro id r hr
    simp only [Registry.registerHost, HashMap.lookup_insert_eq] at hr
    split at hr
    next he => cases hr; exact he.symm
    · exact h.senderId id r hr
  owner := by
    intro id a ha
    simp only [Registry.registerHost, HashMap.lookup_insert_eq] at ha ⊢
    split at ha
    · cases ha; exact hc
    · exact h.owner id a ha

theorem updateHost (h : Consistent reg) (server : AdvertisedServer) :
    Consistent (reg.updateHost addr server) := by
  unfold Registry.updateHost
  split
  next ho =>
    refine ⟨?_, ?_, h.owner⟩
    · intro id
      simp only [HashMap.lookup_insert_eq]
      split
      next he => subst he; simp [ho]
      · exact h.keys id
    · intro id r hr
      simp only [HashMap.lookup_insert_eq] at hr
      split at hr
      next he => cases hr; exact he.symm
      · exact h.senderId id r hr
  · exact h

theorem unregisterHost (h : Consistent reg) (id : UInt64) :
    Consistent (reg.unregisterHost addr id) := by
  unfold Registry.unregisterHost
  split
  · refine ⟨?_, ?_, ?_⟩
    · intro i
      simp only [HashMap.lookup_erase_eq]
      split
      · rfl
      · exact h.keys i
    · intro i r hr
      simp only [HashMap.lookup_erase_eq] at hr
      split at hr
      · cases hr
      · exact h.senderId i r hr
    · intro i a ha
      simp only [HashMap.lookup_erase_eq] at ha ⊢
      split at ha
      · cases ha
      · exact h.owner i a ha
  · exact h

theorem routeSignal (h : Consistent reg) (target conn : UInt64) :
    Consistent (reg.routeSignal addr target conn) := by
  unfold Registry.routeSignal
  split
  · split
    · exact ⟨h.keys, h.senderId, h.owner⟩
    · exact h
  · exact h

theorem regAfter (h : Consistent reg) (hc : (reg.clients.lookup addr).isSome)
    (msg : ClientMessage) : Consistent (regAfter reg addr msg) := by
  cases msg with
  | registerHost server => exact h.registerHost hc server
  | updateHost server => exact h.updateHost server
  | unregisterHost id => exact h.unregisterHost id
  | signal t c n d => exact h.routeSignal t c
  | ping | listHosts | connectRequest => exact h

theorem cleanup (h : Consistent reg) : Consistent (reg.cleanup addr) where
  keys := by
    intro id
    rw [Registry.cleanup_hosts, Registry.cleanup_hostRecords]
    split
    · rfl
    · exact h.keys id
  senderId := by
    intro id r hr
    rw [Registry.cleanup_hostRecords] at hr
    split at hr
    · cases hr
    · exact h.senderId id r hr
  owner := by
    intro id a ha
    rw [Registry.cleanup_hosts] at ha
    split at ha
    · cases ha
    next hne =>
      have hna : a ≠ addr := by rintro rfl; exact hne ha
      rw [Registry.cleanup_clients, if_neg hna]
      exact h.owner id a ha

theorem step {v v' : View} {l : Label} (h : Consistent v.reg) (hw : Wired v)
    (he : Effect v l v') : Consistent v'.reg := by
  cases he with
  | accept => exact h
  | insert => exact h.insertClient _
  | @handle c a msg hc => exact h.regAfter (by simp [hw.client c a hc]) msg
  | openSession => exact ⟨h.keys, h.senderId, h.owner⟩
  | cleanup => exact h.cleanup
  | read | listHosts | sendTo | leave | write | closeRx => exact h

end Consistent

theorem run_consistent {h : List Event} {s : State} (hr : Run h s) (hd : DistinctAddrs h) :
    Consistent s.reg := by
  have hi : Wired s.view ∧ Consistent s.reg :=
    hr.invariant (fun e : Event => FreshAddr e.pre.view e.label)
      (fun s : State => Wired s.view ∧ Consistent s.reg) ⟨Wired.init, Consistent.init⟩
      (fun _ _ _ hf hi hs => ⟨hi.1.step hf (step_effect hs), hi.2.step hi.1 (step_effect hs)⟩) hd
  exact hi.2

def NoRead (a : ConnId) (e : Event) : Prop := ∀ msg, e.label ≠ .read a msg

def Asked (a : ConnId) : List Event → Prop :=
  Since (NoRead a) (fun e _ => e.label = .read a .listHosts)

/-- After its latest message, a `ListHosts`, was read, `a` has taken the
snapshot `hosts`, and the owner of every entry was connected at that instant. -/
def Snapshot (a : ConnId) (hosts : List AdvertisedServer) : List Event → Prop :=
  Since (NoRead a) (fun e early => e.label = .listHosts a hosts ∧ Asked a early ∧
    ∀ r ∈ hosts, ∃ owner, e.pre.reg.hosts.lookup r.senderId = some owner ∧
      owner ∈ e.pre.reg.clients)

theorem Consistent.snapshot {reg : Registry} (h : Consistent reg) {hosts : List AdvertisedServer}
    (hp : hosts.Perm reg.hostRecords.values) :
    (hosts.map (fun r => r.senderId)).Nodup ∧
    ∀ r ∈ hosts, ∃ owner, reg.hosts.lookup r.senderId = some owner ∧ owner ∈ reg.clients := by
  constructor
  · rw [(hp.map _).nodup_iff]
    exact HashMap.nodup_values_map _ _ h.senderId
  · intro r hr
    obtain ⟨id, hid⟩ := (HashMap.mem_values _ r).mp (hp.mem_iff.mp hr)
    have hs := h.keys r.senderId
    rw [h.senderId id r hid, hid] at hs
    obtain ⟨owner, ho⟩ := Option.isSome_iff_exists.mp (hs.trans rfl)
    rw [h.senderId id r hid]
    exact ⟨owner, ho, AList.lookup_isSome.mp (h.owner id owner ho)⟩

theorem not_hostList_replies {reg : Registry} {addr dest : SocketAddr} {msg : ClientMessage}
    {hosts : List AdvertisedServer} : (dest, .hostList hosts) ∉ replies reg addr msg := by
  cases msg with
  | connectRequest t n => simp only [replies]; split <;> simp
  | ping | registerHost | updateHost | unregisterHost | listHosts | signal => simp [replies]

def Answers (h : List Event) (a : ConnId) (t : Task) : Prop :=
  (t = .handling .listHosts → Asked a h) ∧
  ∀ dest hosts, (dest, .hostList hosts) ∈ t.outgoing →
    (hosts.map (fun r => r.senderId)).Nodup ∧ Snapshot a hosts h

theorem Answers.keep {h : List Event} {a : ConnId} {t : Task} {e : Event} (he : NoRead a e)
    (ha : Answers h a t) : Answers (e :: h) a t := by
  refine ⟨fun ht => Since.keep he (ha.1 ht), fun dest hosts hm => ?_⟩
  exact ⟨(ha.2 dest hosts hm).1, Since.keep he (ha.2 dest hosts hm).2⟩

theorem Answers.quiet {h : List Event} {a : ConnId} {t : Task} (h1 : t ≠ .handling .listHosts)
    (h2 : t.outgoing = []) : Answers h a t := by
  refine ⟨fun ht => absurd ht h1, fun dest hosts hm => ?_⟩
  simp [h2] at hm

theorem answers_own {h : List Event} {s : State} {addr : SocketAddr} {l : Label}
    {t t' : Task} (hc : Consistent s.reg) (hm : Moves s.reg addr l (some t) (some t'))
    (ha : Answers h l.conn t) : Answers (⟨s, l⟩ :: h) l.conn t' := by
  cases hm with
  | insert | leave | cleanup => exact Answers.quiet (by simp) rfl
  | read =>
    refine ⟨fun ht => Since.here ?_, fun dest hosts hm => by simp at hm⟩
    simp only [Task.handling.injEq] at ht
    simp [ht, Label.conn]
  | handle hr =>
    refine ⟨fun ht => absurd ht (handle_not_handling hr), fun dest hosts hm => ?_⟩
    rw [handle_outgoing hr] at hm
    exact absurd hm not_hostList_replies
  | @listHosts c hosts' hp =>
    refine ⟨fun ht => by simp [afterSends] at ht, fun dest hosts hm => ?_⟩
    simp only [outgoing_afterSends, List.mem_singleton, Prod.mk.injEq,
      ServerMessage.hostList.injEq] at hm
    obtain ⟨-, rfl⟩ := hm
    obtain ⟨hn, ho⟩ := hc.snapshot hp
    exact ⟨hn, Since.here ⟨rfl, ha.1 rfl, ho⟩⟩
  | openSession =>
    refine ⟨fun ht => by simp [afterSends] at ht, fun dest hosts hm => ?_⟩
    simp at hm
  | @sendTo c dest' msg rest =>
    have he : NoRead c ⟨s, .sendTo c dest' msg⟩ := by intro m; simp
    refine ⟨fun ht => by cases rest <;> simp [afterSends] at ht, fun dest hosts hm => ?_⟩
    rw [outgoing_afterSends] at hm
    have hs := ha.2 dest hosts (List.mem_cons_of_mem _ hm)
    exact ⟨hs.1, Since.keep he hs.2⟩
  | write | closeRx => exact ha.keep (by intro m; simp)

theorem run_answers {h : List Event} {s : State} (hr : Run h s) (hd : DistinctAddrs h) :
    ∀ a t, s.task a = some t → Answers h a t := by
  induction hr with
  | nil => intro a t ht; cases ht
  | @cons h s s' l hr hs ih =>
    have hd' := hd.tail
    intro a t ht
    obtain ⟨hac, ht⟩ | ⟨-, rfl⟩ | ⟨rfl, addr, t₀, -, hb, hm⟩ := task_cases hs ht
    · refine (ih hd' a t ht).keep ?_
      rintro m rfl
      exact hac rfl
    · exact Answers.quiet (by simp) rfl
    · exact answers_own (run_consistent hr hd') hm (ih hd' _ _ hb)

/-- In every state in which the registry lock is free the three maps agree,
and a `HostList` about to be sent repeats no sender id and lists hosts whose
owners were connected at one instant since the `ListHosts` was read. -/
theorem registry_consistent {h : List Event} {s : State} (hr : Run h s) (hd : DistinctAddrs h) :
    (∀ id, id ∈ s.reg.hosts ↔ id ∈ s.reg.hostRecords) ∧
    (∀ id r, s.reg.hostRecords.lookup id = some r → r.senderId = id) ∧
    (∀ id addr, s.reg.hosts.lookup id = some addr → addr ∈ s.reg.clients) ∧
    ∀ a dest hosts s', step s (.sendTo a dest (.hostList hosts)) = some s' →
      (hosts.map (fun r => r.senderId)).Nodup ∧ Snapshot a hosts h := by
  have hc := run_consistent hr hd
  refine ⟨?_, hc.senderId, ?_, ?_⟩
  · intro id
    rw [← AList.lookup_isSome, ← AList.lookup_isSome, hc.keys id]
  · intro id addr ho
    exact AList.lookup_isSome.mp (hc.owner id addr ho)
  · intro a dest hosts s' hs
    obtain ⟨k, rest, hk, ht, -⟩ := step_sendTo_iff.mp hs
    have hta : s.task a = some (.sending (dest, .hostList hosts) rest) :=
      State.task_eq_some.mpr ⟨k, hk, ht⟩
    exact (run_answers hr hd a _ hta).2 dest hosts (by simp)

def listing : List Label :=
  [.accept 0 (.v4 1 1), .insert 0, .read 0 (.registerHost ⟨7, default⟩),
    .handle 0 (.registerHost ⟨7, default⟩), .sendTo 0 (.v4 1 1) (.registered 7),
    .accept 1 (.v4 1 2), .insert 1, .read 1 .listHosts, .listHosts 1 [⟨7, default⟩]]

theorem registry_consistent_listing :
    (step (replay machine listing).2 (.sendTo 1 (.v4 1 2) (.hostList [⟨7, default⟩]))).isSome ∧
      7 ∈ (replay machine listing).2.reg.hostRecords ∧
      7 ∈ (replay machine listing).2.reg.hosts ∧
      Snapshot 1 [⟨7, default⟩] (replay machine listing).1 := by
  have hc := registry_consistent (replay_run listing) (replay_distinctAddrs listing (by decide))
  have hs : (step (replay machine listing).2
      (.sendTo 1 (.v4 1 2) (.hostList [⟨7, default⟩]))).isSome := by decide +kernel
  have h7 : 7 ∈ (replay machine listing).2.reg.hostRecords := by decide +kernel
  obtain ⟨s', hs'⟩ := Option.isSome_iff_exists.mp hs
  exact ⟨hs, h7, (hc.1 7).mpr h7, (hc.2.2.2 _ _ _ _ hs').2⟩

end Mineshaft.Server
