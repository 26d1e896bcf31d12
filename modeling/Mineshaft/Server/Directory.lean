import Mineshaft.Lib.Directory
import Mineshaft.Server.Registration
import Mineshaft.Server.Sessions

namespace Mineshaft.Server

open Mineshaft.Core Mineshaft.Lib Mineshaft.Lib.Transition

abbrev Hosts := Directory ConnId UInt64 AdvertisedServer

abbrev HostOp := Directory.Op ConnId UInt64 AdvertisedServer

noncomputable abbrev hostsMachine : Machine Hosts HostOp :=
  Directory.machine (fun r : AdvertisedServer => r.senderId)

def hostConn (reg : Registry) (id : UInt64) : Option ConnId :=
  ((reg.hosts.lookup id).bind (fun addr => reg.clients.lookup addr)).map (fun handle => handle.tx)

/-- The operation on the directory that a critical section amounts to. -/
def operation (e : Event) : Option HostOp :=
  match e.label with
  | .insert c => some (.join c)
  | .handle c (.registerHost server) => some (.announce c server)
  | .handle c (.updateHost server) => some (.revise c server)
  | .handle c (.unregisterHost senderId) => some (.withdraw c senderId)
  | .handle c (.connectRequest target _) => some (.find c target (hostConn e.pre.reg target))
  | .handle c (.signal target _ _ _) =>
    if target = 0 then none else some (.find c target (hostConn e.pre.reg target))
  | .listHosts c hosts => some (.list c hosts)
  | .cleanup c => some (.depart c)
  | .accept _ _ | .read _ _ | .handle _ .ping | .handle _ .listHosts | .openSession _ _ _
  | .sendTo _ _ _ | .leave _ | .write _ | .closeRx _ => none

structure Shows (v : View) (d : Hosts) : Prop where
  members : ∀ c, c ∈ d.members ↔ ∃ a, v.stage c = some (a, .inserted)
  present : ∀ id c r, d.entry id = some (c, r) → Holds v c id r
  absent : ∀ id, d.entry id = none → hostEntry v.reg id = (none, none)

namespace Shows

variable {v : View} {d : Hosts} {c : ConnId} {a : SocketAddr}

theorem init : Shows State.init.view Directory.empty where
  members := by
    intro c
    constructor
    · intro h; cases h
    · rintro ⟨a, h⟩; cases h
  present := by intro id c r h; cases h
  absent := by intro id _; rfl

theorem owner_iff (hs : Shows v d) (hw : Wired v) (hc : v.stage c = some (a, .inserted))
    (id : UInt64) : d.owner id = some c ↔ v.reg.hosts.lookup id = some a := by
  rw [Directory.owner]
  cases he : d.entry id with
  | none =>
    have hn : v.reg.hosts.lookup id = none := congrArg Prod.fst (hs.absent id he)
    simp [hn]
  | some p =>
    obtain ⟨c', r⟩ := p
    obtain ⟨a', hc', ho⟩ := hs.present id c' r he
    have hl : v.reg.hosts.lookup id = some a' := congrArg Prod.fst ho
    simp only [Option.map_some, Option.some.injEq, hl]
    constructor
    · rintro rfl
      rw [hc] at hc'
      cases hc'
      rfl
    · rintro rfl
      exact hw.unique c' c _ _ _ hc' hc (by decide) (by decide)

theorem hostConn_eq (hs : Shows v d) (hw : Wired v) (id : UInt64) :
    hostConn v.reg id = d.owner id := by
  rw [hostConn, Directory.owner]
  cases he : d.entry id with
  | none =>
    have hn : v.reg.hosts.lookup id = none := congrArg Prod.fst (hs.absent id he)
    simp [hn]
  | some p =>
    obtain ⟨c', r⟩ := p
    obtain ⟨a', hc', ho⟩ := hs.present id c' r he
    have hl : v.reg.hosts.lookup id = some a' := congrArg Prod.fst ho
    simp [hl, hw.client c' a' hc']

theorem same (hs : Shows v d) {reg : Registry}
    (he : ∀ id, hostEntry reg id = hostEntry v.reg id) : Shows ⟨reg, v.stage⟩ d where
  members := hs.members
  present := by
    intro id c r h
    obtain ⟨a, hc, ho⟩ := hs.present id c r h
    exact ⟨a, hc, (he id).trans ho⟩
  absent := fun id h => (he id).trans (hs.absent id h)

theorem update (hs : Shows v d) {reg : Registry} {k : UInt64}
    (he : ∀ id, id ≠ k → hostEntry reg id = hostEntry v.reg id)
    (p : Option (ConnId × AdvertisedServer))
    (hsome : ∀ c r, p = some (c, r) → Holds ⟨reg, v.stage⟩ c k r)
    (hnone : p = none → hostEntry reg k = (none, none)) :
    Shows ⟨reg, v.stage⟩ { d with entry := Function.update d.entry k p } where
  members := hs.members
  present := by
    intro id c r h
    by_cases hk : id = k
    · subst hk
      exact hsome c r (by simpa using h)
    · obtain ⟨a, hc, ho⟩ := hs.present id c r (by simpa [hk] using h)
      exact ⟨a, hc, (he id hk).trans ho⟩
  absent := by
    intro id h
    by_cases hk : id = k
    · subst hk
      exact hnone (by simpa using h)
    · exact (he id hk).trans (hs.absent id (by simpa [hk] using h))

theorem announce (hs : Shows v d) (hc : v.stage c = some (a, .inserted)) (r : AdvertisedServer) :
    Shows ⟨v.reg.registerHost a r, v.stage⟩ (d.apply (fun r => r.senderId) (.announce c r)) := by
  refine hs.update ?_ _ ?_ (by simp)
  · intro id hid
    simp [hostEntry, Registry.registerHost_hosts, Registry.registerHost_hostRecords, hid]
  · intro c' r' he
    cases he
    refine ⟨a, hc, ?_⟩
    simp [hostEntry, Registry.registerHost_hosts, Registry.registerHost_hostRecords]

theorem revise (hs : Shows v d) (hw : Wired v) (hc : v.stage c = some (a, .inserted))
    (r : AdvertisedServer) :
    Shows ⟨v.reg.updateHost a r, v.stage⟩ (d.apply (fun r => r.senderId) (.revise c r)) := by
  simp only [Directory.apply, hs.owner_iff hw hc]
  split
  next ho =>
    refine hs.update ?_ _ ?_ (by simp)
    · intro id hid
      simp [hostEntry, Registry.updateHost_hosts, Registry.updateHost_hostRecords, hid]
    · intro c' r' he
      cases he
      refine ⟨a, hc, ?_⟩
      simp [hostEntry, Registry.updateHost_hosts, Registry.updateHost_hostRecords, ho]
  next ho =>
    rw [Registry.updateHost, if_neg ho]
    exact hs

theorem withdraw (hs : Shows v d) (hw : Wired v) (hc : v.stage c = some (a, .inserted))
    (id : UInt64) :
    Shows ⟨v.reg.unregisterHost a id, v.stage⟩ (d.apply (fun r => r.senderId) (.withdraw c id)) := by
  simp only [Directory.apply, hs.owner_iff hw hc]
  split
  next ho =>
    refine hs.update ?_ _ (by simp) (fun _ => ?_)
    · intro id' hid
      simp [hostEntry, Registry.unregisterHost_hosts, Registry.unregisterHost_hostRecords, hid]
    · simp [hostEntry, Registry.unregisterHost_hosts, Registry.unregisterHost_hostRecords, ho]
  next ho =>
    rw [Registry.unregisterHost, if_neg ho]
    exact hs

theorem join (hs : Shows v d) (hc : v.stage c = some (a, .spawned)) :
    Shows ⟨v.reg.insertClient a ⟨c⟩, Function.update v.stage c (some (a, .inserted))⟩
      (d.apply (fun r => r.senderId) (.join c)) where
  members := by
    intro c'
    by_cases h : c' = c
    · subst h
      simp [Directory.apply]
    · simp only [Directory.apply, Set.mem_insert_iff, h, false_or, Function.update_of_ne h]
      exact hs.members c'
  present := by
    intro id c' r he
    obtain ⟨a', hc', ho⟩ := hs.present id c' r he
    have hne : c' ≠ c := by rintro rfl; simp [hc] at hc'
    exact ⟨a', by simpa [hne] using hc', ho⟩
  absent := fun id he => hs.absent id he

theorem accept (hs : Shows v d) (hc : v.stage c = none) :
    Shows ⟨v.reg, Function.update v.stage c (some (a, .spawned))⟩ d where
  members := by
    intro c'
    by_cases h : c' = c
    · subst h
      simp [hs.members, hc]
    · simp only [Function.update_of_ne h]
      exact hs.members c'
  present := by
    intro id c' r he
    obtain ⟨a', hc', ho⟩ := hs.present id c' r he
    have hne : c' ≠ c := by rintro rfl; simp [hc] at hc'
    exact ⟨a', by simpa [hne] using hc', ho⟩
  absent := hs.absent

theorem depart (hs : Shows v d) (hw : Wired v) (hc : v.stage c = some (a, .inserted)) :
    Shows ⟨v.reg.cleanup a, Function.update v.stage c (some (a, .finished))⟩
      (d.apply (fun r => r.senderId) (.depart c)) where
  members := by
    intro c'
    by_cases h : c' = c
    · subst h
      simp [Directory.apply]
    · simp only [Directory.apply, Set.mem_sdiff, Set.mem_singleton_iff, h, not_false_eq_true,
        and_true, Function.update_of_ne h]
      exact hs.members c'
  present := by
    intro id c' r he
    obtain ⟨he, hne⟩ := Option.filter_eq_some_iff.mp he
    have hne : c' ≠ c := by simpa using hne
    have hown := Holds.owner_ne hw (hs.present id c' r he) hc (Ne.symm hne)
    obtain ⟨a', hc', ho⟩ := hs.present id c' r he
    refine ⟨a', by simpa [hne] using hc', ?_⟩
    rw [hostEntry_cleanup hown]
    exact ho
  absent := by
    intro id hf
    cases he : d.entry id with
    | none =>
      have hn := hs.absent id he
      have hl : v.reg.hosts.lookup id = none := congrArg Prod.fst hn
      rw [hostEntry_cleanup (by simp [hl])]
      exact hn
    | some p =>
      have hp : p.1 = c := by simpa using Option.filter_eq_none_iff.mp hf p he
      have ho := (hs.owner_iff hw hc id).mp (by simp [Directory.owner, he, hp])
      simp [hostEntry, Registry.cleanup_hosts, Registry.cleanup_hostRecords, ho]

theorem lists (hs : Shows v d) (hcon : Consistent v.reg) {hosts : List AdvertisedServer}
    (hp : hosts.Perm v.reg.hostRecords.values) : d.Lists (fun r => r.senderId) hosts := by
  refine ⟨(hcon.snapshot hp).1, fun r => ?_⟩
  rw [hp.mem_iff, HashMap.mem_values]
  constructor
  · rintro ⟨id, hl⟩
    have hid := hcon.senderId id r hl
    cases he : d.entry id with
    | none =>
      have hn : v.reg.hostRecords.lookup id = none := congrArg Prod.snd (hs.absent id he)
      rw [hn] at hl
      cases hl
    | some p =>
      obtain ⟨c, r'⟩ := p
      obtain ⟨a, -, ho⟩ := hs.present id c r' he
      have hr : v.reg.hostRecords.lookup id = some r' := congrArg Prod.snd ho
      rw [hl] at hr
      cases hr
      exact ⟨c, by rw [← hid] at he; exact he⟩
  · rintro ⟨c, he⟩
    obtain ⟨a, -, ho⟩ := hs.present _ c r he
    exact ⟨r.senderId, congrArg Prod.snd ho⟩

theorem find (hs : Shows v d) (hw : Wired v) (hc : v.stage c = some (a, .inserted)) (id : UInt64) :
    d.Allowed (fun r => r.senderId) (.find c id (hostConn v.reg id)) :=
  ⟨(hs.members c).mpr ⟨a, hc⟩, hs.hostConn_eq hw id⟩

end Shows

theorem listHosts_inv {s s' : State} {c : ConnId} {hosts : List AdvertisedServer}
    (hs : step s (.listHosts c hosts) = some s') :
    ∃ a, s.view.stage c = some (a, .inserted) ∧ hosts.Perm s.reg.hostRecords.values := by
  obtain ⟨k, hk, ht, he⟩ := atTask_eq_some.mp hs
  split at he
  next hp => exact ⟨k.addr, stage_of_task hk (by rw [ht]; rfl), hp⟩
  · cases he

/-- A critical section does to the registry what its operation does to the
directory, and every other step leaves both alone. -/
theorem shows_step {s s' : State} {l : Label} {d : Hosts} (hw : Wired s.view)
    (hcon : Consistent s.reg) (hsh : Shows s.view d) (hs : step s l = some s') :
    (∀ o, operation ⟨s, l⟩ = some o → d.Allowed (fun r => r.senderId) o ∧
      Shows s'.view (d.apply (fun r => r.senderId) o)) ∧
    (operation ⟨s, l⟩ = none → Shows s'.view d) := by
  have he := step_effect hs
  generalize hv' : s'.view = v' at he
  cases he with
  | read | sendTo | leave | write | closeRx => exact ⟨by simp [operation], fun _ => hsh⟩
  | openSession hc => exact ⟨by simp [operation], fun _ => hsh.same (fun _ => rfl)⟩
  | @accept c addr hn =>
    exact ⟨by simp [operation], fun _ => hsh.accept hn⟩
  | insert hc =>
    refine ⟨?_, by simp [operation]⟩
    rintro _ ⟨⟩
    refine ⟨?_, hsh.join hc⟩
    rintro hm
    obtain ⟨a, ha⟩ := (hsh.members _).mp hm
    rw [hc] at ha
    cases ha
  | cleanup hc =>
    refine ⟨?_, by simp [operation]⟩
    rintro _ ⟨⟩
    exact ⟨(hsh.members _).mpr ⟨_, hc⟩, hsh.depart hw hc⟩
  | @listHosts c hosts =>
    refine ⟨?_, by simp [operation]⟩
    rintro _ ⟨⟩
    obtain ⟨a, hc, hp⟩ := listHosts_inv hs
    exact ⟨⟨(hsh.members c).mpr ⟨a, hc⟩, hsh.lists hcon hp⟩, hsh⟩
  | @handle c addr msg hc =>
    have hm : c ∈ d.members := (hsh.members c).mpr ⟨addr, hc⟩
    cases msg with
    | registerHost r =>
      refine ⟨?_, by simp [operation]⟩
      rintro _ ⟨⟩
      exact ⟨hm, hsh.announce hc r⟩
    | updateHost r =>
      refine ⟨?_, by simp [operation]⟩
      rintro _ ⟨⟩
      exact ⟨hm, hsh.revise hw hc r⟩
    | unregisterHost id =>
      refine ⟨?_, by simp [operation]⟩
      rintro _ ⟨⟩
      exact ⟨hm, hsh.withdraw hw hc id⟩
    | connectRequest t n =>
      refine ⟨?_, by simp [operation]⟩
      rintro _ ⟨⟩
      exact ⟨hsh.find hw hc t, hsh⟩
    | signal t k n data =>
      have hsame : Shows ⟨regAfter s.view.reg addr (.signal t k n data), s.view.stage⟩ d :=
        hsh.same (fun id => by simp [hostEntry, regAfter, Registry.routeSignal_hosts])
      simp only [operation]
      split
      · exact ⟨by simp, fun _ => hsame⟩
      · refine ⟨?_, by simp⟩
        rintro _ ⟨⟩
        exact ⟨hsh.find hw hc t, hsame⟩
    | ping | listHosts => exact ⟨by simp [operation], fun _ => hsh⟩

theorem shows_matches {s s' : State} {l : Label} {d : Hosts} (hw : Wired s.view)
    (hcon : Consistent s.reg) (hsh : Shows s.view d) (hs : step s l = some s') :
    Matches hostsMachine (fun s d => Shows s.view d) d s' (operation ⟨s, l⟩) := by
  obtain ⟨hsome, hnone⟩ := shows_step hw hcon hsh hs
  cases ho : operation ⟨s, l⟩ with
  | none => exact hnone ho
  | some o =>
    obtain ⟨ha, hsh'⟩ := hsome o ho
    exact ⟨_, Directory.step_iff.mpr ⟨ha, rfl⟩, hsh'⟩

theorem run_shows {h : List Event} {s : State} (hr : Run h s) (hd : DistinctAddrs h) :
    ∃ h' d, Transition.Run hostsMachine h' d ∧
      h'.map (fun e => e.label) = h.filterMap operation ∧ Shows s.view d := by
  have h0 : Shows machine.init.view hostsMachine.init := Shows.init
  refine hr.simulate (fun e : Event => FreshAddr e.pre.view e.label) (fun s d => Shows s.view d)
    operation h0 ?_ hd
  intro h s l s' d hr hd _ hsh hs
  exact shows_matches (run_wired hr hd) (run_consistent hr hd) hsh hs

theorem Shows.lookups {s : State} {d : Hosts} (hsh : Shows s.view d) (id : UInt64) :
    s.reg.hosts.lookup id = (d.owner id).bind s.addr ∧
      s.reg.hostRecords.lookup id = (d.entry id).map (fun p => p.2) := by
  rw [Directory.owner]
  cases he : d.entry id with
  | none =>
    have hn := hsh.absent id he
    exact ⟨congrArg Prod.fst hn, congrArg Prod.snd hn⟩
  | some p =>
    obtain ⟨a, hst, ho⟩ := hsh.present id p.1 p.2 he
    refine ⟨?_, congrArg Prod.snd ho⟩
    rw [Option.map_some, Option.bind_some, stage_addr hst]
    exact congrArg Prod.fst ho

/-- Whatever the interleaving of the handlers and the cleanups of connections with
distinct addresses, the server is one atomic directory: taken in order, the
critical sections are operations that the directory allows, host lists and
lookups give the answers that it gives at that instant, and in every state the
registry stores what it holds, which are records of its members. -/
theorem directory_refines {h : List Event} {s : State} (hr : Run h s) (hd : DistinctAddrs h) :
    ∃ h' d, Transition.Run hostsMachine h' d ∧
      h'.map (fun e => e.label) = h.filterMap operation ∧
      (∀ id, s.reg.hosts.lookup id = (d.owner id).bind s.addr) ∧
      (∀ id, s.reg.hostRecords.lookup id = (d.entry id).map (fun p => p.2)) ∧
      (∀ c, c ∈ d.members ↔ ∃ a, s.reg.clients.lookup a = some ⟨c⟩) ∧
      ∀ id c r, d.entry id = some (c, r) → c ∈ d.members ∧ r.senderId = id := by
  obtain ⟨h', d, hr', hl, hsh⟩ := run_shows hr hd
  have hw := run_wired hr hd
  refine ⟨h', d, hr', hl, fun id => (hsh.lookups id).1, fun id => (hsh.lookups id).2, fun c => ?_,
    Directory.run_sound hr'⟩
  rw [hsh.members]
  constructor
  · rintro ⟨a, ha⟩
    exact ⟨a, hw.client c a ha⟩
  · rintro ⟨a, ha⟩
    exact ⟨a, hw.live a c ha⟩

theorem directory_refines_reconnected :
    ∃ h' d, Transition.Run hostsMachine h' d ∧
      h'.map (fun e => e.label) =
        [.depart 0, .withdraw 0 7,
          .revise 1 ⟨7, { (default : ServerAdvertisement) with playerCount := 2 }⟩,
          .announce 1 ⟨7, default⟩, .join 1, .announce 0 ⟨7, default⟩, .join 0] ∧
      (d.entry 7).map (fun p => p.2) =
        some ⟨7, { (default : ServerAdvertisement) with playerCount := 2 }⟩ := by
  obtain ⟨h', d, hr', hl, -, hrec, -⟩ := directory_refines (replay_run reconnected)
    (replay_distinctAddrs reconnected (by decide))
  refine ⟨h', d, hr', ?_, ?_⟩
  · rw [hl]
    decide +kernel
  · rw [← hrec]
    decide +kernel

end Mineshaft.Server
