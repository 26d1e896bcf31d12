import Mathlib.Data.List.Infix
import Mineshaft.Server.Sessions

namespace Mineshaft.Server

open Mineshaft.Core Mineshaft.Lib Mineshaft.Lib.Transition

def hostKey (_ : View) : Label → Option UInt64
  | .handle _ (.registerHost server) => some server.senderId
  | _ => none

def recordKey (v : View) : Label → Option UInt64
  | .handle _ (.registerHost server) => some server.senderId
  | .handle c (.updateHost server) => (v.stage c).bind (fun p =>
      if v.reg.hosts.lookup server.senderId = some p.1 then some server.senderId else none)
  | _ => none

def sessionKey (v : View) (l : Label) : Option UInt64 := (recorded v l).map (fun r => r.1)

def createdBy (writes : View → Label → Option UInt64) (key : UInt64) : List Event → Option ConnId
  | [] => none
  | e :: h =>
    if writes e.pre.view e.label = some key then some e.label.conn else createdBy writes key h

def newer (c : ConnId) (h : List Event) : List ConnId :=
  h.filterMap (fun e =>
    match e.label with
    | .accept d _ => if (e.pre.conns c).isSome then some d else none
    | _ => none)

section Entries

variable {V : Type} {read : View → UInt64 → Option V} {holder : V → SocketAddr}
  {writes : View → Label → Option UInt64}

variable (read holder writes) in
/-- A step leaves an entry only where its own connection writes it, or where it
was before and its holder is not cleaned up. -/
def Traced : Prop :=
  ∀ v l v', Effect v l v' → ∀ key x, read v' key = some x →
    (writes v l = some key ∧ cleaned v l = none ∧
        v.stage l.conn = some (holder x, .inserted)) ∨
      (writes v l ≠ some key ∧ read v key = some x ∧ ∀ a, cleaned v l = some a → holder x ≠ a)

theorem creator_inserted (ht : Traced read holder writes)
    (h0 : ∀ key, read State.init.view key = none) {h : List Event} {s : State} (hr : Run h s)
    {key : UInt64} {x : V} (hx : read s.view key = some x) :
    ∃ d, createdBy writes key h = some d ∧ s.view.stage d = some (holder x, .inserted) := by
  induction hr with
  | nil =>
    rw [show (machine.init : State) = State.init from rfl, h0 key] at hx
    cases hx
  | @cons h s s' l hr hs ih =>
    have he := step_effect hs
    obtain ⟨hw, hcl, hst⟩ | ⟨hw, hold, hcl⟩ := ht _ _ _ he key x hx
    · refine ⟨l.conn, if_pos hw, inserted_kept he hst ?_⟩
      rw [hcl]
      exact Option.not_mem_none _
    · obtain ⟨d, hd, hst⟩ := ih hold
      refine ⟨d, ?_, inserted_kept he hst (fun ha => hcl _ ha rfl)⟩
      rw [createdBy, if_neg hw]
      exact hd

end Entries

theorem cleaned_handle (v : View) (c : ConnId) (msg : ClientMessage) :
    cleaned v (.handle c msg) = none := rfl

theorem hosts_traced : Traced (fun v id => v.reg.hosts.lookup id) (fun a => a) hostKey := by
  intro v l v' he id x hx
  dsimp only at hx ⊢
  cases he with
  | accept | insert | read | listHosts | sendTo | leave | write | closeRx | openSession =>
    exact Or.inr ⟨by simp [hostKey], hx, by simp [cleaned]⟩
  | @cleanup c addr hc =>
    rw [Registry.cleanup_hosts] at hx
    split at hx
    · cases hx
    next hne =>
      refine Or.inr ⟨by simp [hostKey], hx, ?_⟩
      rintro a ha rfl
      simp only [cleaned, hc, Option.map_some, Option.some.injEq] at ha
      subst ha
      exact hne hx
  | @handle c addr msg hc =>
    rw [cleaned_handle]
    cases msg with
    | registerHost server =>
      simp only [regAfter, Registry.registerHost_hosts] at hx
      split at hx
      next hid =>
        cases hx
        exact Or.inl ⟨by simp [hostKey, hid], rfl, hc⟩
      next hid => exact Or.inr ⟨by simpa [hostKey] using Ne.symm hid, hx, by simp⟩
    | updateHost server =>
      simp only [regAfter, Registry.updateHost_hosts] at hx
      exact Or.inr ⟨by simp [hostKey], hx, by simp⟩
    | unregisterHost id' =>
      simp only [regAfter, Registry.unregisterHost_hosts] at hx
      split at hx
      · cases hx
      · exact Or.inr ⟨by simp [hostKey], hx, by simp⟩
    | signal t k n d =>
      simp only [regAfter, (Registry.routeSignal_hosts _ _ _ _).1] at hx
      exact Or.inr ⟨by simp [hostKey], hx, by simp⟩
    | ping | listHosts | connectRequest => exact Or.inr ⟨by simp [hostKey], hx, by simp⟩

theorem sessions_traced :
    Traced (fun v id => v.reg.sessions.lookup id) (fun p => p.1) sessionKey := by
  intro v l v' he id p hp
  obtain hr | ⟨hr, hold, hcl⟩ := (effect_sessions he id p).mp hp
  · refine Or.inl ⟨by simp [sessionKey, hr], ?_, ?_⟩
    · cases hc : cleaned v l with
      | none => rfl
      | some a => exact absurd hc (cleaned_clients he hr a)
    · cases he with
      | accept | insert | read | listHosts | sendTo | leave | write | closeRx | cleanup => cases hr
      | @openSession c a host n hc =>
        simp only [recorded, hc, Option.map_some, Option.some.injEq, Prod.mk.injEq] at hr
        rw [← hr.2]
        exact hc
      | @handle c a msg hc =>
        cases msg with
        | signal t k n d =>
          simp only [recorded, hc, Option.bind_some] at hr
          split at hr
          · cases hr
          · obtain ⟨host, -, hq⟩ := Option.map_eq_some_iff.mp hr
            simp only [Prod.mk.injEq] at hq
            rw [← hq.2]
            exact hc
        | _ => cases hr
  · refine Or.inr ⟨?_, hold, fun a ha => (hcl a ha).1⟩
    intro hk
    obtain ⟨⟨id', q⟩, hq, rfl⟩ := Option.map_eq_some_iff.mp hk
    exact hr q hq

def ownedRecord (v : View) (id : UInt64) : Option (SocketAddr × AdvertisedServer) :=
  (v.reg.hosts.lookup id).bind (fun a => (v.reg.hostRecords.lookup id).map (fun r => (a, r)))

theorem ownedRecord_eq_some {v : View} {id : UInt64} {x : SocketAddr × AdvertisedServer} :
    ownedRecord v id = some x ↔
      v.reg.hosts.lookup id = some x.1 ∧ v.reg.hostRecords.lookup id = some x.2 := by
  obtain ⟨a, r⟩ := x
  simp [ownedRecord, Option.bind_eq_some_iff]

theorem ownedRecord_of_regAfter {v : View} {addr : SocketAddr} {msg : ClientMessage} {id : UInt64}
    {x : SocketAddr × AdvertisedServer} (hr : ∀ r, msg = .registerHost r → r.senderId ≠ id)
    (hu : ∀ r, msg = .updateHost r → r.senderId = id → v.reg.hosts.lookup id ≠ some addr)
    (hx : ownedRecord ⟨regAfter v.reg addr msg, v.stage⟩ id = some x) :
    ownedRecord v id = some x := by
  rw [ownedRecord_eq_some] at hx ⊢
  cases msg with
  | registerHost r =>
    have hne : id ≠ r.senderId := Ne.symm (hr r rfl)
    simpa [regAfter, Registry.registerHost_hosts, Registry.registerHost_hostRecords, hne] using hx
  | updateHost r =>
    have hne : ¬ (id = r.senderId ∧ v.reg.hosts.lookup id = some addr) :=
      fun h => hu r rfl h.1.symm h.2
    simpa only [regAfter, Registry.updateHost_hosts, Registry.updateHost_hostRecords,
      if_neg hne] using hx
  | unregisterHost i =>
    simp only [regAfter, Registry.unregisterHost_hosts, Registry.unregisterHost_hostRecords] at hx
    split at hx
    · cases hx.1
    · exact hx
  | signal t k n d => simpa only [regAfter, Registry.routeSignal_hosts] using hx
  | ping | listHosts | connectRequest => exact hx

theorem records_traced : Traced ownedRecord (fun x => x.1) recordKey := by
  intro v l v' he id x hx
  dsimp only
  cases he with
  | accept | insert | read | listHosts | sendTo | leave | write | closeRx | openSession =>
    exact Or.inr ⟨by simp [recordKey], hx, by simp [cleaned]⟩
  | @cleanup c addr hc =>
    rw [ownedRecord_eq_some, Registry.cleanup_hosts, Registry.cleanup_hostRecords] at hx
    split at hx
    · cases hx.1
    next hne =>
      refine Or.inr ⟨by simp [recordKey], ownedRecord_eq_some.mpr hx, ?_⟩
      intro a ha hxa
      simp only [cleaned, hc, Option.map_some, Option.some.injEq] at ha
      exact hne (by rw [hx.1, hxa, ha])
  | @handle c addr msg hc =>
    by_cases hw : recordKey v (.handle c msg) = some id
    · refine Or.inl ⟨hw, rfl, ?_⟩
      have ha : x.1 = addr := by
        have hh := (ownedRecord_eq_some.mp hx).1
        cases msg with
        | registerHost r =>
          obtain rfl : r.senderId = id := Option.some.inj hw
          simpa [regAfter, Registry.registerHost_hosts, eq_comm] using hh
        | updateHost r =>
          simp only [recordKey, hc, Option.bind_some] at hw
          split at hw
          next ho =>
            obtain rfl : r.senderId = id := Option.some.inj hw
            simp only [regAfter, Registry.updateHost_hosts] at hh
            rw [ho] at hh
            exact (Option.some.inj hh).symm
          · cases hw
        | _ => cases hw
      rw [ha]
      exact hc
    · refine Or.inr ⟨hw, ownedRecord_of_regAfter ?_ ?_ hx, by simp [cleaned]⟩
      · rintro r rfl rfl
        exact hw rfl
      · rintro r rfl rfl ho
        exact hw (by simp [recordKey, hc, ho])

/-- What the cleanup of the address `a`, which leads from `s` to `s'`, leaves to
a connection: its handle, and the entries that its messages have created. A
session whose host is cleaned up may end, unless the address is the one of the
connection itself. -/
structure Spared (h : List Event) (s s' : State) (a : SocketAddr) (d : ConnId) : Prop where
  reachable : s.view.stage d = some (a, .inserted) → s'.reg.clients.lookup a = some ⟨d⟩
  handle : ∀ b, s.reg.clients.lookup b = some ⟨d⟩ → s'.reg.clients.lookup b = some ⟨d⟩
  hosts : ∀ id b, createdBy hostKey id h = some d → s.reg.hosts.lookup id = some b →
    s'.reg.hosts.lookup id = some b
  hostRecords : ∀ id r, createdBy recordKey id h = some d → s.reg.hostRecords.lookup id = some r →
    s'.reg.hostRecords.lookup id = some r
  sessions : ∀ id p, createdBy sessionKey id h = some d → s.reg.sessions.lookup id = some p →
    (p.2 = a → s.addr d = some a) → s'.reg.sessions.lookup id = some p

section Cleanup

variable {h : List Event} {s s' : State} {c d : ConnId} {a : SocketAddr}

theorem run_live (hr : Run h s) :
    ∀ addr c, s.reg.clients.lookup addr = some ⟨c⟩ → s.view.stage c = some (addr, .inserted) :=
  hr.invariant (fun _ => True)
    (fun s : State => ∀ addr c, s.view.reg.clients.lookup addr = some ⟨c⟩ →
      s.view.stage c = some (addr, .inserted))
    (by intro addr c hl; cases hl) (fun _ _ _ _ hi hs => live_step hi (step_effect hs))
    (fun _ _ => trivial)

theorem step_cleanup_reg (hs : step s (.cleanup c) = some s') (hc : s.addr c = some a) :
    s'.reg = s.reg.cleanup a := by
  obtain ⟨k, hk, -, he⟩ := atTask_eq_some.mp hs
  cases he
  obtain rfl : k.addr = a := by simpa [State.addr, hk] using hc
  rfl

theorem spared_iff (hr : Run h s) (hs : step s (.cleanup c) = some s') (hc : s.addr c = some a) :
    Spared h s s' a d ↔ s.view.stage d ≠ some (a, .inserted) := by
  have hreg := step_cleanup_reg hs hc
  constructor
  · intro hsp hd
    have hl := hsp.reachable hd
    rw [hreg, Registry.cleanup_clients, if_pos rfl] at hl
    cases hl
  · intro hd
    have hcreated : ∀ {b}, s.view.stage d = some (b, .inserted) → b ≠ a := by
      rintro b hb rfl
      exact hd hb
    refine ⟨fun hd' => absurd hd' hd, ?_, ?_, ?_, ?_⟩
    · intro b hb
      rw [hreg, Registry.cleanup_clients, if_neg (hcreated (run_live hr b d hb))]
      exact hb
    · intro id b hw hb
      obtain ⟨d', hw', hst⟩ := creator_inserted hosts_traced (fun _ => rfl) hr hb
      obtain rfl : d = d' := Option.some.inj (hw.symm.trans hw')
      rw [hreg, Registry.cleanup_hosts, if_neg, hb]
      rw [hb, Option.some.injEq]
      exact hcreated hst
    · intro id r hw hl
      rw [hreg, Registry.cleanup_hostRecords, if_neg, hl]
      intro hb
      obtain ⟨d', hw', hst⟩ := creator_inserted records_traced (fun _ => rfl) hr
        (ownedRecord_eq_some.mpr ⟨hb, hl⟩ : ownedRecord s.view id = some (a, r))
      obtain rfl : d = d' := Option.some.inj (hw.symm.trans hw')
      exact hcreated hst rfl
    · intro id p hw hp hhost
      obtain ⟨d', hw', hst⟩ := creator_inserted sessions_traced (fun _ => rfl) hr hp
      obtain rfl : d = d' := Option.some.inj (hw.symm.trans hw')
      have hne := hcreated hst
      rw [hreg, Registry.cleanup_sessions]
      refine ⟨hp, hne, fun ha => hne ?_⟩
      exact Option.some.inj ((stage_addr hst).symm.trans (hhost ha))

end Cleanup

/-- The step is not a cleanup, or it spares the connections that are newer than
the one it cleans up, and all those with another address. -/
def CleanupSpares (e : Event) (h : List Event) : Prop :=
  ∀ a ∈ cleaned e.pre.view e.label, ∀ s', step e.pre e.label = some s' → ∀ d,
    (d ∈ newer e.label.conn h ∨ e.pre.addr d ≠ some a) → Spared h e.pre s' a d

/-- The step is not a cleanup, or no newer connection is connected with the
address that it cleans up. -/
def AddressUnused (e : Event) (h : List Event) : Prop :=
  ∀ a ∈ cleaned e.pre.view e.label, ∀ d ∈ newer e.label.conn h,
    e.pre.view.stage d ≠ some (a, .inserted)

instance (e : Event) (h : List Event) : Decidable (AddressUnused e h) :=
  inferInstanceAs (Decidable (∀ a ∈ cleaned e.pre.view e.label, ∀ d ∈ newer e.label.conn h,
    e.pre.view.stage d ≠ some (a, .inserted)))

theorem cleaned_iff {s : State} {l : Label} {a : SocketAddr} :
    cleaned s.view l = some a ↔ l = .cleanup l.conn ∧ s.addr l.conn = some a := by
  cases l with
  | cleanup c => simp [cleaned, Label.conn, State.view, State.stage, State.addr, Function.comp_def]
  | _ => simp [cleaned]

theorem cleanupSpares_iff {h : List Event} {s s' : State} {l : Label} (hr : Run h s)
    (hs : step s l = some s') : CleanupSpares ⟨s, l⟩ h ↔ AddressUnused ⟨s, l⟩ h := by
  have hiff : ∀ {a s'}, cleaned s.view l = some a → step s l = some s' →
      ∀ d, Spared h s s' a d ↔ s.view.stage d ≠ some (a, .inserted) := by
    intro a s' ha hs d
    obtain ⟨hl, hc⟩ := cleaned_iff.mp ha
    rw [hl] at hs
    exact spared_iff hr hs hc
  constructor
  · intro hsp a ha d hd
    exact (hiff ha hs d).mp (hsp a ha s' hs d (Or.inl hd))
  · rintro hu a ha s'' hs' d (hd | hd)
    · exact (hiff ha hs' d).mpr (hu a ha d hd)
    · exact (hiff ha hs' d).mpr (fun hst => hd (stage_addr hst))

/-- The cleanups of a run all spare the newer connections exactly when each of
them finds no newer connection connected with its address. -/
theorem cleanups_spare_iff {h : List Event} {s : State} (hr : Run h s) :
    (∀ post e early, h = post ++ e :: early → CleanupSpares e early) ↔
      ∀ post e early, h = post ++ e :: early → AddressUnused e early := by
  constructor
  · rintro hsp post e early rfl
    obtain ⟨hearly, s', hs, -⟩ := hr.split
    exact (cleanupSpares_iff hearly hs).mp (hsp post e early rfl)
  · rintro hu post e early rfl
    obtain ⟨hearly, s', hs, -⟩ := hr.split
    exact (cleanupSpares_iff hearly hs).mpr (hu post e early rfl)

/-- The address of client 0 is given to a new connection, whose handler has not
run yet when client 0 is cleaned up. -/
def quickCleanup : List Label :=
  [.accept 0 (.v4 1 1), .insert 0, .accept 1 (.v4 1 2), .insert 1,
    .read 1 (.registerHost ⟨7, default⟩), .handle 1 (.registerHost ⟨7, default⟩),
    .sendTo 1 (.v4 1 2) (.registered 7), .leave 0, .accept 2 (.v4 1 1), .cleanup 0, .insert 2]

theorem cleanups_spare_quickCleanup :
    (replay machine quickCleanup).1.filterMap (fun e => cleaned e.pre.view e.label) = [.v4 1 1] ∧
      ∀ post e early, (replay machine quickCleanup).1 = post ++ e :: early →
        CleanupSpares e early := by
  refine ⟨by decide +kernel, (cleanups_spare_iff (replay_run quickCleanup)).mpr ?_⟩
  have hu : ∀ t ∈ (replay machine quickCleanup).1.tails, ∀ e ∈ t.head?,
      AddressUnused e t.tail := by decide +kernel
  intro post e early he
  exact hu (e :: early) ((List.mem_tails _ _).mpr ⟨post, he.symm⟩) e rfl

/-- Client 0 has left, and a new connection with its address has registered a
host and recorded a session before client 0 is cleaned up. -/
def reconnectedAddress : List Label :=
  [.accept 0 (.v4 1 1), .insert 0, .leave 0, .accept 1 (.v4 1 1), .insert 1,
    .read 1 (.registerHost ⟨7, default⟩), .handle 1 (.registerHost ⟨7, default⟩),
    .sendTo 1 (.v4 1 1) (.registered 7), .read 1 (.signal 7 5 9 "CONNECTREQUEST 5 x"),
    .handle 1 (.signal 7 5 9 "CONNECTREQUEST 5 x"),
    .sendTo 1 (.v4 1 1) (.signal 5 9 "CONNECTREQUEST 5 x")]

theorem cleanup_takes_reconnectedAddress :
    ∃ h s s', Run h s ∧ step s (.cleanup 0) = some s' ∧ 1 ∈ newer 0 h ∧
      s.task 0 = some .returned ∧ s.task 1 = some .reading ∧
      createdBy hostKey 7 h = some 1 ∧ createdBy recordKey 7 h = some 1 ∧
      createdBy sessionKey 5 h = some 1 ∧
      s.reg.clients.lookup (.v4 1 1) = some ⟨1⟩ ∧ s'.reg.clients.lookup (.v4 1 1) = none ∧
      s.reg.hosts.lookup 7 = some (.v4 1 1) ∧ s'.reg.hosts.lookup 7 = none ∧
      s.reg.hostRecords.lookup 7 = some ⟨7, default⟩ ∧ s'.reg.hostRecords.lookup 7 = none ∧
      s.reg.sessions.lookup 5 = some (.v4 1 1, .v4 1 1) ∧ s'.reg.sessions.lookup 5 = none ∧
      ¬ CleanupSpares ⟨s, .cleanup 0⟩ h := by
  have hs : step (replay machine reconnectedAddress).2 (.cleanup 0) =
      some (replay machine (reconnectedAddress ++ [.cleanup 0])).2 := rfl
  have hr : Run _ _ := replay_run reconnectedAddress
  refine ⟨_, _, _, hr, hs, ?_⟩
  rw [cleanupSpares_iff hr hs]
  decide +kernel

theorem keys_step {v v' : View} {l : Label} (he : Effect v l v')
    (hk : ∀ id, (v.reg.hosts.lookup id).isSome = (v.reg.hostRecords.lookup id).isSome) (id : UInt64) :
    (v'.reg.hosts.lookup id).isSome = (v'.reg.hostRecords.lookup id).isSome := by
  cases he with
  | accept | insert | openSession | read | listHosts | sendTo | leave | write | closeRx => exact hk id
  | cleanup =>
    rw [Registry.cleanup_hosts, Registry.cleanup_hostRecords]
    split
    · rfl
    · exact hk id
  | handle =>
    rename_i addr msg _
    cases msg with
    | registerHost server =>
      rw [regAfter, Registry.registerHost_hosts, Registry.registerHost_hostRecords]
      split
      · rfl
      · exact hk id
    | updateHost server =>
      rw [regAfter, Registry.updateHost_hosts, Registry.updateHost_hostRecords]
      split
      next ho => rw [ho.2]; rfl
      · exact hk id
    | unregisterHost i =>
      rw [regAfter, Registry.unregisterHost_hosts, Registry.unregisterHost_hostRecords]
      split
      · rfl
      · exact hk id
    | signal t c n d =>
      rw [regAfter, (Registry.routeSignal_hosts _ _ _ _).1, (Registry.routeSignal_hosts _ _ _ _).2]
      exact hk id
    | ping | listHosts | connectRequest => exact hk id

theorem run_keys {h : List Event} {s : State} (hr : Run h s) (id : UInt64) :
    (s.reg.hosts.lookup id).isSome = (s.reg.hostRecords.lookup id).isSome := by
  induction hr generalizing id with
  | nil => rfl
  | cons _ hs ih => exact keys_step (step_effect hs) ih id

/-- Nothing outlives the connections, even where they share addresses: when none
stands between its insertion and its cleanup, all four maps are empty, the
sessions with a dead host too. -/
theorem registry_drained {h : List Event} {s : State} (hr : Run h s)
    (hgone : ∀ c a, s.view.stage c ≠ some (a, .inserted)) :
    s.reg.clients = ∅ ∧ s.reg.hosts = ∅ ∧ s.reg.hostRecords = ∅ ∧ s.reg.sessions = ∅ := by
  have hhosts : ∀ id, s.reg.hosts.lookup id = none := by
    intro id
    refine Option.eq_none_iff_forall_ne_some.mpr (fun a ha => ?_)
    obtain ⟨d, -, hd⟩ := creator_inserted hosts_traced (fun _ => rfl) hr ha
    exact hgone d a hd
  refine ⟨HashMap.eq_empty ?_, HashMap.eq_empty hhosts, HashMap.eq_empty ?_, HashMap.eq_empty ?_⟩
  · intro a
    refine Option.eq_none_iff_forall_ne_some.mpr (fun handle ha => ?_)
    exact hgone handle.tx a (run_live hr a handle.tx ha)
  · intro id
    have hk := run_keys hr id
    rw [hhosts id] at hk
    exact Option.isNone_iff_eq_none.mp (by simpa using hk.symm)
  · intro id
    refine Option.eq_none_iff_forall_ne_some.mpr (fun p hp => ?_)
    obtain ⟨d, -, hd⟩ := creator_inserted sessions_traced (fun _ => rfl) hr hp
    exact hgone d p.1 hd

/-- The late joiner, whose session has a dead host, leaves after another
connection that had its address. -/
def emptied : List Label :=
  lateJoin ++ [.sendTo 1 (.v4 1 1) (.incomingJoin 9 1), .sendTo 1 (.v4 1 2) (.joinAccepted 1),
    .accept 2 (.v4 1 2), .insert 2, .leave 2, .cleanup 2, .leave 1, .cleanup 1]

theorem registry_drained_emptied :
    (replay machine emptied).1.length = 20 ∧ (replay machine emptied).2.reg.sessions = ∅ := by
  refine ⟨by decide +kernel, (registry_drained (replay_run emptied) ?_).2.2.2⟩
  intro c a hc
  have hfinished : ∀ d ∈ (replay machine emptied).1.filterMap (fun e => e.label.opened),
      ∀ p ∈ (replay machine emptied).2.view.stage d, p.2 = .finished := by
    decide +kernel
  cases hfinished c (opened_of_stage (replay_run emptied) hc) _ hc

end Mineshaft.Server
