import Mineshaft.Server.Wiring

namespace Mineshaft.Server

open Mineshaft.Core Mineshaft.Lib Mineshaft.Lib.Transition

def hostEntry (reg : Registry) (id : UInt64) : Option SocketAddr × Option AdvertisedServer :=
  (reg.hosts.lookup id, reg.hostRecords.lookup id)

def recordBy (b : ConnId) (id : UInt64) : Label → Option AdvertisedServer
  | .handle c (.registerHost r) | .handle c (.updateHost r) =>
    if c = b ∧ r.senderId = id then some r else none
  | _ => none

def lastRecord (b : ConnId) (id : UInt64) : List Event → Option AdvertisedServer
  | [] => none
  | e :: h => (recordBy b id e.label).or (lastRecord b id h)

def Label.registers : Label → Option (ConnId × UInt64)
  | .handle c (.registerHost r) => some (c, r.senderId)
  | _ => none

/-- A step the owner `b` of `id` has to put up with: nobody registers `id`,
and `b` neither unregisters it nor is cleaned up. -/
def Spares (b : ConnId) (id : UInt64) (l : Label) : Prop :=
  (∀ p ∈ l.registers, p.2 ≠ id) ∧ l ≠ .handle b (.unregisterHost id) ∧ l ≠ .cleanup b

instance (b : ConnId) (id : UInt64) (l : Label) : Decidable (Spares b id l) :=
  inferInstanceAs (Decidable ((∀ p ∈ l.registers, p.2 ≠ id) ∧
    l ≠ .handle b (.unregisterHost id) ∧ l ≠ .cleanup b))

variable {v v' : View} {l : Label} {b : ConnId} {id : UInt64} {addr : SocketAddr}

/-- Only the owner of a host, a registration of its id, or the cleanup of its
owner changes what is stored for it. -/
theorem hostEntry_regAfter {reg : Registry} {a : SocketAddr} {msg : ClientMessage}
    (hne : reg.hosts.lookup id ≠ some a) (hr : ∀ r, msg = .registerHost r → r.senderId ≠ id) :
    hostEntry (regAfter reg a msg) id = hostEntry reg id := by
  cases msg with
  | registerHost r =>
    have hi : id ≠ r.senderId := Ne.symm (hr r rfl)
    simp [hostEntry, regAfter, Registry.registerHost_hosts, Registry.registerHost_hostRecords, hi]
  | updateHost r =>
    simp [hostEntry, regAfter, Registry.updateHost_hosts, Registry.updateHost_hostRecords, hne]
  | unregisterHost i =>
    simp [hostEntry, regAfter, Registry.unregisterHost_hosts, Registry.unregisterHost_hostRecords, hne]
  | signal t c n d => simp [hostEntry, regAfter, Registry.routeSignal_hosts]
  | ping | listHosts | connectRequest => rfl

theorem hostEntry_cleanup {reg : Registry} {a : SocketAddr} (hne : reg.hosts.lookup id ≠ some a) :
    hostEntry (reg.cleanup a) id = hostEntry reg id := by
  simp [hostEntry, Registry.cleanup_hosts, Registry.cleanup_hostRecords, hne]

theorem hostEntry_owner {reg : Registry} {msg : ClientMessage} {r : AdvertisedServer}
    (ho : hostEntry reg id = (some addr, some r))
    (hr : ∀ r, msg = .registerHost r → r.senderId ≠ id) (hu : msg ≠ .unregisterHost id) :
    hostEntry (regAfter reg addr msg) id =
      (some addr, (recordBy b id (.handle b msg)).or (some r)) := by
  simp only [hostEntry, Prod.mk.injEq] at ho
  cases msg with
  | registerHost r' =>
    have hi : r'.senderId ≠ id := hr r' rfl
    simp [hostEntry, regAfter, Registry.registerHost_hosts, Registry.registerHost_hostRecords,
      Ne.symm hi, hi, recordBy, ho]
  | updateHost r' =>
    by_cases hi : id = r'.senderId
    · simp [hostEntry, regAfter, Registry.updateHost_hosts, Registry.updateHost_hostRecords,
        recordBy, ← hi, ho]
    · simp [hostEntry, regAfter, Registry.updateHost_hosts, Registry.updateHost_hostRecords,
        recordBy, hi, Ne.symm hi, ho]
  | unregisterHost i =>
    have hi : id ≠ i := by rintro rfl; exact hu rfl
    simp [hostEntry, regAfter, Registry.unregisterHost_hosts, Registry.unregisterHost_hostRecords,
      recordBy, hi, ho]
  | signal t c n d => simp [hostEntry, regAfter, Registry.routeSignal_hosts, recordBy, ho]
  | ping | listHosts | connectRequest => simp [hostEntry, regAfter, recordBy, ho]

/-- The registration of `id` by `b` stands with record `r`. -/
def Holds (v : View) (b : ConnId) (id : UInt64) (r : AdvertisedServer) : Prop :=
  ∃ addr, v.stage b = some (addr, .inserted) ∧ hostEntry v.reg id = (some addr, some r)

theorem recordBy_of_ne {c : ConnId} (h : c ≠ b) (msg : ClientMessage) :
    recordBy b id (.handle c msg) = none := by
  cases msg <;> simp [recordBy, h]

theorem Holds.owner_ne {r : AdvertisedServer} (hw : Wired v) (hh : Holds v b id r) {c : ConnId}
    {a : SocketAddr} (hc : v.stage c = some (a, .inserted)) (hne : c ≠ b) :
    v.reg.hosts.lookup id ≠ some a := by
  obtain ⟨addr, hb, ho⟩ := hh
  have ha := hw.addr_ne hc hb (by decide) (by decide) hne
  have hl : v.reg.hosts.lookup id = some addr := congrArg Prod.fst ho
  rw [hl]
  simpa using Ne.symm ha

/-- A step that spares the registration keeps it, with the latest record. -/
theorem Holds.step {r : AdvertisedServer} (hw : Wired v) (hh : Holds v b id r)
    (hs : Spares b id l) (he : Effect v l v') :
    ∃ r', (recordBy b id l).or (some r) = some r' ∧ Holds v' b id r' := by
  obtain ⟨addr, hb, ho⟩ := hh
  cases he with
  | read | listHosts | sendTo | leave | write | closeRx => exact ⟨r, rfl, addr, hb, ho⟩
  | openSession => exact ⟨r, rfl, addr, hb, ho⟩
  | @accept c a hn =>
    have hbc : b ≠ c := by rintro rfl; simp [hn] at hb
    exact ⟨r, rfl, addr, by simpa [hbc] using hb, ho⟩
  | @insert c a hc =>
    have hbc : b ≠ c := by rintro rfl; simp [hc] at hb
    exact ⟨r, rfl, addr, by simpa [hbc] using hb, ho⟩
  | @cleanup c a hc =>
    have hcb : c ≠ b := by rintro rfl; exact hs.2.2 rfl
    have hne := Holds.owner_ne hw ⟨addr, hb, ho⟩ hc hcb
    refine ⟨r, rfl, addr, by simpa [Ne.symm hcb] using hb, ?_⟩
    rw [hostEntry_cleanup hne]
    exact ho
  | @handle c a msg hc =>
    have hr : ∀ r, msg = .registerHost r → r.senderId ≠ id := by
      rintro r rfl hi
      exact hs.1 (c, r.senderId) rfl hi
    by_cases hcb : c = b
    · subst hcb
      obtain rfl : a = addr := by
        rw [hc] at hb
        cases hb
        rfl
      have hu : msg ≠ .unregisterHost id := by rintro rfl; exact hs.2.1 rfl
      have hn := hostEntry_owner (b := c) ho hr hu
      cases hm : recordBy c id (.handle c msg) with
      | none => exact ⟨r, rfl, a, hc, by rw [hn, hm]; rfl⟩
      | some r' => exact ⟨r', rfl, a, hc, by rw [hn, hm]; rfl⟩
    · have hne := Holds.owner_ne hw ⟨addr, hb, ho⟩ hc hcb
      refine ⟨r, by rw [recordBy_of_ne hcb]; rfl, addr, hb, ?_⟩
      rw [hostEntry_regAfter hne hr]
      exact ho

theorem registers_iff : l.registers = some (b, id) ↔
    ∃ r, l = .handle b (.registerHost r) ∧ r.senderId = id := by
  constructor
  · intro h
    unfold Label.registers at h
    split at h
    next r =>
      simp only [Option.some.injEq, Prod.mk.injEq] at h
      exact ⟨r, by rw [h.1], h.2⟩
    · cases h
  · rintro ⟨r, rfl, rfl⟩
    rfl

theorem holds_of_registers {s s' : State} (hs : step s l = some s')
    (hr : l.registers = some (b, id)) : ∃ r, recordBy b id l = some r ∧ Holds s'.view b id r := by
  obtain ⟨r, rfl, rfl⟩ := registers_iff.mp hr
  refine ⟨r, by simp [recordBy], ?_⟩
  have he := step_effect hs
  generalize s'.view = v' at he
  cases he with
  | @handle _ a _ hc =>
    refine ⟨a, hc, ?_⟩
    simp [hostEntry, regAfter, Registry.registerHost_hosts, Registry.registerHost_hostRecords]

/-- Whatever the other connections did since `b` last registered `id`, the
registry names `b` as its host, with the record that `b` sent last. -/
theorem registration_survives {h : List Event} {s : State} (hr : Run h s) (hd : DistinctAddrs h)
    (hs : Since (fun e => Spares b id e.label) (fun e _ => e.label.registers = some (b, id)) h) :
    s.reg.hosts.lookup id = s.addr b ∧ (s.addr b).isSome ∧
      s.reg.hostRecords.lookup id = lastRecord b id h ∧ (lastRecord b id h).isSome := by
  have hh : ∃ r, lastRecord b id h = some r ∧ Holds s.view b id r := by
    induction hr with
    | nil => cases hs
    | @cons h s s' l hr hstep ih =>
      have hd' := hd.tail
      cases hs with
      | here hreg =>
        obtain ⟨r, hrec, hh⟩ := holds_of_registers hstep hreg
        exact ⟨r, by simp [lastRecord, hrec], hh⟩
      | keep hsp hs =>
        obtain ⟨r, hlast, hh⟩ := ih hd' hs
        obtain ⟨r', hrec, hh'⟩ := Holds.step (run_wired hr hd') hh hsp (step_effect hstep)
        exact ⟨r', by rw [lastRecord, hlast]; exact hrec, hh'⟩
  obtain ⟨r, hlast, addr, hb, ho⟩ := hh
  obtain ⟨k, hk, he⟩ := Option.map_eq_some_iff.mp hb
  simp only [hostEntry, Prod.mk.injEq] at ho he
  have ha : s.addr b = some addr := by simp [State.addr, hk, he.1]
  exact ⟨by rw [ha]; exact ho.1, by simp [ha], by rw [hlast]; exact ho.2, by simp [hlast]⟩

/-- A host registers again on a second connection, updates its record there,
and its first connection is cleaned up afterwards. -/
def reconnected : List Label :=
  [.accept 0 (.v4 1 1), .insert 0, .read 0 (.registerHost ⟨7, default⟩),
    .handle 0 (.registerHost ⟨7, default⟩), .sendTo 0 (.v4 1 1) (.registered 7),
    .accept 1 (.v4 1 2), .insert 1, .read 1 (.registerHost ⟨7, default⟩),
    .handle 1 (.registerHost ⟨7, default⟩), .sendTo 1 (.v4 1 2) (.registered 7),
    .read 1 (.updateHost ⟨7, { (default : ServerAdvertisement) with playerCount := 2 }⟩),
    .handle 1 (.updateHost ⟨7, { (default : ServerAdvertisement) with playerCount := 2 }⟩),
    .read 0 (.unregisterHost 7), .handle 0 (.unregisterHost 7), .leave 0, .cleanup 0]

theorem registration_survives_reconnected :
    (replay machine reconnected).2.reg.hosts.lookup 7 = some (.v4 1 2) ∧
      (replay machine reconnected).2.reg.hostRecords.lookup 7 =
        some ⟨7, { (default : ServerAdvertisement) with playerCount := 2 }⟩ := by
  have hk : Since (fun e => Spares 1 7 e.label) (fun e _ => e.label.registers = some (1, 7))
      (replay machine reconnected).1 := by decide +kernel
  have hs := registration_survives (replay_run reconnected)
    (replay_distinctAddrs reconnected (by decide)) hk
  refine ⟨?_, ?_⟩
  · rw [hs.1]
    decide +kernel
  · rw [hs.2.2.1]
    decide +kernel

end Mineshaft.Server
