import Mineshaft.Client.Belief
import Mineshaft.Server.Consistency
import Mineshaft.Server.Registration

namespace Mineshaft.Hosting

open Mineshaft.Core Mineshaft.Lib
open Mineshaft.Client (applied)
open Mineshaft.Server (ConnId Task Wired Consistent Consumes regAfter hostEntry handled
  handled_afterSends handled_handle step_effect step_moves)

def hostedAt (reg : Server.Registry) (id : UInt64) (a : SocketAddr) : Option ServerAdvertisement :=
  if reg.hosts.lookup id = some a then (reg.hostRecords.lookup id).map (fun r => r.data) else none

def hostedBy (s : Server.State) (id : UInt64) (c : ConnId) : Option ServerAdvertisement :=
  (s.addr c).bind (hostedAt s.reg id)

/-- The server still serves the connection, or has still to accept it. -/
def Serves (s : Server.State) (c : ConnId) : Prop :=
  s.task c ≠ some .returned ∧ s.task c ≠ some .finished

theorem hostedAt_of_ne {reg : Server.Registry} {id : UInt64} {a : SocketAddr}
    (h : reg.hosts.lookup id ≠ some a) : hostedAt reg id a = none := if_neg h

theorem hostedAt_congr {reg reg' : Server.Registry} {id : UInt64}
    (h : hostEntry reg' id = hostEntry reg id) (a : SocketAddr) :
    hostedAt reg' id a = hostedAt reg id a := by
  simp only [hostEntry, Prod.mk.injEq] at h
  rw [hostedAt, hostedAt, h.1, h.2]

theorem hostedAt_regAfter {reg : Server.Registry} (hc : Consistent reg) (id : UInt64)
    (a : SocketAddr) (msg : ClientMessage) :
    hostedAt (regAfter reg a msg) id a = applied id (hostedAt reg id a) msg := by
  cases msg with
  | registerHost r =>
    by_cases hi : id = r.senderId
    · simp [hostedAt, regAfter, applied, Server.Registry.registerHost_hosts,
        Server.Registry.registerHost_hostRecords, hi]
    · simp [hostedAt, regAfter, applied, Server.Registry.registerHost_hosts,
        Server.Registry.registerHost_hostRecords, hi, Ne.symm hi]
  | updateHost r =>
    by_cases ho : reg.hosts.lookup id = some a
    · obtain ⟨rec, hrec⟩ := Option.isSome_iff_exists.mp ((hc.keys id).symm.trans (by simp [ho]))
      by_cases hi : id = r.senderId
      · subst hi
        simp [hostedAt, regAfter, applied, Server.Registry.updateHost_hosts,
          Server.Registry.updateHost_hostRecords, ho, hrec]
      · simp [hostedAt, regAfter, applied, Server.Registry.updateHost_hosts,
          Server.Registry.updateHost_hostRecords, ho, hi, Ne.symm hi]
    · simp [hostedAt, regAfter, applied, Server.Registry.updateHost_hosts, ho]
  | unregisterHost i =>
    by_cases ho : reg.hosts.lookup id = some a
    · by_cases hi : id = i
      · simp [hostedAt, regAfter, applied, Server.Registry.unregisterHost_hosts, ho, hi]
      · simp [hostedAt, regAfter, applied, Server.Registry.unregisterHost_hosts,
          Server.Registry.unregisterHost_hostRecords, ho, hi, Ne.symm hi]
    · simp [hostedAt, regAfter, applied, Server.Registry.unregisterHost_hosts, ho]
  | signal t c n d =>
    exact hostedAt_congr (by simp [hostEntry, regAfter, Server.Registry.routeSignal_hosts]) a
  | ping | listHosts | connectRequest => rfl

theorem regAfter_owner {reg : Server.Registry} {a b : SocketAddr} {id : UInt64}
    {msg : ClientMessage} (h : (regAfter reg a msg).hosts.lookup id = some b) :
    reg.hosts.lookup id = some b ∨ b = a ∧ ∃ r, msg = .registerHost r ∧ r.senderId = id := by
  cases msg with
  | registerHost r =>
    rw [regAfter, Server.Registry.registerHost_hosts] at h
    split at h
    next hi => exact Or.inr ⟨(Option.some.inj h).symm, r, rfl, hi.symm⟩
    · exact Or.inl h
  | updateHost r =>
    rw [regAfter, Server.Registry.updateHost_hosts] at h
    exact Or.inl h
  | unregisterHost i =>
    rw [regAfter, Server.Registry.unregisterHost_hosts] at h
    split at h
    · cases h
    · exact Or.inl h
  | signal t c n d =>
    rw [regAfter, (Server.Registry.routeSignal_hosts _ _ _ _).1] at h
    exact Or.inl h
  | ping | listHosts | connectRequest => exact Or.inl h

theorem hostedAt_regAfter_other {reg : Server.Registry} {a b : SocketAddr} {id : UInt64}
    {msg : ClientMessage} (hab : a ≠ b)
    (hr : reg.hosts.lookup id = some b → ∀ r, msg = .registerHost r → r.senderId ≠ id) :
    hostedAt (regAfter reg a msg) id b = hostedAt reg id b := by
  by_cases ho : reg.hosts.lookup id = some b
  · have hne : reg.hosts.lookup id ≠ some a := by
      rw [ho]
      simpa using Ne.symm hab
    exact hostedAt_congr (Server.hostEntry_regAfter hne (hr ho)) b
  · rw [hostedAt_of_ne ho, hostedAt_of_ne]
    intro hn
    obtain h | ⟨rfl, -⟩ := regAfter_owner hn
    · exact ho h
    · exact hab rfl

theorem hostedAt_cleanup_other {reg : Server.Registry} {a b : SocketAddr} {id : UInt64}
    (hab : a ≠ b) : hostedAt (reg.cleanup a) id b = hostedAt reg id b := by
  by_cases ho : reg.hosts.lookup id = some a
  · have hb : reg.hosts.lookup id ≠ some b := by
      rw [ho]
      simpa using hab
    rw [hostedAt_of_ne hb, hostedAt_of_ne]
    simp [Server.Registry.cleanup_hosts, ho]
  · exact hostedAt_congr (Server.hostEntry_cleanup ho) b

theorem step_hostEntry {s s' : Server.State} {l : Server.Label} (hs : Server.step s l = some s')
    (id : UInt64) (hh : ∀ c msg, l ≠ .handle c msg) (hc : ∀ c, l ≠ .cleanup c) :
    hostEntry s'.reg id = hostEntry s.reg id := by
  have he := step_effect hs
  change hostEntry s'.view.reg id = hostEntry s.view.reg id
  generalize s.view = v at he
  generalize s'.view = v' at he
  cases he with
  | handle => exact absurd rfl (hh _ _)
  | cleanup => exact absurd rfl (hc _)
  | accept | insert | openSession | read | listHosts | sendTo | leave | write | closeRx => rfl

theorem step_handle {s s' : Server.State} {c : ConnId} {msg : ClientMessage}
    (hs : Server.step s (.handle c msg) = some s') :
    ∃ a, s.view.stage c = some (a, .inserted) ∧ s'.reg = regAfter s.reg a msg := by
  have he := step_effect hs
  change ∃ a, s.view.stage c = some (a, .inserted) ∧ s'.view.reg = regAfter s.view.reg a msg
  generalize s.view = v at he
  generalize s'.view = v' at he
  cases he with
  | handle hc => exact ⟨_, hc, rfl⟩

theorem step_cleanup {s s' : Server.State} {c : ConnId} (hs : Server.step s (.cleanup c) = some s') :
    ∃ a, s.view.stage c = some (a, .inserted) ∧ s'.reg = s.reg.cleanup a := by
  have he := step_effect hs
  change ∃ a, s.view.stage c = some (a, .inserted) ∧ s'.view.reg = s.view.reg.cleanup a
  generalize s.view = v at he
  generalize s'.view = v' at he
  cases he with
  | cleanup hc => exact ⟨_, hc, rfl⟩

theorem stage_of_serves {s : Server.State} {c : ConnId} {a : SocketAddr} (ha : s.addr c = some a)
    (hs : s.task c ≠ some .finished) : ∃ st, s.view.stage c = some (a, st) ∧ st ≠ .finished := by
  obtain ⟨k, hk, rfl⟩ := Option.map_eq_some_iff.mp ha
  have ht : k.task ≠ .finished := by
    intro ht
    exact hs (Server.State.task_eq_some.mpr ⟨k, hk, ht⟩)
  refine ⟨k.task.stage, Server.stage_of_task hk rfl, ?_⟩
  cases hkt : k.task with
  | finished => exact absurd hkt ht
  | spawned | reading | handling | connecting | sending | returned => simp [Task.stage]

theorem hostedBy_other {s s' : Server.State} {l : Server.Label} (hw : Wired s.view)
    (hs : Server.step s l = some s') {c : ConnId} {id : UInt64} (hc : c ≠ l.conn)
    (hf : s.task c ≠ some .finished)
    (hr : ∀ d r, l = .handle d (.registerHost r) → r.senderId = id →
      ∀ a, s.addr c = some a → s.reg.hosts.lookup id ≠ some a) :
    hostedBy s' id c = hostedBy s id c := by
  have ha' := ((step_moves hs).2 c hc).2
  rw [hostedBy, hostedBy, ha']
  cases ha : s.addr c with
  | none => rfl
  | some b =>
    obtain ⟨st, hst, hne⟩ := stage_of_serves ha hf
    simp only [Option.bind_some]
    by_cases hh : ∃ d msg, l = .handle d msg
    · obtain ⟨d, msg, rfl⟩ := hh
      obtain ⟨a, hd, hreg⟩ := step_handle hs
      have hab := hw.addr_ne hd hst (by decide) hne (Ne.symm hc)
      rw [hreg]
      refine hostedAt_regAfter_other hab ?_
      rintro ho r rfl hi
      exact hr d r rfl hi b ha ho
    · push Not at hh
      by_cases hcl : ∃ d, l = .cleanup d
      · obtain ⟨d, rfl⟩ := hcl
        obtain ⟨a, hd, hreg⟩ := step_cleanup hs
        have hab := hw.addr_ne hd hst (by decide) hne (Ne.symm hc)
        rw [hreg]
        exact hostedAt_cleanup_other hab
      · push Not at hcl
        exact hostedAt_congr (step_hostEntry hs id hh hcl) b

/-- A step of a connection that the server goes on serving moves its frames
along and keeps what they will lead to. -/
theorem hostedBy_own {s s' : Server.State} {l : Server.Label} {id : UInt64}
    {wire wire' : List ClientMessage} (hc : Consistent s.reg) (hs : Server.step s l = some s')
    (hserves : Serves s' l.conn) (hcons : Consumes l wire wire')
    (hacc : ∀ a, l = .accept l.conn a → s.reg.hosts.lookup id ≠ some a) :
    (((s'.task l.conn).bind handled).toList ++ wire').foldl (applied id) (hostedBy s' id l.conn) =
      (((s.task l.conn).bind handled).toList ++ wire).foldl (applied id) (hostedBy s id l.conn) := by
  obtain ⟨⟨addr, ha', ha, hm⟩, -⟩ := step_moves hs
  have hnew : hostedBy s' id l.conn = hostedAt s'.reg id addr := by rw [hostedBy, ha']; rfl
  have hold : hostedBy s id l.conn = (s.task l.conn).bind (fun _ => hostedAt s.reg id addr) := by
    rw [hostedBy, ha]
    cases s.task l.conn <;> rfl
  have hkeep : (∀ c msg, l ≠ .handle c msg) → (∀ c, l ≠ .cleanup c) →
      hostedAt s'.reg id addr = hostedAt s.reg id addr :=
    fun hh hcl => hostedAt_congr (step_hostEntry hs id hh hcl) addr
  have hwire : (∀ msg, l ≠ .read l.conn msg) → wire' = wire := by
    intro hl
    obtain ⟨msg, he, -⟩ | ⟨-, he⟩ := hcons
    · exact absurd he (hl msg)
    · exact he
  obtain ⟨hret, hfin⟩ := hserves
  rw [hnew, hold]
  generalize s.task l.conn = t at hm ha
  generalize s'.task l.conn = t' at hm hret hfin
  cases hm with
  | accept =>
    -- the new address owns nothing yet
    rw [hkeep (by simp) (by simp), hostedAt_of_ne (hacc addr rfl), hwire (by simp)]
    rfl
  | insert | openSession | sendTo =>
    rw [hkeep (by simp) (by simp), hwire (by simp)]
    simp only [Option.bind_some, handled_afterSends]
    rfl
  | write | closeRx =>
    rw [hkeep (by simp) (by simp), hwire (by simp)]
    rfl
  | @read c msg =>
    rw [hkeep (by simp) (by simp)]
    obtain ⟨msg', he, rfl⟩ | ⟨hn, -⟩ := hcons
    · cases he
      rfl
    · exact absurd rfl (hn msg)
  | listHosts =>
    rw [hkeep (by simp) (by simp), hwire (by simp)]
    rfl
  | @handle c msg r hr =>
    have hr' := handled_handle hr
    obtain ⟨a, hst, hreg⟩ := step_handle hs
    obtain rfl : a = addr := by
      obtain ⟨k, hk, he⟩ := Option.map_eq_some_iff.mp hst
      simp only [Prod.mk.injEq] at he
      change s.addr c = _ at ha
      rw [Server.State.addr, hk] at ha
      rw [← he.1]
      simpa using ha
    rw [hreg, hostedAt_regAfter hc, hwire (by simp)]
    simp only [Option.bind_some, hr']
    rfl
  | leave => exact absurd rfl hret
  | cleanup => exact absurd rfl hfin

theorem owner_step {id : UInt64} {s s' : Server.State} {l : Server.Label} (hs : Server.step s l = some s')
    {a : SocketAddr} (ho : s'.reg.hosts.lookup id = some a) :
    (s.reg.hosts.lookup id = some a ∧ ∀ d, l = .cleanup d → s.view.stage d ≠ some (a, .inserted)) ∨
      ∃ d r, l = .handle d (.registerHost r) ∧ r.senderId = id ∧
        s.view.stage d = some (a, .inserted) := by
  by_cases hh : ∃ d msg, l = .handle d msg
  · obtain ⟨d, msg, rfl⟩ := hh
    obtain ⟨b, hd, hreg⟩ := step_handle hs
    rw [hreg] at ho
    obtain h | ⟨rfl, r, rfl, hi⟩ := regAfter_owner ho
    · exact Or.inl ⟨h, by simp⟩
    · exact Or.inr ⟨d, r, rfl, hi, hd⟩
  · push Not at hh
    by_cases hcl : ∃ d, l = .cleanup d
    · obtain ⟨d, rfl⟩ := hcl
      obtain ⟨b, hd, hreg⟩ := step_cleanup hs
      rw [hreg, Server.Registry.cleanup_hosts] at ho
      split at ho
      · cases ho
      next hb =>
        refine Or.inl ⟨ho, ?_⟩
        rintro d' he hd'
        cases he
        rw [hd] at hd'
        cases hd'
        exact hb ho
    · push Not at hcl
      have he := congrArg Prod.fst (step_hostEntry hs id hh hcl)
      exact Or.inl ⟨he.symm.trans ho, fun d he => absurd he (hcl d)⟩

theorem Serves.before {s s' : Server.State} {l : Server.Label} (hs : Server.step s l = some s')
    {c : ConnId} (h : Serves s' c) : Serves s c := by
  obtain ⟨⟨addr, -, -, hm⟩, hframe⟩ := step_moves hs
  by_cases hc : c = l.conn
  · subst hc
    unfold Serves at h ⊢
    generalize s.task l.conn = t at hm
    generalize s'.task l.conn = t' at hm h
    cases hm with
    | cleanup => exact absurd rfl h.2
    | write | closeRx => exact h
    | accept | insert | read | handle | listHosts | openSession | sendTo | leave =>
      exact ⟨by simp, by simp⟩
  · rw [Serves, (hframe c hc).1] at h
    exact h

end Mineshaft.Hosting
