import Mathlib.Algebra.Ring.Nat
import Mineshaft.Core.Message
import Mineshaft.Lib.HashMap
import Mineshaft.Lib.Transition

namespace Mineshaft.Core.Relay

open Mineshaft.Lib Mineshaft.Lib.Transition

abbrev Hosts := HashMap UInt64 AdvertisedServer

/-- The commands of the relay. The address of a joiner is a type of the
transport library. -/
inductive RelayCommand (Addr : Type)
  | registerHost (server : AdvertisedServer)
  | listHosts
  | bridgeToHost (advertisedSenderId : UInt64) (joinerAddr : Addr)

/-- `register_host` with the order in which the map happens to be iterated. -/
def registerHost (maxAdvertisedHosts : Nat) (hosts : Hosts) (order : List UInt64)
    (server : AdvertisedServer) : Hosts :=
  let hosts :=
    if hosts.len ≥ maxAdvertisedHosts ∧ server.senderId ∉ hosts then
      match order.head? with
      | some oldest => hosts.erase oldest
      | none => hosts
    else hosts
  hosts.insert server.senderId server

def IsHostList (hosts : Hosts) (list : List AdvertisedServer) : Prop := list.Perm hosts.values

def hostBySender (hosts : Hosts) (senderId : UInt64) : Option AdvertisedServer :=
  hosts.lookup senderId

/-- A call of `pump_commands` that holds the receiver: how many commands it has
counted, and the one that it has received and not yet dealt with. -/
structure Pump (Addr : Type) where
  handled : Nat
  inHand : Option (RelayCommand Addr)

structure Service (Addr : Type) where
  hosts : Hosts
  commands : List (RelayCommand Addr)
  pump : Option (Pump Addr)

/-- A call of `submit` or `register_host`, or a step of the one call of
`pump_commands` that holds the receiver: it takes the lock, receives a command,
deals with it, or finds the channel empty and returns. -/
inductive Label (Addr : Type)
  | submit (command : RelayCommand Addr)
  | register (server : AdvertisedServer) (order : List UInt64)
  | lock
  | receive
  | process (order : List UInt64)
  | finish

variable {Addr : Type}

/-- One step. The sender of the channel never fails, since the service itself
owns the receiver. -/
def step (maxAdvertisedHosts : Nat) (s : Service Addr) : Label Addr → Option (Service Addr)
  | .submit command => some { s with commands := s.commands ++ [command] }
  | .register server order =>
    if order.Perm s.hosts.keys then
      some { s with hosts := registerHost maxAdvertisedHosts s.hosts order server }
    else none
  | .lock =>
    match s.pump with
    | none => some { s with pump := some ⟨0, none⟩ }
    | some _ => none
  | .receive =>
    match s.pump, s.commands with
    | some ⟨handled, none⟩, command :: rest =>
      some { s with commands := rest, pump := some ⟨handled + 1, some command⟩ }
    | _, _ => none
  | .process order =>
    match s.pump with
    | some ⟨handled, some command⟩ =>
      match command with
      | .registerHost server =>
        if order.Perm s.hosts.keys then
          some { s with
            hosts := registerHost maxAdvertisedHosts s.hosts order server
            pump := some ⟨handled, none⟩ }
        else none
      | .listHosts | .bridgeToHost _ _ => some { s with pump := some ⟨handled, none⟩ }
    | _ => none
  | .finish =>
    match s.pump, s.commands with
    | some ⟨_, none⟩, [] => some { s with pump := none }
    | _, _ => none

def machine (Addr : Type) (maxAdvertisedHosts : Nat) : Machine (Service Addr) (Label Addr) :=
  ⟨⟨∅, [], none⟩, step maxAdvertisedHosts⟩

abbrev Event (Addr : Type) := Transition.Event (Service Addr) (Label Addr)

def Service.inHand (s : Service Addr) : List (RelayCommand Addr) :=
  (s.pump.bind (fun p => p.inHand)).toList

def Service.counted (s : Service Addr) : Nat := (s.pump.map (fun p => p.handled)).getD 0

def submits (e : Event Addr) : List (RelayCommand Addr) :=
  match e.label with
  | .submit command => [command]
  | _ => []

def processes (e : Event Addr) : List (RelayCommand Addr) :=
  match e.label with
  | .process _ => e.pre.inHand
  | _ => []

def returns (e : Event Addr) : List Nat :=
  match e.label with
  | .finish => [e.pre.counted]
  | _ => []

def submitted : List (Event Addr) → List (RelayCommand Addr) := collect submits

def handled : List (Event Addr) → List (RelayCommand Addr) := collect processes

def returned : List (Event Addr) → List Nat := collect returns

def registers (e : Event Addr) : Option (AdvertisedServer × List UInt64) :=
  match e.label with
  | .register server order => some (server, order)
  | .process order =>
    match e.pre.inHand with
    | [.registerHost server] => some (server, order)
    | _ => none
  | _ => none

/-- A step evicts an id that is registered before it and not after it. -/
def Evicts (maxAdvertisedHosts : Nat) (e : Event Addr) (id : UInt64) : Prop :=
  id ∈ e.pre.hosts ∧ ∃ s', step maxAdvertisedHosts e.pre e.label = some s' ∧ id ∉ s'.hosts

structure Registered (maxAdvertisedHosts : Nat) (hosts : Hosts) (server : AdvertisedServer)
    (hosts' : Hosts) : Prop where
  own : hosts'.lookup server.senderId = some server
  others : ∀ id found, id ≠ server.senderId →
    hosts'.lookup id = some found → hosts.lookup id = some found
  spared : server.senderId ∈ hosts ∨ hosts.len < maxAdvertisedHosts →
    ∀ id, id ≠ server.senderId → hosts'.lookup id = hosts.lookup id
  evicted : server.senderId ∉ hosts → maxAdvertisedHosts ≤ hosts.len → hosts ≠ ∅ →
    ∃ oldest ∈ hosts, oldest ∉ hosts' ∧
      ∀ id, id ≠ server.senderId → id ≠ oldest → hosts'.lookup id = hosts.lookup id

structure Bounded (maxAdvertisedHosts : Nat) (hosts : Hosts) : Prop where
  len : hosts.len ≤ max maxAdvertisedHosts 1
  keyed : ∀ id server, hosts.lookup id = some server → server.senderId = id

section RegisterHost

variable {k : Nat} {hosts : Hosts} {order : List UInt64} {server : AdvertisedServer}

theorem registerHost_room (hroom : server.senderId ∈ hosts ∨ hosts.len < k) :
    registerHost k hosts order server = hosts.insert server.senderId server := by
  have hfull : ¬ (hosts.len ≥ k ∧ server.senderId ∉ hosts) := by
    rintro ⟨hlen, hnew⟩
    obtain hold | hlt := hroom
    · exact hnew hold
    · omega
  simp only [registerHost, if_neg hfull]

theorem registerHost_full (hnew : server.senderId ∉ hosts) (hlen : k ≤ hosts.len)
    {oldest : UInt64} {rest : List UInt64} :
    registerHost k hosts (oldest :: rest) server =
      AList.insert server.senderId server (hosts.erase oldest) := by
  have hfull : hosts.len ≥ k ∧ server.senderId ∉ hosts := ⟨hlen, hnew⟩
  simp only [registerHost, if_pos hfull, List.head?_cons]

theorem registerHost_nil :
    registerHost k hosts [] server = hosts.insert server.senderId server := by
  simp [registerHost]

theorem eq_empty_of_perm_nil (hp : ([] : List UInt64).Perm hosts.keys) : hosts = ∅ := by
  have hk : hosts.keys = [] := hp.nil_eq.symm
  apply AList.ext
  exact List.map_eq_nil_iff.mp hk

theorem registerHost_registered (hp : order.Perm hosts.keys) :
    Registered k hosts server (registerHost k hosts order server) := by
  by_cases hroom : server.senderId ∈ hosts ∨ hosts.len < k
  · rw [registerHost_room hroom]
    refine ⟨AList.lookup_insert _, ?_, fun _ id hid => AList.lookup_insert_ne hid, ?_⟩
    · intro id found hid hf
      rwa [AList.lookup_insert_ne hid] at hf
    · intro hnew hlen _
      obtain hold | hlt := hroom
      · exact absurd hold hnew
      · omega
  · obtain ⟨hnew, hlen⟩ := not_or.mp hroom
    rw [Nat.not_lt] at hlen
    cases order with
    | nil =>
      have hempty := eq_empty_of_perm_nil hp
      rw [registerHost_nil]
      refine ⟨AList.lookup_insert _, ?_, fun h => absurd h hroom, fun _ _ h => absurd hempty h⟩
      intro id found hid hf
      rwa [AList.lookup_insert_ne hid] at hf
    | cons oldest rest =>
      have hmem : oldest ∈ hosts := hp.mem_iff.mp List.mem_cons_self
      have hne : oldest ≠ server.senderId := by
        rintro rfl
        exact hnew hmem
      rw [registerHost_full hnew hlen]
      refine ⟨AList.lookup_insert _, ?_, fun h => absurd h hroom,
        fun _ _ _ => ⟨oldest, hmem, ?_, ?_⟩⟩
      · intro id found hid hf
        rw [AList.lookup_insert_ne hid, HashMap.lookup_erase_eq] at hf
        split at hf
        · simp at hf
        · exact hf
      · rw [AList.mem_insert, AList.mem_erase]
        rintro (h | h)
        · exact hne h
        · exact h.1 rfl
      · intro id hid hold
        rw [AList.lookup_insert_ne hid, AList.lookup_erase_ne hold]

theorem registerHost_bounded (hp : order.Perm hosts.keys) (hb : Bounded k hosts) :
    Bounded k (registerHost k hosts order server) := by
  have hl := hb.len
  constructor
  · by_cases hroom : server.senderId ∈ hosts ∨ hosts.len < k
    · rw [registerHost_room hroom, HashMap.len_insert]
      split <;> grind
    · obtain ⟨hnew, hlen⟩ := not_or.mp hroom
      rw [Nat.not_lt] at hlen
      cases order with
      | nil =>
        have hempty := eq_empty_of_perm_nil hp
        subst hempty
        rw [registerHost_nil, HashMap.len_insert, if_neg hnew]
        change 0 + 1 ≤ _
        omega
      | cons oldest rest =>
        have hmem : oldest ∈ hosts := hp.mem_iff.mp List.mem_cons_self
        have hless := HashMap.len_erase_of_mem hmem
        rw [registerHost_full hnew hlen, HashMap.len_insert]
        split <;> omega
  · intro id found hf
    have hreg : Registered k hosts server _ := registerHost_registered hp
    by_cases hid : id = server.senderId
    · subst hid
      rw [hreg.own] at hf
      cases hf
      rfl
    · exact hb.keyed id found (hreg.others id found hid hf)

end RegisterHost

section Steps

variable {k : Nat} {s s' : Service Addr} {l : Label Addr}

inductive Moves (k : Nat) (s : Service Addr) : Label Addr → Service Addr → Prop
  | submit (command : RelayCommand Addr) :
      Moves k s (.submit command) { s with commands := s.commands ++ [command] }
  | register (server : AdvertisedServer) (order : List UInt64) (hp : order.Perm s.hosts.keys) :
      Moves k s (.register server order) { s with hosts := registerHost k s.hosts order server }
  | lock (hpump : s.pump = none) : Moves k s .lock { s with pump := some ⟨0, none⟩ }
  | receive (n : Nat) (command : RelayCommand Addr) (rest : List (RelayCommand Addr))
      (hpump : s.pump = some ⟨n, none⟩) (hq : s.commands = command :: rest) :
      Moves k s .receive { s with commands := rest, pump := some ⟨n + 1, some command⟩ }
  | processRegister (n : Nat) (server : AdvertisedServer) (order : List UInt64)
      (hpump : s.pump = some ⟨n, some (.registerHost server)⟩) (hp : order.Perm s.hosts.keys) :
      Moves k s (.process order)
        { s with hosts := registerHost k s.hosts order server, pump := some ⟨n, none⟩ }
  | processOther (n : Nat) (command : RelayCommand Addr) (order : List UInt64)
      (hpump : s.pump = some ⟨n, some command⟩)
      (hother : ∀ server, command ≠ .registerHost server) :
      Moves k s (.process order) { s with pump := some ⟨n, none⟩ }
  | finish (n : Nat) (hpump : s.pump = some ⟨n, none⟩) (hq : s.commands = []) :
      Moves k s .finish { s with pump := none }

theorem step_moves (hs : step k s l = some s') : Moves k s l s' := by
  cases l with
  | submit command =>
    cases hs
    exact Moves.submit command
  | register server order =>
    simp only [step] at hs
    split at hs
    next hp =>
      cases hs
      exact Moves.register server order hp
    next => simp at hs
  | lock =>
    simp only [step] at hs
    split at hs
    next hpump =>
      cases hs
      exact Moves.lock hpump
    next => simp at hs
  | receive =>
    simp only [step] at hs
    split at hs
    next n command rest hpump hq =>
      cases hs
      exact Moves.receive n command rest hpump hq
    next => simp at hs
  | process order =>
    simp only [step] at hs
    split at hs
    next n command hpump =>
      cases command with
      | registerHost server =>
        simp only at hs
        split at hs
        next hp =>
          cases hs
          exact Moves.processRegister n server order hpump hp
        next => simp at hs
      | listHosts =>
        cases hs
        exact Moves.processOther n _ order hpump (by simp)
      | bridgeToHost advertisedSenderId joinerAddr =>
        cases hs
        exact Moves.processOther n _ order hpump (by simp)
    next => simp at hs
  | finish =>
    simp only [step] at hs
    split at hs
    next n hpump hq =>
      cases hs
      exact Moves.finish n hpump hq
    next => simp at hs

theorem step_hosts (hs : step k s l = some s') :
    (∃ server order, registers ⟨s, l⟩ = some (server, order) ∧ order.Perm s.hosts.keys ∧
        s'.hosts = registerHost k s.hosts order server) ∨
      registers ⟨s, l⟩ = none ∧ s'.hosts = s.hosts := by
  cases step_moves hs with
  | register server order hp => exact Or.inl ⟨server, order, rfl, hp, rfl⟩
  | processRegister n server order hpump hp =>
    refine Or.inl ⟨server, order, ?_, hp, rfl⟩
    simp [registers, Service.inHand, hpump]
  | processOther n command order hpump hother =>
    refine Or.inr ⟨?_, rfl⟩
    cases command with
    | registerHost server => exact absurd rfl (hother server)
    | listHosts => simp [registers, Service.inHand, hpump]
    | bridgeToHost advertisedSenderId joinerAddr => simp [registers, Service.inHand, hpump]
  | submit | lock | receive | finish => exact Or.inr ⟨rfl, rfl⟩

theorem step_commands (hs : step k s l = some s') :
    s.inHand ++ s.commands ++ submits ⟨s, l⟩ = processes ⟨s, l⟩ ++ s'.inHand ++ s'.commands := by
  cases step_moves hs with
  | submit | register => simp [submits, processes, Service.inHand]
  | lock hpump => simp [submits, processes, Service.inHand, hpump]
  | receive n command rest hpump hq => simp [submits, processes, Service.inHand, hpump, hq]
  | processRegister n server order hpump hp => simp [submits, processes, Service.inHand, hpump]
  | processOther n command order hpump hother => simp [submits, processes, Service.inHand, hpump]
  | finish n hpump hq => simp [submits, processes, Service.inHand, hpump, hq]

theorem step_counted (hs : step k s l = some s') :
    (returns ⟨s, l⟩).sum + s'.counted + s.inHand.length =
      s.counted + (processes ⟨s, l⟩).length + s'.inHand.length := by
  cases step_moves hs with
  | submit | register => simp [returns, processes, Service.counted, Service.inHand]
  | lock hpump => simp [returns, processes, Service.counted, Service.inHand, hpump]
  | receive n command rest hpump hq =>
    simp [returns, processes, Service.counted, Service.inHand, hpump]
  | processRegister n server order hpump hp =>
    simp [returns, processes, Service.counted, Service.inHand, hpump]
  | processOther n command order hpump hother =>
    simp [returns, processes, Service.counted, Service.inHand, hpump]
  | finish n hpump hq => simp [returns, processes, Service.counted, Service.inHand, hpump]

theorem step_registered (hs : step k s l = some s') {server : AdvertisedServer}
    {order : List UInt64} (hreg : registers ⟨s, l⟩ = some (server, order)) :
    Registered k s.hosts server s'.hosts := by
  obtain ⟨server', order', hreg', hp, heq⟩ | ⟨hnone, -⟩ := step_hosts hs
  · rw [hreg] at hreg'
    cases hreg'
    rw [heq]
    exact registerHost_registered hp
  · rw [hreg] at hnone
    cases hnone

theorem step_bounded (hs : step k s l = some s') (hb : Bounded k s.hosts) :
    Bounded k s'.hosts := by
  obtain ⟨server, order, -, hp, heq⟩ | ⟨-, heq⟩ := step_hosts hs
  · rw [heq]
    exact registerHost_bounded hp hb
  · rw [heq]
    exact hb

theorem step_keeps {id : UInt64} {server : AdvertisedServer} (hs : step k s l = some s')
    (hl : s.hosts.lookup id = some server)
    (hreg : ∀ again order, registers ⟨s, l⟩ = some (again, order) → again.senderId ≠ id)
    (hev : ¬ Evicts k ⟨s, l⟩ id) : s'.hosts.lookup id = some server := by
  have hin : id ∈ s.hosts := AList.lookup_isSome.mp (by simp [hl])
  have hin' : id ∈ s'.hosts := by
    by_contra hgone
    exact hev ⟨hin, s', hs, hgone⟩
  obtain ⟨found, hf⟩ := Option.isSome_iff_exists.mp (AList.lookup_isSome.mpr hin')
  obtain ⟨again, order, hr, -, -⟩ | ⟨-, heq⟩ := step_hosts hs
  · have hold := (step_registered hs hr).others id found (hreg again order hr).symm hf
    rw [hf, ← hold, hl]
  · rw [heq]
    exact hl

end Steps

section Runs

variable {k : Nat} {h : List (Event Addr)} {s : Service Addr}

theorem bounded_run (hr : Run (machine Addr k) h s) : Bounded k s.hosts := by
  apply hr.invariant (fun _ => True) (fun s => Bounded k s.hosts) _ _ (fun _ _ => trivial)
  · constructor
    · exact Nat.zero_le _
    · intro id server hl
      simp [machine] at hl
  · intro s l s' _ hb hs
    exact step_bounded hs hb

theorem commands_run (hr : Run (machine Addr k) h s) :
    submitted h = handled h ++ s.inHand ++ s.commands := by
  induction hr with
  | nil => rfl
  | @cons h s s' l _ hs ih =>
    have hc := step_commands hs
    simp only [List.append_assoc] at ih hc
    simp only [submitted, handled, collect] at ih ⊢
    rw [ih]
    simp only [List.append_assoc]
    rw [hc]

theorem counted_run (hr : Run (machine Addr k) h s) :
    (returned h).sum + s.counted = (handled h).length + s.inHand.length := by
  induction hr with
  | nil => rfl
  | @cons h s s' l _ hs ih =>
    have hc := step_counted hs
    simp only [returned, handled, collect, List.sum_append, List.length_append] at ih ⊢
    omega

theorem latest_run (hr : Run (machine Addr k) h s) {id : UInt64} {server : AdvertisedServer}
    (hsince : Since
      (fun e => (∀ again order, registers e = some (again, order) → again.senderId ≠ id) ∧
        ¬ Evicts k e id)
      (fun e _ => server.senderId = id ∧ ∃ order, registers e = some (server, order)) h) :
    hostBySender s.hosts id = some server := by
  induction hr with
  | nil => cases hsince
  | @cons h s s' l _ hs ih =>
    obtain ⟨rfl, order, hreg⟩ | ⟨⟨hreg, hev⟩, hrest⟩ := since_cons.mp hsince
    · exact (step_registered hs hreg).own
    · exact step_keeps hs (ih hrest) hreg hev

theorem handled_at_finish (hr : Run (machine Addr k) h s) (hf : (step k s .finish).isSome) :
    handled h = submitted h := by
  obtain ⟨s', hs⟩ := Option.isSome_iff_exists.mp hf
  have hc := commands_run hr
  cases step_moves hs with
  | finish n hpump hq => simpa [Service.inHand, hpump, hq] using hc.symm

theorem host_list_nodup (hb : Bounded k s.hosts) {list : List AdvertisedServer}
    (hl : IsHostList s.hosts list) : (list.map (fun server => server.senderId)).Nodup := by
  have hv := HashMap.nodup_values_map s.hosts (fun server => server.senderId) hb.keyed
  exact (hl.map _).nodup_iff.mpr hv

end Runs

/-- The registry of the relay, for every capacity, iteration order and
interleaving. The command that a pump has taken from the channel and the count
that it has not yet returned appear as `inHand` and `counted`; both are empty
whenever no pump is running. -/
theorem registry_of_run (k : Nat) {h : List (Event Addr)} {s : Service Addr}
    (hr : Run (machine Addr k) h s) :
    s.hosts.len ≤ max k 1 ∧
      (∀ id server, s.hosts.lookup id = some server → server.senderId = id) ∧
      submitted h = handled h ++ s.inHand ++ s.commands ∧
      (returned h).sum + s.counted = (handled h).length + s.inHand.length ∧
      (s.pump = none → (returned h).sum = (handled h).length) ∧
      ((step k s .finish).isSome → handled h = submitted h) ∧
      (∀ l s' server order, step k s l = some s' → registers ⟨s, l⟩ = some (server, order) →
        Registered k s.hosts server s'.hosts) ∧
      (∀ id server, Since
        (fun e => (∀ again order, registers e = some (again, order) → again.senderId ≠ id) ∧
          ¬ Evicts k e id)
        (fun e _ => server.senderId = id ∧ ∃ order, registers e = some (server, order)) h →
        hostBySender s.hosts id = some server) ∧
      ∀ list, IsHostList s.hosts list → (list.map (fun server => server.senderId)).Nodup := by
  have hb := bounded_run hr
  have hc := counted_run hr
  refine ⟨hb.len, hb.keyed, commands_run hr, hc, ?_, handled_at_finish hr, ?_, ?_, ?_⟩
  · intro hpump
    simpa [Service.counted, Service.inHand, hpump] using hc
  · intro l s' server order hs hreg
    exact step_registered hs hreg
  · intro id server hsince
    exact latest_run hr hsince
  · intro list hl
    exact host_list_nodup hb hl

/-- A queued registration and a direct one at a relay for a single host. -/
def crowdedOut : List (Label Unit) :=
  [.submit (.registerHost ⟨7, default⟩), .submit .listHosts, .lock, .receive, .process [],
    .receive, .register ⟨8, default⟩ [7], .process [8], .finish]

theorem registry_of_run_crowdedOut :
    (replay (machine Unit 1) crowdedOut).1.length = 9 ∧
      returned (replay (machine Unit 1) crowdedOut).1 = [2] ∧
      (handled (replay (machine Unit 1) crowdedOut).1).length = 2 ∧
      (replay (machine Unit 1) crowdedOut).2.hosts.len ≤ 1 ∧
      hostBySender (replay (machine Unit 1) crowdedOut).2.hosts 7 = none ∧
      hostBySender (replay (machine Unit 1) crowdedOut).2.hosts 8 = some ⟨8, default⟩ := by
  have hr : Run (machine Unit 1) _ _ := replay_run crowdedOut
  have hall := registry_of_run 1 hr
  have hcount := hall.2.2.2.2.1 (by decide +kernel)
  have hreturned : returned (replay (machine Unit 1) crowdedOut).1 = [2] := by decide +kernel
  rw [hreturned] at hcount
  exact ⟨by decide +kernel, hreturned, hcount.symm, hall.1, by decide +kernel, by decide +kernel⟩

end Mineshaft.Core.Relay
