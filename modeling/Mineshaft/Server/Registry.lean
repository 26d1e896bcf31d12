import Mineshaft.Core.Message
import Mineshaft.Lib.HashMap

namespace Mineshaft.Server

open Mineshaft.Core Mineshaft.Lib

/-- Accepted connections, told apart even when they share an address. -/
abbrev ConnId := Nat

structure ClientHandle where
  tx : ConnId
  deriving DecidableEq

structure Registry where
  clients : HashMap SocketAddr ClientHandle
  hosts : HashMap UInt64 SocketAddr
  hostRecords : HashMap UInt64 AdvertisedServer
  sessions : HashMap UInt64 (SocketAddr × SocketAddr)
  nextSessionId : UInt64

namespace Registry

def init : Registry := ⟨∅, ∅, ∅, ∅, 1⟩

def insertClient (reg : Registry) (addr : SocketAddr) (handle : ClientHandle) : Registry :=
  { reg with clients := reg.clients.insert addr handle }

def registerHost (reg : Registry) (addr : SocketAddr) (server : AdvertisedServer) : Registry :=
  { reg with
    hosts := reg.hosts.insert server.senderId addr
    hostRecords := reg.hostRecords.insert server.senderId server }

def updateHost (reg : Registry) (addr : SocketAddr) (server : AdvertisedServer) : Registry :=
  if reg.hosts.lookup server.senderId = some addr then
    { reg with hostRecords := reg.hostRecords.insert server.senderId server }
  else reg

def unregisterHost (reg : Registry) (addr : SocketAddr) (senderId : UInt64) : Registry :=
  if reg.hosts.lookup senderId = some addr then
    { reg with
      hosts := reg.hosts.erase senderId
      hostRecords := reg.hostRecords.erase senderId }
  else reg

/-- The second critical section of a connect request. The counter is a `u64`
that wraps, as in a release build. -/
def openSession (reg : Registry) (addr host : SocketAddr) : Registry :=
  { reg with
    nextSessionId := reg.nextSessionId + 1
    sessions := reg.sessions.insert reg.nextSessionId (addr, host) }

/-- The destination of a signal: the host of a target id, or the joiner of
the session for the target id 0. -/
def routeDest (reg : Registry) (targetSenderId connectionId : UInt64) : Option SocketAddr :=
  if targetSenderId ≠ 0 then reg.hosts.lookup targetSenderId
  else (reg.sessions.lookup connectionId).map (fun p => p.1)

/-- The registry after a signal is routed. A signal toward a host records the
pairing under its connection id. -/
def routeSignal (reg : Registry) (addr : SocketAddr) (targetSenderId connectionId : UInt64) :
    Registry :=
  if targetSenderId ≠ 0 then
    match reg.hosts.lookup targetSenderId with
    | some host => { reg with sessions := reg.sessions.insert connectionId (addr, host) }
    | none => reg
  else reg

/-- What the task of a connection does after `handle_client` has returned. -/
def cleanup (reg : Registry) (addr : SocketAddr) : Registry :=
  let orphaned := reg.hosts.keysWhere (fun a => decide (a = addr))
  { reg with
    clients := reg.clients.erase addr
    sessions := reg.sessions.retain (fun _ p => decide (p.1 ≠ addr ∧ p.2 ≠ addr))
    hosts := reg.hosts.removeAll orphaned
    hostRecords := reg.hostRecords.removeAll orphaned }

theorem registerHost_hosts (reg : Registry) (addr : SocketAddr) (server : AdvertisedServer)
    (id : UInt64) : (reg.registerHost addr server).hosts.lookup id =
      if id = server.senderId then some addr else reg.hosts.lookup id :=
  HashMap.lookup_insert_eq _ _ _ _

theorem registerHost_hostRecords (reg : Registry) (addr : SocketAddr) (server : AdvertisedServer)
    (id : UInt64) : (reg.registerHost addr server).hostRecords.lookup id =
      if id = server.senderId then some server else reg.hostRecords.lookup id :=
  HashMap.lookup_insert_eq _ _ _ _

theorem updateHost_hosts (reg : Registry) (addr : SocketAddr) (server : AdvertisedServer) :
    (reg.updateHost addr server).hosts = reg.hosts := by
  unfold updateHost
  split <;> rfl

theorem updateHost_hostRecords (reg : Registry) (addr : SocketAddr) (server : AdvertisedServer)
    (id : UInt64) : (reg.updateHost addr server).hostRecords.lookup id =
      if id = server.senderId ∧ reg.hosts.lookup id = some addr then some server
      else reg.hostRecords.lookup id := by
  unfold updateHost
  by_cases hi : id = server.senderId
  · subst hi
    split
    next ho => simp [ho]
    next ho => simp [ho]
  · split
    · simp [hi]
    · simp [hi]

theorem unregisterHost_hosts (reg : Registry) (addr : SocketAddr) (senderId id : UInt64) :
    (reg.unregisterHost addr senderId).hosts.lookup id =
      if id = senderId ∧ reg.hosts.lookup id = some addr then none else reg.hosts.lookup id := by
  unfold unregisterHost
  by_cases hi : id = senderId
  · subst hi
    split
    next ho => simp [ho]
    next ho => simp [ho]
  · split
    · simp [hi]
    · simp [hi]

theorem unregisterHost_hostRecords (reg : Registry) (addr : SocketAddr) (senderId id : UInt64) :
    (reg.unregisterHost addr senderId).hostRecords.lookup id =
      if id = senderId ∧ reg.hosts.lookup id = some addr then none
      else reg.hostRecords.lookup id := by
  unfold unregisterHost
  by_cases hi : id = senderId
  · subst hi
    split
    next ho => simp [ho]
    next ho => simp [ho]
  · split
    · simp [hi]
    · simp [hi]

theorem routeSignal_hosts (reg : Registry) (addr : SocketAddr) (target conn : UInt64) :
    (reg.routeSignal addr target conn).hosts = reg.hosts ∧
      (reg.routeSignal addr target conn).hostRecords = reg.hostRecords := by
  unfold routeSignal
  split
  · split <;> exact ⟨rfl, rfl⟩
  · exact ⟨rfl, rfl⟩

theorem cleanup_hosts (reg : Registry) (addr : SocketAddr) (id : UInt64) :
    (reg.cleanup addr).hosts.lookup id =
      if reg.hosts.lookup id = some addr then none else reg.hosts.lookup id := by
  change (HashMap.removeAll _ _).lookup id = _
  rw [HashMap.lookup_removeAll]
  simp only [HashMap.mem_keysWhere, decide_eq_true_eq, exists_eq_right]

theorem cleanup_hostRecords (reg : Registry) (addr : SocketAddr) (id : UInt64) :
    (reg.cleanup addr).hostRecords.lookup id =
      if reg.hosts.lookup id = some addr then none else reg.hostRecords.lookup id := by
  change (HashMap.removeAll _ _).lookup id = _
  rw [HashMap.lookup_removeAll]
  simp only [HashMap.mem_keysWhere, decide_eq_true_eq, exists_eq_right]

theorem cleanup_sessions (reg : Registry) (addr : SocketAddr) (id : UInt64)
    (p : SocketAddr × SocketAddr) :
    (reg.cleanup addr).sessions.lookup id = some p ↔
      reg.sessions.lookup id = some p ∧ p.1 ≠ addr ∧ p.2 ≠ addr := by
  change (HashMap.retain _ _).lookup id = some p ↔ _
  rw [HashMap.lookup_retain_eq_some, decide_eq_true_eq]

theorem cleanup_clients (reg : Registry) (addr a : SocketAddr) :
    (reg.cleanup addr).clients.lookup a = if a = addr then none else reg.clients.lookup a :=
  HashMap.lookup_erase_eq _ _ _

end Registry

end Mineshaft.Server
