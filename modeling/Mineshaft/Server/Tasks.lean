import Mineshaft.Lib.Transition
import Mineshaft.Server.Registry

namespace Mineshaft.Server

open Mineshaft.Core Mineshaft.Lib

/-- Where the task of a connection stands between two acquisitions of the
registry lock. Calls of `send_to` that are still to be made are listed. -/
inductive Task
  | spawned
  | reading
  | handling (msg : ClientMessage)
  | connecting (host : SocketAddr) (joinerNetworkId : UInt64)
  | sending (next : SocketAddr × ServerMessage) (rest : List (SocketAddr × ServerMessage))
  | returned
  | finished
  deriving DecidableEq

/-- One queued message. The origin is the connection whose handler enqueued
it; the program does not store it. -/
structure Entry where
  origin : ConnId
  msg : ServerMessage
  deriving DecidableEq

/-- A connection: its task, and the channel to its writer task. The queue
keeps every enqueued message, of which the writer has written `taken`. -/
structure Conn where
  addr : SocketAddr
  task : Task
  rxOpen : Bool
  queue : List Entry
  taken : Nat

structure State where
  reg : Registry
  conns : ConnId → Option Conn

namespace State

def init : State := ⟨Registry.init, fun _ => none⟩

def modify (s : State) (c : ConnId) (f : Conn → Conn) : State :=
  { s with conns := fun d => if d = c then (s.conns d).map f else s.conns d }

def setTask (s : State) (c : ConnId) (t : Task) : State := s.modify c (fun k => { k with task := t })

def enqueue (s : State) (d c : ConnId) (msg : ServerMessage) : State :=
  s.modify d (fun k => if k.rxOpen then { k with queue := k.queue ++ [⟨c, msg⟩] } else k)

def sendTo (s : State) (c : ConnId) (dest : SocketAddr) (msg : ServerMessage) : State :=
  match s.reg.clients.lookup dest with
  | some client => s.enqueue client.tx c msg
  | none => s

end State

/-- The task after the given calls of `send_to` remain. -/
def afterSends : List (SocketAddr × ServerMessage) → Task
  | [] => .reading
  | next :: rest => .sending next rest

/-- One message up to its first release of the registry lock. The reply to
`ListHosts` depends on an iteration order and is a step of its own. -/
def handle (reg : Registry) (addr : SocketAddr) : ClientMessage → Option (Registry × Task)
  | .ping => some (reg, afterSends [(addr, .pong)])
  | .registerHost server =>
    some (reg.registerHost addr server, afterSends [(addr, .registered server.senderId)])
  | .updateHost server => some (reg.updateHost addr server, afterSends [])
  | .unregisterHost senderId => some (reg.unregisterHost addr senderId, afterSends [])
  | .listHosts => none
  | .connectRequest targetSenderId joinerNetworkId =>
    match reg.hosts.lookup targetSenderId with
    | some host => some (reg, .connecting host joinerNetworkId)
    | none =>
      some (reg, afterSends [(addr, .error ("no such host: 0x" ++ lowerHex targetSenderId))])
  | .signal targetSenderId connectionId joinerNetworkId data =>
    some (reg.routeSignal addr targetSenderId connectionId,
      match reg.routeDest targetSenderId connectionId with
      | some dest => afterSends [(dest, .signal connectionId joinerNetworkId data)]
      | none => afterSends [])

inductive Label
  | accept (c : ConnId) (addr : SocketAddr)
  | insert (c : ConnId)
  | read (c : ConnId) (msg : ClientMessage)
  | handle (c : ConnId) (msg : ClientMessage)
  | listHosts (c : ConnId) (hosts : List AdvertisedServer)
  | openSession (c : ConnId) (host : SocketAddr) (joinerNetworkId : UInt64)
  | sendTo (c : ConnId) (dest : SocketAddr) (msg : ServerMessage)
  | leave (c : ConnId)
  | cleanup (c : ConnId)
  | write (c : ConnId)
  | closeRx (c : ConnId)
  deriving DecidableEq

def atTask (s : State) (c : ConnId) (t : Task) (f : Conn → Option State) : Option State :=
  match s.conns c with
  | some k => if k.task = t then f k else none
  | none => none

/-- One atomic step of the server: a critical section of the registry lock,
or a step that does not touch the registry. Reading can fail or time out at
any time, and the writer task can fail at any time. -/
def step (s : State) : Label → Option State
  | .accept c addr =>
    match s.conns c with
    | some _ => none
    | none => some { s with
        conns := fun d => if d = c then some ⟨addr, .spawned, true, [], 0⟩ else s.conns d }
  | .insert c => atTask s c .spawned fun k =>
    some ({ s with reg := s.reg.insertClient k.addr ⟨c⟩ }.setTask c .reading)
  | .read c msg => atTask s c .reading fun _ => some (s.setTask c (.handling msg))
  | .handle c msg => atTask s c (.handling msg) fun k =>
    (handle s.reg k.addr msg).map (fun r => { s with reg := r.1 }.setTask c r.2)
  | .listHosts c hosts => atTask s c (.handling .listHosts) fun k =>
    if hosts.Perm s.reg.hostRecords.values then
      some (s.setTask c (afterSends [(k.addr, .hostList hosts)]))
    else none
  | .openSession c host joinerNetworkId => atTask s c (.connecting host joinerNetworkId) fun k =>
    let sessionId := s.reg.nextSessionId
    some ({ s with reg := s.reg.openSession k.addr host }.setTask c
      (afterSends [(host, .incomingJoin joinerNetworkId sessionId),
        (k.addr, .joinAccepted sessionId)]))
  | .sendTo c dest msg =>
    match s.conns c with
    | some k =>
      match k.task with
      | .sending next rest =>
        if next = (dest, msg) then some ((s.sendTo c dest msg).setTask c (afterSends rest))
        else none
      | _ => none
    | none => none
  | .leave c => atTask s c .reading fun _ => some (s.setTask c .returned)
  | .cleanup c => atTask s c .returned fun k =>
    some ({ s with reg := s.reg.cleanup k.addr }.setTask c .finished)
  | .write c =>
    match s.conns c with
    | some k =>
      if k.rxOpen ∧ k.taken < k.queue.length then
        some (s.modify c (fun k => { k with taken := k.taken + 1 }))
      else none
    | none => none
  | .closeRx c =>
    match s.conns c with
    | some k => if k.rxOpen then some (s.modify c (fun k => { k with rxOpen := false })) else none
    | none => none

def machine : Transition.Machine State Label := ⟨State.init, step⟩

abbrev Event := Transition.Event State Label

abbrev Run := Transition.Run machine

theorem run_step {h : List Event} {s s' : State} {l : Label} (hr : Run h s)
    (hs : step s l = some s') : Run (⟨s, l⟩ :: h) s' :=
  Transition.Run.cons hr hs

end Mineshaft.Server
