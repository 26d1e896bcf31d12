import Mineshaft.Core.Discovery
import Mineshaft.Server.Registry

namespace Mineshaft.Client

open Mineshaft.Core Mineshaft.Lib
open Mineshaft.Server (ConnId)

inductive GameState
  | closed
  | browsing
  | hosting
  deriving DecidableEq

abbrev World := UInt64 × ServerAdvertisement

/-- `detect_game_state` from the result of `udp_port_bound` and, where the port
is bound, of `probe_host_server_data`. -/
def detectGameState (portBound : Except Unit Bool) (world : Option World) :
    GameState × Option World :=
  match portBound with
  | .ok true =>
    match world with
    | some w => (.hosting, some w)
    | none => (.browsing, none)
  | .ok false => (.closed, none)
  | .error _ => (.closed, none)

def paddedHex (n : UInt64) : String :=
  String.ofList (List.replicate (16 - (lowerHex n).toList.length) '0' ++ (lowerHex n).toList)

/-- Where the main loop stands, at the calls that it waits for. It sends
`UnregisterHost` at `closing` in the `Closed` arm and at `leaving` in the
`Browsing` arm. -/
inductive Pc
  | top
  | connecting
  | detecting
  | closing
  | leaving
  | publishing (ad : ServerAdvertisement)
  | fetching
  | awaiting
  | heartbeat
  | pinging
  deriving DecidableEq

/-- The variables of the main loop. Connections stand for their writers and
for the abort handles of their reader tasks. -/
structure Node where
  pc : Pc
  server : Option ConnId
  serverWriter : Option ConnId
  readerTask : Option ConnId
  hostingRegistered : Bool
  registeredAdvertisement : Option ServerAdvertisement
  advertisedCount : Nat
  localGameId : Option UInt64
  discovery : Advertised

def Node.init : Node := ⟨.top, none, none, none, false, none, 0, none, ∅⟩

/-- One resumption of the main loop, with what the call it waited for gave: the
liveness of the connection, a new stream, the probes of the game, the success
of a write, the fetched hosts, and whether a ping is due. -/
inductive Label
  | top (readerDead silent : Bool)
  | connect (stream : Option ConnId)
  | detect (portBound : Except Unit Bool) (world : Option World)
  | write (ok : Bool)
  | fetched (hosts : Option (List AdvertisedServer))
  | beat (pingDue : Bool)

/-- `send_or_drop`: the connection that is left, and the frame that was written. -/
def sendOrDrop (server : Option ConnId) (msg : ClientMessage) (ok : Bool) :
    Option ConnId × Option (ConnId × ClientMessage) :=
  match server with
  | some c => if ok then (some c, some (c, msg)) else (none, none)
  | none => (none, none)

section Loop

variable (myNetworkId : UInt64)
variable (buildResponsePacket : UInt64 → ServerAdvertisement → Option (List UInt8))

def Node.reap (n : Node) : Node :=
  if n.server.isNone ∧ n.readerTask.isSome then
    { n with readerTask := none, serverWriter := none }
  else n

def Node.clearAdvertised (n : Node) : Node :=
  if n.advertisedCount > 0 then
    { n with discovery := n.discovery.replaceAll buildResponsePacket [], advertisedCount := 0 }
  else n

def worldAdvertisement (world : Option World) : ServerAdvertisement :=
  (world.map (fun w => w.2)).getD
    { (default : ServerAdvertisement) with sessionId := paddedHex myNetworkId }

/-- The match on the detected state, up to the first write. -/
def Node.enter (n : Node) : GameState × Option World → Node
  | (.closed, _) =>
    if n.hostingRegistered then { n with pc := .closing }
    else { n.clearAdvertised buildResponsePacket with pc := .heartbeat }
  | (.hosting, world) =>
    let n := { n with localGameId := (world.map (fun w : World => w.1)).or n.localGameId }
    let ad := worldAdvertisement myNetworkId world
    if n.hostingRegistered = false ∨ n.registeredAdvertisement ≠ some ad then
      let n := n.clearAdvertised buildResponsePacket
      { n with
        discovery := n.discovery.updateHost buildResponsePacket myNetworkId ad
        pc := .publishing ad }
    else { n with pc := .heartbeat }
  | (.browsing, _) =>
    if n.hostingRegistered then { n with pc := .leaving }
    else { n with pc := .fetching }

def Node.unregistered (n : Node) : Node :=
  { n with hostingRegistered := false, registeredAdvertisement := none, localGameId := none }

/-- The loop after the pending write, with the frame that it wrote. -/
def Node.write (n : Node) (ok : Bool) : Option (Node × Option (ConnId × ClientMessage)) :=
  match n.pc with
  | .closing =>
    let r := sendOrDrop n.server (.unregisterHost myNetworkId) ok
    let n := { n with server := r.1 }.unregistered
    some ({ n.clearAdvertised buildResponsePacket with pc := .heartbeat }, r.2)
  | .leaving =>
    let r := sendOrDrop n.server (.unregisterHost myNetworkId) ok
    some ({ { n with server := r.1 }.unregistered with pc := .fetching }, r.2)
  | .publishing ad =>
    let message : AdvertisedServer := ⟨myNetworkId, ad⟩
    let r := sendOrDrop n.server
      (if n.hostingRegistered then .updateHost message else .registerHost message) ok
    some ({ n with
      server := r.1
      hostingRegistered := r.1.isSome
      registeredAdvertisement := if r.1.isSome then some ad else none
      pc := .heartbeat }, r.2)
  | .fetching =>
    let r := sendOrDrop n.server .listHosts ok
    some ({ n with server := r.1, pc := if r.1.isSome then .awaiting else .heartbeat }, r.2)
  | .pinging =>
    let r := sendOrDrop n.server .ping ok
    some ({ n with server := r.1, pc := .top }, r.2)
  | _ => none

/-- One step of the main loop. -/
def Node.step (n : Node) : Label → Option (Node × Option (ConnId × ClientMessage))
  | .top readerDead silent =>
    if n.pc = .top then
      if n.server.isSome then
        if readerDead || silent then some ({ n.reap with server := none }, none)
        else some ({ n.reap with pc := .detecting }, none)
      else some ({ n.reap with pc := .connecting }, none)
    else none
  | .connect stream =>
    if n.pc = .connecting then
      match stream with
      | some c => some ({ n with
          serverWriter := some c
          readerTask := some c
          server := some c
          hostingRegistered := false
          registeredAdvertisement := none
          pc := .detecting }, none)
      | none => some ({ n with pc := .top }, none)
    else none
  | .detect portBound world =>
    if n.pc = .detecting then
      some (n.enter myNetworkId buildResponsePacket (detectGameState portBound world), none)
    else none
  | .write ok => n.write myNetworkId buildResponsePacket ok
  | .fetched hosts =>
    if n.pc = .awaiting then
      match hosts with
      | some hosts =>
        let discovery := n.discovery.replaceAll buildResponsePacket hosts
        some ({ n with
          discovery := discovery
          advertisedCount := discovery.advertised.length
          pc := .heartbeat }, none)
      | none => some ({ n with server := none, pc := .heartbeat }, none)
    else none
  | .beat pingDue =>
    if n.pc = .heartbeat then
      some ({ n with pc := if n.server.isSome && pingDue then .pinging else .top }, none)
    else none

end Loop

end Mineshaft.Client
