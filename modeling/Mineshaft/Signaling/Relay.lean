import Mineshaft.Client.Signals
import Mineshaft.Server.Queues
import Mineshaft.Server.Sessions

namespace Mineshaft.Signaling

open Mineshaft.Core Mineshaft.Lib Mineshaft.Lib.Transition
open Mineshaft.Client (GameSignal JoinConns MessagePacket forwardSignal injectSignal parseU64)
open Mineshaft.Server (ConnId Consumes)

inductive Side
  | joiner
  | host
  deriving DecidableEq

def Side.other : Side → Side
  | .joiner => .host
  | .host => .joiner

/-- A join of one game into another: the connections of the two nodes, the ids
of the nodes and of their games, the id under which the host is registered,
and the connection id that the joining game chose. -/
structure Pairing where
  conn : Side → ConnId
  networkId : Side → UInt64
  game : Side → UInt64
  target : UInt64
  connection : UInt64
  conn_ne : conn .joiner ≠ conn .host
  game_ne : ∀ side, game side ≠ networkId side
  target_ne : target ≠ 0

def Pairing.localGameId (p : Pairing) : Side → Option UInt64
  | .joiner => none
  | .host => some (p.game .host)

def Pairing.side (p : Pairing) (c : ConnId) : Option Side :=
  if c = p.conn .joiner then some .joiner else if c = p.conn .host then some .host else none

def Pairing.IsPeer (p : Pairing) (c : ConnId) : Prop := ∃ side, c = p.conn side

/-- A node as far as signals go: the connections it recorded, the signal that
its forward task is about to write, the frames on their way to the server, how
many frames of the server its reader task has processed, and the packets built
for its game, with the connection ids that they are for. -/
structure Peer where
  joinConns : JoinConns
  forwarding : Option ClientMessage
  wire : List ClientMessage
  received : Nat
  packets : List (UInt64 × MessagePacket)

def Peer.init : Peer := ⟨∅, none, [], 0, []⟩

structure Relay where
  server : Server.State
  peer : Side → Peer

def Relay.init : Relay := ⟨Server.State.init, fun _ => Peer.init⟩

inductive Label
  | forward (side : Side) (signal : GameSignal) (target : Option UInt64)
  | write (side : Side) (ok : Bool)
  | other (side : Side) (msg : ClientMessage)
  | receive (side : Side)
  | server (l : Server.Label)

def isSignal : ClientMessage → Bool
  | .signal _ _ _ _ => true
  | .registerHost _ | .unregisterHost _ | .listHosts | .connectRequest _ _ | .ping | .updateHost _ =>
    false

/-- The packet that the reader task builds of a frame of the server. -/
def Peer.inject (q : Peer) (localGameId : Option UInt64) : ServerMessage → List (UInt64 × MessagePacket)
  | .signal connectionId joinerNetworkId data =>
    ((injectSignal localGameId q.joinConns connectionId joinerNetworkId data).map
      (fun packet => (connectionId, packet))).toList
  | .registered _ | .hostList _ | .incomingJoin _ _ | .joinAccepted _ | .pong | .error _ => []

namespace Relay

def setPeer (w : Relay) (side : Side) (q : Peer) : Relay :=
  { w with peer := Function.update w.peer side q }

def next (w : Relay) (c : ConnId) (received : Nat) : Option ServerMessage :=
  (w.server.conns c).bind (fun k =>
    if received < k.taken then (k.queue[received]?).map (fun x => x.msg) else none)

section Steps

variable (p : Pairing)

def serverStep (w : Relay) (l : Server.Label) : Option Relay :=
  let r := Server.step w.server l
  match l with
  | .read c msg =>
    match p.side c with
    | some side =>
      match (w.peer side).wire with
      | next :: rest =>
        if next = msg then
          r.map (fun s => { w with server := s }.setPeer side { w.peer side with wire := rest })
        else none
      | [] => none
    | none => r.map (fun s => { w with server := s })
  | _ => r.map (fun s => { w with server := s })

/-- One step of the two nodes and the server. A signal is recorded in one step
of the forward task and written, or lost with its write, in the next. -/
def step (w : Relay) : Label → Option Relay
  | .forward side signal target =>
    if (w.peer side).forwarding.isNone then
      match forwardSignal (p.networkId side) (p.localGameId side) (w.peer side).joinConns signal
          target with
      | some (joinConns, msg) => some (w.setPeer side
          { w.peer side with joinConns := joinConns, forwarding := some msg })
      | none => some w
    else none
  | .write side ok =>
    match (w.peer side).forwarding with
    | some msg => some (w.setPeer side { w.peer side with
        forwarding := none
        wire := if ok then (w.peer side).wire ++ [msg] else (w.peer side).wire })
    | none => none
  | .other side msg =>
    if isSignal msg then none
    else some (w.setPeer side { w.peer side with wire := (w.peer side).wire ++ [msg] })
  | .receive side =>
    (w.next (p.conn side) (w.peer side).received).map (fun msg => w.setPeer side { w.peer side with
      received := (w.peer side).received + 1
      packets := (w.peer side).packets ++ (w.peer side).inject (p.localGameId side) msg })
  | .server l => w.serverStep p l

def machine : Machine Relay Label := ⟨Relay.init, step p⟩

end Steps

end Relay

abbrev Event := Transition.Event Relay Label

variable {p : Pairing}

theorem side_eq_some {c : ConnId} {side : Side} : p.side c = some side ↔ c = p.conn side := by
  have hne := p.conn_ne
  unfold Pairing.side
  cases side with
  | joiner => split <;> simp_all
  | host =>
    split
    next hc => simp [hc, hne]
    · split <;> simp_all

theorem side_eq_none {c : ConnId} : p.side c = none ↔ ∀ side, c ≠ p.conn side := by
  rw [Option.eq_none_iff_forall_ne_some]
  exact forall_congr' (fun side => not_congr side_eq_some)

theorem conn_inj {side side' : Side} (h : p.conn side = p.conn side') : side = side' := by
  have hs : p.side (p.conn side) = some side' := side_eq_some.mpr h
  rw [side_eq_some.mpr rfl] at hs
  exact Option.some.inj hs

@[simp] theorem setPeer_server (w : Relay) (side : Side) (q : Peer) :
    (w.setPeer side q).server = w.server := rfl

@[simp] theorem setPeer_peer (w : Relay) (side : Side) (q : Peer) :
    (w.setPeer side q).peer = Function.update w.peer side q := rfl

theorem serverStep_iff {w w' : Relay} {l : Server.Label} (h : w.serverStep p l = some w') :
    Server.step w.server l = some w'.server ∧ ∀ side, ∃ wire,
      w'.peer side = { w.peer side with wire := wire } ∧
      (l.conn = p.conn side → Consumes l (w.peer side).wire wire) ∧
      (l.conn ≠ p.conn side → wire = (w.peer side).wire) := by
  unfold Relay.serverStep at h
  dsimp only at h
  split at h
  next c msg =>
    split at h
    next side hc =>
      split at h
      next next rest hw =>
        split at h
        next he =>
          subst he
          obtain ⟨s', hs, rfl⟩ := Option.map_eq_some_iff.mp h
          refine ⟨hs, fun side' => ?_⟩
          obtain rfl := side_eq_some.mp hc
          by_cases he : side' = side
          · subst he
            exact ⟨rest, by simp, fun _ => Or.inl ⟨next, rfl, hw⟩, fun hn => absurd rfl hn⟩
          · exact ⟨(w.peer side').wire, by simp [he], fun hn => absurd (conn_inj hn).symm he,
              fun _ => rfl⟩
        · cases h
      · cases h
    next hc =>
      obtain ⟨s', hs, rfl⟩ := Option.map_eq_some_iff.mp h
      exact ⟨hs, fun side => ⟨_, rfl, fun hn => absurd hn (side_eq_none.mp hc side), fun _ => rfl⟩⟩
  next hl =>
    obtain ⟨s', hs, rfl⟩ := Option.map_eq_some_iff.mp h
    exact ⟨hs, fun side => ⟨_, rfl, fun _ => Or.inr ⟨fun msg => hl l.conn msg, rfl⟩, fun _ => rfl⟩⟩

def serverEvents (h : List Event) : List Server.Event :=
  h.filterMap (fun e =>
    match e.label with
    | .server l => some ⟨e.pre.server, l⟩
    | .forward _ _ _ | .write _ _ | .other _ _ | .receive _ => none)

/-- No connection shares its address with an unfinished one when one of the two
is that of a node. -/
def OwnAddrs (p : Pairing) (h : List Event) : Prop :=
  ∀ e ∈ serverEvents h, Server.FreshFor p.IsPeer e.pre.view e.label

theorem step_server {w w' : Relay} {l : Label} (hl : ∀ k, l ≠ .server k)
    (hs : w.step p l = some w') : w'.server = w.server := by
  cases l with
  | server l => exact absurd rfl (hl l)
  | forward side signal target =>
    simp only [Relay.step] at hs
    split at hs
    · split at hs <;> cases hs <;> rfl
    · cases hs
  | write side ok =>
    simp only [Relay.step] at hs
    split at hs <;> cases hs
    rfl
  | other side msg =>
    simp only [Relay.step] at hs
    split at hs <;> cases hs
    rfl
  | receive side =>
    obtain ⟨msg, -, rfl⟩ := Option.map_eq_some_iff.mp hs
    rfl

theorem server_run {h : List Event} {w : Relay} (hr : Run (Relay.machine p) h w) :
    Server.Run (serverEvents h) w.server := by
  refine hr.project (fun w : Relay => w.server) _ rfl ?_
  intro w l w' hs
  have hs : w.step p l = some w' := hs
  cases l with
  | server l => exact Or.inl ⟨l, rfl, (serverStep_iff hs).1⟩
  | forward | write | other | receive => exact Or.inr ⟨rfl, step_server (by simp) hs⟩

end Mineshaft.Signaling
