import Mineshaft.Browsing.Worlds
import Mineshaft.Hosting.Quiet

namespace Mineshaft.Sharing

open Mineshaft.Core Mineshaft.Lib Mineshaft.Lib.Transition
open Mineshaft.Client (Node Session ReaderStep)
open Mineshaft.Server (ConnId)

/-- Two machines and the server: the node of the one is watched for the world
that its game hosts, and the other for the worlds that it offers to its game. -/
structure Net where
  host : Node
  opened : List ConnId
  hostWire : ConnId → List ClientMessage
  session : Session
  wire : ConnId → List ClientMessage
  server : Server.State

inductive Label
  | host (l : Client.Label)
  | hostForward (c : ConnId) (targetSenderId connectionId joinerNetworkId : UInt64) (data : String)
  | node (l : Client.Label) (now : Nat) (reached : Bool)
  | reader (c : ConnId) (r : ReaderStep)
  | forward (c : ConnId) (targetSenderId connectionId joinerNetworkId : UInt64) (data : String)
  | server (l : Server.Label)

abbrev Event := Transition.Event Net Label

namespace Net

def init : Net := ⟨Node.init, [], fun _ => [], Session.init, fun _ => [], Server.State.init⟩

/-- The network as the hosting node sees it, the other being any client. -/
def hosting (w : Net) : Hosting.Net := ⟨w.host, w.server, w.opened, w.hostWire⟩

def browsing (w : Net) : Browsing.Net := ⟨w.session, w.server, w.wire⟩

def setHosting (w : Net) (v : Hosting.Net) : Net :=
  { w with host := v.node, opened := v.opened, hostWire := v.wire, server := v.server }

def setBrowsing (w : Net) (v : Browsing.Net) : Net :=
  { w with session := v.session, wire := v.wire, server := v.server }

section Steps

variable (hostNetworkId myNetworkId : UInt64)
variable (buildResponsePacket : UInt64 → ServerAdvertisement → Option (List UInt8))

/-- One step. A new stream of the one node is no connection of the other, and a
frame is read from the wire of the node that wrote it. -/
def step (w : Net) : Label → Option Net
  | .host l =>
    if (Browsing.stream l).all (fun c => decide (c ∉ w.session.opened)) then
      (w.hosting.step hostNetworkId buildResponsePacket (.node l)).map w.setHosting
    else none
  | .hostForward c targetSenderId connectionId joinerNetworkId data =>
    (w.hosting.step hostNetworkId buildResponsePacket
      (.forward c targetSenderId connectionId joinerNetworkId data)).map w.setHosting
  | .node l now reached =>
    if (Browsing.stream l).all (fun c => decide (c ∉ w.opened)) then
      (w.browsing.step myNetworkId buildResponsePacket (.node l now reached)).map w.setBrowsing
    else none
  | .reader c r =>
    (w.browsing.step myNetworkId buildResponsePacket (.reader c r)).map w.setBrowsing
  | .forward c targetSenderId connectionId joinerNetworkId data =>
    (w.browsing.step myNetworkId buildResponsePacket
      (.forward c targetSenderId connectionId joinerNetworkId data)).map w.setBrowsing
  | .server l =>
    (w.hosting.step hostNetworkId buildResponsePacket (.server l)).bind (fun v =>
      (w.browsing.step myNetworkId buildResponsePacket (.server l)).map
        (fun u => (w.setHosting v).setBrowsing u))

def machine : Machine Net Label := ⟨init, step hostNetworkId myNetworkId buildResponsePacket⟩

end Steps

end Net

def hostingEvent (e : Event) : Option Hosting.Event :=
  match e.label with
  | .host l => some ⟨e.pre.hosting, .node l⟩
  | .hostForward c t i n data => some ⟨e.pre.hosting, .forward c t i n data⟩
  | .server l => some ⟨e.pre.hosting, .server l⟩
  | .node _ _ _ | .reader _ _ | .forward _ _ _ _ _ => none

def browsingEvent (e : Event) : Option Browsing.Event :=
  match e.label with
  | .node l now reached => some ⟨e.pre.browsing, .node l now reached⟩
  | .reader c r => some ⟨e.pre.browsing, .reader c r⟩
  | .forward c t i n data => some ⟨e.pre.browsing, .forward c t i n data⟩
  | .server l => some ⟨e.pre.browsing, .server l⟩
  | .host _ | .hostForward _ _ _ _ _ => none

def serverEvents (h : List Event) : List Server.Event :=
  h.filterMap (fun e =>
    match e.label with
    | .server l => some ⟨e.pre.server, l⟩
    | .host _ | .hostForward _ _ _ _ _ | .node _ _ _ | .reader _ _ | .forward _ _ _ _ _ => none)

variable {host id : UInt64} {build : UInt64 → ServerAdvertisement → Option (List UInt8)}
variable {h : List Event} {w w' : Net}

theorem hosting_step_server {v v' : Hosting.Net} {l : Hosting.Label}
    (hs : v.step host build l = some v') :
    (∃ k, l = .server k ∧ Server.step v.server k = some v'.server) ∨
      (∀ k, l ≠ .server k) ∧ v'.server = v.server := by
  cases l with
  | node l =>
    obtain ⟨n', out, -, ⟨c, -, -, -, rfl⟩ | ⟨-, rfl⟩⟩ := Hosting.nodeStep_iff hs
    · exact Or.inr ⟨by simp, (Hosting.setNode_server v (n', out)).1⟩
    · exact Or.inr ⟨by simp, (Hosting.setNode_server v (n', out)).1⟩
  | forward c t i n data =>
    change (if c ∈ v.opened then _ else none) = some v' at hs
    split at hs <;> cases hs
    exact Or.inr ⟨by simp, rfl⟩
  | server l =>
    obtain ⟨s', hstep, ⟨_, _, _, _, _, _, rfl⟩ | ⟨_, rfl⟩⟩ := Hosting.serverStep_iff hs
    · exact Or.inl ⟨l, rfl, hstep⟩
    · exact Or.inl ⟨l, rfl, hstep⟩

inductive Sees (host id : UInt64) (build : UInt64 → ServerAdvertisement → Option (List UInt8))
    (w w' : Net) : Label → Prop
  | hosting {l : Label} {k : Hosting.Label} : hostingEvent ⟨w, l⟩ = some ⟨w.hosting, k⟩ →
      browsingEvent ⟨w, l⟩ = none → w.hosting.step host build k = some w'.hosting →
      w'.browsing = w.browsing → Sees host id build w w' l
  | browsing {l : Label} {k : Browsing.Label} : hostingEvent ⟨w, l⟩ = none →
      browsingEvent ⟨w, l⟩ = some ⟨w.browsing, k⟩ →
      w.browsing.step id build k = some w'.browsing → w'.hosting = w.hosting →
      Sees host id build w w' l
  | server {l : Server.Label} : w.hosting.step host build (.server l) = some w'.hosting →
      w.browsing.step id build (.server l) = some w'.browsing →
      Server.step w.server l = some w'.server → Sees host id build w w' (.server l)

theorem hosting_step {k : Hosting.Label} (hk : ∀ m, k ≠ .server m)
    (hs : (w.hosting.step host build k).map w.setHosting = some w') :
    w.hosting.step host build k = some w'.hosting ∧ w'.browsing = w.browsing := by
  obtain ⟨v, hv, rfl⟩ := Option.map_eq_some_iff.mp hs
  obtain ⟨m, hm, -⟩ | ⟨-, hsrv⟩ := hosting_step_server hv
  · exact absurd hm (hk m)
  · refine ⟨hv, ?_⟩
    simp only [Net.browsing, Net.setHosting, hsrv]
    rfl

theorem browsing_step {k : Browsing.Label} (hk : ∀ m, k ≠ .server m)
    (hs : (w.browsing.step id build k).map w.setBrowsing = some w') :
    w.browsing.step id build k = some w'.browsing ∧ w'.hosting = w.hosting := by
  obtain ⟨v, hv, rfl⟩ := Option.map_eq_some_iff.mp hs
  obtain ⟨m, hm, -⟩ | ⟨-, hsrv⟩ := Browsing.step_server hv
  · exact absurd hm (hk m)
  · refine ⟨hv, ?_⟩
    simp only [Net.hosting, Net.setBrowsing, hsrv]
    rfl

theorem step_sees {l : Label} (hs : w.step host id build l = some w') :
    Sees host id build w w' l := by
  cases l with
  | host l =>
    simp only [Net.step] at hs
    split at hs
    · obtain ⟨hv, hb⟩ := hosting_step (by simp) hs
      exact Sees.hosting rfl rfl hv hb
    · cases hs
  | hostForward c t i n data =>
    obtain ⟨hv, hb⟩ := hosting_step (by simp) hs
    exact Sees.hosting rfl rfl hv hb
  | node l now reached =>
    simp only [Net.step] at hs
    split at hs
    · obtain ⟨hv, hb⟩ := browsing_step (by simp) hs
      exact Sees.browsing rfl rfl hv hb
    · cases hs
  | reader c r =>
    obtain ⟨hv, hb⟩ := browsing_step (by simp) hs
    exact Sees.browsing rfl rfl hv hb
  | forward c t i n data =>
    obtain ⟨hv, hb⟩ := browsing_step (by simp) hs
    exact Sees.browsing rfl rfl hv hb
  | server l =>
    obtain ⟨v, hv, hs⟩ := Option.bind_eq_some_iff.mp hs
    obtain ⟨u, hu, rfl⟩ := Option.map_eq_some_iff.mp hs
    -- both nodes see the same server take the same step
    obtain ⟨k, hk, hv'⟩ | ⟨hk, -⟩ := hosting_step_server hv
    · obtain ⟨k', hk', hu'⟩ | ⟨hk', -⟩ := Browsing.step_server hu
      · cases hk
        cases hk'
        have he : v.server = u.server := Option.some.inj (hv'.symm.trans hu')
        refine Sees.server ?_ hu hu'
        rw [hv]
        simp only [Net.hosting, Net.setHosting, Net.setBrowsing, ← he]
      · exact absurd rfl (hk' l)
    · exact absurd rfl (hk l)

theorem hosting_run (hr : Run (Net.machine host id build) h w) :
    Run (Hosting.Net.machine host build) (h.filterMap hostingEvent) w.hosting := by
  refine hr.project Net.hosting hostingEvent rfl ?_
  intro w l w' hs
  cases step_sees hs with
  | hosting he _ hstep _ => exact Or.inl ⟨_, he, hstep⟩
  | browsing he _ _ hsame => exact Or.inr ⟨he, hsame⟩
  | server hstep _ _ => exact Or.inl ⟨_, rfl, hstep⟩

theorem browsing_run (hr : Run (Net.machine host id build) h w) :
    Run (Browsing.Net.machine id build) (h.filterMap browsingEvent) w.browsing := by
  refine hr.project Net.browsing browsingEvent rfl ?_
  intro w l w' hs
  cases step_sees hs with
  | hosting _ he _ hsame => exact Or.inr ⟨he, hsame⟩
  | browsing _ he hstep _ => exact Or.inl ⟨_, he, hstep⟩
  | server _ hstep _ => exact Or.inl ⟨_, rfl, hstep⟩

theorem serverEvents_hosting (h : List Event) :
    Hosting.serverEvents (h.filterMap hostingEvent) = serverEvents h := by
  rw [Hosting.serverEvents, serverEvents, List.filterMap_filterMap]
  congr 1
  funext e
  obtain ⟨w, l⟩ := e
  cases l <;> rfl

theorem serverEvents_browsing (h : List Event) :
    Browsing.serverEvents (h.filterMap browsingEvent) = serverEvents h := by
  rw [Browsing.serverEvents, serverEvents, List.filterMap_filterMap]
  congr 1
  funext e
  obtain ⟨w, l⟩ := e
  cases l <;> rfl

end Mineshaft.Sharing
