import Mineshaft.Client.Belief
import Mineshaft.Server.Tasks

namespace Mineshaft.Hosting

open Mineshaft.Core Mineshaft.Lib Mineshaft.Lib.Transition
open Mineshaft.Client (Node hostId applied)
open Mineshaft.Server (ConnId)

/-- One node and the server. The connections that the node has opened each have
a wire with the frames that were written and not yet read. -/
structure Net where
  node : Node
  server : Server.State
  opened : List ConnId
  wire : ConnId → List ClientMessage

def Net.init : Net := ⟨Node.init, Server.State.init, [], fun _ => []⟩

inductive Label
  | node (l : Client.Label)
  | forward (c : ConnId) (targetSenderId connectionId joinerNetworkId : UInt64) (data : String)
  | server (l : Server.Label)

namespace Net

def put (w : Net) (c : ConnId) (msg : ClientMessage) : Net :=
  { w with wire := Function.update w.wire c (w.wire c ++ [msg]) }

def setNode (w : Net) (r : Node × Option (ConnId × ClientMessage)) : Net :=
  match r.2 with
  | some (c, msg) => { w with node := r.1 }.put c msg
  | none => { w with node := r.1 }

section Steps

variable (myNetworkId : UInt64)
variable (buildResponsePacket : UInt64 → ServerAdvertisement → Option (List UInt8))

/-- The main loop. A new stream is a connection that nobody has used. -/
def nodeStep (w : Net) (l : Client.Label) : Option Net :=
  let r := w.node.step myNetworkId buildResponsePacket l
  match l with
  | .connect (some c) =>
    if c ∈ w.opened ∨ (w.server.conns c).isSome then none
    else r.map (fun r => { w.setNode r with opened := c :: w.opened })
  | _ => r.map w.setNode

/-- The server. It reads the frames of the node in the order of their wire.
No other client sends a host message with the id of the node. -/
def serverStep (w : Net) (l : Server.Label) : Option Net :=
  let r := Server.step w.server l
  match l with
  | .read c msg =>
    if c ∈ w.opened then
      match w.wire c with
      | next :: rest =>
        if next = msg then
          r.map (fun s => { w with server := s, wire := Function.update w.wire c rest })
        else none
      | [] => none
    else if hostId msg = some myNetworkId then none
    else r.map (fun s => { w with server := s })
  | _ => r.map (fun s => { w with server := s })

/-- One step. The forward task may still hold the writer of a connection that
the main loop has dropped. -/
def step (w : Net) : Label → Option Net
  | .node l => w.nodeStep myNetworkId buildResponsePacket l
  | .forward c targetSenderId connectionId joinerNetworkId data =>
    if c ∈ w.opened then
      some (w.put c (.signal targetSenderId connectionId joinerNetworkId data))
    else none
  | .server l => w.serverStep myNetworkId l

def machine : Transition.Machine Net Label := ⟨Net.init, step myNetworkId buildResponsePacket⟩

end Steps

end Net

abbrev Event := Transition.Event Net Label

variable {id : UInt64} {buildResponsePacket : UInt64 → ServerAdvertisement → Option (List UInt8)}

theorem serverStep_iff {w w' : Net} {l : Server.Label}
    (h : w.serverStep id l = some w') :
    ∃ s', Server.step w.server l = some s' ∧
      ((∃ c msg rest, l = .read c msg ∧ c ∈ w.opened ∧ w.wire c = msg :: rest ∧
          w' = { w with server := s', wire := Function.update w.wire c rest }) ∨
        (∀ c msg, l = .read c msg → c ∉ w.opened ∧ hostId msg ≠ some id) ∧
          w' = { w with server := s' }) := by
  unfold Net.serverStep at h
  dsimp only at h
  split at h
  next c msg =>
    split at h
    next hc =>
      split at h
      next next rest hw =>
        split at h
        next he =>
          subst he
          obtain ⟨s', hs, rfl⟩ := Option.map_eq_some_iff.mp h
          exact ⟨s', hs, Or.inl ⟨c, next, rest, rfl, hc, hw, rfl⟩⟩
        · cases h
      · cases h
    next hc =>
      split at h
      · cases h
      next hid =>
        obtain ⟨s', hs, rfl⟩ := Option.map_eq_some_iff.mp h
        refine ⟨s', hs, Or.inr ⟨?_, rfl⟩⟩
        rintro c' msg' he
        cases he
        exact ⟨hc, hid⟩
  next hl =>
    obtain ⟨s', hs, rfl⟩ := Option.map_eq_some_iff.mp h
    exact ⟨s', hs, Or.inr ⟨fun c msg he => absurd he (hl c msg), rfl⟩⟩

theorem nodeStep_iff {w w' : Net} {l : Client.Label}
    (h : w.nodeStep id buildResponsePacket l = some w') :
    ∃ n' out, w.node.step id buildResponsePacket l = some (n', out) ∧
      ((∃ c, l = .connect (some c) ∧ c ∉ w.opened ∧ w.server.conns c = none ∧
          w' = { w.setNode (n', out) with opened := c :: w.opened }) ∨
        (∀ c, l ≠ .connect (some c)) ∧ w' = w.setNode (n', out)) := by
  unfold Net.nodeStep at h
  dsimp only at h
  split at h
  next c =>
    split at h
    · cases h
    next hf =>
      push Not at hf
      obtain ⟨⟨n', out⟩, hn, rfl⟩ := Option.map_eq_some_iff.mp h
      exact ⟨n', out, hn, Or.inl ⟨c, rfl, hf.1, by simpa using hf.2, rfl⟩⟩
  next hl =>
    obtain ⟨⟨n', out⟩, hn, rfl⟩ := Option.map_eq_some_iff.mp h
    exact ⟨n', out, hn, Or.inr ⟨hl, rfl⟩⟩

theorem setNode_server (w : Net) (r : Node × Option (ConnId × ClientMessage)) :
    (w.setNode r).server = w.server ∧ (w.setNode r).opened = w.opened ∧ (w.setNode r).node = r.1 := by
  unfold Net.setNode
  split <;> exact ⟨rfl, rfl, rfl⟩

def serverEvents (h : List Event) : List Server.Event :=
  h.filterMap (fun e =>
    match e.label with
    | .server l => some ⟨e.pre.server, l⟩
    | .node _ | .forward _ _ _ _ _ => none)

theorem serverEvents_cons (e : Event) (h : List Event) :
    serverEvents h ⊆ serverEvents (e :: h) := by
  intro a ha
  obtain ⟨e', he', h'⟩ := List.mem_filterMap.mp ha
  exact List.mem_filterMap.mpr ⟨e', List.mem_cons_of_mem _ he', h'⟩

theorem server_run {h : List Event} {w : Net}
    (hr : Run (Net.machine id buildResponsePacket) h w) :
    Server.Run (serverEvents h) w.server := by
  refine hr.project (fun w : Net => w.server) _ rfl ?_
  intro w l w' hs
  cases l with
  | node l =>
    obtain ⟨n', out, -, ⟨c, -, -, -, rfl⟩ | ⟨-, rfl⟩⟩ := nodeStep_iff hs
    · exact Or.inr ⟨rfl, (setNode_server w (n', out)).1⟩
    · exact Or.inr ⟨rfl, (setNode_server w (n', out)).1⟩
  | forward c t i n d =>
    change (if c ∈ w.opened then _ else none) = some w' at hs
    split at hs <;> cases hs
    exact Or.inr ⟨rfl, rfl⟩
  | server l =>
    obtain ⟨s', hstep, ⟨_, _, _, _, _, _, rfl⟩ | ⟨_, rfl⟩⟩ := serverStep_iff hs
    · exact Or.inl ⟨l, rfl, hstep⟩
    · exact Or.inl ⟨l, rfl, hstep⟩

end Mineshaft.Hosting
