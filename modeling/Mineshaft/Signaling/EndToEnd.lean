import Mineshaft.Signaling.Carried

namespace Mineshaft.Signaling

open Mineshaft.Core Mineshaft.Lib Mineshaft.Lib.Transition
open Mineshaft.Client (GameSignal JoinConns MessagePacket forwardSignal parseU64)

def lines (p : Pairing) (side : Side) (h : List Event) : List String :=
  (written p side h).map (fun x => x.2)

/-- Nothing that a node wrote is under way: its wire is empty, its handler has
nothing to process or to send, and the other node has read its whole queue. -/
structure Drained (p : Pairing) (w : Relay) (side : Side) : Prop where
  wire : (w.peer side).wire = []
  handled : (w.server.task (p.conn side)).bind Server.handled = none
  outgoing : w.server.outgoing (p.conn side) = []
  received : (w.peer side.other).received = (w.server.queue (p.conn side.other)).length

variable {p : Pairing} {w : Relay} {h : List Event}

/-- The packets built at one node are those of what the other node wrote, less
what was dropped and what is under way. -/
theorem Carried.arrived (hc : Carried p h w) (side : Side) :
    (w.peer side.other).packetsFor p.connection <+:
        ((written p side h).drop (unrouted p side h).length).map (p.present side.other) ∧
      (Drained p w side → (w.peer side.other).packetsFor p.connection =
        ((written p side h).drop (unrouted p side h).length).map (p.present side.other)) := by
  have hdrop : (written p side h).drop (unrouted p side h).length =
      relays p.connection (inbox w.server (p.conn side.other)) ++
        upstream p.connection w.server (p.conn side) (w.peer side).wire := by
    rw [hc.flow side, List.append_assoc, List.drop_left]
  rw [hdrop, hc.packets side.other]
  constructor
  · refine List.IsPrefix.map _ (List.IsPrefix.trans ?_ (List.prefix_append _ _))
    exact List.IsPrefix.filterMap _ (List.take_prefix _ _)
  · intro hd
    have hlen : (w.peer side.other).received = (inbox w.server (p.conn side.other)).length := by
      rw [hd.received, inbox, List.length_map]
    have hup : upstream p.connection w.server (p.conn side) (w.peer side).wire = [] := by
      simp [upstream, hd.wire, hd.handled, hd.outgoing]
    rw [hlen, List.take_length, hup, List.append_nil]

theorem Carried.present_host (hc : Carried p h w) :
    (written p .joiner h).map (p.present .host) =
      (lines p .joiner h).map (MessagePacket.mk (p.networkId .joiner) (p.game .host)) := by
  rw [lines, List.map_map]
  apply List.map_congr_left
  intro x hx
  rw [Pairing.present, hc.named .joiner x hx]
  rfl

theorem present_joiner (xs : List (UInt64 × String)) :
    xs.map (p.present .joiner) =
      (xs.map (fun x => x.2)).map (MessagePacket.mk p.target (p.game .joiner)) :=
  (List.map_map ..).symm

theorem forwardSignal_isSome (p : Pairing) (side : Side) (joins : JoinConns) (signal : GameSignal)
    (hg : parseU64 signal.networkId = some (p.game side)) :
    (forwardSignal (p.networkId side) (p.localGameId side) joins signal
      (p.joinTarget side)).isSome := by
  have hne := p.game_ne side
  cases side with
  | joiner => simp [forwardSignal, hg, hne, Pairing.joinTarget]
  | host => simp [forwardSignal, hg, hne, Pairing.joinTarget, Pairing.localGameId]

/-- For every interleaving of the two nodes, the server and its other clients,
the packets for the connection built at the host are a prefix of the lines that
the joiner wrote for it, with the joiner as the sender and the game of the host
as the recipient, and all of them once nothing is under way. At the joiner they
are in the same way the lines of the host, with the advertised server as the
sender, from the first line that finds the session on; that is the first line
of all when the host only answers. Neither node skips a signal of its game. -/
theorem signaling_end_to_end (hr : Run (Relay.machine p) h w) (hd : OwnAddrs p h)
    (hset : ∀ e ∈ h, Setting p e) :
    ((w.peer .host).packetsFor p.connection <+: (lines p .joiner h).map
        (MessagePacket.mk (p.networkId .joiner) (p.game .host)) ∧
      (Drained p w .joiner → (w.peer .host).packetsFor p.connection = (lines p .joiner h).map
        (MessagePacket.mk (p.networkId .joiner) (p.game .host)))) ∧
    ((w.peer .joiner).packetsFor p.connection <+:
        ((lines p .host h).drop (unrouted p .host h).length).map
          (MessagePacket.mk p.target (p.game .joiner)) ∧
      (Drained p w .host → (w.peer .joiner).packetsFor p.connection =
        ((lines p .host h).drop (unrouted p .host h).length).map
          (MessagePacket.mk p.target (p.game .joiner)))) ∧
    ((∀ e ∈ h, Answers p e) → unrouted p .host h = []) ∧
    ∀ side joins signal, parseU64 signal.networkId = some (p.game side) →
      (forwardSignal (p.networkId side) (p.localGameId side) joins signal
        (p.joinTarget side)).isSome := by
  have hc := run_carried hr hd hset
  refine ⟨?_, ?_, fun ha => (hc.answered ha).1, forwardSignal_isSome p⟩
  · have hj := hc.arrived .joiner
    rw [hc.taken, List.length_nil, List.drop_zero] at hj
    rw [← hc.present_host]
    exact hj
  · rw [lines, ← List.map_drop, ← present_joiner]
    exact hc.arrived .host

def join : Pairing where
  conn
    | .joiner => 1
    | .host => 0
  networkId
    | .joiner => 11
    | .host => 12
  game
    | .joiner => 21
    | .host => 22
  target := 7
  connection := 5
  conn_ne := by decide
  game_ne := by
    intro side
    cases side <;> decide
  target_ne := by decide

def joined : List Label :=
  [.server (.accept 0 (.v4 1 1)), .server (.insert 0), .other .host (.registerHost ⟨7, default⟩),
    .server (.read 0 (.registerHost ⟨7, default⟩)), .server (.handle 0 (.registerHost ⟨7, default⟩)),
    .server (.sendTo 0 (.v4 1 1) (.registered 7)), .server (.accept 1 (.v4 1 2)), .server (.insert 1),
    .forward .joiner ⟨"21", 5, "CONNECTREQUEST 5 x"⟩ (some 7), .write .joiner true,
    .server (.read 1 (.signal 7 5 11 "CONNECTREQUEST 5 x")),
    .server (.handle 1 (.signal 7 5 11 "CONNECTREQUEST 5 x")),
    .server (.sendTo 1 (.v4 1 1) (.signal 5 11 "CONNECTREQUEST 5 x")),
    .server (.write 0), .server (.write 0), .receive .host, .receive .host,
    .forward .host ⟨"22", 5, "CONNECTRESPONSE 5 y"⟩ none, .write .host true,
    .server (.read 0 (.signal 0 5 12 "CONNECTRESPONSE 5 y")),
    .server (.handle 0 (.signal 0 5 12 "CONNECTRESPONSE 5 y")),
    .server (.sendTo 0 (.v4 1 2) (.signal 5 12 "CONNECTRESPONSE 5 y")),
    .server (.write 1), .receive .joiner]

theorem signaling_end_to_end_joined :
    ((replay (Relay.machine join) joined).2.peer .host).packetsFor 5 =
        [⟨11, 22, "CONNECTREQUEST 5 x"⟩] ∧
      ((replay (Relay.machine join) joined).2.peer .joiner).packetsFor 5 =
        [⟨7, 21, "CONNECTRESPONSE 5 y"⟩] := by
  have hr : Run (Relay.machine join) (replay (Relay.machine join) joined).1
      (replay (Relay.machine join) joined).2 := replay_run joined
  have hd : Server.DistinctAddrs (serverEvents (replay (Relay.machine join) joined).1) :=
    Server.distinctAddrs_of_nodup (server_run hr) (by decide +kernel)
  have ho : OwnAddrs join (replay (Relay.machine join) joined).1 := fun e he => (hd e he).freshFor _
  obtain ⟨⟨-, hhost⟩, ⟨-, hjoiner⟩, hu, -⟩ := signaling_end_to_end hr ho (by decide +kernel)
  have hdj : Drained join (replay (Relay.machine join) joined).2 .joiner :=
    ⟨by decide +kernel, by decide +kernel, by decide +kernel, by decide +kernel⟩
  have hdh : Drained join (replay (Relay.machine join) joined).2 .host :=
    ⟨by decide +kernel, by decide +kernel, by decide +kernel, by decide +kernel⟩
  refine ⟨(hhost hdj).trans (by decide +kernel), (hjoiner hdh).trans ?_⟩
  rw [hu (by decide +kernel)]
  decide +kernel

end Mineshaft.Signaling
