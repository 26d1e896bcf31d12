import Mineshaft.Client.Recovery
import Mineshaft.Hosting.Agreement

namespace Mineshaft.Hosting

open Mineshaft.Core Mineshaft.Lib Mineshaft.Lib.Transition
open Mineshaft.Client (Node GameState World Settled Soon detectGameState soon_step moves_detecting
  step_cases rank_le)
open Mineshaft.Server (ConnId)

variable {id : UInt64} {buildResponsePacket : UInt64 → ServerAdvertisement → Option (List UInt8)}
variable {game : GameState × Option World}

/-- The steps of the main loop are those of a steady environment. -/
def Steady (game : GameState × Option World) (e : Event) : Prop :=
  match e.label with
  | .node l => l.Steady game
  | .forward _ _ _ _ _ | .server _ => True

instance (game : GameState × Option World) : DecidablePred (Steady game)
  | ⟨_, .node l⟩ => inferInstanceAs (Decidable (l.Steady game))
  | ⟨_, .forward _ _ _ _ _⟩ | ⟨_, .server _⟩ => inferInstanceAs (Decidable True)

def nodeSteps (h : List Event) : Nat :=
  h.countP (fun e =>
    match e.label with
    | .node _ => true
    | .forward _ _ _ _ _ | .server _ => false)

theorem step_node {w w' : Net} {l : Label}
    (hs : Net.step id buildResponsePacket w l = some w') :
    (∃ k out, l = .node k ∧ Client.Moves id buildResponsePacket w.node k w'.node out) ∨
      (∀ k, l ≠ .node k) ∧ w'.node = w.node := by
  cases l with
  | node k =>
    obtain ⟨n', out, hn, ⟨c, -, -, -, rfl⟩ | ⟨-, rfl⟩⟩ := nodeStep_iff hs
    · refine Or.inl ⟨k, out, rfl, ?_⟩
      simpa only [(setNode_server w (n', out)).2.2] using step_cases hn
    · refine Or.inl ⟨k, out, rfl, ?_⟩
      simpa only [(setNode_server w (n', out)).2.2] using step_cases hn
  | forward c t i n d =>
    change (if c ∈ w.opened then _ else none) = some w' at hs
    split at hs <;> cases hs
    exact Or.inr ⟨by simp, rfl⟩
  | server l =>
    obtain ⟨s', -, ⟨_, _, _, _, _, _, rfl⟩ | ⟨_, rfl⟩⟩ := serverStep_iff hs
    · exact Or.inr ⟨by simp, rfl⟩
    · exact Or.inr ⟨by simp, rfl⟩

theorem run_detecting {h : List Event} {w : Net} (hr : Run (Net.machine id buildResponsePacket) h w) :
    w.node.pc = .detecting → w.node.server.isSome := by
  induction hr with
  | nil => exact fun hpc => nomatch hpc
  | cons _ hs ih =>
    obtain ⟨k, out, -, hm⟩ | ⟨-, hn⟩ := step_node hs
    · exact moves_detecting hm
    · rw [hn]
      exact ih

/-- Whatever has happened before, each step of the main loop in a steady
environment brings the node closer to what the game calls for. -/
theorem run_soon {late early : List Event} {w : Net}
    (hr : Run (Net.machine id buildResponsePacket) (late ++ early) w)
    (hd : Server.DistinctAddrs (serverEvents (late ++ early)))
    (hu : ∀ e ∈ late ++ early, NotUsurped id e) (hg : ∀ e ∈ late, Steady game e) :
    Soon game (9 - nodeSteps late) w.node := by
  induction late generalizing w with
  | nil => exact Or.inr (Or.inr (rank_le _))
  | cons e late ih =>
    cases hr with
    | @cons _ w _ l hr hs =>
      have hd' : Server.DistinctAddrs (serverEvents (late ++ early)) :=
        fun e he => hd e (serverEvents_cons _ _ he)
      have hu' := fun e he => hu e (List.mem_cons_of_mem _ he)
      have hsoon := ih hr hd' hu' (fun e he => hg e (List.mem_cons_of_mem _ he))
      have hk := (run_agrees hr hd' hu').knows
      obtain ⟨k, out, rfl, hm⟩ | ⟨hl, hn⟩ := step_node hs
      · have hsteady : k.Steady game := hg _ List.mem_cons_self
        have hcount : nodeSteps (⟨w, .node k⟩ :: late) = nodeSteps late + 1 := by
          simp [nodeSteps]
        have hbefore : Soon game (9 - (nodeSteps late + 1) + 1) w.node := by
          by_cases hlt : nodeSteps late < 9
          · have hk : 9 - (nodeSteps late + 1) + 1 = 9 - nodeSteps late := by omega
            rw [hk]
            exact hsoon
          · have hk : 9 - nodeSteps late = 0 := by omega
            rw [hk] at hsoon
            exact Or.inl hsoon.settled
        rw [hcount]
        exact soon_step hm hsteady hk (run_detecting hr) hbefore
      · have hcount : nodeSteps (⟨w, l⟩ :: late) = nodeSteps late := by
          cases l with
          | node k => exact absurd rfl (hl k)
          | forward _ _ _ _ _ | server _ => simp [nodeSteps]
        rw [hcount, hn]
        exact hsoon

/-- The directory converges to the game. After any run of a node and the server,
let the environment of the node be steady for nine steps of its main loop, in
any interleaving with the server. Then the server lists the node with exactly
the advertisement of the world that the game hosts, or not at all when it hosts
none, as soon as nothing is under way. -/
theorem directory_converges {late early : List Event} {w : Net} (portBound : Except Unit Bool)
    (world : Option World) (hr : Run (Net.machine id buildResponsePacket) (late ++ early) w)
    (hd : Server.DistinctAddrs (serverEvents (late ++ early)))
    (hu : ∀ e ∈ late ++ early, NotUsurped id e)
    (hg : ∀ e ∈ late, Steady (detectGameState portBound world) e) (hn : 9 ≤ nodeSteps late)
    (c : ConnId) (hq : Quiescent w c) :
    match (detectGameState portBound world).2 with
    | some hosted => ∃ a, w.server.addr c = some a ∧ w.server.reg.hosts.lookup id = some a ∧
        w.server.reg.hostRecords.lookup id = some ⟨id, hosted.2⟩
    | none => w.server.reg.hosts.lookup id = none ∧ w.server.reg.hostRecords.lookup id = none := by
  have hsoon := run_soon hr hd hu hg
  have h0 : 9 - nodeSteps late = 0 := by omega
  rw [h0] at hsoon
  have hbelief := hsoon.settled.belief
  have hagrees := run_agrees hr hd hu
  have hc := Server.run_consistent (server_run hr) hd
  obtain ⟨hreg, hunreg⟩ := hagrees.quiescent hc hq
  cases hw : (detectGameState portBound world).2 with
  | none =>
    rw [hw] at hbelief
    exact hunreg (Client.unregistered_of_belief hagrees.knows hbelief)
  | some hosted =>
    rw [hw] at hbelief
    obtain ⟨hr', had⟩ := Client.registered_of_belief hbelief
    obtain ⟨a, r, ha, hhosts, hrec, had'⟩ := hreg hr'
    have hdata : hosted.2 = r.data := Option.some.inj (had.symm.trans had')
    refine ⟨a, ha, hhosts, ?_⟩
    rw [hrec, hdata, ← hc.senderId id r hrec]

/-- The first registration of a hosting node fails with its connection. -/
def failing : List Label :=
  [.node (.top false false), .node (.connect (some 0)), .server (.accept 0 (.v4 1 1)),
    .server (.insert 0), .node (.detect (.ok true) (some (5, default))), .node (.write false)]

/-- The node goes once around its loop, and the server reads what it writes. -/
def recovering : List Label :=
  [.node (.beat true), .server (.leave 0), .node (.top false false), .node (.connect (some 1)),
    .server (.cleanup 0), .server (.accept 1 (.v4 1 2)), .server (.insert 1),
    .node (.detect (.ok true) (some (5, default))), .node (.write true), .node (.beat false)] ++
    registers 1 (.v4 1 2) ++
    [.node (.top false false), .node (.detect (.ok true) (some (5, default))), .node (.beat false)]

theorem directory_converges_recovering :
    ∃ a, (replay sample (failing ++ recovering)).2.server.addr 1 = some a ∧
      (replay sample (failing ++ recovering)).2.server.reg.hosts.lookup 7 = some a ∧
      (replay sample (failing ++ recovering)).2.server.reg.hostRecords.lookup 7 =
        some ⟨7, default⟩ := by
  have hsplit := List.take_append_drop recovering.length (replay sample (failing ++ recovering)).1
  have hr : Run sample (replay sample (failing ++ recovering)).1
      (replay sample (failing ++ recovering)).2 := replay_run _
  have hd : Server.DistinctAddrs (serverEvents (replay sample (failing ++ recovering)).1) :=
    Server.distinctAddrs_of_nodup (server_run hr) (by decide +kernel)
  have hq : Quiescent (replay sample (failing ++ recovering)).2 1 :=
    ⟨by decide +kernel, ⟨by decide +kernel, by decide +kernel⟩, by decide +kernel, by decide +kernel⟩
  have hu : ∀ e ∈ (replay sample (failing ++ recovering)).1, NotUsurped 7 e := by decide +kernel
  rw [← hsplit] at hr hd hu
  exact directory_converges (.ok true) (some (5, default)) hr hd hu (by decide +kernel)
    (by decide +kernel) 1 hq

end Mineshaft.Hosting
