import Mineshaft.Hosting.Convergence
import Mineshaft.Lib.Refinement

namespace Mineshaft.Hosting

open Mineshaft.Core Mineshaft.Lib Mineshaft.Lib.Transition
open Mineshaft.Client (GameState World Settled hostId applied settled_step settled_frame)
open Mineshaft.Server (ConnId Consistent handled handling_step step_moves)

/-- Nothing about the registration of the node is under way: what the server has
still to process on the current connection `c` does not concern it, and every
connection that the node dropped has been cleaned up. -/
structure Quiet (id : UInt64) (w : Net) (c : ConnId) : Prop where
  current : w.node.server = some c
  pending : ∀ msg ∈ w.pending c, hostId msg ≠ some id
  others : ∀ d ∈ w.opened, d ≠ c → w.server.task d = some .finished

theorem applied_of_ne {id : UInt64} {msg : ClientMessage} (h : hostId msg ≠ some id)
    (ad : Option ServerAdvertisement) : applied id ad msg = ad := by
  cases msg with
  | registerHost r | updateHost r | unregisterHost r =>
    simp only [hostId, ne_eq, Option.some.injEq] at h
    simp [applied, h]
  | listHosts | connectRequest | signal | ping => rfl

theorem foldl_applied_of_ne {id : UInt64} {msgs : List ClientMessage}
    (h : ∀ msg ∈ msgs, hostId msg ≠ some id) (ad : Option ServerAdvertisement) :
    msgs.foldl (applied id) ad = ad := by
  induction msgs with
  | nil => rfl
  | cons msg msgs ih =>
    rw [List.foldl_cons, applied_of_ne (h msg List.mem_cons_self)]
    exact ih (fun m hm => h m (List.mem_cons_of_mem _ hm))

theorem Agrees.listed {id : UInt64} {w : Net} (h : Agrees id w) (hc : Consistent w.server.reg)
    {c : ConnId} (hq : Quiet id w c) (hs : Serves w.server c) :
    w.server.reg.hostRecords.lookup id = w.node.belief.map (fun ad => ⟨id, ad⟩) := by
  have hb := h.belief c hq.current hs
  rw [foldl_applied_of_ne hq.pending] at hb
  rw [← hb]
  have hkeys := hc.keys id
  cases hl : w.server.reg.hostRecords.lookup id with
  | none =>
    rw [hl] at hkeys
    have hn : w.server.reg.hosts.lookup id = none := by simpa using hkeys
    cases ha : w.server.addr c with
    | none => simp [hostedBy, ha]
    | some a => simp [hostedBy, ha, hostedAt, hn]
  | some r =>
    rw [hl] at hkeys
    obtain ⟨a, ho⟩ := Option.isSome_iff_exists.mp hkeys
    obtain ⟨d, hd, hst⟩ := h.owner a ho
    obtain ⟨k, hk, he⟩ := Option.map_eq_some_iff.mp hst
    simp only [Prod.mk.injEq] at he
    have hdc : d = c := by
      by_contra hne
      obtain ⟨k', hk', ht⟩ := Server.State.task_eq_some.mp (hq.others d hd hne)
      rw [hk] at hk'
      cases hk'
      rw [ht] at he
      cases he.2
    subst hdc
    have ha : w.server.addr d = some a := by simp [Server.State.addr, hk, he.1]
    have hby : hostedBy w.server id d = some r.data := by simp [hostedBy, ha, hostedAt, ho, hl]
    rw [hby, Option.map_some, ← hc.senderId id r hl]

theorem task_finished {s s' : Server.State} {l : Server.Label} (hs : Server.step s l = some s')
    {d : ConnId} (hd : s.task d = some .finished) : s'.task d = some .finished := by
  obtain ⟨⟨addr, -, -, hm⟩, hframe⟩ := step_moves hs
  by_cases hc : d = l.conn
  · subst hc
    rw [hd] at hm
    generalize s'.task l.conn = t' at hm
    cases hm with
    | write | closeRx => rfl
  · rw [(hframe d hc).1]
    exact hd

variable {id : UInt64} {buildResponsePacket : UInt64 → ServerAdvertisement → Option (List UInt8)}
variable {game : GameState × Option World} {w w' : Net} {c : ConnId}

theorem pending_step {l : Server.Label} (hs : w.serverStep id l = some w') (hc : c ∈ w.opened)
    {msg : ClientMessage} (hm : msg ∈ w'.pending c) : msg ∈ w.pending c := by
  obtain ⟨s', hstep, hw'⟩ := serverStep_iff hs
  have hserver : w'.server = s' := by
    obtain ⟨_, _, _, _, _, _, rfl⟩ | ⟨_, rfl⟩ := hw' <;> rfl
  rw [Net.pending, List.mem_append] at hm ⊢
  obtain hm | hm := hm
  · rw [hserver, Option.mem_toList, Option.bind_eq_some_iff] at hm
    obtain ⟨t, ht, hh⟩ := hm
    cases t with
    | handling m =>
      cases hh
      obtain hold | hl := handling_step hstep ht
      · exact Or.inl (by simp [hold, handled])
      · obtain ⟨c', msg', rest, hl', -, hwire, -⟩ | ⟨hno, -⟩ := hw'
        · rw [hl] at hl'
          cases hl'
          exact Or.inr (by simp [hwire])
        · exact absurd hc (hno c msg hl).1
    | spawned | reading | connecting | sending | returned | finished => cases hh
  · right
    obtain ⟨c', msg', rest, -, -, hwire, rfl⟩ | ⟨-, rfl⟩ := hw'
    · by_cases hcc : c = c'
      · subst hcc
        rw [hwire]
        exact List.mem_cons_of_mem _ (by simpa using hm)
      · simpa [hcc] using hm
    · exact hm

theorem Quiet.serverStep {l : Server.Label} (hq : Quiet id w c) (ha : Agrees id w)
    (hs : w.serverStep id l = some w') : Quiet id w' c := by
  have hopen := ha.current c hq.current
  obtain ⟨s', hstep, hw'⟩ := serverStep_iff hs
  obtain ⟨hserver, hnode, hopened⟩ :
      w'.server = s' ∧ w'.node = w.node ∧ w'.opened = w.opened := by
    obtain ⟨_, _, _, _, _, _, rfl⟩ | ⟨_, rfl⟩ := hw' <;> exact ⟨rfl, rfl, rfl⟩
  refine ⟨by rw [hnode]; exact hq.current, ?_, ?_⟩
  · intro msg hm
    exact hq.pending msg (pending_step hs hopen hm)
  · intro d hd hne
    rw [hserver]
    rw [hopened] at hd
    exact task_finished hstep (hq.others d hd hne)

theorem pending_put (w : Net) (d : ConnId) (m : ClientMessage) {msg : ClientMessage}
    (hm : msg ∈ (w.put d m).pending c) : msg ∈ w.pending c ∨ msg = m := by
  by_cases hc : c = d
  · subst hc
    simp only [Net.pending, Net.put, Function.update_self, List.mem_append, List.mem_singleton] at hm ⊢
    tauto
  · left
    simpa [Net.pending, Net.put, hc] using hm

theorem Quiet.nodeStep {l : Client.Label} (hq : Quiet id w c) (hg : l.Steady game)
    (hn : Settled game w.node) (hs : w.nodeStep id buildResponsePacket l = some w') :
    Quiet id w' c := by
  obtain ⟨n', out, hstep, hw'⟩ := nodeStep_iff hs
  obtain ⟨hserver, hconn, hout⟩ := settled_frame (Client.step_cases hstep) hg hn
  obtain ⟨d, hl, -⟩ | ⟨-, rfl⟩ := hw'
  · exact absurd hl (hconn d)
  · cases out with
    | none => exact ⟨hserver.trans hq.current, hq.pending, hq.others⟩
    | some p =>
      obtain ⟨d, m⟩ := p
      refine ⟨hserver.trans hq.current, ?_, hq.others⟩
      intro msg hm
      obtain hm | rfl := pending_put { w with node := n' } d m hm
      · exact hq.pending msg hm
      · rw [hout d msg rfl]
        simp

theorem run_quiet {late settle early : List Event} {w₀ : Net}
    (hr₀ : Run (Net.machine id buildResponsePacket) (settle ++ early) w₀)
    (hr : Run (Net.machine id buildResponsePacket) (late ++ (settle ++ early)) w)
    (hd : Server.DistinctAddrs (serverEvents (late ++ (settle ++ early))))
    (hu : ∀ e ∈ late ++ (settle ++ early), NotUsurped id e)
    (hg : ∀ e ∈ late ++ settle, Steady game e) (hn : 9 ≤ nodeSteps settle)
    (hq : Quiet id w₀ c) : Settled game w.node ∧ Quiet id w c := by
  induction late generalizing w with
  | nil =>
    obtain rfl := hr₀.unique hr
    have hsoon := run_soon hr₀ hd hu hg
    have h0 : 9 - nodeSteps settle = 0 := by omega
    rw [h0] at hsoon
    exact ⟨hsoon.settled, hq⟩
  | cons e late ih =>
    cases hr with
    | @cons _ w₁ _ l hr hs =>
      have hd' : Server.DistinctAddrs (serverEvents (late ++ (settle ++ early))) :=
        fun e he => hd e (serverEvents_cons _ _ he)
      have hu' := fun e he => hu e (List.mem_cons_of_mem _ he)
      obtain ⟨hset, hquiet⟩ := ih hr hd' hu' (fun e he => hg e (List.mem_cons_of_mem _ he))
      have ha := run_agrees hr hd' hu'
      have hsteady : Steady game ⟨w₁, l⟩ := hg _ List.mem_cons_self
      have hs : Net.step id buildResponsePacket w₁ l = some w := hs
      cases l with
      | node l =>
        obtain ⟨k, out, hk, hm⟩ | ⟨hl, -⟩ := step_node hs
        · cases hk
          exact ⟨settled_step hm hsteady ha.knows hset, hquiet.nodeStep hsteady hset hs⟩
        · exact absurd rfl (hl l)
      | forward d t i n data =>
        change (if d ∈ w₁.opened then _ else none) = some w at hs
        split at hs <;> cases hs
        refine ⟨hset, hquiet.current, ?_, hquiet.others⟩
        intro msg hm
        obtain hm | rfl := pending_put w₁ d _ hm
        · exact hquiet.pending msg hm
        · simp [hostId]
      | server l =>
        obtain ⟨k, out, hk, -⟩ | ⟨-, hnode⟩ := step_node hs
        · cases hk
        · exact ⟨by rw [hnode]; exact hset, hquiet.serverStep ha hs⟩

theorem run_listed {late settle early : List Event} {w₀ : Net}
    (hr₀ : Run (Net.machine id buildResponsePacket) (settle ++ early) w₀)
    (hr : Run (Net.machine id buildResponsePacket) (late ++ (settle ++ early)) w)
    (hd : Server.DistinctAddrs (serverEvents (late ++ (settle ++ early))))
    (hu : ∀ e ∈ late ++ (settle ++ early), NotUsurped id e)
    (hg : ∀ e ∈ late ++ settle, Steady game e) (hn : 9 ≤ nodeSteps settle)
    (hq : Quiet id w₀ c) (hs : Serves w.server c) :
    w.server.reg.hostRecords.lookup id = game.2.map (fun world => ⟨id, world.2⟩) := by
  obtain ⟨hset, hquiet⟩ := run_quiet hr₀ hr hd hu hg hn hq
  have hc := Server.run_consistent (server_run hr) hd
  rw [(run_agrees hr hd hu).listed hc hquiet hs, hset.belief, Option.map_map]
  rfl

end Mineshaft.Hosting
