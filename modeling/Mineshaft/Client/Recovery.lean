import Mineshaft.Client.Loop

namespace Mineshaft.Client

open Mineshaft.Core Mineshaft.Lib
open Mineshaft.Server (ConnId)

/-- A step in a steady environment: the connection lives, connecting and writing
succeed, the server answers, and the game is found in the same state. -/
def Label.Steady (game : GameState × Option World) : Label → Prop
  | .top readerDead silent => (readerDead || silent) = false
  | .connect stream => stream.isSome
  | .detect portBound world => detectGameState portBound world = game
  | .write ok => ok = true
  | .fetched hosts => hosts.isSome
  | .beat _ => True

instance (game : GameState × Option World) : DecidablePred (Label.Steady game)
  | .top readerDead silent => inferInstanceAs (Decidable ((readerDead || silent) = false))
  | .connect stream => inferInstanceAs (Decidable (stream.isSome = true))
  | .detect portBound world => inferInstanceAs (Decidable (detectGameState portBound world = game))
  | .write ok => inferInstanceAs (Decidable (ok = true))
  | .fetched hosts => inferInstanceAs (Decidable (hosts.isSome = true))
  | .beat _ => inferInstanceAs (Decidable True)

/-- How many steps a steady environment needs at most from here, once around the
loop to the next look at the game and two steps more. -/
def Pc.rank : Pc → Nat
  | .detecting => 2
  | .connecting => 3
  | .top => 4
  | .pinging => 5
  | .heartbeat => 6
  | .awaiting | .closing | .publishing _ => 7
  | .fetching => 8
  | .leaving => 9

/-- The node is connected and takes itself to be registered with the world of
the game, and is not about to change that. -/
structure Settled (game : GameState × Option World) (n : Node) : Prop where
  connected : n.server.isSome
  belief : n.belief = game.2.map (fun w => w.2)
  placed : n.pc = .heartbeat ∨ n.pc = .pinging ∨ n.pc = .top ∨ n.pc = .detecting ∨
    game.1 = .browsing ∧ (n.pc = .fetching ∨ n.pc = .awaiting)

structure Near (game : GameState × Option World) (n : Node) : Prop where
  connected : n.server.isSome
  pending : (∃ w, game = (.hosting, some w) ∧ n.pc = .publishing w.2) ∨
    game = (.closed, none) ∧ n.pc = .closing ∨ game = (.browsing, none) ∧ n.pc = .leaving

/-- The node is settled after `k` more steps in a steady environment. -/
def Soon (game : GameState × Option World) (k : Nat) (n : Node) : Prop :=
  Settled game n ∨ Near game n ∧ 1 ≤ k ∨ n.pc.rank ≤ k

theorem rank_pos (pc : Pc) : 2 ≤ pc.rank := by
  cases pc <;> simp [Pc.rank]

theorem rank_le (pc : Pc) : pc.rank ≤ 9 := by
  cases pc <;> simp [Pc.rank]

theorem Soon.settled {game : GameState × Option World} {n : Node} (h : Soon game 0 n) :
    Settled game n := by
  obtain h | ⟨-, h⟩ | h := h
  · exact h
  · cases h
  · have := rank_pos n.pc
    omega

theorem belief_none {n : Node} (hr : n.hostingRegistered = false) : n.belief = none := by
  simp [Node.belief, hr]

theorem belief_some {n : Node} {ad : ServerAdvertisement} (hr : n.hostingRegistered = true)
    (ha : n.registeredAdvertisement = some ad) : n.belief = some ad := by
  simp [Node.belief, hr, ha]

theorem registered_of_belief {n : Node} {ad : ServerAdvertisement} (hb : n.belief = some ad) :
    n.hostingRegistered = true ∧ n.registeredAdvertisement = some ad := by
  unfold Node.belief at hb
  split at hb
  next hr => exact ⟨hr, hb⟩
  · cases hb

theorem unregistered_of_belief {n : Node} (hk : n.Knows) (hb : n.belief = none) :
    n.hostingRegistered = false := by
  cases hr : n.hostingRegistered with
  | false => rfl
  | true =>
    obtain ⟨ad, ha⟩ := Option.isSome_iff_exists.mp (hk hr)
    rw [belief_some hr ha] at hb
    cases hb

section Moves

variable {myNetworkId : UInt64}
variable {buildResponsePacket : UInt64 → ServerAdvertisement → Option (List UInt8)}
variable {n n' : Node} {out : Option (ConnId × ClientMessage)} {l : Label}
variable {game : GameState × Option World}

theorem sendOrDrop_ok {server : Option ConnId} (hs : server.isSome) (msg : ClientMessage) :
    (sendOrDrop server msg true).1 = server := by
  obtain ⟨c, rfl⟩ := Option.isSome_iff_exists.mp hs
  rfl

theorem moves_detecting (hm : Moves myNetworkId buildResponsePacket n l n' out)
    (hpc : n'.pc = .detecting) : n'.server.isSome := by
  cases hm with
  | alive _ hs _ => simpa using hs
  | connected c _ => rfl
  | lost h _ _ =>
    simp only [reap_pc, h] at hpc
    cases hpc
  | asked ok _ =>
    simp only at hpc
    split at hpc <;> cases hpc
  | beat due _ =>
    simp only at hpc
    split at hpc <;> cases hpc
  | offline _ _ | refused _ | closing _ _ _ | closed _ _ _ | publishing _ _ _ _ | hosting _ _ _ _ _
  | leaving _ _ _ | browsing _ _ _ | closedSent _ _ | leftSent _ _ | published _ _ _ _ _
  | pinged _ _ | fetched _ _ | unanswered _ => cases hpc

theorem detect_near (hm : Moves myNetworkId buildResponsePacket n l n' out)
    (hl : l.Steady game) (hpc : n.pc = .detecting) (hs : n.server.isSome) :
    Settled game n' ∨ Near game n' := by
  cases hm with
  | closing _ hd hr =>
    cases hl.symm.trans hd
    exact Or.inr ⟨hs, Or.inr (Or.inl ⟨rfl, rfl⟩)⟩
  | closed _ hd hr =>
    cases hl.symm.trans hd
    refine Or.inl ⟨by simpa using hs, ?_, Or.inl rfl⟩
    exact belief_none (by simpa using hr)
  | publishing w _ hd _ =>
    cases hl.symm.trans hd
    exact Or.inr ⟨by simpa using hs, Or.inl ⟨w, rfl, rfl⟩⟩
  | hosting w _ hd hr ha =>
    cases hl.symm.trans hd
    exact Or.inl ⟨hs, belief_some hr ha, Or.inl rfl⟩
  | leaving _ hd hr =>
    cases hl.symm.trans hd
    exact Or.inr ⟨hs, Or.inr (Or.inr ⟨rfl, rfl⟩)⟩
  | browsing _ hd hr =>
    cases hl.symm.trans hd
    exact Or.inl ⟨hs, belief_none hr, Or.inr (Or.inr (Or.inr (Or.inr ⟨rfl, Or.inl rfl⟩)))⟩
  | lost h _ _ | alive h _ _ | offline h _ | connected _ h | refused h | closedSent _ h | leftSent _ h
  | published _ _ _ h _ | asked _ h | pinged _ h | fetched _ h | unanswered h | beat _ h =>
    rw [hpc] at h
    cases h

theorem near_step (hm : Moves myNetworkId buildResponsePacket n l n' out) (hl : l.Steady game)
    (hn : Near game n) : Settled game n' := by
  obtain ⟨hs, hpending⟩ := hn
  cases hm with
  | published ad msg ok h _ =>
    cases (hl : ok = true)
    obtain ⟨w, rfl, hpc⟩ | ⟨-, hpc⟩ | ⟨-, hpc⟩ := hpending <;> rw [h] at hpc <;> cases hpc
    have hsend := sendOrDrop_ok hs msg
    exact ⟨by simpa only [hsend] using hs, belief_some (by simpa only [hsend] using hs)
      (by simp only [hsend, hs, if_true]), Or.inl rfl⟩
  | closedSent ok h =>
    cases (hl : ok = true)
    obtain ⟨w, -, hpc⟩ | ⟨rfl, -⟩ | ⟨-, hpc⟩ := hpending
    · rw [h] at hpc
      cases hpc
    · refine ⟨?_, belief_none (by simp [Node.unregistered]), Or.inl rfl⟩
      simpa [Node.unregistered, sendOrDrop_ok hs] using hs
    · rw [h] at hpc
      cases hpc
  | leftSent ok h =>
    cases (hl : ok = true)
    obtain ⟨w, -, hpc⟩ | ⟨-, hpc⟩ | ⟨rfl, -⟩ := hpending
    · rw [h] at hpc
      cases hpc
    · rw [h] at hpc
      cases hpc
    · refine ⟨?_, belief_none rfl, Or.inr (Or.inr (Or.inr (Or.inr ⟨rfl, Or.inl rfl⟩)))⟩
      simpa [Node.unregistered, sendOrDrop_ok hs] using hs
  | lost h _ _ | alive h _ _ | offline h _ | connected _ h | refused h | closing h _ _ | closed h _ _
  | publishing _ h _ _ | hosting _ h _ _ _ | leaving h _ _ | browsing h _ _ | asked _ h | pinged _ h
  | fetched _ h | unanswered h | beat _ h =>
    obtain ⟨w, -, hpc⟩ | ⟨-, hpc⟩ | ⟨-, hpc⟩ := hpending <;> rw [h] at hpc <;> cases hpc

theorem settled_step (hm : Moves myNetworkId buildResponsePacket n l n' out) (hl : l.Steady game)
    (hk : n.Knows) (hn : Settled game n) : Settled game n' := by
  obtain ⟨hs, hb, hplaced⟩ := hn
  cases hm with
  | lost _ _ hd =>
    rw [hl] at hd
    cases hd
  | refused _ | unanswered _ => cases hl
  | offline _ hnone =>
    rw [hnone] at hs
    cases hs
  | alive _ _ _ =>
    exact ⟨by simpa using hs, by simpa [Node.belief] using hb, Or.inr (Or.inr (Or.inr (Or.inl rfl)))⟩
  | connected _ h | closedSent _ h | leftSent _ h | published _ _ _ h _ =>
    simp [h] at hplaced
  | closing _ hd hr | leaving _ hd hr =>
    -- nothing is registered that would have to be withdrawn
    cases hl.symm.trans hd
    rw [unregistered_of_belief hk hb] at hr
    cases hr
  | publishing w _ hd hr =>
    -- what is registered is what would be published
    cases hl.symm.trans hd
    obtain ⟨hreg, had⟩ := registered_of_belief hb
    obtain h | h := hr
    · rw [hreg] at h
      cases h
    · exact absurd had h
  | closed _ hd hr =>
    refine ⟨by simpa using hs, ?_, Or.inl rfl⟩
    simpa [Node.belief] using hb
  | hosting w _ hd hr ha => exact ⟨hs, hb, Or.inl rfl⟩
  | browsing _ hd hr =>
    cases hl.symm.trans hd
    exact ⟨hs, hb, Or.inr (Or.inr (Or.inr (Or.inr ⟨rfl, Or.inl rfl⟩)))⟩
  | asked ok h =>
    cases (hl : ok = true)
    have hgame : game.1 = .browsing := by
      simpa [h] using hplaced
    have hsend := sendOrDrop_ok hs .listHosts
    have hpc : (if (sendOrDrop n.server .listHosts true).1.isSome then Pc.awaiting
        else Pc.heartbeat) = .awaiting := by
      rw [hsend, if_pos hs]
    exact ⟨by simpa only [hsend] using hs, hb,
      Or.inr (Or.inr (Or.inr (Or.inr ⟨hgame, Or.inr hpc⟩)))⟩
  | pinged ok h =>
    cases (hl : ok = true)
    have hsend := sendOrDrop_ok hs .ping
    exact ⟨by simpa only [hsend] using hs, hb, Or.inr (Or.inr (Or.inl rfl))⟩
  | fetched hosts h => exact ⟨hs, hb, Or.inl rfl⟩
  | beat due h =>
    refine ⟨hs, hb, ?_⟩
    simp only
    split
    · exact Or.inr (Or.inl rfl)
    · exact Or.inr (Or.inr (Or.inl rfl))

theorem settled_frame (hm : Moves myNetworkId buildResponsePacket n l n' out) (hl : l.Steady game)
    (hn : Settled game n) :
    n'.server = n.server ∧ (∀ c, l ≠ .connect (some c)) ∧
      ∀ c msg, out = some (c, msg) → hostId msg = none := by
  obtain ⟨hs, -, hplaced⟩ := hn
  obtain ⟨c, hc⟩ := Option.isSome_iff_exists.mp hs
  cases hm with
  | lost _ _ hd =>
    rw [hl] at hd
    cases hd
  | unanswered _ => cases hl
  | connected _ h | closedSent _ h | leftSent _ h | published _ _ _ h _ => simp [h] at hplaced
  | asked ok _ =>
    cases (hl : ok = true)
    refine ⟨sendOrDrop_ok hs .listHosts, by simp, ?_⟩
    simp [hc, sendOrDrop, hostId]
  | pinged ok _ =>
    cases (hl : ok = true)
    refine ⟨sendOrDrop_ok hs .ping, by simp, ?_⟩
    simp [hc, sendOrDrop, hostId]
  | alive _ _ _ | offline _ _ | closed _ _ _ | publishing _ _ _ _ => simp
  | refused _ | closing _ _ _ | hosting _ _ _ _ _ | leaving _ _ _ | browsing _ _ _ | fetched _ _
  | beat _ _ => simp

theorem rank_step (hm : Moves myNetworkId buildResponsePacket n l n' out) (hl : l.Steady game)
    (hpc : n.pc ≠ .detecting) : n'.pc.rank < n.pc.rank := by
  cases hm with
  | lost _ _ hd =>
    rw [hl] at hd
    cases hd
  | refused _ => cases hl
  | closing h _ _ | closed h _ _ | publishing _ h _ _ | hosting _ h _ _ _ | leaving h _ _
  | browsing h _ _ => exact absurd h hpc
  | asked ok h =>
    rw [h]
    simp only
    split <;> decide
  | beat due h =>
    rw [h]
    simp only
    split <;> decide
  | alive h _ _ | offline h _ | connected _ h | closedSent _ h | leftSent _ h | published _ _ _ h _
  | pinged _ h | fetched _ h | unanswered h =>
    rw [h]
    simp [Pc.rank]

theorem soon_step {k : Nat} (hm : Moves myNetworkId buildResponsePacket n l n' out)
    (hl : l.Steady game) (hk : n.Knows) (hd : n.pc = .detecting → n.server.isSome)
    (hn : Soon game (k + 1) n) : Soon game k n' := by
  obtain hn | ⟨hn, -⟩ | hn := hn
  · exact Or.inl (settled_step hm hl hk hn)
  · exact Or.inl (near_step hm hl hn)
  · by_cases hpc : n.pc = .detecting
    · have hrank : 1 ≤ k := by
        have := rank_pos n.pc
        omega
      obtain h | h := detect_near hm hl hpc (hd hpc)
      · exact Or.inl h
      · exact Or.inr (Or.inl ⟨h, hrank⟩)
    · have hlt := rank_step hm hl hpc
      exact Or.inr (Or.inr (by omega))

end Moves

end Mineshaft.Client
