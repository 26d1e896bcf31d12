import Mineshaft.Client.Discipline
import Mineshaft.Client.Signals

namespace Mineshaft.Client

open Mineshaft.Core Mineshaft.Lib Mineshaft.Lib.Transition
open Mineshaft.Server (ConnId)

def detected (e : Event) : Option GameState :=
  match e.label with
  | .detect portBound world => some (detectGameState portBound world).1
  | .top _ _ | .connect _ | .write _ | .fetched _ | .beat _ => none

def opensStream (e : Event) : Bool :=
  match e.label with
  | .connect stream => stream.isSome
  | .top _ _ | .detect _ _ | .write _ | .fetched _ | .beat _ => false

/-- The node has connected anew since it last looked at the game. -/
def Reconnected (h : List Event) : Prop :=
  Since (fun e => detected e = none) (fun e _ => opensStream e = true) h

instance (h : List Event) : Decidable (Reconnected h) :=
  inferInstanceAs (Decidable (Since _ _ h))

/-- The game is found to have left its world, and between this and the detection
before, which found it hosting, the node has connected anew. -/
def LostWorld (e : Event) (h : List Event) : Prop :=
  (detected e = some .closed ∨ detected e = some .browsing) ∧
    (lastDetected h).map (fun r => r.1) = some .hosting ∧ Reconnected h

instance (e : Event) (h : List Event) : Decidable (LostWorld e h) :=
  inferInstanceAs (Decidable (_ ∧ _))

/-- The last hosted world was left after the node had connected anew. -/
def StaleIdentity (h : List Event) : Prop :=
  Since (fun e => detected e ≠ some .hosting) LostWorld h

instance (h : List Event) : Decidable (StaleIdentity h) :=
  inferInstanceAs (Decidable (Since _ _ h))

/-- The last detection found that the game does not host. -/
def Away (h : List Event) : Prop :=
  (lastDetected h).map (fun r => r.1) = some .closed ∨
    (lastDetected h).map (fun r => r.1) = some .browsing

instance (h : List Event) : Decidable (Away h) := inferInstanceAs (Decidable (_ ∨ _))

theorem lastDetected_cons_none {e : Event} {h : List Event} (he : detected e = none) :
    lastDetected (e :: h) = lastDetected h := by
  obtain ⟨s, l⟩ := e
  cases l with
  | detect portBound world => cases he
  | top _ _ | connect _ | write _ | fetched _ | beat _ => rfl

theorem lastDetected_cons_some {e : Event} {h : List Event} {g : GameState}
    (he : detected e = some g) : (lastDetected (e :: h)).map (fun r => r.1) = some g := by
  obtain ⟨s, l⟩ := e
  cases l with
  | detect portBound world => exact he
  | top _ _ | connect _ | write _ | fetched _ | beat _ => cases he

theorem Away.not_hosting {h : List Event} (ha : Away h) :
    lastDetected h ≠ none ∧ (lastDetected h).map (fun r => r.1) ≠ some .hosting := by
  constructor
  · intro hn
    rcases ha with ha | ha <;> rw [hn] at ha <;> cases ha
  · intro hh
    rcases ha with ha | ha <;> rw [hh] at ha <;> cases ha

theorem StaleIdentity.away {h : List Event} (hs : StaleIdentity h) : Away h := by
  induction hs with
  | here hl => exact hl.1.imp lastDetected_cons_some lastDetected_cons_some
  | @keep e h hk _ ih =>
    cases he : detected e with
    | none =>
      rw [Away, lastDetected_cons_none he]
      exact ih
    | some g =>
      cases g with
      | closed => exact Or.inl (lastDetected_cons_some he)
      | browsing => exact Or.inr (lastDetected_cons_some he)
      | hosting => exact absurd he hk

theorem staleIdentity_cons_none {e : Event} {h : List Event} (he : detected e = none) :
    StaleIdentity (e :: h) ↔ StaleIdentity h := by
  unfold StaleIdentity
  rw [since_cons]
  simp [LostWorld, he]

theorem staleIdentity_cons_away {e : Event} {h : List Event}
    (he : detected e = some .closed ∨ detected e = some .browsing) :
    StaleIdentity (e :: h) ↔
      (lastDetected h).map (fun r => r.1) = some .hosting ∧ Reconnected h ∨ StaleIdentity h := by
  have hne : detected e ≠ some .hosting := by
    rcases he with he | he <;> rw [he] <;> simp
  unfold StaleIdentity
  rw [since_cons]
  simp only [LostWorld, he, hne, true_and, ne_eq, not_false_eq_true]

structure Identity (h : List Event) (n : Node) : Prop where
  reconnected : Reconnected h → n.pc = .detecting ∧ n.hostingRegistered = false
  before : lastDetected h = none → n.localGameId = none ∧ n.hostingRegistered = false
  hosting : (lastDetected h).map (fun r => r.1) = some .hosting → n.localGameId.isSome ∧
    (n.hostingRegistered = true ∨ (∃ ad, n.pc = .publishing ad) ∨ n.server = none ∨ Reconnected h)
  leaving : n.pc = .closing ∨ n.pc = .leaving → ¬ StaleIdentity h ∧ n.localGameId.isSome
  away : Away h → n.pc ≠ .closing → n.pc ≠ .leaving →
    n.hostingRegistered = false ∧ (n.localGameId = none ↔ ¬ StaleIdentity h)

theorem Identity.not_reconnected {h : List Event} {n : Node} {e : Event} (hi : Identity h n)
    (hpc : n.pc ≠ .detecting) (he : opensStream e = false) : ¬ Reconnected (e :: h) := by
  intro hr
  obtain ho | ⟨-, hr⟩ := since_cons.mp hr
  · rw [he] at ho
    cases ho
  · exact hpc (hi.reconnected hr).1

theorem not_reconnected_of_detected {h : List Event} {e : Event} {g : GameState}
    (he : detected e = some g) : ¬ Reconnected (e :: h) := by
  intro hr
  obtain ho | ⟨hn, -⟩ := since_cons.mp hr
  · obtain ⟨s, l⟩ := e
    cases l with
    | detect portBound world => cases ho
    | top _ _ | connect _ | write _ | fetched _ | beat _ => cases he
  · rw [he] at hn
    cases hn

theorem Identity.frame {h : List Event} {n n' : Node} {e : Event} (hi : Identity h n)
    (he : detected e = none) (ho : opensStream e = false)
    (hpc : n.pc ≠ .detecting ∧ n.pc ≠ .closing ∧ n.pc ≠ .leaving ∧ ∀ ad, n.pc ≠ .publishing ad)
    (hpc' : n'.pc ≠ .closing ∧ n'.pc ≠ .leaving) (hg : n'.localGameId = n.localGameId)
    (hreg : n'.hostingRegistered = n.hostingRegistered)
    (hs : n.server = none → n'.server = none) : Identity (e :: h) n' := by
  have hnr := hi.not_reconnected hpc.1 ho
  have hnr' : ¬ Reconnected h := fun hr => hpc.1 (hi.reconnected hr).1
  have hl : lastDetected (e :: h) = lastDetected h := lastDetected_cons_none he
  constructor
  · exact fun hr => absurd hr hnr
  · rw [hl, hg, hreg]
    exact hi.before
  · rw [hl, hg, hreg]
    intro hh
    obtain ⟨hsome, hw⟩ := hi.hosting hh
    refine ⟨hsome, ?_⟩
    obtain hr | ⟨ad, hp⟩ | hn | hr := hw
    · exact Or.inl hr
    · exact absurd hp (hpc.2.2.2 ad)
    · exact Or.inr (Or.inr (Or.inl (hs hn)))
    · exact absurd hr hnr'
  · rintro (hp | hp)
    · exact absurd hp hpc'.1
    · exact absurd hp hpc'.2
  · rw [Away, hl, hg, hreg, staleIdentity_cons_none he]
    intro ha _ _
    exact hi.away ha hpc.2.1 hpc.2.2.1

theorem Identity.unregistered {h : List Event} {n n' : Node} {e : Event} (hi : Identity h n)
    (he : detected e = none) (ho : opensStream e = false)
    (hpc : n.pc = .closing ∨ n.pc = .leaving) (hpc' : n'.pc ≠ .closing ∧ n'.pc ≠ .leaving)
    (ha : Away h) (hg : n'.localGameId = none) (hreg : n'.hostingRegistered = false) :
    Identity (e :: h) n' := by
  have hdet : n.pc ≠ .detecting := by rcases hpc with h | h <;> simp [h]
  have hns : ¬ StaleIdentity (e :: h) := by
    rw [staleIdentity_cons_none he]
    exact (hi.leaving hpc).1
  have hl : lastDetected (e :: h) = lastDetected h := lastDetected_cons_none he
  constructor
  · exact fun hr => absurd hr (hi.not_reconnected hdet ho)
  · exact fun _ => ⟨hg, hreg⟩
  · rw [hl]
    exact fun hh => absurd hh ha.not_hosting.2
  · exact fun hp => absurd hp (not_or.mpr hpc')
  · exact fun _ _ _ => ⟨hreg, by simp [hg, hns]⟩

theorem Identity.registered_known {h : List Event} {n : Node} (hi : Identity h n)
    (hne : n.pc ≠ .closing ∧ n.pc ≠ .leaving) (hr : n.hostingRegistered = true) :
    n.localGameId.isSome ∧ ¬ Reconnected h ∧ ¬ StaleIdentity h := by
  refine ⟨?_, ?_, ?_⟩
  · cases hd : lastDetected h with
    | none =>
      rw [(hi.before hd).2] at hr
      cases hr
    | some r =>
      obtain ⟨g, w⟩ := r
      cases g with
      | hosting => exact (hi.hosting (by rw [hd]; rfl)).1
      | closed | browsing =>
        have ha : Away h := by simp [Away, hd]
        rw [(hi.away ha hne.1 hne.2).1] at hr
        cases hr
  · intro hrec
    rw [(hi.reconnected hrec).2] at hr
    cases hr
  · intro hs
    rw [(hi.away hs.away hne.1 hne.2).1] at hr
    cases hr

theorem Identity.known_iff {h : List Event} {n : Node} (hi : Identity h n)
    (hpc : n.pc = .detecting) (hsrv : n.server ≠ none) (hr : n.hostingRegistered = false) :
    n.localGameId = none ↔
      ¬ ((lastDetected h).map (fun r => r.1) = some .hosting ∧ Reconnected h ∨ StaleIdentity h) := by
  cases hd : lastDetected h with
  | none =>
    have hns : ¬ StaleIdentity h := fun hs => hs.away.not_hosting.1 hd
    simp [(hi.before hd).1, hns]
  | some r =>
    obtain ⟨g, w⟩ := r
    cases g with
    | hosting =>
      -- the registration can only be gone because the node has connected anew
      obtain ⟨hsome, hw⟩ := hi.hosting (by rw [hd]; rfl)
      have hrec : Reconnected h := by
        obtain hr' | ⟨ad, hp⟩ | hn | hrec := hw
        · rw [hr] at hr'
          cases hr'
        · rw [hpc] at hp
          cases hp
        · exact absurd hn hsrv
        · exact hrec
      have hne : n.localGameId ≠ none := Option.isSome_iff_ne_none.mp hsome
      simp [hne, hrec]
    | closed | browsing =>
      have ha : Away h := by simp [Away, hd]
      rw [(hi.away ha (by simp [hpc]) (by simp [hpc])).2]
      simp

theorem Identity.detectAway {h : List Event} {n n' : Node} {e : Event} (hi : Identity h n)
    (hp : Placed h n) (hpc : n.pc = .detecting)
    (he : detected e = some .closed ∨ detected e = some .browsing)
    (hg : n'.localGameId = n.localGameId) (hreg : n'.hostingRegistered = n.hostingRegistered)
    (hpc' : n'.pc = .closing ∨ n'.pc = .leaving ↔ n.hostingRegistered = true) :
    Identity (e :: h) n' := by
  have haway : Away (e :: h) := he.imp lastDetected_cons_some lastDetected_cons_some
  have hsrv : n.server ≠ none := Option.isSome_iff_ne_none.mp (hp.detecting hpc)
  constructor
  · intro hr
    rcases he with he | he <;> exact absurd hr (not_reconnected_of_detected he)
  · exact fun hn => absurd hn haway.not_hosting.1
  · exact fun hh => absurd hh haway.not_hosting.2
  · rw [hpc', staleIdentity_cons_away he, hg]
    intro hr
    obtain ⟨hsome, hrec, hs⟩ := hi.registered_known (by simp [hpc]) hr
    exact ⟨not_or.mpr ⟨fun hh => hrec hh.2, hs⟩, hsome⟩
  · intro _ hc hl
    have hfalse : n.hostingRegistered = false := by
      cases hr : n.hostingRegistered with
      | false => rfl
      | true => exact absurd (hpc'.mpr hr) (not_or.mpr ⟨hc, hl⟩)
    rw [hreg, hg, staleIdentity_cons_away he]
    exact ⟨hfalse, hi.known_iff hpc hsrv hfalse⟩

theorem Identity.detectHosting {h : List Event} {n' : Node} {e : Event}
    (he : detected e = some .hosting) (hg : n'.localGameId.isSome)
    (hreg : n'.hostingRegistered = true ∨ ∃ ad, n'.pc = .publishing ad)
    (hpc' : n'.pc ≠ .closing ∧ n'.pc ≠ .leaving) : Identity (e :: h) n' := by
  have hl : (lastDetected (e :: h)).map (fun r => r.1) = some .hosting := lastDetected_cons_some he
  constructor
  · exact fun hr => absurd hr (not_reconnected_of_detected he)
  · intro hn
    rw [hn] at hl
    cases hl
  · intro _
    refine ⟨hg, ?_⟩
    obtain hr | hp := hreg
    · exact Or.inl hr
    · exact Or.inr (Or.inl hp)
  · rintro (hp | hp)
    · exact absurd hp hpc'.1
    · exact absurd hp hpc'.2
  · exact fun ha => absurd hl ha.not_hosting.2

theorem Identity.connected {h : List Event} {n n' : Node} {e : Event} (hi : Identity h n)
    (he : detected e = none) (ho : opensStream e = true) (hpc : n.pc = .connecting)
    (hpc' : n'.pc = .detecting) (hg : n'.localGameId = n.localGameId)
    (hreg : n'.hostingRegistered = false) : Identity (e :: h) n' := by
  have hl : lastDetected (e :: h) = lastDetected h := lastDetected_cons_none he
  constructor
  · exact fun _ => ⟨hpc', hreg⟩
  · rw [hl, hg]
    exact fun hn => ⟨(hi.before hn).1, hreg⟩
  · rw [hl, hg]
    exact fun hh => ⟨(hi.hosting hh).1, Or.inr (Or.inr (Or.inr (Since.here ho)))⟩
  · rw [hpc']
    rintro (hp | hp) <;> cases hp
  · rw [Away, hl, hg, staleIdentity_cons_none he]
    intro ha _ _
    exact ⟨hreg, (hi.away ha (by simp [hpc]) (by simp [hpc])).2⟩

theorem Identity.published {h : List Event} {n n' : Node} {e : Event} {ad : ServerAdvertisement}
    (hi : Identity h n) (hp : Placed h n) (he : detected e = none) (ho : opensStream e = false)
    (hpc : n.pc = .publishing ad) (hpc' : n'.pc = .heartbeat)
    (hg : n'.localGameId = n.localGameId)
    (hreg : n'.hostingRegistered = n'.server.isSome) : Identity (e :: h) n' := by
  obtain ⟨w, hw, -⟩ := hp.publishing ad hpc
  have hl : (lastDetected h).map (fun r => r.1) = some .hosting := by rw [hw]; rfl
  have hl' : lastDetected (e :: h) = lastDetected h := lastDetected_cons_none he
  constructor
  · exact fun hr => absurd hr (hi.not_reconnected (by simp [hpc]) ho)
  · intro hn
    rw [hl', hw] at hn
    cases hn
  · intro _
    rw [hg]
    refine ⟨(hi.hosting hl).1, ?_⟩
    cases hs : n'.server with
    | none => exact Or.inr (Or.inr (Or.inl rfl))
    | some c => exact Or.inl (by rw [hreg, hs]; rfl)
  · rw [hpc']
    rintro (hp | hp) <;> cases hp
  · intro ha
    refine absurd ?_ ha.not_hosting.2
    rw [hl', hl]

section Runs

variable {myNetworkId : UInt64}
variable {buildResponsePacket : UInt64 → ServerAdvertisement → Option (List UInt8)}

theorem Identity.step {h : List Event} {n n' : Node} {e : Event}
    {out : Option (ConnId × ClientMessage)} (hi : Identity h n) (hp : Placed h n)
    (hm : Moves myNetworkId buildResponsePacket n e.label n' out) : Identity (e :: h) n' := by
  obtain ⟨s, l⟩ := e
  dsimp only at hm
  cases hm with
  | lost hpc _ _ =>
    exact hi.frame rfl rfl (by simp [hpc]) (by simp [hpc]) (by simp) (by simp) (fun _ => rfl)
  | alive hpc _ _ | offline hpc _ =>
    exact hi.frame rfl rfl (by simp [hpc]) (by simp) (by simp) (by simp) (by simp)
  | connected c hpc => exact hi.connected rfl rfl hpc rfl rfl rfl
  | refused hpc => exact hi.frame rfl rfl (by simp [hpc]) (by simp) rfl rfl id
  | closing hpc hd hreg =>
    exact hi.detectAway hp hpc (Or.inl (by simp [detected, hd])) rfl rfl (by simp [hreg])
  | closed hpc hd hreg =>
    exact hi.detectAway hp hpc (Or.inl (by simp [detected, hd])) (by simp) (by simp) (by simp [hreg])
  | publishing w hpc hd hreg =>
    exact Identity.detectHosting (by simp [detected, hd]) rfl (Or.inr ⟨w.2, rfl⟩) (by simp)
  | hosting w hpc hd hreg had =>
    exact Identity.detectHosting (by simp [detected, hd]) rfl (Or.inl hreg) (by simp)
  | leaving hpc hd hreg | browsing hpc hd hreg =>
    exact hi.detectAway hp hpc (Or.inr (by simp [detected, hd])) rfl rfl (by simp [hreg])
  | closedSent ok hpc =>
    refine hi.unregistered rfl rfl (Or.inl hpc) (by simp) ?_ (by simp [Node.unregistered])
      (by simp [Node.unregistered])
    simp [Away, (hp.closing hpc).1]
  | leftSent ok hpc =>
    refine hi.unregistered rfl rfl (Or.inr hpc) (by simp) ?_ rfl rfl
    simp [Away, (hp.leaving hpc).1]
  | published ad msg ok hpc hmsg => exact hi.published hp rfl rfl hpc rfl rfl rfl
  | asked ok hpc =>
    refine hi.frame rfl rfl (by simp [hpc]) ?_ rfl rfl ?_
    · dsimp only
      split <;> simp
    · intro hn
      dsimp only
      rw [hn, sendOrDrop_none]
  | pinged ok hpc =>
    refine hi.frame rfl rfl (by simp [hpc]) (by simp) rfl rfl ?_
    intro hn
    dsimp only
    rw [hn, sendOrDrop_none]
  | fetched hosts hpc => exact hi.frame rfl rfl (by simp [hpc]) (by simp) rfl rfl id
  | unanswered hpc => exact hi.frame rfl rfl (by simp [hpc]) (by simp) rfl rfl (fun _ => rfl)
  | beat pingDue hpc =>
    refine hi.frame rfl rfl (by simp [hpc]) ?_ rfl rfl id
    dsimp only
    split <;> simp

theorem run_identity {h : List Event} {s : Loop}
    (hr : Run (Loop.machine myNetworkId buildResponsePacket) h s) : Identity h s.node := by
  induction hr with
  | nil =>
    constructor
    · intro hr
      cases hr
    · exact fun _ => ⟨rfl, rfl⟩
    · intro hh
      cases hh
    · rintro (hp | hp) <;> cases hp
    · rintro (ha | ha) <;> cases ha
  | cons hr hs ih =>
    obtain ⟨out, hn, -⟩ := loop_cases hs
    exact ih.step (run_placed hr) (step_cases hn)

/-- While the last detection found the game not hosting, the identity of the last
world is forgotten, and signals of joining connections reach the game that joins,
exactly when the node had not connected anew before it found the world left and
is not still sending the message that unregisters it. -/
theorem no_stale_identity_iff {h : List Event} {s : Loop}
    (hr : Run (Loop.machine myNetworkId buildResponsePacket) h s) (ha : Away h) :
    (s.node.localGameId = none ∧ ∀ (joinConns : JoinConns) (connectionId gameId target : UInt64)
      (joinerNetworkId : UInt64) (data : String),
      joinConns.lookup connectionId = some (gameId, target) →
      injectSignal s.node.localGameId joinConns connectionId joinerNetworkId data =
        some ⟨target, gameId, data⟩) ↔
      ¬ StaleIdentity h ∧ s.node.pc ≠ .closing ∧ s.node.pc ≠ .leaving := by
  have hi := run_identity hr
  constructor
  · rintro ⟨hnone, -⟩
    have hpc : ¬ (s.node.pc = .closing ∨ s.node.pc = .leaving) := by
      intro hpc
      have hsome := (hi.leaving hpc).2
      rw [hnone] at hsome
      cases hsome
    obtain ⟨hc, hl⟩ := not_or.mp hpc
    exact ⟨(hi.away ha hc hl).2.mp hnone, hc, hl⟩
  · rintro ⟨hs, hc, hl⟩
    have hnone := (hi.away ha hc hl).2.mpr hs
    refine ⟨hnone, ?_⟩
    intro joinConns connectionId gameId target joinerNetworkId data hj
    rw [hnone, injectSignal, hj]
    rfl

end Runs

/-- A node hosts a world and browses after its user has left it. -/
def leavingWorld : List Label :=
  [.top false false, .connect (some 0), .detect (.ok true) (some (5, default)), .write true,
    .beat false, .top false false, .detect (.ok true) none, .write true, .write true,
    .fetched (some [])]

/-- The same with a lost connection in between. -/
def leavingUnconnected : List Label :=
  [.top false false, .connect (some 0), .detect (.ok true) (some (5, default)), .write true,
    .beat false, .top true false, .top false false, .connect (some 1),
    .detect (.ok true) none, .write true, .fetched (some [])]

theorem no_stale_identity_leavingWorld :
    (replay (Loop.machine 7 plainPacket) leavingWorld).1.length = 10 ∧
    (replay (Loop.machine 7 plainPacket) leavingWorld).2.node.pc = .heartbeat ∧
    (replay (Loop.machine 7 plainPacket) leavingWorld).2.node.localGameId = none :=
  ⟨by decide +kernel, by decide +kernel,
    ((no_stale_identity_iff (replay_run leavingWorld) (by decide +kernel)).mpr
      (by decide +kernel)).1⟩

/-- After a browsing iteration the node still takes itself for the host of the
world that it has left, and a signal for its own join goes to that world. -/
theorem stale_identity_unconnected :
    (replay (Loop.machine 7 plainPacket) leavingUnconnected).1.length = 11 ∧
    (replay (Loop.machine 7 plainPacket) leavingUnconnected).2.node.pc = .heartbeat ∧
    (lastDetected (replay (Loop.machine 7 plainPacket) leavingUnconnected).1) =
      some (.browsing, none) ∧
    (replay (Loop.machine 7 plainPacket) leavingUnconnected).2.node.localGameId = some 5 ∧
    injectSignal (replay (Loop.machine 7 plainPacket) leavingUnconnected).2.node.localGameId
      ((∅ : JoinConns).insert 3 (6, 9)) 3 9 "CANDIDATEADD" = some ⟨9, 5, "CANDIDATEADD"⟩ ∧
    injectSignal none ((∅ : JoinConns).insert 3 (6, 9)) 3 9 "CANDIDATEADD" =
      some ⟨9, 6, "CANDIDATEADD"⟩ :=
  ⟨by decide +kernel, by decide +kernel, by decide +kernel, by decide +kernel, by decide +kernel,
    by decide +kernel⟩

end Mineshaft.Client
