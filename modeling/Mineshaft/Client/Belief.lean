import Mineshaft.Client.MainLoop

namespace Mineshaft.Client

open Mineshaft.Core Mineshaft.Lib
open Mineshaft.Server (ConnId)

def hostId : ClientMessage → Option UInt64
  | .registerHost server | .updateHost server => some server.senderId
  | .unregisterHost senderId => some senderId
  | .listHosts | .connectRequest _ _ | .signal _ _ _ _ | .ping => none

def applied (id : UInt64) (ad : Option ServerAdvertisement) :
    ClientMessage → Option ServerAdvertisement
  | .registerHost server => if server.senderId = id then some server.data else ad
  | .updateHost server => if server.senderId = id then ad.map (fun _ => server.data) else ad
  | .unregisterHost senderId => if senderId = id then none else ad
  | .listHosts | .connectRequest _ _ | .signal _ _ _ _ | .ping => ad

/-- The advertisement that the node takes to be registered. -/
def Node.belief (n : Node) : Option ServerAdvertisement :=
  if n.hostingRegistered then n.registeredAdvertisement else none

def Node.Knows (n : Node) : Prop := n.hostingRegistered = true → n.registeredAdvertisement.isSome

inductive Changes (id : UInt64) (n n' : Node) : Option (ConnId × ClientMessage) → Prop
  | dropped : n'.server = none → Changes id n n' none
  | quiet : n'.server = n.server → n'.belief = n.belief → Changes id n n' none
  | wrote {c : ConnId} {msg : ClientMessage} : n.server = some c → n'.server = some c →
      n'.belief = applied id n.belief msg → Changes id n n' (some (c, msg))

@[simp] theorem reap_server (n : Node) : n.reap.server = n.server := by
  unfold Node.reap
  split <;> rfl

@[simp] theorem reap_hostingRegistered (n : Node) :
    n.reap.hostingRegistered = n.hostingRegistered := by
  unfold Node.reap
  split <;> rfl

@[simp] theorem reap_registeredAdvertisement (n : Node) :
    n.reap.registeredAdvertisement = n.registeredAdvertisement := by
  unfold Node.reap
  split <;> rfl

@[simp] theorem reap_pc (n : Node) : n.reap.pc = n.pc := by
  unfold Node.reap
  split <;> rfl

@[simp] theorem reap_localGameId (n : Node) : n.reap.localGameId = n.localGameId := by
  unfold Node.reap
  split <;> rfl

@[simp] theorem reap_discovery (n : Node) :
    n.reap.discovery = n.discovery ∧ n.reap.advertisedCount = n.advertisedCount := by
  unfold Node.reap
  split <;> exact ⟨rfl, rfl⟩

section Loop

variable {myNetworkId : UInt64}
variable {buildResponsePacket : UInt64 → ServerAdvertisement → Option (List UInt8)}

@[simp] theorem clearAdvertised_server (n : Node) :
    (n.clearAdvertised buildResponsePacket).server = n.server := by
  unfold Node.clearAdvertised
  split <;> rfl

@[simp] theorem clearAdvertised_hostingRegistered (n : Node) :
    (n.clearAdvertised buildResponsePacket).hostingRegistered = n.hostingRegistered := by
  unfold Node.clearAdvertised
  split <;> rfl

@[simp] theorem clearAdvertised_registeredAdvertisement (n : Node) :
    (n.clearAdvertised buildResponsePacket).registeredAdvertisement = n.registeredAdvertisement := by
  unfold Node.clearAdvertised
  split <;> rfl

@[simp] theorem clearAdvertised_localGameId (n : Node) :
    (n.clearAdvertised buildResponsePacket).localGameId = n.localGameId := by
  unfold Node.clearAdvertised
  split <;> rfl

variable (myNetworkId buildResponsePacket) in
theorem enter_registration (n : Node) (r : GameState × Option World) :
    (n.enter myNetworkId buildResponsePacket r).server = n.server ∧
      (n.enter myNetworkId buildResponsePacket r).hostingRegistered = n.hostingRegistered ∧
      (n.enter myNetworkId buildResponsePacket r).registeredAdvertisement =
        n.registeredAdvertisement := by
  obtain ⟨g, world⟩ := r
  cases g with
  | closed | browsing | hosting =>
    simp only [Node.enter]
    split <;> simp

theorem changes_of_send {id : UInt64} {n n' : Node} {msg : ClientMessage} {ok : Bool}
    (hs : n'.server = (sendOrDrop n.server msg ok).1)
    (hb : n'.server.isSome → n'.belief = applied id n.belief msg) :
    Changes id n n' (sendOrDrop n.server msg ok).2 := by
  cases hc : n.server with
  | none =>
    rw [hc] at hs
    exact Changes.dropped hs
  | some c =>
    cases ok with
    | false =>
      rw [hc] at hs
      exact Changes.dropped hs
    | true =>
      have hs' : n'.server = some c := by rw [hs, hc]; rfl
      exact Changes.wrote hc hs' (hb (by simp [hs']))

theorem write_changes {n n' : Node} {ok : Bool} {out : Option (ConnId × ClientMessage)}
    (hk : n.Knows) (h : n.write myNetworkId buildResponsePacket ok = some (n', out)) :
    Changes myNetworkId n n' out ∧ n'.Knows := by
  unfold Node.write at h
  split at h
  · -- the `Closed` arm
    cases h
    refine ⟨changes_of_send ?_ ?_, ?_⟩ <;>
      simp [Node.unregistered, Node.belief, Node.Knows, applied]
  · -- the `Browsing` arm
    cases h
    refine ⟨changes_of_send ?_ ?_, ?_⟩ <;>
      simp [Node.unregistered, Node.belief, Node.Knows, applied]
  · -- an update is only sent where the node knows an advertisement
    cases h
    refine ⟨changes_of_send rfl ?_, ?_⟩
    · intro hs
      dsimp only at hs
      simp only [Node.belief, hs, ↓reduceIte]
      cases hr : n.hostingRegistered with
      | false => simp [applied]
      | true =>
        obtain ⟨ad, had⟩ := Option.isSome_iff_exists.mp (hk hr)
        simp [applied, had]
    · intro hs
      dsimp only at hs ⊢
      simp [hs]
  · cases h
    refine ⟨changes_of_send rfl ?_, ?_⟩
    · intro _
      rfl
    · exact hk
  · cases h
    refine ⟨changes_of_send rfl ?_, ?_⟩
    · intro _
      rfl
    · exact hk
  · cases h

theorem connect_belief {n n' : Node} {c : ConnId} {out : Option (ConnId × ClientMessage)}
    (h : n.step myNetworkId buildResponsePacket (.connect (some c)) = some (n', out)) :
    n'.server = some c ∧ n'.belief = none ∧ n'.Knows ∧ out = none := by
  simp only [Node.step] at h
  split at h
  · cases h
    simp [Node.belief, Node.Knows]
  · cases h

/-- Every other step of the main loop drops the connection, leaves it with the
belief as it is, or writes a frame that accounts for the change of belief. -/
theorem step_changes {n n' : Node} {l : Label} {out : Option (ConnId × ClientMessage)}
    (hk : n.Knows) (hl : ∀ c, l ≠ .connect (some c))
    (h : n.step myNetworkId buildResponsePacket l = some (n', out)) :
    Changes myNetworkId n n' out ∧ n'.Knows := by
  cases l with
  | top readerDead silent =>
    simp only [Node.step] at h
    split at h
    · split at h
      · split at h <;> cases h
        · exact ⟨Changes.dropped rfl, by simpa [Node.Knows] using hk⟩
        · exact ⟨Changes.quiet (by simp) (by simp [Node.belief]), by simpa [Node.Knows] using hk⟩
      · cases h
        exact ⟨Changes.quiet (by simp) (by simp [Node.belief]), by simpa [Node.Knows] using hk⟩
    · cases h
  | connect stream =>
    cases stream with
    | some c => exact absurd rfl (hl c)
    | none =>
      simp only [Node.step] at h
      split at h
      · cases h
        exact ⟨Changes.quiet rfl rfl, hk⟩
      · cases h
  | detect portBound world =>
    simp only [Node.step] at h
    split at h
    · cases h
      have h₁ := enter_registration myNetworkId buildResponsePacket n (detectGameState portBound world)
      obtain ⟨h₁, h₂, h₃⟩ := h₁
      refine ⟨Changes.quiet h₁ ?_, ?_⟩
      · rw [Node.belief, h₂, h₃]
        rfl
      · rw [Node.Knows, h₂, h₃]
        exact hk
    · cases h
  | write ok => exact write_changes hk h
  | fetched hosts =>
    simp only [Node.step] at h
    split at h
    · split at h <;> cases h
      · exact ⟨Changes.quiet rfl rfl, hk⟩
      · exact ⟨Changes.dropped rfl, hk⟩
    · cases h
  | beat pingDue =>
    simp only [Node.step] at h
    split at h
    · cases h
      exact ⟨Changes.quiet rfl rfl, hk⟩
    · cases h

end Loop

end Mineshaft.Client
