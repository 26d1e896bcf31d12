import Mineshaft.Client.Belief
import Mineshaft.Lib.Transition

namespace Mineshaft.Client

open Mineshaft.Core Mineshaft.Lib Mineshaft.Lib.Transition
open Mineshaft.Server (ConnId)

structure Loop where
  node : Node
  opened : List ConnId

namespace Loop

section Steps

variable (myNetworkId : UInt64)
variable (buildResponsePacket : UInt64 → ServerAdvertisement → Option (List UInt8))

/-- A step of the main loop. A new stream is a connection of its own. -/
def step (s : Loop) (l : Label) : Option Loop :=
  let r := s.node.step myNetworkId buildResponsePacket l
  match l with
  | .connect (some c) =>
    if c ∈ s.opened then none else r.map (fun r => ⟨r.1, c :: s.opened⟩)
  | _ => r.map (fun r => { s with node := r.1 })

def machine : Machine Loop Label := ⟨⟨Node.init, []⟩, step myNetworkId buildResponsePacket⟩

end Steps

end Loop

abbrev Event := Transition.Event Loop Label

def wrote (myNetworkId : UInt64)
    (buildResponsePacket : UInt64 → ServerAdvertisement → Option (List UInt8)) (e : Event) :
    Option (ConnId × ClientMessage) :=
  (e.pre.node.step myNetworkId buildResponsePacket e.label).bind (fun r => r.2)

def lastDetected : List Event → Option (GameState × Option World)
  | [] => none
  | e :: h =>
    match e.label with
    | .detect portBound world => some (detectGameState portBound world)
    | .top _ _ | .connect _ | .write _ | .fetched _ | .beat _ => lastDetected h

theorem sendOrDrop_none (msg : ClientMessage) (ok : Bool) : (sendOrDrop none msg ok).1 = none := rfl

theorem sendOrDrop_some {server : Option ConnId} {msg : ClientMessage} {ok : Bool} {c : ConnId}
    (h : (sendOrDrop server msg ok).1 = some c) : server = some c ∧ ok = true := by
  unfold sendOrDrop at h
  split at h
  · split at h <;> cases h
    next hok => exact ⟨rfl, hok⟩
  · cases h

theorem sendOrDrop_wrote {server : Option ConnId} {msg msg' : ClientMessage} {ok : Bool} {c : ConnId}
    (h : (sendOrDrop server msg ok).2 = some (c, msg')) : msg' = msg := by
  unfold sendOrDrop at h
  split at h
  · split at h <;> cases h
    rfl
  · cases h

section Cases

variable {myNetworkId : UInt64}
variable {buildResponsePacket : UInt64 → ServerAdvertisement → Option (List UInt8)}

variable (myNetworkId buildResponsePacket) in
/-- Everything that a step of the main loop can do, one constructor for each
path between two of its waiting points. -/
inductive Moves (n : Node) : Label → Node → Option (ConnId × ClientMessage) → Prop
  | lost {readerDead silent : Bool} : n.pc = .top → n.server.isSome →
      (readerDead || silent) = true →
      Moves n (.top readerDead silent) { n.reap with server := none } none
  | alive {readerDead silent : Bool} : n.pc = .top → n.server.isSome →
      (readerDead || silent) = false →
      Moves n (.top readerDead silent) { n.reap with pc := .detecting } none
  | offline {readerDead silent : Bool} : n.pc = .top → n.server = none →
      Moves n (.top readerDead silent) { n.reap with pc := .connecting } none
  | connected (c : ConnId) : n.pc = .connecting →
      Moves n (.connect (some c)) { n with
        serverWriter := some c
        readerTask := some c
        server := some c
        hostingRegistered := false
        registeredAdvertisement := none
        pc := .detecting } none
  | refused : n.pc = .connecting → Moves n (.connect none) { n with pc := .top } none
  | closing {portBound : Except Unit Bool} {world : Option World} : n.pc = .detecting →
      detectGameState portBound world = (.closed, none) → n.hostingRegistered = true →
      Moves n (.detect portBound world) { n with pc := .closing } none
  | closed {portBound : Except Unit Bool} {world : Option World} : n.pc = .detecting →
      detectGameState portBound world = (.closed, none) → n.hostingRegistered = false →
      Moves n (.detect portBound world)
        { n.clearAdvertised buildResponsePacket with pc := .heartbeat } none
  | publishing {portBound : Except Unit Bool} {world : Option World} (w : World) :
      n.pc = .detecting → detectGameState portBound world = (.hosting, some w) →
      n.hostingRegistered = false ∨ n.registeredAdvertisement ≠ some w.2 →
      Moves n (.detect portBound world)
        { (n.clearAdvertised buildResponsePacket) with
          localGameId := some w.1
          discovery := ((n.clearAdvertised buildResponsePacket).discovery.updateHost
            buildResponsePacket myNetworkId w.2)
          pc := .publishing w.2 } none
  | hosting {portBound : Except Unit Bool} {world : Option World} (w : World) :
      n.pc = .detecting → detectGameState portBound world = (.hosting, some w) →
      n.hostingRegistered = true → n.registeredAdvertisement = some w.2 →
      Moves n (.detect portBound world) { n with localGameId := some w.1, pc := .heartbeat } none
  | leaving {portBound : Except Unit Bool} {world : Option World} : n.pc = .detecting →
      detectGameState portBound world = (.browsing, none) → n.hostingRegistered = true →
      Moves n (.detect portBound world) { n with pc := .leaving } none
  | browsing {portBound : Except Unit Bool} {world : Option World} : n.pc = .detecting →
      detectGameState portBound world = (.browsing, none) → n.hostingRegistered = false →
      Moves n (.detect portBound world) { n with pc := .fetching } none
  | closedSent (ok : Bool) : n.pc = .closing →
      Moves n (.write ok)
        { ({ n with server := (sendOrDrop n.server (.unregisterHost myNetworkId) ok).1
             }.unregistered.clearAdvertised buildResponsePacket) with pc := .heartbeat }
        (sendOrDrop n.server (.unregisterHost myNetworkId) ok).2
  | leftSent (ok : Bool) : n.pc = .leaving →
      Moves n (.write ok)
        { { n with server := (sendOrDrop n.server (.unregisterHost myNetworkId) ok).1
            }.unregistered with pc := .fetching }
        (sendOrDrop n.server (.unregisterHost myNetworkId) ok).2
  | published (ad : ServerAdvertisement) (msg : ClientMessage) (ok : Bool) : n.pc = .publishing ad →
      msg = (if n.hostingRegistered then .updateHost ⟨myNetworkId, ad⟩
        else .registerHost ⟨myNetworkId, ad⟩) →
      Moves n (.write ok)
        { n with
          server := (sendOrDrop n.server msg ok).1
          hostingRegistered := (sendOrDrop n.server msg ok).1.isSome
          registeredAdvertisement := if (sendOrDrop n.server msg ok).1.isSome then some ad else none
          pc := .heartbeat }
        (sendOrDrop n.server msg ok).2
  | asked (ok : Bool) : n.pc = .fetching →
      Moves n (.write ok)
        { n with
          server := (sendOrDrop n.server .listHosts ok).1
          pc := if (sendOrDrop n.server .listHosts ok).1.isSome then .awaiting else .heartbeat }
        (sendOrDrop n.server .listHosts ok).2
  | pinged (ok : Bool) : n.pc = .pinging →
      Moves n (.write ok) { n with server := (sendOrDrop n.server .ping ok).1, pc := .top }
        (sendOrDrop n.server .ping ok).2
  | fetched (hosts : List AdvertisedServer) : n.pc = .awaiting →
      Moves n (.fetched (some hosts))
        { n with
          discovery := n.discovery.replaceAll buildResponsePacket hosts
          advertisedCount := (n.discovery.replaceAll buildResponsePacket hosts).advertised.length
          pc := .heartbeat } none
  | unanswered : n.pc = .awaiting →
      Moves n (.fetched none) { n with server := none, pc := .heartbeat } none
  | beat (pingDue : Bool) : n.pc = .heartbeat →
      Moves n (.beat pingDue)
        { n with pc := if n.server.isSome && pingDue then .pinging else .top } none

theorem detectGameState_cases (portBound : Except Unit Bool) (world : Option World) :
    detectGameState portBound world = (.closed, none) ∨
      detectGameState portBound world = (.browsing, none) ∨
      ∃ w, detectGameState portBound world = (.hosting, some w) := by
  unfold detectGameState
  split
  · split
    · exact Or.inr (Or.inr ⟨_, rfl⟩)
    · exact Or.inr (Or.inl rfl)
  · exact Or.inl rfl
  · exact Or.inl rfl

variable (myNetworkId buildResponsePacket) in
theorem enter_hosting (n : Node) (w : World) :
    n.enter myNetworkId buildResponsePacket (.hosting, some w) =
      if n.hostingRegistered = false ∨ n.registeredAdvertisement ≠ some w.2 then
        { n.clearAdvertised buildResponsePacket with
          localGameId := some w.1
          discovery := (n.clearAdvertised buildResponsePacket).discovery.updateHost
            buildResponsePacket myNetworkId w.2
          pc := .publishing w.2 }
      else { n with localGameId := some w.1, pc := .heartbeat } := by
  unfold Node.clearAdvertised
  by_cases hc : n.advertisedCount > 0
  · simp [Node.enter, Node.clearAdvertised, worldAdvertisement, hc]
  · simp [Node.enter, Node.clearAdvertised, worldAdvertisement, hc]

theorem enter_moves {n : Node} (hpc : n.pc = .detecting) (portBound : Except Unit Bool)
    (world : Option World) :
    Moves myNetworkId buildResponsePacket n (.detect portBound world)
      (n.enter myNetworkId buildResponsePacket (detectGameState portBound world)) none := by
  obtain hd | hd | ⟨w, hd⟩ := detectGameState_cases portBound world
  · rw [hd]
    simp only [Node.enter]
    split
    next hreg => exact Moves.closing hpc hd hreg
    next hreg => exact Moves.closed hpc hd (by simpa using hreg)
  · rw [hd]
    simp only [Node.enter]
    split
    next hreg => exact Moves.leaving hpc hd hreg
    next hreg => exact Moves.browsing hpc hd (by simpa using hreg)
  · rw [hd]
    rw [enter_hosting]
    split
    next hreg => exact Moves.publishing w hpc hd hreg
    next hreg =>
      push Not at hreg
      exact Moves.hosting w hpc hd (by simpa using hreg.1) hreg.2

theorem write_moves {n n' : Node} {ok : Bool} {out : Option (ConnId × ClientMessage)}
    (h : n.write myNetworkId buildResponsePacket ok = some (n', out)) :
    Moves myNetworkId buildResponsePacket n (.write ok) n' out := by
  unfold Node.write at h
  split at h <;> cases h
  next hpc => exact Moves.closedSent ok hpc
  next hpc => exact Moves.leftSent ok hpc
  next ad hpc => exact Moves.published ad _ ok hpc rfl
  next hpc => exact Moves.asked ok hpc
  next hpc => exact Moves.pinged ok hpc

theorem step_cases {n n' : Node} {l : Label} {out : Option (ConnId × ClientMessage)}
    (h : n.step myNetworkId buildResponsePacket l = some (n', out)) :
    Moves myNetworkId buildResponsePacket n l n' out := by
  cases l with
  | top readerDead silent =>
    simp only [Node.step] at h
    split at h
    next hpc =>
      split at h
      next hs =>
        split at h <;> cases h
        next hd => exact Moves.lost hpc hs hd
        next hd => exact Moves.alive hpc hs (by simpa using hd)
      next hs =>
        cases h
        exact Moves.offline hpc (by simpa using hs)
    · cases h
  | connect stream =>
    simp only [Node.step] at h
    split at h
    next hpc =>
      split at h <;> cases h
      · exact Moves.connected _ hpc
      · exact Moves.refused hpc
    · cases h
  | detect portBound world =>
    simp only [Node.step] at h
    split at h
    next hpc =>
      cases h
      exact enter_moves hpc portBound world
    · cases h
  | write ok => exact write_moves h
  | fetched hosts =>
    simp only [Node.step] at h
    split at h
    next hpc =>
      split at h <;> cases h
      · exact Moves.fetched _ hpc
      · exact Moves.unanswered hpc
    · cases h
  | beat pingDue =>
    simp only [Node.step] at h
    split at h
    next hpc =>
      cases h
      exact Moves.beat pingDue hpc
    · cases h

theorem loop_cases {s s' : Loop} {l : Label}
    (h : s.step myNetworkId buildResponsePacket l = some s') :
    ∃ out, s.node.step myNetworkId buildResponsePacket l = some (s'.node, out) ∧
      ((∃ c, l = .connect (some c) ∧ c ∉ s.opened ∧ s'.opened = c :: s.opened) ∨
        (∀ c, l ≠ .connect (some c)) ∧ s'.opened = s.opened) := by
  unfold Loop.step at h
  dsimp only at h
  split at h
  next c =>
    split at h
    · cases h
    next hc =>
      obtain ⟨⟨n', out⟩, hn, rfl⟩ := Option.map_eq_some_iff.mp h
      exact ⟨out, hn, Or.inl ⟨c, rfl, hc, rfl⟩⟩
  next hl =>
    obtain ⟨⟨n', out⟩, hn, rfl⟩ := Option.map_eq_some_iff.mp h
    exact ⟨out, hn, Or.inr ⟨hl, rfl⟩⟩

theorem wrote_eq {e : Event} {n' : Node} {out : Option (ConnId × ClientMessage)}
    (h : e.pre.node.step myNetworkId buildResponsePacket e.label = some (n', out)) :
    wrote myNetworkId buildResponsePacket e = out := by
  rw [wrote, h]
  rfl

/-- Which arm of the match the loop is in, by the state that was detected last. -/
structure Placed (h : List Event) (n : Node) : Prop where
  detecting : n.pc = .detecting → n.server.isSome
  closing : n.pc = .closing →
    lastDetected h = some (.closed, none) ∧ n.hostingRegistered = true
  leaving : n.pc = .leaving →
    lastDetected h = some (.browsing, none) ∧ n.hostingRegistered = true
  publishing : ∀ ad, n.pc = .publishing ad →
    ∃ w, lastDetected h = some (.hosting, some w) ∧ w.2 = ad
  fetching : n.pc = .fetching ∨ n.pc = .awaiting → lastDetected h = some (.browsing, none)

theorem placed_outside {h : List Event} {n : Node}
    (hpc : n.pc = .top ∨ n.pc = .connecting ∨ n.pc = .heartbeat ∨ n.pc = .pinging) :
    Placed h n := by
  rcases hpc with hpc | hpc | hpc | hpc <;> constructor <;> simp [hpc]

theorem Placed.step {h : List Event} {n n' : Node} {e : Event}
    {out : Option (ConnId × ClientMessage)} (hp : Placed h n)
    (hm : Moves myNetworkId buildResponsePacket n e.label n' out) : Placed (e :: h) n' := by
  obtain ⟨s, l⟩ := e
  dsimp only at hm
  cases hm with
  | lost hpc _ _ => exact placed_outside (Or.inl (by simpa using hpc))
  | alive hpc hs _ => exact ⟨fun _ => by simpa using hs, by simp, by simp, by simp, by simp⟩
  | offline hpc _ => exact placed_outside (Or.inr (Or.inl rfl))
  | connected c hpc => exact ⟨fun _ => rfl, by simp, by simp, by simp, by simp⟩
  | refused hpc => exact placed_outside (Or.inl rfl)
  | closing hpc hd hreg =>
    exact ⟨by simp, fun _ => ⟨congrArg some hd, hreg⟩, by simp, by simp, by simp⟩
  | leaving hpc hd hreg =>
    exact ⟨by simp, by simp, fun _ => ⟨congrArg some hd, hreg⟩, by simp, by simp⟩
  | publishing w hpc hd hreg =>
    refine ⟨by simp, by simp, by simp, ?_, by simp⟩
    intro ad had
    cases had
    exact ⟨w, congrArg some hd, rfl⟩
  | browsing hpc hd hreg => exact ⟨by simp, by simp, by simp, by simp, fun _ => congrArg some hd⟩
  | leftSent ok hpc => exact ⟨by simp, by simp, by simp, by simp, fun _ => (hp.leaving hpc).1⟩
  | asked ok hpc =>
    have hb : lastDetected h = some (.browsing, none) := hp.fetching (Or.inl hpc)
    split
    · exact ⟨by simp, by simp, by simp, by simp, fun _ => hb⟩
    · exact placed_outside (Or.inr (Or.inr (Or.inl rfl)))
  | pinged ok hpc => exact placed_outside (Or.inl rfl)
  | beat pingDue hpc =>
    split
    · exact placed_outside (Or.inr (Or.inr (Or.inr rfl)))
    · exact placed_outside (Or.inl rfl)
  | closed hpc _ _ | hosting w hpc _ _ _ | closedSent ok hpc | published ad msg ok hpc _
  | fetched hosts hpc | unanswered hpc => exact placed_outside (Or.inr (Or.inr (Or.inl rfl)))

/-- In every run the loop is in the arm of the state that it detected last. -/
theorem run_placed {h : List Event} {s : Loop}
    (hr : Run (Loop.machine myNetworkId buildResponsePacket) h s) : Placed h s.node := by
  induction hr with
  | nil => exact placed_outside (Or.inl rfl)
  | cons _ hs ih =>
    obtain ⟨out, hn, -⟩ := loop_cases hs
    exact ih.step (step_cases hn)

end Cases

def plainPacket (senderId : UInt64) (data : ServerAdvertisement) : Option (List UInt8) :=
  some (senderId.toUInt8 :: data.serverName.toUTF8.toList)

end Mineshaft.Client
