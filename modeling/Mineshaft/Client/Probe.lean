import Mineshaft.Client.Advertising

namespace Mineshaft.Client

open Mineshaft.Core Mineshaft.Lib Mineshaft.Lib.Transition
open Mineshaft.Server (ConnId)

def Node.SameHosting (n n' : Node) : Prop :=
  n'.hostingRegistered = n.hostingRegistered ∧
    n'.registeredAdvertisement = n.registeredAdvertisement ∧
    n'.localGameId = n.localGameId ∧ n'.discovery = n.discovery

/-- Neither registered as a host nor advertising hosts that were fetched. -/
def Node.Idle (n : Node) : Prop := n.hostingRegistered = false ∧ n.advertisedCount = 0

section Probes

variable (myNetworkId : UInt64)
variable (buildResponsePacket : UInt64 → ServerAdvertisement → Option (List UInt8))

/-- The match of one iteration, from a call of `udp_port_bound` that fails to the
heartbeat, with its events, newest first. -/
inductive FailedProbe (s : Loop) : List Event → Loop → Prop
  | quiet {s' : Loop} (world : Option World) :
      s.step myNetworkId buildResponsePacket (.detect (.error ()) world) = some s' →
      s'.node.pc = .heartbeat → FailedProbe s [⟨s, .detect (.error ()) world⟩] s'
  | wrote {s₁ s' : Loop} (world : Option World) (ok : Bool) :
      s.step myNetworkId buildResponsePacket (.detect (.error ()) world) = some s₁ →
      s₁.step myNetworkId buildResponsePacket (.write ok) = some s' →
      FailedProbe s [⟨s₁, .write ok⟩, ⟨s, .detect (.error ()) world⟩] s'

inductive Beats (s : Loop) : List Event → Loop → Prop
  | quiet {s' : Loop} : s.step myNetworkId buildResponsePacket (.beat false) = some s' →
      Beats s [⟨s, .beat false⟩] s'
  | pinged {s₁ s' : Loop} : s.step myNetworkId buildResponsePacket (.beat true) = some s₁ →
      s₁.step myNetworkId buildResponsePacket (.write true) = some s' →
      Beats s [⟨s₁, .write true⟩, ⟨s, .beat true⟩] s'

/-- The second run is the first one with iterations whose probe fails put in, each
at the top of the loop with the connection up and in an allowed state. -/
inductive Inserted (allowed : Node → Prop) :
    List Event → Loop → List Event → Loop → Prop
  | nil : Inserted allowed [] (Loop.machine myNetworkId buildResponsePacket).init
      [] (Loop.machine myNetworkId buildResponsePacket).init
  | same {h h' : List Event} {s s' t t' : Loop} (l : Label) : Inserted allowed h s h' s' →
      s.step myNetworkId buildResponsePacket l = some t →
      s'.step myNetworkId buildResponsePacket l = some t' →
      Inserted allowed (⟨s, l⟩ :: h) t (⟨s', l⟩ :: h') t'
  | probe {h h' : List Event} {s s' s₁ s₂ t' : Loop} {probed beats : List Event} :
      Inserted allowed h s h' s' → s'.node.server.isSome →
      s'.step myNetworkId buildResponsePacket (.top false false) = some s₁ →
      allowed s₁.node → FailedProbe myNetworkId buildResponsePacket s₁ probed s₂ →
      Beats myNetworkId buildResponsePacket s₂ beats t' →
      Inserted allowed h s (beats ++ probed ++ ⟨s', .top false false⟩ :: h') t'

/-- A probe that fails in this state writes no host message and changes nothing
about hosting. -/
def HarmlessProbe (s : Loop) : Prop :=
  ∀ events s', FailedProbe myNetworkId buildResponsePacket s events s' →
    (∀ e ∈ events, ∀ c msg, wrote myNetworkId buildResponsePacket e = some (c, msg) →
      hostId msg = none) ∧
    s.node.SameHosting s'.node

end Probes

section Iteration

variable {myNetworkId : UInt64}
variable {buildResponsePacket : UInt64 → ServerAdvertisement → Option (List UInt8)}

theorem loop_step {s : Loop} {l : Label} {n' : Node} {out : Option (ConnId × ClientMessage)}
    (hl : ∀ c, l ≠ .connect (some c))
    (hn : s.node.step myNetworkId buildResponsePacket l = some (n', out)) :
    s.step myNetworkId buildResponsePacket l = some { s with node := n' } := by
  unfold Loop.step
  dsimp only
  split
  next c => exact absurd rfl (hl c)
  next => rw [hn]; rfl

def Node.Counted (n : Node) : Prop := n.advertisedCount ≠ 0 → n.discovery.advertised ≠ []

theorem Moves.counted {n n' : Node} {l : Label} {out : Option (ConnId × ClientMessage)}
    (hm : Moves myNetworkId buildResponsePacket n l n' out) (hc : n.Counted) : n'.Counted := by
  unfold Node.Counted at hc ⊢
  cases hm with
  | lost | alive | offline => simpa using hc
  | closed | publishing | closedSent => simp [clearAdvertised_count]
  | fetched hosts hpc =>
    intro hlen hnil
    dsimp only at hlen hnil
    rw [hnil] at hlen
    exact hlen rfl
  | connected | refused | closing | hosting | leaving | browsing | leftSent | published | asked
  | pinged | unanswered | beat => exact hc

theorem run_counted {h : List Event} {s : Loop}
    (hr : Run (Loop.machine myNetworkId buildResponsePacket) h s) : s.node.Counted := by
  apply hr.invariant (fun _ => True) (fun s => s.node.Counted) _ _ (fun _ _ => trivial)
  · intro hc
    exact absurd rfl hc
  · intro s l s' _ hc hs
    obtain ⟨out, hn, -⟩ := loop_cases hs
    exact (step_cases hn).counted hc

theorem detectGameState_error (world : Option World) :
    detectGameState (.error ()) world = (.closed, none) := rfl

theorem clearAdvertised_idle {n : Node} (hz : n.advertisedCount = 0) :
    n.clearAdvertised buildResponsePacket = n := by
  simp [Node.clearAdvertised, hz]

theorem step_detect_idle {s : Loop} (hpc : s.node.pc = .detecting) (hi : s.node.Idle)
    (world : Option World) :
    s.node.step myNetworkId buildResponsePacket (.detect (.error ()) world) =
      some ({ s.node with pc := .heartbeat }, none) := by
  simp [Node.step, hpc, detectGameState_error, Node.enter, hi.1, clearAdvertised_idle hi.2]

theorem failedProbe_idle {s s' : Loop} {events : List Event} (hpc : s.node.pc = .detecting)
    (hi : s.node.Idle) (hp : FailedProbe myNetworkId buildResponsePacket s events s') :
    s' = { s with node := { s.node with pc := .heartbeat } } ∧
      ∃ world, events = [⟨s, .detect (.error ()) world⟩] := by
  cases hp with
  | quiet world hs _ =>
    rw [loop_step (by simp) (step_detect_idle hpc hi world)] at hs
    cases hs
    exact ⟨rfl, world, rfl⟩
  | wrote world ok hs hw =>
    rw [loop_step (by simp) (step_detect_idle hpc hi world)] at hs
    cases hs
    obtain ⟨out, hn, -⟩ := loop_cases hw
    simp [Node.step, Node.write] at hn

theorem harmless_of_idle {s : Loop} (hpc : s.node.pc = .detecting) (hi : s.node.Idle) :
    HarmlessProbe myNetworkId buildResponsePacket s := by
  intro events s' hp
  obtain ⟨rfl, world, rfl⟩ := failedProbe_idle hpc hi hp
  refine ⟨?_, rfl, rfl, rfl, rfl⟩
  intro e he c msg hw
  rw [List.mem_singleton.mp he, wrote_eq (step_detect_idle hpc hi world)] at hw
  cases hw

theorem not_harmless_of_registered {s : Loop} (hpc : s.node.pc = .detecting)
    (hreg : s.node.hostingRegistered = true) :
    ¬ HarmlessProbe myNetworkId buildResponsePacket s := by
  intro hh
  have hd : s.node.step myNetworkId buildResponsePacket (.detect (.error ()) none) =
      some ({ s.node with pc := .closing }, none) := by
    simp [Node.step, hpc, detectGameState_error, Node.enter, hreg]
  obtain ⟨n', out, hw⟩ : ∃ n' out,
      Node.step myNetworkId buildResponsePacket { s.node with pc := .closing } (.write true) =
        some (n', out) ∧ n'.hostingRegistered = false := by
    refine ⟨_, _, rfl, ?_⟩
    simp [Node.unregistered]
  have hp := FailedProbe.wrote none true (loop_step (by simp) hd) (loop_step (by simp) hw.1)
  have hsame := (hh _ _ hp).2.1
  dsimp only at hsame
  rw [hw.2, hreg] at hsame
  cases hsame

theorem not_harmless_of_counted {s : Loop} (hpc : s.node.pc = .detecting)
    (hreg : s.node.hostingRegistered = false) (hz : s.node.advertisedCount ≠ 0)
    (hc : s.node.Counted) : ¬ HarmlessProbe myNetworkId buildResponsePacket s := by
  intro hh
  have hd : s.node.step myNetworkId buildResponsePacket (.detect (.error ()) none) =
      some ({ s.node.clearAdvertised buildResponsePacket with pc := .heartbeat }, none) := by
    simp [Node.step, hpc, detectGameState_error, Node.enter, hreg]
  have hp := FailedProbe.quiet none (loop_step (by simp) hd) rfl
  have hsame := (hh _ _ hp).2.2.2.2
  have hempty : (s.node.discovery.replaceAll buildResponsePacket []).advertised = [] :=
    Advertised.advertised_replaceAll_nil _
  simp only [Node.clearAdvertised, if_pos (Nat.pos_of_ne_zero hz)] at hsame
  rw [hsame] at hempty
  exact hc hz hempty

theorem harmlessProbe_iff {h : List Event} {s : Loop}
    (hr : Run (Loop.machine myNetworkId buildResponsePacket) h s) (hpc : s.node.pc = .detecting) :
    HarmlessProbe myNetworkId buildResponsePacket s ↔ s.node.Idle := by
  constructor
  · intro hh
    cases hreg : s.node.hostingRegistered with
    | true => exact absurd hh (not_harmless_of_registered hpc hreg)
    | false =>
      by_contra hni
      have hz : s.node.advertisedCount ≠ 0 := fun hz => hni ⟨hreg, hz⟩
      exact not_harmless_of_counted hpc hreg hz (run_counted hr) hh
  · exact harmless_of_idle hpc

theorem step_top_alive {s s₁ : Loop} (hup : s.node.server.isSome)
    (hs : s.step myNetworkId buildResponsePacket (.top false false) = some s₁) :
    s.node.pc = .top ∧ s₁ = { s with node := { s.node with pc := .detecting } } := by
  have hreap : s.node.reap = s.node := by
    simp [Node.reap, Option.isNone_iff_eq_none, Option.isSome_iff_ne_none.mp hup]
  have hpc : s.node.pc = .top := by
    obtain ⟨out, hn, -⟩ := loop_cases hs
    by_contra hne
    simp [Node.step, hne] at hn
  have hn : s.node.step myNetworkId buildResponsePacket (.top false false) =
      some ({ s.node with pc := .detecting }, none) := by
    simp [Node.step, hpc, hup, hreap]
  rw [loop_step (by simp) hn] at hs
  cases hs
  exact ⟨hpc, rfl⟩

theorem beats_top {s s' : Loop} {events : List Event} (hup : s.node.server.isSome)
    (hpc : s.node.pc = .heartbeat) (hb : Beats myNetworkId buildResponsePacket s events s') :
    s' = { s with node := { s.node with pc := .top } } ∧
      ∀ e ∈ events, ∀ c msg, wrote myNetworkId buildResponsePacket e = some (c, msg) →
        hostId msg = none := by
  obtain ⟨c, hc⟩ := Option.isSome_iff_exists.mp hup
  cases hb with
  | quiet hs =>
    have hn : s.node.step myNetworkId buildResponsePacket (.beat false) =
        some ({ s.node with pc := .top }, none) := by
      simp [Node.step, hpc]
    rw [loop_step (by simp) hn] at hs
    cases hs
    refine ⟨rfl, ?_⟩
    intro e he d msg hw
    rw [List.mem_singleton.mp he, wrote_eq hn] at hw
    cases hw
  | pinged hs hp =>
    have hn : s.node.step myNetworkId buildResponsePacket (.beat true) =
        some ({ s.node with pc := .pinging }, none) := by
      simp [Node.step, hpc, hc]
    rw [loop_step (by simp) hn] at hs
    cases hs
    have hw : Node.step myNetworkId buildResponsePacket { s.node with pc := .pinging }
        (.write true) = some ({ s.node with pc := .top }, some (c, .ping)) := by
      simp [Node.step, Node.write, sendOrDrop, hc]
    rw [loop_step (by simp) hw] at hp
    cases hp
    refine ⟨rfl, ?_⟩
    intro e he d msg hwrote
    obtain rfl | he := List.mem_cons.mp he
    · rw [wrote_eq hw] at hwrote
      cases hwrote
      rfl
    · rw [List.mem_singleton.mp he, wrote_eq hn] at hwrote
      cases hwrote

theorem hostMessages_append {events h : List Event} (c : ConnId)
    (hq : ∀ e ∈ events, ∀ c msg, wrote myNetworkId buildResponsePacket e = some (c, msg) →
      hostId msg = none) :
    hostMessages myNetworkId buildResponsePacket c (events ++ h) =
      hostMessages myNetworkId buildResponsePacket c h := by
  induction events with
  | nil => rfl
  | cons e events ih =>
    rw [List.cons_append, hostMessages_cons rfl c (fun msg hw => hq e List.mem_cons_self c msg hw)]
    exact ih (fun e he => hq e (List.mem_cons_of_mem _ he))

theorem inserted_refl {allowed : Node → Prop} {h : List Event} {s : Loop}
    (hr : Run (Loop.machine myNetworkId buildResponsePacket) h s) :
    Inserted myNetworkId buildResponsePacket allowed h s h s := by
  induction hr with
  | nil => exact Inserted.nil
  | cons _ hs ih => exact Inserted.same _ ih hs hs

theorem inserted_idle {h h' : List Event} {s s' : Loop}
    (hi : Inserted myNetworkId buildResponsePacket Node.Idle h s h' s') :
    s' = s ∧ ∀ c, hostMessages myNetworkId buildResponsePacket c h' =
      hostMessages myNetworkId buildResponsePacket c h := by
  induction hi with
  | nil => exact ⟨rfl, fun _ => rfl⟩
  | same l _ hs hs' ih =>
    obtain ⟨rfl, hsame⟩ := ih
    rw [hs] at hs'
    cases hs'
    refine ⟨rfl, fun c => ?_⟩
    have hc := hsame c
    simp only [hostMessages, collect] at hc ⊢
    rw [hc]
  | @probe h h' s s' s₁ s₂ t' probed beats _ hup htop hidle hprobe hbeats ih =>
    obtain ⟨rfl, hsame⟩ := ih
    obtain ⟨hpc, rfl⟩ := step_top_alive hup htop
    have hquiet := (harmless_of_idle rfl hidle probed s₂ hprobe).1
    obtain ⟨rfl, -, -⟩ := failedProbe_idle rfl hidle hprobe
    obtain ⟨rfl, hping⟩ := beats_top (by exact hup) rfl hbeats
    have htopQuiet : wrote myNetworkId buildResponsePacket ⟨s', .top false false⟩ = none := by
      simp [wrote, Node.step, hpc, hup]
    refine ⟨?_, fun c => ?_⟩
    · obtain ⟨⟨pc, _⟩, _⟩ := s'
      dsimp only at hpc
      rw [hpc]
    · rw [List.append_assoc, hostMessages_append c hping, hostMessages_append c hquiet,
        hostMessages_cons htopQuiet c (by simp), hsame c]

end Iteration

/-- A failing probe is taken for a closed game. It changes nothing exactly in the
states in which a closed game calls for nothing, and runs in which probes fail
in such states only are like the runs without them. -/
theorem failed_probe_iff {myNetworkId : UInt64}
    {buildResponsePacket : UInt64 → ServerAdvertisement → Option (List UInt8)} {h : List Event}
    {s : Loop} (hr : Run (Loop.machine myNetworkId buildResponsePacket) h s) :
    (s.node.pc = .detecting → s.node.server.isSome ∧
      (HarmlessProbe myNetworkId buildResponsePacket s ↔
        s.node.hostingRegistered = false ∧ s.node.advertisedCount = 0)) ∧
    ∀ h' s', Inserted myNetworkId buildResponsePacket Node.Idle h s h' s' →
      (∀ c, hostMessages myNetworkId buildResponsePacket c h' =
        hostMessages myNetworkId buildResponsePacket c h) ∧
      s'.node.discovery.advertised = s.node.discovery.advertised ∧ s' = s := by
  refine ⟨fun hpc => ⟨(run_placed hr).detecting hpc, harmlessProbe_iff hr hpc⟩, ?_⟩
  intro h' s' hi
  obtain ⟨rfl, hsame⟩ := inserted_idle hi
  exact ⟨hsame, rfl, rfl⟩

/-- A node whose connection was lost while it hosted the game 5: it is connected
again, the world is closed, and the id of the game and the advertised world are
still there. -/
def reconnectedIdle : List Label :=
  [.top false false, .connect (some 0), .detect (.ok true) (some (5, default)), .write true,
    .beat false, .top true false, .top false false, .connect (some 1), .detect (.ok false) none,
    .beat false]

theorem failed_probe_reconnectedIdle :
    (replay (Loop.machine 7 plainPacket) reconnectedIdle).2.node.localGameId = some 5 ∧
      (replay (Loop.machine 7 plainPacket) reconnectedIdle).2.node.discovery.advertised ≠ [] ∧
      HarmlessProbe 7 plainPacket
        (replay (Loop.machine 7 plainPacket) (reconnectedIdle ++ [.top false false])).2 ∧
      ∀ c, hostMessages 7 plainPacket c (replay (Loop.machine 7 plainPacket) (reconnectedIdle ++
          [.top false false, .detect (.error ()) none, .beat false, .top false false])).1 =
        hostMessages 7 plainPacket c
          (replay (Loop.machine 7 plainPacket) (reconnectedIdle ++ [.top false false])).1 := by
  have hr : Run (Loop.machine 7 plainPacket) _ _ :=
    replay_run (reconnectedIdle ++ [.top false false])
  have hpc : (replay (Loop.machine 7 plainPacket)
      (reconnectedIdle ++ [.top false false])).2.node.pc = .detecting := by decide +kernel
  have hprobe : FailedProbe 7 plainPacket
      (replay (Loop.machine 7 plainPacket) (reconnectedIdle ++ [.top false false])).2 _
      (replay (Loop.machine 7 plainPacket)
        (reconnectedIdle ++ [.top false false, .detect (.error ()) none])).2 :=
    FailedProbe.quiet none rfl (by decide +kernel)
  have hidle : (replay (Loop.machine 7 plainPacket)
      (reconnectedIdle ++ [.top false false])).2.node.Idle :=
    ⟨by decide +kernel, by decide +kernel⟩
  have hput : Inserted 7 plainPacket Node.Idle _ _ _ _ :=
    Inserted.same (.top false false)
      (Inserted.probe (inserted_refl (replay_run reconnectedIdle)) (by decide +kernel) rfl
        hidle hprobe (Beats.quiet rfl)) rfl rfl
  exact ⟨by decide +kernel, by decide +kernel, ((failed_probe_iff hr).1 hpc).2.mpr (by decide +kernel),
    ((failed_probe_iff hr).2 _ _ hput).1⟩

/-- A node that hosts a world and cannot read the tables once. -/
def hostingThenFailure : List Label :=
  [.top false false, .connect (some 0), .detect (.ok true) (some (5, default)), .write true,
    .beat false, .top false false]

theorem failed_probe_hosting :
    (replay (Loop.machine 7 plainPacket) hostingThenFailure).2.node.pc = .detecting ∧
      (replay (Loop.machine 7 plainPacket) hostingThenFailure).2.node.hostingRegistered = true ∧
      hostMessages 7 plainPacket 0 (replay (Loop.machine 7 plainPacket)
        (hostingThenFailure ++ [.detect (.error ()) none, .write true])).1 =
        [.registerHost ⟨7, default⟩, .unregisterHost 7] ∧
      ¬ HarmlessProbe 7 plainPacket
        (replay (Loop.machine 7 plainPacket) hostingThenFailure).2 := by
  have hpc : (replay (Loop.machine 7 plainPacket) hostingThenFailure).2.node.pc =
      .detecting := by decide +kernel
  have hreg : (replay (Loop.machine 7 plainPacket) hostingThenFailure).2.node.hostingRegistered =
      true := by decide +kernel
  exact ⟨hpc, hreg, by decide +kernel, not_harmless_of_registered hpc hreg⟩

end Mineshaft.Client
