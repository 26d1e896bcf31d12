import Mineshaft.Client.Identity
import Mineshaft.Core.Cache

namespace Mineshaft.Client

open Mineshaft.Core Mineshaft.Lib Mineshaft.Lib.Transition
open Mineshaft.Server (ConnId)

def fetchedHosts (e : Event) : Option (List AdvertisedServer) :=
  match e.label with
  | .fetched hosts => hosts
  | .top _ _ | .connect _ | .detect _ _ | .write _ | .beat _ => none

/-- The game was seen hosting since the last host list was taken in. -/
def HostedSinceFetch (h : List Event) : Prop :=
  Since (fun e => fetchedHosts e = none) (fun e _ => detected e = some .hosting) h

instance (h : List Event) : Decidable (HostedSinceFetch h) :=
  inferInstanceAs (Decidable (Since _ _ h))

/-- At the end of a match the registry holds what the detected state calls for:
nothing, the own world, or the hosts that were just fetched. -/
def AsCalledFor (myNetworkId : UInt64) (h : List Event) (n : Node) : Prop :=
  n.pc = .heartbeat →
    match lastDetected h with
    | some (.closed, _) => n.discovery.advertised = []
    | some (.hosting, world) =>
      n.discovery.advertised = [⟨myNetworkId, worldAdvertisement myNetworkId world⟩]
    | some (.browsing, _) => ∀ hosts, h.head?.bind fetchedHosts = some hosts →
      ∀ a, a ∈ n.discovery.advertised ↔
        (Advertised.entriesOf hosts a.senderId).getLast? = some a
    | none => True

theorem hostedSinceFetch_cons {e : Event} {h : List Event} (hd : detected e ≠ some .hosting)
    (hf : fetchedHosts e = none) : HostedSinceFetch (e :: h) ↔ HostedSinceFetch h := by
  unfold HostedSinceFetch
  rw [since_cons]
  simp [hd, hf]

section Runs

variable {myNetworkId : UInt64}
variable {buildResponsePacket : UInt64 → ServerAdvertisement → Option (List UInt8)}

theorem clearAdvertised_count (n : Node) :
    (n.clearAdvertised buildResponsePacket).advertisedCount = 0 := by
  unfold Node.clearAdvertised
  split
  · rfl
  next hc => exact Nat.eq_zero_of_not_pos hc

variable (myNetworkId buildResponsePacket) in
structure Advertising (h : List Event) (n : Node) : Prop where
  coherent : n.discovery.Coherent buildResponsePacket
  hosted : HostedSinceFetch h →
    n.advertisedCount = 0 ∧ ∃ ad, n.discovery.advertised = [⟨myNetworkId, ad⟩]
  counted : ¬ HostedSinceFetch h → n.advertisedCount = 0 → n.discovery.advertised = []
  registered : n.hostingRegistered = true → (∀ ad, n.pc ≠ .publishing ad) →
    HostedSinceFetch h ∧ ∀ ad, n.registeredAdvertisement = some ad →
      n.discovery.advertised = [⟨myNetworkId, ad⟩]
  publishing : ∀ ad, n.pc = .publishing ad →
    HostedSinceFetch h ∧ n.discovery.advertised = [⟨myNetworkId, ad⟩]

theorem Advertising.cleared {h : List Event} {n : Node}
    (hi : Advertising myNetworkId buildResponsePacket h n) :
    (n.clearAdvertised buildResponsePacket).discovery.Coherent buildResponsePacket ∧
    (HostedSinceFetch h → ∃ ad,
      (n.clearAdvertised buildResponsePacket).discovery.advertised = [⟨myNetworkId, ad⟩]) ∧
    (¬ HostedSinceFetch h →
      (n.clearAdvertised buildResponsePacket).discovery.advertised = []) := by
  unfold Node.clearAdvertised
  split
  next hc =>
    have hn : ¬ HostedSinceFetch h := fun hh => by
      have := (hi.hosted hh).1
      omega
    have hnil : (n.discovery.replaceAll buildResponsePacket []).advertised = [] :=
      Advertised.advertised_replaceAll_nil _
    exact ⟨Advertised.call_coherent hi.coherent (.replaceAll []), fun hh => absurd hh hn,
      fun _ => hnil⟩
  next hc =>
    have hz : n.advertisedCount = 0 := Nat.eq_zero_of_not_pos hc
    exact ⟨hi.coherent, fun hh => (hi.hosted hh).2, fun hn => hi.counted hn hz⟩

theorem Advertising.own {h : List Event} {n : Node}
    (hi : Advertising myNetworkId buildResponsePacket h n) :
    (n.clearAdvertised buildResponsePacket).discovery.advertised = [] ∨ ∃ ad,
      (n.clearAdvertised buildResponsePacket).discovery.advertised = [⟨myNetworkId, ad⟩] := by
  by_cases hh : HostedSinceFetch h
  · exact Or.inr (hi.cleared.2.1 hh)
  · exact Or.inl (hi.cleared.2.2 hh)

theorem Advertising.frame {h : List Event} {n n' : Node} {e : Event}
    (hi : Advertising myNetworkId buildResponsePacket h n)
    (he : detected e ≠ some .hosting) (hf : fetchedHosts e = none)
    (hpc : (∀ ad, n.pc ≠ .publishing ad) ∧ ∀ ad, n'.pc ≠ .publishing ad)
    (hd : n'.discovery = n.discovery ∧ n'.advertisedCount = n.advertisedCount)
    (hreg : n'.hostingRegistered = true → n.hostingRegistered = true ∧
      n'.registeredAdvertisement = n.registeredAdvertisement) :
    Advertising myNetworkId buildResponsePacket (e :: h) n' := by
  have hh := hostedSinceFetch_cons (h := h) he hf
  constructor
  · rw [hd.1]
    exact hi.coherent
  · rw [hh, hd.1, hd.2]
    exact hi.hosted
  · rw [hh, hd.1, hd.2]
    exact hi.counted
  · intro hr _
    obtain ⟨hr, ha⟩ := hreg hr
    rw [hh, hd.1, ha]
    exact hi.registered hr hpc.1
  · exact fun ad hp => absurd hp (hpc.2 ad)

theorem Advertising.closed {h : List Event} {n n' : Node} {e : Event}
    (hi : Advertising myNetworkId buildResponsePacket h n)
    (he : detected e ≠ some .hosting) (hf : fetchedHosts e = none)
    (hn : n' = { n.clearAdvertised buildResponsePacket with pc := .heartbeat })
    (hreg : n.hostingRegistered = false) :
    Advertising myNetworkId buildResponsePacket (e :: h) n' := by
  subst hn
  have hh := hostedSinceFetch_cons (h := h) he hf
  constructor
  · exact hi.cleared.1
  · rw [hh]
    exact fun hs => ⟨clearAdvertised_count n, hi.cleared.2.1 hs⟩
  · rw [hh]
    exact fun hs _ => hi.cleared.2.2 hs
  · intro hr
    dsimp only at hr
    rw [clearAdvertised_hostingRegistered, hreg] at hr
    cases hr
  · intro ad hp
    cases hp

theorem Advertising.unregistered {h : List Event} {n n' : Node}
    (hi : Advertising myNetworkId buildResponsePacket h n)
    (hd : n'.discovery = n.discovery ∧ n'.advertisedCount = n.advertisedCount)
    (hreg : n'.hostingRegistered = false) (hpc : ∀ ad, n'.pc ≠ .publishing ad) :
    Advertising myNetworkId buildResponsePacket h n' := by
  constructor
  · rw [hd.1]
    exact hi.coherent
  · rw [hd.1, hd.2]
    exact hi.hosted
  · rw [hd.1, hd.2]
    exact hi.counted
  · intro hr
    rw [hreg] at hr
    cases hr
  · exact fun ad hp => absurd hp (hpc ad)

theorem Advertising.hosting {h : List Event} {n' : Node} (ad : ServerAdvertisement)
    (hc : n'.discovery.Coherent buildResponsePacket) (hh : HostedSinceFetch h)
    (hz : n'.advertisedCount = 0) (ha : n'.discovery.advertised = [⟨myNetworkId, ad⟩])
    (hreg : n'.hostingRegistered = true → (∀ ad, n'.pc ≠ .publishing ad) →
      n'.registeredAdvertisement = some ad)
    (hpc : ∀ ad', n'.pc = .publishing ad' → ad' = ad) :
    Advertising myNetworkId buildResponsePacket h n' := by
  constructor
  · exact hc
  · exact fun _ => ⟨hz, ad, ha⟩
  · exact fun hn => absurd hh hn
  · intro hr hp
    refine ⟨hh, ?_⟩
    intro ad' had
    rw [hreg hr hp] at had
    cases had
    exact ha
  · intro ad' hp
    rw [hpc ad' hp]
    exact ⟨hh, ha⟩

theorem Advertising.fetched {h : List Event} {n n' : Node} {e : Event}
    (hi : Advertising myNetworkId buildResponsePacket h n) {hosts : List AdvertisedServer}
    (hf : fetchedHosts e = some hosts) (he : detected e = none)
    (hd : n'.discovery = n.discovery.replaceAll buildResponsePacket hosts)
    (hc : n'.advertisedCount = n'.discovery.advertised.length)
    (hreg : n'.hostingRegistered = false) (hpc : ∀ ad, n'.pc ≠ .publishing ad) :
    Advertising myNetworkId buildResponsePacket (e :: h) n' := by
  have hn : ¬ HostedSinceFetch (e :: h) := by
    unfold HostedSinceFetch
    rw [since_cons]
    simp [he, hf]
  constructor
  · rw [hd]
    exact Advertised.call_coherent hi.coherent (.replaceAll hosts)
  · exact fun hh => absurd hh hn
  · intro _ hz
    rw [hc] at hz
    exact List.length_eq_zero_iff.mp hz
  · intro hr
    rw [hreg] at hr
    cases hr
  · exact fun ad hp => absurd hp (hpc ad)

theorem Advertising.step (hb : ∀ id data, (buildResponsePacket id data).isSome)
    {h : List Event} {n n' : Node} {e : Event} {out : Option (ConnId × ClientMessage)}
    (hi : Advertising myNetworkId buildResponsePacket h n) (hp : Placed h n) (hid : Identity h n)
    (hm : Moves myNetworkId buildResponsePacket n e.label n' out) :
    Advertising myNetworkId buildResponsePacket (e :: h) n' := by
  obtain ⟨s, l⟩ := e
  dsimp only at hm
  cases hm with
  | lost hpc _ _ | alive hpc _ _ | offline hpc _ =>
    exact hi.frame (by simp [detected]) rfl (by simp [hpc]) (by simp) (by simp)
  | connected c hpc =>
    exact hi.frame (by simp [detected]) rfl (by simp [hpc]) ⟨rfl, rfl⟩ (by simp)
  | refused hpc | pinged _ hpc | unanswered hpc =>
    exact hi.frame (by simp [detected]) rfl (by simp [hpc]) ⟨rfl, rfl⟩ (fun hr => ⟨hr, rfl⟩)
  | closing hpc hd _ | leaving hpc hd _ | browsing hpc hd _ =>
    exact hi.frame (by simp [detected, hd]) rfl (by simp [hpc]) ⟨rfl, rfl⟩ (fun hr => ⟨hr, rfl⟩)
  | closed hpc hd hreg => exact hi.closed (by simp [detected, hd]) rfl rfl hreg
  | publishing w hpc hd hreg =>
    refine Advertising.hosting w.2 ?_ (Since.here (by simp [detected, hd]))
      (clearAdvertised_count n) (Advertised.advertised_updateHost hb hi.own w.2) ?_ ?_
    · exact Advertised.advertise_coherent hi.cleared.1 _ _
    · exact fun _ hne => absurd rfl (hne w.2)
    · rintro ad' hp
      cases hp
      rfl
  | hosting w hpc hd hreg had =>
    obtain ⟨hh, hall⟩ := hi.registered hreg (by simp [hpc])
    exact Advertising.hosting w.2 hi.coherent (Since.here (by simp [detected, hd]))
      (hi.hosted hh).1 (hall w.2 had) (fun _ _ => had) (by simp)
  | closedSent ok hpc =>
    refine Advertising.closed (n := { n with
      server := (sendOrDrop n.server (.unregisterHost myNetworkId) ok).1 }.unregistered)
      ?_ (by simp [detected]) rfl rfl rfl
    exact hi.unregistered ⟨rfl, rfl⟩ rfl (by simp [Node.unregistered, hpc])
  | leftSent ok hpc =>
    exact hi.frame (by simp [detected]) rfl (by simp [hpc]) ⟨rfl, rfl⟩ (by simp [Node.unregistered])
  | published ad msg ok hpc hmsg =>
    obtain ⟨hh, ha⟩ := hi.publishing ad hpc
    refine Advertising.hosting ad hi.coherent ?_ (hi.hosted hh).1 ha ?_ (by simp)
    · exact (hostedSinceFetch_cons (by simp [detected]) rfl).mpr hh
    · intro hr _
      dsimp only at hr ⊢
      rw [if_pos hr]
  | asked ok hpc =>
    refine hi.frame (by simp [detected]) rfl ⟨by simp [hpc], ?_⟩ ⟨rfl, rfl⟩ (fun hr => ⟨hr, rfl⟩)
    intro ad
    dsimp only
    split <;> simp
  | fetched hosts hpc =>
    refine hi.fetched rfl rfl rfl rfl ?_ (by simp)
    have ha : Away h := Or.inr (by rw [hp.fetching (Or.inr hpc)]; rfl)
    exact (hid.away ha (by simp [hpc]) (by simp [hpc])).1
  | beat pingDue hpc =>
    refine hi.frame (by simp [detected]) rfl ⟨by simp [hpc], ?_⟩ ⟨rfl, rfl⟩ (fun hr => ⟨hr, rfl⟩)
    intro ad
    dsimp only
    split <;> simp

theorem run_advertising (hb : ∀ id data, (buildResponsePacket id data).isSome)
    {h : List Event} {s : Loop} (hr : Run (Loop.machine myNetworkId buildResponsePacket) h s) :
    Advertising myNetworkId buildResponsePacket h s.node := by
  induction hr with
  | nil =>
    constructor
    · exact Advertised.empty_coherent
    · intro hh
      cases hh
    · exact fun _ _ => rfl
    · intro hr
      cases hr
    · intro ad hp
      cases hp
  | cons hr hs ih =>
    obtain ⟨out, hn, -⟩ := loop_cases hs
    exact ih.step hb (run_placed hr) (run_identity hr) (step_cases hn)

theorem matched (hb : ∀ id data, (buildResponsePacket id data).isSome) {h : List Event}
    {s s' : Loop} {l : Label} (hr : Run (Loop.machine myNetworkId buildResponsePacket) h s)
    (hs : s.step myNetworkId buildResponsePacket l = some s') (hpc : s'.node.pc = .heartbeat) :
    (∃ w, lastDetected (⟨s, l⟩ :: h) = some (.closed, w) ∧ s'.node.advertisedCount = 0) ∨
    (∃ w, lastDetected (⟨s, l⟩ :: h) = some (.hosting, some w) ∧
      s'.node.discovery.advertised = [⟨myNetworkId, w.2⟩]) ∨
    (∃ w, lastDetected (⟨s, l⟩ :: h) = some (.browsing, w) ∧
      ∀ hosts, fetchedHosts ⟨s, l⟩ = some hosts → ∀ a, a ∈ s'.node.discovery.advertised ↔
        (Advertised.entriesOf hosts a.senderId).getLast? = some a) := by
  have hi := run_advertising hb hr
  have hp := run_placed hr
  obtain ⟨out, hn, -⟩ := loop_cases hs
  have hm := step_cases hn
  generalize s'.node = n' at hm hpc
  cases hm with
  | closed hpc₀ hd hreg =>
    exact Or.inl ⟨none, congrArg some hd, clearAdvertised_count _⟩
  | closedSent ok hpc₀ =>
    exact Or.inl ⟨none, (hp.closing hpc₀).1, clearAdvertised_count _⟩
  | hosting w hpc₀ hd hreg had =>
    have ha := (hi.registered hreg (by simp [hpc₀])).2 w.2 had
    exact Or.inr (Or.inl ⟨w, congrArg some hd, ha⟩)
  | published ad msg ok hpc₀ hmsg =>
    obtain ⟨w, hw, rfl⟩ := hp.publishing ad hpc₀
    exact Or.inr (Or.inl ⟨w, hw, (hi.publishing w.2 hpc₀).2⟩)
  | asked _ hpc₀ =>
    exact Or.inr (Or.inr ⟨none, hp.fetching (Or.inl hpc₀), by simp [fetchedHosts]⟩)
  | unanswered hpc₀ =>
    exact Or.inr (Or.inr ⟨none, hp.fetching (Or.inr hpc₀), by simp [fetchedHosts]⟩)
  | fetched hosts hpc₀ =>
    refine Or.inr (Or.inr ⟨none, hp.fetching (Or.inr hpc₀), ?_⟩)
    rintro hosts' hf
    cases hf
    exact Advertised.mem_advertised_replaceAll hb hi.coherent hosts
  | lost hpc₀ _ _ => simp [hpc₀] at hpc
  | beat pingDue hpc₀ =>
    dsimp only at hpc
    split at hpc <;> cases hpc
  | alive _ _ _ | offline _ _ | connected _ _ | refused _ | closing _ _ _ | publishing _ _ _ _
  | leaving _ _ _ | browsing _ _ _ | leftSent _ _ | pinged _ _ => cases hpc

/-- The registry holds what the state of the game calls for, but for one case:
the own world stays advertised when the game is closed before a host list was
taken in. -/
theorem advertised_as_called_for_iff (hb : ∀ id data, (buildResponsePacket id data).isSome)
    {h : List Event} {s : Loop} (hr : Run (Loop.machine myNetworkId buildResponsePacket) h s) :
    AsCalledFor myNetworkId h s.node ↔
      ¬ (s.node.pc = .heartbeat ∧ (lastDetected h).map (fun r => r.1) = some .closed ∧
        HostedSinceFetch h) := by
  have hi := run_advertising hb hr
  unfold AsCalledFor
  by_cases hpc : s.node.pc = .heartbeat
  · cases hr with
    | nil => cases hpc
    | cons hr hs =>
      obtain ⟨w, hd, hz⟩ | ⟨w, hd, ha⟩ | ⟨w, hd, ha⟩ := matched hb hr hs hpc
      · -- the counter is zero, so only the own world can be left
        rw [hd]
        simp only [hpc, true_implies, Option.map_some, true_and]
        constructor
        · intro hnil hh
          obtain ⟨ad, had⟩ := (hi.hosted hh).2
          rw [hnil] at had
          cases had
        · exact fun hh => hi.counted hh hz
      · rw [hd]
        simp [hpc, ha, worldAdvertisement]
      · rw [hd]
        simp only [hpc, true_implies, Option.map_some, Option.some_inj, reduceCtorEq, false_and,
          and_false, not_false_eq_true, iff_true]
        exact ha
  · simp [hpc]

end Runs

/-- A node hosts a world, browses a host list that names a host twice, and finds
the game closed. -/
def browsingHosts : List Label :=
  [.top false false, .connect (some 0), .detect (.ok true) (some (5, default)), .write true,
    .beat false, .top false false, .detect (.ok true) none, .write true, .write true,
    .fetched (some [⟨8, default⟩, ⟨8, { (default : ServerAdvertisement) with playerCount := 3 }⟩]),
    .beat false, .top false false, .detect (.ok false) none]

def closingWorld : List Label :=
  [.top false false, .connect (some 0), .detect (.ok true) (some (5, default)), .write true,
    .beat false, .top false false, .detect (.ok false) none, .write true]

theorem advertised_as_called_for_browsing :
    (replay (Loop.machine 7 plainPacket) browsingHosts).1.length = 13 ∧
    AsCalledFor 7 (replay (Loop.machine 7 plainPacket) browsingHosts).1
      (replay (Loop.machine 7 plainPacket) browsingHosts).2.node :=
  ⟨by decide +kernel,
    (advertised_as_called_for_iff (fun _ _ => rfl) (replay_run browsingHosts)).mpr
      (by decide +kernel)⟩

/-- The world stays advertised after the iteration that found the game closed. -/
theorem advertised_after_closing :
    (replay (Loop.machine 7 plainPacket) closingWorld).1.length = 8 ∧
    (replay (Loop.machine 7 plainPacket) closingWorld).2.node.pc = .heartbeat ∧
    lastDetected (replay (Loop.machine 7 plainPacket) closingWorld).1 = some (.closed, none) ∧
    (replay (Loop.machine 7 plainPacket) closingWorld).2.node.discovery.advertised =
      [⟨7, default⟩] :=
  ⟨by decide +kernel, by decide +kernel, by decide +kernel, by decide +kernel⟩

end Mineshaft.Client
