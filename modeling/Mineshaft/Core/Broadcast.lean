import Mineshaft.Core.Cache
import Mineshaft.Lib.Transition

namespace Mineshaft.Core.Broadcast

open Mineshaft.Lib Mineshaft.Lib.Transition

abbrev Send := List UInt8 × SocketAddr

/-- The sends of `broadcast_once`, in the order of its two loops. -/
def sendsOf (packets : List (List UInt8)) (targets : List SocketAddr) : List Send :=
  packets.flatMap (fun packet => targets.map (fun target => (packet, target)))

/-- The registry of a service, and for each broadcast that has started the sends
that are ahead of it. -/
structure Service where
  advertised : Advertised
  ahead : Nat → Option (List Send)

/-- A call, the snapshot that a broadcast starts with, in any order that the
registry can be iterated in, or the next send of a broadcast. -/
inductive Label
  | call (c : Call)
  | snapshot (job : Nat) (packets : List (List UInt8)) (targets : List SocketAddr)
  | send (job : Nat) (ok : Bool)

abbrev Event := Transition.Event Service Label

section Steps

variable (build : UInt64 → ServerAdvertisement → Option (List UInt8))

def step (s : Service) : Label → Option Service
  | .call c => some { s with advertised := s.advertised.call build c }
  | .snapshot job packets targets =>
    if s.ahead job = none ∧ packets.Perm (s.advertised.values.map (fun entry => entry.packet)) then
      some { s with ahead := Function.update s.ahead job (some (sendsOf packets targets)) }
    else none
  | .send job _ =>
    -- a failed send is traced and the loops go on
    match s.ahead job with
    | some (_ :: rest) => some { s with ahead := Function.update s.ahead job (some rest) }
    | some [] => none
    | none => none

def machine : Machine Service Label := ⟨⟨∅, fun _ => none⟩, step build⟩

end Steps

def attempted (job : Nat) (e : Event) : List Send :=
  match e.label with
  | .send j _ => if j = job then ((e.pre.ahead job).getD []).take 1 else []
  | .call _ | .snapshot _ _ _ => []

def attempts (job : Nat) (h : List Event) : List Send := collect (attempted job) h

variable {build : UInt64 → ServerAdvertisement → Option (List UInt8)}

theorem run_coherent {h : List Event} {s : Service} (hr : Run (machine build) h s) :
    s.advertised.Coherent build := by
  refine hr.invariant (fun _ => True) (fun s => s.advertised.Coherent build)
    Advertised.empty_coherent ?_ (fun _ _ => trivial)
  intro s l s' _ hc hs
  cases l with
  | call c =>
    cases hs
    exact Advertised.call_coherent hc c
  | snapshot job packets targets =>
    simp only [machine, step] at hs
    split at hs <;> cases hs
    exact hc
  | send job ok =>
    simp only [machine, step] at hs
    split at hs <;> cases hs
    exact hc

structure Accounted (h : List Event) (s : Service) (job : Nat) : Prop where
  idle : s.ahead job = none → attempts job h = []
  started : ∀ e ∈ h, ∀ packets targets, e.label = .snapshot job packets targets →
    ∃ sends, s.ahead job = some sends ∧ attempts job h ++ sends = sendsOf packets targets

theorem Accounted.frame {h : List Event} {s s' : Service} {job : Nat} {e : Event}
    (ha : Accounted h s job) (hs : s'.ahead job = s.ahead job) (he : attempted job e = [])
    (hl : ∀ packets targets, e.label ≠ .snapshot job packets targets) :
    Accounted (e :: h) s' job := by
  have hat : attempts job (e :: h) = attempts job h := by
    rw [attempts, collect, he, List.append_nil]
    rfl
  constructor
  · rw [hs, hat]
    exact ha.idle
  · intro e' he' packets targets hlab
    rw [hs, hat]
    obtain rfl | he' := List.mem_cons.mp he'
    · exact absurd hlab (hl packets targets)
    · exact ha.started e' he' packets targets hlab

theorem Accounted.began {h : List Event} {s s' : Service} {job : Nat} {packets : List (List UInt8)}
    {targets : List SocketAddr} (ha : Accounted h s job) (hn : s.ahead job = none)
    (hs : s'.ahead job = some (sendsOf packets targets)) :
    Accounted (⟨s, .snapshot job packets targets⟩ :: h) s' job := by
  have hat : attempts job (⟨s, .snapshot job packets targets⟩ :: h) = [] := by
    rw [attempts, collect, attempted, List.append_nil]
    exact ha.idle hn
  constructor
  · intro _
    exact hat
  · intro e he packets' targets' hlab
    obtain rfl | he := List.mem_cons.mp he
    · cases hlab
      exact ⟨sendsOf packets targets, hs, by rw [hat]; rfl⟩
    · obtain ⟨sends, hsome, -⟩ := ha.started e he packets' targets' hlab
      rw [hn] at hsome
      cases hsome

theorem Accounted.sent {h : List Event} {s s' : Service} {job : Nat} {ok : Bool}
    {a : Send} {rest : List Send}
    (ha : Accounted h s job) (hn : s.ahead job = some (a :: rest))
    (hs : s'.ahead job = some rest) : Accounted (⟨s, .send job ok⟩ :: h) s' job := by
  have hat : attempts job (⟨s, .send job ok⟩ :: h) = attempts job h ++ [a] := by
    simp [attempts, collect, attempted, hn]
  constructor
  · intro hnone
    rw [hs] at hnone
    cases hnone
  · intro e he packets targets hlab
    obtain rfl | he := List.mem_cons.mp he
    · cases hlab
    · obtain ⟨sends, hsome, heq⟩ := ha.started e he packets targets hlab
      rw [hn] at hsome
      cases hsome
      refine ⟨rest, hs, ?_⟩
      rw [hat, ← heq, List.append_assoc]
      rfl

theorem Accounted.step {h : List Event} {s s' : Service} {l : Label} {job : Nat}
    (ha : Accounted h s job) (hs : Broadcast.step build s l = some s') :
    Accounted (⟨s, l⟩ :: h) s' job := by
  cases l with
  | call c =>
    cases hs
    exact ha.frame rfl rfl (by simp)
  | snapshot j packets targets =>
    simp only [Broadcast.step] at hs
    split at hs <;> cases hs
    next hg =>
    by_cases hj : j = job
    · subst hj
      exact ha.began hg.1 (by simp)
    · refine ha.frame ?_ rfl ?_
      · simp [Ne.symm hj]
      · intro packets' targets' hlab
        cases hlab
        exact hj rfl
  | send j ok =>
    simp only [Broadcast.step] at hs
    split at hs <;> cases hs
    next a rest hn =>
    by_cases hj : j = job
    · subst hj
      exact ha.sent hn (by simp)
    · refine ha.frame ?_ ?_ (by simp)
      · simp [Ne.symm hj]
      · simp [attempted, hj]

theorem run_accounted {h : List Event} {s : Service} (hr : Run (machine build) h s) (job : Nat) :
    Accounted h s job := by
  induction hr with
  | nil =>
    constructor
    · intro _
      rfl
    · intro e he
      simp at he
  | cons hr hs ih => exact ih.step hs

theorem values_eq_advertised {reg : Advertised} (hc : reg.Coherent build) :
    (reg.values.map (fun entry => entry.packet)).map some =
      reg.advertised.map (fun a => build a.senderId a.data) := by
  unfold HashMap.values Advertised.advertised
  simp only [List.map_map]
  apply List.map_congr_left
  rintro ⟨id, entry⟩ he
  exact (hc id entry ((HashMap.lookup_eq_some_iff reg id entry).mpr he)).symm

theorem sendsOf_perm {reg : Advertised} (hc : reg.Coherent build) {packets : List (List UInt8)}
    (hp : packets.Perm (reg.values.map (fun entry => entry.packet))) (targets : List SocketAddr) :
    ((sendsOf packets targets).map (fun send => (some send.1, send.2))).Perm
      (reg.advertised.flatMap
        (fun a => targets.map (fun target => (build a.senderId a.data, target)))) := by
  have hsends : (sendsOf packets targets).map (fun send => (some send.1, send.2)) =
      (packets.map some).flatMap (fun p => targets.map (fun target => (p, target))) := by
    rw [sendsOf, List.map_flatMap, List.flatMap_map]
    simp only [List.map_map, Function.comp_def]
  have hadv : reg.advertised.flatMap
      (fun a => targets.map (fun target => (build a.senderId a.data, target))) =
      (reg.advertised.map (fun a => build a.senderId a.data)).flatMap
        (fun p => targets.map (fun target => (p, target))) := by
    rw [List.flatMap_map]
  rw [hsends, hadv, ← values_eq_advertised hc]
  exact (hp.map some).flatMap_right _

section Results

variable (marshalData : ServerData → Option (List UInt8))
variable (marshalResponse : List UInt8 → UInt64 → Option (List UInt8))

/-- The cached packets are up to date after every call, and what a broadcast has
attempted together with what is ahead of it is one send of the packet of every
advertised entry to every target, as the entries stood at its one snapshot. -/
theorem cached_packets_current {h : List Event} {s : Service}
    (hr : Run (machine (buildResponsePacket marshalData marshalResponse)) h s) :
    (∀ id entry, s.advertised.lookup id = some entry →
      buildResponsePacket marshalData marshalResponse id entry.data = some entry.packet) ∧
    ∀ e ∈ h, ∀ job packets targets, e.label = .snapshot job packets targets →
      ∃ sends, s.ahead job = some sends ∧
        ((attempts job h ++ sends).map (fun send => (some send.1, send.2))).Perm
          (e.pre.advertised.advertised.flatMap (fun a => targets.map (fun target =>
            (buildResponsePacket marshalData marshalResponse a.senderId a.data, target)))) := by
  refine ⟨run_coherent hr, ?_⟩
  intro e he job packets targets hlab
  obtain ⟨sends, hsome, heq⟩ := (run_accounted hr job).started e he packets targets hlab
  refine ⟨sends, hsome, ?_⟩
  obtain ⟨post, early, rfl⟩ := List.append_of_mem he
  obtain ⟨hearly, s', hstep, -⟩ := hr.split
  have hperm : packets.Perm (e.pre.advertised.values.map (fun entry => entry.packet)) := by
    rw [hlab] at hstep
    simp only [machine, step] at hstep
    split at hstep
    next hg => exact hg.2
    · cases hstep
  rw [heq]
  exact sendsOf_perm (run_coherent hearly) hperm targets

end Results

/-- Two calls, a broadcast to both loopback targets and a call between its sends,
the first of which fails. -/
def interleaved : List Event × Service :=
  replay (machine (buildResponsePacket Advertised.marshalShort Advertised.marshalStamped))
    [.call (.advertise 7 default),
      .call (.updateHost 7 { (default : ServerAdvertisement) with playerCount := 2 }),
      .snapshot 0 (((buildResponsePacket Advertised.marshalShort Advertised.marshalStamped 7
          { (default : ServerAdvertisement) with playerCount := 2 }).getD []) :: [])
        [.v6 1 7551 0 0, .v4 0x7f000001 7551],
      .send 0 false, .call (.replaceAll []), .send 0 true]

theorem cached_packets_current_interleaved :
    interleaved.1.length = 6 ∧ (attempts 0 interleaved.1).length = 2 ∧
    interleaved.2.advertised.advertised = [] ∧
    ∀ e ∈ interleaved.1, ∀ job packets targets, e.label = .snapshot job packets targets →
      ∃ sends, interleaved.2.ahead job = some sends ∧
        ((attempts job interleaved.1 ++ sends).map (fun send => (some send.1, send.2))).Perm
          (e.pre.advertised.advertised.flatMap (fun a => targets.map (fun target =>
            (buildResponsePacket Advertised.marshalShort Advertised.marshalStamped
              a.senderId a.data, target)))) :=
  ⟨by decide +kernel, by decide +kernel, by decide +kernel,
    (cached_packets_current Advertised.marshalShort Advertised.marshalStamped (replay_run _)).2⟩

end Mineshaft.Core.Broadcast
