import Mineshaft.Client.Session
import Mineshaft.Lib.Spacing

namespace Mineshaft.Client

open Mineshaft.Core Mineshaft.Lib Mineshaft.Lib.Transition Mineshaft.Lib.Spacing
open Mineshaft.Server (ConnId)

def loopInterval : Nat := 2000

def pingInterval : Nat := 15000

def probeWait : Nat := 250

def fetchDeadline : Nat := 5000

def clientIdleTimeout : Nat := 45000

/-- How long the main loop waits by itself where it stands. -/
def Pc.span : Pc → Nat
  | .top => loopInterval
  | .detecting => probeWait
  | .awaiting => fetchDeadline
  | .connecting | .closing | .leaving | .publishing _ | .fetching | .heartbeat | .pinging => 0

/-- The main loop in time, with its connection. `deadline` is when the loop has
waited as long as it meant to, `heard` when the server began to wait for the
next frame. Frames in flight carry the time at which they were written. -/
structure Timed where
  node : Node
  now : Nat
  deadline : Nat
  lastPing : Nat
  lastSeen : Nat
  up : List (Nat × ClientMessage)
  heard : Nat
  down : List (Nat × ServerMessage)

namespace Timed

/-- Time passes; the main loop goes on; the forward task writes a signal; the server
reads the next frame, or writes one; the reader task reads the next frame. -/
inductive Label
  | wait (d : Nat)
  | loop (l : Client.Label)
  | forward (targetSenderId connectionId joinerNetworkId : UInt64) (data : String)
  | read
  | send (msg : ServerMessage)
  | receive

def init : Timed := ⟨Node.init, 0, 0, 0, 0, [], 0, []⟩

/-- The loop sleeps before it starts over, and reads its clocks for the checks
that need a connection. -/
def Permits (s : Timed) : Client.Label → Prop
  | .top _ silent => s.deadline ≤ s.now ∧
      (s.node.server.isSome → silent = decide (s.now - s.lastSeen > livenessTimeout))
  | .beat pingDue => s.node.server.isSome → pingDue = decide (s.now - s.lastPing ≥ pingInterval)
  | .connect _ | .detect _ _ | .write _ | .fetched _ => True

instance (s : Timed) : DecidablePred s.Permits
  | .top _ _ => inferInstanceAs (Decidable (_ ∧ (_ → _)))
  | .beat _ => inferInstanceAs (Decidable (_ → _))
  | .connect _ | .detect _ _ | .write _ | .fetched _ => inferInstanceAs (Decidable True)

/-- The clocks after a step of the main loop. Only a lost connection makes it
start over without a sleep. A new stream starts all clocks. -/
def after (s : Timed) (l : Client.Label) (n' : Node) (out : Option (ConnId × ClientMessage)) : Timed :=
  match l with
  | .connect (some _) => ⟨n', s.now, s.now + n'.pc.span, s.now, s.now, [], s.now, []⟩
  | .top _ _ =>
    { s with node := n', deadline := if n'.pc = .top then s.now else s.now + n'.pc.span }
  | .connect none | .detect _ _ | .write _ | .fetched _ | .beat _ =>
    { s with
      node := n'
      deadline := s.now + n'.pc.span
      lastPing := if s.node.pc = .pinging then s.now else s.lastPing
      up := s.up ++ out.toList.map (fun f => (s.now, f.2)) }

/-- While there is a connection, the loop goes on at most `slack` after its
deadline, and a frame is read at most `latency` after it was written. -/
def Waits (slack latency : Nat) (s : Timed) (d : Nat) : Prop :=
  s.node.server.isSome → s.now + d ≤ s.deadline + slack ∧
    (∀ f ∈ s.up, s.now + d ≤ f.1 + latency) ∧ ∀ f ∈ s.down, s.now + d ≤ f.1 + latency

instance (slack latency : Nat) (s : Timed) (d : Nat) : Decidable (Waits slack latency s d) :=
  inferInstanceAs (Decidable (_ → _))

section Steps

variable (myNetworkId : UInt64)
variable (buildResponsePacket : UInt64 → ServerAdvertisement → Option (List UInt8))
variable (slack latency : Nat)

/-- The server answers a ping with a pong. What else it writes is left open. -/
def step (s : Timed) : Label → Option Timed
  | .wait d => if Waits slack latency s d then some { s with now := s.now + d } else none
  | .loop l =>
    if s.Permits l then
      (s.node.step myNetworkId buildResponsePacket l).map (fun r => s.after l r.1 r.2)
    else none
  | .forward targetSenderId connectionId joinerNetworkId data => some { s with
      up := s.up ++ [(s.now, .signal targetSenderId connectionId joinerNetworkId data)] }
  | .read =>
    match s.up with
    | (_, msg) :: rest => some { s with
        up := rest
        heard := s.now
        down := if msg = .ping then s.down ++ [(s.now, .pong)] else s.down }
    | [] => none
  | .send msg => some { s with down := s.down ++ [(s.now, msg)] }
  | .receive =>
    match s.down with
    | _ :: rest => some { s with down := rest, lastSeen := s.now }
    | [] => none

def machine : Machine Timed Label := ⟨init, step myNetworkId buildResponsePacket slack latency⟩

end Steps

/-- How long after `PING_INTERVAL` the loop may still wait where it stands, when
each of its waits took `slack` longer than it meant to. -/
def offset (slack : Nat) : Pc → Nat
  | .top => loopInterval
  | .detecting => loopInterval + probeWait + slack
  | .closing | .leaving | .publishing _ => loopInterval + probeWait + 2 * slack
  | .fetching => loopInterval + probeWait + 3 * slack
  | .awaiting => loopInterval + probeWait + fetchDeadline + 4 * slack
  | .heartbeat => loopInterval + probeWait + fetchDeadline + 5 * slack
  | .pinging => loopInterval + probeWait + fetchDeadline + 6 * slack
  | .connecting => 0

/-- The longest time between two pings. -/
def pingGap (slack : Nat) : Nat :=
  pingInterval + loopInterval + probeWait + fetchDeadline + 7 * slack

def pings (up : List (Nat × ClientMessage)) : List Nat :=
  (up.filter (fun f => decide (f.2 = .ping))).map (fun f => f.1)

def pongs (down : List (Nat × ServerMessage)) : List Nat :=
  (down.filter (fun f => decide (f.2 = .pong))).map (fun f => f.1)

/-- What the clocks say while there is a connection. `pinged` is when the server
last read a ping. -/
structure Timely (slack latency : Nat) (s : Timed) (pinged : Nat) : Prop where
  placed : s.node.pc ≠ .connecting
  deadline : s.deadline ≤ s.lastPing + pingInterval + offset slack s.node.pc
  now : s.now ≤ s.deadline + slack
  up : ∀ f ∈ s.up, f.1 ≤ s.now ∧ s.now ≤ f.1 + latency
  down : ∀ f ∈ s.down, f.1 ≤ s.now ∧ s.now ≤ f.1 + latency
  heard : pinged ≤ s.heard ∧ s.heard ≤ s.now
  seen : s.lastSeen ≤ s.now
  pings : Spaced (pingGap slack) s.lastPing pinged (pings s.up)
  pongs : Spaced (pingGap slack + latency) pinged s.lastSeen (pongs s.down)

theorem offset_le (slack : Nat) (pc : Pc) :
    pingInterval + offset slack pc + slack ≤ pingGap slack := by
  unfold offset pingGap
  split <;> omega

theorem pings_append (up up' : List (Nat × ClientMessage)) :
    pings (up ++ up') = pings up ++ pings up' := by
  simp [pings]

theorem pongs_append (down down' : List (Nat × ServerMessage)) :
    pongs (down ++ down') = pongs down ++ pongs down' := by
  simp [pongs]

theorem mem_pings {up : List (Nat × ClientMessage)} {t : Nat} (ht : t ∈ pings up) :
    ∃ f ∈ up, f.1 = t := by
  obtain ⟨f, hf, rfl⟩ := List.mem_map.mp ht
  exact ⟨f, (List.mem_filter.mp hf).1, rfl⟩

theorem mem_pongs {down : List (Nat × ServerMessage)} {t : Nat} (ht : t ∈ pongs down) :
    ∃ f ∈ down, f.1 = t := by
  obtain ⟨f, hf, rfl⟩ := List.mem_map.mp ht
  exact ⟨f, (List.mem_filter.mp hf).1, rfl⟩

variable {slack latency : Nat} {s : Timed} {pinged : Nat}

theorem Timely.now_le (ht : Timely slack latency s pinged) :
    s.now ≤ s.lastPing + pingGap slack := by
  have h1 := ht.deadline
  have h2 := ht.now
  have h3 := offset_le slack s.node.pc
  omega

theorem Timely.pinged_le (ht : Timely slack latency s pinged) :
    s.now ≤ pinged + (pingGap slack + latency) := by
  rw [← Nat.add_assoc]
  refine ht.pings.bound ?_ ht.now_le
  intro t hm
  obtain ⟨f, hf, rfl⟩ := mem_pings hm
  exact (ht.up f hf).2

theorem Timely.seen_le (ht : Timely slack latency s pinged) :
    s.now ≤ s.lastSeen + (pingGap slack + 2 * latency) := by
  have hb : s.now ≤ s.lastSeen + (pingGap slack + latency) + latency := by
    refine ht.pongs.bound ?_ ht.pinged_le
    intro t hm
    obtain ⟨f, hf, rfl⟩ := mem_pongs hm
    exact (ht.down f hf).2
  omega

section Moves

variable {myNetworkId : UInt64}
variable {buildResponsePacket : UInt64 → ServerAdvertisement → Option (List UInt8)}
variable {n n' : Node} {out : Option (ConnId × ClientMessage)} {l : Client.Label}

theorem pings_sendOrDrop {msg : ClientMessage} (hmsg : msg ≠ .ping) (server : Option ConnId) (ok : Bool)
    (t : Nat) : pings ((sendOrDrop server msg ok).2.toList.map (fun f => (t, f.2))) = [] := by
  unfold sendOrDrop
  split
  · split
    · simp [pings, hmsg]
    · rfl
  · rfl

theorem moves_pings (hm : Moves myNetworkId buildResponsePacket n l n' out) (hpc : n.pc ≠ .pinging)
    (t : Nat) : pings (out.toList.map (fun f => (t, f.2))) = [] := by
  cases hm with
  | pinged ok h => exact absurd h hpc
  | closedSent ok _ | leftSent ok _ | asked ok _ => exact pings_sendOrDrop (by simp) _ _ t
  | published ad msg ok _ hmsg =>
    refine pings_sendOrDrop ?_ _ _ t
    rw [hmsg]
    split <;> simp
  | lost _ _ _ | alive _ _ _ | offline _ _ | connected _ _ | refused _ | closing _ _ _ | closed _ _ _
  | publishing _ _ _ _ | hosting _ _ _ _ _ | leaving _ _ _ | browsing _ _ _ | fetched _ _
  | unanswered _ | beat _ _ => rfl

theorem sendOrDrop_isSome {server : Option ConnId} {msg : ClientMessage} {ok : Bool}
    (hs : (sendOrDrop server msg ok).1.isSome) :
    server.isSome ∧ ∃ c, (sendOrDrop server msg ok).2 = some (c, msg) := by
  obtain ⟨c, hc⟩ := Option.isSome_iff_exists.mp hs
  obtain ⟨rfl, rfl⟩ := sendOrDrop_some hc
  exact ⟨rfl, c, rfl⟩

theorem moves_span (hm : Moves myNetworkId buildResponsePacket n l n' out) (hs : n'.server.isSome)
    (hpc : n.server.isSome → n.pc ≠ .connecting) (slack : Nat) :
    (∃ c, l = .connect (some c) ∧ n'.pc = .detecting) ∨
    n.server.isSome ∧ n'.pc ≠ .connecting ∧ (∀ c, l ≠ .connect c) ∧
      ((n.pc = .pinging ∧ n'.pc = .top ∧ (∃ ok, l = .write ok) ∧ ∃ c, out = some (c, .ping)) ∨
        n.pc ≠ .pinging ∧ n'.pc = .top ∧ l = .beat false ∨
        n.pc ≠ .pinging ∧ n'.pc ≠ .top ∧
          n'.pc.span + (offset slack n.pc + slack) ≤ offset slack n'.pc) := by
  cases hm with
  | connected c _ => exact Or.inl ⟨c, rfl, rfl⟩
  | lost _ _ _ | unanswered _ => cases hs
  | offline _ hn =>
    simp only [Node.reap] at hs
    split at hs <;> simp [hn] at hs
  | refused h => exact absurd h (hpc hs)
  | alive h hn _ =>
    refine Or.inr ⟨hn, by simp, by simp, Or.inr (Or.inr ⟨by simp [h], by simp, ?_⟩)⟩
    simp only [h, Pc.span, offset]
    omega
  | closing h _ _ | hosting _ h _ _ _ | leaving h _ _ | browsing h _ _ | fetched _ h =>
    refine Or.inr ⟨hs, by simp, by simp, Or.inr (Or.inr ⟨by simp [h], by simp, ?_⟩)⟩
    simp only [h, Pc.span, offset]
    omega
  | closed h _ _ | publishing _ h _ _ =>
    simp only [clearAdvertised_server] at hs
    refine Or.inr ⟨hs, by simp, by simp, Or.inr (Or.inr ⟨by simp [h], by simp, ?_⟩)⟩
    simp only [h, Pc.span, offset]
    omega
  | closedSent ok h =>
    simp only [clearAdvertised_server, Node.unregistered] at hs
    refine Or.inr ⟨(sendOrDrop_isSome hs).1, by simp, by simp,
      Or.inr (Or.inr ⟨by simp [h], by simp, ?_⟩)⟩
    simp only [h, Pc.span, offset]
    omega
  | leftSent ok h | published _ _ ok h _ =>
    refine Or.inr ⟨(sendOrDrop_isSome hs).1, by simp, by simp,
      Or.inr (Or.inr ⟨by simp [h], by simp, ?_⟩)⟩
    simp only [h, Pc.span, offset]
    omega
  | asked ok h =>
    simp only at hs
    rw [if_pos hs]
    refine Or.inr ⟨(sendOrDrop_isSome hs).1, by simp, by simp,
      Or.inr (Or.inr ⟨by simp [h], by simp, ?_⟩)⟩
    simp only [h, Pc.span, offset]
    omega
  | pinged ok h =>
    exact Or.inr ⟨(sendOrDrop_isSome hs).1, by simp, by simp,
      Or.inl ⟨h, rfl, ⟨ok, rfl⟩, (sendOrDrop_isSome hs).2⟩⟩
  | beat due h =>
    simp only at hs
    cases due with
    | false =>
      refine Or.inr ⟨hs, by simp, by simp, Or.inr (Or.inl ⟨by simp [h], by simp, rfl⟩)⟩
    | true =>
      simp only [hs, Bool.and_self, if_true]
      refine Or.inr ⟨trivial, by simp, by simp, Or.inr (Or.inr ⟨by simp [h], by simp, ?_⟩)⟩
      simp only [h, Pc.span, offset]
      omega

theorem moves_top {readerDead silent : Bool}
    (hm : Moves myNetworkId buildResponsePacket n (.top readerDead silent) n' out) : out = none := by
  cases hm <;> rfl

theorem after_eq (hm : Moves myNetworkId buildResponsePacket s.node l n' out)
    (hc : ∀ c, l ≠ .connect c) (ht : (∃ d si, l = .top d si) → s.node.pc ≠ .pinging ∧ n'.pc ≠ .top) :
    s.after l n' out = { s with
      node := n'
      deadline := s.now + n'.pc.span
      lastPing := if s.node.pc = .pinging then s.now else s.lastPing
      up := s.up ++ out.toList.map (fun f => (s.now, f.2)) } := by
  cases l with
  | connect c => exact absurd rfl (hc c)
  | top d si =>
    obtain ⟨hp, htop⟩ := ht ⟨d, si, rfl⟩
    rw [moves_top hm]
    simp [after, hp, htop]
  | detect _ _ | write _ | fetched _ | beat _ => rfl

theorem timed_append {α : Type} {now latency : Nat} {fs gs : List (Nat × α)}
    (hf : ∀ f ∈ fs, f.1 ≤ now ∧ now ≤ f.1 + latency) (hg : ∀ g ∈ gs, g.1 = now) :
    ∀ f ∈ fs ++ gs, f.1 ≤ now ∧ now ≤ f.1 + latency := by
  intro f hmem
  obtain hmem | hmem := List.mem_append.mp hmem
  · exact hf f hmem
  · rw [hg f hmem]
    exact ⟨le_rfl, Nat.le_add_right _ _⟩

theorem Timely.proceed (ht : Timely slack latency s pinged) (hpc : n'.pc ≠ .connecting)
    (hm : Moves myNetworkId buildResponsePacket s.node l n' out) (hping : s.node.pc ≠ .pinging)
    (hd : s.now + n'.pc.span ≤ s.lastPing + pingInterval + offset slack n'.pc) :
    Timely slack latency { s with
      node := n'
      deadline := s.now + n'.pc.span
      up := s.up ++ out.toList.map (fun f => (s.now, f.2)) } pinged := by
  refine ⟨hpc, hd, ?_, timed_append ht.up ?_, ht.down, ht.heard, ht.seen, ?_, ht.pongs⟩
  · simp only
    omega
  · intro g hg
    obtain ⟨f, -, rfl⟩ := List.mem_map.mp hg
    rfl
  · simp only [pings_append, moves_pings hm hping, List.append_nil]
    exact ht.pings

theorem loop_timely (hi : s.node.server.isSome → ∃ pinged, Timely slack latency s pinged)
    (hp : s.Permits l) (hm : Moves myNetworkId buildResponsePacket s.node l n' out)
    (hs : n'.server.isSome) : ∃ pinged, Timely slack latency (s.after l n' out) pinged := by
  have hpc : s.node.server.isSome → s.node.pc ≠ .connecting := by
    intro hn
    obtain ⟨pinged, ht⟩ := hi hn
    exact ht.placed
  obtain ⟨c, rfl, htop⟩ | ⟨hn, hpc', hc, hway⟩ := moves_span hm hs hpc slack
  · refine ⟨s.now, ?_⟩
    simp only [after, htop]
    refine ⟨by simp [htop], ?_, ?_, by simp, by simp, ⟨le_rfl, le_rfl⟩, le_rfl, ?_, ?_⟩
    · simp only [htop, Pc.span, offset]
      omega
    · simp only
      omega
    · exact Nat.le_refl s.now
    · exact Nat.le_refl s.now
  · obtain ⟨pinged, ht⟩ := hi hn
    have hnow := ht.now_le
    obtain ⟨hping, htop, ⟨ok, rfl⟩, c, rfl⟩ | ⟨hping, htop, rfl⟩ | ⟨hping, htop, hspan⟩ := hway
    · -- the ping is in flight from now on
      rw [after_eq hm hc (by simp), if_pos hping]
      refine ⟨pinged, hpc', ?_, ?_, timed_append ht.up (by simp), ht.down, ht.heard, ht.seen, ?_,
        ht.pongs⟩
      · simp only [htop, Pc.span, offset]
        omega
      · simp only
        omega
      · simp only [pings_append]
        exact ht.pings.send hnow
    · -- no ping was due when the clock was read
      have hdue : s.now < s.lastPing + pingInterval := by
        have hd := of_decide_eq_false (hp hn).symm
        omega
      rw [after_eq hm hc (by simp), if_neg hping]
      refine ⟨pinged, ht.proceed hpc' hm hping ?_⟩
      simp only [htop, Pc.span, offset]
      omega
    · rw [after_eq hm hc (fun _ => ⟨hping, htop⟩), if_neg hping]
      refine ⟨pinged, ht.proceed hpc' hm hping ?_⟩
      have h1 := ht.deadline
      have h2 := ht.now
      omega

theorem timely_wait (ht : Timely slack latency s pinged) {d : Nat} (hs : s.node.server.isSome)
    (hw : Waits slack latency s d) :
    Timely slack latency { s with now := s.now + d } pinged := by
  obtain ⟨hd, hup, hdown⟩ := hw hs
  have hle : s.now ≤ s.now + d := Nat.le_add_right _ _
  exact ⟨ht.placed, ht.deadline, hd, fun f hf => ⟨Nat.le_trans (ht.up f hf).1 hle, hup f hf⟩,
    fun f hf => ⟨Nat.le_trans (ht.down f hf).1 hle, hdown f hf⟩,
    ⟨ht.heard.1, Nat.le_trans ht.heard.2 hle⟩, Nat.le_trans ht.seen hle, ht.pings, ht.pongs⟩

theorem timely_forward (ht : Timely slack latency s pinged) {msg : ClientMessage}
    (hmsg : msg ≠ .ping) :
    Timely slack latency { s with up := s.up ++ [(s.now, msg)] } pinged := by
  refine ⟨ht.placed, ht.deadline, ht.now, timed_append ht.up (by simp), ht.down, ht.heard, ht.seen,
    ?_, ht.pongs⟩
  have hnew : pings [(s.now, msg)] = [] := by simp [pings, hmsg]
  rw [pings_append, hnew, List.append_nil]
  exact ht.pings

theorem timely_read (ht : Timely slack latency s pinged) {t : Nat} {msg : ClientMessage}
    {rest : List (Nat × ClientMessage)} (hup : s.up = (t, msg) :: rest) :
    ∃ pinged, Timely slack latency { s with
      up := rest
      heard := s.now
      down := if msg = .ping then s.down ++ [(s.now, .pong)] else s.down } pinged := by
  have hrest : ∀ f ∈ rest, f.1 ≤ s.now ∧ s.now ≤ f.1 + latency :=
    fun f hf => ht.up f (by rw [hup]; exact List.mem_cons_of_mem _ hf)
  have htime := ht.up (t, msg) (by rw [hup]; exact List.mem_cons_self)
  have hspaced := ht.pings
  by_cases hmsg : msg = .ping
  · have hpings : pings s.up = t :: pings rest := by simp [hup, pings, hmsg]
    rw [hpings] at hspaced
    rw [if_pos hmsg]
    refine ⟨s.now, ht.placed, ht.deadline, ht.now, hrest, timed_append ht.down (by simp),
      ⟨le_rfl, le_rfl⟩, ht.seen, hspaced.arrive htime.1, ?_⟩
    simp only [pongs_append]
    exact ht.pongs.send ht.pinged_le
  · have hpings : pings s.up = pings rest := by simp [hup, pings, hmsg]
    rw [hpings] at hspaced
    rw [if_neg hmsg]
    exact ⟨pinged, ht.placed, ht.deadline, ht.now, hrest, ht.down,
      ⟨Nat.le_trans ht.heard.1 ht.heard.2, le_rfl⟩, ht.seen, hspaced, ht.pongs⟩

theorem timely_send (ht : Timely slack latency s pinged) (msg : ServerMessage) :
    Timely slack latency { s with down := s.down ++ [(s.now, msg)] } pinged := by
  refine ⟨ht.placed, ht.deadline, ht.now, ht.up, timed_append ht.down (by simp), ht.heard, ht.seen,
    ht.pings, ?_⟩
  simp only [pongs_append]
  by_cases hmsg : msg = .pong
  · have hnew : pongs [(s.now, msg)] = [s.now] := by simp [pongs, hmsg]
    rw [hnew]
    exact (ht.pongs.send ht.pinged_le).weaken (Nat.le_trans ht.heard.1 ht.heard.2)
  · have hnew : pongs [(s.now, msg)] = [] := by simp [pongs, hmsg]
    rw [hnew, List.append_nil]
    exact ht.pongs

theorem timely_receive (ht : Timely slack latency s pinged) {f : Nat × ServerMessage}
    {rest : List (Nat × ServerMessage)} (hdown : s.down = f :: rest) :
    Timely slack latency { s with down := rest, lastSeen := s.now } pinged := by
  have hrest : ∀ g ∈ rest, g.1 ≤ s.now ∧ s.now ≤ g.1 + latency :=
    fun g hg => ht.down g (by rw [hdown]; exact List.mem_cons_of_mem _ hg)
  have htime := ht.down f (by rw [hdown]; exact List.mem_cons_self)
  have hspaced := ht.pongs
  refine ⟨ht.placed, ht.deadline, ht.now, ht.up, hrest, ht.heard, le_rfl, ht.pings, ?_⟩
  by_cases hmsg : f.2 = .pong
  · have hpongs : pongs s.down = f.1 :: pongs rest := by simp [hdown, pongs, hmsg]
    rw [hpongs] at hspaced
    exact hspaced.arrive htime.1
  · have hpongs : pongs s.down = pongs rest := by simp [hdown, pongs, hmsg]
    rw [hpongs] at hspaced
    exact hspaced.mono ht.seen

/-- The clocks through every step. -/
theorem step_timely {l : Label} {s' : Timed}
    (hi : s.node.server.isSome → ∃ pinged, Timely slack latency s pinged)
    (hs : step myNetworkId buildResponsePacket slack latency s l = some s')
    (hc : s'.node.server.isSome) : ∃ pinged, Timely slack latency s' pinged := by
  cases l with
  | wait d =>
    simp only [step] at hs
    split at hs <;> cases hs
    next hw =>
      obtain ⟨pinged, ht⟩ := hi hc
      exact ⟨pinged, timely_wait ht hc hw⟩
  | loop l =>
    simp only [step] at hs
    split at hs
    next hp =>
      obtain ⟨⟨n', out⟩, hn, rfl⟩ := Option.map_eq_some_iff.mp hs
      have hm := step_cases hn
      have hnode : (s.after l n' out).node = n' := by
        unfold after
        split <;> rfl
      rw [hnode] at hc
      exact loop_timely hi hp hm hc
    · cases hs
  | forward targetSenderId connectionId joinerNetworkId data =>
    cases hs
    obtain ⟨pinged, ht⟩ := hi hc
    exact ⟨pinged, timely_forward ht (by simp)⟩
  | read =>
    simp only [step] at hs
    split at hs <;> cases hs
    next t msg rest hup =>
      obtain ⟨pinged, ht⟩ := hi hc
      exact timely_read ht hup
  | send msg =>
    cases hs
    obtain ⟨pinged, ht⟩ := hi hc
    exact ⟨pinged, timely_send ht msg⟩
  | receive =>
    simp only [step] at hs
    split at hs <;> cases hs
    next f rest hdown =>
      obtain ⟨pinged, ht⟩ := hi hc
      exact ⟨pinged, timely_receive ht hdown⟩

theorem run_timely {h : List (Transition.Event Timed Label)}
    (hr : Run (machine myNetworkId buildResponsePacket slack latency) h s) :
    s.node.server.isSome → ∃ pinged, Timely slack latency s pinged := by
  induction hr with
  | nil => exact fun hn => nomatch hn
  | cons _ hs ih => exact step_timely ih hs

/-- The heartbeat is frequent enough. When the delays of the loop and of the
network stay within bounds, the server never waits for a frame of the node as
long as its idle timeout, and the node never takes its connection for dead
because nothing has arrived. -/
theorem timeouts_never_fire {h : List (Transition.Event Timed Label)} {s : Timed}
    (hb : 7 * slack + 2 * latency < 22750)
    (hr : Run (machine myNetworkId buildResponsePacket slack latency) h s) :
    (s.node.server.isSome → s.now - s.heard < clientIdleTimeout ∧
      s.now - s.lastSeen < livenessTimeout) ∧
    ∀ e ∈ h, ∀ readerDead silent, e.label = .loop (.top readerDead silent) →
      e.pre.node.server.isSome → silent = false := by
  have hclocks : ∀ {h s}, Run (machine myNetworkId buildResponsePacket slack latency) h s →
      s.node.server.isSome → s.now - s.heard < clientIdleTimeout ∧
        s.now - s.lastSeen < livenessTimeout := by
    intro h s hr hn
    obtain ⟨pinged, ht⟩ := run_timely hr hn
    have h1 := ht.pinged_le
    have h2 := ht.heard.1
    have h3 := ht.seen_le
    unfold clientIdleTimeout livenessTimeout
    unfold pingGap pingInterval loopInterval probeWait fetchDeadline at h1 h3
    omega
  refine ⟨hclocks hr, ?_⟩
  intro e he readerDead silent hl hn
  obtain ⟨early, -, hrun⟩ := hr.of_mem he
  obtain ⟨s', hs, -⟩ := hr.post_mem he
  have hseen := (hclocks hrun hn).2
  have hs : step myNetworkId buildResponsePacket slack latency e.pre e.label = some s' := hs
  rw [hl] at hs
  simp only [step] at hs
  split at hs
  next hp =>
    rw [hp.2 hn, decide_eq_false_iff_not]
    omega
  · cases hs

end Moves

def idleRound : List Label :=
  [.loop (.top false false), .loop (.detect (.ok false) none), .loop (.beat false), .wait 2050]

/-- The node connects, and pings in its ninth round; the pong comes back. -/
def beating : List Label :=
  [.loop (.top false false), .loop (.connect (some 0)), .loop (.detect (.ok false) none),
    .loop (.beat false), .wait 2050] ++ (List.replicate 7 idleRound).flatten ++
    [.loop (.top false false), .loop (.detect (.ok false) none), .loop (.beat true),
      .loop (.write true), .forward 8 5 7 "CONNECTREQUEST", .wait 900, .read, .read, .wait 900,
      .receive]

theorem timeouts_never_fire_beating :
    (replay (machine 7 plainPacket 100 1000) beating).2.lastSeen = 18200 ∧
      (replay (machine 7 plainPacket 100 1000) beating).2.now -
        (replay (machine 7 plainPacket 100 1000) beating).2.heard < clientIdleTimeout := by
  have hconn : (replay (machine 7 plainPacket 100 1000) beating).2.node.server.isSome = true := by
    decide +kernel
  exact ⟨by decide +kernel,
    ((timeouts_never_fire (by decide) (replay_run beating)).1 hconn).1⟩

end Timed

end Mineshaft.Client
