import Mineshaft.Browsing.Answers
import Mineshaft.Lib.Refinement

namespace Mineshaft.Browsing

open Mineshaft.Core Mineshaft.Lib Mineshaft.Lib.Transition
open Mineshaft.Client (Node Session Link ReaderStep hostLists hostLists_append sendOrDrop)
open Mineshaft.Client.Session (Around around_cases node_cases reader_cases setLink_links
  abort_links abort_frame request_frame stored_frame)
open Mineshaft.Server (ConnId DistinctAddrs FreshAddr)

/-- One node with its reader tasks, and the server. Each connection of the node
has a wire with the frames that were written and that the server has not read;
the frames on their way back are in the links of the session. -/
structure Net where
  session : Session
  server : Server.State
  wire : ConnId → List ClientMessage

def Net.init : Net := ⟨Session.init, Server.State.init, fun _ => []⟩

/-- A step of the main loop, of a reader task, of the forward task, or of the
server. A frame whose write failed may have reached the server all the same. -/
inductive Label
  | node (l : Client.Label) (now : Nat) (reached : Bool)
  | reader (c : ConnId) (r : ReaderStep)
  | forward (c : ConnId) (targetSenderId connectionId joinerNetworkId : UInt64) (data : String)
  | server (l : Server.Label)

def stream : Client.Label → Option ConnId
  | .connect c => c
  | .top _ _ | .detect _ _ | .write _ | .fetched _ | .beat _ => none

namespace Net

def put (w : Net) (frame : Option (ConnId × ClientMessage)) : Net :=
  match frame with
  | some (c, msg) => { w with wire := Function.update w.wire c (w.wire c ++ [msg]) }
  | none => w

def deliver (s : Session) (c : ConnId) (msg : ServerMessage) : Session :=
  s.setLink c { s.links c with ahead := (s.links c).ahead ++ [msg] }

def arrive (w : Net) : Server.Label → Net
  | .write c =>
    match nextFrame w.server c with
    | some msg =>
      if c ∈ w.session.opened then { w with session := deliver w.session c msg } else w
    | none => w
  | _ => w

/-- The server. It reads the frames of the node in the order of their wire, and
from all other clients anything. -/
def serverStep (w : Net) (l : Server.Label) : Option Net :=
  let r := (Server.step w.server l).map (fun s => { w.arrive l with server := s })
  match l with
  | .read c msg =>
    if c ∈ w.session.opened then
      match w.wire c with
      | next :: rest =>
        if next = msg then r.map (fun w => { w with wire := Function.update w.wire c rest })
        else none
      | [] => none
    else r
  | _ => r

section Steps

variable (myNetworkId : UInt64)
variable (buildResponsePacket : UInt64 → ServerAdvertisement → Option (List UInt8))

def frame (w : Net) (reached : Bool) : Client.Label → Option (ConnId × ClientMessage)
  | .write ok =>
    if ok || reached then
      (w.session.node.write myNetworkId buildResponsePacket true).bind (fun r => r.2)
    else none
  | .top _ _ | .connect _ | .detect _ _ | .fetched _ | .beat _ => none

/-- The main loop. A new stream is a connection that nobody has used. -/
def nodeStep (w : Net) (l : Client.Label) (now : Nat) (reached : Bool) : Option Net :=
  if (stream l).all (fun c => (w.server.conns c).isNone) then
    (w.session.step myNetworkId buildResponsePacket (.node l now reached)).map
      (fun s => { w.put (w.frame myNetworkId buildResponsePacket reached l) with session := s })
  else none

def step (w : Net) : Label → Option Net
  | .node l now reached => w.nodeStep myNetworkId buildResponsePacket l now reached
  | .reader c r => (w.session.step myNetworkId buildResponsePacket (.reader c r)).map
      (fun s => { w with session := s })
  | .forward c targetSenderId connectionId joinerNetworkId data =>
    if c ∈ w.session.opened then
      some (w.put (some (c, .signal targetSenderId connectionId joinerNetworkId data)))
    else none
  | .server l => w.serverStep l

def machine : Machine Net Label := ⟨Net.init, step myNetworkId buildResponsePacket⟩

end Steps

end Net

abbrev Event := Transition.Event Net Label

variable {id : UInt64} {build : UInt64 → ServerAdvertisement → Option (List UInt8)}
variable {w w' : Net}

theorem put_frame (w : Net) (f : Option (ConnId × ClientMessage)) :
    (w.put f).session = w.session ∧ (w.put f).server = w.server := by
  unfold Net.put
  split <;> exact ⟨rfl, rfl⟩

theorem put_wire (w : Net) (f : Option (ConnId × ClientMessage)) (d : ConnId) :
    (w.put f).wire d = w.wire d ++ (f.toList.filter (fun p => decide (p.1 = d))).map (fun p => p.2) := by
  unfold Net.put
  split
  next c msg =>
    by_cases hc : d = c
    · subst hc
      simp
    · simp [hc, Ne.symm hc]
  · simp

theorem arrive_frame (w : Net) (l : Server.Label) :
    (w.arrive l).wire = w.wire ∧ (w.arrive l).session.opened = w.session.opened ∧
      (w.arrive l).session.node = w.session.node := by
  unfold Net.arrive
  split
  · split
    · split <;> exact ⟨rfl, rfl, rfl⟩
    · exact ⟨rfl, rfl, rfl⟩
  · exact ⟨rfl, rfl, rfl⟩

theorem serverStep_iff {l : Server.Label} (h : w.serverStep l = some w') :
    ∃ s', Server.step w.server l = some s' ∧
      ((∃ c msg rest, l = .read c msg ∧ c ∈ w.session.opened ∧ w.wire c = msg :: rest ∧
          w' = { w with server := s', wire := Function.update w.wire c rest }) ∨
        (∀ c msg, l = .read c msg → c ∉ w.session.opened) ∧
          w' = { w.arrive l with server := s' }) := by
  unfold Net.serverStep at h
  dsimp only at h
  split at h
  next c msg =>
    split at h
    next hc =>
      split at h
      next next rest hw =>
        split at h
        next he =>
          subst he
          obtain ⟨w₁, hw₁, rfl⟩ := Option.map_eq_some_iff.mp h
          obtain ⟨s', hs, rfl⟩ := Option.map_eq_some_iff.mp hw₁
          exact ⟨s', hs, Or.inl ⟨c, next, rest, rfl, hc, hw, rfl⟩⟩
        · cases h
      · cases h
    next hc =>
      obtain ⟨s', hs, rfl⟩ := Option.map_eq_some_iff.mp h
      refine ⟨s', hs, Or.inr ⟨?_, rfl⟩⟩
      rintro c' msg' he
      cases he
      exact hc
  next hl =>
    obtain ⟨s', hs, rfl⟩ := Option.map_eq_some_iff.mp h
    exact ⟨s', hs, Or.inr ⟨fun c msg he => absurd he (hl c msg), rfl⟩⟩

theorem nodeStep_iff {l : Client.Label} {now : Nat} {reached : Bool}
    (h : w.nodeStep id build l now reached = some w') :
    (∀ c, l = .connect (some c) → w.server.conns c = none) ∧
    ∃ s, w.session.step id build (.node l now reached) = some s ∧
      w' = { w.put (w.frame id build reached l) with session := s } := by
  unfold Net.nodeStep at h
  split at h
  next hf =>
    obtain ⟨s, hs, rfl⟩ := Option.map_eq_some_iff.mp h
    refine ⟨?_, s, hs, rfl⟩
    rintro c rfl
    simpa [stream] using hf
  · cases h

theorem arrive_links (w : Net) (l : Server.Label) {d : ConnId} (hd : d ∈ w.session.opened) :
    ((w.arrive l).session.links d).seen ++ ((w.arrive l).session.links d).ahead =
      (w.session.links d).seen ++ (w.session.links d).ahead ++
        (if l = .write d then (nextFrame w.server d).toList else []) ∧
    ((w.arrive l).session.links d).asked = (w.session.links d).asked := by
  unfold Net.arrive
  split
  next c =>
    by_cases hc : c = d
    · subst hc
      cases nextFrame w.server c <;> simp [hd, Net.deliver, setLink_links]
    · cases nextFrame w.server c with
      | none => simp [hc]
      | some msg =>
        by_cases ho : c ∈ w.session.opened <;> simp [ho, hc, Ne.symm hc, Net.deliver, setLink_links]
  next hl =>
    have hne : l ≠ .write d := hl d
    simp [hne]

def serverEvents (h : List Event) : List Server.Event :=
  h.filterMap (fun e =>
    match e.label with
    | .server l => some ⟨e.pre.server, l⟩
    | .node _ _ _ | .reader _ _ | .forward _ _ _ _ _ => none)

theorem serverEvents_server (w : Net) (l : Server.Label) (h : List Event) :
    serverEvents (⟨w, .server l⟩ :: h) = ⟨w.server, l⟩ :: serverEvents h := rfl

theorem step_server {l : Label} (hs : w.step id build l = some w') :
    (∃ k, l = .server k ∧ Server.step w.server k = some w'.server) ∨
      (∀ k, l ≠ .server k) ∧ w'.server = w.server := by
  cases l with
  | node l now reached =>
    obtain ⟨-, s, -, rfl⟩ := nodeStep_iff hs
    exact Or.inr ⟨by simp, (put_frame w _).2⟩
  | reader c r =>
    obtain ⟨s, -, rfl⟩ := Option.map_eq_some_iff.mp hs
    exact Or.inr ⟨by simp, rfl⟩
  | forward c t i n data =>
    change (if c ∈ w.session.opened then _ else none) = some w' at hs
    split at hs <;> cases hs
    exact Or.inr ⟨by simp, rfl⟩
  | server l =>
    obtain ⟨s', hstep, ⟨_, _, _, _, _, _, rfl⟩ | ⟨_, rfl⟩⟩ := serverStep_iff hs
    · exact Or.inl ⟨l, rfl, hstep⟩
    · exact Or.inl ⟨l, rfl, hstep⟩

theorem server_run {h : List Event} (hr : Run (Net.machine id build) h w) :
    Server.Run (serverEvents h) w.server := by
  refine hr.project (fun w : Net => w.server) _ rfl ?_
  intro w l w' hs
  obtain ⟨k, rfl, hk⟩ | ⟨hl, hsame⟩ := step_server hs
  · exact Or.inl ⟨k, rfl, hk⟩
  · refine Or.inr ⟨?_, hsame⟩
    cases l with
    | server l => exact absurd rfl (hl l)
    | node | reader | forward => rfl

section Session

variable {l : Client.Label} {now : Nat} {reached : Bool} {s : Session}

theorem frame_of_ne (hl : ∀ ok, l ≠ .write ok) : w.frame id build reached l = none := by
  cases l with
  | write ok => exact absurd rfl (hl ok)
  | top | connect | detect | fetched | beat => rfl

theorem write_listHosts (n : Node) (d : ConnId) :
    (n.write id build true).bind (fun r => r.2) = some (d, .listHosts) ↔
      n.pc = .fetching ∧ n.server = some d := by
  have hsend : ∀ msg, (sendOrDrop n.server msg true).2 = n.server.map (fun c => (c, msg)) := by
    intro msg
    cases n.server <;> rfl
  cases hpc : n.pc with
  | top | connecting | detecting | awaiting | heartbeat => simp [Node.write, hpc]
  | closing | leaving | pinging => simp [Node.write, hpc, hsend]
  | publishing ad =>
    by_cases hreg : n.hostingRegistered = true <;> simp [Node.write, hpc, hsend, hreg]
  | fetching => simp [Node.write, hpc, hsend]

theorem frame_listHosts {ok : Bool} {d : ConnId} :
    w.frame id build reached (.write ok) = some (d, .listHosts) ↔
      (ok || reached) = true ∧ w.session.node.pc = .fetching ∧ w.session.node.server = some d := by
  simp only [Net.frame]
  split
  next hok => simp only [write_listHosts, hok, true_and]
  next hok => simp [hok]

theorem frame_conn {d : ConnId} {msg : ClientMessage}
    (h : w.frame id build reached l = some (d, msg)) : w.session.node.server = some d := by
  cases l with
  | top | connect | detect | fetched | beat => cases h
  | write ok =>
    simp only [Net.frame] at h
    split at h
    · obtain ⟨⟨n', out⟩, hw, rfl⟩ := Option.bind_eq_some_iff.mp h
      have hsend : ∀ m, (sendOrDrop w.session.node.server m true).2 = some (d, msg) →
          w.session.node.server = some d := by
        intro m hm
        cases hsrv : w.session.node.server with
        | none => rw [hsrv] at hm; cases hm
        | some c => rw [hsrv] at hm; cases hm; rfl
      unfold Node.write at hw
      split at hw <;> simp only [Option.some.injEq, Prod.mk.injEq, reduceCtorEq] at hw <;>
        exact hsend _ hw.2
    · cases h

theorem count_frame (f : Option (ConnId × ClientMessage)) (d : ConnId) :
    ((f.toList.filter (fun p => decide (p.1 = d))).map (fun p => p.2)).count .listHosts =
      if f = some (d, .listHosts) then 1 else 0 := by
  cases f with
  | none => rfl
  | some p =>
    obtain ⟨c, msg⟩ := p
    by_cases hc : c = d <;> by_cases hm : msg = .listHosts <;> simp [hc, hm]

theorem request_asked (s : Session) (delivered : Bool) (d : ConnId) :
    ((s.request delivered).links d).seen = (s.links d).seen ∧
      ((s.request delivered).links d).ahead = (s.links d).ahead ∧
      ((s.request delivered).links d).asked = (s.links d).asked +
        if delivered = true ∧ s.node.pc = .fetching ∧ s.node.server = some d then 1 else 0 := by
  unfold Session.request
  split
  next c hpc hsrv =>
    split
    next hd =>
      rw [setLink_links]
      by_cases hc : d = c
      · subst hc
        simp [hd, hpc, hsrv]
      · simp [hc, hsrv, Ne.symm hc]
    next hd => simp [hd]
  next hn =>
    refine ⟨rfl, rfl, ?_⟩
    rw [if_neg ?_]
    · rfl
    · rintro ⟨-, hpc, hsrv⟩
      exact hn d hpc hsrv

theorem node_links (hs : w.session.step id build (.node l now reached) = some s) {d : ConnId}
    (hd : d ∈ w.session.opened) :
    (s.links d).seen ++ (s.links d).ahead =
      (w.session.links d).seen ++ (w.session.links d).ahead ∧
    (s.links d).asked = (w.session.links d).asked +
      if w.frame id build reached l = some (d, .listHosts) then 1 else 0 := by
  obtain ⟨n', out, -, ha⟩ := node_cases hs
  cases ha with
  | top _ =>
    rw [frame_of_ne (by simp)]
    dsimp only
    obtain hl | hl := abort_links w.session d <;> rw [hl] <;> simp
  | @connect c hc =>
    have hne : d ≠ c := by rintro rfl; exact hc hd
    rw [frame_of_ne (by simp)]
    simp [setLink_links, hne]
  | @write ok =>
    obtain ⟨h₁, h₂, h₃⟩ := request_asked w.session (ok || reached) d
    simp only [h₁, h₂, h₃, frame_listHosts, and_self]
  | @received hosts c rest hin hp =>
    rw [frame_of_ne (by simp)]
    dsimp only
    rw [setLink_links]
    split
    next hdc =>
      subst hdc
      simp
    · simp
  | other _ _ hw _ =>
    rw [frame_of_ne hw]
    simp

theorem node_opened (hs : w.session.step id build (.node l now reached) = some s) :
    (∃ c, l = .connect (some c) ∧ c ∉ w.session.opened ∧ s.opened = c :: w.session.opened ∧
        s.links c = Link.init) ∨
      (∀ c, l ≠ .connect (some c)) ∧ s.opened = w.session.opened := by
  obtain ⟨n', out, -, ha⟩ := node_cases hs
  cases ha with
  | top _ => exact Or.inr ⟨by simp, (abort_frame w.session).1⟩
  | @connect c hc => exact Or.inl ⟨c, rfl, hc, rfl, by simp [setLink_links]⟩
  | write => exact Or.inr ⟨by simp, (request_frame w.session _).1⟩
  | received => exact Or.inr ⟨by simp, rfl⟩
  | other _ hc _ _ => exact Or.inr ⟨hc, rfl⟩

theorem node_opened_mono (hs : w.session.step id build (.node l now reached) = some s) {c : ConnId}
    (hc : c ∈ w.session.opened) : c ∈ s.opened := by
  obtain ⟨d, -, -, ho, -⟩ | ⟨-, ho⟩ := node_opened hs
  · rw [ho]
    exact List.mem_cons_of_mem _ hc
  · rw [ho]
    exact hc

theorem node_opened_cases (hs : w.session.step id build (.node l now reached) = some s) {c : ConnId}
    (hc : c ∈ s.opened) : c ∈ w.session.opened ∨
      l = .connect (some c) ∧ c ∉ w.session.opened ∧ s.links c = Link.init := by
  obtain ⟨d, rfl, hd, ho, hl⟩ | ⟨-, ho⟩ := node_opened hs
  · rw [ho] at hc
    obtain rfl | hc := List.mem_cons.mp hc
    · exact Or.inr ⟨rfl, hd, hl⟩
    · exact Or.inl hc
  · rw [ho] at hc
    exact Or.inl hc

end Session

end Mineshaft.Browsing
