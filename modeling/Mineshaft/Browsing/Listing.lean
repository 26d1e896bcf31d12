import Mineshaft.Browsing.Network
import Mineshaft.Client.Advertising
import Mineshaft.Server.Directory

namespace Mineshaft.Browsing

open Mineshaft.Core Mineshaft.Lib Mineshaft.Lib.Transition
open Mineshaft.Client (Node Session Link ReaderStep hostLists hostLists_append)
open Mineshaft.Client.Session (Around node_cases reader_cases setLink_links stored_frame)
open Mineshaft.Server (ConnId DistinctAddrs FreshAddr)

def pending (s : Server.State) (c : ConnId) : Nat :=
  if s.task c = some (.handling .listHosts) then 1 else 0

theorem pending_step {s s' : Server.State} {l : Server.Label} (hs : Server.step s l = some s')
    (c : ConnId) : (listing c ⟨s, l⟩).length + pending s' c ≤
      pending s c + if l = .read c .listHosts then 1 else 0 := by
  obtain ⟨⟨addr, -, -, hm⟩, hframe⟩ := Server.step_moves hs
  by_cases hc : c = l.conn
  · subst hc
    unfold pending
    generalize s.task l.conn = t at hm
    generalize s'.task l.conn = t' at hm
    cases hm with
    | accept | insert | leave | cleanup => simp [listing]
    | read => simp [listing, Server.Label.conn]
    | handle hr => simp [listing, Server.handle_not_handling hr]
    | listHosts | openSession => simp [listing, Server.afterSends, Server.Label.conn]
    | @sendTo c dest msg rest => cases rest <;> simp [listing, Server.afterSends]
    | write | closeRx => simp [listing]
  · rw [listing_of_ne hc, pending, pending, (hframe c hc).1]
    simp

structure Supplied (h : List Event) (w : Net) : Prop where
  fresh : ∀ c, c ∉ w.session.opened → w.wire c = []
  current : ∀ c, w.session.node.server = some c → c ∈ w.session.opened
  frames : ∀ c ∈ w.session.opened,
    (w.session.links c).seen ++ (w.session.links c).ahead = written w.server c
  asked : ∀ c ∈ w.session.opened,
    (listings c (serverEvents h)).length + pending w.server c + (w.wire c).count .listHosts ≤
      (w.session.links c).asked

variable {id : UInt64} {build : UInt64 → ServerAdvertisement → Option (List UInt8)}
variable {h : List Event} {w w' : Net}

theorem moves_server {n n' : Node} {l : Client.Label} {out : Option (ConnId × ClientMessage)}
    (hm : Client.Moves id build n l n' out) {c : ConnId} (hc : n'.server = some c) :
    n.server = some c ∨ l = .connect (some c) := by
  by_cases hl : ∃ d, l = .connect (some d)
  · obtain ⟨d, rfl⟩ := hl
    rw [(Client.moves_connect hm).2.1] at hc
    exact Or.inr (by rw [hc])
  · push Not at hl
    cases l with
    | write ok =>
      obtain ⟨-, hs, -⟩ | ⟨-, -, -, hs⟩ := Client.moves_write hm
      · exact Or.inl (hs c hc).1
      · exact Or.inl (hs c hc)
    | fetched hosts =>
      cases hosts with
      | some hosts =>
        rw [(Client.moves_fetched hm).2.2] at hc
        exact Or.inl hc
      | none => exact Or.inl ((Client.moves_other hm (by simp) (by simp) (by simp)).2 c hc).1
    | connect | top | detect | beat =>
      exact Or.inl ((Client.moves_other hm hl (by simp) (by simp)).2 c hc).1

theorem Answered.none {c : ConnId} {h : List Server.Event} {s : Server.State}
    (ha : Answered c h s) (hc : s.conns c = none) :
    listings c h = [] ∧ pending s c = 0 ∧ written s c = [] := by
  refine ⟨ha.fresh (by simp [Server.State.addr, hc]), ?_, ?_⟩
  · simp [pending, Server.State.task, hc]
  · simp [written, queued, Server.State.queue, hc]

theorem Supplied.node {l : Client.Label} {now : Nat} {reached : Bool} (hi : Supplied h w)
    (ha : ∀ c, Answered c (serverEvents h) w.server)
    (hs : w.nodeStep id build l now reached = some w') :
    Supplied (⟨w, .node l now reached⟩ :: h) w' := by
  obtain ⟨hnone, s, hn, rfl⟩ := nodeStep_iff hs
  have hwire := put_wire w (w.frame id build reached l)
  have hserver := (put_frame w (w.frame id build reached l)).2
  constructor
  · intro c hc
    have hc' : c ∉ w.session.opened := fun hm => hc (node_opened_mono hn hm)
    dsimp only
    rw [hwire, hi.fresh c hc']
    cases hf : w.frame id build reached l with
    | none => rfl
    | some p =>
      have hne : p.1 ≠ c := by
        rintro rfl
        exact hc' (hi.current _ (frame_conn hf))
      simp [hne]
  · intro c hc
    obtain ⟨n', out, hm, har⟩ := node_cases hn
    have hnode : s.node = n' := by cases har <;> rfl
    dsimp only at hc ⊢
    rw [hnode] at hc
    obtain hc | rfl := moves_server hm hc
    · exact node_opened_mono hn (hi.current c hc)
    · obtain ⟨d, hd, -, ho, -⟩ | ⟨hne, -⟩ := node_opened hn
      · cases hd
        rw [ho]
        exact List.mem_cons_self
      · exact absurd rfl (hne c)
  · intro c hc
    dsimp only
    rw [hserver]
    obtain hc | ⟨hl, -, hlink⟩ := node_opened_cases hn hc
    · rw [(node_links hn hc).1]
      exact hi.frames c hc
    · rw [hlink, ((ha c).none (hnone c hl)).2.2]
      rfl
  · intro c hc
    dsimp only
    rw [hserver, hwire, List.count_append, count_frame]
    change (listings c (serverEvents h)).length + _ + _ ≤ _
    obtain hc | ⟨hl, hnew, hlink⟩ := node_opened_cases hn hc
    · rw [(node_links hn hc).2]
      have := hi.asked c hc
      omega
    · obtain ⟨h₁, h₂, -⟩ := (ha c).none (hnone c hl)
      rw [h₁, h₂, hi.fresh c hnew, hl, frame_of_ne (by simp)]
      simp

theorem Supplied.read {c : ConnId} {msg : ClientMessage} {rest : List ClientMessage}
    {s' : Server.State} (hi : Supplied h w) (hr : Server.Run (serverEvents h) w.server)
    (hstep : Server.step w.server (.read c msg) = some s') (hc : c ∈ w.session.opened)
    (hw : w.wire c = msg :: rest) :
    Supplied (⟨w, .server (.read c msg)⟩ :: h)
      { w with server := s', wire := Function.update w.wire c rest } := by
  refine ⟨?_, hi.current, ?_, ?_⟩
  · intro d hd
    have hne : d ≠ c := by rintro rfl; exact hd hc
    simpa [hne] using hi.fresh d hd
  · intro d hd
    rw [written_step hr hstep d, if_neg (by simp), List.append_nil]
    exact hi.frames d hd
  · intro d hd
    have hp := pending_step hstep d
    have ha := hi.asked d hd
    rw [serverEvents_server, listings_cons, List.length_append]
    dsimp only
    by_cases hdc : d = c
    · subst hdc
      rw [hw, List.count_cons] at ha
      rw [Function.update_self]
      by_cases hm : msg = .listHosts
      · subst hm
        simp only [↓reduceIte, BEq.rfl] at ha hp
        omega
      · simp only [Server.Label.read.injEq, hm, and_false, ↓reduceIte] at hp
        omega
    · rw [if_neg (by simp [Ne.symm hdc])] at hp
      rw [Function.update_of_ne hdc]
      omega

theorem Supplied.server {l : Server.Label} (hi : Supplied h w)
    (hr : Server.Run (serverEvents h) w.server) (hs : w.serverStep l = some w') :
    Supplied (⟨w, .server l⟩ :: h) w' := by
  obtain ⟨s', hstep, ⟨c, msg, rest, rfl, hc, hw, rfl⟩ | ⟨hread, rfl⟩⟩ := serverStep_iff hs
  · exact hi.read hr hstep hc hw
  · obtain ⟨hwire, hopen, hnode⟩ := arrive_frame w l
    refine ⟨?_, ?_, ?_, ?_⟩
    · intro d hd
      dsimp only at hd ⊢
      rw [hopen] at hd
      rw [hwire]
      exact hi.fresh d hd
    · intro d hd
      dsimp only at hd ⊢
      rw [hnode] at hd
      rw [hopen]
      exact hi.current d hd
    · intro d hd
      dsimp only at hd ⊢
      rw [hopen] at hd
      rw [(arrive_links w l hd).1, written_step hr hstep d, hi.frames d hd]
    · intro d hd
      dsimp only at hd ⊢
      rw [hopen] at hd
      have hp := pending_step hstep d
      have ha := hi.asked d hd
      have hne : l ≠ .read d .listHosts := by
        rintro rfl
        exact hread d _ rfl hd
      rw [if_neg hne] at hp
      rw [(arrive_links w l hd).2, hwire, serverEvents_server, listings_cons, List.length_append]
      omega

theorem Supplied.forward {c : ConnId} {msg : ClientMessage} {l : Label} (hi : Supplied h w)
    (hl : serverEvents (⟨w, l⟩ :: h) = serverEvents h) (hc : c ∈ w.session.opened)
    (hm : msg ≠ .listHosts) : Supplied (⟨w, l⟩ :: h) (w.put (some (c, msg))) := by
  have hwire := put_wire w (some (c, msg))
  refine ⟨?_, hi.current, hi.frames, ?_⟩
  · intro d hd
    have hne : c ≠ d := by rintro rfl; exact hd hc
    rw [hwire, hi.fresh d hd]
    simp [hne]
  · intro d hd
    rw [hl, hwire, List.count_append, count_frame, if_neg (by simp [hm])]
    exact hi.asked d hd

theorem Supplied.reader {c : ConnId} {r : ReaderStep} {s : Session} (hi : Supplied h w)
    (hs : (Session.machine id build).step w.session (.reader c r) = some s) :
    Supplied (⟨w, .reader c r⟩ :: h) { w with session := s } := by
  obtain ⟨-, l, hl, rfl⟩ := reader_cases hs
  obtain ⟨hf, ha, -⟩ := Client.reads_spec hl
  obtain ⟨hn, ho, -, hlinks⟩ := stored_frame w.session r
  have hlink : ∀ d, (((w.session.stored r).setLink c l).links d).seen ++
      (((w.session.stored r).setLink c l).links d).ahead =
        (w.session.links d).seen ++ (w.session.links d).ahead ∧
      (((w.session.stored r).setLink c l).links d).asked = (w.session.links d).asked := by
    intro d
    rw [setLink_links]
    split
    next hd =>
      subst hd
      exact ⟨hf, ha⟩
    · rw [hlinks]
      exact ⟨rfl, rfl⟩
  have hopen : ((w.session.stored r).setLink c l).opened = w.session.opened := ho
  have hnode : ((w.session.stored r).setLink c l).node = w.session.node := hn
  refine ⟨?_, ?_, ?_, ?_⟩
  · intro d hd
    rw [hopen] at hd
    exact hi.fresh d hd
  · intro d hd
    rw [hnode] at hd
    rw [hopen]
    exact hi.current d hd
  · intro d hd
    rw [hopen] at hd
    rw [(hlink d).1]
    exact hi.frames d hd
  · intro d hd
    rw [hopen] at hd
    rw [(hlink d).2]
    exact hi.asked d hd

theorem run_supplied (hr : Run (Net.machine id build) h w) (hd : DistinctAddrs (serverEvents h)) :
    Supplied h w := by
  induction hr with
  | nil =>
    refine ⟨fun _ _ => rfl, ?_, ?_, ?_⟩
    · intro c hc
      cases hc
    · intro c hc
      cases hc
    · intro c hc
      cases hc
  | @cons h w w' l hr hs ih =>
    cases l with
    | node l now reached =>
      exact (ih hd).node (run_answered (server_run hr) hd) hs
    | reader c r =>
      obtain ⟨s, hread, rfl⟩ := Option.map_eq_some_iff.mp hs
      have hread : (Session.machine id build).step w.session (.reader c r) = some s := hread
      exact (ih hd).reader hread
    | forward c t i n d =>
      change (if c ∈ w.session.opened then _ else none) = some w' at hs
      split at hs <;> cases hs
      next hc => exact (ih hd).forward rfl hc (by simp)
    | server l => exact (ih hd.tail).server (server_run hr) hs

/-- A new connection has an address that no connection with an unfinished task
has. -/
def Fresh (e : Event) : Prop :=
  match e.label with
  | .server l => FreshAddr e.pre.server.view l
  | .node _ _ _ | .reader _ _ | .forward _ _ _ _ _ => True

theorem distinctAddrs_iff : DistinctAddrs (serverEvents h) ↔ ∀ e ∈ h, Fresh e := by
  constructor
  · rintro hd ⟨w, l⟩ he
    cases l with
    | server l => exact hd ⟨w.server, l⟩ (List.mem_filterMap.mpr ⟨_, he, rfl⟩)
    | node | reader | forward => trivial
  · intro hf e he
    obtain ⟨⟨w, l⟩, hm, hl⟩ := List.mem_filterMap.mp he
    cases l with
    | server l =>
      cases hl
      exact hf _ hm
    | node | reader | forward => cases hl

def sessionEvent (e : Event) : Option Session.Event :=
  match e.label with
  | .node l now reached => some ⟨e.pre.session, .node l now reached⟩
  | .reader c r => some ⟨e.pre.session, .reader c r⟩
  | .server (.write c) =>
    if c ∈ e.pre.session.opened then
      (nextFrame e.pre.server c).map (fun msg => ⟨e.pre.session, .serve c msg⟩)
    else none
  | .server _ | .forward _ _ _ _ _ => none

theorem solicited_next {c : ConnId} {msg : ServerMessage} {s' : Server.State}
    (hr : Run (Net.machine id build) h w) (hd : DistinctAddrs (serverEvents h))
    (hfresh : Fresh ⟨w, .server (.write c)⟩)
    (hs : Server.step w.server (.write c) = some s') (hc : c ∈ w.session.opened)
    (hn : nextFrame w.server c = some msg) :
    (hostLists ((w.session.links c).seen ++ (w.session.links c).ahead ++ [msg])).length ≤
      (w.session.links c).asked := by
  have hi := run_supplied hr hd
  have hrun := server_run hr
  have hw : written s' c = written w.server c ++ [msg] := by
    rw [written_step hrun hs c, if_pos rfl, hn]
    rfl
  have hd' : DistinctAddrs (⟨w.server, .write c⟩ :: serverEvents h) := by
    intro e he
    obtain rfl | he := List.mem_cons.mp he
    · exact hfresh
    · exact hd e he
  have hle := (written_listings (Server.run_step hrun hs) hd' c).length_le
  have hasked := hi.asked c hc
  rw [hi.frames c hc, ← hw]
  rw [listings_cons] at hle
  simp only [listing, List.append_nil] at hle
  omega

theorem run_session (hr : Run (Net.machine id build) h w) (hd : DistinctAddrs (serverEvents h)) :
    Run (Session.machine id build) (h.filterMap sessionEvent) w.session := by
  refine hr.project_of Fresh (fun w : Net => w.session) _ rfl ?_ (distinctAddrs_iff.mp hd)
  intro h w l w' hr hf hfresh hs
  cases l with
  | node l now reached =>
    obtain ⟨-, s, hn, rfl⟩ := nodeStep_iff hs
    exact Or.inl ⟨_, rfl, hn⟩
  | reader c r =>
    obtain ⟨s, hread, rfl⟩ := Option.map_eq_some_iff.mp hs
    exact Or.inl ⟨_, rfl, hread⟩
  | forward c t i n d =>
    change (if c ∈ w.session.opened then _ else none) = some w' at hs
    split at hs <;> cases hs
    exact Or.inr ⟨rfl, rfl⟩
  | server l =>
    obtain ⟨s', hstep, ⟨_, _, _, rfl, _, _, rfl⟩ | ⟨-, rfl⟩⟩ := serverStep_iff hs
    · exact Or.inr ⟨rfl, rfl⟩
    · by_cases hl : ∃ c, l = .write c ∧ c ∈ w.session.opened
      · obtain ⟨c, rfl, hc⟩ := hl
        obtain ⟨msg, hn⟩ := nextFrame_isSome hstep
        have hsol := solicited_next hr (distinctAddrs_iff.mpr hf) hfresh hstep hc hn
        refine Or.inl ⟨.serve c msg, ?_, ?_⟩
        · simp [sessionEvent, hc, hn]
        · simp only [Session.machine, Session.step, Net.arrive, hn, hc, hsol, and_self, ↓reduceIte]
          rfl
      · push Not at hl
        cases l with
        | write c =>
          have hc := hl c rfl
          have ha : w.arrive (.write c) = w := by
            simp only [Net.arrive]
            split
            · exact if_neg hc
            · rfl
          exact Or.inr ⟨by simp [sessionEvent, hc], by rw [ha]⟩
        | accept | insert | read | handle | listHosts | openSession | sendTo | leave | cleanup
        | closeRx => exact Or.inr ⟨rfl, rfl⟩

/-- The server answers every `ListHosts` of the node with at most one host list
and sends it no other, so that the node runs as it does with any such server. -/
theorem host_lists_solicited (hr : Run (Net.machine id build) h w)
    (hd : DistinctAddrs (serverEvents h)) :
    Run (Session.machine id build) (h.filterMap sessionEvent) w.session ∧
    ∀ c ∈ w.session.opened,
      hostLists ((w.session.links c).seen ++ (w.session.links c).ahead) <+:
        listings c (serverEvents h) ∧
      (listings c (serverEvents h)).length + (w.wire c).count .listHosts ≤
        (w.session.links c).asked := by
  have hi := run_supplied hr hd
  refine ⟨run_session hr hd, fun c hc => ⟨?_, ?_⟩⟩
  · rw [hi.frames c hc]
    exact written_listings (server_run hr) hd c
  · have hasked := hi.asked c hc
    omega

def browsing : List Label :=
  [.server (.accept 0 (.v4 1 1)), .server (.insert 0), .server (.read 0 (.registerHost ⟨7, default⟩)),
    .server (.handle 0 (.registerHost ⟨7, default⟩)), .server (.sendTo 0 (.v4 1 1) (.registered 7)),
    .node (.top true false) 0 false, .node (.connect (some 1)) 0 false,
    .server (.accept 1 (.v4 1 2)), .server (.insert 1), .node (.detect (.ok true) none) 0 false,
    .node (.write true) 0 false, .server (.read 1 .listHosts),
    .server (.listHosts 1 [⟨7, default⟩]), .server (.sendTo 1 (.v4 1 2) (.hostList [⟨7, default⟩])),
    .server (.write 1), .reader 1 .read, .reader 1 (.note 20), .reader 1 .handle]

def sample : Machine Net Label := Net.machine 9 Client.plainPacket

theorem browsing_run : Run (Net.machine 9 Client.plainPacket) (replay sample browsing).1
    (replay sample browsing).2 := replay_run browsing

theorem browsing_distinctAddrs : DistinctAddrs (serverEvents (replay sample browsing).1) :=
  Server.distinctAddrs_of_nodup (server_run browsing_run) (by decide +kernel)

theorem host_lists_solicited_browsing :
    (replay sample browsing).1.length = 18 ∧
      hostLists (((replay sample browsing).2.session.links 1).seen ++
        ((replay sample browsing).2.session.links 1).ahead) <+:
          listings 1 (serverEvents (replay sample browsing).1) := by
  have hs := host_lists_solicited browsing_run browsing_distinctAddrs
  exact ⟨by decide +kernel, (hs.2 1 (by decide +kernel)).1⟩

end Mineshaft.Browsing
