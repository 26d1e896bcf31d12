import Mineshaft.Hosting.HostView
import Mineshaft.Hosting.Network

namespace Mineshaft.Hosting

open Mineshaft.Core Mineshaft.Lib Mineshaft.Lib.Transition
open Mineshaft.Client (Node hostId applied)
open Mineshaft.Server (ConnId Wired FreshAddr Consistent handled handling_step step_effect step_moves
  task_handle)

def Net.pending (w : Net) (c : ConnId) : List ClientMessage :=
  ((w.server.task c).bind handled).toList ++ w.wire c

/-- The host messages on the current connection lead from what the server
stores to what the node believes. The id belongs to a connection of the node. -/
structure Agrees (id : UInt64) (w : Net) : Prop where
  knows : w.node.Knows
  current : ∀ c, w.node.server = some c → c ∈ w.opened
  idle : ∀ c, c ∉ w.opened → w.wire c = []
  foreign : ∀ c msg, c ∉ w.opened → w.server.task c = some (.handling msg) → hostId msg ≠ some id
  owner : ∀ a, w.server.reg.hosts.lookup id = some a →
    ∃ d ∈ w.opened, w.server.view.stage d = some (a, .inserted)
  belief : ∀ c, w.node.server = some c → Serves w.server c →
    (w.pending c).foldl (applied id) (hostedBy w.server id c) = w.node.belief

def Label.registration : Label → Option (ConnId × UInt64)
  | .server l => l.registers
  | .node _ | .forward _ _ _ _ _ => none

/-- A registration of the id on a connection that the node has dropped finds
the id in other hands than those of the current connection. -/
def NotUsurped (id : UInt64) (e : Event) : Prop :=
  ∀ p ∈ e.label.registration, p.2 = id → ∀ c ∈ e.pre.node.server, c ≠ p.1 →
    ∀ a ∈ e.pre.server.addr c, e.pre.server.reg.hosts.lookup id ≠ some a

instance (id : UInt64) : DecidablePred (NotUsurped id) := fun e =>
  inferInstanceAs (Decidable (∀ p ∈ e.label.registration, p.2 = id → ∀ c ∈ e.pre.node.server,
    c ≠ p.1 → ∀ a ∈ e.pre.server.addr c, e.pre.server.reg.hosts.lookup id ≠ some a))

variable {id : UInt64} {buildResponsePacket : UInt64 → ServerAdvertisement → Option (List UInt8)}

theorem Agrees.pending_kept {w w' : Net} {l : Server.Label} (h : Agrees id w)
    (hs : w.serverStep id l = some w') (hw : Wired w.server.view) (hc : Consistent w.server.reg)
    (hf : FreshAddr w.server.view l) (hn : NotUsurped id ⟨w, .server l⟩) {c : ConnId}
    (hcur : w.node.server = some c) (hserves : Serves w'.server c) :
    Serves w.server c ∧ (w'.pending c).foldl (applied id) (hostedBy w'.server id c) =
      (w.pending c).foldl (applied id) (hostedBy w.server id c) := by
  obtain ⟨s', hstep, hw'⟩ := serverStep_iff hs
  obtain rfl : w'.server = s' := by
    rcases hw' with ⟨_, _, _, _, _, _, rfl⟩ | ⟨_, rfl⟩ <;> rfl
  refine ⟨hserves.before hstep, ?_⟩
  by_cases hcl : c = l.conn
  · subst hcl
    refine hostedBy_own hc hstep hserves ?_ ?_
    · obtain ⟨c', msg', rest, rfl, hc', hwire, hw'⟩ | ⟨hl, hw'⟩ := hw'
      · refine Or.inl ⟨msg', rfl, ?_⟩
        rw [hw']
        simpa [Server.Label.conn] using hwire
      · refine Or.inr ⟨fun msg he => (hl _ msg he).1 (h.current _ hcur), ?_⟩
        rw [hw']
    · rintro a he ho
      obtain ⟨d, -, hd⟩ := h.owner a ho
      rw [he] at hf
      cases hf d _ hd
  · have hwire : w'.wire c = w.wire c := by
      obtain ⟨c', msg', rest, rfl, hc', hwire, hw'⟩ | ⟨-, hw'⟩ := hw'
      · rw [hw']
        exact Function.update_of_ne hcl _ _
      · rw [hw']
    rw [Net.pending, Net.pending, hwire, ((step_moves hstep).2 c hcl).1]
    rw [hostedBy_other hw hstep hcl (hserves.before hstep).2]
    rintro d r rfl hi a ha
    exact hn (d, r.senderId) rfl hi c hcur hcl a ha

theorem Agrees.serverStep {w w' : Net} {l : Server.Label} (h : Agrees id w)
    (hs : w.serverStep id l = some w') (hw : Wired w.server.view) (hc : Consistent w.server.reg)
    (hf : FreshAddr w.server.view l) (hn : NotUsurped id ⟨w, .server l⟩) : Agrees id w' := by
  obtain ⟨s', hstep, hw'⟩ := serverStep_iff hs
  have he := step_effect hstep
  have hserver : w'.server = s' ∧ w'.node = w.node ∧ w'.opened = w.opened := by
    rcases hw' with ⟨_, _, _, _, _, _, rfl⟩ | ⟨_, rfl⟩ <;> exact ⟨rfl, rfl, rfl⟩
  have hread : ∀ c msg, c ∉ w.opened → l = .read c msg → hostId msg ≠ some id := by
    rintro c msg hc rfl
    obtain ⟨c', msg', rest, hl, hc', -, -⟩ | ⟨hl, -⟩ := hw'
    · cases hl
      exact absurd hc' hc
    · exact (hl c msg rfl).2
  obtain ⟨rfl, hnode, hopen⟩ := hserver
  refine ⟨by rw [hnode]; exact h.knows, by rw [hnode, hopen]; exact h.current, ?_, ?_, ?_, ?_⟩
  · rw [hopen]
    intro c hc
    obtain ⟨c', msg', rest, hl, hc', -, hw'⟩ | ⟨-, hw'⟩ := hw'
    · have hne : c ≠ c' := by rintro rfl; exact hc hc'
      rw [hw']
      simpa [hne] using h.idle c hc
    · rw [hw']
      exact h.idle c hc
  · rw [hopen]
    intro c msg hc ht
    obtain ht | hl := handling_step hstep ht
    · exact h.foreign c msg hc ht
    · exact hread c msg hc hl
  · rw [hopen]
    intro a ho
    obtain ⟨ho, hcl⟩ | ⟨d, r, rfl, hi, hd⟩ := owner_step hstep ho
    · obtain ⟨d, hd, hst⟩ := h.owner a ho
      refine ⟨d, hd, he.inserted hst ?_⟩
      rintro rfl
      exact hcl d rfl hst
    · refine ⟨d, ?_, he.inserted hd (by simp)⟩
      by_contra hnd
      exact h.foreign d _ hnd (task_handle hstep) (congrArg some hi)
  · rw [hnode]
    intro c hcur hserves
    obtain ⟨hbefore, hkept⟩ := h.pending_kept hs hw hc hf hn hcur hserves
    rw [hkept]
    exact h.belief c hcur hbefore

theorem Agrees.put {w : Net} (h : Agrees id w) {c : ConnId} (hc : c ∈ w.opened) (n' : Node)
    (msg : ClientMessage) (hk : n'.Knows) (hs : n'.server = w.node.server)
    (hb : w.node.server = some c → n'.belief = applied id w.node.belief msg)
    (hb' : w.node.server ≠ some c → n'.belief = w.node.belief) :
    Agrees id ({ w with node := n' }.put c msg) := by
  refine ⟨hk, ?_, ?_, h.foreign, h.owner, ?_⟩
  · intro c' hc'
    rw [Net.put] at hc' ⊢
    exact h.current c' (hs ▸ hc')
  · intro c' hc'
    have hne : c' ≠ c := by rintro rfl; exact hc' hc
    simpa [Net.put, hne] using h.idle c' hc'
  · intro c' hc' hserves
    have hcur : w.node.server = some c' := hs ▸ hc'
    have hold := h.belief c' hcur hserves
    by_cases hcc : c' = c
    · subst hcc
      have hp : ({ w with node := n' }.put c' msg : Net).pending c' = w.pending c' ++ [msg] := by
        simp [Net.pending, Net.put]
      rw [hp, List.foldl_append]
      change List.foldl _ (List.foldl _ (hostedBy w.server id c') _) _ = n'.belief
      rw [hold, hb hcur]
      rfl
    · have hp : ({ w with node := n' }.put c msg : Net).pending c' = w.pending c' := by
        simp [Net.pending, Net.put, hcc]
      rw [hp]
      change List.foldl _ (hostedBy w.server id c') _ = n'.belief
      rw [hold, hb']
      intro he
      rw [hcur] at he
      exact hcc (Option.some.inj he)

theorem Agrees.nodeStep {w w' : Net} {l : Client.Label} (h : Agrees id w)
    (hs : w.nodeStep id buildResponsePacket l = some w') : Agrees id w' := by
  obtain ⟨n', out, hn, ⟨c, rfl, hc, hconn, rfl⟩ | ⟨hl, rfl⟩⟩ := nodeStep_iff hs
  · obtain ⟨hserver, hbelief, hk, rfl⟩ := Client.connect_belief hn
    refine ⟨hk, ?_, ?_, ?_, ?_, ?_⟩
    · intro c' hc'
      have he : c = c' := Option.some.inj (hserver.symm.trans hc')
      rw [he]
      exact List.mem_cons_self
    · intro c' hc'
      exact h.idle c' (fun hm => hc' (List.mem_cons_of_mem _ hm))
    · intro c' msg hc'
      exact h.foreign c' msg (fun hm => hc' (List.mem_cons_of_mem _ hm))
    · intro a ho
      obtain ⟨d, hd, hst⟩ := h.owner a ho
      exact ⟨d, List.mem_cons_of_mem _ hd, hst⟩
    · intro c' hc' _
      obtain rfl : c = c' := Option.some.inj (hserver.symm.trans hc')
      have hp : Net.pending { w.setNode (n', none) with opened := c :: w.opened } c = [] := by
        have hw := h.idle c hc
        simp [Net.pending, Net.setNode, Server.State.task, hconn, hw]
      rw [hp]
      change hostedBy w.server id c = n'.belief
      rw [hbelief, hostedBy, Server.State.addr, hconn]
      rfl
  · obtain ⟨hch, hk⟩ := Client.step_changes h.knows hl hn
    cases hch with
    | dropped hd =>
      have hnone : ∀ c, n'.server ≠ some c := by simp [hd]
      exact ⟨hk, fun c hc => absurd hc (hnone c), h.idle, h.foreign, h.owner,
        fun c hc => absurd hc (hnone c)⟩
    | quiet hserver hbelief =>
      refine ⟨hk, fun c hc => h.current c (hserver ▸ hc), h.idle, h.foreign, h.owner, ?_⟩
      intro c hc hserves
      exact (h.belief c (hserver ▸ hc) hserves).trans hbelief.symm
    | @wrote c msg hcur hserver hbelief =>
      exact h.put (h.current c hcur) n' msg hk (hserver.trans hcur.symm) (fun _ => hbelief)
        (fun hne => absurd hcur hne)

theorem Agrees.forward {w : Net} (h : Agrees id w) {c : ConnId} (hc : c ∈ w.opened)
    (t i n : UInt64) (data : String) : Agrees id (w.put c (.signal t i n data)) :=
  h.put hc w.node (.signal t i n data) h.knows rfl (fun _ => rfl) (fun _ => rfl)

theorem Agrees.init : Agrees id Net.init where
  knows := by intro h; cases h
  current := by intro c h; cases h
  idle := by intro c _; rfl
  foreign := by intro c msg _ h; cases h
  owner := by intro a h; cases h
  belief := by intro c h; cases h

theorem run_agrees {h : List Event} {w : Net} (hr : Run (Net.machine id buildResponsePacket) h w)
    (hd : Server.DistinctAddrs (serverEvents h)) (hu : ∀ e ∈ h, NotUsurped id e) : Agrees id w := by
  induction hr with
  | nil => exact Agrees.init
  | @cons h w w' l hr hs ih =>
    have hd' : Server.DistinctAddrs (serverEvents h) := fun e he => hd e (serverEvents_cons _ _ he)
    have ha := ih hd' (fun e he => hu e (List.mem_cons_of_mem _ he))
    cases l with
    | node l => exact ha.nodeStep hs
    | forward c t i n data =>
      change (if c ∈ w.opened then _ else none) = some w' at hs
      split at hs <;> cases hs
      next hc => exact ha.forward hc t i n data
    | server l =>
      have hrun := server_run hr
      have hf : FreshAddr w.server.view l := hd ⟨w.server, l⟩ (by simp [serverEvents])
      exact ha.serverStep hs (Server.run_wired hrun hd') (Server.run_consistent hrun hd') hf
        (hu ⟨w, .server l⟩ List.mem_cons_self)

/-- Nothing is under way: the server serves the current connection `c` and has
processed every frame on it, and has cleaned up every connection that the node
dropped. -/
structure Quiescent (w : Net) (c : ConnId) : Prop where
  current : w.node.server = some c
  serves : Serves w.server c
  processed : w.pending c = []
  others : ∀ d ∈ w.opened, d ≠ c → w.server.task d = some .finished

theorem Agrees.quiescent {w : Net} (h : Agrees id w) (hc : Consistent w.server.reg)
    {c : ConnId} (hq : Quiescent w c) :
    (w.node.hostingRegistered = true → ∃ a r, w.server.addr c = some a ∧
      w.server.reg.hosts.lookup id = some a ∧ w.server.reg.hostRecords.lookup id = some r ∧
      w.node.registeredAdvertisement = some r.data) ∧
    (w.node.hostingRegistered = false →
      w.server.reg.hosts.lookup id = none ∧ w.server.reg.hostRecords.lookup id = none) := by
  have hb := h.belief c hq.current hq.serves
  rw [hq.processed, List.foldl_nil, Node.belief] at hb
  constructor
  · intro hr
    obtain ⟨ad, had⟩ := Option.isSome_iff_exists.mp (h.knows hr)
    rw [hr, if_pos rfl, had] at hb
    obtain ⟨a, ha, hat⟩ := Option.bind_eq_some_iff.mp hb
    rw [hostedAt] at hat
    split at hat
    next ho =>
      obtain ⟨r, hrec, rfl⟩ := Option.map_eq_some_iff.mp hat
      exact ⟨a, r, ha, ho, hrec, had⟩
    · cases hat
  · intro hr
    rw [hr, if_neg (by simp)] at hb
    have hnone : w.server.reg.hosts.lookup id = none := by
      rw [Option.eq_none_iff_forall_ne_some]
      intro a ho
      obtain ⟨d, hd, hst⟩ := h.owner a ho
      obtain ⟨k, hk, he⟩ := Option.map_eq_some_iff.mp hst
      simp only [Prod.mk.injEq] at he
      by_cases hdc : d = c
      · subst hdc
        obtain ⟨r, hrec⟩ := Option.isSome_iff_exists.mp ((hc.keys id).symm.trans (by simp [ho]))
        have ha : w.server.addr d = some a := by simp [Server.State.addr, hk, he.1]
        simp [hostedBy, ha, hostedAt, ho, hrec] at hb
      · obtain ⟨k', hk', ht⟩ := Server.State.task_eq_some.mp (hq.others d hd hdc)
        rw [hk] at hk'
        cases hk'
        rw [ht] at he
        cases he.2
    refine ⟨hnone, ?_⟩
    have hk := hc.keys id
    rw [hnone] at hk
    simpa using hk.symm

/-- In every run of a node and the server in which simultaneous connections have
distinct addresses and no late registration of a dropped connection takes the
id away from the current one, the node and the server agree about the
registration whenever nothing is under way. -/
theorem registration_agreement {h : List Event} {w : Net}
    (hr : Run (Net.machine id buildResponsePacket) h w)
    (hd : Server.DistinctAddrs (serverEvents h)) (hu : ∀ e ∈ h, NotUsurped id e) (c : ConnId)
    (hq : Quiescent w c) :
    (w.node.hostingRegistered = true → ∃ a r, w.server.addr c = some a ∧
      w.server.reg.hosts.lookup id = some a ∧ w.server.reg.hostRecords.lookup id = some r ∧
      w.node.registeredAdvertisement = some r.data) ∧
    (w.node.hostingRegistered = false →
      w.server.reg.hosts.lookup id = none ∧ w.server.reg.hostRecords.lookup id = none) :=
  (run_agrees hr hd hu).quiescent (Server.run_consistent (server_run hr) hd) hq

def reconnects : List Label :=
  [.node (.top false false), .node (.connect (some 0)), .node (.detect (.ok true) (some (5, default))),
    .node (.write true), .node (.beat false), .server (.accept 0 (.v4 1 1)), .server (.insert 0),
    .node (.top true false), .node (.top false false), .node (.connect (some 1)),
    .node (.detect (.ok true) (some (5, default))), .node (.write true), .node (.beat false),
    .server (.accept 1 (.v4 1 2)), .server (.insert 1)]

def registers (c : ConnId) (addr : SocketAddr) : List Label :=
  [.server (.read c (.registerHost ⟨7, default⟩)), .server (.handle c (.registerHost ⟨7, default⟩)),
    .server (.sendTo c addr (.registered 7))]

def inOrder : List Label :=
  reconnects ++ registers 0 (.v4 1 1) ++ registers 1 (.v4 1 2) ++
    [.server (.leave 0), .server (.cleanup 0)]

def sample : Machine Net Label := Net.machine 7 (fun _ _ => some [])

theorem registration_agreement_inOrder :
    (replay sample inOrder).2.node.hostingRegistered = true ∧
      ∃ a r, (replay sample inOrder).2.server.addr 1 = some a ∧
        (replay sample inOrder).2.server.reg.hosts.lookup 7 = some a ∧
        (replay sample inOrder).2.server.reg.hostRecords.lookup 7 = some r ∧
        (replay sample inOrder).2.node.registeredAdvertisement = some r.data := by
  have hr : Run sample (replay sample inOrder).1 (replay sample inOrder).2 := replay_run inOrder
  have hd : Server.DistinctAddrs (serverEvents (replay sample inOrder).1) :=
    Server.distinctAddrs_of_nodup (server_run hr) (by decide +kernel)
  have hq : Quiescent (replay sample inOrder).2 1 :=
    ⟨by decide +kernel, ⟨by decide +kernel, by decide +kernel⟩, by decide +kernel, by decide +kernel⟩
  have ht : (replay sample inOrder).2.node.hostingRegistered = true := by decide +kernel
  exact ⟨ht, (registration_agreement hr hd (by decide +kernel) 1 hq).1 ht⟩

/-- The registration of connection 0 is processed last. -/
def overtaken : List Label :=
  reconnects ++ registers 1 (.v4 1 2) ++ registers 0 (.v4 1 1) ++
    [.server (.leave 0), .server (.cleanup 0)]

/-- The node takes itself to be registered and the server has lost the host. -/
theorem registration_agreement_overtaken :
    ∃ h w, Run sample h w ∧ Server.DistinctAddrs (serverEvents h) ∧ Quiescent w 1 ∧
      (∀ c ∈ w.opened, w.wire c = []) ∧ w.node.hostingRegistered = true ∧
      w.server.reg.hosts.lookup 7 = none := by
  have hr : Run sample (replay sample overtaken).1 (replay sample overtaken).2 :=
    replay_run overtaken
  have hd : Server.DistinctAddrs (serverEvents (replay sample overtaken).1) :=
    Server.distinctAddrs_of_nodup (server_run hr) (by decide +kernel)
  have hq : Quiescent (replay sample overtaken).2 1 :=
    ⟨by decide +kernel, ⟨by decide +kernel, by decide +kernel⟩, by decide +kernel, by decide +kernel⟩
  exact ⟨_, _, hr, hd, hq, by decide +kernel, by decide +kernel, by decide +kernel⟩

end Mineshaft.Hosting
