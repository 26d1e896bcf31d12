import Mineshaft.Server.Pairings

namespace Mineshaft.Server

open Mineshaft.Core Mineshaft.Lib Mineshaft.Lib.Transition

def Stays (d : ConnId) (e : Event) : Prop := e.label ≠ .cleanup d ∧ e.label ≠ .closeRx d

/-- A signal that connection `j` has processed in `s` is on its way to the owner
of the target id: the pairing is recorded, the signal is to be sent to the
owner next, and the queue of the owner takes it unless the owner has left. -/
def ReachesOwner (h : List Event) (s : State) (j : ConnId) (target id n : UInt64)
    (data : String) : Prop :=
  ∃ joiner owner d s', s.addr j = some joiner ∧ s.reg.hosts.lookup target = some owner ∧
    s.reg.clients.lookup owner = some ⟨d⟩ ∧
    step s (.handle j (.signal target id n data)) = some s' ∧
    s'.reg.sessions.lookup id = some (joiner, owner) ∧
    s'.task j = some (.sending (owner, .signal id n data) []) ∧
    ∀ post t t', Run (post ++ ⟨s, .handle j (.signal target id n data)⟩ :: h) t →
      DistinctAddrs (post ++ ⟨s, .handle j (.signal target id n data)⟩ :: h) →
      s.rxOpen d = true → (∀ e ∈ post, Stays d e) →
      step t (.sendTo j owner (.signal id n data)) = some t' →
      t'.queue d = t.queue d ++ [⟨j, .signal id n data⟩]

section Signals

variable {s s' : State} {j : ConnId} {target id n : UInt64} {data : String}

theorem signal_addr (hs : step s (.handle j (.signal target id n data)) = some s') :
    ∃ joiner, s.addr j = some joiner ∧
      s'.reg = s.reg.routeSignal joiner target id := by
  obtain ⟨k, hk, -, he⟩ := atTask_eq_some.mp hs
  obtain ⟨r, hr, rfl⟩ := Option.map_eq_some_iff.mp he
  exact ⟨k.addr, by simp [State.addr, hk], (handle_spec hr).1⟩

theorem stays_run {h post : List Event} {t : State} {d : ConnId} {owner : SocketAddr} {e : Event}
    (hr : Run (post ++ e :: h) t) (he : Stays d e) (hp : ∀ e ∈ post, Stays d e)
    (hc : e.pre.view.stage d = some (owner, .inserted)) (ho : e.pre.rxOpen d = true) :
    t.view.stage d = some (owner, .inserted) ∧ t.rxOpen d = true := by
  have hstep : ∀ {s s' : State} {l : Label}, step s l = some s' → Stays d ⟨s, l⟩ →
      s.view.stage d = some (owner, .inserted) → s.rxOpen d = true →
      s'.view.stage d = some (owner, .inserted) ∧ s'.rxOpen d = true := by
    intro s s' l hs hst hc ho
    have hin : (s.conns d).isSome := by
      obtain ⟨k, hk, -⟩ := Option.map_eq_some_iff.mp hc
      simp [hk]
    exact ⟨(step_effect hs).inserted hc hst.1, (rxOpen_frame hs hin hst.2).trans ho⟩
  induction post generalizing t with
  | nil =>
    cases hr with
    | cons _ hs => exact hstep hs he hc ho
  | cons a post ih =>
    cases hr with
    | cons hr hs =>
      obtain ⟨hc, ho⟩ := ih hr (fun e hm => hp e (List.mem_cons_of_mem _ hm))
      exact hstep hs (hp _ List.mem_cons_self) hc ho

theorem reaches_of_routed {h : List Event} (hr : Run h s) (hd : DistinctAddrs h)
    {joiner owner : SocketAddr} (ha : s.addr j = some joiner)
    (ho : s.reg.hosts.lookup target = some owner)
    (hs : step s (.handle j (.signal target id n data)) = some s')
    (hl : s'.reg.sessions.lookup id = some (joiner, owner))
    (hdest : s.reg.routeDest target id = some owner) :
    ReachesOwner h s j target id n data := by
  have hcon := (run_consistent hr hd).owner target owner ho
  obtain ⟨⟨d⟩, hcl⟩ := Option.isSome_iff_exists.mp hcon
  have ht := signal_task hs
  rw [hdest] at ht
  refine ⟨joiner, owner, d, s', ha, ho, hcl, hs, hl, ht, ?_⟩
  intro post t t' hrun hdist hopen hstay hsend
  have hst := (run_wired hr hd).live owner d hcl
  obtain ⟨hst', hopen'⟩ := stays_run hrun (by simp [Stays]) hstay hst hopen
  have hcl' : t.reg.clients.lookup owner = some ⟨d⟩ := (run_wired hrun hdist).client d owner hst'
  rw [step_sendTo_queue hsend, if_pos ⟨hcl', hopen'⟩]

end Signals

/-- Every listed host can be signalled, but for one with the id 0, which the
router takes for the direction toward a joiner. -/
theorem listed_reached_iff {h : List Event} {s : State} (hr : Run h s) (hd : DistinctAddrs h)
    {hosts : List AdvertisedServer} (hlist : hosts.Perm s.reg.hostRecords.values)
    {r : AdvertisedServer} (hmem : r ∈ hosts) {j : ConnId} {id n : UInt64} {data : String}
    (hs : (step s (.handle j (.signal r.senderId id n data))).isSome) :
    ReachesOwner h s j r.senderId id n data ↔
      r.senderId ≠ 0 ∨ ∃ own, s.addr j = some own ∧ s.reg.hosts.lookup 0 = some own ∧
        s.reg.sessions.lookup id = some (own, own) := by
  obtain ⟨s', hs⟩ := Option.isSome_iff_exists.mp hs
  obtain ⟨owner, ho, -⟩ := ((run_consistent hr hd).snapshot hlist).2 r hmem
  obtain ⟨joiner, ha, hreg⟩ := signal_addr hs
  by_cases h0 : r.senderId = 0
  · -- the signal is routed by its session, which it leaves as it is
    have hsame : s'.reg = s.reg := by rw [hreg, Registry.routeSignal, if_neg (by simp [h0])]
    have hdest : s.reg.routeDest r.senderId id =
        (s.reg.sessions.lookup id).map (fun p => p.1) := by
      rw [Registry.routeDest, if_neg (by simp [h0])]
    simp only [h0, ne_eq, not_true_eq_false, false_or] at ho ⊢
    constructor
    · rintro ⟨joiner', owner', d, s'', ha', ho', -, hs', hl, ht, -⟩
      rw [h0] at hs hdest
      rw [hs] at hs'
      cases hs'
      rw [hsame] at hl
      have htask := signal_task hs
      rw [hdest, hl, ht] at htask
      simp only [Option.map_some, Option.some.injEq, Task.sending.injEq, Prod.mk.injEq] at htask
      obtain ⟨⟨rfl, -⟩, -⟩ := htask
      exact ⟨owner', ha', ho', hl⟩
    · rintro ⟨own, ha', ho', hl⟩
      rw [h0] at hs hdest
      refine reaches_of_routed hr hd ha' ho' hs (by rw [hsame]; exact hl) ?_
      rw [hdest, hl]
      rfl
  · refine iff_of_true ?_ (Or.inl h0)
    refine reaches_of_routed hr hd ha ho hs ?_ ?_
    · rw [hreg, Registry.routeSignal, if_pos h0, ho]
      exact AList.lookup_insert _
    · rw [Registry.routeDest, if_pos h0, ho]

/-- A host with the given id, and a client that has seen it in the list and has
read a signal toward it. -/
def signalListed (id : UInt64) : List Label :=
  [.accept 0 (.v4 1 1), .insert 0, .read 0 (.registerHost ⟨id, default⟩),
    .handle 0 (.registerHost ⟨id, default⟩), .sendTo 0 (.v4 1 1) (.registered id),
    .accept 1 (.v4 1 2), .insert 1, .read 1 .listHosts, .listHosts 1 [⟨id, default⟩],
    .sendTo 1 (.v4 1 2) (.hostList [⟨id, default⟩]),
    .read 1 (.signal id 5 9 "CONNECTREQUEST 5 x")]

theorem listed_reached_seven :
    (replay machine (signalListed 7)).1.length = 11 ∧
      ReachesOwner (replay machine (signalListed 7)).1 (replay machine (signalListed 7)).2
        1 7 5 9 "CONNECTREQUEST 5 x" := by
  have hd := replay_distinctAddrs (signalListed 7) (by decide)
  have hl : [⟨7, default⟩].Perm (replay machine (signalListed 7)).2.reg.hostRecords.values := by
    decide +kernel
  exact ⟨by decide +kernel, (listed_reached_iff (replay_run (signalListed 7)) hd hl
    List.mem_cons_self (by decide +kernel)).mpr (Or.inl (by decide))⟩

/-- A host that drew the id 0 is listed, and a signal toward it goes nowhere. -/
theorem listed_reached_zero :
    DistinctAddrs (replay machine (signalListed 0)).1 ∧
      [⟨0, default⟩].Perm (replay machine (signalListed 0)).2.reg.hostRecords.values ∧
      (∃ s', step (replay machine (signalListed 0)).2
        (.handle 1 (.signal 0 5 9 "CONNECTREQUEST 5 x")) = some s' ∧
        s'.reg.sessions.lookup 5 = none ∧ s'.task 1 = some .reading) ∧
      ¬ ReachesOwner (replay machine (signalListed 0)).1 (replay machine (signalListed 0)).2
        1 0 5 9 "CONNECTREQUEST 5 x" := by
  have hsome : (step (replay machine (signalListed 0)).2
      (.handle 1 (.signal 0 5 9 "CONNECTREQUEST 5 x"))).isSome := by decide +kernel
  obtain ⟨s', hs⟩ := Option.isSome_iff_exists.mp hsome
  obtain ⟨joiner, -, hreg⟩ := signal_addr hs
  have hnone : s'.reg.sessions.lookup 5 = none := by
    rw [hreg, Registry.routeSignal, if_neg (by simp)]
    decide +kernel
  have htask : s'.task 1 = some .reading := by
    rw [signal_task hs]
    decide +kernel
  refine ⟨replay_distinctAddrs (signalListed 0) (by decide), by decide +kernel,
    ⟨s', hs, hnone, htask⟩, ?_⟩
  rintro ⟨_, _, _, s'', -, -, -, hs', hl, -, -⟩
  rw [hs] at hs'
  cases hs'
  rw [hnone] at hl
  cases hl

end Mineshaft.Server
