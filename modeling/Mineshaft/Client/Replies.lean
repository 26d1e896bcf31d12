import Mineshaft.Client.Session

namespace Mineshaft.Client

open Mineshaft.Core Mineshaft.Lib Mineshaft.Lib.Transition
open Mineshaft.Server (ConnId)

theorem hostLists_append (xs ys : List ServerMessage) :
    hostLists (xs ++ ys) = hostLists xs ++ hostLists ys :=
  List.filterMap_append

/-- What was read are the host lists that the main loop has taken, those in the
channel and the one in the hands of the reader; `waits` calls are unanswered. -/
def Link.InStep (l : Link) (waits : Nat) : Prop :=
  ∃ taken, hostLists l.seen = taken ++ hostLists (l.channel ++ l.reader.inHand) ∧
    taken.length + waits = l.asked

/-- The server has sent no host list that it was not asked for. -/
def Link.Solicited (l : Link) : Prop := (hostLists (l.seen ++ l.ahead)).length ≤ l.asked

theorem Link.InStep.of_eq {l l' : Link} {waits : Nat} (hi : l.InStep waits)
    (hs : l'.seen = l.seen) (ha : l'.asked = l.asked)
    (hl : hostLists (l'.channel ++ l'.reader.inHand) = hostLists (l.channel ++ l.reader.inHand)) :
    l'.InStep waits := by
  obtain ⟨taken, hseen, hlen⟩ := hi
  exact ⟨taken, by rw [hs, hl, hseen], by rw [ha, hlen]⟩

/-- A reader moves host lists along and neither drops nor makes any. -/
theorem reads_spec {l l' : Link} {r : ReaderStep} (h : Reads l r l') :
    l'.seen ++ l'.ahead = l.seen ++ l.ahead ∧ l'.asked = l.asked ∧
      ∀ waits, l.InStep waits → l'.InStep waits := by
  cases h with
  | read hr _ ha =>
    refine ⟨by simp [ha], rfl, ?_⟩
    rintro waits ⟨taken, hs, hl⟩
    refine ⟨taken, ?_, hl⟩
    rw [hostLists_append, hs, hr]
    simp [hostLists_append, ReaderPc.inHand]
  | fail hr _ | note hr | injected hr _ | leave hr =>
    refine ⟨rfl, rfl, fun waits hi => hi.of_eq rfl rfl ?_⟩
    rw [hr]
    rfl
  | listed hr =>
    refine ⟨rfl, rfl, fun waits hi => hi.of_eq rfl rfl ?_⟩
    rw [hr]
    simp [ReaderPc.inHand]
  | signalled hr hnil | passed hr hnil =>
    refine ⟨rfl, rfl, fun waits hi => hi.of_eq rfl rfl ?_⟩
    rw [hr]
    simp [ReaderPc.inHand, hostLists_append, hnil]

theorem Link.InStep.none_left {l : Link} (hi : l.InStep 0) (hs : l.Solicited) :
    hostLists l.channel = [] := by
  obtain ⟨taken, hseen, hl⟩ := hi
  unfold Link.Solicited at hs
  rw [hostLists_append, List.length_append, hseen, List.length_append, hostLists_append,
    List.length_append] at hs
  exact List.length_eq_zero_iff.mp (by omega)

theorem popHostList_spec {msgs rest : List ServerMessage} {hosts : List AdvertisedServer}
    (h : Session.popHostList msgs = some (hosts, rest)) :
    hostLists msgs = hosts :: hostLists rest := by
  induction msgs with
  | nil => cases h
  | cons msg msgs ih =>
    cases msg with
    | hostList hosts' =>
      cases h
      rfl
    | registered _ | incomingJoin _ _ | joinAccepted _ | signal _ _ _ | pong | error _ => exact ih h

theorem Link.InStep.popped {l : Link} {rest : List ServerMessage} {hosts : List AdvertisedServer}
    (hi : l.InStep 1) (hp : Session.popHostList l.channel = some (hosts, rest)) :
    Link.InStep { l with channel := rest } 0 ∧
      ∀ k, k + 1 = l.asked → (hostLists (l.seen ++ l.ahead))[k]? = some hosts := by
  obtain ⟨taken, hseen, hl⟩ := hi
  rw [hostLists_append, popHostList_spec hp, List.cons_append] at hseen
  constructor
  · refine ⟨taken ++ [hosts], ?_, by simpa using hl⟩
    rw [hseen, hostLists_append, List.append_assoc]
    rfl
  · intro k hk
    have hkt : k = taken.length := by omega
    rw [hostLists_append, hseen, List.append_assoc, hkt, List.getElem?_append_right le_rfl,
      Nat.sub_self]
    rfl

section Moves

variable {myNetworkId : UInt64}
variable {buildResponsePacket : UInt64 → ServerAdvertisement → Option (List UInt8)}
variable {n n' : Node} {out : Option (ConnId × ClientMessage)}

theorem moves_connect {c : ConnId}
    (hm : Moves myNetworkId buildResponsePacket n (.connect (some c)) n' out) :
    n.pc = .connecting ∧ n'.server = some c ∧ n'.pc = .detecting := by
  cases hm with
  | connected _ hpc => exact ⟨hpc, rfl, rfl⟩

theorem moves_write {ok : Bool} (hm : Moves myNetworkId buildResponsePacket n (.write ok) n' out) :
    (n.pc = .fetching ∧ (∀ c, n'.server = some c → n.server = some c ∧ ok = true ∧ n'.pc = .awaiting) ∧
        (n'.pc = .awaiting → n'.server.isSome)) ∨
      (n.pc ≠ .fetching ∧ n.pc ≠ .awaiting ∧ n'.pc ≠ .awaiting ∧
        ∀ c, n'.server = some c → n.server = some c) := by
  cases hm with
  | asked _ hpc =>
    refine Or.inl ⟨hpc, ?_, ?_⟩
    · intro c hc
      obtain ⟨hs, hok⟩ := sendOrDrop_some hc
      refine ⟨hs, hok, ?_⟩
      dsimp only at hc ⊢
      rw [hc]
      rfl
    · intro hpc'
      dsimp only at hpc' ⊢
      split at hpc'
      next hs => exact hs
      · cases hpc'
  | closedSent _ hpc =>
    refine Or.inr ⟨by simp [hpc], by simp [hpc], by simp, ?_⟩
    intro c hc
    simp only [clearAdvertised_server, Node.unregistered] at hc
    exact (sendOrDrop_some hc).1
  | leftSent _ hpc | published _ _ _ hpc _ | pinged _ hpc =>
    exact Or.inr ⟨by simp [hpc], by simp [hpc], by simp, fun c hc => (sendOrDrop_some hc).1⟩

theorem moves_fetched {hosts : List AdvertisedServer}
    (hm : Moves myNetworkId buildResponsePacket n (.fetched (some hosts)) n' out) :
    n.pc = .awaiting ∧ n'.pc = .heartbeat ∧ n'.server = n.server := by
  cases hm with
  | fetched _ hpc => exact ⟨hpc, rfl, rfl⟩

theorem moves_other {l : Label} (hm : Moves myNetworkId buildResponsePacket n l n' out)
    (hc : ∀ c, l ≠ .connect (some c)) (hw : ∀ ok, l ≠ .write ok)
    (hf : ∀ hosts, l ≠ .fetched (some hosts)) :
    n'.pc ≠ .awaiting ∧ ∀ c, n'.server = some c → n.server = some c ∧ n.pc ≠ .awaiting := by
  cases hm with
  | lost hpc _ _ => exact ⟨by simp [hpc], by simp⟩
  | alive hpc _ _ | offline hpc _ => simp [hpc]
  | refused hpc | closing hpc _ _ | publishing _ hpc _ _ | hosting _ hpc _ _ _ | leaving hpc _ _
  | browsing hpc _ _ | closed hpc _ _ => simp [hpc]
  | unanswered hpc => simp
  | beat due hpc =>
    refine ⟨?_, fun c h => ⟨h, by simp [hpc]⟩⟩
    dsimp only
    split <;> simp
  | connected c _ => exact absurd rfl (hc c)
  | closedSent ok _ | leftSent ok _ | published _ _ ok _ _ | asked ok _ | pinged ok _ =>
    exact absurd rfl (hw ok)
  | fetched hosts _ => exact absurd rfl (hf hosts)

end Moves

namespace Session

def lastAsk : List Event → Option (ConnId × Nat)
  | [] => none
  | e :: h =>
    match e.label, e.pre.node.pc, e.pre.node.server with
    | .node (.write true) _ _, .fetching, some c => some (c, (e.pre.links c).asked)
    | _, _, _ => lastAsk h

def waits (n : Node) : Nat := if n.pc = .awaiting then 1 else 0

/-- The channel that the main loop reads belongs to the connection that it
writes to, and is in step with the requests written there. -/
structure Answering (h : List Event) (s : Session) : Prop where
  solicited : ∀ c, (s.links c).Solicited
  incoming : ∀ c, s.node.server = some c → s.incoming = some c
  inStep : ∀ c, s.node.server = some c → (s.links c).InStep (waits s.node)
  awaiting : s.node.pc = .awaiting → ∃ c k, s.node.server = some c ∧ lastAsk h = some (c, k) ∧
    k + 1 = (s.links c).asked

theorem lastAsk_cons {e : Event} {h : List Event}
    (he : ∀ now r, e.label = .node (.write true) now r → e.pre.node.pc ≠ .fetching) :
    lastAsk (e :: h) = lastAsk h := by
  rw [lastAsk]
  split
  next hl hpc _ => exact absurd hpc (he _ _ hl)
  · rfl

theorem waits_of_ne {n : Node} (h : n.pc ≠ .awaiting) : waits n = 0 := if_neg h

theorem Answering.link {h : List Event} {s s' : Session} {e : Event} {c : ConnId} {l : Link}
    (hi : Answering h s) (he : ∀ l now r, e.label ≠ .node l now r) (hn : s'.node = s.node)
    (hin : s'.incoming = s.incoming) (hl : s'.links = Function.update s.links c l)
    (ha : l.asked = (s.links c).asked) (hsol : l.Solicited)
    (hstep : ∀ w, (s.links c).InStep w → l.InStep w) : Answering (e :: h) s' := by
  have hlinks : ∀ d, s'.links d = if d = c then l else s.links d := by
    intro d
    rw [hl, Function.update_apply]
  constructor
  · intro d
    rw [hlinks]
    split
    · exact hsol
    · exact hi.solicited d
  · rw [hn, hin]
    exact hi.incoming
  · intro d hd
    rw [hn] at hd ⊢
    rw [hlinks]
    split
    next hdc =>
      subst hdc
      exact hstep _ (hi.inStep d hd)
    · exact hi.inStep d hd
  · rw [hn, lastAsk_cons (fun now r hlab => absurd hlab (he _ _ _))]
    intro hpc
    obtain ⟨d, k, hd, hk, hasked⟩ := hi.awaiting hpc
    refine ⟨d, k, hd, hk, ?_⟩
    rw [hlinks]
    split
    next hdc =>
      subst hdc
      rw [ha]
      exact hasked
    · exact hasked

theorem Answering.quiet {h : List Event} {s s' : Session} {e : Event} (hi : Answering h s)
    (hl : ∀ d, (s'.links d).seen = (s.links d).seen ∧ (s'.links d).ahead = (s.links d).ahead ∧
      (s'.links d).channel = (s.links d).channel ∧ (s'.links d).reader = (s.links d).reader ∧
      (s'.links d).asked = (s.links d).asked)
    (hin : s'.incoming = s.incoming) (hpc : s'.node.pc ≠ .awaiting)
    (hs : ∀ c, s'.node.server = some c → s.node.server = some c ∧ s.node.pc ≠ .awaiting) :
    Answering (e :: h) s' := by
  constructor
  · intro d
    obtain ⟨h₁, h₂, -, -, h₅⟩ := hl d
    rw [Link.Solicited, h₁, h₂, h₅]
    exact hi.solicited d
  · intro c hc
    rw [hin]
    exact hi.incoming c (hs c hc).1
  · intro c hc
    obtain ⟨h₁, -, h₃, h₄, h₅⟩ := hl c
    have hstep := hi.inStep c (hs c hc).1
    rw [waits_of_ne (hs c hc).2] at hstep
    rw [waits_of_ne hpc, Link.InStep, h₁, h₃, h₄, h₅]
    exact hstep
  · exact fun hp => absurd hp hpc

theorem request_of_ne {s : Session} (h : s.node.pc ≠ .fetching) (delivered : Bool) :
    s.request delivered = s := by
  unfold request
  split
  next hpc _ => exact absurd hpc h
  · rfl

theorem Answering.connected {h : List Event} {s : Session} {e : Event} {n' : Node} {c : ConnId}
    {now : Nat} (hi : Answering h s) (hs : n'.server = some c) (hpc : n'.pc = .detecting) :
    Answering (e :: h) { s.setLink c Link.init with
      node := n'
      opened := c :: s.opened
      incoming := some c
      readerAlive := true
      lastSeen := now } := by
  have hlinks := fun d => setLink_links s c d Link.init
  constructor
  · intro d
    dsimp only
    rw [hlinks]
    split
    · exact Nat.le_refl 0
    · exact hi.solicited d
  · intro d hd
    dsimp only at hd ⊢
    rw [hs] at hd
    exact hd
  · intro d hd
    dsimp only at hd ⊢
    rw [hs] at hd
    cases hd
    rw [hlinks, if_pos rfl, waits_of_ne (by simp [hpc])]
    exact ⟨[], rfl, rfl⟩
  · intro hp
    dsimp only at hp
    rw [hpc] at hp
    cases hp

theorem Answering.requested {h : List Event} {s : Session} {n' : Node} {now : Nat} {reached ok : Bool}
    (hi : Answering h s) (hpc : s.node.pc = .fetching)
    (hs : ∀ c, n'.server = some c → s.node.server = some c ∧ ok = true ∧ n'.pc = .awaiting)
    (ha : n'.pc = .awaiting → n'.server.isSome) :
    Answering (⟨s, .node (.write ok) now reached⟩ :: h)
      { s.request (ok || reached) with node := n' } := by
  have hcur : ∀ c, n'.server = some c → (s.request (ok || reached)).links c =
      { s.links c with asked := (s.links c).asked + 1 } := by
    intro c hc
    obtain ⟨hsrv, hok, -⟩ := hs c hc
    simp only [request, hpc, hsrv, hok, Bool.true_or, if_true, setLink_links]
  constructor
  · intro d
    have hsol := hi.solicited d
    obtain hd | hd := request_links s (ok || reached) d
    · rw [hd]
      exact hsol
    · rw [hd]
      exact Nat.le_succ_of_le hsol
  · intro c hc
    dsimp only
    rw [(request_frame s _).2.1]
    exact hi.incoming c (hs c hc).1
  · intro c hc
    obtain ⟨hsrv, -, hpc'⟩ := hs c hc
    obtain ⟨taken, hseen, hlen⟩ := hi.inStep c hsrv
    rw [waits_of_ne (by simp [hpc])] at hlen
    rw [hcur c hc]
    refine ⟨taken, hseen, ?_⟩
    have hw : waits n' = 1 := if_pos hpc'
    dsimp only
    omega
  · intro hpc'
    obtain ⟨c, hc⟩ := Option.isSome_iff_exists.mp (ha hpc')
    obtain ⟨hsrv, hok, -⟩ := hs c hc
    refine ⟨c, (s.links c).asked, hc, ?_, ?_⟩
    · subst hok
      simp only [lastAsk, hpc, hsrv]
    · rw [hcur c hc]

theorem Answering.received {h : List Event} {s : Session} {e : Event} {n' : Node} {c : ConnId}
    {hosts : List AdvertisedServer} {rest : List ServerMessage} (hi : Answering h s)
    (hin : s.incoming = some c) (hp : popHostList (s.links c).channel = some (hosts, rest))
    (hpc : s.node.pc = .awaiting) (hpc' : n'.pc = .heartbeat) (hs : n'.server = s.node.server) :
    Answering (e :: h) { s.setLink c { s.links c with channel := rest } with node := n' } := by
  have hlinks := fun d => setLink_links s c d { s.links c with channel := rest }
  constructor
  · intro d
    dsimp only
    rw [hlinks]
    split
    next hd =>
      subst hd
      exact hi.solicited d
    · exact hi.solicited d
  · intro d hd
    dsimp only at hd ⊢
    rw [hs] at hd
    exact hi.incoming d hd
  · intro d hd
    dsimp only at hd ⊢
    rw [hs] at hd
    have hd' := hi.incoming d hd
    rw [hin] at hd'
    cases hd'
    have hstep := hi.inStep c hd
    have hw : waits s.node = 1 := if_pos hpc
    rw [hw] at hstep
    rw [hlinks, if_pos rfl, waits_of_ne (by simp [hpc'])]
    exact (hstep.popped hp).1
  · intro hp'
    dsimp only at hp'
    rw [hpc'] at hp'
    cases hp'

section Runs

variable {myNetworkId : UInt64}
variable {buildResponsePacket : UInt64 → ServerAdvertisement → Option (List UInt8)}

theorem Answering.node {h : List Event} {s s' : Session} {l : Client.Label} {now : Nat}
    {reached : Bool} (hi : Answering h s)
    (hs : s.step myNetworkId buildResponsePacket (.node l now reached) = some s') :
    Answering (⟨s, .node l now reached⟩ :: h) s' := by
  obtain ⟨n', out, hm, ha⟩ := node_cases hs
  cases ha with
  | top _ =>
    have hq := moves_other hm (by simp) (by simp) (by simp)
    refine hi.quiet ?_ (abort_frame s).2.1 hq.1 hq.2
    intro d
    dsimp only
    rcases abort_links s d with hd | hd <;> rw [hd] <;> simp
  | connect _ =>
    obtain ⟨-, hsrv, hpc⟩ := moves_connect hm
    exact hi.connected hsrv hpc
  | @write ok =>
    obtain ⟨hpc, hsrv, hsome⟩ | ⟨hpc, hpc₀, hpc', hsrv⟩ := moves_write hm
    · exact hi.requested hpc hsrv hsome
    · rw [request_of_ne hpc]
      exact hi.quiet (fun d => ⟨rfl, rfl, rfl, rfl, rfl⟩) rfl hpc' (fun c hc => ⟨hsrv c hc, hpc₀⟩)
  | received hin hp =>
    obtain ⟨hpc, hpc', hsrv⟩ := moves_fetched hm
    exact hi.received hin hp hpc hpc' hsrv
  | other _ hc hw hf =>
    have hq := moves_other hm hc hw hf
    exact hi.quiet (fun d => ⟨rfl, rfl, rfl, rfl, rfl⟩) rfl hq.1 hq.2

theorem run_answering {h : List Event} {s : Session}
    (hr : Run (machine myNetworkId buildResponsePacket) h s) : Answering h s := by
  induction hr with
  | nil =>
    constructor
    · exact fun c => Nat.le_refl 0
    · intro c hc
      cases hc
    · intro c hc
      cases hc
    · intro hpc
      cases hpc
  | @cons h s s' l hr hs ih =>
    cases l with
    | node l now reached => exact ih.node hs
    | reader c r =>
      obtain ⟨-, l, hl, rfl⟩ := reader_cases hs
      obtain ⟨hf, ha, hstep⟩ := reads_spec hl
      obtain ⟨hn, -, hin, hlinks⟩ := stored_frame s r
      refine ih.link (by simp) hn hin ?_ ha ?_ hstep
      · rw [setLink, hlinks]
      · rw [Link.Solicited, hf, ha]
        exact ih.solicited c
    | serve c msg =>
      simp only [machine, step] at hs
      split at hs <;> cases hs
      next hg =>
      refine ih.link (by simp) rfl rfl rfl rfl ?_ (fun w hw => hw)
      simpa [Link.Solicited, List.append_assoc] using hg.2

/-- When `fetch_host_list` starts, the channel in its hands is that of the
connection in its hands and holds no host list, and what it returns is the
server's answer to the `ListHosts` that this call has written. -/
theorem host_list_answers {h : List Event} {s : Session}
    (hr : Run (machine myNetworkId buildResponsePacket) h s) :
    (∀ c, s.node.pc = .fetching → s.node.server = some c →
      s.incoming = some c ∧ hostLists (s.links c).channel = []) ∧
    ∀ hosts now reached s', s.step myNetworkId buildResponsePacket
        (.node (.fetched (some hosts)) now reached) = some s' →
      ∃ c k, s.node.server = some c ∧ lastAsk h = some (c, k) ∧
        (hostLists ((s.links c).seen ++ (s.links c).ahead))[k]? = some hosts := by
  have hi := run_answering hr
  constructor
  · intro c hpc hs
    refine ⟨hi.incoming c hs, ?_⟩
    have hstep := hi.inStep c hs
    rw [waits_of_ne (by simp [hpc])] at hstep
    exact hstep.none_left (hi.solicited c)
  · intro hosts now reached s' hstep
    obtain ⟨n', out, hm, ha⟩ := node_cases hstep
    obtain ⟨hpc, -, -⟩ := moves_fetched hm
    obtain ⟨c, k, hc, hk, hasked⟩ := hi.awaiting hpc
    refine ⟨c, k, hc, hk, ?_⟩
    have hin := hi.incoming c hc
    have hst := hi.inStep c hc
    have hw : waits s.node = 1 := if_pos hpc
    rw [hw] at hst
    cases ha with
    | received hin' hp =>
      rw [hin] at hin'
      cases hin'
      exact (hst.popped hp).2 k hasked
    | other _ _ _ hf => exact absurd rfl (hf hosts)

end Runs

/-- A node that browses: its first call times out, it reconnects, and the reader
has put the answer to the second call into the channel. -/
def askingTwice : List Label :=
  [.node (.top true false) 0 false, .node (.connect (some 0)) 0 false,
    .node (.detect (.ok true) none) 0 false, .node (.write true) 0 false,
    .serve 0 (.hostList [⟨7, default⟩]), .node (.fetched none) 5000 false,
    .node (.beat false) 5000 false, .node (.top false false) 7000 false,
    .node (.connect (some 1)) 7000 false, .node (.detect (.ok true) none) 7000 false,
    .node (.write true) 7000 false, .serve 1 .pong, .serve 1 (.hostList [⟨8, default⟩]),
    .reader 1 .read, .reader 1 (.note 7001), .reader 1 .handle, .reader 1 .read,
    .reader 1 (.note 7002), .reader 1 .handle]

theorem host_list_answers_askingTwice :
    (replay (machine 7 plainPacket) askingTwice).1.length = 19 ∧
    ∃ c k, (replay (machine 7 plainPacket) askingTwice).2.node.server = some c ∧
      lastAsk (replay (machine 7 plainPacket) askingTwice).1 = some (c, k) ∧
      (hostLists (((replay (machine 7 plainPacket) askingTwice).2.links c).seen ++
        ((replay (machine 7 plainPacket) askingTwice).2.links c).ahead))[k]? =
          some [⟨8, default⟩] := by
  refine ⟨by decide +kernel, ?_⟩
  have hs : ((replay (machine 7 plainPacket) askingTwice).2.step 7 plainPacket
      (.node (.fetched (some [⟨8, default⟩])) 7003 false)).isSome := by decide +kernel
  obtain ⟨s', hs'⟩ := Option.isSome_iff_exists.mp hs
  exact (host_list_answers (replay_run askingTwice)).2 _ 7003 false s' hs'

end Session

end Mineshaft.Client
