import Mineshaft.Client.Session

namespace Mineshaft.Client

open Mineshaft.Core Mineshaft.Lib Mineshaft.Lib.Transition
open Mineshaft.Server (ConnId)

def ReaderStep.stores : ReaderStep → Bool
  | .note _ | .leave => true
  | .read | .fail | .handle | .injected => false

/-- Whether a reader stores something before it can next be stopped. -/
def ReaderPc.storesNext : ReaderPc → Bool
  | .received _ | .leaving => true
  | .waiting | .noted _ | .injecting | .ended => false

def Link.Silenced (l : Link) : Prop := l.cancelled = true ∧ l.reader.storesNext = false

theorem reads_cancelled {l l' : Link} {r : ReaderStep} (h : Reads l r l') :
    l'.cancelled = l.cancelled := by
  cases h <;> rfl

theorem Link.Silenced.reads {l l' : Link} {r : ReaderStep} (hl : l.Silenced) (h : Reads l r l') :
    r.stores = false ∧ l'.Silenced := by
  obtain ⟨hc, hs⟩ := hl
  cases h with
  | read _ hg _ | fail _ hg | injected _ hg =>
    rw [hc] at hg
    cases hg
  | note hr | leave hr =>
    rw [hr] at hs
    cases hs
  | listed _ | signalled _ _ | passed _ _ => exact ⟨rfl, hc, rfl⟩

theorem not_reads_ended {l l' : Link} {r : ReaderStep} (hl : l.reader = .ended) : ¬ Reads l r l' := by
  intro h
  cases h with
  | read hr _ _ | fail hr _ | note hr | listed hr | signalled hr _ | passed hr _ | injected hr _
  | leave hr =>
    rw [hl] at hr
    cases hr

theorem reads_leave {l l' : Link} (h : Reads l .leave l') : l'.reader = .ended := by
  cases h
  rfl

section Moves

variable {myNetworkId : UInt64}
variable {buildResponsePacket : UInt64 → ServerAdvertisement → Option (List UInt8)}
variable {n n' : Node} {out : Option (ConnId × ClientMessage)}

theorem clearAdvertised_readerTask (n : Node) :
    (n.clearAdvertised buildResponsePacket).readerTask = n.readerTask := by
  unfold Node.clearAdvertised
  split <;> rfl

theorem reap_readerTask (n : Node) :
    n.reap.readerTask = if n.server.isNone then none else n.readerTask := by
  unfold Node.reap
  cases hs : n.server <;> cases hr : n.readerTask <;> simp [hr]

theorem moves_readerTask {l : Label} (hm : Moves myNetworkId buildResponsePacket n l n' out) :
    (∃ c, l = .connect (some c) ∧ n.pc = .connecting ∧ n'.server = some c ∧
        n'.readerTask = some c ∧ n'.pc = .detecting) ∨
      ((∀ c, l ≠ .connect (some c)) ∧ (∀ c, n'.server = some c → n.server = some c) ∧
        (n'.pc = .connecting → n'.readerTask = none) ∧
        (n'.readerTask = n.readerTask ∨
          (∃ d si, l = .top d si) ∧ n.server = none ∧ n'.readerTask = none)) := by
  cases hm with
  | connected c hpc => exact Or.inl ⟨c, rfl, hpc, rfl, rfl, rfl⟩
  | lost hpc hs _ =>
    obtain ⟨c, hc⟩ := Option.isSome_iff_exists.mp hs
    exact Or.inr ⟨by simp, by simp, by simp [hpc], Or.inl (by simp [reap_readerTask, hc])⟩
  | alive hpc hs _ =>
    obtain ⟨c, hc⟩ := Option.isSome_iff_exists.mp hs
    exact Or.inr ⟨by simp, by simp, by simp, Or.inl (by simp [reap_readerTask, hc])⟩
  | @offline readerDead silent hpc hs =>
    have hr : n.reap.readerTask = none := by simp [reap_readerTask, hs]
    exact Or.inr ⟨by simp, by simp, fun _ => hr, Or.inr ⟨⟨readerDead, silent, rfl⟩, hs, hr⟩⟩
  | refused _ | closing _ _ _ | hosting _ _ _ _ _ | leaving _ _ _ | browsing _ _ _ | fetched _ _
  | unanswered _ => exact Or.inr ⟨by simp, by simp, by simp, Or.inl rfl⟩
  | closed _ _ _ | publishing _ _ _ _ =>
    exact Or.inr ⟨by simp, by simp, by simp, Or.inl (clearAdvertised_readerTask n)⟩
  | closedSent ok _ =>
    refine Or.inr ⟨by simp, ?_, by simp, Or.inl (clearAdvertised_readerTask _)⟩
    intro c hc
    simp only [clearAdvertised_server, Node.unregistered] at hc
    exact (sendOrDrop_some hc).1
  | leftSent ok _ | published _ _ ok _ _ | pinged ok _ =>
    exact Or.inr ⟨by simp, fun c hc => (sendOrDrop_some hc).1, by simp, Or.inl rfl⟩
  | asked ok _ =>
    refine Or.inr ⟨by simp, fun c hc => (sendOrDrop_some hc).1, ?_, Or.inl rfl⟩
    intro hpc
    dsimp only at hpc
    split at hpc <;> cases hpc
  | beat due _ =>
    refine Or.inr ⟨by simp, by simp, ?_, Or.inl rfl⟩
    intro hpc
    dsimp only at hpc
    split at hpc <;> cases hpc

theorem moves_kept {l : Label} (hm : Moves myNetworkId buildResponsePacket n l n' out)
    (hc : ∀ c, l ≠ .connect (some c)) (ht : ∀ d si, l ≠ .top d si) :
    (∀ c, n'.server = some c → n.server = some c) ∧
      (n'.pc = .connecting → n'.readerTask = none) ∧ n'.readerTask = n.readerTask := by
  obtain ⟨c, hl, -⟩ | ⟨-, hs, hpc, hr | ⟨⟨d, si, hl⟩, -⟩⟩ := moves_readerTask hm
  · exact absurd hl (hc c)
  · exact ⟨hs, hpc, hr⟩
  · exact absurd hl (ht d si)

end Moves

namespace Session

def Label.opens : Label → Bool
  | .node (.connect (some _)) _ _ => true
  | _ => false

/-- When a new stream is stored, no reader of an earlier connection is on its way
to a store. -/
def Quiescent (e : Event) : Prop :=
  e.label.opens = true → ∀ d ∈ e.pre.opened, (e.pre.links d).reader.storesNext = false

instance (e : Event) : Decidable (Quiescent e) := inferInstanceAs (Decidable (_ → _))

/-- The flags concern the connection that was opened last. -/
structure Guarded (s : Session) : Prop where
  nodup : s.opened.Nodup
  aborted : ∀ d ∈ s.opened, (s.links d).cancelled = true ∨ s.node.readerTask = some d
  connecting : s.node.pc = .connecting → s.node.readerTask = none
  current : ∀ c, s.node.server = some c → s.opened.head? = some c
  older : ∀ d ∈ s.opened.tail, (s.links d).Silenced
  alive : ∀ c, s.opened.head? = some c → s.readerAlive = false → (s.links c).reader = .ended

theorem head_or_tail {s : Session} {c : ConnId} (hc : c ∈ s.opened) :
    s.opened.head? = some c ∨ c ∈ s.opened.tail := by
  cases ho : s.opened with
  | nil => simp [ho] at hc
  | cons a rest =>
    rw [ho] at hc
    obtain rfl | hc := List.mem_cons.mp hc
    · exact Or.inl rfl
    · exact Or.inr hc

theorem Guarded.quiet {s s' : Session} (hi : Guarded s) (ho : s'.opened = s.opened)
    (hr : s'.readerAlive = s.readerAlive)
    (hl : ∀ d, (s'.links d).reader = (s.links d).reader ∧
      ((s.links d).cancelled = true → (s'.links d).cancelled = true))
    (hs : ∀ c, s'.node.server = some c → s.node.server = some c)
    (hpc : s'.node.pc = .connecting → s'.node.readerTask = none)
    (ht : ∀ d, s.node.readerTask = some d →
      (s'.links d).cancelled = true ∨ s'.node.readerTask = some d) : Guarded s' := by
  constructor
  · rw [ho]
    exact hi.nodup
  · intro d hd
    rw [ho] at hd
    obtain hc | hd := hi.aborted d hd
    · exact Or.inl ((hl d).2 hc)
    · exact ht d hd
  · exact hpc
  · intro c hc
    rw [ho]
    exact hi.current c (hs c hc)
  · intro d hd
    rw [ho] at hd
    obtain ⟨hc, hst⟩ := hi.older d hd
    exact ⟨(hl d).2 hc, by rw [(hl d).1]; exact hst⟩
  · intro c hc ha
    rw [ho] at hc
    rw [hr] at ha
    rw [(hl c).1]
    exact hi.alive c hc ha

theorem Guarded.connected {s : Session} {n' : Node} {c : ConnId} {now : Nat} (hi : Guarded s)
    (hc : c ∉ s.opened) (hq : ∀ d ∈ s.opened, (s.links d).reader.storesNext = false)
    (hpc : s.node.pc = .connecting) (hs : n'.server = some c) (ht : n'.readerTask = some c)
    (hpc' : n'.pc = .detecting) :
    Guarded { s.setLink c Link.init with
      node := n'
      opened := c :: s.opened
      incoming := some c
      readerAlive := true
      lastSeen := now } := by
  have hlinks : ∀ d ∈ s.opened, (s.setLink c Link.init).links d = s.links d := by
    intro d hd
    rw [setLink_links, if_neg]
    rintro rfl
    exact hc hd
  -- the abort handle was taken before, so every earlier reader is aborted
  have habort : ∀ d ∈ s.opened, (s.links d).cancelled = true := by
    intro d hd
    obtain h | h := hi.aborted d hd
    · exact h
    · rw [hi.connecting hpc] at h
      cases h
  constructor
  · exact List.nodup_cons.mpr ⟨hc, hi.nodup⟩
  · intro d hd
    obtain rfl | hd := List.mem_cons.mp hd
    · exact Or.inr ht
    · refine Or.inl ?_
      dsimp only
      rw [hlinks d hd]
      exact habort d hd
  · intro hp
    dsimp only at hp
    rw [hpc'] at hp
    cases hp
  · intro d hd
    dsimp only at hd
    rw [hs] at hd
    exact hd
  · intro d hd
    dsimp only at hd ⊢
    rw [hlinks d hd]
    exact ⟨habort d hd, hq d hd⟩
  · intro d _ ha
    cases ha

theorem Guarded.link {s s' : Session} {c : ConnId} {l : Link} (hi : Guarded s)
    (hn : s'.node = s.node) (ho : s'.opened = s.opened)
    (hl : ∀ d, s'.links d = if d = c then l else s.links d)
    (hc : l.cancelled = (s.links c).cancelled) (hold : c ∈ s.opened.tail → l.Silenced)
    (ha : ∀ d, s.opened.head? = some d → s'.readerAlive = false → (s'.links d).reader = .ended) :
    Guarded s' := by
  constructor
  · rw [ho]
    exact hi.nodup
  · intro d hd
    rw [ho] at hd
    rw [hn, hl]
    split
    next hdc =>
      subst hdc
      rw [hc]
      exact hi.aborted d hd
    · exact hi.aborted d hd
  · rw [hn]
    exact hi.connecting
  · rw [hn, ho]
    exact hi.current
  · intro d hd
    rw [ho] at hd
    rw [hl]
    split
    next hdc =>
      subst hdc
      exact hold hd
    · exact hi.older d hd
  · rw [ho]
    exact ha

theorem Guarded.stores {s : Session} {c : ConnId} {r : ReaderStep} {l : Link} (hi : Guarded s)
    (hc : c ∈ s.opened) (hl : Reads (s.links c) r l) (hr : r.stores = true) :
    s.opened.head? = some c := by
  obtain h | h := head_or_tail hc
  · exact h
  · rw [((hi.older c h).reads hl).1] at hr
    cases hr

theorem Guarded.reader {s : Session} {c : ConnId} {r : ReaderStep} {l : Link} (hi : Guarded s)
    (hc : c ∈ s.opened) (hl : Reads (s.links c) r l) :
    Guarded ((s.stored r).setLink c l) := by
  obtain ⟨hn, ho, -, hlinks⟩ := stored_frame s r
  have hl' : ∀ d, ((s.stored r).setLink c l).links d = if d = c then l else s.links d := by
    intro d
    rw [setLink_links, hlinks]
  refine hi.link hn ho hl' (reads_cancelled hl) (fun ht => ((hi.older c ht).reads hl).2) ?_
  intro d hd ha
  change (s.stored r).readerAlive = false at ha
  rw [hl']
  by_cases hr : r = .leave
  · subst hr
    have hcur := hi.stores hc hl rfl
    rw [hd] at hcur
    rw [if_pos (Option.some_inj.mp hcur)]
    exact reads_leave hl
  · -- the flag was cleared before, by the reader of the last connection
    have ha' : s.readerAlive = false := by
      cases r with
      | leave => exact absurd rfl hr
      | read | fail | note _ | handle | injected => exact ha
    have hend := hi.alive d hd ha'
    split
    next hdc =>
      subst hdc
      exact absurd hl (not_reads_ended hend)
    · exact hend

section Runs

variable {myNetworkId : UInt64}
variable {buildResponsePacket : UInt64 → ServerAdvertisement → Option (List UInt8)}

theorem Guarded.node {s s' : Session} {l : Client.Label} {now : Nat} {reached : Bool}
    (hi : Guarded s) (hq : Quiescent ⟨s, .node l now reached⟩)
    (hs : s.step myNetworkId buildResponsePacket (.node l now reached) = some s') : Guarded s' := by
  obtain ⟨n', out, hm, ha⟩ := node_cases hs
  cases ha with
  | connect hc =>
    obtain ⟨c, he, hpc, hsrv, ht, hpc'⟩ | ⟨hne, -⟩ := moves_readerTask hm
    · cases he
      exact hi.connected hc (hq rfl) hpc hsrv ht hpc'
    · exact absurd rfl (hne _)
  | top _ =>
    obtain ⟨c, he, -⟩ | ⟨-, hsrv, hpc, ht⟩ := moves_readerTask hm
    · cases he
    · obtain ⟨ho, -, hr⟩ := abort_frame s
      refine hi.quiet ho hr ?_ hsrv hpc ?_
      · intro d
        dsimp only
        rcases abort_links s d with hd | hd <;> rw [hd] <;> simp
      · intro d hd
        obtain ht | ⟨-, hnone, -⟩ := ht
        · exact Or.inr (ht.trans hd)
        · refine Or.inl ?_
          simp [abort, hnone, hd, setLink_links]
  | @write ok =>
    obtain ⟨hsrv, hpc, ht⟩ := moves_kept hm (by simp) (by simp)
    obtain ⟨ho, -, hr⟩ := request_frame s (ok || reached)
    refine hi.quiet ho hr ?_ hsrv hpc (fun d hd => Or.inr (ht.trans hd))
    intro d
    dsimp only
    rcases request_links s (ok || reached) d with hd | hd <;> rw [hd] <;> simp
  | received hin hp =>
    obtain ⟨hsrv, hpc, ht⟩ := moves_kept hm (by simp) (by simp)
    refine hi.quiet rfl rfl ?_ hsrv hpc (fun d hd => Or.inr (ht.trans hd))
    intro d
    dsimp only
    rw [setLink_links]
    split
    next hd =>
      subst hd
      exact ⟨rfl, id⟩
    · exact ⟨rfl, id⟩
  | other htop hc hw hf =>
    obtain ⟨hsrv, hpc, ht⟩ := moves_kept hm hc htop
    exact hi.quiet rfl rfl (fun d => ⟨rfl, id⟩) hsrv hpc (fun d hd => Or.inr (ht.trans hd))

theorem run_guarded {h : List Event} {s : Session}
    (hr : Run (machine myNetworkId buildResponsePacket) h s) (hq : ∀ e ∈ h, Quiescent e) :
    Guarded s := by
  refine hr.invariant Quiescent Guarded ?_ ?_ hq
  · constructor
    · exact List.nodup_nil
    · intro d hd
      cases hd
    · intro hpc
      cases hpc
    · intro c hc
      cases hc
    · intro d hd
      cases hd
    · intro c hc
      cases hc
  · intro s l s' hq hi hs
    cases l with
    | node l now reached => exact hi.node hq hs
    | reader c r =>
      obtain ⟨hc, l, hl, rfl⟩ := reader_cases hs
      exact hi.reader hc hl
    | serve c msg =>
      simp only [machine, step] at hs
      split at hs <;> cases hs
      refine hi.link rfl rfl (fun d => setLink_links s c d _) rfl (fun ht => hi.older c ht) ?_
      intro d hd ha
      rw [setLink_links]
      split
      next hdc =>
        subst hdc
        exact hi.alive d hd ha
      · exact hi.alive d hd ha

/-- As long as no reader is on its way to a store when a new stream is stored,
only the reader of the last connection ever stores `reader_alive` or
`last_seen`, and a cleared flag means that the reader of the current
connection has left its loop. -/
theorem liveness_current {h : List Event} {s : Session}
    (hr : Run (machine myNetworkId buildResponsePacket) h s) (hq : ∀ e ∈ h, Quiescent e) :
    (∀ e ∈ h, ∀ c r, e.label = .reader c r → r.stores = true → e.pre.opened.head? = some c) ∧
    ∀ c, s.node.server = some c → s.readerAlive = false → (s.links c).reader = .ended := by
  constructor
  · intro e he c r hl hst
    obtain ⟨post, early, rfl⟩ := List.append_of_mem he
    obtain ⟨hearly, s', hstep, -⟩ := hr.split
    have hi := run_guarded hearly (fun e he => hq e (by simp [he]))
    rw [hl] at hstep
    obtain ⟨hc, l, hl, -⟩ := reader_cases hstep
    exact hi.stores hc hl hst
  · intro c hc ha
    have hi := run_guarded hr hq
    exact hi.alive c (hi.current c hc) ha

end Runs

/-- A reader that ends before the loop connects anew. -/
def readerEnds : List Label :=
  [.node (.top true false) 0 false, .node (.connect (some 0)) 0 false, .serve 0 .pong,
    .reader 0 .read, .reader 0 (.note 1), .reader 0 .handle, .reader 0 .fail, .reader 0 .leave,
    .node (.detect (.ok false) none) 1 false, .node (.beat false) 1 false,
    .node (.top true false) 2001 false, .node (.top true false) 2001 false,
    .node (.connect (some 1)) 2001 false, .serve 1 .pong, .reader 1 .read, .reader 1 (.note 2002)]

/-- A reader that has left its loop and clears the flag only after the loop has
aborted it and stored the flag for its next connection. -/
def readerLingers : List Label :=
  [.node (.top true false) 0 false, .node (.connect (some 0)) 0 false, .reader 0 .fail,
    .node (.detect (.ok true) none) 1 false, .node (.write false) 1 false,
    .node (.beat false) 1 false, .node (.top false false) 2001 false,
    .node (.connect (some 1)) 2001 false, .reader 0 .leave]

theorem liveness_current_readerEnds :
    (replay (machine 7 plainPacket) readerEnds).1.length = 16 ∧
    (∀ e ∈ (replay (machine 7 plainPacket) readerEnds).1, Quiescent e) ∧
    ∀ e ∈ (replay (machine 7 plainPacket) readerEnds).1, ∀ c r, e.label = .reader c r →
      r.stores = true → e.pre.opened.head? = some c := by
  have hq : ∀ e ∈ (replay (machine 7 plainPacket) readerEnds).1, Quiescent e := by decide +kernel
  exact ⟨by decide +kernel, hq, (liveness_current (replay_run readerEnds) hq).1⟩

/-- The reader of the first connection clears the flag of the second, whose
reader is still in its loop. -/
theorem liveness_readerLingers :
    (replay (machine 7 plainPacket) readerLingers).1.length = 9 ∧
    ((replay (machine 7 plainPacket) readerLingers).1.map (fun e => e.pre.opened)).head? =
      some [1, 0] ∧
    (replay (machine 7 plainPacket) readerLingers).2.node.server = some 1 ∧
    (replay (machine 7 plainPacket) readerLingers).2.readerAlive = false ∧
    ((replay (machine 7 plainPacket) readerLingers).2.links 1).reader = .waiting :=
  ⟨by decide +kernel, by decide +kernel, by decide +kernel, by decide +kernel, by decide +kernel⟩

end Session

end Mineshaft.Client
