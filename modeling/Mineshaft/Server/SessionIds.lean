import Mathlib.Algebra.Ring.Nat
import Mathlib.Data.Finset.Card
import Mineshaft.Server.Queues

namespace Mineshaft.Server

open Mineshaft.Core Mineshaft.Lib Mineshaft.Lib.Transition

def Label.isRequest : Label → Bool
  | .handle _ (.connectRequest _ _) => true
  | _ => false

def Label.isOpen : Label → Bool
  | .openSession _ _ _ => true
  | _ => false

def requests (h : List Event) : Nat := h.countP (fun e => e.label.isRequest)

def opens (h : List Event) : Nat := h.countP (fun e => e.label.isOpen)

def openedId (reg : Registry) (l : Label) : List UInt64 :=
  if l.isOpen then [reg.nextSessionId] else []

def noticeId : ServerMessage → Option UInt64
  | .incomingJoin _ sessionId => some sessionId
  | _ => none

def replyId : ServerMessage → Option UInt64
  | .joinAccepted sessionId => some sessionId
  | _ => none

section Kinds

-- `noticeId` or `replyId`: of either kind a new session determines one message
variable (f : ServerMessage → Option UInt64)

def OnePerSession : Prop :=
  ∀ reg addr l, (labelOutputs reg addr l).filterMap (fun q => f q.2) = openedId reg l

def State.pendingIds (s : State) (c : ConnId) : List UInt64 :=
  (s.outgoing c).filterMap (fun q => f q.2)

def sentId (l : Label) : List UInt64 :=
  match l with
  | .sendTo _ _ msg => (f msg).toList
  | _ => []

def sentIds : List Event → List UInt64 := collect (fun e => sentId f e.label)

end Kinds

theorem replies_noticeId (reg : Registry) (addr : SocketAddr) (msg : ClientMessage) :
    (replies reg addr msg).filterMap (fun q => noticeId q.2) = [] ∧
      (replies reg addr msg).filterMap (fun q => replyId q.2) = [] := by
  cases msg with
  | connectRequest t n => simp only [replies]; split <;> simp [noticeId, replyId]
  | ping | registerHost | updateHost | unregisterHost | listHosts | signal =>
    simp [replies, noticeId, replyId]

theorem onePerSession_noticeId : OnePerSession noticeId := by
  intro reg addr l
  cases l with
  | handle c msg => exact (replies_noticeId reg addr msg).1
  | _ => simp [labelOutputs, openedId, Label.isOpen, noticeId]

theorem onePerSession_replyId : OnePerSession replyId := by
  intro reg addr l
  cases l with
  | handle c msg => exact (replies_noticeId reg addr msg).2
  | _ => simp [labelOutputs, openedId, Label.isOpen, replyId]

theorem nextSessionId_step {v v' : View} {l : Label} (he : Effect v l v') :
    v'.reg.nextSessionId = if l.isOpen then v.reg.nextSessionId + 1 else v.reg.nextSessionId := by
  cases he with
  | @handle c addr msg hc => exact (regAfter_kept v.reg addr msg).2
  | _ => rfl

theorem opens_cons (s : State) (l : Label) (h : List Event) :
    opens (⟨s, l⟩ :: h) = opens h + if l.isOpen then 1 else 0 := by
  simp [opens, List.countP_cons]

theorem nextSessionId_run {h : List Event} {s : State} (hr : Run h s) :
    s.reg.nextSessionId = UInt64.ofNat (opens h + 1) := by
  induction hr with
  | nil => rfl
  | @cons h s s' l hr hs ih =>
    have hn : s'.reg.nextSessionId =
        if l.isOpen then s.reg.nextSessionId + 1 else s.reg.nextSessionId :=
      nextSessionId_step (step_effect hs)
    rw [hn, opens_cons, ih]
    split
    · rw [UInt64.ofNat_add (opens h + 1) 1]
      rfl
    · rfl

section Pending

variable {f : ServerMessage → Option UInt64} {s s' : State} {l : Label}

theorem pendingIds_own (hf : OnePerSession f) (hs : step s l = some s') :
    s.pendingIds f l.conn ++ openedId s.reg l = sentId f l ++ s'.pendingIds f l.conn := by
  have ho := congrArg (List.filterMap (fun q => f q.2)) (outputs_own hs)
  rw [List.filterMap_append, List.filterMap_append] at ho
  have hout : (outputs l.conn ⟨s, l⟩).filterMap (fun q => f q.2) = openedId s.reg l := by
    obtain ⟨⟨addr, -, ha, hm⟩, -⟩ := step_moves hs
    rw [outputs, if_pos rfl, ha]
    cases ht : s.task l.conn with
    | some t => simp [hf s.reg addr l]
    | none =>
      rw [ht] at hm
      generalize s'.task l.conn = t' at hm
      cases hm with
      | accept => rfl
  have hsent : ((sending l.conn ⟨s, l⟩).map (fun q => q.2)).filterMap (fun q => f q.2) =
      sentId f l := by
    cases l with
    | sendTo c dest msg => cases hm : f msg <;> simp [sending, sentId, Label.conn, hm]
    | _ => rfl
  rw [hout, hsent] at ho
  exact ho

theorem pendingIds_frame (hs : step s l = some s') {c : ConnId} (hc : c ≠ l.conn) :
    s'.pendingIds f c = s.pendingIds f c := by
  simp only [State.pendingIds, State.outgoing, ((step_moves hs).2 c hc).1]

theorem sentId_pending (hs : step s l = some s') {id : UInt64} (hid : id ∈ sentId f l) :
    id ∈ s.pendingIds f l.conn := by
  cases l with
  | sendTo c dest msg =>
    have hm := mem_outgoing_sendTo hs
    exact List.mem_filterMap.mpr ⟨(dest, msg), hm, Option.mem_toList.mp hid⟩
  | _ => cases hid

theorem sent_of_queue {h : List Event} (hr : Run h s) {d : ConnId} {x : Entry} {id : UInt64}
    (hx : x ∈ s.queue d) (hid : f x.msg = some id) : id ∈ sentIds f h := by
  induction hr with
  | nil => cases hx
  | @cons h s s' l hr hs ih =>
    change id ∈ sentIds f h ++ sentId f l
    rw [List.mem_append]
    by_cases hl : ∃ c dest msg, l = .sendTo c dest msg
    · obtain ⟨c, dest, msg, rfl⟩ := hl
      rw [step_sendTo_queue hs, List.mem_append] at hx
      obtain hx | hx := hx
      · exact Or.inl (ih hx)
      · split at hx
        · obtain rfl := List.mem_singleton.mp hx
          exact Or.inr (Option.mem_toList.mpr hid)
        · cases hx
    · push Not at hl
      rw [step_queue hs d hl] at hx
      exact Or.inl (ih hx)

end Pending

def Issued (k : Nat) (id : UInt64) : Prop := ∃ i, 1 ≤ i ∧ i ≤ k ∧ id = UInt64.ofNat i

theorem Issued.mono {k k' : Nat} {id : UInt64} (h : Issued k id) (hk : k ≤ k') : Issued k' id := by
  obtain ⟨i, h1, h2, rfl⟩ := h
  exact ⟨i, h1, h2.trans hk, rfl⟩

theorem not_issued_next {k : Nat} (hk : k + 1 < 2 ^ 64) : ¬ Issued k (UInt64.ofNat (k + 1)) := by
  rintro ⟨i, -, hi, he⟩
  have hlt : i < 2 ^ 64 := by omega
  have hn := congrArg UInt64.toNat he
  rw [UInt64.toNat_ofNat_of_lt' hk, UInt64.toNat_ofNat_of_lt' hlt] at hn
  omega

/-- Ids of a kind come from the counter, and each is sent or awaited at most once. -/
structure SpentOnce (f : ServerMessage → Option UInt64) (h : List Event) (s : State) : Prop where
  issued : ∀ c, ∀ id ∈ sentIds f h ++ s.pendingIds f c, Issued (opens h) id
  once : ∀ c, (sentIds f h ++ s.pendingIds f c).Nodup
  apart : ∀ c d, c ≠ d → (s.pendingIds f c).Disjoint (s.pendingIds f d)

section Spent

variable {f : ServerMessage → Option UInt64} {h : List Event} {s s' : State} {l : Label}

theorem SpentOnce.fresh (hi : SpentOnce f h s) {c : ConnId} {id : UInt64}
    (hid : id ∈ s.pendingIds f c) : id ∉ sentIds f h :=
  fun hsent => (List.nodup_append'.mp (hi.once c)).2.2 hsent hid

theorem SpentOnce.init : SpentOnce f [] State.init where
  issued := by intro c id hid; cases hid
  once := by intro c; exact List.nodup_nil
  apart := by intro c d _ id hid; cases hid

theorem mem_openedId (hr : Run h s) {id : UInt64} (hid : id ∈ openedId s.reg l) :
    l.isOpen = true ∧ id = UInt64.ofNat (opens h + 1) := by
  unfold openedId at hid
  split at hid
  next ho => exact ⟨ho, (List.mem_singleton.mp hid).trans (nextSessionId_run hr)⟩
  · cases hid

theorem SpentOnce.owed (hi : SpentOnce f h s) (hr : Run h s) (hk : opens h + 1 < 2 ^ 64) :
    (sentIds f h ++ (s.pendingIds f l.conn ++ openedId s.reg l)).Nodup ∧
      ∀ d, d ≠ l.conn →
        (s.pendingIds f l.conn ++ openedId s.reg l).Disjoint (s.pendingIds f d) := by
  have hnew : ∀ id ∈ openedId s.reg l, ¬ Issued (opens h) id := by
    intro id hid
    rw [(mem_openedId hr hid).2]
    exact not_issued_next hk
  constructor
  · rw [← List.append_assoc]
    refine List.Nodup.append (hi.once l.conn) ?_ ?_
    · unfold openedId
      split
      · exact List.nodup_singleton _
      · exact List.nodup_nil
    · intro id hold hid
      exact hnew id hid (hi.issued l.conn id hold)
  · intro d hd id hid hpend
    obtain hid | hid := List.mem_append.mp hid
    · exact hi.apart l.conn d (Ne.symm hd) hid hpend
    · exact hnew id hid (hi.issued d id (List.mem_append_right _ hpend))

theorem SpentOnce.owed_issued (hi : SpentOnce f h s) (hr : Run h s) {id : UInt64}
    (hid : id ∈ sentIds f h ++ (s.pendingIds f l.conn ++ openedId s.reg l)) :
    Issued (opens (⟨s, l⟩ :: h)) id := by
  rw [← List.append_assoc] at hid
  rw [opens_cons]
  obtain hid | hid := List.mem_append.mp hid
  · exact (hi.issued l.conn id hid).mono (by omega)
  · obtain ⟨ho, rfl⟩ := mem_openedId hr hid
    exact ⟨opens h + 1, by omega, by simp [ho], rfl⟩

theorem SpentOnce.step (hf : OnePerSession f) (hi : SpentOnce f h s) (hr : Run h s)
    (hs : Server.step s l = some s') (hk : opens h + 1 < 2 ^ 64) :
    SpentOnce f (⟨s, l⟩ :: h) s' := by
  have hissued : ∀ id ∈ sentIds f h ++ (s.pendingIds f l.conn ++ openedId s.reg l),
      Issued (opens (⟨s, l⟩ :: h)) id := fun _ => hi.owed_issued hr
  obtain ⟨honce, hapart⟩ := hi.owed hr hk (l := l)
  have hsent : sentIds f (⟨s, l⟩ :: h) = sentIds f h ++ sentId f l := rfl
  -- the step sends a part of what its handler owes and keeps the rest
  rw [pendingIds_own hf hs] at hissued honce hapart
  refine ⟨?_, ?_, ?_⟩
  · intro c id hid
    rw [hsent, List.append_assoc] at hid
    by_cases hc : c = l.conn
    · subst hc
      exact hissued id hid
    · rw [pendingIds_frame hs hc, ← List.append_assoc] at hid
      obtain hid | hid := List.mem_append.mp hid
      · refine hissued id ?_
        rw [← List.append_assoc]
        exact List.mem_append_left _ hid
      · refine (hi.issued c id (List.mem_append_right _ hid)).mono ?_
        rw [opens_cons]
        omega
  · intro c
    rw [hsent]
    by_cases hc : c = l.conn
    · subst hc
      rw [List.append_assoc]
      exact honce
    · rw [pendingIds_frame hs hc]
      rw [← List.append_assoc] at honce
      obtain ⟨hsend, -, -⟩ := List.nodup_append'.mp honce
      obtain ⟨-, hpend, hold⟩ := List.nodup_append'.mp (hi.once c)
      refine List.Nodup.append hsend hpend ?_
      intro id hid hp
      obtain hid | hid := List.mem_append.mp hid
      · exact hold hid hp
      · exact hapart c hc (List.mem_append_left _ hid) hp
  · have hown : ∀ d, d ≠ l.conn → (s'.pendingIds f l.conn).Disjoint (s'.pendingIds f d) := by
      intro d hd id hid hp
      rw [pendingIds_frame hs hd] at hp
      exact hapart d hd (List.mem_append_right _ hid) hp
    intro c d hcd
    by_cases hc : c = l.conn
    · subst hc
      exact hown d (Ne.symm hcd)
    · by_cases hd : d = l.conn
      · subst hd
        exact (hown c hc).symm
      · rw [pendingIds_frame hs hc, pendingIds_frame hs hd]
        exact hi.apart c d hcd

theorem run_spentOnce (hf : OnePerSession f) (hr : Run h s) (hk : opens h < 2 ^ 64 - 1) :
    SpentOnce f h s := by
  induction hr with
  | nil => exact SpentOnce.init
  | @cons h s s' l hr hs ih =>
    rw [opens_cons] at hk
    exact (ih (by omega)).step hf hr hs (by omega)

end Spent

def connects : Option Task → Bool
  | some (.connecting _ _) => true
  | _ => false

@[simp] theorem connects_afterSends (out : List (SocketAddr × ServerMessage)) :
    connects (some (afterSends out)) = false := by
  cases out <;> rfl

theorem moves_connects {reg : Registry} {addr : SocketAddr} {l : Label} {t t' : Option Task}
    (hm : Moves reg addr l t t') :
    l.isOpen = true ∧ l.isRequest = false ∧ connects t = true ∧ connects t' = false ∨
      l.isOpen = false ∧ l.isRequest = true ∧ connects t = false ∨
      l.isOpen = false ∧ l.isRequest = false ∧ connects t' = connects t := by
  cases hm with
  | openSession => exact Or.inl ⟨rfl, rfl, rfl, connects_afterSends _⟩
  | accept | insert | read | leave | cleanup | write | closeRx =>
    exact Or.inr (Or.inr ⟨rfl, rfl, rfl⟩)
  | listHosts | sendTo => exact Or.inr (Or.inr ⟨rfl, rfl, connects_afterSends _⟩)
  | @handle c msg r hr =>
    cases msg with
    | connectRequest t n => exact Or.inr (Or.inl ⟨rfl, rfl, rfl⟩)
    | listHosts => cases hr
    | ping | registerHost | updateHost | unregisterHost =>
      cases hr
      exact Or.inr (Or.inr ⟨rfl, rfl, rfl⟩)
    | signal t k n d =>
      cases hr
      refine Or.inr (Or.inr ⟨rfl, rfl, ?_⟩)
      dsimp only
      split <;> rfl

theorem requests_cons (s : State) (l : Label) (h : List Event) :
    requests (⟨s, l⟩ :: h) = requests h + if l.isRequest then 1 else 0 := by
  simp [requests, List.countP_cons]

theorem mem_connecting {s s' : State} {l : Label} (hs : step s l = some s') {F : Finset ConnId}
    (hF : ∀ c, c ∈ F ↔ connects (s.task c) = true) (c : ConnId) :
    (c ∈ if connects (s'.task l.conn) then insert l.conn F else F.erase l.conn) ↔
      connects (s'.task c) = true := by
  by_cases hc : c = l.conn
  · subst hc
    cases connects (s'.task l.conn) <;> simp
  · rw [((step_moves hs).2 c hc).1, ← hF c]
    split <;> simp [hc]

theorem exists_connecting {h : List Event} {s : State} (hr : Run h s) :
    ∃ F : Finset ConnId, (∀ c, c ∈ F ↔ connects (s.task c) = true) ∧
      opens h + F.card ≤ requests h := by
  induction hr with
  | nil => exact ⟨∅, fun c => by simp [machine, State.init, State.task, connects], by simp [opens]⟩
  | @cons h s s' l hr hs ih =>
    obtain ⟨F, hF, hle⟩ := ih
    obtain ⟨⟨addr, -, -, hm⟩, -⟩ := step_moves hs
    have hown := hF l.conn
    refine ⟨_, mem_connecting hs hF, ?_⟩
    rw [opens_cons, requests_cons]
    obtain ⟨ho, hq, ht, ht'⟩ | ⟨ho, hq, ht⟩ | ⟨ho, hq, ht⟩ := moves_connects hm
    · -- the session is opened: the handler leaves the set
      have hcard := Finset.card_erase_add_one (hown.mpr ht)
      simp only [ho, hq, ht', ↓reduceIte, Bool.false_eq_true]
      omega
    · -- a request: the handler may enter the set
      have hout : l.conn ∉ F := by simp [hown, ht]
      have hcard := Finset.card_insert_of_notMem hout
      have hsame := Finset.erase_eq_of_notMem hout
      cases ht' : connects (s'.task l.conn) <;>
        simp only [ho, hq, hsame, ↓reduceIte, Bool.false_eq_true] <;> omega
    · rw [ht]
      cases hb : connects (s.task l.conn) with
      | true =>
        simp only [ho, hq, Finset.insert_eq_of_mem (hown.mpr hb), ↓reduceIte, Bool.false_eq_true]
        omega
      | false =>
        have hout : l.conn ∉ F := by simp [hown, hb]
        simp only [ho, hq, Finset.erase_eq_of_notMem hout, ↓reduceIte, Bool.false_eq_true]
        omega

theorem opens_le_requests {h : List Event} {s : State} (hr : Run h s) : opens h ≤ requests h := by
  obtain ⟨F, -, hle⟩ := exists_connecting hr
  omega

end Mineshaft.Server
