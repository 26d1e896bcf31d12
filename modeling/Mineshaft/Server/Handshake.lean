import Mineshaft.Server.Consistency
import Mineshaft.Server.SessionIds

namespace Mineshaft.Server

open Mineshaft.Core Mineshaft.Lib Mineshaft.Lib.Transition

/-- A connect request that found its host, with the connection that was
registered as the host at that instant. -/
structure Lookup where
  targetSenderId : UInt64
  joinerNetworkId : UInt64
  host : SocketAddr
  conn : ConnId
  deriving DecidableEq

def lookupOf (reg : Registry) : ClientMessage → Option Lookup
  | .connectRequest targetSenderId joinerNetworkId =>
    (reg.hosts.lookup targetSenderId).bind (fun host =>
      (reg.clients.lookup host).map (fun client =>
        ⟨targetSenderId, joinerNetworkId, host, client.tx⟩))
  | _ => none

def lookedUp (c : ConnId) : List Event → Option Lookup
  | [] => none
  | e :: h =>
    match e.label with
    | .handle d msg => if d = c then lookupOf e.pre.reg msg else lookedUp c h
    | _ => lookedUp c h

def joinEntries (id : UInt64) (q : List Entry) : List Entry :=
  q.filter (fun x => decide (noticeId x.msg = some id))

def Label.notifies : Label → Option (ConnId × SocketAddr)
  | .sendTo c host (.incomingJoin _ _) => some (c, host)
  | _ => none

/-- An `IncomingJoin` that is sent still reaches the connection that was the
host when the request was looked up. -/
def HostStays (early : List Event) (e : Event) : Prop :=
  ∀ p ∈ e.label.notifies, ∀ r ∈ lookedUp p.1 early, e.pre.takes r.conn p.2 = true

instance (early : List Event) (e : Event) : Decidable (HostStays early e) :=
  inferInstanceAs (Decidable (∀ p ∈ e.label.notifies, ∀ r ∈ lookedUp p.1 early,
    e.pre.takes r.conn p.2 = true))

/-- What one step of a run owes to the joiner it is about. -/
structure Answered (early : List Event) (e : Event) : Prop where
  /-- A joiner is accepted after exactly one notice to the host of its request. -/
  accepted : ∀ c dest id, e.label = .sendTo c dest (.joinAccepted id) → e.pre.addr c = some dest ∧
    ∃ r, lookedUp c early = some r ∧ ∀ d, joinEntries id (e.pre.queue d) =
      if d = r.conn then [⟨c, .incomingJoin r.joinerNetworkId id⟩] else []
  /-- A request for an unknown host is answered with an error, and nothing else. -/
  refused : ∀ c t n s', e.label = .handle c (.connectRequest t n) →
    e.pre.reg.hosts.lookup t = none → step e.pre e.label = some s' →
    s'.reg.nextSessionId = e.pre.reg.nextSessionId ∧
      ∃ addr, e.pre.addr c = some addr ∧ s'.task c =
        some (.sending (addr, .error ("no such host: 0x" ++ lowerHex t)) [])
  /-- The error enters the queue of the joiner as long as that has a receiver. -/
  told : ∀ c dest text s', e.label = .sendTo c dest (.error text) →
    step e.pre e.label = some s' → s'.queue c =
      e.pre.queue c ++ if e.pre.rxOpen c then [⟨c, .error text⟩] else []
  /-- A session id is only spent on a request that found its host. -/
  spent : ∀ c host n, e.label = .openSession c host n →
    ∃ r, lookedUp c early = some r ∧ r.host = host ∧ r.joinerNetworkId = n

structure Handshake (h : List Event) : Prop where
  distinct : (sentIds replyId h).Nodup
  answered : Every Answered h

theorem lookedUp_keep {c : ConnId} {s : State} {l : Label} (h : List Event)
    (hl : ∀ msg, l ≠ .handle c msg) : lookedUp c (⟨s, l⟩ :: h) = lookedUp c h := by
  cases l with
  | handle d msg =>
    have hd : d ≠ c := by rintro rfl; exact hl msg rfl
    simp [lookedUp, hd]
  | _ => rfl

theorem joinEntries_step {s s' : State} {l : Label} (hs : step s l = some s') {id : UInt64}
    (hid : id ∉ sentId noticeId l) (d : ConnId) :
    joinEntries id (s'.queue d) = joinEntries id (s.queue d) := by
  by_cases hl : ∃ c dest msg, l = .sendTo c dest msg
  · obtain ⟨c, dest, msg, rfl⟩ := hl
    have hm : noticeId msg ≠ some id := fun he => hid (Option.mem_toList.mpr he)
    rw [step_sendTo_queue hs, joinEntries, List.filter_append]
    split <;> simp [joinEntries, hm]
  · push Not at hl
    rw [step_queue hs d hl]

inductive Progress (h : List Event) (s : State) (c : ConnId) : Task → Prop
  | quiet {t : Task} : t.outgoing = [] → connects (some t) = false → Progress h s c t
  | plain {dest : SocketAddr} {msg : ServerMessage} : noticeId msg = none → replyId msg = none →
      (∀ text, msg = .error text → s.addr c = some dest) → Progress h s c (.sending (dest, msg) [])
  | connecting {r : Lookup} : lookedUp c h = some r →
      Progress h s c (.connecting r.host r.joinerNetworkId)
  | notice {r : Lookup} {addr : SocketAddr} {id : UInt64} : lookedUp c h = some r →
      s.addr c = some addr → Progress h s c
        (.sending (r.host, .incomingJoin r.joinerNetworkId id) [(addr, .joinAccepted id)])
  | reply {r : Lookup} {addr : SocketAddr} {id : UInt64} : lookedUp c h = some r →
      s.addr c = some addr → (∀ d, joinEntries id (s.queue d) =
        if d = r.conn then [⟨c, .incomingJoin r.joinerNetworkId id⟩] else []) →
      Progress h s c (.sending (addr, .joinAccepted id) [])

section Steps

variable {h : List Event} {s s' : State} {l : Label} {c : ConnId}

theorem Progress.keep {t : Task} (hp : Progress h s c t) (hr : Run h s) (hi : SpentOnce noticeId h s)
    (hs : step s l = some s') (hl : ∀ msg, l ≠ .handle c msg) : Progress (⟨s, l⟩ :: h) s' c t := by
  have hk := lookedUp_keep (s := s) h hl
  cases hp with
  | quiet ho hn => exact Progress.quiet ho hn
  | plain hn hq ha => exact Progress.plain hn hq (fun text ht => step_addr hs (ha text ht))
  | connecting hu => exact Progress.connecting (hk.trans hu)
  | notice hu ha => exact Progress.notice (hk.trans hu) (step_addr hs ha)
  | @reply r addr id hu ha hj =>
    refine Progress.reply (hk.trans hu) (step_addr hs ha) (fun d => ?_)
    have hmem : (⟨c, .incomingJoin r.joinerNetworkId id⟩ : Entry) ∈
        joinEntries id (s.queue r.conn) := by
      rw [hj r.conn, if_pos rfl]
      exact List.mem_singleton_self _
    have hsent : id ∈ sentIds noticeId h := sent_of_queue hr (List.mem_filter.mp hmem).1 rfl
    rw [joinEntries_step hs (fun hid => hi.fresh (sentId_pending hs hid) hsent) d]
    exact hj d

theorem Progress.notified {r : Lookup} {addr : SocketAddr} {id : UInt64} (hr : Run h s)
    (hw : Wired s.view) (hi : SpentOnce noticeId h s) (hu : lookedUp c h = some r)
    (ha : s.addr c = some addr)
    (hs : step s (.sendTo c r.host (.incomingJoin r.joinerNetworkId id)) = some s')
    (hst : HostStays h ⟨s, .sendTo c r.host (.incomingJoin r.joinerNetworkId id)⟩) :
    Progress (⟨s, .sendTo c r.host (.incomingJoin r.joinerNetworkId id)⟩ :: h) s' c
      (.sending (addr, .joinAccepted id) []) := by
  refine Progress.reply ((lookedUp_keep h (by simp)).trans hu) (step_addr hs ha) (fun d => ?_)
  obtain ⟨hcl, hopen⟩ := (takes_iff hw).mp (hst _ rfl r hu)
  have hfresh : id ∉ sentIds noticeId h := hi.fresh (sentId_pending hs (List.mem_singleton_self _))
  have hnone : joinEntries id (s.queue d) = [] := by
    rw [joinEntries, List.filter_eq_nil_iff]
    intro x hx hid
    exact hfresh (sent_of_queue hr hx (of_decide_eq_true hid))
  rw [step_sendTo_queue hs, joinEntries, List.filter_append, ← joinEntries, hnone, List.nil_append,
    hcl]
  by_cases hd : d = r.conn
  · subst hd
    simp [hopen, noticeId]
  · simp [hd, Ne.symm hd]

theorem Progress.handle {addr : SocketAddr} {msg : ClientMessage} {r : Registry × Task}
    (hc : Consistent s.reg) (ha : s'.addr c = some addr)
    (hm : Server.handle s.reg addr msg = some r) :
    Progress (⟨s, .handle c msg⟩ :: h) s' c r.2 := by
  cases msg with
  | listHosts => cases hm
  | ping | registerHost => cases hm; exact Progress.plain rfl rfl (by simp)
  | updateHost | unregisterHost => cases hm; exact Progress.quiet rfl rfl
  | signal t k n d =>
    cases hm
    dsimp only
    split
    · exact Progress.plain rfl rfl (by simp)
    · exact Progress.quiet rfl rfl
  | connectRequest t n =>
    simp only [Server.handle] at hm
    split at hm
    next host hl =>
      cases hm
      obtain ⟨⟨d⟩, hd⟩ := Option.isSome_iff_exists.mp (hc.owner t host hl)
      have hu : lookedUp c (⟨s, .handle c (.connectRequest t n)⟩ :: h) = some ⟨t, n, host, d⟩ := by
        simp [lookedUp, lookupOf, hl, hd]
      exact Progress.connecting hu
    · cases hm
      exact Progress.plain rfl rfl (fun _ _ => ha)

theorem Progress.own {addr : SocketAddr} {t t' : Task} (hr : Run h s) (hw : Wired s.view)
    (hc : Consistent s.reg) (hi : SpentOnce noticeId h s) (hst : HostStays h ⟨s, l⟩)
    (hs : step s l = some s') (ha : s'.addr l.conn = some addr)
    (hm : Moves s.reg addr l (some t) (some t')) (hp : Progress h s l.conn t) :
    Progress (⟨s, l⟩ :: h) s' l.conn t' := by
  cases hm with
  | insert | read | leave | cleanup => exact Progress.quiet rfl rfl
  | handle hm => exact Progress.handle hc ha hm
  | listHosts => exact Progress.plain rfl rfl (by simp)
  | openSession =>
    cases hp with
    | quiet _ hn => cases hn
    | connecting hu => exact Progress.notice ((lookedUp_keep h (by simp)).trans hu) ha
  | sendTo =>
    cases hp with
    | quiet ho _ => cases ho
    | plain => exact Progress.quiet rfl rfl
    | notice hu ha => exact Progress.notified hr hw hi hu ha hs hst
    | reply => exact Progress.quiet rfl rfl
  | write | closeRx => exact hp.keep hr hi hs (by simp)

end Steps

theorem run_progress {h : List Event} {s : State} (hr : Run h s) (hd : DistinctAddrs h)
    (hq : requests h < 2 ^ 64 - 1) (hst : Every HostStays h) :
    ∀ c t, s.task c = some t → Progress h s c t := by
  induction hr with
  | nil => intro c t ht; cases ht
  | @cons h s s' l hr hs ih =>
    have hd' := hd.tail
    rw [requests_cons] at hq
    have hi : SpentOnce noticeId h s := by
      have hle := opens_le_requests hr
      exact run_spentOnce onePerSession_noticeId hr (by omega)
    have ih := ih hd' (by omega) hst.2
    intro c t ht
    obtain ⟨hc, ht⟩ | ⟨-, rfl⟩ | ⟨rfl, addr, t₀, ha, hb, hm⟩ := task_cases hs ht
    · refine (ih c t ht).keep hr hi hs ?_
      rintro msg rfl
      exact hc rfl
    · exact Progress.quiet rfl rfl
    · exact Progress.own hr (run_wired hr hd') (run_consistent hr hd') hi hst.1 hs ha hm
        (ih _ _ hb)

section Answers

variable {h : List Event} {s s' : State} {c : ConnId}

theorem accepted_of_progress {dest : SocketAddr} {id : UInt64}
    (hs : step s (.sendTo c dest (.joinAccepted id)) = some s')
    (hp : ∀ c t, s.task c = some t → Progress h s c t) :
    s.addr c = some dest ∧ ∃ r, lookedUp c h = some r ∧ ∀ d, joinEntries id (s.queue d) =
      if d = r.conn then [⟨c, .incomingJoin r.joinerNetworkId id⟩] else [] := by
  obtain ⟨k, rest, hk, ht, -⟩ := step_sendTo_iff.mp hs
  have hp := hp c _ (State.task_eq_some.mpr ⟨k, hk, ht⟩)
  cases hp with
  | quiet ho _ => cases ho
  | plain _ hq => cases hq
  | reply hu ha hj => exact ⟨ha, _, hu, hj⟩

theorem spent_of_progress {host : SocketAddr} {n : UInt64}
    (hs : step s (.openSession c host n) = some s')
    (hp : ∀ c t, s.task c = some t → Progress h s c t) :
    ∃ r, lookedUp c h = some r ∧ r.host = host ∧ r.joinerNetworkId = n := by
  obtain ⟨k, hk, ht, -⟩ := atTask_eq_some.mp hs
  have hp := hp c _ (State.task_eq_some.mpr ⟨k, hk, ht⟩)
  cases hp with
  | quiet _ hn => cases hn
  | connecting hu => exact ⟨_, hu, rfl, rfl⟩

theorem connectRequest_refused {t n : UInt64} (hl : s.reg.hosts.lookup t = none)
    (hs : step s (.handle c (.connectRequest t n)) = some s') :
    s'.reg.nextSessionId = s.reg.nextSessionId ∧ ∃ addr, s.addr c = some addr ∧
      s'.task c = some (.sending (addr, .error ("no such host: 0x" ++ lowerHex t)) []) := by
  obtain ⟨k, hk, -, he⟩ := atTask_eq_some.mp hs
  simp only [handle, hl, Option.map_some] at he
  cases he
  refine ⟨rfl, k.addr, by simp [State.addr, hk], ?_⟩
  rw [State.setTask_task, if_pos rfl]
  simp [State.task, hk, afterSends]

theorem told_of_progress {dest : SocketAddr} {text : String} (hw : Wired s.view)
    (hs : step s (.sendTo c dest (.error text)) = some s')
    (hp : ∀ c t, s.task c = some t → Progress h s c t) :
    s'.queue c = s.queue c ++ if s.rxOpen c then [⟨c, .error text⟩] else [] := by
  obtain ⟨k, rest, hk, ht, -⟩ := step_sendTo_iff.mp hs
  have hp := hp c _ (State.task_eq_some.mpr ⟨k, hk, ht⟩)
  have hcl : s.reg.clients.lookup k.addr = some ⟨c⟩ :=
    hw.client c k.addr (stage_of_task hk (by rw [ht]; rfl))
  have haddr : s.addr c = some k.addr := by simp [State.addr, hk]
  rw [step_sendTo_queue hs]
  cases hp with
  | quiet ho _ => cases ho
  | plain _ _ ha =>
    have hdest := ha text rfl
    rw [haddr] at hdest
    obtain rfl := Option.some.inj hdest
    simp [hcl]

end Answers

/-- In every run in which the host that a connect request has looked up is still
there when it is notified, a joiner is accepted under a session id of its own,
after exactly that host was notified, once; a request for an unknown host is
answered with an error and spends no id. -/
theorem handshake_of_hostStays {h : List Event} {s : State} (hr : Run h s) (hd : DistinctAddrs h)
    (hq : requests h < 2 ^ 64 - 1) (hst : Every HostStays h) : Handshake h := by
  constructor
  · have hle := opens_le_requests hr
    have hi : SpentOnce replyId h s := run_spentOnce onePerSession_replyId hr (by omega)
    exact (List.nodup_append'.mp (hi.once 0)).1
  · induction hr with
    | nil => trivial
    | @cons h s s' l hr hs ih =>
      have hd' := hd.tail
      rw [requests_cons] at hq
      have hp := run_progress hr hd' (by omega) hst.2
      refine ⟨?_, ih hd' (by omega) hst.2⟩
      refine ⟨?_, ?_, ?_, ?_⟩
      · rintro c dest id rfl
        exact accepted_of_progress hs hp
      · rintro c t n s'' rfl hl hs''
        exact connectRequest_refused hl hs''
      · rintro c dest text s'' rfl hs''
        exact told_of_progress (run_wired hr hd') hs'' hp
      · rintro c host n rfl
        exact spent_of_progress hs hp

/-- A joiner, from its request to the answer. -/
def welcoming : List Label :=
  [.accept 0 (.v4 1 1), .insert 0, .read 0 (.registerHost ⟨7, default⟩),
    .handle 0 (.registerHost ⟨7, default⟩), .sendTo 0 (.v4 1 1) (.registered 7),
    .accept 1 (.v4 1 2), .insert 1, .read 1 (.connectRequest 7 9),
    .handle 1 (.connectRequest 7 9), .openSession 1 (.v4 1 1) 9,
    .sendTo 1 (.v4 1 1) (.incomingJoin 9 1), .sendTo 1 (.v4 1 2) (.joinAccepted 1)]

theorem handshake_of_hostStays_welcoming :
    sentIds replyId (replay machine welcoming).1 = [1] ∧
      joinEntries 1 ((replay machine welcoming).2.queue 0) = [⟨1, .incomingJoin 9 1⟩] ∧
      Handshake (replay machine welcoming).1 :=
  ⟨by decide +kernel, by decide +kernel, handshake_of_hostStays (replay_run welcoming)
    (replay_distinctAddrs welcoming (by decide)) (by decide +kernel) (by decide +kernel)⟩

/-- The host leaves after the request was looked up. -/
def unannounced : List Label :=
  [.accept 0 (.v4 1 1), .insert 0, .read 0 (.registerHost ⟨7, default⟩),
    .handle 0 (.registerHost ⟨7, default⟩), .sendTo 0 (.v4 1 1) (.registered 7),
    .accept 1 (.v4 1 2), .insert 1, .read 1 (.connectRequest 7 9),
    .handle 1 (.connectRequest 7 9), .leave 0, .cleanup 0, .openSession 1 (.v4 1 1) 9,
    .sendTo 1 (.v4 1 1) (.incomingJoin 9 1)]

/-- The joiner is accepted although nobody was notified. -/
theorem handshake_broken_unannounced :
    ∃ h s s', Run h s ∧ step s (.sendTo 1 (.v4 1 2) (.joinAccepted 1)) = some s' ∧
      DistinctAddrs (⟨s, .sendTo 1 (.v4 1 2) (.joinAccepted 1)⟩ :: h) ∧
      requests (⟨s, .sendTo 1 (.v4 1 2) (.joinAccepted 1)⟩ :: h) < 2 ^ 64 - 1 ∧
      s'.queue 1 = s.queue 1 ++ [⟨1, .joinAccepted 1⟩] ∧ joinEntries 1 (s.queue 0) = [] ∧
      ¬ Handshake (⟨s, .sendTo 1 (.v4 1 2) (.joinAccepted 1)⟩ :: h) := by
  have hr : Run _ _ := replay_run unannounced
  have hsome : (step (replay machine unannounced).2
      (.sendTo 1 (.v4 1 2) (.joinAccepted 1))).isSome := by decide +kernel
  obtain ⟨s', hs⟩ := Option.isSome_iff_exists.mp hsome
  have hd := replay_distinctAddrs unannounced (by decide)
  have hq : requests (replay machine unannounced).1 < 2 ^ 64 - 1 := by decide +kernel
  have hcl : (replay machine unannounced).2.reg.clients.lookup (.v4 1 2) = some ⟨1⟩ ∧
      (replay machine unannounced).2.rxOpen 1 = true := by decide +kernel
  have hnone : joinEntries 1 ((replay machine unannounced).2.queue 0) = [] := by decide +kernel
  have hu : lookedUp 1 (replay machine unannounced).1 = some ⟨7, 9, .v4 1 1, 0⟩ := by
    decide +kernel
  refine ⟨_, _, s', hr, hs, ?_, ?_, ?_, hnone, ?_⟩
  · intro e he
    obtain rfl | he := List.mem_cons.mp he
    · trivial
    · exact hd e he
  · rw [requests_cons]
    exact hq
  · rw [step_sendTo_queue hs, if_pos hcl]
  · intro hh
    obtain ⟨-, r, hr, hj⟩ := hh.answered.1.accepted 1 _ 1 rfl
    rw [hu] at hr
    cases hr
    have hj0 := hj 0
    rw [hnone] at hj0
    cases hj0

end Mineshaft.Server
