import Mineshaft.Client.Replies
import Mineshaft.Server.Consistency
import Mineshaft.Server.Queues

namespace Mineshaft.Browsing

open Mineshaft.Core Mineshaft.Lib Mineshaft.Lib.Transition
open Mineshaft.Client (hostLists hostLists_append hostLists_singleton)
open Mineshaft.Server

def listing (c : ConnId) (e : Server.Event) : List (List AdvertisedServer) :=
  match e.label with
  | .listHosts a hosts => if a = c then [hosts] else []
  | _ => []

def listings (c : ConnId) : List Server.Event → List (List AdvertisedServer) := collect (listing c)

theorem listings_cons (c : ConnId) (e : Server.Event) (h : List Server.Event) :
    listings c (e :: h) = listings c h ++ listing c e := rfl

def queued (s : State) (c : ConnId) : List ServerMessage := (s.queue c).map (fun x => x.msg)

def owed (s : State) (c : ConnId) : List ServerMessage := (s.outgoing c).map (fun p => p.2)

/-- Host lists are addressed to the client that asked. -/
def OwnLists (s : State) : Prop :=
  ∀ c dest hosts, (dest, .hostList hosts) ∈ s.outgoing c → s.addr c = some dest

theorem hostLists_eq_nil {msgs : List ServerMessage} (h : ∀ hosts, .hostList hosts ∉ msgs) :
    hostLists msgs = [] := by
  induction msgs with
  | nil => rfl
  | cons msg msgs ih =>
    have hm : hostLists [msg] = [] := by
      apply hostLists_singleton
      rintro hosts rfl
      exact h hosts List.mem_cons_self
    rw [← List.singleton_append, hostLists_append, hm,
      ih (fun hosts hm => h hosts (List.mem_cons_of_mem _ hm))]
    rfl

theorem listing_of_ne {c : ConnId} {e : Server.Event} (h : c ≠ e.label.conn) : listing c e = [] := by
  unfold listing
  split
  next a hosts hl =>
    rw [hl] at h
    exact if_neg (Ne.symm h)
  · rfl

theorem mem_labelOutputs {reg : Registry} {addr dest : SocketAddr} {l : Label}
    {hosts : List AdvertisedServer} (h : (dest, .hostList hosts) ∈ labelOutputs reg addr l) :
    dest = addr ∧ l = .listHosts l.conn hosts := by
  cases l with
  | handle c msg => exact absurd h not_hostList_replies
  | listHosts c hosts' =>
    simp only [labelOutputs, List.mem_singleton, Prod.mk.injEq, ServerMessage.hostList.injEq] at h
    obtain ⟨rfl, rfl⟩ := h
    exact ⟨rfl, rfl⟩
  | openSession c host n => simp [labelOutputs] at h
  | accept | insert | read | sendTo | leave | cleanup | write | closeRx => cases h

variable {h : List Server.Event} {s s' : State} {l : Label} {c : ConnId}

theorem listing_nil (hc : ∀ hosts, l ≠ .listHosts c hosts) :
    listing c ⟨s, l⟩ = [] := by
  unfold listing
  split
  next a hosts hl =>
    refine if_neg ?_
    rintro rfl
    exact hc hosts hl
  · rfl

theorem addr_listHosts {hosts : List AdvertisedServer}
    (hs : step s (.listHosts c hosts) = some s') : ∃ addr, s.addr c = some addr := by
  obtain ⟨k, hk, -, -⟩ := atTask_eq_some.mp hs
  exact ⟨k.addr, by simp [State.addr, hk]⟩

theorem hostLists_outputs (hs : step s l = some s') :
    hostLists ((outputs l.conn ⟨s, l⟩).map (fun p => p.2)) = listing l.conn ⟨s, l⟩ := by
  by_cases hl : ∃ hosts, l = .listHosts l.conn hosts
  · obtain ⟨hosts, hl⟩ := hl
    generalize l.conn = c at hl
    subst hl
    obtain ⟨addr, ha⟩ := addr_listHosts hs
    simp [outputs, Label.conn, ha, labelOutputs, listing, hostLists]
  · push Not at hl
    rw [listing_nil hl]
    apply hostLists_eq_nil
    intro hosts hmem
    obtain ⟨⟨dest, msg⟩, hp, rfl⟩ := List.mem_map.mp hmem
    rw [outputs, if_pos rfl] at hp
    obtain ⟨a, -, hp⟩ := List.mem_flatMap.mp hp
    exact hl hosts (mem_labelOutputs hp).2

theorem OwnLists.step (hown : OwnLists s) (hs : step s l = some s') : OwnLists s' := by
  intro a dest hosts hm
  by_cases ha : a = l.conn
  · subst ha
    have hmem : (dest, .hostList hosts) ∈ s.outgoing l.conn ++ outputs l.conn ⟨s, l⟩ := by
      rw [outputs_own hs]
      exact List.mem_append_right _ hm
    obtain hm | hm := List.mem_append.mp hmem
    · exact step_addr hs (hown _ _ _ hm)
    · rw [outputs, if_pos rfl] at hm
      obtain ⟨addr, haddr, hm⟩ := List.mem_flatMap.mp hm
      rw [(mem_labelOutputs hm).1]
      exact step_addr hs (Option.mem_toList.mp haddr)
  · obtain ⟨ht, haddr⟩ := (step_moves hs).2 a ha
    rw [haddr]
    refine hown a dest hosts ?_
    rwa [State.outgoing, ht] at hm

theorem run_ownLists (hr : Server.Run h s) : OwnLists s := by
  induction hr with
  | nil => intro c dest hosts hm; cases hm
  | cons _ hs ih => exact ih.step hs

theorem stage_sendTo {dest : SocketAddr} {msg : ServerMessage}
    (hs : step s (.sendTo c dest msg) = some s') :
    ∃ a, s.addr c = some a ∧ s.view.stage c = some (a, .inserted) := by
  obtain ⟨k, rest, hk, ht, -⟩ := step_sendTo_iff.mp hs
  exact ⟨k.addr, by simp [State.addr, hk], stage_of_task hk (by rw [ht]; rfl)⟩

theorem hostLists_queued (hw : Wired s.view) (hown : OwnLists s) (hs : step s l = some s')
    (c : ConnId) :
    hostLists (queued s' c) = hostLists (queued s c) ++
      if s.rxOpen c then hostLists ((sending c ⟨s, l⟩).map (fun q => q.2.2)) else [] := by
  by_cases hl : ∃ a dest msg, l = .sendTo a dest msg
  · obtain ⟨a, dest, msg, rfl⟩ := hl
    rw [queued, step_sendTo_queue hs, List.map_append, hostLists_append]
    congr 1
    by_cases hmsg : ∃ hosts, msg = .hostList hosts
    · obtain ⟨hosts, rfl⟩ := hmsg
      obtain ⟨addr, ha, hst⟩ := stage_sendTo hs
      have hdest := hown a dest hosts (mem_outgoing_sendTo hs)
      rw [ha, Option.some.injEq] at hdest
      subst hdest
      have hcl : s.reg.clients.lookup addr = some ⟨a⟩ := hw.client a addr hst
      rw [hcl]
      by_cases hac : a = c <;> by_cases ho : s.rxOpen c = true <;> simp [sending, hac, ho, hostLists]
    · push Not at hmsg
      have hm := hostLists_singleton hmsg
      by_cases hac : a = c <;> by_cases ho : s.rxOpen c = true <;>
        by_cases hd : s.reg.clients.lookup dest = some ⟨c⟩ <;> simp [sending, hac, ho, hd, hm] <;>
        rfl
  · push Not at hl
    have hsend : sending c ⟨s, l⟩ = [] := by
      unfold sending
      split
      next a dest msg he => exact absurd he (hl a dest msg)
      · rfl
    rw [queued, step_queue hs c hl, hsend]
    simp [queued, hostLists]

theorem hostLists_owed (hs : step s l = some s') (c : ConnId) :
    hostLists (owed s c) ++ listing c ⟨s, l⟩ =
      hostLists ((sending c ⟨s, l⟩).map (fun q => q.2.2)) ++ hostLists (owed s' c) := by
  by_cases hc : c = l.conn
  · subst hc
    have ho := congrArg (fun out => hostLists (List.map (fun p => p.2) out)) (outputs_own hs)
    simp only [List.map_append, hostLists_append, List.map_map, hostLists_outputs hs] at ho
    exact ho
  · obtain ⟨ht, -⟩ := (step_moves hs).2 c hc
    rw [listing_of_ne hc, sending_of_ne hc, owed, owed, State.outgoing, State.outgoing, ht]
    simp [hostLists]

/-- What `c` was sent are the host lists taken for it, in order; those are all,
but for the one that waits with the handler, while the receiver is held. -/
structure Answered (c : ConnId) (h : List Server.Event) (s : State) : Prop where
  fresh : s.addr c = none → listings c h = []
  held : s.rxOpen c = true → hostLists (queued s c) ++ hostLists (owed s c) = listings c h
  kept : hostLists (queued s c) <+: listings c h

theorem Answered.step (hi : Answered c h s) (hw : Wired s.view) (hown : OwnLists s)
    (hs : step s l = some s') : Answered c (⟨s, l⟩ :: h) s' := by
  have hq := hostLists_queued hw hown hs c
  have ho := hostLists_owed hs c
  have hall : s.rxOpen c = true →
      hostLists (queued s' c) ++ hostLists (owed s' c) = listings c (⟨s, l⟩ :: h) := by
    intro hopen
    rw [if_pos hopen] at hq
    rw [hq, List.append_assoc, ← ho, ← List.append_assoc, hi.held hopen]
    rfl
  constructor
  · intro ha
    obtain ⟨⟨addr, ha', -, -⟩, hframe⟩ := step_moves hs
    have hc : c ≠ l.conn := by
      rintro rfl
      rw [ha] at ha'
      cases ha'
    rw [(hframe c hc).2] at ha
    rw [listings_cons, listing_of_ne hc, List.append_nil]
    exact hi.fresh ha
  · intro hopen
    cases hk : s.conns c with
    | some k => exact hall (step_rxOpen hs (by simp [hk]) hopen)
    | none =>
      have ha : s.addr c = none := by simp [State.addr, hk]
      have hclosed : s.rxOpen c = false := by simp [State.rxOpen, hk]
      have hnil : hostLists (queued s c) = [] := by simp [queued, State.queue, hk, hostLists]
      have hout : hostLists (owed s c) = [] := by
        simp [owed, State.outgoing, State.task, hk, hostLists]
      have hlist : listing c ⟨s, l⟩ = [] := by
        apply listing_nil
        rintro hosts rfl
        obtain ⟨addr, haddr⟩ := addr_listHosts hs
        rw [ha] at haddr
        cases haddr
      rw [hout, hlist, List.append_nil] at ho
      rw [hclosed, hnil, if_neg Bool.false_ne_true, List.append_nil] at hq
      have hempty : listings c (⟨s, l⟩ :: h) = [] := by
        rw [listings_cons, hlist, List.append_nil]
        exact hi.fresh ha
      rw [hq, (List.nil_eq_append_iff.mp ho).2, hempty]
      rfl
  · by_cases hopen : s.rxOpen c = true
    · rw [← hall hopen]
      exact List.prefix_append _ _
    · rw [if_neg hopen, List.append_nil] at hq
      rw [hq]
      exact hi.kept.trans (List.prefix_append _ _)

theorem run_answered (hr : Server.Run h s) (hd : DistinctAddrs h) (c : ConnId) :
    Answered c h s := by
  induction hr with
  | nil =>
    refine ⟨fun _ => rfl, fun ho => ?_, List.nil_prefix⟩
    cases ho
  | cons hr hs ih => exact (ih hd.tail).step (run_wired hr hd.tail) (run_ownLists hr) hs

def taken (s : State) (c : ConnId) : Nat := ((s.conns c).map (fun k => k.taken)).getD 0

def written (s : State) (c : ConnId) : List ServerMessage := (queued s c).take (taken s c)

def nextFrame (s : State) (c : ConnId) : Option ServerMessage := (queued s c)[taken s c]?

theorem taken_modify (s : State) (a c : ConnId) (f : Conn → Conn)
    (hf : ∀ k, (f k).taken = k.taken) : taken (s.modify a f) c = taken s c := by
  simp only [taken, State.modify_conns]
  split
  · simp [Function.comp_def, hf]
  · rfl

theorem taken_setTask (s : State) (a c : ConnId) (t : Task) : taken (s.setTask a t) c = taken s c :=
  taken_modify s a c _ (fun _ => rfl)

theorem taken_sendTo (s : State) (a c : ConnId) (dest : SocketAddr) (msg : ServerMessage) :
    taken (s.sendTo a dest msg) c = taken s c := by
  unfold State.sendTo
  split
  · refine taken_modify s _ c _ (fun k => ?_)
    split <;> rfl
  · rfl

theorem step_taken (hs : step s l = some s') (c : ConnId) :
    taken s' c = if l = .write c then taken s c + 1 else taken s c := by
  cases l with
  | accept a addr =>
    obtain ⟨hn, rfl⟩ := step_accept_iff.mp hs
    by_cases hc : c = a
    · subst hc
      simp [taken, hn]
    · simp [taken, hc]
  | sendTo a dest msg =>
    obtain ⟨k, rest, -, -, rfl⟩ := step_sendTo_iff.mp hs
    rw [taken_setTask, taken_sendTo, if_neg (by simp)]
  | write a =>
    obtain ⟨k, hk, -, -, rfl⟩ := step_write_iff.mp hs
    by_cases hc : c = a
    · subst hc
      simp [taken, State.modify_conns, hk]
    · simp [taken, State.modify_conns, hc, Ne.symm hc]
  | closeRx a =>
    obtain ⟨k, -, -, rfl⟩ := step_closeRx_iff.mp hs
    rw [if_neg (by simp)]
    exact taken_modify s a c _ (fun _ => rfl)
  | handle a msg =>
    obtain ⟨k, -, -, hs⟩ := atTask_eq_some.mp hs
    obtain ⟨r, -, rfl⟩ := Option.map_eq_some_iff.mp hs
    exact taken_setTask _ a c _
  | listHosts a hosts =>
    obtain ⟨k, -, -, hs⟩ := atTask_eq_some.mp hs
    split at hs <;> cases hs
    exact taken_setTask _ a c _
  | insert a | read a msg | openSession a host n | leave a | cleanup a =>
    obtain ⟨k, -, -, hs⟩ := atTask_eq_some.mp hs
    cases hs
    exact taken_setTask _ a c _

theorem queued_front (hs : step s l = some s') (c : ConnId) : queued s c <+: queued s' c := by
  by_cases hl : ∃ a dest msg, l = .sendTo a dest msg
  · obtain ⟨a, dest, msg, rfl⟩ := hl
    rw [queued, queued, step_sendTo_queue hs, List.map_append]
    exact List.prefix_append _ _
  · push Not at hl
    have he : queued s' c = queued s c := congrArg (List.map _) (step_queue hs c hl)
    exact ⟨[], by rw [List.append_nil, he]⟩

theorem taken_lt (hs : step s (.write c) = some s') : taken s c < (queued s c).length := by
  obtain ⟨k, hk, -, hlt, -⟩ := step_write_iff.mp hs
  simpa [taken, queued, State.queue, hk] using hlt

theorem run_taken_le (hr : Server.Run h s) (c : ConnId) : taken s c ≤ (queued s c).length := by
  induction hr with
  | nil => exact Nat.le_refl 0
  | @cons h s s' l hr hs ih =>
    have hlen := (queued_front hs c).length_le
    rw [step_taken hs c]
    split
    next hl =>
      subst hl
      have hlt := taken_lt hs
      omega
    · omega

theorem written_step (hr : Server.Run h s) (hs : step s l = some s') (c : ConnId) :
    written s' c = written s c ++ if l = .write c then (nextFrame s c).toList else [] := by
  obtain ⟨more, hmore⟩ := queued_front hs c
  have hle := run_taken_le hr c
  rw [written, ← hmore, step_taken hs c]
  split
  next hl =>
    subst hl
    have hlt := taken_lt hs
    rw [List.take_append_of_le_length hlt, List.take_add_one]
    rfl
  · rw [List.take_append_of_le_length hle, List.append_nil]
    rfl

theorem nextFrame_isSome (hs : step s (.write c) = some s') : ∃ msg, nextFrame s c = some msg :=
  ⟨_, List.getElem?_eq_getElem (taken_lt hs)⟩

theorem written_listings (hr : Server.Run h s) (hd : DistinctAddrs h) (c : ConnId) :
    hostLists (written s c) <+: listings c h :=
  ((List.take_prefix _ _).filterMap _).trans (run_answered hr hd c).kept

end Mineshaft.Browsing
