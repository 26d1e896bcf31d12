import Mineshaft.Browsing.Listing

namespace Mineshaft.Browsing

open Mineshaft.Core Mineshaft.Lib Mineshaft.Lib.Transition
open Mineshaft.Client (Node Session hostLists)
open Mineshaft.Client.Session (Around node_cases reader_cases setLink_links stored_frame waits
  run_answering)
open Mineshaft.Server (ConnId DistinctAddrs hostsMachine operation)

/-- The node waits on connection `c` for the answer to a `ListHosts`. -/
def Waiting (w : Net) (c : ConnId) : Prop :=
  w.session.node.pc = .awaiting ∧ w.session.node.server = some c

variable {id : UInt64} {build : UInt64 → ServerAdvertisement → Option (List UInt8)}
variable {h : List Event} {w w' : Net} {c : ConnId}

def asked (w : Net) (c : ConnId) : Nat := (w.session.links c).asked

theorem moves_awaiting {n n' : Node} {l : Client.Label} {out : Option (ConnId × ClientMessage)}
    (hm : Client.Moves id build n l n' out) (hpc : n'.pc = .awaiting) (hc : n'.server = some c) :
    l = .write true ∧ n.pc = .fetching ∧ n.server = some c := by
  cases l with
  | write ok =>
    obtain ⟨hf, hs, -⟩ | ⟨-, -, hne, -⟩ := Client.moves_write hm
    · obtain ⟨hn, rfl, -⟩ := hs c hc
      exact ⟨rfl, hf, hn⟩
    · exact absurd hpc hne
  | connect stream =>
    cases stream with
    | some d =>
      rw [(Client.moves_connect hm).2.2] at hpc
      cases hpc
    | none => exact absurd hpc (Client.moves_other hm (by simp) (by simp) (by simp)).1
  | fetched hosts =>
    cases hosts with
    | some hosts =>
      rw [(Client.moves_fetched hm).2.1] at hpc
      cases hpc
    | none => exact absurd hpc (Client.moves_other hm (by simp) (by simp) (by simp)).1
  | top | detect | beat => exact absurd hpc (Client.moves_other hm (by simp) (by simp) (by simp)).1

theorem asked_same (hn : w'.session.node = w.session.node)
    (ho : w'.session.opened = w.session.opened) (ha : asked w' c = asked w c)
    (hc : c ∈ w.session.opened) :
    c ∈ w'.session.opened ∧ asked w c ≤ asked w' c ∧
      (Waiting w' c → asked w' c = asked w c + 1 ∨ Waiting w c) := by
  refine ⟨by rwa [ho], ha.ge, fun hw => Or.inr ?_⟩
  rwa [Waiting, hn] at hw

theorem asked_step {l : Label} (hs : w.step id build l = some w') (hc : c ∈ w.session.opened) :
    c ∈ w'.session.opened ∧ asked w c ≤ asked w' c ∧
      (Waiting w' c → asked w' c = asked w c + 1 ∨ Waiting w c) := by
  cases l with
  | node l now reached =>
    obtain ⟨-, s, hn, rfl⟩ := nodeStep_iff hs
    have ha := (node_links hn hc).2
    refine ⟨?_, ?_, ?_⟩
    · exact node_opened_mono hn hc
    · exact (Nat.le_add_right _ _).trans_eq ha.symm
    · rintro ⟨hpc, hsrv⟩
      obtain ⟨n', out, hm, har⟩ := node_cases hn
      have hnode : s.node = n' := by cases har <;> rfl
      dsimp only at hpc hsrv
      rw [hnode] at hpc hsrv
      obtain ⟨rfl, hf, hsrv₀⟩ := moves_awaiting hm hpc hsrv
      rw [if_pos (frame_listHosts.mpr ⟨rfl, hf, hsrv₀⟩)] at ha
      exact Or.inl ha
  | reader d r =>
    obtain ⟨s, hread, rfl⟩ := Option.map_eq_some_iff.mp hs
    have hread : (Session.machine id build).step w.session (.reader d r) = some s := hread
    obtain ⟨-, l, hl, rfl⟩ := reader_cases hread
    obtain ⟨hn, ho, -, hlinks⟩ := stored_frame w.session r
    refine asked_same hn ho ?_ hc
    simp only [asked, setLink_links, hlinks]
    split
    next he =>
      subst he
      exact (Client.reads_spec hl).2.1
    · rfl
  | forward d t i n data =>
    change (if d ∈ w.session.opened then _ else none) = some w' at hs
    split at hs <;> cases hs
    exact asked_same rfl rfl rfl hc
  | server l =>
    obtain ⟨s', -, ⟨_, _, _, _, _, _, rfl⟩ | ⟨-, rfl⟩⟩ := serverStep_iff hs
    · exact asked_same rfl rfl rfl hc
    · obtain ⟨-, ho, hn⟩ := arrive_frame w l
      exact asked_same hn ho (arrive_links w l hc).2 hc

theorem opened_back {l : Label} (hs : w.step id build l = some w')
    (hk : (w.server.conns c).isSome) (hc : c ∈ w'.session.opened) : c ∈ w.session.opened := by
  cases l with
  | node l now reached =>
    obtain ⟨hnone, s, hn, rfl⟩ := nodeStep_iff hs
    obtain hc | ⟨hl, -, -⟩ := node_opened_cases hn hc
    · exact hc
    · simp [hnone c hl] at hk
  | reader d r =>
    obtain ⟨s, hread, rfl⟩ := Option.map_eq_some_iff.mp hs
    have hread : (Session.machine id build).step w.session (.reader d r) = some s := hread
    obtain ⟨-, l, -, rfl⟩ := reader_cases hread
    have ho := (stored_frame w.session r).2.1
    change c ∈ (w.session.stored r).opened at hc
    rwa [ho] at hc
  | forward d t i n data =>
    change (if d ∈ w.session.opened then _ else none) = some w' at hs
    split at hs <;> cases hs
    exact hc
  | server l =>
    obtain ⟨s', -, ⟨_, _, _, _, _, _, rfl⟩ | ⟨-, rfl⟩⟩ := serverStep_iff hs
    · exact hc
    · dsimp only at hc
      rwa [(arrive_frame w l).2.1] at hc

theorem conns_step {l : Label} (hs : w.step id build l = some w')
    (hk : (w.server.conns c).isSome) : (w'.server.conns c).isSome := by
  obtain ⟨l, rfl, hstep⟩ | ⟨-, hsame⟩ := step_server hs
  · obtain ⟨k, hk⟩ := Option.isSome_iff_exists.mp hk
    have ha := Server.step_addr hstep (a := c) (x := k.addr) (by simp [Server.State.addr, hk])
    obtain ⟨k', hk', -⟩ := Option.map_eq_some_iff.mp ha
    rw [hk']
    rfl
  · rwa [hsame]

theorem conns_run {post early : List Event} {e : Event} {w₁ : Net}
    (hr : Run (Net.machine id build) (post ++ e :: early) w)
    (h₁ : e.pre.step id build e.label = some w₁) (hk : (w₁.server.conns c).isSome) :
    (w.server.conns c).isSome := by
  induction post generalizing w with
  | nil =>
    cases hr with
    | cons _ hs =>
      have he : some w = some w₁ := hs.symm.trans h₁
      cases he
      exact hk
  | cons a post ih =>
    cases hr with
    | cons hr hs => exact conns_step hs (ih hr)

theorem waiting_back {post early : List Event} {e : Event} {w₁ : Net}
    (hr : Run (Net.machine id build) (post ++ e :: early) w)
    (h₁ : e.pre.step id build e.label = some w₁) (hk : (w₁.server.conns c).isSome)
    (hc : c ∈ w.session.opened) :
    c ∈ w₁.session.opened ∧ asked w₁ c ≤ asked w c ∧
      (Waiting w c → asked w c ≤ asked w₁ c → Waiting w₁ c ∧ ∀ e' ∈ post, Waiting e'.pre c) := by
  induction post generalizing w with
  | nil =>
    cases hr with
    | cons hr hs =>
      have he : some w = some w₁ := hs.symm.trans h₁
      cases he
      exact ⟨hc, Nat.le_refl _, fun hw _ => ⟨hw, by simp⟩⟩
  | cons a post ih =>
    cases hr with
    | @cons _ w₀ _ l hr hs =>
      have hc₀ := opened_back hs (conns_run hr h₁ hk) hc
      obtain ⟨-, hle, hwait⟩ := asked_step hs hc₀
      obtain ⟨hc₁, hle₁, hback⟩ := ih hr hc₀
      refine ⟨hc₁, hle₁.trans hle, fun hw hge => ?_⟩
      obtain hgrow | hw₀ := hwait hw
      · omega
      · obtain ⟨hw₁, hall⟩ := hback hw₀ (hle.trans hge)
        refine ⟨hw₁, fun e' he' => ?_⟩
        obtain rfl | he' := List.mem_cons.mp he'
        · exact hw₀
        · exact hall e' he'

def netListing (c : ConnId) (e : Event) : List (List AdvertisedServer) :=
  match e.label with
  | .server l => listing c ⟨e.pre.server, l⟩
  | .node _ _ _ | .reader _ _ | .forward _ _ _ _ _ => []

theorem listings_serverEvents (c : ConnId) (h : List Event) :
    listings c (serverEvents h) = collect (netListing c) h := by
  induction h with
  | nil => rfl
  | cons e h ih =>
    obtain ⟨w, l⟩ := e
    cases l with
    | server l => rw [serverEvents_server, listings_cons, ih]; rfl
    | node | reader | forward =>
      rw [collect, ← ih]
      exact (List.append_nil _).symm

theorem mem_netListing {e : Event} {hosts : List AdvertisedServer} (h : hosts ∈ netListing c e) :
    e.label = .server (.listHosts c hosts) := by
  unfold netListing at h
  split at h
  next l hl =>
    unfold listing at h
    split at h
    next a hosts' ha =>
      dsimp only at ha
      subst ha
      split at h
      next hac =>
        subst hac
        obtain rfl := List.mem_singleton.mp h
        exact hl
      · cases h
    · cases h
  all_goals cases h

theorem answer_listed {hosts : List AdvertisedServer} {now : Nat} {reached : Bool}
    (hr : Run (Net.machine id build) h w) (hd : DistinctAddrs (serverEvents h))
    (hs : w.step id build (.node (.fetched (some hosts)) now reached) = some w') :
    ∃ c, Waiting w c ∧ c ∈ w.session.opened ∧
      (listings c (serverEvents h))[asked w c - 1]? = some hosts ∧ 0 < asked w c := by
  obtain ⟨-, s, hn, -⟩ := nodeStep_iff hs
  obtain ⟨n', out, hm, har⟩ := node_cases hn
  have hi := run_answering (run_session hr hd)
  have hsup := run_supplied hr hd
  obtain ⟨hpc, -, -⟩ := Client.moves_fetched hm
  obtain ⟨c, k, hc, -, hk⟩ := hi.awaiting hpc
  have hst := hi.inStep c hc
  have hwaits : waits w.session.node = 1 := if_pos hpc
  rw [hwaits] at hst
  cases har with
  | received hin hp =>
    rw [hi.incoming c hc] at hin
    cases hin
    have hget := (hst.popped hp).2 k hk
    have hopen := hsup.current c hc
    rw [hsup.frames c hopen] at hget
    obtain ⟨more, hmore⟩ := written_listings (server_run hr) hd c
    refine ⟨c, ⟨hpc, hc⟩, hopen, ?_, ?_⟩
    · have hkk : asked w c - 1 = k := by
        rw [asked, ← hk]
        rfl
      rw [← hmore, hkk, List.getElem?_append_left (List.getElem?_eq_some_iff.mp hget).1]
      exact hget
    · rw [asked, ← hk]
      exact Nat.succ_pos k
  | other _ _ _ hf => exact absurd rfl (hf hosts)

/-- The directory of the server right before the event `e` after `early`. -/
def DirectoryAt (early : List Event) (e : Event) (d : Server.Hosts) : Prop :=
  ∃ h', Transition.Run hostsMachine h' d ∧
    h'.map (fun e => e.label) = (serverEvents early).filterMap operation ∧
    Server.Shows e.pre.server.view d

theorem fetched_during {hosts : List AdvertisedServer} {now : Nat} {reached : Bool}
    (hr : Run (Net.machine id build) h w) (hd : DistinctAddrs (serverEvents h))
    (hs : w.step id build (.node (.fetched (some hosts)) now reached) = some w') :
    ∃ c post e early d, h = post ++ e :: early ∧ (∀ e' ∈ e :: post, Waiting e'.pre c) ∧
      DirectoryAt early e d ∧ d.Lists (fun r => r.senderId) hosts := by
  obtain ⟨c, hw, hc, hget, hpos⟩ := answer_listed hr hd hs
  rw [listings_serverEvents] at hget
  obtain ⟨post, e, early, rfl, hmem, -, hlt⟩ := collect_getElem hget
  have hlabel := mem_netListing hmem
  obtain ⟨hearly, w₁, h₁, hrun₁⟩ := hr.split
  have hf := distinctAddrs_iff.mp hd
  have hd₁ : DistinctAddrs (serverEvents (e :: early)) :=
    distinctAddrs_iff.mpr (fun e' he' => hf e' (List.mem_append_right _ he'))
  have hd₀ : DistinctAddrs (serverEvents early) :=
    distinctAddrs_iff.mpr (fun e' he' => hf e' (by simp [he']))
  obtain ⟨w₀, l⟩ := e
  dsimp only at hlabel
  subst hlabel
  have hserver : w₀.serverStep (.listHosts c hosts) = some w₁ := h₁
  obtain ⟨s', hstep, ⟨_, _, _, hl, _⟩ | ⟨-, rfl⟩⟩ := serverStep_iff hserver
  · cases hl
  · obtain ⟨a, hst, hp⟩ := Server.listHosts_inv hstep
    have hk₀ : (w₀.server.conns c).isSome := by
      obtain ⟨k, hk, -⟩ := Option.map_eq_some_iff.mp hst
      simp [hk]
    have hnet : w₀.step id build (.server (.listHosts c hosts)) =
        some { w₀.arrive (.listHosts c hosts) with server := s' } := h₁
    obtain ⟨hc₁, -, hback⟩ := waiting_back hr h₁ (conns_step hnet hk₀) hc
    have hsup := (run_supplied hrun₁ hd₁).asked c hc₁
    rw [← listings_serverEvents] at hlt
    have hge : asked w c ≤ asked { w₀.arrive (.listHosts c hosts) with server := s' } c := by
      change asked w c ≤ (w₀.session.links c).asked
      change _ ≤ (w₀.session.links c).asked at hsup
      omega
    obtain ⟨hw₁, hall⟩ := hback hw hge
    obtain ⟨h', d, hr', hl', hsh⟩ := Server.run_shows (server_run hearly) hd₀
    refine ⟨c, post, _, early, d, rfl, ?_, ⟨h', hr', hl', hsh⟩, ?_⟩
    · intro e' he'
      obtain rfl | he' := List.mem_cons.mp he'
      · exact hw₁
      · exact hall e' he'
    · exact hsh.lists (Server.run_consistent (server_run hearly) hd₀) hp

end Mineshaft.Browsing
