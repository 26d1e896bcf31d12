import Mineshaft.Browsing.Announcements
import Mineshaft.Browsing.Fetch

namespace Mineshaft.Core.Advertised

open Mineshaft.Lib

variable {build : UInt64 → ServerAdvertisement → Option (List UInt8)} {reg : Advertised}

theorem mem_advertise_or {senderId : UInt64} {data : ServerAdvertisement} {a : AdvertisedServer}
    (h : a ∈ (reg.advertise build senderId data).advertised) :
    a = ⟨senderId, data⟩ ∨ a ∈ reg.advertised := by
  rw [mem_advertised, lookup_advertise reg ⟨senderId, data⟩] at h
  rw [mem_advertised]
  split at h
  next hid =>
    obtain ⟨cached, hl, hd⟩ := Option.map_eq_some_iff.mp h
    obtain hr | ⟨-, hl⟩ := Option.or_eq_some_iff.mp hl
    · obtain ⟨packet, -, rfl⟩ := Option.map_eq_some_iff.mp hr
      cases a
      cases hid
      cases hd
      exact Or.inl rfl
    · exact Or.inr (by rw [hl]; exact congrArg some hd)
  · exact Or.inr h

theorem mem_foldl_refresh_or {entries : List AdvertisedServer} {a : AdvertisedServer}
    (h : a ∈ (entries.foldl (refresh build) reg).advertised) : a ∈ entries ∨ a ∈ reg.advertised := by
  induction entries generalizing reg with
  | nil => exact Or.inr h
  | cons entry entries ih =>
    obtain he | hr := ih h
    · exact Or.inl (List.mem_cons_of_mem _ he)
    · unfold refresh at hr
      split at hr
      · exact Or.inr hr
      · obtain rfl | hr := mem_advertise_or hr
        · exact Or.inl List.mem_cons_self
        · exact Or.inr hr

theorem mem_replaceAll_or {entries : List AdvertisedServer} {a : AdvertisedServer}
    (h : a ∈ (reg.replaceAll build entries).advertised) : a ∈ entries ∨ a ∈ reg.advertised := by
  obtain he | hr := mem_foldl_refresh_or h
  · exact Or.inl he
  · right
    rw [mem_advertised, HashMap.lookup_retain] at hr
    rw [mem_advertised]
    obtain ⟨cached, hl, hd⟩ := Option.map_eq_some_iff.mp hr
    rw [(Option.filter_eq_some_iff.mp hl).1]
    exact congrArg some hd

theorem replaceAll_coherent (hc : Coherent build reg) (entries : List AdvertisedServer) :
    Coherent build (reg.replaceAll build entries) :=
  foldl_refresh_coherent entries (retain_coherent hc _)

theorem advertised_replaceAll_nodup (hb : ∀ id data, (build id data).isSome)
    (hc : Coherent build reg) {entries : List AdvertisedServer}
    (hn : (entries.map (fun r => r.senderId)).Nodup) (a : AdvertisedServer) :
    a ∈ (reg.replaceAll build entries).advertised ↔ a ∈ entries := by
  rw [mem_advertised_replaceAll hb hc]
  constructor
  · intro h
    exact (List.mem_filter.mp (List.mem_of_getLast? h)).1
  · intro h
    have hmem : a ∈ entriesOf entries a.senderId := List.mem_filter.mpr ⟨h, by simp⟩
    cases hl : (entriesOf entries a.senderId).getLast? with
    | none =>
      rw [List.getLast?_eq_none_iff.mp hl] at hmem
      cases hmem
    | some b =>
      obtain ⟨hb, hid⟩ := List.mem_filter.mp (List.mem_of_getLast? hl)
      have hid : b.senderId = a.senderId := by simpa using hid
      exact congrArg some (List.inj_on_of_nodup_map hn hb h hid)

end Mineshaft.Core.Advertised

namespace Mineshaft.Browsing

open Mineshaft.Core Mineshaft.Lib Mineshaft.Lib.Transition
open Mineshaft.Client (Node Session World detectGameState)
open Mineshaft.Client.Session (node_cases reader_cases stored_frame)
open Mineshaft.Server (ConnId DistinctAddrs)

variable {id : UInt64} {build : UInt64 → ServerAdvertisement → Option (List UInt8)}
variable {h : List Event} {w w' : Net}

def probed (e : Event) : Option World :=
  match e.label with
  | .node (.detect portBound world) _ _ => (detectGameState portBound world).2
  | .node _ _ _ | .reader _ _ | .forward _ _ _ _ _ | .server _ => none

/-- The node has found the world in its own game and offers it under its id. -/
def OwnWorld (id : UInt64) (h : List Event) (a : AdvertisedServer) : Prop :=
  a.senderId = id ∧ ∃ e ∈ h, ∃ game, probed e = some (game, a.data)

theorem clear_discovery (n : Node) :
    (n.clearAdvertised build).discovery = n.discovery ∨
      (n.clearAdvertised build).discovery = n.discovery.replaceAll build [] := by
  unfold Node.clearAdvertised
  split
  · exact Or.inr rfl
  · exact Or.inl rfl

theorem moves_discovery {n n' : Node} {l : Client.Label} {out : Option (ConnId × ClientMessage)}
    (hm : Client.Moves id build n l n' out) :
    (∃ reg, (reg = n.discovery ∨ reg = n.discovery.replaceAll build []) ∧
      (n'.discovery = reg ∨ ∃ portBound world game ad, l = .detect portBound world ∧
        (detectGameState portBound world).2 = some (game, ad) ∧
        n'.discovery = reg.updateHost build id ad)) ∨
    ∃ hosts, l = .fetched (some hosts) ∧ n'.discovery = n.discovery.replaceAll build hosts := by
  cases hm with
  | fetched hosts hpc => exact Or.inr ⟨hosts, rfl, rfl⟩
  | publishing world hpc hd hreg =>
    refine Or.inl ⟨_, clear_discovery n, Or.inr ⟨_, _, world.1, world.2, rfl, ?_, rfl⟩⟩
    rw [hd]
  | closed => exact Or.inl ⟨_, clear_discovery n, Or.inl rfl⟩
  | closedSent ok hpc =>
    refine Or.inl ⟨_, clear_discovery ({ n with
      server := (Client.sendOrDrop n.server (.unregisterHost id) ok).1 }.unregistered), Or.inl rfl⟩
  | lost | alive | offline => exact Or.inl ⟨_, Or.inl rfl, Or.inl (by simp)⟩
  | connected | refused | closing | hosting | leaving | browsing | leftSent | published | asked
  | pinged | unanswered | beat => exact Or.inl ⟨_, Or.inl rfl, Or.inl rfl⟩

theorem net_node {l : Label} (hs : w.step id build l = some w') :
    (∃ l' now reached out, l = .node l' now reached ∧
        Client.Moves id build w.session.node l' w'.session.node out) ∨
      w'.session.node = w.session.node := by
  cases l with
  | node l now reached =>
    obtain ⟨-, s, hn, rfl⟩ := nodeStep_iff hs
    obtain ⟨n', out, hm, har⟩ := node_cases hn
    have hnode : s.node = n' := by cases har <;> rfl
    refine Or.inl ⟨l, now, reached, out, rfl, ?_⟩
    dsimp only
    rwa [hnode]
  | reader c r =>
    obtain ⟨s, hread, rfl⟩ := Option.map_eq_some_iff.mp hs
    have hread : (Session.machine id build).step w.session (.reader c r) = some s := hread
    obtain ⟨-, l, -, rfl⟩ := reader_cases hread
    exact Or.inr (stored_frame w.session r).1
  | forward c t i n data =>
    change (if c ∈ w.session.opened then _ else none) = some w' at hs
    split at hs <;> cases hs
    exact Or.inr rfl
  | server l =>
    obtain ⟨s', -, ⟨_, _, _, _, _, _, rfl⟩ | ⟨-, rfl⟩⟩ := serverStep_iff hs
    · exact Or.inr rfl
    · exact Or.inr (arrive_frame w l).2.2

theorem run_coherent (hr : Run (Net.machine id build) h w) :
    w.session.node.discovery.Coherent build := by
  refine hr.invariant (fun _ => True) (fun w => w.session.node.discovery.Coherent build)
    Advertised.empty_coherent ?_ (fun _ _ => trivial)
  intro w l w' _ hc hs
  obtain ⟨l', now, reached, out, -, hm⟩ | hn := net_node hs
  · obtain ⟨reg, hreg, hown⟩ | ⟨hosts, -, hd⟩ := moves_discovery hm
    · have hr : reg.Coherent build := by
        obtain rfl | rfl := hreg
        · exact hc
        · exact Advertised.replaceAll_coherent hc []
      obtain hd | ⟨_, _, _, ad, -, -, hd⟩ := hown
      · rw [hd]
        exact hr
      · rw [hd]
        exact Advertised.advertise_coherent hr id ad
    · rw [hd]
      exact Advertised.replaceAll_coherent hc hosts
  · rw [hn]
    exact hc

theorem OwnWorld.cons {a : AdvertisedServer} (ha : OwnWorld id h a) (e : Event) :
    OwnWorld id (e :: h) a := by
  obtain ⟨hid, e', he', hp⟩ := ha
  exact ⟨hid, e', List.mem_cons_of_mem _ he', hp⟩

/-- The node never makes a world up: what it offers to the local game under its
own id was found in its own game, and everything else was announced to the
server by a client. -/
theorem offered_worlds (hr : Run (Net.machine id build) h w) :
    ∀ a ∈ w.session.node.discovery.advertised, OwnWorld id h a ∨ Announced h a := by
  induction hr with
  | nil => intro a ha; cases ha
  | @cons h w w' l hr hs ih =>
    have hold : ∀ a ∈ w.session.node.discovery.advertised,
        OwnWorld id (⟨w, l⟩ :: h) a ∨ Announced (⟨w, l⟩ :: h) a := by
      intro a ha
      obtain hw | hw := ih a ha
      · exact Or.inl (hw.cons _)
      · exact Or.inr (hw.cons _)
    intro a ha
    obtain ⟨l', now, reached, out, rfl, hm⟩ | hn := net_node hs
    · obtain ⟨reg, hreg, hown⟩ | ⟨hosts, rfl, hdisc⟩ := moves_discovery hm
      · have hsub : a ∈ reg.advertised → a ∈ w.session.node.discovery.advertised := by
          intro ha
          obtain rfl | rfl := hreg
          · exact ha
          · obtain hnil | ha := Advertised.mem_replaceAll_or ha
            · cases hnil
            · exact ha
        obtain hdisc | ⟨portBound, world, game, ad, rfl, hworld, hdisc⟩ := hown
        · rw [hdisc] at ha
          exact hold a (hsub ha)
        · rw [hdisc] at ha
          obtain rfl | ha := Advertised.mem_advertise_or ha
          · exact Or.inl ⟨rfl, _, List.mem_cons_self, game, hworld⟩
          · exact hold a (hsub ha)
      · rw [hdisc] at ha
        obtain hmem | ha := Advertised.mem_replaceAll_or ha
        · exact Or.inr ((fetched_announced hr hs hmem).cons _)
        · exact hold a ha
    · rw [hn] at ha
      exact hold a ha

theorem advertised_fetched {hosts : List AdvertisedServer} {now : Nat} {reached : Bool}
    (hr : Run (Net.machine id build) h w) (hb : ∀ id data, (build id data).isSome)
    (hs : w.step id build (.node (.fetched (some hosts)) now reached) = some w')
    (hn : (hosts.map (fun r => r.senderId)).Nodup) (a : AdvertisedServer) :
    a ∈ w'.session.node.discovery.advertised ↔ a ∈ hosts := by
  obtain ⟨-, s, hn', rfl⟩ := nodeStep_iff hs
  obtain ⟨n', out, hm, har⟩ := node_cases hn'
  have hnode : s.node = n' := by cases har <;> rfl
  have hdisc : s.node.discovery = w.session.node.discovery.replaceAll build hosts := by
    rw [hnode]
    cases hm with
    | fetched _ _ => rfl
  dsimp only
  rw [hdisc, Advertised.advertised_replaceAll_nodup hb (run_coherent hr) hn]

/-- What `fetch_host_list` returns is the directory of the server, record by
record, as it was at one instant while this very call was waiting, and when
everything marshals the local game is offered just that. -/
theorem fetched_listing {hosts : List AdvertisedServer} {now : Nat} {reached : Bool}
    (hr : Run (Net.machine id build) h w) (hd : DistinctAddrs (serverEvents h))
    (hs : w.step id build (.node (.fetched (some hosts)) now reached) = some w') :
    ∃ c post e early d, h = post ++ e :: early ∧ (∀ e' ∈ e :: post, Waiting e'.pre c) ∧
      DirectoryAt early e d ∧ d.Lists (fun r => r.senderId) hosts ∧
      ((∀ id data, (build id data).isSome) → ∀ a,
        a ∈ w'.session.node.discovery.advertised ↔ ∃ owner, d.entry a.senderId = some (owner, a)) := by
  obtain ⟨c, post, e, early, d, rfl, hwait, hdir, hlist⟩ := fetched_during hr hd hs
  refine ⟨c, post, e, early, d, rfl, hwait, hdir, hlist, fun hb a => ?_⟩
  rw [advertised_fetched hr hb hs hlist.1]
  exact hlist.2 a

theorem fetched_listing_browsing :
    ((replay sample browsing).2.step 9 Client.plainPacket
      (.node (.fetched (some [⟨7, default⟩])) 21 false)).isSome ∧
    ∃ c post e early d, (replay sample browsing).1 = post ++ e :: early ∧
      (∀ e' ∈ e :: post, Waiting e'.pre c) ∧ DirectoryAt early e d ∧
      d.Lists (fun r => r.senderId) [⟨7, default⟩] := by
  have hs : ((replay sample browsing).2.step 9 Client.plainPacket
      (.node (.fetched (some [⟨7, default⟩])) 21 false)).isSome := by decide +kernel
  obtain ⟨w', hw'⟩ := Option.isSome_iff_exists.mp hs
  obtain ⟨c, post, e, early, d, he, hwait, hdir, hlist, -⟩ :=
    fetched_listing browsing_run browsing_distinctAddrs hw'
  exact ⟨hs, c, post, e, early, d, he, hwait, hdir, hlist⟩

def browsed : List Label := browsing ++ [.node (.fetched (some [⟨7, default⟩])) 21 false]

theorem offered_worlds_browsed :
    ⟨7, default⟩ ∈ (replay sample browsed).2.session.node.discovery.advertised ∧
      (OwnWorld 9 (replay sample browsed).1 ⟨7, default⟩ ∨
        Announced (replay sample browsed).1 ⟨7, default⟩) := by
  have hr : Run (Net.machine 9 Client.plainPacket) (replay sample browsed).1
    (replay sample browsed).2 := replay_run browsed
  have hm : ⟨7, default⟩ ∈ (replay sample browsed).2.session.node.discovery.advertised := by
    decide +kernel
  exact ⟨hm, offered_worlds hr _ hm⟩

end Mineshaft.Browsing
