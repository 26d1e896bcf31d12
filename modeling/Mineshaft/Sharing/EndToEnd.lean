import Mineshaft.Sharing.Network

namespace Mineshaft.Sharing

open Mineshaft.Core Mineshaft.Lib Mineshaft.Lib.Transition
open Mineshaft.Client (GameState World)
open Mineshaft.Hosting (Serves Steady NotUsurped Quiet nodeSteps)
open Mineshaft.Server (ConnId DistinctAddrs)

variable {host id : UInt64} {build : UInt64 → ServerAdvertisement → Option (List UInt8)}
variable {h : List Event} {w w' : Net} {c : ConnId}

def Asks (e : Event) : Prop :=
  match e.label with
  | .node (.write _) _ _ => e.pre.session.node.pc = .fetching
  | .node (.top _ _) _ _ | .node (.connect _) _ _ | .node (.detect _ _) _ _
  | .node (.fetched _) _ _ | .node (.beat _) _ _ => False
  | .host _ | .hostForward _ _ _ _ _ | .reader _ _ | .forward _ _ _ _ _ | .server _ => False

instance : DecidablePred Asks
  | ⟨w, .node (.write _) _ _⟩ => inferInstanceAs (Decidable (w.session.node.pc = .fetching))
  | ⟨_, .node (.top _ _) _ _⟩ | ⟨_, .node (.connect _) _ _⟩ | ⟨_, .node (.detect _ _) _ _⟩
  | ⟨_, .node (.fetched _) _ _⟩ | ⟨_, .node (.beat _) _ _⟩ => inferInstanceAs (Decidable False)
  | ⟨_, .host _⟩ | ⟨_, .hostForward _ _ _ _ _⟩ | ⟨_, .reader _ _⟩ | ⟨_, .forward _ _ _ _ _⟩
  | ⟨_, .server _⟩ => inferInstanceAs (Decidable False)

theorem asks_iff {e : Event} : Asks e ↔
    (∃ ok now reached, e.label = .node (.write ok) now reached) ∧
      e.pre.session.node.pc = .fetching := by
  obtain ⟨w, l⟩ := e
  cases l with
  | node l now reached => cases l <;> simp [Asks]
  | host | hostForward | reader | forward | server => simp [Asks]

theorem serves_step {l : Label} (hs : w.step host id build l = some w') (h : Serves w'.server c) :
    Serves w.server c := by
  cases step_sees hs with
  | hosting _ _ _ hsame =>
    have he : w'.server = w.server := congrArg Browsing.Net.server hsame
    rwa [he] at h
  | browsing _ _ _ hsame =>
    have he : w'.server = w.server := congrArg Hosting.Net.server hsame
    rwa [he] at h
  | server _ _ hstep => exact h.before hstep

theorem serves_back {post early : List Event} {e : Event}
    (hr : Run (Net.machine host id build) (post ++ e :: early) w) (h : Serves w.server c) :
    Serves e.pre.server c := by
  induction post generalizing w with
  | nil =>
    cases hr with
    | cons _ hs => exact serves_step hs h
  | cons a post ih =>
    cases hr with
    | cons hr hs => exact ih hr (serves_step hs h)

theorem browsingEvent_pre {e : Event} {e' : Browsing.Event} (h : browsingEvent e = some e') :
    e'.pre = e.pre.browsing := by
  obtain ⟨v, l⟩ := e
  cases l with
  | host | hostForward => cases h
  | node | reader | forward | server =>
    cases h
    rfl

theorem fetched_instant {hosts : List AdvertisedServer} {now : Nat} {reached : Bool}
    (hr : Run (Net.machine host id build) h w) (hd : DistinctAddrs (serverEvents h))
    (hs : w.browsing.step id build (.node (.fetched (some hosts)) now reached) = some w'.browsing) :
    ∃ post e early, h = post ++ e :: early ∧ (∀ e' ∈ e :: post, ¬ Asks e') ∧
      (hosts.map (fun r => r.senderId)).Nodup ∧
      ∀ a, a ∈ hosts ↔ e.pre.server.reg.hostRecords.lookup a.senderId = some a := by
  rw [← serverEvents_browsing] at hd
  obtain ⟨c, post, e, early, d, hsplit, hwait, ⟨-, -, -, hsh⟩, hlist⟩ :=
    Browsing.fetched_during (browsing_run hr) hd hs
  obtain ⟨l₁, l₂, rfl, hpost, hrest⟩ := List.filterMap_eq_append_iff.mp hsplit
  obtain ⟨skipped, e₀, l₃, rfl, hskip, he₀, -⟩ := List.filterMap_eq_cons_iff.mp hrest
  refine ⟨l₁ ++ skipped, e₀, l₃, by simp, ?_, hlist.1, ?_⟩
  · intro e' he' hasks
    obtain ⟨⟨ok, now', reached', hl⟩, hpc⟩ := asks_iff.mp hasks
    have hev : browsingEvent e' = some ⟨e'.pre.browsing, .node (.write ok) now' reached'⟩ := by
      rw [browsingEvent, hl]
    have hmem : (⟨e'.pre.browsing, .node (.write ok) now' reached'⟩ : Browsing.Event) ∈ e :: post := by
      obtain rfl | he' := List.mem_cons.mp he'
      · rw [he₀] at hev
        rw [Option.some.inj hev]
        exact List.mem_cons_self
      · obtain he' | he' := List.mem_append.mp he'
        · refine List.mem_cons_of_mem _ ?_
          rw [← hpost]
          exact List.mem_filterMap.mpr ⟨e', he', hev⟩
        · rw [hskip e' he'] at hev
          cases hev
    have hp : e'.pre.session.node.pc = .awaiting := (hwait _ hmem).1
    rw [hpc] at hp
    cases hp
  · intro a
    have hpre : e.pre.server = e₀.pre.server := congrArg Browsing.Net.server (browsingEvent_pre he₀)
    rw [hlist.2 a, ← hpre, (hsh.lookups a.senderId).2, Option.map_eq_some_iff]
    constructor
    · rintro ⟨m, hm⟩
      exact ⟨(m, a), hm, rfl⟩
    · rintro ⟨⟨m, r⟩, hm, rfl⟩
      exact ⟨m, hm⟩

theorem split_after {α : Type} {xs ys zs us : List α} {a e : α}
    (h : xs ++ a :: ys = zs ++ e :: us) (ha : a ∉ e :: zs) :
    ∃ mid, xs = zs ++ e :: mid ∧ us = mid ++ a :: ys := by
  obtain ⟨as, rfl, has⟩ | ⟨cs, rfl, hcs⟩ := List.append_eq_append_iff.mp h
  · cases as with
    | nil =>
      simp only [List.nil_append, List.cons.injEq] at has
      exact absurd (by simp [has.1]) ha
    | cons b as =>
      simp only [List.cons_append, List.cons.injEq] at has
      exact absurd (by simp [has.1]) ha
  · cases cs with
    | nil =>
      simp only [List.nil_append, List.cons.injEq] at hcs
      exact absurd (by simp [hcs.1]) ha
    | cons b cs =>
      simp only [List.cons_append, List.cons.injEq] at hcs
      obtain ⟨rfl, rfl⟩ := hcs
      exact ⟨cs, rfl, rfl⟩

theorem run_recorded {mid settle early : List Event} {asked : Event}
    {game : GameState × Option World}
    (hr : Run (Net.machine host id build) (mid ++ asked :: (settle ++ early)) w)
    (hd : DistinctAddrs (serverEvents (mid ++ asked :: (settle ++ early))))
    (hu : ∀ e ∈ (mid ++ asked :: (settle ++ early)).filterMap hostingEvent, NotUsurped host e)
    (hg : ∀ e ∈ (mid ++ asked :: settle).filterMap hostingEvent, Steady game e)
    (hn : 9 ≤ nodeSteps (settle.filterMap hostingEvent)) (hq : Quiet host asked.pre.hosting c)
    (hserves : Serves w.server c) :
    w.server.reg.hostRecords.lookup host = game.2.map (fun world => ⟨host, world.2⟩) := by
  have hlate : (mid ++ asked :: (settle ++ early)).filterMap hostingEvent =
      (mid ++ [asked]).filterMap hostingEvent ++
        (settle.filterMap hostingEvent ++ early.filterMap hostingEvent) := by
    simp only [← List.filterMap_append, List.append_assoc, List.singleton_append]
  have hr₀ := hosting_run hr.split.1
  have hr₁ := hosting_run hr
  rw [List.filterMap_append] at hr₀
  rw [← serverEvents_hosting] at hd
  rw [hlate] at hr₁ hd hu
  refine Hosting.run_listed hr₀ hr₁ hd hu ?_ hn hq hserves
  rw [← List.filterMap_append, List.append_assoc, List.singleton_append]
  exact hg

/-- A world is shared. After any run of two nodes and the server, let the
environment of the one be steady for nine steps of its main loop and let nothing
about its registration be under way. When the other node asks for the hosts from
then on and gets an answer while the server serves the one, it offers under the
id of the one exactly the world that its game hosts, or nothing when there is
none. -/
theorem shared_world {wait settle early : List Event} {asked : Event}
    {game : GameState × Option World} {hosts : List AdvertisedServer} {now : Nat} {reached : Bool}
    (hr : Run (Net.machine host id build) (wait ++ asked :: (settle ++ early)) w)
    (hd : DistinctAddrs (serverEvents (wait ++ asked :: (settle ++ early))))
    (hu : ∀ e ∈ (wait ++ asked :: (settle ++ early)).filterMap hostingEvent, NotUsurped host e)
    (hg : ∀ e ∈ (wait ++ asked :: settle).filterMap hostingEvent, Steady game e)
    (hn : 9 ≤ nodeSteps (settle.filterMap hostingEvent)) (hq : Quiet host asked.pre.hosting c)
    (hasks : Asks asked) (hserves : Serves w.server c) (hb : ∀ id data, (build id data).isSome)
    (hs : w.step host id build (.node (.fetched (some hosts)) now reached) = some w') :
    ∀ a, a.senderId = host → (a ∈ w'.session.node.discovery.advertised ↔
      game.2.map (fun world => world.2) = some a.data) := by
  have hfetch : w.browsing.step id build (.node (.fetched (some hosts)) now reached) =
      some w'.browsing := by
    cases step_sees hs with
    | hosting he => cases he
    | browsing _ he hstep =>
      cases he
      exact hstep
  obtain ⟨post, e, before, hsplit, hnot, hnodup, hlists⟩ := fetched_instant hr hd hfetch
  -- the list was taken after the request
  obtain ⟨mid, rfl, rfl⟩ := split_after hsplit (fun hm => hnot asked hm hasks)
  have hbefore : Run (Net.machine host id build) (mid ++ asked :: (settle ++ early)) e.pre := by
    rw [hsplit] at hr
    exact hr.split.1
  have hlast : ∀ rest, (mid ++ asked :: rest).Sublist (post ++ e :: mid ++ asked :: rest) := by
    intro rest
    rw [List.append_assoc, List.cons_append]
    exact (List.sublist_cons_self _ _).trans (List.sublist_append_right _ _)
  have hrecord := run_recorded hbefore
    (fun e' he' => hd e' (((hlast _).filterMap _).subset he'))
    (fun e' he' => hu e' (((hlast _).filterMap _).subset he'))
    (fun e' he' => hg e' (((hlast _).filterMap _).subset he')) hn hq
    (serves_back (hsplit ▸ hr) hserves)
  intro a ha
  change a ∈ w'.browsing.session.node.discovery.advertised ↔ _
  rw [Browsing.advertised_fetched (browsing_run hr) hb hfetch hnodup, hlists, ha, hrecord]
  obtain ⟨senderId, data⟩ := a
  cases ha
  cases game.2 <;> simp

def settling : List Label :=
  [.host (.top false false), .host (.connect (some 0)), .server (.accept 0 (.v4 1 1)),
    .server (.insert 0), .host (.detect (.ok true) (some (5, default))), .host (.write true),
    .host (.beat false), .server (.read 0 (.registerHost ⟨7, default⟩)),
    .server (.handle 0 (.registerHost ⟨7, default⟩)), .server (.sendTo 0 (.v4 1 1) (.registered 7)),
    .host (.top false false), .host (.detect (.ok true) (some (5, default))), .host (.beat false),
    .node (.top true false) 0 false, .node (.connect (some 1)) 0 false,
    .server (.accept 1 (.v4 1 2)), .server (.insert 1), .node (.detect (.ok true) none) 0 false,
    .host (.top false false)]

def sharing : List Label :=
  settling ++ [.node (.write true) 0 false, .server (.read 1 .listHosts),
    .host (.detect (.ok true) (some (5, default))), .server (.listHosts 1 [⟨7, default⟩]),
    .server (.sendTo 1 (.v4 1 2) (.hostList [⟨7, default⟩])), .server (.write 1), .reader 1 .read,
    .reader 1 (.note 20), .reader 1 .handle]

def sample : Machine Net Label := Net.machine 7 9 Client.plainPacket

theorem sharing_length : 8 < (replay sample sharing).1.length := by decide +kernel

def asking : Event := (replay sample sharing).1.get ⟨8, sharing_length⟩

theorem shared_world_sharing :
    ∃ w', (replay sample sharing).2.step 7 9 Client.plainPacket
        (.node (.fetched (some [⟨7, default⟩])) 21 false) = some w' ∧
      ⟨7, default⟩ ∈ w'.session.node.discovery.advertised := by
  have hr : Run (Net.machine 7 9 Client.plainPacket) (replay sample sharing).1
    (replay sample sharing).2 := replay_run sharing
  have hd : DistinctAddrs (serverEvents (replay sample sharing).1) := by
    rw [← serverEvents_browsing]
    exact Server.distinctAddrs_of_nodup (Browsing.server_run (browsing_run hr)) (by decide +kernel)
  have hu : ∀ e ∈ (replay sample sharing).1.filterMap hostingEvent, NotUsurped 7 e := by
    decide +kernel
  have hsplit : (replay sample sharing).1.take 8 ++ asking ::
      ((replay sample sharing).1.drop 9 ++ []) = (replay sample sharing).1 := by
    rw [List.append_nil, asking, List.get_eq_getElem, List.getElem_cons_drop,
      List.take_append_drop]
  have hs : ((replay sample sharing).2.step 7 9 Client.plainPacket
      (.node (.fetched (some [⟨7, default⟩])) 21 false)).isSome := by decide +kernel
  obtain ⟨w', hw'⟩ := Option.isSome_iff_exists.mp hs
  refine ⟨w', hw', ?_⟩
  rw [← hsplit] at hr hd hu
  have hq : Quiet 7 asking.pre.hosting 0 :=
    ⟨by decide +kernel, by decide +kernel, by decide +kernel⟩
  have hg : ∀ e ∈ ((replay sample sharing).1.take 8 ++ asking ::
      (replay sample sharing).1.drop 9).filterMap hostingEvent,
      Steady (.hosting, some (5, default)) e := by decide +kernel
  exact (shared_world hr hd hu hg (by decide +kernel) hq (by decide +kernel)
    ⟨by decide +kernel, by decide +kernel⟩ (fun _ _ => rfl) hw' ⟨7, default⟩ rfl).mpr rfl

end Mineshaft.Sharing
