import Mineshaft.Browsing.Network
import Mineshaft.Server.Directory

namespace Mineshaft.Browsing

open Mineshaft.Core Mineshaft.Lib Mineshaft.Lib.Transition
open Mineshaft.Client (Node Session Link Reads ReaderPc hostLists hostLists_append popHostList_spec)
open Mineshaft.Client.Session (Around node_cases reader_cases setLink_links abort_links
  request_links stored_frame)
open Mineshaft.Server (ConnId View Effect Entry queue_determined listHosts_inv step_effect regAfter)

section Server

open Mineshaft.Server

def Announces (l : Server.Label) (a : AdvertisedServer) : Prop :=
  ∃ c, l = .handle c (.registerHost a) ∨ l = .handle c (.updateHost a)

theorem records_step {v v' : View} {l : Server.Label} (he : Effect v l v') {id : UInt64}
    {a : AdvertisedServer} (hl : v'.reg.hostRecords.lookup id = some a) :
    Announces l a ∨ v.reg.hostRecords.lookup id = some a := by
  cases he with
  | accept | insert | openSession | read | listHosts | sendTo | leave | write | closeRx =>
    exact Or.inr hl
  | cleanup =>
    rw [Registry.cleanup_hostRecords] at hl
    split at hl
    · cases hl
    · exact Or.inr hl
  | @handle c addr msg =>
    cases msg with
    | registerHost r =>
      rw [regAfter, Registry.registerHost_hostRecords] at hl
      split at hl
      · cases hl
        exact Or.inl ⟨c, Or.inl rfl⟩
      · exact Or.inr hl
    | updateHost r =>
      rw [regAfter, Registry.updateHost_hostRecords] at hl
      split at hl
      · cases hl
        exact Or.inl ⟨c, Or.inr rfl⟩
      · exact Or.inr hl
    | unregisterHost i =>
      rw [regAfter, Registry.unregisterHost_hostRecords] at hl
      split at hl
      · cases hl
      · exact Or.inr hl
    | signal t k n d =>
      rw [regAfter, (Registry.routeSignal_hosts _ _ _ _).2] at hl
      exact Or.inr hl
    | ping | listHosts | connectRequest => exact Or.inr hl

variable {h : List Server.Event} {s : State}

theorem records_announced (hr : Server.Run h s) {id : UInt64} {a : AdvertisedServer}
    (hl : s.reg.hostRecords.lookup id = some a) : ∃ e ∈ h, Announces e.label a := by
  induction hr with
  | nil => cases hl
  | cons _ hs ih =>
    obtain ha | hl := records_step (step_effect hs) hl
    · exact ⟨_, List.mem_cons_self, ha⟩
    · obtain ⟨e, he, ha⟩ := ih hl
      exact ⟨e, List.mem_cons_of_mem _ he, ha⟩

theorem queued_announced (hr : Server.Run h s) {d : ConnId} {x : Entry} (hx : x ∈ s.queue d)
    {hosts : List AdvertisedServer} (hm : x.msg = .hostList hosts) {a : AdvertisedServer}
    (ha : a ∈ hosts) : ∃ e ∈ h, Announces e.label a := by
  obtain ⟨dest, hd⟩ := queue_determined hr hx
  rw [hm] at hd
  obtain ⟨e, he, ho⟩ := mem_collect.mp hd
  unfold outputs at ho
  split at ho
  · obtain ⟨addr, -, ho⟩ := List.mem_flatMap.mp ho
    obtain ⟨early, hsub, hrun⟩ := hr.of_mem he
    obtain ⟨s', hs, -⟩ := hr.post_mem he
    have hl := (mem_labelOutputs ho).2
    change Server.step e.pre e.label = some s' at hs
    rw [hl] at hs
    obtain ⟨-, -, hp⟩ := listHosts_inv hs
    obtain ⟨id, hid⟩ := (HashMap.mem_values _ _).mp (hp.mem_iff.mp ha)
    obtain ⟨e', he', ha'⟩ := records_announced hrun hid
    exact ⟨e', hsub he', ha'⟩
  · cases ho

end Server

variable {id : UInt64} {build : UInt64 → ServerAdvertisement → Option (List UInt8)}
variable {h : List Event} {w w' : Net}

def Announced (h : List Event) (a : AdvertisedServer) : Prop :=
  ∃ e ∈ h, ∃ c, e.label = .server (.handle c (.registerHost a)) ∨
    e.label = .server (.handle c (.updateHost a))

theorem Announced.cons {a : AdvertisedServer} (ha : Announced h a) (e : Event) :
    Announced (e :: h) a := by
  obtain ⟨e', he', hl⟩ := ha
  exact ⟨e', List.mem_cons_of_mem _ he', hl⟩

theorem announced_of_server {a : AdvertisedServer}
    (ha : ∃ e ∈ serverEvents h, Announces e.label a) : Announced h a := by
  obtain ⟨e, he, c, hl⟩ := ha
  obtain ⟨⟨w, l⟩, hmem, hev⟩ := List.mem_filterMap.mp he
  cases l with
  | server l =>
    cases hev
    refine ⟨_, hmem, c, ?_⟩
    obtain hl | hl := hl
    · exact Or.inl (congrArg _ hl)
    · exact Or.inr (congrArg _ hl)
  | node | reader | forward => cases hev

/-- The messages of the server that the main loop has not taken. -/
def inTransit (l : Link) : List ServerMessage := l.ahead ++ l.channel ++ l.reader.inHand

theorem reads_inTransit {l l' : Link} {r : Client.ReaderStep} (hr : Reads l r l') :
    hostLists (inTransit l') ⊆ hostLists (inTransit l) := by
  intro hosts hm
  simp only [inTransit, hostLists_append, List.mem_append] at hm ⊢
  cases hr with
  | @read msg rest hw _ ha =>
    have hahead : hostLists l.ahead = hostLists [msg] ++ hostLists rest := by
      rw [ha, ← List.singleton_append, hostLists_append]
    simp only [hw, hahead, ReaderPc.inHand, List.mem_append] at hm ⊢
    tauto
  | fail hw _ | note hw | injected hw _ | leave hw | signalled hw _ | passed hw _ =>
    simp only [hw, ReaderPc.inHand] at hm ⊢
    tauto
  | listed hw =>
    simp only [hw, ReaderPc.inHand, hostLists_append, List.mem_append] at hm ⊢
    tauto

/-- The worlds in the host lists that are on their way were announced. -/
def Spread (h : List Event) (w : Net) : Prop :=
  ∀ c, ∀ hosts ∈ hostLists (inTransit (w.session.links c)), ∀ a ∈ hosts, Announced h a

theorem Spread.mono (hi : Spread h w) (e : Event)
    (hsub : ∀ c, hostLists (inTransit (w'.session.links c)) ⊆
      hostLists (inTransit (w.session.links c))) : Spread (e :: h) w' :=
  fun c hosts hm a ha => (hi c hosts (hsub c hm) a ha).cons e

theorem node_inTransit {l : Client.Label} {now : Nat} {reached : Bool} {s : Session}
    (hs : w.session.step id build (.node l now reached) = some s) (c : ConnId) :
    hostLists (inTransit (s.links c)) ⊆ hostLists (inTransit (w.session.links c)) := by
  obtain ⟨n', out, -, har⟩ := node_cases hs
  cases har with
  | top _ =>
    dsimp only
    obtain hl | hl := abort_links w.session c <;> rw [hl] <;> exact List.Subset.refl _
  | connect _ =>
    dsimp only
    rw [setLink_links]
    split
    · exact List.nil_subset _
    · exact List.Subset.refl _
  | write =>
    dsimp only
    obtain hl | hl := request_links w.session _ c <;> rw [hl] <;> exact List.Subset.refl _
  | @received hosts d rest hin hp =>
    dsimp only
    rw [setLink_links]
    split
    next hc =>
      subst hc
      simp only [inTransit, hostLists_append, popHostList_spec hp]
      intro x hx
      simp only [List.mem_append, List.mem_cons] at hx ⊢
      tauto
    · exact List.Subset.refl _
  | other => exact List.Subset.refl _

theorem arrive_inTransit (w : Net) (l : Server.Label) (c : ConnId) {hosts : List AdvertisedServer}
    (hm : hosts ∈ hostLists (inTransit ((w.arrive l).session.links c))) :
    hosts ∈ hostLists (inTransit (w.session.links c)) ∨ .hostList hosts ∈ queued w.server c := by
  unfold Net.arrive at hm
  split at hm
  next d =>
    split at hm
    next msg hmsg =>
      split at hm
      · rw [Net.deliver, setLink_links] at hm
        split at hm
        next hc =>
          subst hc
          simp only [inTransit, hostLists_append, List.mem_append] at hm ⊢
          by_cases hlist : hosts ∈ hostLists [msg]
          · have hmem : msg ∈ queued w.server c := List.mem_of_getElem? hmsg
            obtain ⟨m, hm', he⟩ := List.mem_filterMap.mp hlist
            obtain rfl := List.mem_singleton.mp hm'
            cases m <;> cases he
            exact Or.inr hmem
          · tauto
        · exact Or.inl hm
      · exact Or.inl hm
    · exact Or.inl hm
  · exact Or.inl hm

theorem run_spread (hr : Run (Net.machine id build) h w) : Spread h w := by
  induction hr with
  | nil =>
    intro c hosts hm
    cases hm
  | @cons h w w' l hr hs ih =>
    have hs : w.step id build l = some w' := hs
    cases l with
    | node l now reached =>
      obtain ⟨-, s, hn, rfl⟩ := nodeStep_iff hs
      exact ih.mono _ (fun c => node_inTransit hn c)
    | reader d r =>
      obtain ⟨s, hread, rfl⟩ := Option.map_eq_some_iff.mp hs
      have hread : (Session.machine id build).step w.session (.reader d r) = some s := hread
      obtain ⟨-, l, hl, rfl⟩ := reader_cases hread
      refine ih.mono _ (fun c => ?_)
      rw [setLink_links, (stored_frame w.session r).2.2.2]
      split
      next hc =>
        subst hc
        exact reads_inTransit hl
      · exact List.Subset.refl _
    | forward d t i n data =>
      change (if d ∈ w.session.opened then _ else none) = some w' at hs
      split at hs <;> cases hs
      exact ih.mono _ (fun c => List.Subset.refl _)
    | server l =>
      obtain ⟨s', -, ⟨_, _, _, _, _, _, rfl⟩ | ⟨-, rfl⟩⟩ := serverStep_iff hs
      · exact ih.mono _ (fun c => List.Subset.refl _)
      · intro c hosts hm a ha
        obtain hm | hq := arrive_inTransit w l c hm
        · exact (ih c hosts hm a ha).cons _
        · obtain ⟨x, hx, hmsg⟩ := List.mem_map.mp hq
          exact (announced_of_server (queued_announced (server_run hr) hx hmsg ha)).cons _

theorem fetched_announced (hr : Run (Net.machine id build) h w) {hosts : List AdvertisedServer}
    {now : Nat} {reached : Bool}
    (hs : w.step id build (.node (.fetched (some hosts)) now reached) = some w')
    {a : AdvertisedServer} (ha : a ∈ hosts) : Announced h a := by
  obtain ⟨-, s, hn, -⟩ := nodeStep_iff hs
  obtain ⟨n', out, -, har⟩ := node_cases hn
  cases har with
  | @received _ c rest hin hp =>
    refine run_spread hr c hosts ?_ a ha
    simp [inTransit, hostLists_append, popHostList_spec hp]
  | other _ _ _ hf => exact absurd rfl (hf hosts)

end Mineshaft.Browsing
