import Mineshaft.Client.Loop

namespace Mineshaft.Client

open Mineshaft.Core Mineshaft.Lib Mineshaft.Lib.Transition
open Mineshaft.Server (ConnId)

def carried : ClientMessage → Option ServerAdvertisement
  | .registerHost server | .updateHost server => some server.data
  | .unregisterHost _ | .listHosts | .connectRequest _ _ | .signal _ _ _ _ | .ping => none

def hostWrite (myNetworkId : UInt64)
    (buildResponsePacket : UInt64 → ServerAdvertisement → Option (List UInt8)) (c : ConnId)
    (e : Event) : List ClientMessage :=
  match wrote myNetworkId buildResponsePacket e with
  | some (d, msg) => if d = c ∧ (hostId msg).isSome then [msg] else []
  | none => []

def hostMessages (myNetworkId : UInt64)
    (buildResponsePacket : UInt64 → ServerAdvertisement → Option (List UInt8)) (c : ConnId)
    (h : List Event) : List ClientMessage :=
  collect (hostWrite myNetworkId buildResponsePacket c) h

def openRound (id : UInt64) (ad : ServerAdvertisement) (ads : List ServerAdvertisement) :
    List ClientMessage :=
  .registerHost ⟨id, ad⟩ :: ads.map (fun a => .updateHost ⟨id, a⟩)

/-- `RegisterHost`, any number of `UpdateHost` and `UnregisterHost`. -/
def IsRound (id : UInt64) (r : List ClientMessage) : Prop :=
  ∃ ad ads, r = openRound id ad ads ++ [.unregisterHost id]

inductive Orderly (id : UInt64) : List ClientMessage → Option ServerAdvertisement → Prop
  | nil : Orderly id [] none
  | register {l : List ClientMessage} (ad : ServerAdvertisement) :
      Orderly id l none → Orderly id (l ++ [.registerHost ⟨id, ad⟩]) (some ad)
  | update {l : List ClientMessage} {old : ServerAdvertisement} (ad : ServerAdvertisement) :
      Orderly id l (some old) → Orderly id (l ++ [.updateHost ⟨id, ad⟩]) (some ad)
  | unregister {l : List ClientMessage} {old : ServerAdvertisement} :
      Orderly id l (some old) → Orderly id (l ++ [.unregisterHost id]) none

theorem Orderly.ids {id : UInt64} {l : List ClientMessage} {st : Option ServerAdvertisement}
    (h : Orderly id l st) : ∀ msg ∈ l, hostId msg = some id := by
  induction h with
  | nil => simp
  | register ad _ ih | update ad _ ih | unregister _ ih =>
    intro msg hm
    obtain hm | hm := List.mem_append.mp hm
    · exact ih msg hm
    · rw [List.mem_singleton.mp hm]
      rfl

theorem Orderly.last {id : UInt64} {l : List ClientMessage} {st : Option ServerAdvertisement}
    (h : Orderly id l st) : l.getLast?.bind carried = st := by
  cases h with
  | nil => rfl
  | register ad _ | update ad _ | unregister _ =>
    rw [List.getLast?_concat]
    rfl

theorem Orderly.rounds {id : UInt64} {l : List ClientMessage} {st : Option ServerAdvertisement}
    (h : Orderly id l st) : ∃ rounds : List (List ClientMessage), (∀ r ∈ rounds, IsRound id r) ∧
      (st = none ∧ l = rounds.flatten ∨
        st.isSome ∧ ∃ ad ads, l = rounds.flatten ++ openRound id ad ads) := by
  induction h with
  | nil => exact ⟨[], by simp, Or.inl ⟨rfl, rfl⟩⟩
  | register ad _ ih =>
    obtain ⟨rounds, hr, ⟨-, rfl⟩ | ⟨hs, -⟩⟩ := ih
    · exact ⟨rounds, hr, Or.inr ⟨rfl, ad, [], rfl⟩⟩
    · cases hs
  | update ad _ ih =>
    obtain ⟨rounds, hr, ⟨hs, -⟩ | ⟨-, first, ads, rfl⟩⟩ := ih
    · cases hs
    · exact ⟨rounds, hr, Or.inr ⟨rfl, first, ads ++ [ad], by simp [openRound]⟩⟩
  | unregister _ ih =>
    obtain ⟨rounds, hr, ⟨hs, -⟩ | ⟨-, first, ads, rfl⟩⟩ := ih
    · cases hs
    · refine ⟨rounds ++ [openRound id first ads ++ [.unregisterHost id]], ?_, Or.inl ⟨rfl, ?_⟩⟩
      · intro r hm
        obtain hm | hm := List.mem_append.mp hm
        · exact hr r hm
        · exact ⟨first, ads, List.mem_singleton.mp hm⟩
      · simp

theorem Orderly.isPrefix {id : UInt64} {l : List ClientMessage} {st : Option ServerAdvertisement}
    (h : Orderly id l st) :
    ∃ rounds : List (List ClientMessage), (∀ r ∈ rounds, IsRound id r) ∧ l <+: rounds.flatten := by
  cases st with
  | none =>
    obtain ⟨rounds, hr, ⟨-, rfl⟩ | ⟨hs, -⟩⟩ := h.rounds
    · exact ⟨rounds, hr, List.prefix_refl _⟩
    · cases hs
  | some ad =>
    -- the round that is not over can be closed
    obtain ⟨rounds, hr, ⟨-, hl⟩ | ⟨hs, -⟩⟩ := (Orderly.unregister h).rounds
    · exact ⟨rounds, hr, by rw [← hl]; exact List.prefix_append _ _⟩
    · cases hs

theorem applied_of_hostId_none {id : UInt64} {ad : Option ServerAdvertisement} {msg : ClientMessage}
    (h : hostId msg = none) : applied id ad msg = ad := by
  cases msg with
  | registerHost server | updateHost server | unregisterHost senderId => cases h
  | listHosts | connectRequest _ _ | signal _ _ _ _ | ping => rfl

section Runs

variable {myNetworkId : UInt64}
variable {buildResponsePacket : UInt64 → ServerAdvertisement → Option (List UInt8)}

theorem Node.Knows.belief_isSome {n : Node} (hk : n.Knows) (hreg : n.hostingRegistered = true) :
    ∃ ad, n.belief = some ad := by
  obtain ⟨ad, had⟩ := Option.isSome_iff_exists.mp (hk hreg)
  exact ⟨ad, by rw [Node.belief, if_pos hreg, had]⟩

theorem written_orderly {h : List Event} {n n' : Node} {l : Label}
    {out : Option (ConnId × ClientMessage)} (hp : Placed h n) (hk : n.Knows)
    (hm : Moves myNetworkId buildResponsePacket n l n' out) {c : ConnId} {msg : ClientMessage}
    (hout : out = some (c, msg)) (hid : (hostId msg).isSome) {l : List ClientMessage}
    (ho : Orderly myNetworkId l n.belief) :
    Orderly myNetworkId (l ++ [msg]) (applied myNetworkId n.belief msg) := by
  have hun (hreg : n.hostingRegistered = true) :
      Orderly myNetworkId (l ++ [.unregisterHost myNetworkId])
        (applied myNetworkId n.belief (.unregisterHost myNetworkId)) := by
    obtain ⟨old, hb⟩ := hk.belief_isSome hreg
    rw [hb] at ho ⊢
    simpa [applied] using Orderly.unregister ho
  cases hm with
  | closedSent ok hpc =>
    rw [sendOrDrop_wrote hout]
    exact hun (hp.closing hpc).2
  | leftSent ok hpc =>
    rw [sendOrDrop_wrote hout]
    exact hun (hp.leaving hpc).2
  | published ad msg' ok hpc hmsg =>
    rw [sendOrDrop_wrote hout, hmsg]
    cases hreg : n.hostingRegistered with
    | false =>
      have hb : n.belief = none := by rw [Node.belief, hreg]; rfl
      rw [hb] at ho ⊢
      simpa [applied] using Orderly.register ad ho
    | true =>
      obtain ⟨old, hb⟩ := hk.belief_isSome hreg
      rw [hb] at ho ⊢
      simpa [applied] using Orderly.update ad ho
  | asked ok hpc | pinged ok hpc =>
    rw [sendOrDrop_wrote hout] at hid
    cases hid
  | lost _ _ _ | alive _ _ _ | offline _ _ | connected _ _ | refused _ | closing _ _ _ | closed _ _ _
  | publishing _ _ _ _ | hosting _ _ _ _ _ | leaving _ _ _ | browsing _ _ _ | fetched _ _
  | unanswered _ | beat _ _ => cases hout

variable (myNetworkId buildResponsePacket) in
/-- The host messages of every connection are in a proper order, and those of
the current one lead to what the node believes. -/
structure Disciplined (h : List Event) (s : Loop) : Prop where
  placed : Placed h s.node
  knows : s.node.Knows
  opened : ∀ c, s.node.server = some c → c ∈ s.opened
  unused : ∀ c, c ∉ s.opened → hostMessages myNetworkId buildResponsePacket c h = []
  orderly : ∀ c, ∃ st, Orderly myNetworkId (hostMessages myNetworkId buildResponsePacket c h) st
  current : ∀ c, s.node.server = some c →
    Orderly myNetworkId (hostMessages myNetworkId buildResponsePacket c h) s.node.belief

theorem hostMessages_cons {e : Event} {h : List Event} {out : Option (ConnId × ClientMessage)}
    (he : wrote myNetworkId buildResponsePacket e = out) (c : ConnId)
    (hc : ∀ msg, out = some (c, msg) → hostId msg = none) :
    hostMessages myNetworkId buildResponsePacket c (e :: h) =
      hostMessages myNetworkId buildResponsePacket c h := by
  have hw : hostWrite myNetworkId buildResponsePacket c e = [] := by
    rw [hostWrite, he]
    split
    · rw [if_neg]
      rintro ⟨rfl, hid⟩
      rw [hc _ rfl] at hid
      cases hid
    · rfl
  rw [hostMessages, collect, hw, List.append_nil]
  rfl

theorem hostMessages_wrote {e : Event} {h : List Event} {c : ConnId} {msg : ClientMessage}
    (he : wrote myNetworkId buildResponsePacket e = some (c, msg)) (hid : (hostId msg).isSome) :
    hostMessages myNetworkId buildResponsePacket c (e :: h) =
      hostMessages myNetworkId buildResponsePacket c h ++ [msg] := by
  have hw : hostWrite myNetworkId buildResponsePacket c e = [msg] := by
    rw [hostWrite, he]
    exact if_pos ⟨rfl, hid⟩
  rw [hostMessages, collect, hw]
  rfl

theorem Disciplined.frame {h : List Event} {s s' : Loop} {e : Event}
    {out : Option (ConnId × ClientMessage)} (hi : Disciplined myNetworkId buildResponsePacket h s)
    (he : wrote myNetworkId buildResponsePacket e = out)
    (hout : ∀ c msg, out = some (c, msg) → hostId msg = none) (hp : Placed (e :: h) s'.node)
    (hk : s'.node.Knows) (ho : s'.opened = s.opened)
    (hs : ∀ c, s'.node.server = some c → s.node.server = some c ∧ s'.node.belief = s.node.belief) :
    Disciplined myNetworkId buildResponsePacket (e :: h) s' := by
  have hsame := fun c => hostMessages_cons (h := h) he c (hout c)
  constructor
  · exact hp
  · exact hk
  · intro c hc
    rw [ho]
    exact hi.opened c (hs c hc).1
  · intro c hc
    rw [ho] at hc
    rw [hsame]
    exact hi.unused c hc
  · intro c
    rw [hsame]
    exact hi.orderly c
  · intro c hc
    rw [hsame, (hs c hc).2]
    exact hi.current c (hs c hc).1

theorem Disciplined.connect {h : List Event} {s s' : Loop} {e : Event} {c : ConnId}
    (hi : Disciplined myNetworkId buildResponsePacket h s)
    (he : wrote myNetworkId buildResponsePacket e = none) (hp : Placed (e :: h) s'.node)
    (hc : c ∉ s.opened) (ho : s'.opened = c :: s.opened) (hs : s'.node.server = some c)
    (hb : s'.node.belief = none) (hk : s'.node.Knows) :
    Disciplined myNetworkId buildResponsePacket (e :: h) s' := by
  have hsame := fun d => hostMessages_cons (h := h) he d (fun _ hout => nomatch hout)
  constructor
  · exact hp
  · exact hk
  · intro d hd
    rw [ho]
    rw [hs] at hd
    cases hd
    exact List.mem_cons_self
  · intro d hd
    rw [ho] at hd
    rw [hsame]
    exact hi.unused d (fun hm => hd (List.mem_cons_of_mem _ hm))
  · intro d
    rw [hsame]
    exact hi.orderly d
  · intro d hd
    rw [hs] at hd
    cases hd
    rw [hsame, hi.unused c hc, hb]
    exact Orderly.nil

theorem Disciplined.wrote {h : List Event} {s s' : Loop} {e : Event} {c : ConnId}
    {msg : ClientMessage} (hi : Disciplined myNetworkId buildResponsePacket h s)
    (he : wrote myNetworkId buildResponsePacket e = some (c, msg)) (hid : (hostId msg).isSome)
    (hp : Placed (e :: h) s'.node) (hk : s'.node.Knows) (ho : s'.opened = s.opened)
    (hs : s.node.server = some c) (hs' : s'.node.server = some c)
    (hord : Orderly myNetworkId (hostMessages myNetworkId buildResponsePacket c h ++ [msg])
      s'.node.belief) :
    Disciplined myNetworkId buildResponsePacket (e :: h) s' := by
  have hcur := hostMessages_wrote (h := h) he hid
  have hsame : ∀ d, d ≠ c → hostMessages myNetworkId buildResponsePacket d (e :: h) =
      hostMessages myNetworkId buildResponsePacket d h := by
    intro d hd
    refine hostMessages_cons he d ?_
    rintro msg' hout
    cases hout
    exact absurd rfl hd
  constructor
  · exact hp
  · exact hk
  · intro d hd
    rw [hs'] at hd
    cases hd
    rw [ho]
    exact hi.opened c hs
  · intro d hd
    rw [ho] at hd
    rw [hsame d (fun h => hd (h ▸ hi.opened c hs))]
    exact hi.unused d hd
  · intro d
    by_cases hd : d = c
    · subst hd
      exact ⟨_, hcur ▸ hord⟩
    · rw [hsame d hd]
      exact hi.orderly d
  · intro d hd
    rw [hs'] at hd
    cases hd
    rw [hcur]
    exact hord

theorem Disciplined.init : Disciplined myNetworkId buildResponsePacket []
    (Loop.machine myNetworkId buildResponsePacket).init := by
  constructor
  · exact placed_outside (Or.inl rfl)
  · intro hreg
    cases hreg
  · intro c hc
    cases hc
  · intro c _
    rfl
  · intro c
    exact ⟨none, Orderly.nil⟩
  · intro c hc
    cases hc

theorem Disciplined.step {h : List Event} {s s' : Loop} {l : Label}
    (hi : Disciplined myNetworkId buildResponsePacket h s)
    (hs : s.step myNetworkId buildResponsePacket l = some s') :
    Disciplined myNetworkId buildResponsePacket (⟨s, l⟩ :: h) s' := by
  obtain ⟨out, hn, hopen⟩ := loop_cases hs
  have hm := step_cases hn
  have hp : Placed (⟨s, l⟩ :: h) s'.node := hi.placed.step hm
  have he : Client.wrote myNetworkId buildResponsePacket ⟨s, l⟩ = out := wrote_eq hn
  obtain ⟨c, rfl, hc, ho⟩ | ⟨hl, ho⟩ := hopen
  · obtain ⟨hsrv, hb, hk, rfl⟩ := connect_belief hn
    exact hi.connect he hp hc ho hsrv hb hk
  · obtain ⟨hch, hk⟩ := step_changes hi.knows hl hn
    cases hch with
    | dropped hsrv =>
      refine hi.frame he (fun _ _ hout => nomatch hout) hp hk ho ?_
      intro c hc
      rw [hsrv] at hc
      cases hc
    | quiet hsrv hb =>
      exact hi.frame he (fun _ _ hout => nomatch hout) hp hk ho (fun c hc => ⟨hsrv ▸ hc, hb⟩)
    | @wrote c msg hsrv hsrv' hb =>
      by_cases hid : (hostId msg).isSome
      · refine hi.wrote he hid hp hk ho hsrv hsrv' ?_
        rw [hb]
        exact written_orderly hi.placed hi.knows hm rfl hid (hi.current c hsrv)
      · have hnone : hostId msg = none := by simpa using hid
        refine hi.frame he ?_ hp hk ho ?_
        · rintro d msg' hout
          cases hout
          exact hnone
        · intro d hd
          rw [hsrv'] at hd
          rw [hb, applied_of_hostId_none hnone]
          exact ⟨hsrv.trans hd, rfl⟩

theorem run_disciplined {h : List Event} {s : Loop}
    (hr : Run (Loop.machine myNetworkId buildResponsePacket) h s) :
    Disciplined myNetworkId buildResponsePacket h s := by
  induction hr with
  | nil => exact Disciplined.init
  | cons hr hs ih => exact ih.step hs

theorem belief_of_hosting {h : List Event} {s s' : Loop} {l : Label}
    (hp : Placed h s.node) (hs : s.step myNetworkId buildResponsePacket l = some s')
    {world : Option World} (hpc : s'.node.pc = .heartbeat)
    (hd : lastDetected (⟨s, l⟩ :: h) = some (.hosting, world)) (hsrv : s'.node.server.isSome) :
    s'.node.belief = some (worldAdvertisement myNetworkId world) := by
  obtain ⟨out, hn, -⟩ := loop_cases hs
  have hm := step_cases hn
  generalize s'.node = n' at hm hpc hsrv
  cases hm with
  | hosting w hpc₀ hdet hreg had =>
    simp only [lastDetected, hdet] at hd
    cases hd
    simp only [Node.belief, hreg, had]
    rfl
  | published ad msg ok hpc₀ hmsg =>
    obtain ⟨w, hw, rfl⟩ := hp.publishing ad hpc₀
    simp only [lastDetected, hw] at hd
    cases hd
    dsimp only at hsrv
    simp only [Node.belief, hsrv]
    rfl
  | closed hpc₀ hdet _ =>
    simp only [lastDetected, hdet] at hd
    cases hd
  | closedSent ok hpc₀ =>
    simp only [lastDetected, (hp.closing hpc₀).1] at hd
    cases hd
  | asked ok hpc₀ =>
    simp only [lastDetected, hp.fetching (Or.inl hpc₀)] at hd
    cases hd
  | fetched hosts hpc₀ | unanswered hpc₀ =>
    simp only [lastDetected, hp.fetching (Or.inr hpc₀)] at hd
    cases hd
  | lost hpc₀ _ _ =>
    simp [hpc₀] at hpc
  | beat pingDue hpc₀ =>
    dsimp only at hpc
    split at hpc <;> cases hpc
  | alive _ _ _ | offline _ _ | connected _ _ | refused _ | closing _ _ _ | publishing _ _ _ _
  | leaving _ _ _ | browsing _ _ _ | leftSent _ _ | pinged _ _ => cases hpc

/-- The host messages that the node writes on any one connection are rounds of
registering, updating and unregistering its own id, the last of which may not
be over. Whenever the loop looks at the game, its flags say where the current
connection stands, and a hosting game that it found is what it last sent. -/
theorem host_message_discipline {h : List Event} {s : Loop}
    (hr : Run (Loop.machine myNetworkId buildResponsePacket) h s) :
    (∀ c, (∀ msg ∈ hostMessages myNetworkId buildResponsePacket c h,
        hostId msg = some myNetworkId) ∧
      ∃ rounds : List (List ClientMessage), (∀ r ∈ rounds, IsRound myNetworkId r) ∧
        hostMessages myNetworkId buildResponsePacket c h <+: rounds.flatten) ∧
    (s.node.pc = .detecting → ∃ c, s.node.server = some c ∧
      (s.node.hostingRegistered = true ↔
        ((hostMessages myNetworkId buildResponsePacket c h).getLast?.bind carried).isSome) ∧
      (s.node.hostingRegistered = true → s.node.registeredAdvertisement =
        (hostMessages myNetworkId buildResponsePacket c h).getLast?.bind carried)) ∧
    ∀ world c, s.node.pc = .heartbeat → lastDetected h = some (.hosting, world) →
      s.node.server = some c →
      (hostMessages myNetworkId buildResponsePacket c h).getLast?.bind carried =
        some (worldAdvertisement myNetworkId world) := by
  have hi := run_disciplined hr
  refine ⟨?_, ?_, ?_⟩
  · intro c
    obtain ⟨st, ho⟩ := hi.orderly c
    exact ⟨ho.ids, ho.isPrefix⟩
  · intro hpc
    obtain ⟨c, hc⟩ := Option.isSome_iff_exists.mp (hi.placed.detecting hpc)
    refine ⟨c, hc, ?_⟩
    rw [(hi.current c hc).last]
    constructor
    · cases hreg : s.node.hostingRegistered with
      | false => simp [Node.belief, hreg]
      | true => simp [Node.belief, hreg, hi.knows hreg]
    · intro hreg
      rw [Node.belief, if_pos hreg]
  · intro world c hpc hd hc
    rw [(hi.current c hc).last]
    cases hr with
    | nil => cases hpc
    | cons hr hs =>
      exact belief_of_hosting (run_placed hr) hs hpc hd (by rw [hc]; rfl)

end Runs

/-- A node that registers its world, loses the connection when it updates it and
registers again on the next one. -/
def updating : List Label :=
  [.top false false, .connect (some 0), .detect (.ok true) (some (5, default)), .write true,
    .beat false, .top false false,
    .detect (.ok true) (some (5, { (default : ServerAdvertisement) with playerCount := 2 })),
    .write false, .beat false, .top false false, .connect (some 1),
    .detect (.ok true) (some (5, { (default : ServerAdvertisement) with playerCount := 2 })),
    .write true]

theorem host_message_discipline_updating :
    (replay (Loop.machine 7 plainPacket) updating).1.length = 13 ∧
    (replay (Loop.machine 7 plainPacket) updating).2.node.server = some 1 ∧
    (hostMessages 7 plainPacket 1 (replay (Loop.machine 7 plainPacket) updating).1).getLast?.bind
      carried = some { (default : ServerAdvertisement) with playerCount := 2 } :=
  ⟨by decide +kernel, by decide +kernel,
    (host_message_discipline (replay_run _)).2.2
      (some (5, { (default : ServerAdvertisement) with playerCount := 2 })) 1
      (by decide +kernel) (by decide +kernel) (by decide +kernel)⟩

end Mineshaft.Client
