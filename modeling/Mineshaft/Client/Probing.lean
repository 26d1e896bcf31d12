import Mineshaft.Client.Loop

namespace Mineshaft.Client

open Mineshaft.Core Mineshaft.Lib Mineshaft.Lib.Transition
open Mineshaft.Server (ConnId)

/-- The advertisement that `probe_host_server_data` makes of an answer. -/
def advertisement (sd : ServerData) : ServerAdvertisement where
  serverName := sd.serverName
  levelName := sd.levelName
  gameType := sd.gameType
  playerCount := sd.playerCount
  maxPlayerCount := sd.maxPlayerCount
  editorWorld := sd.editorWorld
  hardcore := sd.hardcore
  flagA := sd.flagA
  flagB := sd.flagB
  sessionId := sd.sessionId
  transportLayer := sd.transportLayer
  connectionType := sd.connectionType

theorem serverData_advertisement (sd : ServerData) : serverData (advertisement sd) = sd := rfl

/-- Where `detect_game_state` stands: before its look at the port, or in a probe
that has cleared the answers, and then in its sleep. -/
inductive ProbePc
  | looking
  | asking
  | sleeping
  deriving DecidableEq

/-- The main loop with the answers that the signaling socket has recorded. -/
structure Probing where
  loop : Loop
  probe : ProbePc
  discovered : HashMap UInt64 ServerData

namespace Probing

/-- An answer of a game arrives, at any time; the port is looked at; the request
is marshaled and sent to both loopback addresses; the first answer in the order
of the map is taken; the main loop goes on elsewhere. -/
inductive Label
  | respond (networkId : UInt64) (sd : ServerData)
  | bound (portBound : Except Unit Bool)
  | send (marshaled v4 v6 : Bool)
  | discover (first : Option (UInt64 × ServerData))
  | main (l : Client.Label)

def Label.isDetect : Client.Label → Bool
  | .detect _ _ => true
  | .top _ _ | .connect _ | .write _ | .fetched _ | .beat _ => false

section Steps

variable (myNetworkId : UInt64)
variable (buildResponsePacket : UInt64 → ServerAdvertisement → Option (List UInt8))

def detected (s : Probing) (portBound : Except Unit Bool) (world : Option World) : Option Probing :=
  (s.loop.step myNetworkId buildResponsePacket (.detect portBound world)).map
    (fun loop => ⟨loop, .looking, s.discovered⟩)

def step (s : Probing) : Label → Option Probing
  | .respond networkId sd => some { s with discovered := s.discovered.insert networkId sd }
  | .bound portBound =>
    if s.loop.node.pc = .detecting ∧ s.probe = .looking then
      match portBound with
      | .ok true => some { s with probe := .asking, discovered := ∅ }
      | portBound => s.detected myNetworkId buildResponsePacket portBound none
    else none
  | .send marshaled v4 v6 =>
    if s.probe = .asking then
      if marshaled && (v4 || v6) then some { s with probe := .sleeping }
      else s.detected myNetworkId buildResponsePacket (.ok true) none
    else none
  | .discover first =>
    if s.probe = .sleeping then
      match first with
      | some (gameId, sd) =>
        if s.discovered.lookup gameId = some sd then
          s.detected myNetworkId buildResponsePacket (.ok true) (some (gameId, advertisement sd))
        else none
      | none =>
        if s.discovered = ∅ then s.detected myNetworkId buildResponsePacket (.ok true) none
        else none
    else none
  | .main l =>
    if Label.isDetect l then none
    else (s.loop.step myNetworkId buildResponsePacket l).map (fun loop => { s with loop := loop })

def machine : Machine Probing Label :=
  ⟨⟨⟨Node.init, []⟩, .looking, ∅⟩, step myNetworkId buildResponsePacket⟩

def frame (e : Transition.Event Probing Label) : Option (ConnId × ClientMessage) :=
  match e.label with
  | .main l => wrote myNetworkId buildResponsePacket ⟨e.pre.loop, l⟩
  | .respond _ _ | .bound _ | .send _ _ _ | .discover _ => none

end Steps

def answers : List (Transition.Event Probing Label) → List (UInt64 × ServerData)
  | [] => []
  | e :: h =>
    match e.label with
    | .respond networkId sd => (networkId, sd) :: answers h
    | .bound (.ok true) => []
    | .bound _ | .send _ _ _ | .discover _ | .main _ => answers h

variable {myNetworkId : UInt64}
variable {buildResponsePacket : UInt64 → ServerAdvertisement → Option (List UInt8)}
variable {s s' : Probing}

theorem moves_detect {n n' : Node} {out : Option (ConnId × ClientMessage)}
    {portBound : Except Unit Bool} {world : Option World}
    (hm : Moves myNetworkId buildResponsePacket n (.detect portBound world) n' out) : out = none := by
  cases hm <;> rfl

theorem detected_eq {portBound : Except Unit Bool} {world : Option World}
    (h : s.detected myNetworkId buildResponsePacket portBound world = some s') :
    s'.discovered = s.discovered ∧ s'.probe = .looking ∧
      Moves myNetworkId buildResponsePacket s.loop.node (.detect portBound world) s'.loop.node none := by
  obtain ⟨loop, hl, rfl⟩ := Option.map_eq_some_iff.mp h
  obtain ⟨out, hn, -⟩ := loop_cases hl
  have hm := step_cases hn
  obtain rfl := moves_detect hm
  exact ⟨rfl, rfl, hm⟩

theorem probing_cases {l : Label} (hs : step myNetworkId buildResponsePacket s l = some s') :
    (∃ k sd, l = .respond k sd ∧ s' = { s with discovered := s.discovered.insert k sd }) ∨
    (l = .bound (.ok true) ∧ s.loop.node.pc = .detecting ∧
      s' = { s with probe := .asking, discovered := ∅ }) ∨
    (s'.discovered = s.discovered ∧ (∀ k sd, l ≠ .respond k sd) ∧ l ≠ .bound (.ok true) ∧
      ((∃ portBound world, (∀ m, l ≠ .main m) ∧
          Moves myNetworkId buildResponsePacket s.loop.node (.detect portBound world) s'.loop.node none ∧
          ∀ w ∈ world, ∃ sd, s.discovered.lookup w.1 = some sd ∧ w.2 = advertisement sd) ∨
        s'.loop = s.loop ∧ (∀ m, l ≠ .main m) ∨
        ∃ m out, l = .main m ∧ Label.isDetect m = false ∧
          Moves myNetworkId buildResponsePacket s.loop.node m s'.loop.node out)) := by
  cases l with
  | respond k sd =>
    cases hs
    exact Or.inl ⟨k, sd, rfl, rfl⟩
  | bound portBound =>
    simp only [step] at hs
    split at hs
    next hg =>
      split at hs
      · cases hs
        exact Or.inr (Or.inl ⟨rfl, hg.1, rfl⟩)
      next hne =>
        obtain ⟨hd, -, hm⟩ := detected_eq hs
        exact Or.inr (Or.inr ⟨hd, by simp, by simpa using hne, Or.inl ⟨_, _, by simp, hm, by simp⟩⟩)
    · cases hs
  | send marshaled v4 v6 =>
    simp only [step] at hs
    split at hs
    · split at hs
      · cases hs
        exact Or.inr (Or.inr ⟨rfl, by simp, by simp, Or.inr (Or.inl ⟨rfl, by simp⟩)⟩)
      · obtain ⟨hd, -, hm⟩ := detected_eq hs
        exact Or.inr (Or.inr ⟨hd, by simp, by simp, Or.inl ⟨_, _, by simp, hm, by simp⟩⟩)
    · cases hs
  | discover first =>
    simp only [step] at hs
    split at hs
    · split at hs
      · split at hs
        next gameId sd hl =>
          obtain ⟨hd, -, hm⟩ := detected_eq hs
          refine Or.inr (Or.inr ⟨hd, by simp, by simp, Or.inl ⟨_, _, by simp, hm, ?_⟩⟩)
          rintro w ⟨⟩
          exact ⟨sd, hl, rfl⟩
        · cases hs
      · split at hs
        · obtain ⟨hd, -, hm⟩ := detected_eq hs
          exact Or.inr (Or.inr ⟨hd, by simp, by simp, Or.inl ⟨_, _, by simp, hm, by simp⟩⟩)
        · cases hs
    · cases hs
  | main m =>
    simp only [step] at hs
    split at hs
    · cases hs
    next hdet =>
      obtain ⟨loop, hl, rfl⟩ := Option.map_eq_some_iff.mp hs
      obtain ⟨out, hn, -⟩ := loop_cases hl
      exact Or.inr (Or.inr ⟨rfl, by simp, by simp, Or.inr (Or.inr
        ⟨m, out, rfl, by simpa using hdet, step_cases hn⟩)⟩)

def announcement : ClientMessage → Option AdvertisedServer
  | .registerHost server | .updateHost server => some server
  | .unregisterHost _ | .listHosts | .connectRequest _ _ | .signal _ _ _ _ | .ping => none

theorem moves_publishing {n n' : Node} {l : Client.Label} {out : Option (ConnId × ClientMessage)}
    (hm : Moves myNetworkId buildResponsePacket n l n' out) {ad : ServerAdvertisement}
    (hpc : n'.pc = .publishing ad) :
    ∃ portBound w, l = .detect portBound (some w) ∧ ad = w.2 ∧ n'.localGameId = some w.1 := by
  cases hm with
  | @publishing portBound world w _ hd _ =>
    cases hpc
    have hworld : world = some w := by
      unfold detectGameState at hd
      split at hd
      · split at hd <;> cases hd
        rfl
      · cases hd
      · cases hd
    exact ⟨portBound, w, by rw [hworld], rfl, rfl⟩
  | lost h _ _ =>
    simp only [reap_pc, h] at hpc
    cases hpc
  | asked ok _ =>
    simp only at hpc
    split at hpc <;> cases hpc
  | beat due _ =>
    simp only at hpc
    split at hpc <;> cases hpc
  | alive _ _ _ | offline _ _ | connected _ _ | refused _ | closing _ _ _ | closed _ _ _
  | hosting _ _ _ _ _ | leaving _ _ _ | browsing _ _ _ | closedSent _ _ | leftSent _ _
  | published _ _ _ _ _ | pinged _ _ | fetched _ _ | unanswered _ => cases hpc

theorem moves_announces {n n' : Node} {l : Client.Label} {c : ConnId} {msg : ClientMessage}
    (hm : Moves myNetworkId buildResponsePacket n l n' (some (c, msg))) {server : AdvertisedServer}
    (ha : announcement msg = some server) :
    server.senderId = myNetworkId ∧ n.pc = .publishing server.data := by
  generalize hout : some (c, msg) = out at hm
  cases hm with
  | published ad msg' ok hpc hmsg =>
    obtain rfl := sendOrDrop_wrote hout.symm
    rw [hmsg] at ha
    split at ha <;> cases ha <;> exact ⟨rfl, hpc⟩
  | closedSent ok _ | leftSent ok _ | asked ok _ | pinged ok _ =>
    obtain rfl := sendOrDrop_wrote hout.symm
    cases ha
  | lost _ _ _ | alive _ _ _ | offline _ _ | connected _ _ | refused _ | closing _ _ _ | closed _ _ _
  | publishing _ _ _ _ | hosting _ _ _ _ _ | leaving _ _ _ | browsing _ _ _ | fetched _ _
  | unanswered _ | beat _ _ => cases hout

/-- The recorded answers, and what is to be published, came since the last probe
began. -/
structure Recent (h : List (Transition.Event Probing Label)) (s : Probing) : Prop where
  recorded : ∀ gameId sd, s.discovered.lookup gameId = some sd → (gameId, sd) ∈ answers h
  publishing : ∀ ad, s.loop.node.pc = .publishing ad → ∃ gameId sd, (gameId, sd) ∈ answers h ∧
    s.loop.node.localGameId = some gameId ∧ ad = advertisement sd

theorem Recent.step {h : List (Transition.Event Probing Label)} {l : Label} (hi : Recent h s)
    (hs : step myNetworkId buildResponsePacket s l = some s') : Recent (⟨s, l⟩ :: h) s' := by
  obtain ⟨k, sd, rfl, rfl⟩ | ⟨rfl, hpc, rfl⟩ | ⟨hd, hrespond, hbound, hway⟩ := probing_cases hs
  · refine ⟨?_, ?_⟩
    · intro gameId sd' hl
      rw [HashMap.lookup_insert_eq] at hl
      split at hl
      next hk =>
        cases hl
        rw [hk]
        exact List.mem_cons_self
      · exact List.mem_cons_of_mem _ (hi.recorded gameId sd' hl)
    · intro ad hp
      obtain ⟨gameId, sd', hm, hg, ha⟩ := hi.publishing ad hp
      exact ⟨gameId, sd', List.mem_cons_of_mem _ hm, hg, ha⟩
  · refine ⟨?_, ?_⟩
    · intro gameId sd hl
      simp at hl
    · intro ad hp
      rw [hpc] at hp
      cases hp
  · have hanswers : answers (⟨s, l⟩ :: h) = answers h := by
      cases l with
      | respond k sd => exact absurd rfl (hrespond k sd)
      | bound portBound =>
        obtain e | b := portBound
        · rfl
        · cases b with
          | false => rfl
          | true => exact absurd rfl hbound
      | send _ _ _ | discover _ | main _ => rfl
    refine ⟨?_, ?_⟩
    · rw [hd, hanswers]
      exact hi.recorded
    · rw [hanswers]
      intro ad hp
      obtain ⟨portBound, world, -, hm, hworld⟩ | ⟨hloop, -⟩ | ⟨m, out, -, hdet, hm⟩ := hway
      · obtain ⟨_, w, hl, rfl, hg⟩ := moves_publishing hm hp
        cases hl
        obtain ⟨sd, hlook, hw⟩ := hworld w rfl
        exact ⟨w.1, sd, hi.recorded _ _ hlook, hg, hw⟩
      · rw [hloop] at hp ⊢
        exact hi.publishing ad hp
      · obtain ⟨portBound, w, rfl, -⟩ := moves_publishing hm hp
        cases hdet

theorem run_recent {h : List (Transition.Event Probing Label)}
    (hr : Run (machine myNetworkId buildResponsePacket) h s) : Recent h s := by
  induction hr with
  | nil => exact ⟨fun _ _ hl => by simp [machine] at hl, fun _ hp => nomatch hp⟩
  | cons _ hs ih => exact ih.step hs

/-- No stale world is announced. Whenever the node writes `RegisterHost` or
`UpdateHost`, it announces under its own id a game that has answered since the
probe of this iteration cleared the earlier answers, with exactly the server
data of that answer, and takes this game for the local one. -/
theorem announced_worlds_recent {post early : List (Transition.Event Probing Label)}
    {e : Transition.Event Probing Label}
    (hr : Run (machine myNetworkId buildResponsePacket) (post ++ e :: early) s) {c : ConnId}
    {msg : ClientMessage} (hw : frame myNetworkId buildResponsePacket e = some (c, msg))
    {server : AdvertisedServer} (ha : announcement msg = some server) :
    server.senderId = myNetworkId ∧ ∃ gameId, (gameId, serverData server.data) ∈ answers early ∧
      e.pre.loop.node.localGameId = some gameId := by
  obtain ⟨hrun, s', hs, -⟩ := hr.split
  obtain ⟨pre, l⟩ := e
  cases l with
  | main m =>
    obtain ⟨⟨n', out⟩, hn, hout⟩ := Option.bind_eq_some_iff.mp hw
    obtain rfl : out = some (c, msg) := hout
    obtain ⟨hid, hpc⟩ := moves_announces (step_cases hn) ha
    obtain ⟨gameId, sd, hm, hg, had⟩ := (run_recent hrun).publishing _ hpc
    refine ⟨hid, gameId, ?_, hg⟩
    rw [had, serverData_advertisement]
    exact hm
  | respond _ _ | bound _ | send _ _ _ | discover _ => cases hw

def firstGame : ServerData := serverData default

def secondGame : ServerData := { firstGame with levelName := "second world", playerCount := 3 }

/-- The node announces the first game, which answers once more when its probe is
over, and then finds the second one. -/
def twoGames : List Label :=
  [.main (.top false false), .main (.connect (some 0)), .bound (.ok true), .send true true false,
    .respond 5 firstGame, .discover (some (5, firstGame)), .main (.write true), .respond 5 firstGame,
    .main (.beat false), .main (.top false false), .bound (.ok true), .send true true true,
    .respond 6 secondGame, .discover (some (6, secondGame))]

theorem announced_worlds_recent_twoGames :
    answers (replay (machine 7 plainPacket) twoGames).1 = [(6, secondGame)] ∧
      ∃ gameId, (gameId, secondGame) ∈ answers (replay (machine 7 plainPacket) twoGames).1 ∧
        (replay (machine 7 plainPacket) twoGames).2.loop.node.localGameId = some gameId := by
  have hsome : (step 7 plainPacket (replay (machine 7 plainPacket) twoGames).2
      (.main (.write true))).isSome = true := by decide +kernel
  obtain ⟨s', hs⟩ := Option.isSome_iff_exists.mp hsome
  have hr : Run (machine 7 plainPacket)
      ([] ++ ⟨(replay (machine 7 plainPacket) twoGames).2, .main (.write true)⟩ ::
        (replay (machine 7 plainPacket) twoGames).1) s' := Run.cons (replay_run twoGames) hs
  have hw : frame 7 plainPacket
      ⟨(replay (machine 7 plainPacket) twoGames).2, .main (.write true)⟩ =
        some (0, .updateHost ⟨7, advertisement secondGame⟩) := by decide +kernel
  exact ⟨by decide +kernel, (announced_worlds_recent hr hw rfl).2⟩

end Probing

end Mineshaft.Client
