import Mineshaft.Core.RoundTrip
import Mineshaft.Server.Queues

namespace Mineshaft.Server

open Mineshaft.Core Mineshaft.Lib Mineshaft.Lib.Transition

def recordBytes (server : AdvertisedServer) : Nat := server.toJson.bytes.length

def hostListBytes (servers : List AdvertisedServer) : Nat :=
  15 + (servers.map recordBytes).sum + (servers.length - 1)

def signalBytes (connectionId joinerNetworkId : UInt64) (data : String) : Nat :=
  58 + (u64 connectionId).bytes.length + (u64 joinerNetworkId).bytes.length +
    (Json.str data).bytes.length

theorem tagged_length (name : String) (content : Json) : (tagged name content).bytes.length =
    3 + (Json.utf8 (Json.quote name)).length + content.bytes.length := by
  simp only [tagged, Json.bytes_obj_length, List.map_cons, List.map_nil, List.sum_cons, List.sum_nil,
    List.length_cons, List.length_nil]
  omega

theorem struct_length (name : String) (fields : List (String × Json)) :
    (tagged name (.obj fields)).bytes.length = 5 + (Json.utf8 (Json.quote name)).length +
      (fields.map (fun f => (Json.utf8 (Json.quote f.1)).length + 1 + f.2.bytes.length)).sum +
      (fields.length - 1) := by
  rw [tagged_length, Json.bytes_obj_length]
  omega

theorem hostList_length (hosts : List AdvertisedServer) :
    (ServerMessage.hostList hosts).payload.length = hostListBytes hosts := by
  have hq : (Json.utf8 (Json.quote "HostList")).length = 10 := rfl
  have hr : recordBytes = fun server => server.toJson.bytes.length := rfl
  simp only [ServerMessage.payload, ServerMessage.toJson, tagged_length, hq, Json.bytes_arr_length,
    List.map_map, List.length_map, hostListBytes, hr, Function.comp_def]
  omega

theorem signal_length (c n : UInt64) (data : String) :
    (ServerMessage.signal c n data).payload.length = signalBytes c n data := by
  have h1 : (Json.utf8 (Json.quote "Signal")).length = 8 := rfl
  have h2 : (Json.utf8 (Json.quote "connection_id")).length = 15 := rfl
  have h3 : (Json.utf8 (Json.quote "joiner_network_id")).length = 19 := rfl
  have h4 : (Json.utf8 (Json.quote "data")).length = 6 := rfl
  simp only [ServerMessage.payload, ServerMessage.toJson, struct_length, h1, List.map_cons, List.map_nil,
    List.sum_cons, List.sum_nil, List.length_cons, List.length_nil, h2, h3, h4, signalBytes]
  omega

theorem signal_relay_length (t c n : UInt64) (data : String) :
    signalBytes c n data ≤ (ClientMessage.signal t c n data).payload.length := by
  have h1 : (Json.utf8 (Json.quote "Signal")).length = 8 := rfl
  have h2 : (Json.utf8 (Json.quote "connection_id")).length = 15 := rfl
  have h3 : (Json.utf8 (Json.quote "joiner_network_id")).length = 19 := rfl
  have h4 : (Json.utf8 (Json.quote "data")).length = 6 := rfl
  simp only [ClientMessage.payload, ClientMessage.toJson, struct_length, h1, List.map_cons, List.map_nil,
    List.sum_cons, List.sum_nil, List.length_cons, List.length_nil, h2, h3, h4, signalBytes]
  omega

theorem u64_length (n : UInt64) : (u64 n).bytes.length ≤ 80 := by
  have hn := n.toNat_lt
  have hd := Json.digits_length (n := n.toNat) (k := 20) (by decide) (by omega)
  have hb := Json.utf8_length_le (Json.digits n.toNat)
  change (Json.utf8 (Json.digits n.toNat)).length ≤ 80
  omega

theorem unknownHost_length (n : UInt64) :
    (Json.str ("no such host: 0x" ++ lowerHex n)).bytes.length ≤ 776 := by
  have hn := n.toNat_lt
  have hd := Nat.toDigits_length 16 n.toNat 16 (by decide) (by omega)
  have hp : "no such host: 0x".toList.length = 16 := rfl
  have hq := Json.quote_length ("no such host: 0x" ++ lowerHex n)
  rw [String.toList_append, List.length_append, hp, lowerHex, String.toList_ofList] at hq
  have hb := Json.utf8_length_le (Json.quote ("no such host: 0x" ++ lowerHex n))
  change (Json.utf8 (Json.quote ("no such host: 0x" ++ lowerHex n))).length ≤ 776
  rw [lowerHex] at hb ⊢
  omega

def Small (msg : ServerMessage) : Prop := msg.payload.length ≤ maxFrameBytes

theorem small_pong : Small .pong := by
  unfold Small maxFrameBytes
  decide

theorem small_registered (n : UInt64) : Small (.registered n) := by
  have hn := u64_length n
  have h1 : (Json.utf8 (Json.quote "Registered")).length = 12 := rfl
  have h2 : (Json.utf8 (Json.quote "sender_id")).length = 11 := rfl
  simp only [Small, ServerMessage.payload, ServerMessage.toJson, struct_length, h1, List.map_cons,
    List.map_nil, List.sum_cons, List.sum_nil, List.length_cons, List.length_nil, h2, maxFrameBytes]
  omega

theorem small_incomingJoin (n k : UInt64) : Small (.incomingJoin n k) := by
  have hn := u64_length n
  have hk := u64_length k
  have h1 : (Json.utf8 (Json.quote "IncomingJoin")).length = 14 := rfl
  have h2 : (Json.utf8 (Json.quote "joiner_network_id")).length = 19 := rfl
  have h3 : (Json.utf8 (Json.quote "session_id")).length = 12 := rfl
  simp only [Small, ServerMessage.payload, ServerMessage.toJson, struct_length, h1, List.map_cons,
    List.map_nil, List.sum_cons, List.sum_nil, List.length_cons, List.length_nil, h2, h3, maxFrameBytes]
  omega

theorem small_joinAccepted (n : UInt64) : Small (.joinAccepted n) := by
  have hn := u64_length n
  have h1 : (Json.utf8 (Json.quote "JoinAccepted")).length = 14 := rfl
  have h2 : (Json.utf8 (Json.quote "session_id")).length = 12 := rfl
  simp only [Small, ServerMessage.payload, ServerMessage.toJson, struct_length, h1, List.map_cons,
    List.map_nil, List.sum_cons, List.sum_nil, List.length_cons, List.length_nil, h2, maxFrameBytes]
  omega

theorem small_unknownHost (n : UInt64) : Small (.error ("no such host: 0x" ++ lowerHex n)) := by
  have hn := unknownHost_length n
  have h1 : (Json.utf8 (Json.quote "Error")).length = 7 := rfl
  simp only [Small, ServerMessage.payload, ServerMessage.toJson, tagged_length, h1, maxFrameBytes]
  omega

def frameBytes (reg : Registry) : Label → Nat
  | .listHosts _ _ => hostListBytes reg.hostRecords.values
  | .handle _ (.signal targetSenderId connectionId joinerNetworkId data) =>
    if (reg.routeDest targetSenderId connectionId).isSome then
      signalBytes connectionId joinerNetworkId data
    else 0
  | _ => 0

/-- When a host list is asked for, the registered records fit into one frame,
and a signal that has a route fits into one frame. -/
def Fits (e : Event) : Prop := frameBytes e.pre.reg e.label ≤ maxFrameBytes

instance : DecidablePred Fits := fun e =>
  inferInstanceAs (Decidable (frameBytes e.pre.reg e.label ≤ maxFrameBytes))

theorem hostListBytes_perm {xs ys : List AdvertisedServer} (h : xs.Perm ys) :
    hostListBytes xs = hostListBytes ys := by
  unfold hostListBytes
  rw [(h.map recordBytes).sum_nat, h.length_eq]

theorem replies_small_iff (reg : Registry) (addr : SocketAddr) (c : ConnId) (msg : ClientMessage) :
    (∀ q ∈ replies reg addr msg, Small q.2) ↔ frameBytes reg (.handle c msg) ≤ maxFrameBytes := by
  cases msg with
  | ping => simp [replies, frameBytes, small_pong]
  | registerHost server => simp [replies, frameBytes, small_registered]
  | updateHost | unregisterHost | listHosts => simp [replies, frameBytes]
  | connectRequest t n =>
    simp only [replies, frameBytes, Nat.zero_le, iff_true]
    split
    · simp
    · simp [small_unknownHost]
  | signal t i n data =>
    cases hd : reg.routeDest t i with
    | none => simp [replies, frameBytes, hd]
    | some dest => simp [replies, frameBytes, hd, Small, signal_length]

theorem outputs_small_iff {s s' : State} {l : Label} (hs : step s l = some s') :
    (∀ a, ∀ q ∈ outputs a ⟨s, l⟩, Small q.2) ↔ Fits ⟨s, l⟩ := by
  obtain ⟨⟨addr, -, ha, hm⟩, -⟩ := step_moves hs
  have hown : (∀ a, ∀ q ∈ outputs a ⟨s, l⟩, Small q.2) ↔ ∀ q ∈ outputs l.conn ⟨s, l⟩, Small q.2 := by
    constructor
    · intro h
      exact h l.conn
    · intro h a q hq
      by_cases hc : l.conn = a
      · subst hc
        exact h q hq
      · simp [outputs, hc] at hq
  rw [hown]
  simp only [outputs, ↓reduceIte, ha]
  generalize s.task l.conn = t at hm
  generalize s'.task l.conn = t' at hm
  cases hm with
  | accept | insert | read | leave | cleanup | sendTo | write | closeRx =>
    simp [labelOutputs, Fits, frameBytes]
  | openSession => simp [labelOutputs, Fits, frameBytes, small_incomingJoin, small_joinAccepted]
  | listHosts hp =>
    simp [labelOutputs, Fits, frameBytes, Small, hostList_length, hostListBytes_perm hp]
  | @handle c msg r hr =>
    simp only [Option.map_some, Option.toList_some, List.flatMap_cons, List.flatMap_nil,
      List.append_nil, labelOutputs]
    exact replies_small_iff s.reg addr c msg

theorem determined_small_iff {h : List Event} {s : State} (hr : Run h s) :
    (∀ a, ∀ q ∈ determined a h, Small q.2) ↔ ∀ e ∈ h, Fits e := by
  constructor
  · intro hd e he
    obtain ⟨s', hs, -⟩ := hr.post_mem he
    refine (outputs_small_iff hs).mp ?_
    intro a q hq
    exact hd a q (mem_collect.mpr ⟨e, he, hq⟩)
  · intro hf a q hq
    obtain ⟨e, he, hq⟩ := mem_collect.mp hq
    obtain ⟨s', hs, -⟩ := hr.post_mem he
    exact (outputs_small_iff hs).mpr (hf e he) a q hq

theorem not_tooLarge {T : Type} {fromSlice : List UInt8 → Except String T} {reader : Reader}
    {payload rest : List UInt8} (hb : reader.bytes = frame payload ++ rest)
    (hp : payload.length ≤ maxFrameBytes) (len : Nat) :
    (readMessage fromSlice reader).1 ≠ .error (.frameTooLarge len) := by
  obtain ⟨r, h, -, -⟩ := readMessage_frame fromSlice hb hp
  rw [h]
  dsimp only [decoded]
  split <;> simp

/-- The messages that the handlers of a run determine are small enough for the
clients exactly when the records fit into one frame at every request for the
host list and every relayed signal fits into one. Whatever is enqueued then
has a payload that the client does not refuse as too large. The signals that
clients encode themselves always fit. -/
theorem frames_fit {toVec : ServerMessage → Except String (List UInt8)}
    (hv : ∀ msg, toVec msg = .ok msg.payload) {h : List Event} {s : State} (hr : Run h s) :
    ((∀ a, ∀ q ∈ determined a h, q.2.payload.length ≤ maxFrameBytes) ↔ ∀ e ∈ h, Fits e) ∧
    ((∀ e ∈ h, Fits e) → ∀ d, ∀ x ∈ s.queue d, ∃ payload, toVec x.msg = .ok payload ∧
      payload.length ≤ maxFrameBytes ∧
      ∀ (fromSlice : List UInt8 → Except String ServerMessage) (reader : Reader) (rest : List UInt8),
        reader.bytes = frame payload ++ rest →
        ∀ len, (readMessage fromSlice reader).1 ≠ .error (.frameTooLarge len)) ∧
    ∀ t c n data, (ClientMessage.signal t c n data).payload.length ≤ maxFrameBytes →
      signalBytes c n data ≤ maxFrameBytes := by
  refine ⟨determined_small_iff hr, ?_, fun t c n data hl => (signal_relay_length t c n data).trans hl⟩
  intro hf d x hx
  obtain ⟨dest, hd⟩ := queue_determined hr hx
  have hp := (determined_small_iff hr).mpr hf x.origin (dest, x.msg) hd
  exact ⟨x.msg.payload, hv x.msg, hp, fun fromSlice reader rest hb => not_tooLarge hb hp⟩

/-- A host registers twice with one advertisement and asks for the list. -/
def crowded (ad : ServerAdvertisement) : List Label :=
  [.accept 0 (.v4 1 1), .insert 0, .read 0 (.registerHost ⟨7, ad⟩),
    .handle 0 (.registerHost ⟨7, ad⟩), .sendTo 0 (.v4 1 1) (.registered 7),
    .read 0 (.registerHost ⟨8, ad⟩), .handle 0 (.registerHost ⟨8, ad⟩),
    .sendTo 0 (.v4 1 1) (.registered 8), .read 0 .listHosts, .listHosts 0 [⟨8, ad⟩, ⟨7, ad⟩],
    .sendTo 0 (.v4 1 1) (.hostList [⟨8, ad⟩, ⟨7, ad⟩])]

theorem frames_fit_crowded :
    ((replay machine (crowded default)).2.queue 0).length = 3 ∧
      ∀ x ∈ (replay machine (crowded default)).2.queue 0, x.msg.payload.length ≤ maxFrameBytes := by
  refine ⟨by decide +kernel, fun x hx => ?_⟩
  have hf := (frames_fit (fun _ => rfl) (replay_run (crowded default))).2.1 (by decide +kernel) 0 x hx
  obtain ⟨payload, hp, hl, -⟩ := hf
  cases hp
  exact hl

theorem setTask_setTask (s : State) (reg : Registry) (c : ConnId) (t t' : Task) :
    State.setTask { s.setTask c t with reg := reg } c t' = State.setTask { s with reg := reg } c t' := by
  have hc : (State.setTask { s.setTask c t with reg := reg } c t').conns =
      (State.setTask { s with reg := reg } c t').conns := by
    funext d
    simp only [State.setTask_conns]
    split
    · simp [Function.comp_def]
    · rfl
  exact congrArg (State.mk reg) hc

theorem serve_round {h : List Event} {s : State} {c : ConnId} {k : Conn} {msg : ClientMessage}
    {l : Label} {reg : Registry} {reply : ServerMessage} (hr : Run h s) (hk : s.conns c = some k)
    (ht : k.task = .reading) (ho : k.rxOpen = true) (hc : reg.clients.lookup k.addr = some ⟨c⟩)
    (hl : step (s.setTask c (.handling msg)) l =
      some ({ s with reg := reg }.setTask c (.sending (k.addr, reply) []))) :
    ∃ h' s', Run h' s' ∧ s'.reg = reg ∧
      h'.map (fun e => e.label) =
        .sendTo c k.addr reply :: l :: .read c msg :: h.map (fun e => e.label) ∧
      s'.conns c = some { k with queue := k.queue ++ [⟨c, reply⟩] } := by
  have h₁ : step s (.read c msg) = some (s.setTask c (.handling msg)) :=
    atTask_eq_some.mpr ⟨k, hk, ht, rfl⟩
  have hk' : (State.setTask { s with reg := reg } c (.sending (k.addr, reply) [])).conns c =
      some { k with task := .sending (k.addr, reply) [] } := by
    simp [State.setTask_conns, hk]
  have h₃ := step_sendTo_iff.mpr ⟨_, [], hk', rfl, rfl⟩
  refine ⟨_, _, run_step (run_step (run_step hr h₁) hl) h₃, ?_, rfl, ?_⟩
  · simp
  · simp [State.setTask_conns, State.sendTo_conns, hk, hc, ho, afterSends, ht]

theorem recordBytes_named (id : UInt64) (ad : ServerAdvertisement) (name : String) :
    recordBytes ⟨id, { ad with serverName := name }⟩ + 2 =
      recordBytes ⟨id, { ad with serverName := "" }⟩ + (Json.str name).bytes.length := by
  have h0 : (Json.str "").bytes.length = 2 := rfl
  simp only [recordBytes, AdvertisedServer.toJson, ServerAdvertisement.toJson, Json.bytes_obj_length,
    List.map_cons, List.map_nil, List.sum_cons, List.sum_nil, List.length_cons, List.length_nil, h0]
  omega

theorem registerHost_length (server : AdvertisedServer) :
    (ClientMessage.registerHost server).payload.length = 17 + recordBytes server := by
  have hq : (Json.utf8 (Json.quote "RegisterHost")).length = 14 := rfl
  simp only [ClientMessage.payload, ClientMessage.toJson, tagged_length, hq, recordBytes]

theorem register_round {h : List Event} {s : State} {c : ConnId} {k : Conn} {r : AdvertisedServer}
    (hr : Run h s) (hk : s.conns c = some k) (ht : k.task = .reading) (ho : k.rxOpen = true)
    (hc : s.reg.clients.lookup k.addr = some ⟨c⟩) :
    ∃ h' s', Run h' s' ∧ s'.reg = s.reg.registerHost k.addr r ∧
      h'.map (fun e => e.label) = .sendTo c k.addr (.registered r.senderId) ::
        .handle c (.registerHost r) :: .read c (.registerHost r) :: h.map (fun e => e.label) ∧
      s'.conns c = some { k with queue := k.queue ++ [⟨c, .registered r.senderId⟩] } := by
  refine serve_round hr hk ht ho hc ?_
  refine atTask_eq_some.mpr ⟨{ k with task := .handling (.registerHost r) }, ?_, rfl, ?_⟩
  · simp [State.setTask_conns, hk]
  · exact congrArg some (setTask_setTask s _ c _ _)

theorem crowded_queue (ad : ServerAdvertisement) :
    ∃ h s, Run h s ∧ h.map (fun e => e.label) = (crowded ad).reverse ∧
      ⟨0, .hostList [⟨8, ad⟩, ⟨7, ad⟩]⟩ ∈ s.queue 0 := by
  have h₀ : Run _ _ := replay_run [.accept 0 (.v4 1 1), .insert 0]
  obtain ⟨h₁, s₁, hr₁, hg₁, hl₁, hk₁⟩ := register_round (r := ⟨7, ad⟩) (c := 0)
    (k := ⟨.v4 1 1, .reading, true, [], 0⟩) h₀ rfl rfl rfl rfl
  have hc₁ : s₁.reg.clients.lookup (.v4 1 1) = some ⟨0⟩ := by rw [hg₁]; rfl
  obtain ⟨h₂, s₂, hr₂, hg₂, hl₂, hk₂⟩ := register_round (r := ⟨8, ad⟩) hr₁ hk₁ rfl rfl hc₁
  have hc₂ : s₂.reg.clients.lookup (.v4 1 1) = some ⟨0⟩ := by rw [hg₂]; exact hc₁
  have hv : s₂.reg.hostRecords.values = [⟨8, ad⟩, ⟨7, ad⟩] := by rw [hg₂, hg₁]; rfl
  have hs : step (s₂.setTask 0 (.handling .listHosts)) (.listHosts 0 [⟨8, ad⟩, ⟨7, ad⟩]) =
      some ({ s₂ with reg := s₂.reg }.setTask 0
        (.sending (.v4 1 1, .hostList [⟨8, ad⟩, ⟨7, ad⟩]) [])) := by
    refine atTask_eq_some.mpr ⟨_, by rw [State.setTask_conns, hk₂]; rfl, rfl, ?_⟩
    rw [if_pos (by simp [hv])]
    exact congrArg some (setTask_setTask s₂ _ 0 _ _)
  obtain ⟨h₃, s₃, hr₃, -, hl₃, hk₃⟩ := serve_round hr₂ hk₂ rfl rfl hc₂ hs
  refine ⟨h₃, s₃, hr₃, ?_, ?_⟩
  · rw [hl₃, hl₂, hl₁]
    rfl
  · simp [State.queue, hk₃]

def wide (n : Nat) : ServerAdvertisement :=
  { (default : ServerAdvertisement) with serverName := String.ofList (List.replicate n 'a') }

theorem recordBytes_wide (n : Nat) {id : UInt64}
    (hid : recordBytes ⟨id, { (default : ServerAdvertisement) with serverName := "" }⟩ = 262) :
    recordBytes ⟨id, wide n⟩ = n + 262 := by
  have hn : (Json.str (String.ofList (List.replicate n 'a'))).bytes.length = n + 2 :=
    Json.quote_replicate rfl rfl n
  have hb := recordBytes_named id default (String.ofList (List.replicate n 'a'))
  rw [hn, hid] at hb
  change recordBytes ⟨id, wide n⟩ + 2 = _ at hb
  omega

theorem crowded_overflow {n : Nat} (hmin : 262144 ≤ n) (hmax : n ≤ 524000) :
    ∃ h s, Run h s ∧
      (∀ e ∈ h, ∀ c msg, e.label = .read c msg → msg.payload.length ≤ maxFrameBytes) ∧
      ∃ x ∈ s.queue 0, maxFrameBytes < x.msg.payload.length := by
  have h7 : recordBytes ⟨7, wide n⟩ = _ := recordBytes_wide n (by decide +kernel)
  have h8 : recordBytes ⟨8, wide n⟩ = _ := recordBytes_wide n (by decide +kernel)
  have hb : maxFrameBytes = 524288 := rfl
  obtain ⟨h, s, hr, hl, hq⟩ := crowded_queue (wide n)
  refine ⟨h, s, hr, ?_, _, hq, ?_⟩
  · intro e he c msg hm
    have hmem : Label.read c msg ∈ (crowded (wide n)).reverse := by
      rw [← hl, ← hm]
      exact List.mem_map_of_mem he
    simp only [crowded, List.mem_reverse, List.mem_cons, Label.read.injEq, reduceCtorEq, false_or,
      or_false, List.not_mem_nil] at hmem
    obtain ⟨-, rfl⟩ | ⟨-, rfl⟩ | ⟨-, rfl⟩ := hmem
    · have hl7 := registerHost_length ⟨7, wide n⟩
      omega
    · have hl8 := registerHost_length ⟨8, wide n⟩
      omega
    · decide
  · rw [hostList_length]
    simp only [hostListBytes, List.map_cons, List.map_nil, List.sum_cons, List.sum_nil, h7, h8,
      List.length_cons, List.length_nil, maxFrameBytes]
    omega

theorem frames_fit_overflow :
    ∃ h s, Run h s ∧
      (∀ e ∈ h, ∀ c msg, e.label = .read c msg → msg.payload.length ≤ maxFrameBytes) ∧
      ∃ x ∈ s.queue 0, maxFrameBytes < x.msg.payload.length :=
  crowded_overflow (n := 300000) (by decide) (by decide)

end Mineshaft.Server
