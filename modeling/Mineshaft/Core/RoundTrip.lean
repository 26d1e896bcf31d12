import Mineshaft.Core.Encoding

namespace Mineshaft.Core

open Mineshaft.Lib.ByteStream

section Codec

variable {T : Type} {toVec : T → Except String (List UInt8)}
  {fromSlice : List UInt8 → Except String T}

def writeMessages (toVec : T → Except String (List UInt8)) :
    Writer → List T → List (Except CoreError Unit) × Writer
  | stream, [] => ([], stream)
  | stream, msg :: msgs =>
    let r := writeMessage toVec stream msg
    let rs := writeMessages toVec r.2 msgs
    (r.1 :: rs.1, rs.2)

def readMessages (fromSlice : List UInt8 → Except String T) :
    Nat → Reader → List (Except CoreError (Option T)) × Reader
  | 0, stream => ([], stream)
  | n + 1, stream =>
    let r := readMessage fromSlice stream
    let rs := readMessages fromSlice n r.2
    (r.1 :: rs.1, rs.2)

/-- A message whose payload the reader accepts and decodes again. -/
def Legal (toVec : T → Except String (List UInt8)) (fromSlice : List UInt8 → Except String T)
    (msg : T) : Prop :=
  ∃ payload, toVec msg = .ok payload ∧ payload.length ≤ maxFrameBytes ∧ fromSlice payload = .ok msg

def wire (toVec : T → Except String (List UInt8)) (msgs : List T) : List UInt8 :=
  msgs.flatMap (fun msg => (toVec msg).toOption.toList.flatMap frame)

theorem writeMessages_wire {stream : Writer} (ha : stream.Accepts) {msgs : List T}
    (hm : ∀ msg ∈ msgs, Legal toVec fromSlice msg) :
    writeMessages toVec stream msgs = (msgs.map (fun _ => .ok ()),
      { stream with written := stream.written ++ wire toVec msgs }) := by
  induction msgs generalizing stream with
  | nil => simp [writeMessages, wire]
  | cons msg msgs ih =>
    obtain ⟨payload, hv, -, -⟩ := hm msg List.mem_cons_self
    have hms := fun m h => hm m (List.mem_cons_of_mem msg h)
    have hacc : Sink.Accepts { stream with written := stream.written ++ frame payload } := ha
    rw [writeMessages, writeMessage_accepts ha hv, ih hacc hms]
    simp [wire, hv, Except.toOption]

theorem readMessages_wire {stream : Reader} {msgs : List T} {rest : List UInt8}
    (hm : ∀ msg ∈ msgs, Legal toVec fromSlice msg)
    (hs : stream.bytes = wire toVec msgs ++ rest) :
    ∃ stream', readMessages fromSlice msgs.length stream =
      (msgs.map (fun msg => .ok (some msg)), stream') ∧
      stream'.bytes = rest ∧ stream'.failure = stream.failure := by
  induction msgs generalizing stream with
  | nil => exact ⟨stream, rfl, hs, rfl⟩
  | cons msg msgs ih =>
    obtain ⟨payload, hv, hp, hd⟩ := hm msg List.mem_cons_self
    have hms := fun m h => hm m (List.mem_cons_of_mem msg h)
    have hs' : stream.bytes = frame payload ++ (wire toVec msgs ++ rest) := by
      rw [hs]
      simp [wire, hv, Except.toOption]
    obtain ⟨s₁, h₁, hb₁, hf₁⟩ := readMessage_frame fromSlice hs' hp
    obtain ⟨s₂, h₂, hb₂, hf₂⟩ := ih hms hb₁
    refine ⟨s₂, ?_, hb₂, hf₂.trans hf₁⟩
    simp only [List.length_cons, readMessages, h₁, h₂, decoded, hd, List.map_cons]

/-- What `write_message` puts on an accepting stream, `read_message` gives back
in order, whatever chunks the bytes arrive in and whatever follows them. It
stops right behind the last frame and reports a clean end when the stream ends
there. -/
theorem codec_round_trip {stream : Writer} (ha : stream.Accepts) {msgs : List T}
    (hm : ∀ msg ∈ msgs, Legal toVec fromSlice msg) :
    ∃ bytes, writeMessages toVec stream msgs = (msgs.map (fun _ => .ok ()),
      { stream with written := stream.written ++ bytes }) ∧
      ∀ (reader : Reader) (rest : List UInt8), reader.bytes = bytes ++ rest →
        ∃ reader', readMessages fromSlice msgs.length reader =
          (msgs.map (fun msg => .ok (some msg)), reader') ∧ reader'.bytes = rest ∧
          (rest = [] → reader.failure = none → (readMessage fromSlice reader').1 = .ok none) := by
  refine ⟨wire toVec msgs, writeMessages_wire ha hm, ?_⟩
  intro reader rest hs
  obtain ⟨reader', hr, hb, hf⟩ := readMessages_wire hm hs
  refine ⟨reader', hr, hb, ?_⟩
  intro hnil hfail
  rw [readMessage_end (by rw [hb, hnil]) (by rw [hf, hfail])]

end Codec

def browsing : List ClientMessage := [.listHosts, .signal 7 5 9 "CONNECTREQUEST 5 x", .ping]

def decodeBrowsing (buf : List UInt8) : Except String ClientMessage :=
  match browsing.find? (fun msg => decide (msg.payload = buf)) with
  | some msg => .ok msg
  | none => .error "expected value"

def browsingReader : Reader where
  chunks := [(wire (fun msg : ClientMessage => .ok msg.payload) browsing).take 3,
    (wire (fun msg : ClientMessage => .ok msg.payload) browsing).drop 3 ++ [42]]
  nonempty := by decide +kernel
  failure := none

theorem codec_round_trip_browsing :
    ∃ reader', readMessages decodeBrowsing 3 browsingReader =
      (browsing.map (fun msg => .ok (some msg)), reader') ∧ reader'.bytes = [42] := by
  have hm : ∀ msg ∈ browsing, Legal (fun msg : ClientMessage => .ok msg.payload) decodeBrowsing msg :=
    fun msg hmem => ⟨msg.payload, rfl, by revert msg; decide +kernel, by revert msg; decide +kernel⟩
  have ha : Sink.Accepts (⟨[], none, none⟩ : Writer) := ⟨rfl, rfl⟩
  obtain ⟨bytes, hw, hr⟩ := codec_round_trip ha hm
  obtain rfl : wire (fun msg : ClientMessage => .ok msg.payload) browsing = bytes := by
    rw [writeMessages_wire ha hm] at hw
    simpa using hw
  obtain ⟨reader', h, hb, -⟩ := hr browsingReader [42] (by decide +kernel)
  exact ⟨reader', h, hb⟩

end Mineshaft.Core
