import Mineshaft.Core.RoundTrip

namespace Mineshaft.Core

open Mineshaft.Lib Mineshaft.Lib.ByteStream

section Codec

variable {T : Type} {toVec : T → Except String (List UInt8)}
  {fromSlice : List UInt8 → Except String T}

variable (toVec fromSlice) in
/-- Writer and reader agree on a message: a reader of just the bytes that were
written gets it back, and one that is too long for a reader is not written. -/
structure FramesAgree (stream : Writer) (msg : T) : Prop where
  readable : (writeMessage toVec stream msg).1 = .ok () →
    ∀ bytes, (writeMessage toVec stream msg).2.written = stream.written ++ bytes →
      ∀ reader : Reader, reader.bytes = bytes → (readMessage fromSlice reader).1 = .ok (some msg)
  refused : ∀ payload, toVec msg = .ok payload →
    payload.length > maxFrameBytes ∨ payload.length ≥ 2 ^ 32 →
    (∃ e, (writeMessage toVec stream msg).1 = .error e) ∧
      (writeMessage toVec stream msg).2.written = stream.written

theorem readMessage_tooLarge {reader : Reader} {payload rest : List UInt8}
    (hb : reader.bytes = frame payload ++ rest) (hlo : payload.length > maxFrameBytes)
    (hhi : payload.length < 2 ^ 32) :
    (readMessage fromSlice reader).1 = .error (.frameTooLarge payload.length) := by
  rw [frame, List.append_assoc] at hb
  obtain ⟨reader', hr, -, -⟩ := readExact_append .unexpectedEof hb
  rw [toLeBytes_length] at hr
  have hlen : (fromLeBytes (toLeBytes (UInt32.ofNat payload.length))).toNat = payload.length := by
    rw [fromLeBytes_toLeBytes, UInt32.toNat_ofNat_of_lt' hhi]
  simp only [readMessage, hr, hlen, if_pos hlo]

theorem readable_of_small {stream : Writer} (ha : stream.Accepts) {msg : T} {payload : List UInt8}
    (hv : toVec msg = .ok payload) (hd : fromSlice payload = .ok msg)
    (hp : payload.length ≤ maxFrameBytes) {bytes : List UInt8}
    (hw : (writeMessage toVec stream msg).2.written = stream.written ++ bytes) {reader : Reader}
    (hb : reader.bytes = bytes) : (readMessage fromSlice reader).1 = .ok (some msg) := by
  rw [writeMessage_accepts ha hv] at hw
  have hbytes : reader.bytes = frame payload ++ [] := by
    rw [hb, List.append_nil]
    exact (List.append_cancel_left hw).symm
  obtain ⟨reader', hr, -, -⟩ := readMessage_frame fromSlice hbytes hp
  rw [hr, decoded, hd]

/-- Writer and reader agree on exactly the messages whose payload is not longer
than the reader accepts: the writer never checks. -/
theorem frames_agree_iff {stream : Writer} (ha : stream.Accepts) (msg : T)
    (hd : ∀ payload, toVec msg = .ok payload → fromSlice payload = .ok msg) :
    FramesAgree toVec fromSlice stream msg ↔
      ∀ payload, toVec msg = .ok payload → payload.length ≤ maxFrameBytes := by
  constructor
  · intro h payload hv
    by_contra hlong
    obtain ⟨⟨e, he⟩, -⟩ := h.refused payload hv (Or.inl (not_le.mp hlong))
    rw [writeMessage_accepts ha hv] at he
    cases he
  · intro h
    constructor
    · intro hok bytes hw reader hb
      cases hv : toVec msg with
      | error e =>
        simp only [writeMessage, hv] at hok
        cases hok
      | ok payload => exact readable_of_small ha hv (hd payload hv) (h payload hv) hw hb
    · intro payload hv hlong
      have hp := h payload hv
      have hb : maxFrameBytes = 524288 := rfl
      omega

end Codec

/-- `serde_json::to_vec` on the messages of a client. -/
def ClientMessage.toVec (msg : ClientMessage) : Except String (List UInt8) := .ok msg.payload

theorem frames_agree_iff_browsing :
    FramesAgree ClientMessage.toVec decodeBrowsing (⟨[], none, none⟩ : Writer) .listHosts := by
  have hd : ∀ payload, ClientMessage.toVec .listHosts = .ok payload →
      decodeBrowsing payload = .ok .listHosts := by
    rintro payload hv
    cases hv
    decide +kernel
  refine (frames_agree_iff ⟨rfl, rfl⟩ ClientMessage.listHosts hd).mpr ?_
  rintro payload hv
  cases hv
  decide +kernel

def longSignal (n : Nat) : ClientMessage := .signal 7 5 9 (String.ofList (List.replicate n 'a'))

theorem longSignal_length (n : Nat) : (longSignal n).payload.length = n + 83 := by
  have hq := Json.quote_replicate (c := 'a') rfl rfl n
  have h1 : (Json.utf8 (Json.quote "Signal")).length = 8 := rfl
  have h2 : (Json.utf8 (Json.quote "target_sender_id")).length = 18 := rfl
  have h3 : (Json.utf8 (Json.quote "connection_id")).length = 15 := rfl
  have h4 : (Json.utf8 (Json.quote "joiner_network_id")).length = 19 := rfl
  have h5 : (Json.utf8 (Json.quote "data")).length = 6 := rfl
  have hu : (u64 7).bytes.length = 1 ∧ (u64 5).bytes.length = 1 ∧ (u64 9).bytes.length = 1 := by
    decide
  have hs : (Json.str (String.ofList (List.replicate n 'a'))).bytes.length = n + 2 := hq
  simp only [longSignal, ClientMessage.payload, ClientMessage.toJson, tagged, Json.bytes_obj_length,
    List.map_cons, List.map_nil, List.sum_cons, List.sum_nil, List.length_cons, List.length_nil,
    h1, h2, h3, h4, h5, hu.1, hu.2.1, hu.2.2, hs]
  omega

def longReader : Reader where
  chunks := [frame (longSignal 600000).payload]
  nonempty := by
    intro c hc
    rw [List.mem_singleton.mp hc, frame]
    simp [toLeBytes]
  failure := none

/-- A long signal is written without an error and refused by every reader. -/
theorem frames_agree_longSignal :
    writeMessage ClientMessage.toVec (⟨[], none, none⟩ : Writer) (longSignal 600000) =
      (.ok (), ⟨longReader.bytes, none, none⟩) ∧
    (∀ fromSlice : List UInt8 → Except String ClientMessage,
      (readMessage fromSlice longReader).1 = .error (.frameTooLarge 600083)) ∧
    ∀ fromSlice, ¬ FramesAgree ClientMessage.toVec fromSlice (⟨[], none, none⟩ : Writer)
      (longSignal 600000) := by
  have hlen := longSignal_length 600000
  have hb : longReader.bytes = frame (longSignal 600000).payload ++ [] := by
    simp [longReader, Source.bytes]
  have hmax : maxFrameBytes = 524288 := rfl
  have ha : Sink.Accepts (⟨[], none, none⟩ : Writer) := ⟨rfl, rfl⟩
  have hv : ClientMessage.toVec (longSignal 600000) = .ok (longSignal 600000).payload := rfl
  have hw : writeMessage ClientMessage.toVec (⟨[], none, none⟩ : Writer) (longSignal 600000) =
      (.ok (), ⟨longReader.bytes, none, none⟩) := by
    rw [writeMessage_accepts ha hv, hb, List.append_nil, List.nil_append]
  refine ⟨hw, ?_, ?_⟩
  · intro fromSlice
    rw [readMessage_tooLarge hb (by omega) (by omega), hlen]
  · intro fromSlice h
    obtain ⟨⟨e, he⟩, -⟩ := h.refused _ hv (Or.inl (by omega))
    rw [hw] at he
    cases he

end Mineshaft.Core
