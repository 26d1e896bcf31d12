import Mineshaft.Core.Message
import Mineshaft.Lib.ByteStream

namespace Mineshaft.Core

open Mineshaft.Lib.ByteStream

def maxFrameBytes : Nat := 512 * 1024

inductive ErrorKind
  | unexpectedEof
  | other
  deriving DecidableEq

inductive CoreError
  | io (kind : ErrorKind)
  | frameTooLarge (len : Nat)
  | other (text : String)
  deriving DecidableEq

abbrev Reader := Source UInt8 ErrorKind

abbrev Writer := Sink UInt8 ErrorKind

def toLeBytes (n : UInt32) : List UInt8 :=
  [n.toUInt8, (n >>> 8).toUInt8, (n >>> 16).toUInt8, (n >>> 24).toUInt8]

def fromLeBytes (bytes : List UInt8) : UInt32 :=
  bytes.foldr (fun b n => b.toUInt32 + 256 * n) 0

/-- `read_message`, with `serde_json::from_slice` as a parameter that reports
the text of its error. -/
def readMessage {T : Type} (fromSlice : List UInt8 → Except String T) (stream : Reader) :
    Except CoreError (Option T) × Reader :=
  match readExact .unexpectedEof 4 stream with
  | (.error .unexpectedEof, stream) => (.ok none, stream)
  | (.error e, stream) => (.error (.io e), stream)
  | (.ok lenBuf, stream) =>
    let len := (fromLeBytes lenBuf).toNat
    if len > maxFrameBytes then (.error (.frameTooLarge len), stream)
    else
      match readExact .unexpectedEof len stream with
      | (.error e, stream) => (.error (.io e), stream)
      | (.ok buf, stream) =>
        match fromSlice buf with
        | .error e => (.error (.other ("bad message json: " ++ e)), stream)
        | .ok msg => (.ok (some msg), stream)

/-- The length prefix and the payload. The length is cast to 32 bits. -/
def frame (payload : List UInt8) : List UInt8 :=
  toLeBytes (UInt32.ofNat payload.length) ++ payload

/-- `write_message`, with `serde_json::to_vec` as a parameter. -/
def writeMessage {T : Type} (toVec : T → Except String (List UInt8)) (stream : Writer) (msg : T) :
    Except CoreError Unit × Writer :=
  match toVec msg with
  | .error e => (.error (.other ("json encode failed: " ++ e)), stream)
  | .ok payload =>
    match writeAll (frame payload) stream with
    | (.error e, stream) => (.error (.io e), stream)
    | (.ok _, stream) =>
      match flush stream with
      | .error e => (.error (.io e), stream)
      | .ok _ => (.ok (), stream)

theorem toLeBytes_length (n : UInt32) : (toLeBytes n).length = 4 := rfl

theorem fromLeBytes_toLeBytes (n : UInt32) : fromLeBytes (toLeBytes n) = n := by
  have hn := n.toNat_lt
  apply UInt32.toNat_inj.mp
  simp only [fromLeBytes, toLeBytes, List.foldr_cons, List.foldr_nil, UInt32.toNat_add,
    UInt32.toNat_mul, UInt8.toNat_toUInt32, UInt32.toNat_toUInt8, UInt32.toNat_shiftRight,
    UInt32.toNat_ofNat, Nat.shiftRight_eq_div_pow, Nat.reducePow, Nat.reduceMod]
  omega

theorem frame_len {payload : List UInt8} (h : payload.length ≤ maxFrameBytes) :
    (fromLeBytes (toLeBytes (UInt32.ofNat payload.length))).toNat = payload.length := by
  have hlt : payload.length < 2 ^ 32 := by
    unfold maxFrameBytes at h
    omega
  rw [fromLeBytes_toLeBytes, UInt32.toNat_ofNat_of_lt' hlt]

section Codec

variable {T : Type} {toVec : T → Except String (List UInt8)}
  {fromSlice : List UInt8 → Except String T}

def decoded (fromSlice : List UInt8 → Except String T) (payload : List UInt8) :
    Except CoreError (Option T) :=
  match fromSlice payload with
  | .error e => .error (.other ("bad message json: " ++ e))
  | .ok msg => .ok (some msg)

theorem readMessage_frame (fromSlice : List UInt8 → Except String T) {stream : Reader}
    {payload rest : List UInt8} (hs : stream.bytes = frame payload ++ rest)
    (hp : payload.length ≤ maxFrameBytes) :
    ∃ stream', readMessage fromSlice stream = (decoded fromSlice payload, stream') ∧
      stream'.bytes = rest ∧ stream'.failure = stream.failure := by
  rw [frame, List.append_assoc] at hs
  obtain ⟨s₁, h₁, hb₁, hf₁⟩ := readExact_append .unexpectedEof hs
  rw [toLeBytes_length] at h₁
  obtain ⟨s₂, h₂, hb₂, hf₂⟩ := readExact_append .unexpectedEof hb₁
  refine ⟨s₂, ?_, hb₂, hf₂.trans hf₁⟩
  have hle : ¬ payload.length > maxFrameBytes := by omega
  simp only [readMessage, h₁, frame_len hp, if_neg hle, h₂, decoded]
  cases fromSlice payload <;> rfl

theorem readMessage_end {stream : Reader} (hb : stream.bytes = []) (hf : stream.failure = none) :
    readMessage fromSlice stream = (.ok none, stream.drained) := by
  have hlt : stream.bytes.length < 4 := by simp [hb]
  simp only [readMessage, readExact_short .unexpectedEof hlt, hf, Option.getD_none]

theorem writeMessage_accepts {stream : Writer} (ha : stream.Accepts) {payload : List UInt8} {msg : T}
    (hm : toVec msg = .ok payload) :
    writeMessage toVec stream msg =
      (.ok (), { stream with written := stream.written ++ frame payload }) := by
  simp only [writeMessage, hm, writeAll, ha.1, flush, ha.2]

end Codec

end Mineshaft.Core
