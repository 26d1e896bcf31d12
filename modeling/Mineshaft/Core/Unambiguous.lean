import Mathlib.Data.List.Infix
import Mineshaft.Core.FrameLimit
import Mineshaft.Core.Truncation
import Mineshaft.Lib.JsonReader

namespace Mineshaft.Core

open Mineshaft.Lib Mineshaft.Lib.ByteStream

theorem u64_inj {n m : UInt64} : u64 n = u64 m ↔ n = m := by
  simp only [u64, Json.num.injEq, Int.natCast_inj, UInt64.toNat_inj]

theorem ServerAdvertisement.toJson_injective : Function.Injective ServerAdvertisement.toJson := by
  rintro ⟨⟩ ⟨⟩ h
  simp only [ServerAdvertisement.toJson, Json.obj.injEq, List.cons.injEq, Prod.mk.injEq, true_and,
    Json.str.injEq, Json.num.injEq, Json.bool.injEq, Int.natCast_inj, UInt8.toNat_inj,
    Int32.toInt_inj, and_true] at h
  simpa only [ServerAdvertisement.mk.injEq] using h

theorem AdvertisedServer.toJson_injective : Function.Injective AdvertisedServer.toJson := by
  rintro ⟨id, data⟩ ⟨id', data'⟩ h
  simp only [AdvertisedServer.toJson, Json.obj.injEq, List.cons.injEq, Prod.mk.injEq, true_and,
    u64_inj, and_true] at h
  rw [h.1, ServerAdvertisement.toJson_injective h.2]

theorem AdvertisedServer.toJson_inj {server server' : AdvertisedServer} :
    server.toJson = server'.toJson ↔ server = server' :=
  AdvertisedServer.toJson_injective.eq_iff

theorem ClientMessage.toJson_injective : Function.Injective ClientMessage.toJson := by
  intro msg msg' h
  cases msg <;> cases msg' <;>
    simp_all [ClientMessage.toJson, tagged, u64_inj, AdvertisedServer.toJson_inj]

theorem ServerMessage.toJson_injective : Function.Injective ServerMessage.toJson := by
  intro msg msg' h
  cases msg <;> cases msg' <;>
    simp_all [ServerMessage.toJson, tagged, u64_inj, AdvertisedServer.toJson_injective.list_map.eq_iff]

theorem toJson_ne (msg : ClientMessage) (msg' : ServerMessage) : msg.toJson ≠ msg'.toJson := by
  cases msg <;> cases msg' <;> simp [ClientMessage.toJson, ServerMessage.toJson, tagged]

theorem ClientMessage.toJson_ne_num (msg : ClientMessage) (n : Int) : msg.toJson ≠ .num n := by
  cases msg <;> simp [ClientMessage.toJson, tagged]

theorem ServerMessage.toJson_ne_num (msg : ServerMessage) (n : Int) : msg.toJson ≠ .num n := by
  cases msg <;> simp [ServerMessage.toJson, tagged]

/-- No payload is the beginning of another. -/
theorem ClientMessage.payload_prefixFree {msg msg' : ClientMessage} {x y : List UInt8}
    (h : msg.payload ++ x = msg'.payload ++ y) : msg = msg' :=
  ClientMessage.toJson_injective (Json.bytes_prefixFree msg.toJson_ne_num msg'.toJson_ne_num h)

theorem ServerMessage.payload_prefixFree {msg msg' : ServerMessage} {x y : List UInt8}
    (h : msg.payload ++ x = msg'.payload ++ y) : msg = msg' :=
  ServerMessage.toJson_injective (Json.bytes_prefixFree msg.toJson_ne_num msg'.toJson_ne_num h)

def ServerMessage.toVec (msg : ServerMessage) : Except String (List UInt8) := .ok msg.payload

section Frames

variable {T : Type} {payload : T → List UInt8}

theorem wire_cons (msg : T) (msgs : List T) :
    wire (fun msg => .ok (payload msg)) (msg :: msgs) =
      frame (payload msg) ++ wire (fun msg => .ok (payload msg)) msgs := by
  simp [wire, Except.toOption]

theorem frame_ne_nil (bytes : List UInt8) : frame bytes ≠ [] := by
  intro h
  have hl := frame_length bytes
  rw [h] at hl
  simp at hl
  omega

theorem frame_append_isPrefix {msg msg' : T} {x y : List UInt8}
    (hfree : ∀ {msg msg' x y}, payload msg ++ x = payload msg' ++ y → msg = msg') :
    frame (payload msg) ++ x <+: frame (payload msg') ++ y ↔ msg = msg' ∧ x <+: y := by
  constructor
  · rintro ⟨t, ht⟩
    simp only [frame, List.append_assoc] at ht
    obtain ⟨-, hp⟩ := List.append_inj ht rfl
    obtain rfl := hfree hp
    exact ⟨rfl, t, List.append_cancel_left hp⟩
  · rintro ⟨rfl, hxy⟩
    exact (List.prefix_append_right_inj _).mpr hxy

theorem wire_isPrefix {msgs msgs' : List T}
    (hfree : ∀ {msg msg' x y}, payload msg ++ x = payload msg' ++ y → msg = msg') :
    wire (fun msg => .ok (payload msg)) msgs <+: wire (fun msg => .ok (payload msg)) msgs' ↔
      msgs <+: msgs' := by
  induction msgs generalizing msgs' with
  | nil => simp [wire]
  | cons msg msgs ih =>
    cases msgs' with
    | nil =>
      rw [wire_cons]
      simp [wire, frame_ne_nil]
    | cons msg' msgs' =>
      rw [wire_cons, wire_cons, frame_append_isPrefix hfree, List.cons_prefix_cons, ih]

end Frames

/-- The bytes on a connection determine the messages. One stream of frames is
the beginning of another exactly when its messages are, in both directions, and
no payload is a message of both directions. -/
theorem wire_unambiguous :
    (∀ msgs msgs' : List ClientMessage,
      wire ClientMessage.toVec msgs <+: wire ClientMessage.toVec msgs' ↔ msgs <+: msgs') ∧
    (∀ msgs msgs' : List ServerMessage,
      wire ServerMessage.toVec msgs <+: wire ServerMessage.toVec msgs' ↔ msgs <+: msgs') ∧
    ∀ (msg : ClientMessage) (msg' : ServerMessage), msg.payload ≠ msg'.payload := by
  refine ⟨?_, ?_, ?_⟩
  · intro msgs msgs'
    exact wire_isPrefix ClientMessage.payload_prefixFree
  · intro msgs msgs'
    exact wire_isPrefix ServerMessage.payload_prefixFree
  · intro msg msg' h
    have hb : msg.payload ++ [] = msg'.payload ++ [] := by rw [h]
    exact toJson_ne msg msg' (Json.bytes_prefixFree msg.toJson_ne_num msg'.toJson_ne_num hb)

end Mineshaft.Core
