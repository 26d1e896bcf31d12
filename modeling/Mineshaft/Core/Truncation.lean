import Mineshaft.Core.RoundTrip

namespace Mineshaft.Core

open Mineshaft.Lib.ByteStream

theorem toLeBytes_fromLeBytes {bytes : List UInt8} (h : bytes.length = 4) :
    toLeBytes (fromLeBytes bytes) = bytes := by
  match bytes, h with
  | [a, b, c, d], _ =>
    have ha := a.toNat_lt
    have hb := b.toNat_lt
    have hc := c.toNat_lt
    have hd := d.toNat_lt
    simp only [toLeBytes, fromLeBytes, List.foldr_cons, List.foldr_nil, List.cons.injEq, and_true]
    refine ⟨?_, ?_, ?_, ?_⟩ <;> apply UInt8.toNat_inj.mp <;>
      simp only [UInt32.toNat_toUInt8, UInt32.toNat_shiftRight, UInt32.toNat_add, UInt32.toNat_mul,
        UInt8.toNat_toUInt32, UInt32.toNat_ofNat, Nat.shiftRight_eq_div_pow, Nat.reducePow,
        Nat.reduceMod] <;>
      omega

def announced (bytes : List UInt8) : Nat := (fromLeBytes (bytes.take 4)).toNat

def InsidePrefix (bytes : List UInt8) : Prop := 0 < bytes.length ∧ bytes.length < 4

def InsidePayload (bytes : List UInt8) : Prop :=
  4 ≤ bytes.length ∧ bytes.length < 4 + announced bytes

theorem frame_length (payload : List UInt8) : (frame payload).length = 4 + payload.length := by
  rw [frame, List.length_append, toLeBytes_length]

theorem announced_frame {payload : List UInt8} (h : payload.length < 2 ^ 32) (rest : List UInt8) :
    announced (frame payload ++ rest) = payload.length := by
  rw [announced, frame, List.append_assoc, List.take_left' (toLeBytes_length _),
    fromLeBytes_toLeBytes, UInt32.toNat_ofNat_of_lt' h]

theorem frame_append_inj {p q x y : List UInt8} (hp : p.length < 2 ^ 32) (hq : q.length < 2 ^ 32)
    (h : frame p ++ x = frame q ++ y) : p = q ∧ x = y := by
  have hlen : p.length = q.length := by
    rw [← announced_frame hp x, ← announced_frame hq y, h]
  rw [frame, frame, hlen, List.append_assoc, List.append_assoc] at h
  exact List.append_inj (List.append_cancel_left h) hlen

theorem exists_frame {bytes : List UInt8} (h4 : 4 ≤ bytes.length)
    (h : 4 + announced bytes ≤ bytes.length) :
    ∃ payload rest, bytes = frame payload ++ rest ∧ payload.length = announced bytes := by
  have hlen : ((bytes.drop 4).take (announced bytes)).length = announced bytes := by
    rw [List.length_take, List.length_drop]
    omega
  refine ⟨(bytes.drop 4).take (announced bytes), (bytes.drop 4).drop (announced bytes), ?_, hlen⟩
  have htake : (bytes.take 4).length = 4 := by
    rw [List.length_take]
    omega
  rw [frame, hlen, List.append_assoc, List.take_append_drop, announced, UInt32.ofNat_toNat,
    toLeBytes_fromLeBytes htake, List.take_append_drop]

section Calls

variable {T : Type} {fromSlice : List UInt8 → Except String T}

theorem readMessage_cases (fromSlice : List UInt8 → Except String T) {stream : Reader}
    (hf : stream.failure = none) :
    (stream.bytes.length < 4 ∧ (readMessage fromSlice stream).1 = .ok none) ∨
    (∃ payload rest stream', stream.bytes = frame payload ++ rest ∧
      payload.length ≤ maxFrameBytes ∧
      readMessage fromSlice stream = (decoded fromSlice payload, stream') ∧
      stream'.bytes = rest ∧ stream'.failure = none) ∨
    (4 ≤ stream.bytes.length ∧
      (maxFrameBytes < announced stream.bytes ∨ InsidePayload stream.bytes) ∧
      ∃ e, (readMessage fromSlice stream).1 = .error e) := by
  by_cases h4 : stream.bytes.length < 4
  · refine Or.inl ⟨h4, ?_⟩
    simp only [readMessage, readExact_short .unexpectedEof h4, hf, Option.getD_none]
  · rw [not_lt] at h4
    obtain ⟨s₁, h₁, hb₁, hf₁⟩ := readExact_ok .unexpectedEof h4
    by_cases hmax : announced stream.bytes > maxFrameBytes
    · refine Or.inr (Or.inr ⟨h4, Or.inl hmax, .frameTooLarge (announced stream.bytes), ?_⟩)
      unfold announced at hmax ⊢
      simp only [readMessage, h₁, if_pos hmax]
    · by_cases hlen : 4 + announced stream.bytes ≤ stream.bytes.length
      · obtain ⟨payload, rest, hb, hp⟩ := exists_frame h4 hlen
        have hp' : payload.length ≤ maxFrameBytes := by omega
        obtain ⟨s₂, h₂, hb₂, hf₂⟩ := readMessage_frame fromSlice hb hp'
        exact Or.inr (Or.inl ⟨payload, rest, s₂, hb, hp', h₂, hb₂, hf₂.trans hf⟩)
      · refine Or.inr (Or.inr ⟨h4, Or.inr ⟨h4, by omega⟩, .io .unexpectedEof, ?_⟩)
        have hshort : s₁.bytes.length < announced stream.bytes := by
          rw [hb₁, List.length_drop]
          omega
        unfold announced at hmax hshort
        simp only [readMessage, h₁, if_neg hmax, readExact_short .unexpectedEof hshort, hf₁, hf,
          Option.getD_none]

variable (fromSlice) in
/-- The bytes are complete frames of these messages, one after the other, and
then the rest. -/
inductive Framed : List UInt8 → List T → List UInt8 → Prop
  | nil (rest : List UInt8) : Framed rest [] rest
  | cons {payload bytes rest : List UInt8} {msg : T} {msgs : List T} :
      payload.length ≤ maxFrameBytes → fromSlice payload = .ok msg → Framed bytes msgs rest →
      Framed (frame payload ++ bytes) (msg :: msgs) rest

variable (fromSlice) in
/-- The calls return these messages and then, as the last call, `last`. -/
def Ends (stream : Reader) (msgs : List T) (last : Except CoreError (Option T)) : Prop :=
  (∀ msg, last ≠ .ok (some msg)) ∧
    ∃ stream', readMessages fromSlice msgs.length stream =
      (msgs.map (fun msg => .ok (some msg)), stream') ∧ (readMessage fromSlice stream').1 = last

variable (fromSlice) in
/-- A clean end is reported only behind complete frames that were all returned,
and a stream that was cut makes the last call fail. -/
structure CutsReported (stream : Reader) : Prop where
  clean : ∀ msgs, Ends fromSlice stream msgs (.ok none) → Framed fromSlice stream.bytes msgs []
  cut : ∀ (payloads : List (List UInt8)) rest, stream.bytes = payloads.flatMap frame ++ rest →
    (∀ p ∈ payloads, p.length < 2 ^ 32) → InsidePrefix rest ∨ InsidePayload rest →
    ∃ msgs e, Ends fromSlice stream msgs (.error e)

theorem maxFrameBytes_lt {payload : List UInt8} (h : payload.length ≤ maxFrameBytes) :
    payload.length < 2 ^ 32 := by
  unfold maxFrameBytes at h
  omega

theorem decoded_eq_some {payload : List UInt8} {msg : T} :
    decoded fromSlice payload = .ok (some msg) ↔ fromSlice payload = .ok msg := by
  unfold decoded
  cases fromSlice payload <;> simp

theorem Framed.read {bytes rest : List UInt8} {msgs : List T} (h : Framed fromSlice bytes msgs rest)
    {stream : Reader} (hb : stream.bytes = bytes) :
    ∃ stream', readMessages fromSlice msgs.length stream =
      (msgs.map (fun msg => .ok (some msg)), stream') ∧ stream'.bytes = rest ∧
      stream'.failure = stream.failure := by
  induction h generalizing stream with
  | nil rest => exact ⟨stream, rfl, hb, rfl⟩
  | cons hp hd _ ih =>
    obtain ⟨s₁, h₁, hb₁, hf₁⟩ := readMessage_frame fromSlice hb hp
    obtain ⟨s₂, h₂, hb₂, hf₂⟩ := ih hb₁
    refine ⟨s₂, ?_, hb₂, hf₂.trans hf₁⟩
    rw [decoded_eq_some.mpr hd] at h₁
    simp only [List.length_cons, readMessages, h₁, h₂, List.map_cons]

theorem framed_of_read {msgs : List T} {stream stream' : Reader} (hf : stream.failure = none)
    (h : readMessages fromSlice msgs.length stream =
      (msgs.map (fun msg => .ok (some msg)), stream')) :
    Framed fromSlice stream.bytes msgs stream'.bytes ∧ stream'.failure = none := by
  induction msgs generalizing stream with
  | nil =>
    cases h
    exact ⟨Framed.nil _, hf⟩
  | cons msg msgs ih =>
    simp only [List.length_cons, readMessages, List.map_cons, Prod.mk.injEq, List.cons.injEq] at h
    obtain ⟨⟨hfirst, hrest⟩, hlast⟩ := h
    obtain ⟨-, hn⟩ | ⟨payload, rest, s₁, hb, hp, h₁, hb₁, hf₁⟩ | ⟨-, -, e, he⟩ :=
      readMessage_cases fromSlice hf
    · rw [hn] at hfirst
      cases hfirst
    · rw [h₁] at hfirst hrest hlast
      obtain ⟨hfr, hf'⟩ := ih hf₁ (Prod.ext hrest hlast)
      rw [hb₁] at hfr
      rw [hb]
      exact ⟨Framed.cons hp (decoded_eq_some.mp hfirst) hfr, hf'⟩
    · rw [he] at hfirst
      cases hfirst

theorem Framed.ends {msgs : List T} {rest : List UInt8} {stream : Reader}
    (hf : stream.failure = none) (h : Framed fromSlice stream.bytes msgs rest)
    (hr : rest.length < 4) : Ends fromSlice stream msgs (.ok none) := by
  obtain ⟨stream', hread, hb, hf'⟩ := h.read rfl
  refine ⟨by simp, stream', hread, ?_⟩
  obtain ⟨-, hn⟩ | ⟨payload, _, -, hb', -⟩ | ⟨h4, -⟩ := readMessage_cases fromSlice (hf'.trans hf)
  · exact hn
  · rw [← hb, hb', List.length_append, frame_length] at hr
    omega
  · rw [hb] at h4
    omega

theorem exists_ends (n : Nat) {stream : Reader} (hn : stream.bytes.length ≤ n)
    (hf : stream.failure = none) :
    (∃ msgs rest, Framed fromSlice stream.bytes msgs rest ∧ rest.length < 4) ∨
      ∃ msgs e, Ends fromSlice stream msgs (.error e) := by
  induction n generalizing stream with
  | zero => exact Or.inl ⟨[], stream.bytes, Framed.nil _, by omega⟩
  | succ n ih =>
    obtain ⟨h4, -⟩ | ⟨payload, rest, s₁, hb, hp, h₁, hb₁, hf₁⟩ | ⟨-, -, e, he⟩ :=
      readMessage_cases fromSlice hf
    · exact Or.inl ⟨[], stream.bytes, Framed.nil _, h4⟩
    · cases hd : fromSlice payload with
      | error e =>
        refine Or.inr ⟨[], .other ("bad message json: " ++ e), by simp, stream, rfl, ?_⟩
        rw [h₁, decoded, hd]
      | ok msg =>
        have hlen : s₁.bytes.length ≤ n := by
          rw [hb, List.length_append, frame_length] at hn
          rw [hb₁]
          omega
        rw [hb]
        obtain ⟨msgs, rest', hfr, hr⟩ | ⟨msgs, e, hne, stream', hread, hlast⟩ := ih hlen hf₁
        · rw [hb₁] at hfr
          exact Or.inl ⟨msg :: msgs, rest', Framed.cons hp hd hfr, hr⟩
        · refine Or.inr ⟨msg :: msgs, e, by simp, stream', ?_, hlast⟩
          rw [decoded_eq_some.mpr hd] at h₁
          simp only [List.length_cons, readMessages, h₁, hread, List.map_cons]
    · exact Or.inr ⟨[], e, by simp, stream, rfl, he⟩

theorem Framed.not_cut {bytes tail : List UInt8} {msgs : List T}
    (h : Framed fromSlice bytes msgs tail) (htail : tail = []) {payloads : List (List UInt8)}
    {rest : List UInt8} (hb : bytes = payloads.flatMap frame ++ rest)
    (hp : ∀ p ∈ payloads, p.length < 2 ^ 32) : ¬ (InsidePrefix rest ∨ InsidePayload rest) := by
  induction h generalizing payloads with
  | nil tail =>
    have hnil : payloads.flatMap frame ++ rest = [] := by rw [← hb, htail]
    rw [(List.append_eq_nil_iff.mp hnil).2]
    simp [InsidePrefix, InsidePayload]
  | @cons payload bytes tail msg msgs hle _ _ ih =>
    have hlt := maxFrameBytes_lt hle
    cases payloads with
    | nil =>
      have hrest : rest = frame payload ++ bytes := by simpa using hb.symm
      rw [InsidePrefix, InsidePayload, hrest, announced_frame hlt, List.length_append, frame_length]
      omega
    | cons q payloads =>
      rw [List.flatMap_cons, List.append_assoc] at hb
      obtain ⟨-, hbytes⟩ := frame_append_inj hlt (hp q List.mem_cons_self) hb
      exact ih htail hbytes (fun p hm => hp p (List.mem_cons_of_mem _ hm))

/-- A cut is reported exactly when it does not leave the first bytes of a length
prefix behind complete frames: there the two reads of a call differ. -/
theorem cuts_reported_iff {stream : Reader} (hf : stream.failure = none) :
    CutsReported fromSlice stream ↔
      ¬ ∃ msgs rest, Framed fromSlice stream.bytes msgs rest ∧ InsidePrefix rest := by
  constructor
  · rintro hc ⟨msgs, rest, hfr, hlo, hhi⟩
    obtain ⟨s₁, h₁, hb₁, -⟩ := hfr.read rfl
    obtain ⟨s₂, h₂, hb₂, -⟩ := (hc.clean msgs (hfr.ends hf hhi)).read rfl
    rw [h₁] at h₂
    cases h₂
    rw [← hb₁, hb₂] at hlo
    exact absurd hlo (by simp)
  · intro hn
    constructor
    · rintro msgs ⟨-, stream', hread, hlast⟩
      obtain ⟨hfr, hf'⟩ := framed_of_read hf hread
      have hnil : stream'.bytes = [] := by
        obtain ⟨h4, -⟩ | ⟨payload, _, _, -, -, h₁, -⟩ | ⟨-, -, e, he⟩ := readMessage_cases fromSlice hf'
        · by_contra hne
          exact hn ⟨msgs, _, hfr, List.length_pos_iff.mpr hne, h4⟩
        · rw [h₁, decoded] at hlast
          cases hd : fromSlice payload <;> simp [hd] at hlast
        · rw [he] at hlast
          cases hlast
      rw [hnil] at hfr
      exact hfr
    · intro payloads rest hb hp hcut
      obtain ⟨msgs, rest', hfr, hr⟩ | hend := exists_ends _ le_rfl hf
      · have hnil : rest' = [] := by
          by_contra hne
          exact hn ⟨msgs, rest', hfr, List.length_pos_iff.mpr hne, hr⟩
        exact absurd hcut (hfr.not_cut hnil hb hp)
      · exact hend

end Calls

def endingReader (byte : UInt8) (bytes : List UInt8) : Reader where
  chunks := [byte :: bytes]
  nonempty := by simp
  failure := none

/-- A frame that is cut after the first two bytes of its payload. -/
theorem cuts_reported_payload :
    CutsReported decodeBrowsing (endingReader 11 [0, 0, 0, 34, 76]) ∧
      InsidePayload (endingReader 11 [0, 0, 0, 34, 76]).bytes := by
  have hin : InsidePayload (endingReader 11 [0, 0, 0, 34, 76]).bytes := by
    unfold InsidePayload
    decide
  refine ⟨(cuts_reported_iff rfl).mpr ?_, hin⟩
  rintro ⟨msgs, rest, hfr, hpre⟩
  generalize hb : (endingReader 11 [0, 0, 0, 34, 76]).bytes = bytes at hfr hin
  cases hfr with
  | nil =>
    rw [← hb] at hpre
    exact absurd hpre.2 (by decide)
  | @cons payload bytes' _ msg msgs hle _ _ =>
    have hlt := maxFrameBytes_lt hle
    rw [InsidePayload, announced_frame hlt, List.length_append, frame_length] at hin
    omega

/-- A whole frame and the first two bytes of the next prefix: the last call
reports a clean end. -/
theorem cuts_reported_prefix :
    (endingReader 11 ([0, 0, 0] ++ (ClientMessage.payload .listHosts ++ [11, 0]))).bytes =
        frame (ClientMessage.payload .listHosts) ++ [11, 0] ∧
      InsidePrefix [11, 0] ∧
      Ends decodeBrowsing (endingReader 11 ([0, 0, 0] ++ (ClientMessage.payload .listHosts ++ [11, 0])))
        [.listHosts] (.ok none) ∧
      ¬ CutsReported decodeBrowsing
        (endingReader 11 ([0, 0, 0] ++ (ClientMessage.payload .listHosts ++ [11, 0]))) := by
  have hb : (endingReader 11 ([0, 0, 0] ++ (ClientMessage.payload .listHosts ++ [11, 0]))).bytes =
      frame (ClientMessage.payload .listHosts) ++ [11, 0] := by decide +kernel
  have hpre : InsidePrefix [11, 0] := by
    unfold InsidePrefix
    decide
  have hfr : Framed decodeBrowsing
      (endingReader 11 ([0, 0, 0] ++ (ClientMessage.payload .listHosts ++ [11, 0]))).bytes
      [.listHosts] [11, 0] := by
    rw [hb]
    exact Framed.cons (by decide +kernel) (by decide +kernel) (Framed.nil _)
  refine ⟨hb, hpre, hfr.ends rfl hpre.2, ?_⟩
  rw [cuts_reported_iff rfl, not_not]
  exact ⟨_, _, hfr, hpre⟩

end Mineshaft.Core
