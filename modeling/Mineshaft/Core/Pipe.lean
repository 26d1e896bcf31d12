import Mineshaft.Core.FrameLimit
import Mineshaft.Core.Truncation
import Mineshaft.Lib.Fifo

namespace Mineshaft.Core

open Mineshaft.Lib Mineshaft.Lib.ByteStream Mineshaft.Lib.Transition

/-- Where a call of `read_message` waits for bytes, or what it has returned. -/
inductive Reading (T : Type)
  | length (buf : List UInt8)
  | body (len : Nat) (buf : List UInt8)
  | returned (result : Except CoreError (Option T))

namespace Reading

variable {T : Type}

def start : Reading T := .length []

def room : Reading T → Nat
  | .length buf => 4 - buf.length
  | .body len buf => len - buf.length
  | .returned _ => 0

/-- One underlying read has delivered bytes. A `read_exact` for no bytes at all
does not wait. -/
def feed (fromSlice : List UInt8 → Except String T) (bytes : List UInt8) : Reading T → Reading T
  | .length buf =>
    if (buf ++ bytes).length < 4 then .length (buf ++ bytes)
    else
      let len := (fromLeBytes (buf ++ bytes)).toNat
      if len > maxFrameBytes then .returned (.error (.frameTooLarge len))
      else if len = 0 then .returned (decoded fromSlice [])
      else .body len []
  | .body len buf =>
    if (buf ++ bytes).length < len then .body len (buf ++ bytes)
    else .returned (decoded fromSlice (buf ++ bytes))
  | .returned result => .returned result

def fail (e : ErrorKind) : Reading T → Reading T
  | .length _ =>
    match e with
    | .unexpectedEof => .returned (.ok none)
    | e => .returned (.error (.io e))
  | .body _ _ => .returned (.error (.io e))
  | .returned result => .returned result

def held : Reading T → List UInt8
  | .length buf => buf
  | .body len buf => toLeBytes (UInt32.ofNat len) ++ buf
  | .returned _ => []

def Waits : Reading T → Prop
  | .length buf => buf.length < 4
  | .body len buf => buf.length < len ∧ len ≤ maxFrameBytes
  | .returned _ => False

end Reading

section Readings

variable {T : Type} {fromSlice : List UInt8 → Except String T}

theorem Reading.Waits.ne_returned {call : Reading T} (hw : call.Waits)
    (result : Except CoreError (Option T)) : call ≠ .returned result := by
  rintro rfl
  exact hw

variable (fromSlice) in
theorem feed_cases {call : Reading T} {bytes : List UInt8} (hw : call.Waits)
    (hn : bytes.length ≤ call.room) :
    ((call.feed fromSlice bytes).Waits ∧ (call.feed fromSlice bytes).held = call.held ++ bytes) ∨
    (maxFrameBytes < announced (call.held ++ bytes) ∧ (call.held ++ bytes).length = 4 ∧
      call.feed fromSlice bytes = .returned (.error (.frameTooLarge (announced (call.held ++ bytes))))) ∨
    (∃ payload, call.held ++ bytes = frame payload ∧ payload.length ≤ maxFrameBytes ∧
      call.feed fromSlice bytes = .returned (decoded fromSlice payload)) := by
  cases call with
  | returned result => exact hw.elim
  | length buf =>
    simp only [Reading.Waits, Reading.room, Reading.held] at hw hn ⊢
    by_cases h4 : (buf ++ bytes).length < 4
    · refine Or.inl ?_
      rw [Reading.feed, if_pos h4]
      exact ⟨h4, rfl⟩
    · have hlen : (buf ++ bytes).length = 4 := by
        rw [List.length_append] at h4 ⊢
        omega
      have ha : announced (buf ++ bytes) = (fromLeBytes (buf ++ bytes)).toNat := by
        rw [announced, List.take_of_length_le (by omega)]
      have hle : toLeBytes (UInt32.ofNat (fromLeBytes (buf ++ bytes)).toNat) = buf ++ bytes := by
        rw [UInt32.ofNat_toNat, toLeBytes_fromLeBytes hlen]
      rw [Reading.feed, if_neg h4]
      by_cases hmax : (fromLeBytes (buf ++ bytes)).toNat > maxFrameBytes
      · exact Or.inr (Or.inl ⟨by rw [ha]; exact hmax, hlen, by rw [if_pos hmax, ha]⟩)
      · by_cases h0 : (fromLeBytes (buf ++ bytes)).toNat = 0
        · refine Or.inr (Or.inr ⟨[], ?_, by simp, by rw [if_neg hmax, if_pos h0]⟩)
          rw [frame, List.append_nil, List.length_nil, ← h0, hle]
        · refine Or.inl ?_
          rw [if_neg hmax, if_neg h0]
          refine ⟨⟨by simpa using Nat.pos_of_ne_zero h0, not_lt.mp hmax⟩, ?_⟩
          simp only [List.append_nil, hle]
  | body len buf =>
    simp only [Reading.Waits, Reading.room, Reading.held] at hw hn ⊢
    by_cases hlt : (buf ++ bytes).length < len
    · refine Or.inl ?_
      rw [Reading.feed, if_pos hlt]
      exact ⟨⟨hlt, hw.2⟩, by simp only [List.append_assoc]⟩
    · have hlen : (buf ++ bytes).length = len := by
        rw [List.length_append] at hlt ⊢
        omega
      refine Or.inr (Or.inr ⟨buf ++ bytes, ?_, by omega, by rw [Reading.feed, if_neg hlt]⟩)
      rw [frame, hlen, List.append_assoc]

theorem readMessage_announced {stream : Reader} {lenBuf rest : List UInt8}
    (hb : stream.bytes = lenBuf ++ rest) (h4 : lenBuf.length = 4)
    (hmax : maxFrameBytes < announced lenBuf) :
    ∃ stream', readMessage fromSlice stream = (.error (.frameTooLarge (announced lenBuf)), stream') ∧
      stream'.bytes = rest := by
  obtain ⟨stream', hr, hrest, -⟩ := readExact_append .unexpectedEof hb
  rw [h4] at hr
  have ha : announced lenBuf = (fromLeBytes lenBuf).toNat := by
    rw [announced, List.take_of_length_le (by omega)]
  rw [ha] at hmax ⊢
  exact ⟨stream', by simp only [readMessage, hr, if_pos hmax], hrest⟩

inductive Feeds (fromSlice : List UInt8 → Except String T) :
    Reading T → List (List UInt8) → Reading T → Prop
  | nil (call : Reading T) : Feeds fromSlice call [] call
  | cons {call call' : Reading T} {bytes : List UInt8} {pieces : List (List UInt8)} :
      call.Waits → bytes.length ≤ call.room → Feeds fromSlice (call.feed fromSlice bytes) pieces call' →
      Feeds fromSlice call (bytes :: pieces) call'

/-- However the bytes of a stream are delivered to a call, it returns what
`read_message` returns for that stream, and leaves the same bytes. -/
theorem Feeds.readMessage {call call' : Reading T} {pieces : List (List UInt8)}
    (hf : Feeds fromSlice call pieces call') {result : Except CoreError (Option T)}
    (hc : call' = .returned result) (hw : call.Waits) {stream : Reader} {rest : List UInt8}
    (hb : stream.bytes = call.held ++ pieces.flatten ++ rest) :
    ∃ stream', Core.readMessage fromSlice stream = (result, stream') ∧ stream'.bytes = rest := by
  induction hf with
  | nil call =>
    subst hc
    exact hw.elim
  | @cons call call' bytes pieces _ hn hfeeds ih =>
    have hb' : stream.bytes = (call.held ++ bytes) ++ (pieces.flatten ++ rest) := by
      rw [hb]
      simp
    obtain ⟨hw', hh⟩ | ⟨hmax, h4, hr⟩ | ⟨payload, hp, hle, hr⟩ :=
      feed_cases fromSlice hw hn
    · refine ih hc hw' ?_
      simp only [hh, hb', List.append_assoc]
    · obtain ⟨rfl, hnil⟩ : result = .error (.frameTooLarge (announced (call.held ++ bytes))) ∧
          pieces = [] := by
        rw [hr] at hfeeds
        cases hfeeds with
        | nil => cases hc; exact ⟨rfl, rfl⟩
        | cons hwait _ _ => exact hwait.elim
      rw [hnil, List.flatten_nil, List.nil_append] at hb'
      exact readMessage_announced hb' h4 hmax
    · obtain ⟨rfl, hnil⟩ : result = decoded fromSlice payload ∧ pieces = [] := by
        rw [hr] at hfeeds
        cases hfeeds with
        | nil => cases hc; exact ⟨rfl, rfl⟩
        | cons hwait _ _ => exact hwait.elim
      rw [hnil, List.flatten_nil, List.nil_append, hp] at hb'
      obtain ⟨stream', hread, hrest, -⟩ := readMessage_frame fromSlice hb' hle
      exact ⟨stream', hread, hrest⟩

end Readings

/-- One direction of a connection: the bytes that were written and not read,
whether the stream still takes bytes, and the call that reads. -/
structure Pipe (T : Type) where
  flight : List UInt8
  writable : Bool
  call : Reading T

namespace Pipe

/-- A frame is written, on a stream that takes only so many bytes or fails to
flush; the writing end goes away; one underlying read delivers `n` bytes or
fails; the reader uses the message of a call and makes the next one. -/
inductive Label (T : Type)
  | write (msg : T) (limit : Option Nat) (flushed : Bool)
  | close
  | receive (n : Nat)
  | fail (e : ErrorKind)
  | next

def sink (limit : Option Nat) (flushed : Bool) : Writer :=
  ⟨[], limit.map (fun n => (n, .other)), if flushed then none else some .other⟩

def usable : Except CoreError Unit → Bool
  | .error (.io _) => false
  | _ => true

variable {T : Type} (toVec : T → Except String (List UInt8))
variable (fromSlice : List UInt8 → Except String T)

/-- A stream ends when nothing is in flight and nobody writes; it can break at
any time, and then the bytes in flight are lost. -/
def step (p : Pipe T) : Label T → Option (Pipe T)
  | .write msg limit flushed =>
    let r := writeMessage toVec (sink limit flushed) msg
    if p.writable then
      some { p with flight := p.flight ++ r.2.written, writable := usable r.1 }
    else none
  | .close => some { p with writable := false }
  | .receive n =>
    if 0 < n ∧ n ≤ p.call.room ∧ n ≤ p.flight.length then
      some { p with flight := p.flight.drop n, call := p.call.feed fromSlice (p.flight.take n) }
    else none
  | .fail e =>
    if e = .unexpectedEof → p.flight = [] ∧ p.writable = false then
      match p.call with
      | .returned _ => none
      | call => some ⟨[], false, call.fail e⟩
    else none
  | .next =>
    match p.call with
    | .returned (.ok (some _)) => some { p with call := .start }
    | _ => none

def machine : Machine (Pipe T) (Label T) := ⟨⟨[], true, .start⟩, step toVec fromSlice⟩

def whole (msg : T) (limit : Option Nat) (flushed : Bool) : Bool :=
  match toVec msg with
  | .ok payload => decide ((writeMessage toVec (sink limit flushed) msg).2.written = frame payload)
  | .error _ => false

/-- What a step is on the level of messages. -/
def observe (e : Transition.Event (Pipe T) (Label T)) : Option (Fifo.Op T) :=
  match e.label with
  | .write msg limit flushed => if whole toVec msg limit flushed then some (.put msg) else none
  | .next =>
    match e.pre.call with
    | .returned (.ok (some msg)) => some (.get msg)
    | _ => none
  | .close | .receive _ | .fail _ => none

def written (h : List (Transition.Event (Pipe T) (Label T))) : List T :=
  (h.filterMap (observe toVec)).reverse.filterMap Fifo.Op.putted

def used (h : List (Transition.Event (Pipe T) (Label T))) : List T :=
  (h.filterMap (observe toVec)).reverse.filterMap Fifo.Op.gotten

/-- The bytes begin with the frames of the messages. Behind them is nothing, or
the beginning of a frame whose write has failed. -/
def Ahead (writable : Bool) (bytes : List UInt8) (msgs : List T) : Prop :=
  ∃ tail, bytes = wire toVec msgs ++ tail ∧
    (tail = [] ∨ writable = false ∧ ∃ payload, payload.length ≤ maxFrameBytes ∧
      tail <+: frame payload ∧ tail.length < (frame payload).length)

/-- The messages of the queue are on the way: the first one is the result of the
call, or they are all in the bytes that it holds and those in flight. A call
that has reported the end or a failure reads nothing more. -/
def Carries (p : Pipe T) (queue : List T) : Prop :=
  match p.call with
  | .returned (.ok (some msg)) => ∃ rest, queue = msg :: rest ∧ Ahead toVec p.writable p.flight rest
  | .returned (.ok none) => True
  | .returned (.error e) => ∃ kind, e = .io kind
  | call => call.Waits ∧ Ahead toVec p.writable (call.held ++ p.flight) queue

variable {toVec fromSlice}

theorem written_cases {msg : T} {payload : List UInt8} (hv : toVec msg = .ok payload)
    (limit : Option Nat) (flushed : Bool) :
    (writeMessage toVec (sink limit flushed) msg).2.written = frame payload ∨
      usable (writeMessage toVec (sink limit flushed) msg).1 = false ∧
        (writeMessage toVec (sink limit flushed) msg).2.written <+: frame payload ∧
        (writeMessage toVec (sink limit flushed) msg).2.written.length < (frame payload).length := by
  cases limit with
  | none =>
    refine Or.inl ?_
    simp only [writeMessage, hv, writeAll, sink, Option.map_none, List.nil_append]
    split <;> rfl
  | some n =>
    by_cases hn : (frame payload).length ≤ n
    · refine Or.inl ?_
      simp only [writeMessage, hv, writeAll, sink, Option.map_some, if_pos hn, List.nil_append]
      split <;> rfl
    · refine Or.inr ?_
      simp only [writeMessage, hv, writeAll, sink, Option.map_some, if_neg hn, List.nil_append,
        usable, true_and]
      refine ⟨List.take_prefix _ _, ?_⟩
      rw [List.length_take]
      omega

theorem wire_append (msgs msgs' : List T) :
    wire toVec (msgs ++ msgs') = wire toVec msgs ++ wire toVec msgs' :=
  List.flatMap_append

theorem wire_single {msg : T} {payload : List UInt8} (hv : toVec msg = .ok payload) :
    wire toVec [msg] = frame payload := by
  simp [wire, hv, Except.toOption]

theorem Ahead.close {writable : Bool} {bytes : List UInt8} {msgs : List T}
    (ha : Ahead toVec writable bytes msgs) : Ahead toVec false bytes msgs := by
  obtain ⟨tail, hb, ht⟩ := ha
  exact ⟨tail, hb, ht.imp_right (fun h => ⟨rfl, h.2⟩)⟩

theorem Ahead.write {bytes : List UInt8} {msgs : List T} (ha : Ahead toVec true bytes msgs) {msg : T}
    (hl : Legal toVec fromSlice msg) (limit : Option Nat) (flushed : Bool) :
    Ahead toVec (usable (writeMessage toVec (sink limit flushed) msg).1)
      (bytes ++ (writeMessage toVec (sink limit flushed) msg).2.written)
      (if whole toVec msg limit flushed then msgs ++ [msg] else msgs) := by
  obtain ⟨tail, hb, rfl | ⟨hf, -⟩⟩ := ha
  · obtain ⟨payload, hv, hp, -⟩ := hl
    rw [List.append_nil] at hb
    obtain hw | ⟨hu, hpre, hlt⟩ := written_cases hv limit flushed
    · have hwhole : whole toVec msg limit flushed = true := by
        simp only [whole, hv, hw, decide_true]
      rw [hwhole, if_pos rfl, hw, hb]
      exact ⟨[], by rw [wire_append, wire_single hv, List.append_nil], Or.inl rfl⟩
    · have hwhole : whole toVec msg limit flushed = false := by
        simp only [whole, hv, decide_eq_false_iff_not]
        intro h
        rw [h] at hlt
        exact lt_irrefl _ hlt
      rw [hwhole, hu, hb]
      exact ⟨_, rfl, Or.inr ⟨rfl, payload, hp, hpre, hlt⟩⟩
  · cases hf

theorem Ahead.announced_le {writable : Bool} {bytes : List UInt8} {msgs : List T}
    (ha : Ahead toVec writable bytes msgs) (hl : ∀ msg ∈ msgs, Legal toVec fromSlice msg)
    (h4 : 4 ≤ bytes.length) : announced bytes ≤ maxFrameBytes := by
  obtain ⟨tail, rfl, ht⟩ := ha
  cases msgs with
  | nil =>
    obtain rfl | ⟨-, payload, hp, ⟨t, hpre⟩, -⟩ := ht
    · simp [wire] at h4
    · have hnil : wire toVec ([] : List T) ++ tail = tail := rfl
      rw [hnil] at h4 ⊢
      have ha : announced tail = announced (frame payload ++ []) := by
        rw [List.append_nil, announced, announced, ← hpre, List.take_append_of_le_length h4]
      rw [ha, announced_frame (maxFrameBytes_lt hp)]
      exact hp
  | cons msg msgs =>
    obtain ⟨payload, hv, hp, -⟩ := hl msg List.mem_cons_self
    rw [← List.singleton_append, wire_append, wire_single hv, List.append_assoc,
      announced_frame (maxFrameBytes_lt hp)]
    exact hp

theorem Ahead.frame {writable : Bool} {payload rest : List UInt8} {msgs : List T}
    (ha : Ahead toVec writable (frame payload ++ rest) msgs)
    (hl : ∀ msg ∈ msgs, Legal toVec fromSlice msg) (hp : payload.length ≤ maxFrameBytes) :
    ∃ msg msgs', msgs = msg :: msgs' ∧ fromSlice payload = .ok msg ∧
      Ahead toVec writable rest msgs' := by
  obtain ⟨tail, hb, ht⟩ := ha
  have hlt := maxFrameBytes_lt hp
  cases msgs with
  | nil =>
    have hb' : Core.frame payload ++ rest = tail := hb
    obtain rfl | ⟨-, payload', hp', ⟨t, hpre⟩, hshort⟩ := ht
    · have h0 := congrArg List.length hb'
      rw [List.length_append, frame_length] at h0
      simp at h0
    · -- a part of a frame is shorter than the frame it announces
      rw [← hb', List.append_assoc] at hpre
      have hpay : payload = payload' := by
        refine (frame_append_inj hlt (maxFrameBytes_lt hp') (x := rest ++ t) (y := []) ?_).1
        rw [hpre, List.append_nil]
      rw [← hb', ← hpay, List.length_append] at hshort
      omega
  | cons msg msgs =>
    obtain ⟨payload', hv, hp', hd⟩ := hl msg List.mem_cons_self
    rw [← List.singleton_append, wire_append, wire_single hv, List.append_assoc] at hb
    obtain ⟨rfl, hrest⟩ := frame_append_inj hlt (maxFrameBytes_lt hp') hb
    exact ⟨msg, msgs, rfl, hd, tail, hrest, ht⟩

variable {p p' : Pipe T} {queue : List T}

theorem step_cases {l : Label T} (hs : step toVec fromSlice p l = some p') :
    (∃ msg limit flushed, l = .write msg limit flushed ∧ p.writable = true ∧
      p' = ⟨p.flight ++ (writeMessage toVec (sink limit flushed) msg).2.written,
        usable (writeMessage toVec (sink limit flushed) msg).1, p.call⟩) ∨
    (l = .close ∧ p' = { p with writable := false }) ∨
    (∃ n, l = .receive n ∧ 0 < n ∧ n ≤ p.call.room ∧ n ≤ p.flight.length ∧
      p' = { p with flight := p.flight.drop n, call := p.call.feed fromSlice (p.flight.take n) }) ∨
    (∃ e, l = .fail e ∧ (∀ r, p.call ≠ .returned r) ∧ p' = ⟨[], false, p.call.fail e⟩) ∨
    ∃ msg, l = .next ∧ p.call = .returned (.ok (some msg)) ∧ p' = { p with call := .start } := by
  cases l with
  | write msg limit flushed =>
    simp only [step] at hs
    split at hs
    next hw =>
      cases hs
      exact Or.inl ⟨msg, limit, flushed, rfl, hw, rfl⟩
    · cases hs
  | close =>
    cases hs
    exact Or.inr (Or.inl ⟨rfl, rfl⟩)
  | receive n =>
    simp only [step] at hs
    split at hs
    next hn =>
      cases hs
      exact Or.inr (Or.inr (Or.inl ⟨n, rfl, hn.1, hn.2.1, hn.2.2, rfl⟩))
    · cases hs
  | fail e =>
    simp only [step] at hs
    split at hs
    · split at hs
      · cases hs
      next hc =>
        cases hs
        exact Or.inr (Or.inr (Or.inr (Or.inl ⟨e, rfl, hc, rfl⟩)))
    · cases hs
  | next =>
    simp only [step] at hs
    split at hs
    next msg hc =>
      cases hs
      exact Or.inr (Or.inr (Or.inr (Or.inr ⟨msg, rfl, hc, rfl⟩)))
    · cases hs

theorem carries_waiting (hc : ∀ r, p.call ≠ .returned r) :
    Carries toVec p queue ↔
      p.call.Waits ∧ Ahead toVec p.writable (p.call.held ++ p.flight) queue := by
  unfold Carries
  split
  next hr => exact absurd hr (hc _)
  next hr => exact absurd hr (hc _)
  next hr => exact absurd hr (hc _)
  · exact Iff.rfl

theorem waits_of_room (hn : 0 < p.call.room) : ∀ r, p.call ≠ .returned r := by
  intro r hr
  rw [hr] at hn
  exact absurd hn (lt_irrefl _)

theorem Carries.behind (hk : Carries toVec p queue) {msgs : List T} (hc : p'.call = p.call)
    (ha : ∀ front queue, Ahead toVec p.writable (front ++ p.flight) queue →
      Ahead toVec p'.writable (front ++ p'.flight) (queue ++ msgs)) :
    Carries toVec p' (queue ++ msgs) := by
  unfold Carries at hk ⊢
  rw [hc]
  split at hk
  next msg _ =>
    obtain ⟨rest, rfl, hr⟩ := hk
    exact ⟨rest ++ msgs, rfl, ha [] rest hr⟩
  · exact hk
  · exact hk
  · exact ⟨hk.1, ha _ queue hk.2⟩

theorem Carries.receive (hk : Carries toVec p queue)
    (hl : ∀ msg ∈ queue, Legal toVec fromSlice msg) {n : Nat} (h0 : 0 < n) (hn : n ≤ p.call.room)
    (hlen : n ≤ p.flight.length) :
    Carries toVec { p with
      flight := p.flight.drop n, call := p.call.feed fromSlice (p.flight.take n) } queue := by
  obtain ⟨hw, ha⟩ := (carries_waiting (waits_of_room (h0.trans_le hn))).mp hk
  have hroom : (p.flight.take n).length ≤ p.call.room := by
    rw [List.length_take]
    omega
  have hsplit : p.call.held ++ p.flight =
      (p.call.held ++ p.flight.take n) ++ p.flight.drop n := by
    rw [List.append_assoc, List.take_append_drop]
  obtain ⟨hw', hh⟩ | ⟨hmax, h4, -⟩ | ⟨payload, hp, hle, hr⟩ :=
    feed_cases fromSlice hw hroom
  · rw [hsplit, ← hh] at ha
    exact (carries_waiting (fun r => hw'.ne_returned r)).mpr ⟨hw', ha⟩
  · have hle : announced (p.call.held ++ p.flight) ≤ maxFrameBytes := by
      refine ha.announced_le hl ?_
      rw [hsplit, List.length_append, h4]
      omega
    rw [hsplit, announced, List.take_append_of_le_length (by omega)] at hle
    exact absurd hmax (not_lt.mpr hle)
  · rw [hsplit, hp] at ha
    obtain ⟨msg, msgs, rfl, hd, hrest⟩ := ha.frame hl hle
    rw [hr, decoded_eq_some.mpr hd]
    exact ⟨msgs, rfl, hrest⟩

theorem carries_fail (e : ErrorKind) (hc : ∀ r, p.call ≠ .returned r) (queue : List T) :
    Carries toVec ⟨[], false, p.call.fail e⟩ queue := by
  cases hcall : p.call with
  | length buf =>
    cases e with
    | unexpectedEof => trivial
    | other => exact ⟨_, rfl⟩
  | body len buf => exact ⟨_, rfl⟩
  | returned r => exact absurd hcall (hc r)

/-- Only messages that the reader accepts and decodes are written. -/
def Sends (toVec : T → Except String (List UInt8)) (fromSlice : List UInt8 → Except String T)
    (e : Transition.Event (Pipe T) (Label T)) : Prop :=
  match e.label with
  | .write msg _ _ => Legal toVec fromSlice msg
  | .close | .receive _ | .fail _ | .next => True

theorem carries_init : Carries toVec (machine toVec fromSlice).init [] :=
  ⟨Nat.zero_lt_succ 3, [], rfl, Or.inl rfl⟩

theorem Ahead.empty {writable : Bool} {msgs : List T} (ha : Ahead toVec writable [] msgs)
    (hl : ∀ msg ∈ msgs, Legal toVec fromSlice msg) : msgs = [] := by
  obtain ⟨tail, hb, -⟩ := ha
  cases msgs with
  | nil => rfl
  | cons msg msgs =>
    obtain ⟨payload, hv, -⟩ := hl msg List.mem_cons_self
    rw [← List.singleton_append, wire_append, wire_single hv] at hb
    have hlen := congrArg List.length hb
    simp only [List.length_append, frame_length, List.length_nil] at hlen
    omega

variable [DecidableEq T]

/-- Each step of the bytes is a step of the queue of messages, or none. -/
theorem matches_step {l : Label T} (hw : Sends toVec fromSlice ⟨p, l⟩)
    (hk : Carries toVec p queue ∧ ∀ msg ∈ queue, Legal toVec fromSlice msg)
    (hs : step toVec fromSlice p l = some p') :
    Matches Fifo.machine
      (fun p queue => Carries toVec p queue ∧ ∀ msg ∈ queue, Legal toVec fromSlice msg) queue p'
      (observe toVec ⟨p, l⟩) := by
  obtain ⟨hk, hl⟩ := hk
  obtain ⟨msg, limit, flushed, rfl, hopen, rfl⟩ | ⟨rfl, rfl⟩ | ⟨n, rfl, h0, hn, hlen, rfl⟩ |
    ⟨e, rfl, hc, rfl⟩ | ⟨msg, rfl, hc, rfl⟩ := step_cases hs
  · have hbehind : Carries toVec ⟨p.flight ++ (writeMessage toVec (sink limit flushed) msg).2.written,
        usable (writeMessage toVec (sink limit flushed) msg).1, p.call⟩
        (queue ++ if whole toVec msg limit flushed then [msg] else []) := by
      refine hk.behind rfl ?_
      intro front queue ha
      rw [hopen] at ha
      have hput := ha.write hw limit flushed
      rw [List.append_assoc] at hput
      split at hput
      next h => rwa [if_pos h]
      next h => rwa [if_neg h, List.append_nil]
    simp only [observe]
    split
    next h =>
      rw [if_pos h] at hbehind
      refine ⟨queue ++ [msg], rfl, hbehind, ?_⟩
      intro m hm
      obtain hm | hm := List.mem_append.mp hm
      · exact hl m hm
      · rw [List.mem_singleton.mp hm]
        exact hw
    next h =>
      rw [if_neg h, List.append_nil] at hbehind
      exact ⟨hbehind, hl⟩
  · have hclose : Carries toVec { p with writable := false } (queue ++ []) := by
      refine hk.behind rfl ?_
      intro front queue ha
      rw [List.append_nil]
      exact ha.close
    rw [List.append_nil] at hclose
    exact ⟨hclose, hl⟩
  · exact ⟨hk.receive hl h0 hn hlen, hl⟩
  · exact ⟨carries_fail e hc queue, hl⟩
  · simp only [observe, hc]
    simp only [Carries, hc] at hk
    obtain ⟨rest, rfl, ha⟩ := hk
    refine ⟨rest, Fifo.step_get msg rest, ?_, fun m hm => hl m (List.mem_cons_of_mem _ hm)⟩
    exact ⟨Nat.zero_lt_succ 3, ha⟩

/-- Frames on a connection are a queue of messages. However writes and reads
interleave and however the bytes are cut, the messages that the reader uses are,
in order, the first ones of those whose frames were written; all of them when
no byte is left; and no call fails because of what was written. -/
theorem pipe_refines_fifo {h : List (Transition.Event (Pipe T) (Label T))} {p : Pipe T}
    (hr : Run (machine toVec fromSlice) h p) (hw : ∀ e ∈ h, Sends toVec fromSlice e) :
    ∃ queue, written toVec h = used toVec h ++ queue ∧
      (p.call = .start → p.flight = [] → queue = []) ∧
      (∀ r, p.call = .returned r → (∃ msg, r = .ok (some msg) ∧ queue.head? = some msg) ∨
        r = .ok none ∨ ∃ kind, r = .error (.io kind)) := by
  obtain ⟨h', queue, hr', hlabels, hk, hl⟩ := hr.simulate (Sends toVec fromSlice) _ (observe toVec)
    ⟨carries_init, by simp [Fifo.machine]⟩
    (fun _ _ _ _ _ _ _ hw hk hs => matches_step hw hk hs) hw
  refine ⟨queue, ?_, ?_, ?_⟩
  · rw [written, used, ← hlabels]
    exact Fifo.run_conserves hr'
  · intro hc hf
    obtain ⟨-, ha⟩ := (carries_waiting (by rw [hc]; intro r hr; cases hr)).mp hk
    rw [hc, hf] at ha
    exact ha.empty hl
  · intro r hc
    simp only [Carries, hc] at hk
    obtain e | o := r
    · exact Or.inr (Or.inr (by simpa using hk))
    · cases o with
      | none => exact Or.inr (Or.inl rfl)
      | some msg =>
        obtain ⟨rest, rfl, -⟩ := hk
        exact Or.inl ⟨msg, rfl, rfl⟩

/-- Two frames that arrive in pieces, and one that is cut when the stream breaks. -/
def chopped : List (Label ClientMessage) :=
  [.write .listHosts none true, .receive 3, .receive 1, .write .ping none true, .receive 11, .next,
    .write .listHosts (some 6) true, .receive 4, .receive 6, .next, .receive 4, .receive 2,
    .fail .unexpectedEof]

theorem pipe_refines_fifo_chopped :
    written ClientMessage.toVec (replay (machine ClientMessage.toVec decodeBrowsing) chopped).1 =
        [.listHosts, .ping] ∧
      used ClientMessage.toVec (replay (machine ClientMessage.toVec decodeBrowsing) chopped).1 <+:
        [.listHosts, .ping] := by
  have hw : ∀ e ∈ (replay (machine ClientMessage.toVec decodeBrowsing) chopped).1,
      Sends ClientMessage.toVec decodeBrowsing e := by
    intro e he
    have hm : e.label ∈ chopped := by
      simpa using (replay_labels chopped).subset (List.mem_map_of_mem he)
    unfold Sends
    split
    next msg limit flushed hlabel =>
      rw [hlabel] at hm
      have hmem : msg ∈ browsing := by
        simp only [chopped, List.mem_cons, Label.write.injEq, reduceCtorEq, List.not_mem_nil] at hm
        simp only [browsing, List.mem_cons]
        tauto
      have hlegal : ∀ msg ∈ browsing, msg.payload.length ≤ maxFrameBytes ∧
          decodeBrowsing msg.payload = .ok msg := by decide +kernel
      exact ⟨msg.payload, rfl, hlegal msg hmem⟩
    all_goals trivial
  have hwritten : written ClientMessage.toVec
      (replay (machine ClientMessage.toVec decodeBrowsing) chopped).1 = [.listHosts, .ping] := by
    decide +kernel
  obtain ⟨queue, hq, -, -⟩ := pipe_refines_fifo (replay_run chopped) hw
  rw [hwritten] at hq
  exact ⟨hwritten, queue, hq.symm⟩

end Pipe

end Mineshaft.Core
