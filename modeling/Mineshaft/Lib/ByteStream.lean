import Mathlib.Data.List.Basic
import Mathlib.Data.List.Flatten

namespace Mineshaft.Lib.ByteStream

variable {α ε : Type}

/-- A stream as its reader meets it: the chunks that the underlying reads
deliver, and what a read after the last chunk fails with. A read that
delivers nothing means the end of the stream, so no chunk is empty. -/
structure Source (α ε : Type) where
  chunks : List (List α)
  nonempty : ∀ c ∈ chunks, c ≠ []
  failure : Option ε

def Source.bytes (s : Source α ε) : List α := s.chunks.flatten

def Source.drained (s : Source α ε) : Source α ε :=
  { s with chunks := [], nonempty := by simp }

/-- The loop of `read_exact` with room for `n` more bytes, one underlying read
in each round. A read takes no more than there is room for. It yields the
bytes and the chunks that are left. -/
def takeChunks : Nat → List (List α) → Option (List α × List (List α))
  | 0, cs => some ([], cs)
  | _ + 1, [] => none
  | n + 1, c :: cs =>
    if c.length ≤ n + 1 then
      (takeChunks (n + 1 - c.length) cs).map (fun r => (c ++ r.1, r.2))
    else some (c.take (n + 1), c.drop (n + 1) :: cs)

theorem takeChunks_nonempty {n : Nat} {cs : List (List α)} {r : List α × List (List α)}
    (h : takeChunks n cs = some r) (hc : ∀ c ∈ cs, c ≠ []) : ∀ c ∈ r.2, c ≠ [] := by
  induction cs generalizing n r with
  | nil =>
    cases n with
    | zero => cases h; exact hc
    | succ n => cases h
  | cons c cs ih =>
    cases n with
    | zero => cases h; exact hc
    | succ n =>
      rw [takeChunks] at h
      split at h
      · obtain ⟨q, hq, rfl⟩ := Option.map_eq_some_iff.mp h
        exact ih (r := q) hq (fun d hd => hc d (List.mem_cons_of_mem _ hd))
      next hlen =>
        cases h
        intro d hd
        obtain rfl | hd := List.mem_cons.mp hd
        · simp only [ne_eq, List.drop_eq_nil_iff]
          omega
        · exact hc d (List.mem_cons_of_mem _ hd)

theorem takeChunks_eq {n : Nat} {cs : List (List α)} (h : n ≤ cs.flatten.length) :
    ∃ rest, takeChunks n cs = some (cs.flatten.take n, rest) ∧ rest.flatten = cs.flatten.drop n := by
  induction cs generalizing n with
  | nil =>
    obtain rfl : n = 0 := by simpa using h
    exact ⟨[], rfl, rfl⟩
  | cons c cs ih =>
    cases n with
    | zero => exact ⟨c :: cs, rfl, rfl⟩
    | succ n =>
      rw [takeChunks]
      split
      next hlen =>
        simp only [List.flatten_cons, List.length_append] at h
        obtain ⟨rest, hr, hf⟩ := ih (n := n + 1 - c.length) (by omega)
        refine ⟨rest, ?_, ?_⟩
        · rw [hr, Option.map_some, List.flatten_cons, List.take_append, List.take_of_length_le hlen]
        · rw [hf, List.flatten_cons, List.drop_append, List.drop_of_length_le hlen, List.nil_append]
      next hlen =>
        have hle : n + 1 ≤ c.length := by omega
        refine ⟨c.drop (n + 1) :: cs, ?_, ?_⟩
        · rw [List.flatten_cons, List.take_append_of_le_length hle]
        · rw [List.flatten_cons, List.flatten_cons, List.drop_append_of_le_length hle]

theorem takeChunks_short {n : Nat} {cs : List (List α)} (h : cs.flatten.length < n) :
    takeChunks n cs = none := by
  induction cs generalizing n with
  | nil =>
    cases n with
    | zero => cases h
    | succ n => rfl
  | cons c cs ih =>
    cases n with
    | zero => cases h
    | succ n =>
      simp only [List.flatten_cons, List.length_append] at h
      rw [takeChunks, if_pos (by omega), ih (by omega)]
      rfl

/-- `read_exact` for `n` bytes. A stream that ends or fails before is drained,
and fails with `eof` when it just ends. -/
def readExact (eof : ε) (n : Nat) (s : Source α ε) : Except ε (List α) × Source α ε :=
  match h : takeChunks n s.chunks with
  | some r => (.ok r.1, { s with chunks := r.2, nonempty := takeChunks_nonempty h s.nonempty })
  | none => (.error (s.failure.getD eof), s.drained)

theorem readExact_ok (eof : ε) {n : Nat} {s : Source α ε} (h : n ≤ s.bytes.length) :
    ∃ s', readExact eof n s = (.ok (s.bytes.take n), s') ∧ s'.bytes = s.bytes.drop n ∧
      s'.failure = s.failure := by
  obtain ⟨rest, hr, hf⟩ := takeChunks_eq h
  unfold readExact
  split
  next r hr' =>
    rw [hr] at hr'
    cases hr'
    exact ⟨_, rfl, hf, rfl⟩
  next hr' =>
    rw [hr] at hr'
    cases hr'

theorem readExact_short (eof : ε) {n : Nat} {s : Source α ε} (h : s.bytes.length < n) :
    readExact eof n s = (.error (s.failure.getD eof), s.drained) := by
  have hn := takeChunks_short h
  unfold readExact
  split
  next r hr =>
    rw [hn] at hr
    cases hr
  · rfl

/-- The front of the stream is read, however it is cut into chunks. -/
theorem readExact_append (eof : ε) {s : Source α ε} {front rest : List α}
    (h : s.bytes = front ++ rest) :
    ∃ s', readExact eof front.length s = (.ok front, s') ∧ s'.bytes = rest ∧
      s'.failure = s.failure := by
  obtain ⟨s', hr, hb, hf⟩ := readExact_ok eof (n := front.length) (s := s) (by simp [h])
  refine ⟨s', ?_, ?_, hf⟩
  · rw [hr, h, List.take_left]
  · rw [hb, h, List.drop_left]

/-- A stream as its writer meets it: what was written, after how many more
bytes a write fails, and what flushing reports. -/
structure Sink (α ε : Type) where
  written : List α
  limit : Option (Nat × ε)
  flushError : Option ε

def Sink.Accepts (w : Sink α ε) : Prop := w.limit = none ∧ w.flushError = none

/-- `write_all`. What was accepted before a failure stays written. -/
def writeAll (bytes : List α) (w : Sink α ε) : Except ε Unit × Sink α ε :=
  match w.limit with
  | none => (.ok (), { w with written := w.written ++ bytes })
  | some (n, e) =>
    if bytes.length ≤ n then
      (.ok (), { w with written := w.written ++ bytes, limit := some (n - bytes.length, e) })
    else (.error e, { w with written := w.written ++ bytes.take n, limit := some (0, e) })

def flush (w : Sink α ε) : Except ε Unit :=
  match w.flushError with
  | none => .ok ()
  | some e => .error e

end Mineshaft.Lib.ByteStream
