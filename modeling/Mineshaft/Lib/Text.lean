import Mathlib.Algebra.Ring.Nat
import Mathlib.Data.List.Basic

namespace Mineshaft.Lib.Text

section Words

variable {α : Type} (sep : α → Bool)

def word : List α → List (List α)
  | [] => []
  | c :: cs => [c :: cs]

def wordsFrom (acc : List α) : List α → List (List α)
  | [] => word acc
  | c :: cs => if sep c then word acc ++ wordsFrom [] cs else wordsFrom (acc ++ [c]) cs

def words (l : List α) : List (List α) := wordsFrom sep [] l

variable {sep}

theorem word_of_ne_nil {w : List α} (hw : w ≠ []) : word w = [w] := by
  cases w with
  | nil => exact absurd rfl hw
  | cons c cs => rfl

theorem wordsFrom_append {w : List α} (hw : ∀ c ∈ w, sep c = false) (acc rest : List α) :
    wordsFrom sep acc (w ++ rest) = wordsFrom sep (acc ++ w) rest := by
  induction w generalizing acc with
  | nil => simp
  | cons c w ih =>
    have hc := hw c List.mem_cons_self
    have h := ih (fun d hd => hw d (List.mem_cons_of_mem _ hd)) (acc ++ [c])
    rw [List.cons_append, wordsFrom, hc]
    simpa using h

theorem words_gap {gap : List α} (hg : ∀ c ∈ gap, sep c = true) (rest : List α) :
    words sep (gap ++ rest) = words sep rest := by
  induction gap with
  | nil => rfl
  | cons c gap ih =>
    have hc := hg c List.mem_cons_self
    have h := ih (fun d hd => hg d (List.mem_cons_of_mem _ hd))
    rw [List.cons_append, words, wordsFrom, if_pos hc]
    exact h

theorem words_word {w : List α} (hne : w ≠ []) (hw : ∀ c ∈ w, sep c = false) {c : α}
    (hc : sep c = true) (rest : List α) : words sep (w ++ c :: rest) = w :: words sep rest := by
  rw [words, wordsFrom_append hw, List.nil_append, wordsFrom, if_pos hc, word_of_ne_nil hne]
  rfl

theorem words_cons {w gap : List α} (hne : w ≠ []) (hw : ∀ c ∈ w, sep c = false)
    (hgne : gap ≠ []) (hg : ∀ c ∈ gap, sep c = true) (rest : List α) :
    words sep (w ++ (gap ++ rest)) = w :: words sep rest := by
  cases gap with
  | nil => exact absurd rfl hgne
  | cons c gap =>
    rw [List.cons_append, words_word hne hw (hg c List.mem_cons_self),
      words_gap (fun d hd => hg d (List.mem_cons_of_mem _ hd))]

theorem wordsFrom_trailing {c : α} (hc : sep c = true) (acc l : List α) :
    wordsFrom sep acc (l ++ [c]) = wordsFrom sep acc l := by
  induction l generalizing acc with
  | nil => simp [wordsFrom, hc, word]
  | cons d l ih =>
    rw [List.cons_append, wordsFrom, wordsFrom, ih, ih]

end Words

def isWhitespace (c : Char) : Bool :=
  (9 ≤ c.toNat && c.toNat ≤ 13) || c.toNat = 0x20 || c.toNat = 0x85 || c.toNat = 0xA0 ||
    c.toNat = 0x1680 || (0x2000 ≤ c.toNat && c.toNat ≤ 0x200A) || c.toNat = 0x2028 ||
    c.toNat = 0x2029 || c.toNat = 0x202F || c.toNat = 0x205F || c.toNat = 0x3000

def splitWhitespace (text : List Char) : List (List Char) := words isWhitespace text

def stripReturn (line : List Char) : List Char :=
  if line.getLast? = some '\r' then line.dropLast else line

def linesFrom (acc : List Char) : List Char → List (List Char)
  | [] => word acc
  | c :: cs => if c = '\n' then stripReturn acc :: linesFrom [] cs else linesFrom (acc ++ [c]) cs

def lines (text : List Char) : List (List Char) := linesFrom [] text

theorem linesFrom_append {line : List Char} (hl : '\n' ∉ line) (acc rest : List Char) :
    linesFrom acc (line ++ '\n' :: rest) = stripReturn (acc ++ line) :: lines rest := by
  induction line generalizing acc with
  | nil => simp [linesFrom, lines]
  | cons c line ih =>
    have hc : c ≠ '\n' := fun h => hl (by simp [h])
    have h := ih (fun hm => hl (List.mem_cons_of_mem _ hm)) (acc ++ [c])
    rw [List.cons_append, linesFrom, if_neg hc]
    simpa using h

theorem lines_line {line : List Char} (hl : '\n' ∉ line) (rest : List Char) :
    lines (line ++ '\n' :: rest) = stripReturn line :: lines rest :=
  linesFrom_append hl [] rest

theorem splitWhitespace_stripReturn (line : List Char) :
    splitWhitespace (stripReturn line) = splitWhitespace line := by
  unfold stripReturn
  split
  next hr =>
    obtain ⟨init, rfl⟩ := List.getLast?_eq_some_iff.mp hr
    rw [List.dropLast_concat]
    exact (wordsFrom_trailing (by decide) [] init).symm
  next => rfl

def upperHex (width n : Nat) : List Char :=
  let digits := (Nat.toDigits 16 n).map Char.toUpper
  List.replicate (width - digits.length) '0' ++ digits

def hexDigits : Nat → Nat → List Char
  | 0, _ => []
  | width + 1, n => hexDigits width (n / 16) ++ [(Nat.digitChar (n % 16)).toUpper]

theorem hexDigits_length (width n : Nat) : (hexDigits width n).length = width := by
  induction width generalizing n with
  | zero => rfl
  | succ width ih => simp [hexDigits, ih]

theorem mem_hexDigits {width n : Nat} {c : Char} (hc : c ∈ hexDigits width n) :
    ∃ d, d < 16 ∧ c = (Nat.digitChar d).toUpper := by
  induction width generalizing n with
  | zero => simp [hexDigits] at hc
  | succ width ih =>
    rw [hexDigits, List.mem_append, List.mem_singleton] at hc
    obtain hc | hc := hc
    · exact ih hc
    · exact ⟨n % 16, by omega, hc⟩

theorem digitChar_toUpper_injective {m n : Nat} (hm : m < 16) (hn : n < 16)
    (h : (Nat.digitChar m).toUpper = (Nat.digitChar n).toUpper) : m = n := by
  have hall : ∀ m : Fin 16, ∀ n : Fin 16,
      (Nat.digitChar m).toUpper = (Nat.digitChar n).toUpper → m = n := by decide
  exact Fin.mk.inj_iff.mp (hall ⟨m, hm⟩ ⟨n, hn⟩ h)

theorem hexDigits_injective {width m n : Nat} (hm : m < 16 ^ width) (hn : n < 16 ^ width)
    (h : hexDigits width m = hexDigits width n) : m = n := by
  induction width generalizing m n with
  | zero => omega
  | succ width ih =>
    obtain ⟨hinit, hlast⟩ := List.append_inj' h rfl
    rw [Nat.pow_succ] at hm hn
    have hq : m / 16 = n / 16 := ih (by omega) (by omega) hinit
    have hd : m % 16 = n % 16 :=
      digitChar_toUpper_injective (by omega) (by omega) (List.head_eq_of_cons_eq hlast)
    omega

theorem hexDigits_zero (width : Nat) : hexDigits width 0 = List.replicate width '0' := by
  induction width with
  | zero => rfl
  | succ width ih =>
    rw [hexDigits, ih, List.replicate_succ']
    rfl

theorem upperHex_eq {width n : Nat} (hw : 0 < width) (hn : n < 16 ^ width) :
    upperHex width n = hexDigits width n := by
  induction width generalizing n with
  | zero => omega
  | succ width ih =>
    obtain hlt | hge := Nat.lt_or_ge n 16
    · have hq : n / 16 = 0 := by omega
      have hr : n % 16 = n := by omega
      rw [hexDigits, hq, hr, hexDigits_zero, upperHex, Nat.toDigits_of_lt_base hlt]
      simp
    · have hpos : 0 < width := by
        obtain rfl | h := Nat.eq_zero_or_pos width
        · omega
        · exact h
      rw [Nat.pow_succ] at hn
      rw [hexDigits, ← ih hpos (by omega), upperHex, Nat.toDigits_of_base_le (by decide) hge,
        upperHex]
      simp

def trim (text : List Char) : List Char :=
  ((text.dropWhile isWhitespace).reverse.dropWhile isWhitespace).reverse

section Utf8

structure Pending where
  missing : Nat
  lower : UInt8
  upper : UInt8
  codePoint : Nat

def firstByte (b : UInt8) : Option (Option Char) × Option Pending :=
  if b < 0x80 then (some (some (Char.ofNat b.toNat)), none)
  else if 0xC2 ≤ b ∧ b ≤ 0xDF then (none, some ⟨1, 0x80, 0xBF, b.toNat % 32⟩)
  else if b = 0xE0 then (none, some ⟨2, 0xA0, 0xBF, 0⟩)
  else if b = 0xED then (none, some ⟨2, 0x80, 0x9F, 13⟩)
  else if 0xE1 ≤ b ∧ b ≤ 0xEF then (none, some ⟨2, 0x80, 0xBF, b.toNat % 16⟩)
  else if b = 0xF0 then (none, some ⟨3, 0x90, 0xBF, 0⟩)
  else if 0xF1 ≤ b ∧ b ≤ 0xF3 then (none, some ⟨3, 0x80, 0xBF, b.toNat % 8⟩)
  else if b = 0xF4 then (none, some ⟨3, 0x80, 0x8F, 4⟩)
  else (some none, none)

def decodeUtf8 : Option Pending → List UInt8 → List (Option Char)
  | none, [] => []
  | some _, [] => [none]
  | none, b :: bytes => (firstByte b).1.toList ++ decodeUtf8 (firstByte b).2 bytes
  | some p, b :: bytes =>
    if p.lower ≤ b ∧ b ≤ p.upper then
      if p.missing = 1 then
        some (Char.ofNat (p.codePoint * 64 + b.toNat % 64)) :: decodeUtf8 none bytes
      else
        decodeUtf8 (some ⟨p.missing - 1, 0x80, 0xBF, p.codePoint * 64 + b.toNat % 64⟩) bytes
    else none :: ((firstByte b).1.toList ++ decodeUtf8 (firstByte b).2 bytes)

def fromUtf8Lossy (bytes : List UInt8) : List Char :=
  (decodeUtf8 none bytes).map (fun c => c.getD (Char.ofNat 0xFFFD))

def toStr (bytes : List UInt8) : Option (List Char) := (decodeUtf8 none bytes).mapM id

end Utf8

end Mineshaft.Lib.Text
