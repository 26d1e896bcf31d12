import Mathlib.Data.List.Basic

namespace Mineshaft.Lib.Utf16

def isSurrogate (u : UInt16) : Bool := 0xD800 ≤ u && u ≤ 0xDFFF

def isLow (u : UInt16) : Bool := 0xDC00 ≤ u && u ≤ 0xDFFF

/-- `from_utf16_lossy`: a surrogate that is not part of a pair becomes the
replacement character. -/
def fromUtf16Lossy : List UInt16 → List Char
  | [] => []
  | [u] => [if isSurrogate u then Char.ofNat 0xFFFD else Char.ofNat u.toNat]
  | u :: v :: rest =>
    if isSurrogate u then
      if isLow u then Char.ofNat 0xFFFD :: fromUtf16Lossy (v :: rest)
      else if isLow v then
        Char.ofNat (0x10000 + (u.toNat - 0xD800) * 0x400 + (v.toNat - 0xDC00)) :: fromUtf16Lossy rest
      else Char.ofNat 0xFFFD :: fromUtf16Lossy (v :: rest)
    else Char.ofNat u.toNat :: fromUtf16Lossy (v :: rest)

example : fromUtf16Lossy [0x4D, 0xD83D, 0xDE00, 0xD83D, 0x2E, 0xDE00] =
    ['M', Char.ofNat 0x1F600, Char.ofNat 0xFFFD, '.', Char.ofNat 0xFFFD] := by decide

def eqIgnoreAsciiCase (a b : List Char) : Bool := decide (a.map Char.toLower = b.map Char.toLower)

def lowerUnit (u : UInt16) : UInt16 := if 0x41 ≤ u ∧ u ≤ 0x5A then u + 32 else u

def unit (c : Char) : UInt16 := UInt16.ofNat c.toNat

theorem char_toNat {n : Nat} (h : n.isValidChar) : (Char.ofNat n).toNat = n := by
  have hc : Char.ofNat n = Char.ofNatAux n h := dif_pos h
  rw [hc]
  rfl

theorem fromUtf16Lossy_cons {u : UInt16} (hs : isSurrogate u = false) (us : List UInt16) :
    fromUtf16Lossy (u :: us) = Char.ofNat u.toNat :: fromUtf16Lossy us := by
  cases us with
  | nil => simp [fromUtf16Lossy, hs]
  | cons v us => simp [fromUtf16Lossy, hs]

theorem isSurrogate_iff (u : UInt16) : isSurrogate u = true ↔ 0xD800 ≤ u.toNat ∧ u.toNat ≤ 0xDFFF := by
  simp [isSurrogate, UInt16.le_iff_toNat_le]

theorem isLow_iff (u : UInt16) : isLow u = true ↔ 0xDC00 ≤ u.toNat ∧ u.toNat ≤ 0xDFFF := by
  simp [isLow, UInt16.le_iff_toNat_le]

theorem fromUtf16Lossy_surrogate {u : UInt16} (hs : isSurrogate u = true) (us : List UInt16) :
    ∃ c rest, fromUtf16Lossy (u :: us) = c :: rest ∧ 128 ≤ c.toNat := by
  have hr : 128 ≤ (Char.ofNat 0xFFFD).toNat := by decide
  cases us with
  | nil =>
    rw [fromUtf16Lossy, if_pos hs]
    exact ⟨_, _, rfl, hr⟩
  | cons v us =>
    rw [fromUtf16Lossy, if_pos hs]
    by_cases hu : isLow u = true
    · rw [if_pos hu]
      exact ⟨_, _, rfl, hr⟩
    · by_cases hv : isLow v = true
      · rw [if_neg hu, if_pos hv]
        refine ⟨_, _, rfl, ?_⟩
        rw [isSurrogate_iff] at hs
        rw [isLow_iff] at hu hv
        rw [char_toNat (Or.inr (by omega))]
        omega
      · rw [if_neg hu, if_neg hv]
        exact ⟨_, _, rfl, hr⟩

theorem toLower_toNat (c : Char) :
    c.toLower.toNat = if 0x41 ≤ c.toNat ∧ c.toNat ≤ 0x5A then c.toNat + 32 else c.toNat := by
  unfold Char.toLower
  have hA : 'A'.val.toNat = 0x41 := rfl
  have hZ : 'Z'.val.toNat = 0x5A := rfl
  have hc : c.val.toNat = c.toNat := rfl
  split
  next h =>
    rw [ge_iff_le, UInt32.le_iff_toNat_le, UInt32.le_iff_toNat_le, hA, hZ, hc] at h
    rw [if_pos h]
    change (c.val + ('a'.val - 'A'.val)).toNat = c.toNat + 32
    rw [UInt32.toNat_add, hc]
    have hd : ('a'.val - 'A'.val).toNat = 32 := rfl
    omega
  next h =>
    rw [ge_iff_le, UInt32.le_iff_toNat_le, UInt32.le_iff_toNat_le, hA, hZ, hc] at h
    rw [if_neg h]

theorem lowerUnit_toNat (u : UInt16) :
    (lowerUnit u).toNat = if 0x41 ≤ u.toNat ∧ u.toNat ≤ 0x5A then u.toNat + 32 else u.toNat := by
  unfold lowerUnit
  have hlo : (0x41 : UInt16).toNat = 0x41 := rfl
  have hhi : (0x5A : UInt16).toNat = 0x5A := rfl
  split
  next h =>
    rw [UInt16.le_iff_toNat_le, UInt16.le_iff_toNat_le, hlo, hhi] at h
    have hd : (32 : UInt16).toNat = 32 := rfl
    rw [if_pos h, UInt16.toNat_add, hd]
    omega
  next h =>
    rw [UInt16.le_iff_toNat_le, UInt16.le_iff_toNat_le, hlo, hhi] at h
    rw [if_neg h]

theorem unit_toNat {c : Char} (hc : c.toNat < 128) : (unit c).toNat = c.toNat := by
  rw [unit, UInt16.toNat_ofNat_of_lt']
  exact Nat.lt_trans hc (by decide)

theorem toLower_eq_iff {u : UInt16} (hs : isSurrogate u = false) {c : Char} (hc : c.toNat < 128) :
    (Char.ofNat u.toNat).toLower = c ↔ lowerUnit u = unit c := by
  have hu := u.toNat_lt
  have hvalid : u.toNat.isValidChar := by
    rw [← Bool.not_eq_true, isSurrogate_iff] at hs
    unfold Nat.isValidChar
    omega
  rw [← Char.toNat_inj, ← UInt16.toNat_inj, toLower_toNat, char_toNat hvalid, lowerUnit_toNat,
    unit_toNat hc]

/-- Folding case after the lossy decoding is folding case of the code units, as
long as the text that is compared with is ASCII. -/
theorem fromUtf16Lossy_toLower {us : List UInt16} {target : List Char}
    (ht : ∀ c ∈ target, c.toNat < 128) :
    (fromUtf16Lossy us).map Char.toLower = target ↔ us.map lowerUnit = target.map unit := by
  induction target generalizing us with
  | nil =>
    cases us with
    | nil => simp [fromUtf16Lossy]
    | cons u us =>
      by_cases hs : isSurrogate u = true
      · obtain ⟨c, rest, h, -⟩ := fromUtf16Lossy_surrogate hs us
        simp [h]
      · simp [fromUtf16Lossy_cons (by simpa using hs)]
  | cons c target ih =>
    have hc := ht c List.mem_cons_self
    cases us with
    | nil => simp [fromUtf16Lossy]
    | cons u us =>
      by_cases hs : isSurrogate u = true
      · obtain ⟨d, rest, h, hd⟩ := fromUtf16Lossy_surrogate hs us
        rw [h, List.map_cons, List.map_cons, List.map_cons, List.cons.injEq, List.cons.injEq]
        rw [isSurrogate_iff] at hs
        refine iff_of_false ?_ ?_
        · rintro ⟨he, -⟩
          have hn := congrArg Char.toNat he
          rw [toLower_toNat] at hn
          split at hn <;> omega
        · rintro ⟨he, -⟩
          have hn := congrArg UInt16.toNat he
          rw [lowerUnit_toNat, unit_toNat hc] at hn
          split at hn <;> omega
      · have hs' : isSurrogate u = false := by simpa using hs
        rw [fromUtf16Lossy_cons hs', List.map_cons, List.map_cons, List.map_cons, List.cons.injEq,
          List.cons.injEq, toLower_eq_iff hs' hc, ih (fun d hd => ht d (List.mem_cons_of_mem _ hd))]

theorem eqIgnoreAsciiCase_lossy {us : List UInt16} {target lower : List Char}
    (hl : target.map Char.toLower = lower) (ha : ∀ c ∈ lower, c.toNat < 128) :
    eqIgnoreAsciiCase (fromUtf16Lossy us) target = true ↔ us.map lowerUnit = lower.map unit := by
  rw [eqIgnoreAsciiCase, decide_eq_true_iff, hl]
  exact fromUtf16Lossy_toLower ha

end Mineshaft.Lib.Utf16
