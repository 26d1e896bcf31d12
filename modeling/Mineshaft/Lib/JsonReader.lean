import Mathlib.Data.List.TakeWhile
import Mineshaft.Lib.Json

namespace Mineshaft.Lib.Json

def hexDigit (c : Char) : Option Nat := (List.range 16).find? (fun d => decide (Nat.digitChar d = c))

def unescape (c : Char) : Option Char :=
  if c = '"' then some '"'
  else if c = '\\' then some '\\'
  else if c = 'b' then some (Char.ofNat 8)
  else if c = 't' then some (Char.ofNat 9)
  else if c = 'n' then some (Char.ofNat 10)
  else if c = 'f' then some (Char.ofNat 12)
  else if c = 'r' then some (Char.ofNat 13)
  else none

def readChars : List Char → Option (List Char × List Char)
  | '"' :: cs => some ([], cs)
  | '\\' :: 'u' :: '0' :: '0' :: x :: y :: cs =>
    (hexDigit x).bind (fun a => (hexDigit y).bind (fun b =>
      (readChars cs).map (fun p => (Char.ofNat (16 * a + b) :: p.1, p.2))))
  | '\\' :: c :: cs => (unescape c).bind (fun d => (readChars cs).map (fun p => (d :: p.1, p.2)))
  | c :: cs => if c.toNat < 32 then none else (readChars cs).map (fun p => (c :: p.1, p.2))
  | [] => none

def readNat (cs : List Char) : Option (Nat × List Char) :=
  if cs.takeWhile Char.isDigit = [] then none
  else some (Nat.ofDigitChars 10 (cs.takeWhile Char.isDigit) 0, cs.dropWhile Char.isDigit)

mutual

def read : Nat → List Char → Option (Json × List Char)
  | 0, _ => none
  | fuel + 1, cs =>
    match cs with
    | 't' :: 'r' :: 'u' :: 'e' :: cs => some (.bool true, cs)
    | 'f' :: 'a' :: 'l' :: 's' :: 'e' :: cs => some (.bool false, cs)
    | '"' :: cs => (readChars cs).map (fun p => (.str (String.ofList p.1), p.2))
    | '[' :: ']' :: cs => some (.arr [], cs)
    | '[' :: cs => (readItems fuel cs).map (fun p => (.arr p.1, p.2))
    | '\x7b' :: '\x7d' :: cs => some (.obj [], cs)
    | '\x7b' :: cs => (readFields fuel cs).map (fun p => (.obj p.1, p.2))
    | '-' :: cs => (readNat cs).map (fun p => (.num (-p.1), p.2))
    | cs => (readNat cs).map (fun p => (.num p.1, p.2))

def readItems : Nat → List Char → Option (List Json × List Char)
  | 0, _ => none
  | fuel + 1, cs =>
    (read fuel cs).bind (fun r =>
      match r.2 with
      | ']' :: cs => some ([r.1], cs)
      | ',' :: cs => (readItems fuel cs).map (fun p => (r.1 :: p.1, p.2))
      | _ => none)

def readFields : Nat → List Char → Option (List (String × Json) × List Char)
  | 0, _ => none
  | fuel + 1, cs =>
    match cs with
    | '"' :: cs =>
      (readChars cs).bind (fun key =>
        match key.2 with
        | ':' :: cs =>
          (read fuel cs).bind (fun r =>
            match r.2 with
            | '\x7d' :: cs => some ([(String.ofList key.1, r.1)], cs)
            | ',' :: cs =>
              (readFields fuel cs).map (fun p => ((String.ofList key.1, r.1) :: p.1, p.2))
            | _ => none)
        | _ => none)
    | _ => none

end

theorem hexDigit_digitChar : ∀ d < 16, hexDigit (Nat.digitChar d) = some d := by decide

theorem char_of_toNat {c : Char} {n : Nat} (h : c.toNat = n) : Char.ofNat n = c := by
  rw [← h, Char.ofNat_toNat]

theorem readChars_escapeChar (c : Char) (cs : List Char) :
    readChars (escapeChar c ++ cs) = (readChars cs).map (fun p => (c :: p.1, p.2)) := by
  unfold escapeChar
  split
  next h => subst h; simp [readChars, unescape]
  split
  next h => subst h; simp [readChars, unescape]
  split
  next h => rw [← char_of_toNat h]; simp [readChars, unescape]
  split
  next h => rw [← char_of_toNat h]; simp [readChars, unescape]
  split
  next h => rw [← char_of_toNat h]; simp [readChars, unescape]
  split
  next h => rw [← char_of_toNat h]; simp [readChars, unescape]
  split
  next h => rw [← char_of_toNat h]; simp [readChars, unescape]
  split
  next h =>
    have h₁ := hexDigit_digitChar (c.toNat / 16) (by omega)
    have h₂ := hexDigit_digitChar (c.toNat % 16) (by omega)
    have hc : Char.ofNat (16 * (c.toNat / 16) + c.toNat % 16) = c := char_of_toNat (by omega)
    simp only [List.cons_append, List.nil_append, readChars, h₁, h₂, Option.bind_some, hc]
  next hquote hback _ _ _ _ _ hlow =>
    rw [List.singleton_append, readChars.eq_def]
    split
    next h => cases h; exact absurd rfl hquote
    next h => cases h; exact absurd rfl hback
    next h => cases h; exact absurd rfl hback
    next h => cases h; exact if_neg hlow
    next h => cases h

theorem readChars_escape (text rest : List Char) :
    readChars (text.flatMap escapeChar ++ '"' :: rest) = some (text, rest) := by
  induction text with
  | nil => rfl
  | cons c text ih =>
    rw [List.flatMap_cons, List.append_assoc, readChars_escapeChar, ih]
    rfl

/-- What follows a value does not go on with a digit. -/
def Follows (rest : List Char) : Prop := ∀ c ∈ rest.head?, c.isDigit = false

theorem isDigit_of_mem {n : Nat} {c : Char} (h : c ∈ Nat.toDigits 10 n) : c.isDigit = true :=
  Nat.isDigit_of_mem_toDigits (by decide) (by decide) h

theorem readNat_toDigits (n : Nat) {rest : List Char} (hr : Follows rest) :
    readNat (Nat.toDigits 10 n ++ rest) = some (n, rest) := by
  have hd : ∀ c ∈ Nat.toDigits 10 n, c.isDigit = true := fun c hc => isDigit_of_mem hc
  have hnil : rest.takeWhile Char.isDigit = [] ∧ rest.dropWhile Char.isDigit = rest := by
    cases rest with
    | nil => exact ⟨rfl, rfl⟩
    | cons c rest =>
      have hc := hr c rfl
      simp [hc]
  rw [readNat, List.takeWhile_append_of_pos hd, List.dropWhile_append_of_pos hd, hnil.1, hnil.2,
    List.append_nil, if_neg Nat.toDigits_ne_nil, Nat.ofDigitChars_toDigits (by decide) (by decide)]

theorem read_digit (fuel : Nat) {c : Char} (hc : c.isDigit = true) (cs : List Char) :
    read (fuel + 1) (c :: cs) = (readNat (c :: cs)).map (fun p => (.num p.1, p.2)) := by
  rw [read]
  all_goals
    intro cs' h
    cases h
    exact absurd hc (by decide)

theorem read_digits (fuel : Nat) (n : Int) {rest : List Char} (hr : Follows rest) :
    read (fuel + 1) (digits n ++ rest) = some (.num n, rest) := by
  cases n with
  | ofNat n =>
    cases hd : Nat.toDigits 10 n with
    | nil => exact absurd hd Nat.toDigits_ne_nil
    | cons c cs =>
      have hc : c.isDigit = true := isDigit_of_mem (by rw [hd]; exact List.mem_cons_self)
      rw [digits, hd, List.cons_append, read_digit fuel hc, ← List.cons_append, ← hd,
        readNat_toDigits n hr]
      rfl
  | negSucc n =>
    rw [digits, List.cons_append, read, readNat_toDigits (n + 1) hr]
    rfl

theorem readChars_quote (s : String) (rest : List Char) :
    ∃ cs, quote s ++ rest = '"' :: cs ∧ readChars cs = some (s.toList, rest) := by
  refine ⟨s.toList.flatMap escapeChar ++ '"' :: rest, ?_, readChars_escape _ _⟩
  simp [quote]

theorem render_head (j : Json) : ∃ c cs, j.render = c :: cs ∧ c ≠ ']' := by
  cases j with
  | bool b => cases b <;> exact ⟨_, _, rfl, by decide⟩
  | str s => exact ⟨'"', _, rfl, by decide⟩
  | arr items => exact ⟨'[', _, rfl, by decide⟩
  | obj fields => exact ⟨'\x7b', _, rfl, by decide⟩
  | num n =>
    cases n with
    | negSucc n => exact ⟨'-', _, rfl, by decide⟩
    | ofNat n =>
      cases hd : Nat.toDigits 10 n with
      | nil => exact absurd hd Nat.toDigits_ne_nil
      | cons c cs =>
        have hc : c.isDigit = true := isDigit_of_mem (by rw [hd]; exact List.mem_cons_self)
        refine ⟨c, cs, hd, ?_⟩
        rintro rfl
        exact absurd hc (by decide)

theorem read_open (fuel : Nat) {c : Char} (hc : c ≠ ']') (cs : List Char) :
    read (fuel + 1) ('[' :: c :: cs) =
      (readItems fuel (c :: cs)).map (fun p => (.arr p.1, p.2)) := by
  rw [read]
  intro cs' h
  cases h
  exact hc rfl

theorem follows_cons {c : Char} {cs : List Char} (hc : c.isDigit = false) : Follows (c :: cs) := by
  rintro d ⟨⟩
  exact hc

theorem commaSep_items (item next : Json) (items : List Json) :
    commaSep (renderItems (item :: next :: items)) =
      item.render ++ ',' :: commaSep (renderItems (next :: items)) := by
  simp only [renderItems, commaSep]

theorem commaSep_fields (key : String) (value : Json) (next : String × Json)
    (fields : List (String × Json)) :
    commaSep (renderFields ((key, value) :: next :: fields)) =
      quote key ++ ':' :: (value.render ++ ',' :: commaSep (renderFields (next :: fields))) := by
  simp [renderFields, commaSep]

theorem readFields_key (fuel : Nat) (key : String) (cs : List Char) :
    readFields (fuel + 1) (quote key ++ ':' :: cs) =
      (read fuel cs).bind (fun r =>
        match r.2 with
        | '\x7d' :: cs => some ([(key, r.1)], cs)
        | ',' :: cs => (readFields fuel cs).map (fun p => ((key, r.1) :: p.1, p.2))
        | _ => none) := by
  obtain ⟨ds, hq, hs⟩ := readChars_quote key (':' :: cs)
  rw [hq, readFields, hs]
  simp only [Option.bind_some, String.ofList_toList]

mutual

/-- Reading the compact form gives the value back, when the fuel is at least the
length of the text and no digit follows a number. -/
theorem read_render (j : Json) (fuel : Nat) {rest : List Char} (hf : j.render.length ≤ fuel)
    (hr : ∀ n, j = .num n → Follows rest) : read fuel (j.render ++ rest) = some (j, rest) := by
  obtain ⟨c, cs, hc, -⟩ := render_head j
  obtain ⟨fuel, rfl⟩ : ∃ n, fuel = n + 1 := by
    rw [hc, List.length_cons] at hf
    exact ⟨fuel - 1, by omega⟩
  match j with
  | .bool true => rfl
  | .bool false => rfl
  | .num n => exact read_digits fuel n (hr n rfl)
  | .str s =>
    obtain ⟨cs, hq, hs⟩ := readChars_quote s rest
    rw [render, hq, read, hs, Option.map_some, String.ofList_toList]
  | .arr [] => rfl
  | .arr (item :: items) =>
    simp only [render, List.length_append, List.length_cons, List.length_nil] at hf
    have hi := readItems_render item items fuel rest (by omega)
    obtain ⟨d, ds, hd, hne⟩ := render_head item
    obtain ⟨es, he⟩ : ∃ es, commaSep (renderItems (item :: items)) = d :: es := by
      cases items with
      | nil => exact ⟨ds, hd⟩
      | cons next items => exact ⟨_, by rw [commaSep_items, hd, List.cons_append]⟩
    rw [render]
    rw [he] at hi ⊢
    simp only [List.cons_append, List.append_assoc, List.nil_append] at hi ⊢
    rw [read_open fuel hne, hi]
    rfl
  | .obj [] => rfl
  | .obj ((key, value) :: fields) =>
    simp only [render, List.length_append, List.length_cons, List.length_nil] at hf
    have hi := readFields_render key value fields fuel rest (by omega)
    obtain ⟨es, he⟩ : ∃ es, commaSep (renderFields ((key, value) :: fields)) = '"' :: es := by
      cases fields with
      | nil => exact ⟨_, rfl⟩
      | cons next fields => exact ⟨_, by rw [commaSep_fields, quote]; rfl⟩
    rw [render]
    rw [he] at hi ⊢
    simp only [List.cons_append, List.append_assoc, List.nil_append] at hi ⊢
    rw [read, hi]
    · rfl
    · intro cs' h
      cases h
termination_by fuel

theorem readItems_render (item : Json) (items : List Json) (fuel : Nat) (rest : List Char)
    (hf : (commaSep (renderItems (item :: items))).length + 1 ≤ fuel) :
    readItems fuel (commaSep (renderItems (item :: items)) ++ ']' :: rest) =
      some (item :: items, rest) := by
  obtain ⟨fuel, rfl⟩ : ∃ n, fuel = n + 1 := ⟨fuel - 1, by omega⟩
  match items with
  | [] =>
    simp only [renderItems, commaSep] at hf ⊢
    rw [readItems, read_render item fuel (by omega) (fun _ _ => follows_cons (by decide))]
    rfl
  | next :: items =>
    rw [commaSep_items] at hf ⊢
    simp only [List.length_append, List.length_cons] at hf
    have hi := readItems_render next items fuel rest (by omega)
    rw [List.append_assoc, List.cons_append, readItems,
      read_render item fuel (by omega) (fun _ _ => follows_cons (by decide)), Option.bind_some]
    simp only [hi, Option.map_some]
termination_by fuel

theorem readFields_render (key : String) (value : Json) (fields : List (String × Json)) (fuel : Nat)
    (rest : List Char)
    (hf : (commaSep (renderFields ((key, value) :: fields))).length + 1 ≤ fuel) :
    readFields fuel (commaSep (renderFields ((key, value) :: fields)) ++ '\x7d' :: rest) =
      some ((key, value) :: fields, rest) := by
  obtain ⟨fuel, rfl⟩ : ∃ n, fuel = n + 1 := ⟨fuel - 1, by omega⟩
  match fields with
  | [] =>
    simp only [renderFields, commaSep, List.append_assoc, List.cons_append] at hf ⊢
    simp only [List.length_append, List.length_cons] at hf
    rw [readFields_key, read_render value fuel (by omega) (fun _ _ => follows_cons (by decide))]
    rfl
  | (key', value') :: fields =>
    rw [commaSep_fields] at hf ⊢
    simp only [List.length_append, List.length_cons] at hf
    have hi := readFields_render key' value' fields fuel rest (by omega)
    simp only [List.append_assoc, List.cons_append]
    rw [readFields_key, read_render value fuel (by omega) (fun _ _ => follows_cons (by decide)),
      Option.bind_some]
    simp only [hi, Option.map_some]
termination_by fuel

end

theorem utf8_isPrefix {cs cs' : List Char} (h : utf8 cs <+: utf8 cs') : cs <+: cs' := by
  induction cs generalizing cs' with
  | nil => exact List.nil_prefix
  | cons c cs ih =>
    obtain ⟨t, ht⟩ := h
    cases cs' with
    | nil =>
      have hl := congrArg List.length ht
      simp only [utf8_cons, utf8_nil, List.length_append, String.length_utf8EncodeChar,
        List.length_nil] at hl
      have hpos := c.utf8Size_pos
      omega
    | cons c' cs' =>
      rw [utf8_cons, utf8_cons, List.append_assoc] at ht
      have hd := congrArg (fun bs : List UInt8 => bs.toByteArray.utf8DecodeChar? 0) ht
      simp only [List.toByteArray_append, ByteArray.utf8DecodeChar?_utf8EncodeChar_append,
        Option.some.injEq] at hd
      subst hd
      exact List.cons_prefix_cons.mpr ⟨rfl, ih ⟨t, List.append_cancel_left ht⟩⟩

/-- The compact form of a value that is no number ends by itself. -/
theorem render_isPrefix {j j' : Json} (hj : ∀ n, j ≠ .num n) (hj' : ∀ n, j' ≠ .num n)
    (h : j.render <+: j'.render) : j = j' := by
  obtain ⟨t, ht⟩ := h
  have hr : read j'.render.length (j.render ++ t) = some (j, t) :=
    read_render j _ (by rw [← ht]; simp) (fun n hn => absurd hn (hj n))
  have hr' : read j'.render.length (j'.render ++ []) = some (j', []) :=
    read_render j' _ (Nat.le_refl _) (fun n hn => absurd hn (hj' n))
  rw [List.append_nil] at hr'
  rw [ht, hr'] at hr
  simp only [Option.some.injEq, Prod.mk.injEq] at hr
  exact hr.1.symm

theorem bytes_prefixFree {j j' : Json} (hj : ∀ n, j ≠ .num n) (hj' : ∀ n, j' ≠ .num n)
    {x y : List UInt8} (h : j.bytes ++ x = j'.bytes ++ y) : j = j' := by
  have hx : j.bytes <+: j'.bytes ++ y := ⟨x, h⟩
  obtain hp | hp := List.prefix_or_prefix_of_prefix hx (List.prefix_append _ _)
  · exact render_isPrefix hj hj' (utf8_isPrefix hp)
  · exact (render_isPrefix hj' hj (utf8_isPrefix hp)).symm

end Mineshaft.Lib.Json
