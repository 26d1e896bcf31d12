import Mathlib.Data.Nat.Digits.Defs

namespace Mineshaft.Lib

inductive Json
  | bool (b : Bool)
  | num (n : Int)
  | str (s : String)
  | arr (items : List Json)
  | obj (fields : List (String × Json))

namespace Json

def utf8 (text : List Char) : List UInt8 := text.flatMap String.utf8EncodeChar

/-- One character of a string in compact JSON. Quotes, backslashes and control
characters are escaped and everything else stands for itself. -/
def escapeChar (c : Char) : List Char :=
  if c = '"' then ['\\', '"']
  else if c = '\\' then ['\\', '\\']
  else if c.toNat = 8 then ['\\', 'b']
  else if c.toNat = 9 then ['\\', 't']
  else if c.toNat = 10 then ['\\', 'n']
  else if c.toNat = 12 then ['\\', 'f']
  else if c.toNat = 13 then ['\\', 'r']
  else if c.toNat < 32 then
    ['\\', 'u', '0', '0', Nat.digitChar (c.toNat / 16), Nat.digitChar (c.toNat % 16)]
  else [c]

def quote (s : String) : List Char := '"' :: s.toList.flatMap escapeChar ++ ['"']

def digits : Int → List Char
  | .ofNat n => Nat.toDigits 10 n
  | .negSucc n => '-' :: Nat.toDigits 10 (n + 1)

def commaSep : List (List Char) → List Char
  | [] => []
  | [x] => x
  | x :: y :: xs => x ++ ',' :: commaSep (y :: xs)

mutual

def render : Json → List Char
  | .bool b => if b then "true".toList else "false".toList
  | .num n => digits n
  | .str s => quote s
  | .arr items => '[' :: commaSep (renderItems items) ++ [']']
  | .obj fields => '\x7b' :: commaSep (renderFields fields) ++ ['\x7d']

def renderItems : List Json → List (List Char)
  | [] => []
  | item :: items => item.render :: renderItems items

def renderFields : List (String × Json) → List (List Char)
  | [] => []
  | (key, value) :: fields => (quote key ++ ':' :: value.render) :: renderFields fields

end

def bytes (j : Json) : List UInt8 := utf8 j.render

theorem renderItems_eq (items : List Json) : renderItems items = items.map render := by
  induction items with
  | nil => rw [renderItems]; rfl
  | cons item items ih => rw [renderItems, ih]; rfl

@[simp] theorem utf8_append (xs ys : List Char) : utf8 (xs ++ ys) = utf8 xs ++ utf8 ys :=
  List.flatMap_append

@[simp] theorem utf8_nil : utf8 [] = [] := rfl

theorem utf8_cons (c : Char) (cs : List Char) : utf8 (c :: cs) = String.utf8EncodeChar c ++ utf8 cs :=
  List.flatMap_cons

theorem utf8_length_le (cs : List Char) : (utf8 cs).length ≤ 4 * cs.length := by
  induction cs with
  | nil => simp
  | cons c cs ih =>
    have hc := c.utf8Size_le_four
    rw [utf8_cons, List.length_append, String.length_utf8EncodeChar, List.length_cons]
    omega

theorem escapeChar_length (c : Char) : (escapeChar c).length ≤ 6 := by
  unfold escapeChar
  split_ifs <;> simp

theorem quote_length (s : String) : (quote s).length ≤ 6 * s.toList.length + 2 := by
  have h : (s.toList.flatMap escapeChar).length ≤ 6 * s.toList.length := by
    induction s.toList with
    | nil => simp
    | cons c cs ih =>
      have hc := escapeChar_length c
      simp only [List.flatMap_cons, List.length_append, List.length_cons]
      omega
  simp only [quote, List.cons_append, List.length_cons, List.length_append, List.length_nil]
  omega

theorem commaSep_length (xs : List (List Char)) :
    (utf8 (commaSep xs)).length = (xs.map (fun x => (utf8 x).length)).sum + (xs.length - 1) := by
  induction xs using commaSep.induct with
  | case1 => rfl
  | case2 x => simp [commaSep]
  | case3 x y xs ih =>
    have hc : (String.utf8EncodeChar ',').length = 1 := rfl
    simp only [commaSep, utf8_append, utf8_cons, List.length_append, hc, ih, List.map_cons,
      List.sum_cons, List.length_cons]
    omega

theorem bytes_arr_length (items : List Json) : (bytes (.arr items)).length =
    2 + (items.map (fun item => (bytes item).length)).sum + (items.length - 1) := by
  have ho : (String.utf8EncodeChar '[').length = 1 := rfl
  have hc : (String.utf8EncodeChar ']').length = 1 := rfl
  simp only [bytes, render, List.cons_append, utf8_cons, utf8_append, utf8_nil, List.length_append,
    ho, hc, commaSep_length, renderItems_eq, List.map_map, List.length_map, List.append_nil]
  simp only [Function.comp_def]
  omega

theorem renderFields_eq (fields : List (String × Json)) :
    renderFields fields = fields.map (fun f => quote f.1 ++ ':' :: f.2.render) := by
  induction fields with
  | nil => rw [renderFields]; rfl
  | cons f fields ih =>
    obtain ⟨key, value⟩ := f
    rw [renderFields, ih]
    rfl

theorem bytes_obj_length (fields : List (String × Json)) : (bytes (.obj fields)).length =
    2 + (fields.map (fun f => (utf8 (quote f.1)).length + 1 + (bytes f.2).length)).sum +
      (fields.length - 1) := by
  have ho : (String.utf8EncodeChar '\x7b').length = 1 := rfl
  have hc : (String.utf8EncodeChar '\x7d').length = 1 := rfl
  have hs : (String.utf8EncodeChar ':').length = 1 := rfl
  simp only [bytes, render, List.cons_append, utf8_cons, utf8_append, utf8_nil, List.length_append,
    ho, hc, commaSep_length, renderFields_eq, List.map_map, List.length_map, List.append_nil]
  simp only [Function.comp_def, utf8_append, utf8_cons, List.length_append, hs, Nat.add_assoc]
  omega

theorem digits_length {n k : Nat} (hk : 0 < k) (hn : n < 10 ^ k) : (digits (n : Int)).length ≤ k :=
  Nat.toDigits_length 10 n k hk hn

theorem quote_replicate {c : Char} (hc : escapeChar c = [c]) (hs : c.utf8Size = 1) (n : Nat) :
    (utf8 (quote (String.ofList (List.replicate n c)))).length = n + 2 := by
  have hq : (String.utf8EncodeChar '"').length = 1 := rfl
  have hr : (utf8 ((List.replicate n c).flatMap escapeChar)).length = n := by
    induction n with
    | zero => rfl
    | succ n ih =>
      rw [List.replicate_succ, List.flatMap_cons, hc, utf8_append, List.length_append, ih, utf8_cons,
        utf8_nil, List.append_nil, String.length_utf8EncodeChar, hs]
      omega
  simp only [quote, String.toList_ofList, List.cons_append, utf8_cons, utf8_append, utf8_nil,
    List.append_nil, List.length_append, hq, hr]
  omega

end Json

end Mineshaft.Lib
