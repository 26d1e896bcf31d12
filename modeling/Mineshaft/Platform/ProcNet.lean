import Mineshaft.Lib.Text

namespace Mineshaft.Platform

open Mineshaft.Lib.Text

inductive ErrorKind
  | notFound
  | permissionDenied
  | invalidData
  | other
  deriving DecidableEq

inductive PlatformError
  | io (e : ErrorKind)
  deriving DecidableEq

abbrev Files := String → Except ErrorKind (List Char)

namespace ProcNet

/-- `table_has_port` of the Linux and of the Android backend, for the file that
it reads. -/
def tableHasPort (file : Except ErrorKind (List Char)) (needle : List Char) :
    Except PlatformError Bool :=
  match file with
  | .ok content =>
    .ok (((lines content).drop 1).any (fun line =>
      match (splitWhitespace line)[1]? with
      | some localAddress => needle.isSuffixOf localAddress
      | none => false))
  | .error .notFound => .ok false
  | .error e => .error (.io e)

def scanTables (files : Files) (needle : List Char) : List String → Except PlatformError Bool
  | [] => .ok false
  | table :: rest =>
    match tableHasPort (files table) needle with
    | .ok true => .ok true
    | .ok false => scanTables files needle rest
    | .error e => .error e

def udpPortBound (files : Files) (port : UInt16) : Except PlatformError Bool :=
  scanTables files (':' :: upperHex 4 port.toNat) ["/proc/net/udp", "/proc/net/udp6"]

end ProcNet

def Linux.udpPortBound (files : Files) (port : UInt16) : Except PlatformError Bool :=
  ProcNet.udpPortBound files port

def Android.udpPortBound (files : Files) (port : UInt16) : Except PlatformError Bool :=
  ProcNet.udpPortBound files port

namespace ProcNet

structure Gap where
  chars : List Char
  ne_nil : chars ≠ []
  blank : ∀ c ∈ chars, isWhitespace c = true
  inLine : '\n' ∉ chars

/-- A socket in the text format of the kernel, with an address of the given
number of digits. The fields behind the local address are any text. -/
structure Row (digits : Nat) where
  indent : Nat
  slot : List Char
  gap : Gap
  localAddr : BitVec (4 * digits)
  localPort : UInt16
  gap' : Gap
  fields : List Char
  slot_digits : ∀ c ∈ slot, c.isDigit = true
  inLine : '\n' ∉ fields

structure Table (digits : Nat) where
  header : List Char
  rows : List (Row digits)
  inLine : '\n' ∉ header

variable {digits : Nat}

def Row.slotColumn (row : Row digits) : List Char := row.slot ++ [':']

def Row.localColumn (row : Row digits) : List Char :=
  hexDigits digits row.localAddr.toNat ++ ':' :: hexDigits 4 row.localPort.toNat

def Row.render (row : Row digits) : List Char :=
  List.replicate row.indent ' ' ++ (row.slotColumn ++ (row.gap.chars ++ (row.localColumn ++
    (row.gap'.chars ++ row.fields))))

def Table.render (table : Table digits) : List Char :=
  table.header ++ '\n' :: table.rows.flatMap (fun row => row.render ++ ['\n'])

def file (table : Option (Table digits)) : Except ErrorKind (List Char) :=
  match table with
  | some table => .ok table.render
  | none => .error .notFound

def procFiles (udp : Option (Table 8)) (udp6 : Option (Table 32)) : Files := fun path =>
  if path = "/proc/net/udp" then file udp
  else if path = "/proc/net/udp6" then file udp6
  else .error .notFound

def ports (table : Option (Table digits)) : List UInt16 :=
  match table with
  | some table => table.rows.map (fun row => row.localPort)
  | none => []

section Columns

variable (row : Row digits)

theorem isWhitespace_of_isDigit {c : Char} (hc : c.isDigit = true) : isWhitespace c = false := by
  have hr : 48 ≤ c.toNat ∧ c.toNat ≤ 57 := by
    simpa [Char.isDigit, UInt32.le_iff_toNat_le] using hc
  simp only [isWhitespace, Bool.or_eq_false_iff, Bool.and_eq_false_iff, decide_eq_false_iff_not]
  omega

theorem isWhitespace_of_mem_hexDigits {width n : Nat} {c : Char} (hc : c ∈ hexDigits width n) :
    isWhitespace c = false := by
  have hall : ∀ d : Fin 16, isWhitespace (Nat.digitChar d).toUpper = false := by decide
  obtain ⟨d, hd, rfl⟩ := mem_hexDigits hc
  exact hall ⟨d, hd⟩

theorem slotColumn_solid : ∀ c ∈ row.slotColumn, isWhitespace c = false := by
  intro c hc
  rw [Row.slotColumn, List.mem_append, List.mem_singleton] at hc
  obtain hc | rfl := hc
  · exact isWhitespace_of_isDigit (row.slot_digits c hc)
  · decide

theorem localColumn_solid : ∀ c ∈ row.localColumn, isWhitespace c = false := by
  intro c hc
  rw [Row.localColumn, List.mem_append, List.mem_cons] at hc
  obtain hc | rfl | hc := hc
  · exact isWhitespace_of_mem_hexDigits hc
  · decide
  · exact isWhitespace_of_mem_hexDigits hc

theorem newline_not_mem_of_solid {l : List Char} (hl : ∀ c ∈ l, isWhitespace c = false) :
    '\n' ∉ l := by
  intro hm
  have h := hl _ hm
  revert h
  decide

theorem newline_not_mem_render : '\n' ∉ row.render := by
  simp only [Row.render, List.mem_append, List.mem_replicate, not_or]
  refine ⟨by simp, newline_not_mem_of_solid (slotColumn_solid row), row.gap.inLine,
    newline_not_mem_of_solid (localColumn_solid row), row.gap'.inLine, row.inLine⟩

theorem splitWhitespace_render :
    (splitWhitespace row.render)[1]? = some row.localColumn := by
  have hindent : ∀ c ∈ List.replicate row.indent ' ', isWhitespace c = true := by
    intro c hc
    rw [List.eq_of_mem_replicate hc]
    decide
  rw [splitWhitespace, Row.render, words_gap hindent,
    words_cons (by simp [Row.slotColumn]) (slotColumn_solid row) row.gap.ne_nil row.gap.blank,
    words_cons (by simp [Row.localColumn]) (localColumn_solid row) row.gap'.ne_nil
      row.gap'.blank]
  rfl

theorem suffix_localColumn (port : UInt16) :
    (':' :: upperHex 4 port.toNat).isSuffixOf row.localColumn = decide (row.localPort = port) := by
  have hfit : ∀ p : UInt16, p.toNat < 16 ^ 4 := fun p => p.toNat_lt
  rw [upperHex_eq (by decide) (hfit port), Bool.eq_iff_iff, List.isSuffixOf_iff_suffix,
    decide_eq_true_iff]
  constructor
  · intro hs
    have hs' : ':' :: hexDigits 4 row.localPort.toNat <:+ row.localColumn :=
      List.suffix_append _ _
    have hlen : (':' :: hexDigits 4 port.toNat).length =
        (':' :: hexDigits 4 row.localPort.toNat).length := by
      simp [hexDigits_length]
    have heq := (List.suffix_of_suffix_length_le hs hs' (Nat.le_of_eq hlen)).eq_of_length hlen
    have hn := hexDigits_injective (hfit port) (hfit row.localPort) (List.tail_eq_of_cons_eq heq)
    exact (UInt16.toNat_inj.mp hn).symm
  · rintro rfl
    exact List.suffix_append _ _

end Columns

theorem lines_rows (rows : List (Row digits)) :
    lines (rows.flatMap (fun row => row.render ++ ['\n'])) =
      rows.map (fun row => stripReturn row.render) := by
  induction rows with
  | nil => rfl
  | cons row rows ih =>
    rw [List.flatMap_cons, List.append_assoc, List.singleton_append,
      lines_line (newline_not_mem_render row), ih, List.map_cons]

theorem lines_render (table : Table digits) :
    lines table.render =
      stripReturn table.header :: table.rows.map (fun row => stripReturn row.render) := by
  rw [Table.render, lines_line table.inLine, lines_rows]

theorem tableHasPort_render (table : Table digits) (port : UInt16) :
    tableHasPort (.ok table.render) (':' :: upperHex 4 port.toNat) =
      .ok (decide (port ∈ table.rows.map (fun row => row.localPort))) := by
  simp only [tableHasPort, lines_render, List.drop_succ_cons, List.drop_zero, List.any_map]
  congr 1
  rw [Bool.eq_iff_iff, List.any_eq_true, decide_eq_true_iff, List.mem_map]
  constructor
  · rintro ⟨row, hrow, hp⟩
    simp only [Function.comp_apply, splitWhitespace_stripReturn, splitWhitespace_render,
      suffix_localColumn, decide_eq_true_eq] at hp
    exact ⟨row, hrow, hp⟩
  · rintro ⟨row, hrow, rfl⟩
    refine ⟨row, hrow, ?_⟩
    simp [splitWhitespace_stripReturn, splitWhitespace_render, suffix_localColumn]

theorem tableHasPort_file (table : Option (Table digits)) (port : UInt16) :
    tableHasPort (file table) (':' :: upperHex 4 port.toNat) =
      .ok (decide (port ∈ ports table)) := by
  cases table with
  | none => simp [file, ports, tableHasPort]
  | some table => exact tableHasPort_render table port

theorem udpPortBound_procFiles (udp : Option (Table 8)) (udp6 : Option (Table 32))
    (port : UInt16) :
    udpPortBound (procFiles udp udp6) port =
      .ok (decide (port ∈ ports udp ∨ port ∈ ports udp6)) := by
  have h4 : procFiles udp udp6 "/proc/net/udp" = file udp := rfl
  have h6 : procFiles udp udp6 "/proc/net/udp6" = file udp6 := rfl
  simp only [udpPortBound, scanTables, h4, h6, tableHasPort_file]
  by_cases hp : port ∈ ports udp <;> by_cases hp6 : port ∈ ports udp6 <;> simp [hp, hp6]

end ProcNet

/-- Both backends report a port exactly when it is the local port of a row in
one of the tables, whatever the other columns and the headers hold. -/
theorem udpPortBound_exact (udp : Option (ProcNet.Table 8)) (udp6 : Option (ProcNet.Table 32))
    (port : UInt16) :
    Linux.udpPortBound (ProcNet.procFiles udp udp6) port =
        .ok (decide (port ∈ ProcNet.ports udp ∨ port ∈ ProcNet.ports udp6)) ∧
      Android.udpPortBound (ProcNet.procFiles udp udp6) port =
        .ok (decide (port ∈ ProcNet.ports udp ∨ port ∈ ProcNet.ports udp6)) :=
  ⟨ProcNet.udpPortBound_procFiles udp udp6 port, ProcNet.udpPortBound_procFiles udp udp6 port⟩

def ProcNet.Gap.space : ProcNet.Gap := ⟨[' '], by decide, List.forall_mem_singleton.mpr (by decide), by decide⟩

/-- A table with one socket on the port 7551, whose peer column names the port 7550. -/
def ProcNet.Table.listening : ProcNet.Table 8 where
  header := "  sl  local_address rem_address".toList
  rows := [{
    indent := 3
    slot := ['1', '2']
    gap := ProcNet.Gap.space
    localAddr := 0x0100007F
    localPort := 7551
    gap' := ProcNet.Gap.space
    fields := "00000000:1D7E 07".toList
    slot_digits := by simp
    inLine := by decide +kernel }]
  inLine := by decide +kernel

theorem udpPortBound_exact_listening :
    Linux.udpPortBound (ProcNet.procFiles (some ProcNet.Table.listening) none) 7551 = .ok true ∧
      Android.udpPortBound (ProcNet.procFiles (some ProcNet.Table.listening) none) 7550 =
        .ok false := by
  have hbound := (udpPortBound_exact (some ProcNet.Table.listening) none 7551).1
  have hfree := (udpPortBound_exact (some ProcNet.Table.listening) none 7550).2
  rw [hbound, hfree]
  decide +kernel

end Mineshaft.Platform
