import Mineshaft.Lib.Utf16
import Mineshaft.Platform.Windows

namespace Mineshaft.Platform.Windows

open Mineshaft.Core (toLeBytes fromLeBytes fromLeBytes_toLeBytes)
open Mineshaft.Lib.Utf16

/-- `szExeFile` of a process of the snapshot: its name with a terminating zero,
and whatever an earlier entry has left behind that in the buffer. -/
structure ExeFile where
  name : List UInt16
  stale : List UInt16
  terminated : 0 ∉ name
  size : name.length + 1 + stale.length = 260

def ExeFile.units (exe : ExeFile) : List UInt16 := exe.name ++ 0 :: exe.stale

def exeName (szExeFile : List UInt16) : List Char :=
  let len := (szExeFile.findIdx? (fun c => c == 0)).getD szExeFile.length
  fromUtf16Lossy (szExeFile.take len)

/-- The loop over `Process32FirstW` and `Process32NextW`, with the buffers that
the calls leave until one fails. -/
def scanSnapshot : List (List UInt16) → Bool
  | [] => false
  | szExeFile :: rest =>
    if eqIgnoreAsciiCase (exeName szExeFile) "Minecraft.Windows.exe".toList then true
    else scanSnapshot rest

def minecraftProcessRunningImpl (snapshot : Option (List (List UInt16))) : Bool :=
  match snapshot with
  | some entries => scanSnapshot entries
  | none => false

def minecraftProcessRunning (snapshot : Option (List (List UInt16))) : Bool :=
  minecraftProcessRunningImpl snapshot

def ownerPidOfPort (os : Os) (port : UInt16) : Except PlatformError (Option UInt32) :=
  ownerPidOfPortImpl os port

theorem exeName_units (exe : ExeFile) : exeName exe.units = fromUtf16Lossy exe.name := by
  have hidx : exe.units.findIdx? (fun c => c == 0) = some exe.name.length := by
    have hname : exe.name.findIdx? (fun c => c == 0) = none := by
      rw [List.findIdx?_eq_none_iff]
      intro u hu
      have hne : u ≠ 0 := by
        rintro rfl
        exact exe.terminated hu
      simpa using hne
    rw [ExeFile.units, List.findIdx?_append, hname]
    simp [List.findIdx?_cons]
  rw [exeName, hidx, Option.getD_some, ExeFile.units, List.take_left]

def gameName : List UInt16 := "minecraft.windows.exe".toList.map unit

theorem isGame_iff (exe : ExeFile) :
    eqIgnoreAsciiCase (exeName exe.units) "Minecraft.Windows.exe".toList = true ↔
      exe.name.map lowerUnit = gameName := by
  have hascii : "minecraft.windows.exe".toList.all (fun c => decide (c.toNat < 128)) = true := by
    decide +kernel
  rw [exeName_units]
  refine eqIgnoreAsciiCase_lossy (by decide +kernel) ?_
  intro c hc
  exact of_decide_eq_true (List.all_eq_true.mp hascii c hc)

/-- The game is found exactly when a process of the snapshot has its name, up to
the case of letters. What stands behind the zero in the buffer, and names that
are no valid UTF-16, do not matter. -/
theorem processRunning_iff (snapshot : Option (List ExeFile)) :
    minecraftProcessRunning (snapshot.map (fun entries => entries.map ExeFile.units)) = true ↔
      ∃ entries, snapshot = some entries ∧ ∃ exe ∈ entries, exe.name.map lowerUnit = gameName := by
  cases snapshot with
  | none => simp [minecraftProcessRunning, minecraftProcessRunningImpl]
  | some entries =>
    simp only [minecraftProcessRunning, minecraftProcessRunningImpl, Option.map_some,
      Option.some.injEq, exists_eq_left']
    induction entries with
    | nil => simp [scanSnapshot]
    | cons exe rest ih =>
      rw [List.map_cons, scanSnapshot]
      by_cases hm : exe.name.map lowerUnit = gameName
      · rw [if_pos ((isGame_iff exe).mpr hm)]
        simp [hm]
      · rw [if_neg (fun h => hm ((isGame_iff exe).mp h)), ih]
        simp [hm]

/-- The game in the buffer of an entry with a longer name. -/
def ExeFile.game : ExeFile where
  name := "Minecraft.Windows.exe".toList.map unit
  stale := List.replicate 238 0x61
  terminated := by decide +kernel
  size := by decide +kernel

theorem processRunning_iff_game :
    minecraftProcessRunning (some [ExeFile.game.units]) = true :=
  (processRunning_iff (some [ExeFile.game])).mpr
    ⟨_, rfl, ExeFile.game, List.mem_singleton_self _, by decide +kernel⟩

theorem row_pid (socket : Udp) : socket.row.dwOwningPid = socket.owningPid :=
  fromLeBytes_toLeBytes socket.owningPid

/-- The owner of a port is read from the first row of the table with that port;
a table that has outgrown the buffer has no rows. -/
theorem ownerPidOfPort_eq (os : Os) (port : UInt16) :
    ownerPidOfPort os port =
      match os.reply with
      | .filled => .ok ((os.udp.find? (fun socket => decide (socket.localPort = port))).map
          (fun socket => socket.owningPid))
      | .insufficientBuffer => .ok none
      | .failed _ => .error (.io os.lastOsError) := by
  cases hr : os.reply with
  | filled =>
    simp only [ownerPidOfPort, ownerPidOfPortImpl, if_neg (size_ne_zero os), Os.getExtendedUdpTable,
      hr, rows_filled hr]
    rw [if_neg (by simp), List.find?_map, Option.map_map]
    simp only [Function.comp_def, fromBe_row, row_pid]
  | insufficientBuffer =>
    have hn := os.needed
    have hzero : fromLeBytes ((List.replicate os.size.toNat 0).take 4) = 0 := by
      rw [List.take_replicate, Nat.min_eq_left (by omega)]
      rfl
    simp only [ownerPidOfPort, ownerPidOfPortImpl, if_neg (size_ne_zero os), Os.getExtendedUdpTable,
      hr, hzero]
    simp [readRows]
  | failed code =>
    simp only [ownerPidOfPort, ownerPidOfPortImpl, if_neg (size_ne_zero os), Os.getExtendedUdpTable,
      hr, if_pos (os.other code hr)]

end Mineshaft.Platform.Windows
