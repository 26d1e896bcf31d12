import Mineshaft.Core.Net
import Mineshaft.Platform.ProcNet

namespace Mineshaft.Platform.Windows

open Mineshaft.Core (toLeBytes fromLeBytes fromLeBytes_toLeBytes)

structure Udp where
  localAddr : UInt32
  localPort : UInt16
  uninitialized : UInt16
  owningPid : UInt32
  deriving DecidableEq

def Udp.bytes (socket : Udp) : List UInt8 :=
  toLeBytes socket.localAddr ++
    [(socket.localPort >>> 8).toUInt8, socket.localPort.toUInt8,
      socket.uninitialized.toUInt8, (socket.uninitialized >>> 8).toUInt8] ++
    toLeBytes socket.owningPid

def tableBytes (table : List Udp) : List UInt8 :=
  toLeBytes (UInt32.ofNat table.length) ++ table.flatMap Udp.bytes

inductive Reply
  | filled
  | insufficientBuffer
  | failed (code : UInt32)
  deriving DecidableEq

def errorInsufficientBuffer : UInt32 := 122

/-- What the system does during one probe: the IPv4 table at the first call with
the size reported for it, and both tables and the reply at the second call. Of
the IPv6 table only the local ports matter. -/
structure Os where
  before : List Udp
  size : UInt32
  udp : List Udp
  udp6 : List UInt16
  reply : Reply
  lastOsError : ErrorKind
  needed : 4 + 12 * before.length ≤ size.toNat
  fits : reply = .filled → 4 + 12 * udp.length ≤ size.toNat
  grown : reply = .insufficientBuffer → before.length < udp.length
  other : ∀ code, reply = .failed code → code ≠ 0 ∧ code ≠ errorInsufficientBuffer

/-- The second call: its result and what it leaves in the buffer. -/
def Os.getExtendedUdpTable (os : Os) (buffer : List UInt8) : UInt32 × List UInt8 :=
  match os.reply with
  | .filled => (0, tableBytes os.udp ++ buffer.drop (tableBytes os.udp).length)
  | .insufficientBuffer => (errorInsufficientBuffer, buffer)
  | .failed code => (code, buffer)

structure MibUdpRowOwnerPid where
  dwLocalAddr : UInt32
  dwLocalPort : UInt32
  dwOwningPid : UInt32

def MibUdpRowOwnerPid.read (bytes : List UInt8) : MibUdpRowOwnerPid where
  dwLocalAddr := fromLeBytes (bytes.take 4)
  dwLocalPort := fromLeBytes ((bytes.drop 4).take 4)
  dwOwningPid := fromLeBytes ((bytes.drop 8).take 4)

def readRows : Nat → List UInt8 → List MibUdpRowOwnerPid
  | 0, _ => []
  | count + 1, bytes => .read bytes :: readRows count (bytes.drop 12)

def fromBe (n : UInt16) : UInt16 := n <<< 8 ||| n >>> 8

def ownerPidOfPortImpl (os : Os) (port : UInt16) : Except PlatformError (Option UInt32) :=
  if os.size = 0 then .ok none
  else
    let (result, buffer) := os.getExtendedUdpTable (List.replicate os.size.toNat 0)
    if result ≠ 0 ∧ result ≠ errorInsufficientBuffer then .error (.io os.lastOsError)
    else
      let count := (fromLeBytes (buffer.take 4)).toNat
      let rows := readRows count (buffer.drop 4)
      .ok ((rows.find? (fun row => decide (fromBe row.dwLocalPort.toUInt16 = port))).map
        (fun row => row.dwOwningPid))

def udpPortBoundImpl (os : Os) (port : UInt16) : Except PlatformError Bool :=
  match ownerPidOfPortImpl os port with
  | .ok pid => .ok pid.isSome
  | .error e => .error e

def udpPortBound (os : Os) (port : UInt16) : Except PlatformError Bool := udpPortBoundImpl os port

def Udp.row (socket : Udp) : MibUdpRowOwnerPid := .read socket.bytes

theorem read_append (socket : Udp) (rest : List UInt8) :
    MibUdpRowOwnerPid.read (socket.bytes ++ rest) = socket.row := rfl

theorem drop_bytes (socket : Udp) (rest : List UInt8) :
    (socket.bytes ++ rest).drop 12 = rest := rfl

theorem fromLeBytes_toNat (a b c d : UInt8) :
    (fromLeBytes [a, b, c, d]).toNat =
      a.toNat + 256 * b.toNat + 65536 * (c.toNat + 256 * d.toNat) := by
  have ha := a.toNat_lt
  have hb := b.toNat_lt
  have hc := c.toNat_lt
  have hd := d.toNat_lt
  simp only [fromLeBytes, List.foldr_cons, List.foldr_nil, UInt32.toNat_add, UInt32.toNat_mul,
    UInt8.toNat_toUInt32, UInt32.toNat_ofNat, Nat.reducePow, Nat.reduceMod]
  omega

theorem fromBe_toNat (n : UInt16) :
    (fromBe n).toNat = n.toNat % 256 * 256 + n.toNat / 256 := by
  have hn := n.toNat_lt
  have hor := Nat.two_pow_add_eq_or_of_lt (i := 8) (b := n.toNat / 256) (by omega) (n.toNat % 256)
  have hhigh : n.toNat * 256 % 65536 = 256 * (n.toNat % 256) := by omega
  simp only [fromBe, UInt16.toNat_or, UInt16.toNat_shiftLeft, UInt16.toNat_shiftRight,
    UInt16.toNat_ofNat, Nat.shiftLeft_eq, Nat.shiftRight_eq_div_pow, Nat.reduceMod,
    Nat.reducePow] at hor ⊢
  rw [hhigh, ← hor]
  omega

theorem row_port_toNat (socket : Udp) :
    socket.row.dwLocalPort.toUInt16.toNat =
      socket.localPort.toNat / 256 + 256 * (socket.localPort.toNat % 256) := by
  have hp := socket.localPort.toNat_lt
  have hhigh : socket.localPort.toNat / 256 % 256 = socket.localPort.toNat / 256 := by omega
  rw [UInt32.toNat_toUInt16]
  change (fromLeBytes [(socket.localPort >>> 8).toUInt8, socket.localPort.toUInt8,
    socket.uninitialized.toUInt8, (socket.uninitialized >>> 8).toUInt8]).toNat % 65536 = _
  rw [fromLeBytes_toNat, Nat.add_mul_mod_self_left]
  simp only [UInt16.toNat_toUInt8, UInt16.toNat_shiftRight, UInt16.toNat_ofNat,
    Nat.shiftRight_eq_div_pow, Nat.reducePow, Nat.reduceMod, hhigh]
  omega

theorem fromBe_row (socket : Udp) :
    fromBe socket.row.dwLocalPort.toUInt16 = socket.localPort := by
  have hp := socket.localPort.toNat_lt
  apply UInt16.toNat_inj.mp
  rw [fromBe_toNat, row_port_toNat]
  omega

theorem readRows_table (table : List Udp) (rest : List UInt8) :
    readRows table.length (table.flatMap Udp.bytes ++ rest) = table.map Udp.row := by
  induction table with
  | nil => rfl
  | cons socket table ih =>
    rw [List.flatMap_cons, List.append_assoc, List.length_cons, readRows, read_append, drop_bytes,
      ih, List.map_cons]

/-- `Ok(false)` only if neither table holds the port when it is fetched. -/
def UnboundOnlyIfUnbound (os : Os) (port : UInt16) : Prop :=
  udpPortBound os port = .ok false →
    port ∉ os.udp.map (fun socket => socket.localPort) ∧ port ∉ os.udp6

section Probe

variable {os : Os} {port : UInt16}

theorem size_ne_zero (os : Os) : os.size ≠ 0 := by
  intro h0
  have hn := os.needed
  rw [h0] at hn
  simp at hn

theorem rows_filled (hr : os.reply = .filled) (rest : List UInt8) :
    readRows (fromLeBytes ((tableBytes os.udp ++ rest).take 4)).toNat
      ((tableBytes os.udp ++ rest).drop 4) = os.udp.map Udp.row := by
  have hsize := os.size.toNat_lt
  have hlt : os.udp.length < 2 ^ 32 := by
    have hf := os.fits hr
    omega
  have htake : (tableBytes os.udp ++ rest).take 4 = toLeBytes (UInt32.ofNat os.udp.length) := rfl
  have hdrop : (tableBytes os.udp ++ rest).drop 4 = os.udp.flatMap Udp.bytes ++ rest := rfl
  rw [htake, hdrop, fromLeBytes_toLeBytes, UInt32.toNat_ofNat_of_lt' hlt, readRows_table]

theorem udpPortBound_filled (hr : os.reply = .filled) :
    udpPortBound os port =
      .ok (decide (port ∈ os.udp.map (fun socket => socket.localPort))) := by
  simp only [udpPortBound, udpPortBoundImpl, ownerPidOfPortImpl, if_neg (size_ne_zero os),
    Os.getExtendedUdpTable, hr, rows_filled hr]
  rw [if_neg (by simp)]
  simp only [Except.ok.injEq]
  rw [Bool.eq_iff_iff]
  simp [fromBe_row]

theorem udpPortBound_insufficient (hr : os.reply = .insufficientBuffer) :
    udpPortBound os port = .ok false := by
  have hn := os.needed
  have hzero : fromLeBytes ((List.replicate os.size.toNat 0).take 4) = 0 := by
    rw [List.take_replicate, Nat.min_eq_left (by omega)]
    rfl
  simp only [udpPortBound, udpPortBoundImpl, ownerPidOfPortImpl, if_neg (size_ne_zero os),
    Os.getExtendedUdpTable, hr, hzero]
  simp [readRows]

theorem udpPortBound_failed {code : UInt32} (hr : os.reply = .failed code) :
    udpPortBound os port = .error (.io os.lastOsError) := by
  simp only [udpPortBound, udpPortBoundImpl, ownerPidOfPortImpl, if_neg (size_ne_zero os),
    Os.getExtendedUdpTable, hr, if_pos (os.other code hr)]

end Probe

/-- Only the IPv4 table is asked, and a table that has outgrown the buffer is
taken for an empty one. -/
theorem unboundOnlyIfUnbound_iff (os : Os) (port : UInt16) :
    UnboundOnlyIfUnbound os port ↔
      (∃ code, os.reply = .failed code) ∨
      (port ∉ os.udp.map (fun socket => socket.localPort) ∧ port ∉ os.udp6) ∨
      (port ∈ os.udp.map (fun socket => socket.localPort) ∧ os.reply = .filled) := by
  unfold UnboundOnlyIfUnbound
  cases hr : os.reply with
  | filled =>
    rw [udpPortBound_filled hr]
    by_cases hp : port ∈ os.udp.map (fun socket => socket.localPort)
    · simp [hp]
    · simp [hp]
  | insufficientBuffer =>
    rw [udpPortBound_insufficient hr]
    simp
  | failed code =>
    rw [udpPortBound_failed hr]
    simp

/-- A game that listens on the IPv6 wildcard address only. -/
def dualStack : Os where
  before := []
  size := 4
  udp := []
  udp6 := [7551]
  reply := .filled
  lastOsError := .other
  needed := by decide
  fits := by decide
  grown := by decide
  other := by simp

/-- A game that binds its port between the two calls. -/
def outgrown : Os where
  before := []
  size := 4
  udp := [⟨0, 7551, 0, 4711⟩]
  udp6 := []
  reply := .insufficientBuffer
  lastOsError := .other
  needed := by decide
  fits := by decide
  grown := by decide
  other := by simp

theorem unboundOnlyIfUnbound_missed :
    udpPortBound dualStack 7551 = .ok false ∧ ¬ UnboundOnlyIfUnbound dualStack 7551 ∧
      udpPortBound outgrown 7551 = .ok false ∧ ¬ UnboundOnlyIfUnbound outgrown 7551 := by
  have hd : udpPortBound dualStack 7551 = .ok false := by decide
  have ho : udpPortBound outgrown 7551 = .ok false := by decide
  refine ⟨hd, fun h => ?_, ho, fun h => ?_⟩
  · exact (h hd).2 (by decide)
  · exact (h ho).1 (by decide)

end Mineshaft.Platform.Windows
