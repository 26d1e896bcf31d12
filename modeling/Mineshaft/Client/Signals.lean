import Mineshaft.Core.Message
import Mineshaft.Lib.HashMap

namespace Mineshaft.Client

open Mineshaft.Core Mineshaft.Lib

structure GameSignal where
  networkId : String
  connectionId : UInt64
  line : String
  deriving DecidableEq

def parseDigits : Nat → List Char → Option UInt64
  | n, [] => if n < 2 ^ 64 then some (UInt64.ofNat n) else none
  | n, d :: ds => if d.isDigit then parseDigits (10 * n + (d.toNat - '0'.toNat)) ds else none

def parseU64 (s : String) : Option UInt64 :=
  match s.toList with
  | '+' :: d :: ds => parseDigits 0 (d :: ds)
  | d :: ds => parseDigits 0 (d :: ds)
  | [] => none

example : parseU64 "18446744073709551615" = some 18446744073709551615 ∧
    parseU64 "18446744073709551616" = none ∧ parseU64 "+" = none := by decide +kernel

/-- The game and the advertised target of each connection id that the local
game joins through. -/
abbrev JoinConns := HashMap UInt64 (UInt64 × UInt64)

/-- One round of the forward task, with the target that `join_target` gives for
the connection id: the connections recorded, and the message to be written. A
signal that is not from the local game is skipped. -/
def forwardSignal (myNetworkId : UInt64) (localGameId : Option UInt64) (joinConns : JoinConns)
    (signal : GameSignal) (target : Option UInt64) : Option (JoinConns × ClientMessage) :=
  match parseU64 signal.networkId with
  | none => none
  | some sender =>
    if sender = myNetworkId then none
    else if target.isSome ∨ localGameId = some sender then
      match target with
      | some t => some (joinConns.insert signal.connectionId (sender, t),
          .signal t signal.connectionId myNetworkId signal.line)
      | none => some (joinConns, .signal 0 signal.connectionId myNetworkId signal.line)
    else none

structure MessagePacket where
  sender : UInt64
  recipient : UInt64
  data : String
  deriving DecidableEq

/-- The packet that `inject_signal` builds, when it knows a route. -/
def injectSignal (localGameId : Option UInt64) (joinConns : JoinConns)
    (connectionId joinerNetworkId : UInt64) (data : String) : Option MessagePacket :=
  match localGameId with
  | some gameId => some ⟨joinerNetworkId, gameId, data⟩
  | none => (joinConns.lookup connectionId).map (fun q => ⟨q.2, q.1, data⟩)

theorem forwardSignal_eq_some {my : UInt64} {game : Option UInt64} {joins joins' : JoinConns}
    {signal : GameSignal} {target : Option UInt64} {msg : ClientMessage}
    (h : forwardSignal my game joins signal target = some (joins', msg)) :
    msg = .signal (target.getD 0) signal.connectionId my signal.line ∧
      ∃ sender, parseU64 signal.networkId = some sender ∧ sender ≠ my ∧
        joins' = target.elim joins (fun t => joins.insert signal.connectionId (sender, t)) := by
  unfold forwardSignal at h
  split at h
  · cases h
  next sender hs =>
    split at h
    · cases h
    next hne =>
      split at h
      · split at h <;> cases h
        · exact ⟨rfl, sender, hs, hne, rfl⟩
        · exact ⟨rfl, sender, hs, hne, rfl⟩
      · cases h

end Mineshaft.Client
