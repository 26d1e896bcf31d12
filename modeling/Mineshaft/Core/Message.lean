import Mathlib.Data.List.Basic

namespace Mineshaft.Core

/-- The peer address of a connection. The server only compares addresses. -/
inductive SocketAddr
  | v4 (ip : BitVec 32) (port : UInt16)
  | v6 (ip : BitVec 128) (port : UInt16) (flowinfo scopeId : UInt32)
  deriving DecidableEq

structure ServerAdvertisement where
  serverName : String
  levelName : String
  gameType : UInt8
  playerCount : Int32
  maxPlayerCount : Int32
  editorWorld : Bool
  hardcore : Bool
  flagA : Bool
  flagB : Bool
  sessionId : String
  transportLayer : UInt8
  connectionType : UInt8
  deriving DecidableEq

instance : Inhabited ServerAdvertisement where
  default :=
    { serverName := "mineshaft"
      levelName := "mineshaft world"
      gameType := 0
      playerCount := 1
      maxPlayerCount := 8
      editorWorld := false
      hardcore := false
      flagA := true
      flagB := true
      sessionId := "0000000000000000"
      transportLayer := 2
      connectionType := 4 }

structure AdvertisedServer where
  senderId : UInt64
  data : ServerAdvertisement
  deriving DecidableEq

inductive ClientMessage
  | registerHost (server : AdvertisedServer)
  | unregisterHost (senderId : UInt64)
  | listHosts
  | connectRequest (targetSenderId joinerNetworkId : UInt64)
  | signal (targetSenderId connectionId joinerNetworkId : UInt64) (data : String)
  | ping
  | updateHost (server : AdvertisedServer)
  deriving DecidableEq

inductive ServerMessage
  | registered (senderId : UInt64)
  | hostList (hosts : List AdvertisedServer)
  | incomingJoin (joinerNetworkId sessionId : UInt64)
  | joinAccepted (sessionId : UInt64)
  | signal (connectionId joinerNetworkId : UInt64) (data : String)
  | pong
  | error (text : String)
  deriving DecidableEq

def lowerHex (n : UInt64) : String := String.ofList (Nat.toDigits 16 n.toNat)

end Mineshaft.Core
