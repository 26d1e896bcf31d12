import Mineshaft.Core.Message
import Mineshaft.Lib.HashMap

namespace Mineshaft.Core

open Mineshaft.Lib

structure CachedAdvertisement where
  data : ServerAdvertisement
  packet : List UInt8
  deriving DecidableEq

abbrev Advertised := HashMap UInt64 CachedAdvertisement

structure ServerData where
  serverName : String
  levelName : String
  gameType : UInt8
  playerCount : Int32
  maxPlayerCount : Int32
  editorWorld : Bool
  hardcore : Bool
  flagA : Bool
  flagB : Bool
  sessionId : String
  transportLayer : UInt8
  connectionType : UInt8
  deriving DecidableEq

def serverData (data : ServerAdvertisement) : ServerData where
  serverName := data.serverName
  levelName := data.levelName
  gameType := data.gameType
  playerCount := data.playerCount
  maxPlayerCount := data.maxPlayerCount
  editorWorld := data.editorWorld
  hardcore := data.hardcore
  flagA := data.flagA
  flagB := data.flagB
  sessionId := data.sessionId
  transportLayer := data.transportLayer
  connectionType := data.connectionType

/-- `build_response_packet` over the two marshaling functions of `nethernet`:
that of the server data, and that of a response packet with a sender id. -/
def buildResponsePacket (marshalData : ServerData → Option (List UInt8))
    (marshalResponse : List UInt8 → UInt64 → Option (List UInt8))
    (senderId : UInt64) (data : ServerAdvertisement) : Option (List UInt8) :=
  (marshalData (serverData data)).bind (fun response => marshalResponse response senderId)

namespace Advertised

section Marshaling

-- `build_response_packet` as a partial function: marshaling can fail
variable (buildResponsePacket : UInt64 → ServerAdvertisement → Option (List UInt8))

def advertise (reg : Advertised) (senderId : UInt64) (data : ServerAdvertisement) : Advertised :=
  match buildResponsePacket senderId data with
  | some packet => reg.insert senderId ⟨data, packet⟩
  | none => reg

def updateHost (reg : Advertised) (senderId : UInt64) (data : ServerAdvertisement) : Advertised :=
  advertise buildResponsePacket reg senderId data

/-- One round of the loop in `replace_all`. An unchanged advertisement keeps
the packet that it has. -/
def refresh (reg : Advertised) (entry : AdvertisedServer) : Advertised :=
  if (reg.lookup entry.senderId).map (fun existing => existing.data) = some entry.data then reg
  else advertise buildResponsePacket reg entry.senderId entry.data

def replaceAll (reg : Advertised) (entries : List AdvertisedServer) : Advertised :=
  entries.foldl (refresh buildResponsePacket)
    (reg.retain (fun senderId _ => entries.any (fun e => decide (e.senderId = senderId))))

end Marshaling

def unadvertise (reg : Advertised) (senderId : UInt64) : Advertised := reg.erase senderId

def advertised (reg : Advertised) : List AdvertisedServer :=
  reg.entries.map (fun e => ⟨e.1, e.2.data⟩)

end Advertised

end Mineshaft.Core
