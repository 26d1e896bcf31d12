import Mineshaft.Core.Net
import Mineshaft.Lib.Json

namespace Mineshaft.Core

open Mineshaft.Lib

def tagged (name : String) (content : Json) : Json := .obj [(name, content)]

def u64 (n : UInt64) : Json := .num n.toNat

def ServerAdvertisement.toJson (ad : ServerAdvertisement) : Json := .obj [
  ("server_name", .str ad.serverName),
  ("level_name", .str ad.levelName),
  ("game_type", .num ad.gameType.toNat),
  ("player_count", .num ad.playerCount.toInt),
  ("max_player_count", .num ad.maxPlayerCount.toInt),
  ("editor_world", .bool ad.editorWorld),
  ("hardcore", .bool ad.hardcore),
  ("flag_a", .bool ad.flagA),
  ("flag_b", .bool ad.flagB),
  ("session_id", .str ad.sessionId),
  ("transport_layer", .num ad.transportLayer.toNat),
  ("connection_type", .num ad.connectionType.toNat)]

def AdvertisedServer.toJson (server : AdvertisedServer) : Json :=
  .obj [("sender_id", u64 server.senderId), ("data", server.data.toJson)]

def ClientMessage.toJson : ClientMessage → Json
  | .registerHost server => tagged "RegisterHost" server.toJson
  | .unregisterHost senderId => tagged "UnregisterHost" (.obj [("sender_id", u64 senderId)])
  | .listHosts => .str "ListHosts"
  | .connectRequest targetSenderId joinerNetworkId => tagged "ConnectRequest" (.obj [
      ("target_sender_id", u64 targetSenderId), ("joiner_network_id", u64 joinerNetworkId)])
  | .signal targetSenderId connectionId joinerNetworkId data => tagged "Signal" (.obj [
      ("target_sender_id", u64 targetSenderId), ("connection_id", u64 connectionId),
      ("joiner_network_id", u64 joinerNetworkId), ("data", .str data)])
  | .ping => .str "Ping"
  | .updateHost server => tagged "UpdateHost" server.toJson

def ServerMessage.toJson : ServerMessage → Json
  | .registered senderId => tagged "Registered" (.obj [("sender_id", u64 senderId)])
  | .hostList hosts => tagged "HostList" (.arr (hosts.map AdvertisedServer.toJson))
  | .incomingJoin joinerNetworkId sessionId => tagged "IncomingJoin" (.obj [
      ("joiner_network_id", u64 joinerNetworkId), ("session_id", u64 sessionId)])
  | .joinAccepted sessionId => tagged "JoinAccepted" (.obj [("session_id", u64 sessionId)])
  | .signal connectionId joinerNetworkId data => tagged "Signal" (.obj [
      ("connection_id", u64 connectionId), ("joiner_network_id", u64 joinerNetworkId),
      ("data", .str data)])
  | .pong => .str "Pong"
  | .error text => tagged "Error" (.str text)

def ClientMessage.payload (msg : ClientMessage) : List UInt8 := msg.toJson.bytes

def ServerMessage.payload (msg : ServerMessage) : List UInt8 := msg.toJson.bytes

example : ServerMessage.payload (.signal 5 9 "A\n") =
    "\x7b\"Signal\":\x7b\"connection_id\":5,\"joiner_network_id\":9,\"data\":\"A\\n\"\x7d\x7d".toUTF8.toList :=
  by decide +kernel

end Mineshaft.Core
