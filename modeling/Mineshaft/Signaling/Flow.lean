import Mineshaft.Server.Queues

namespace Mineshaft.Signaling

open Mineshaft.Core Mineshaft.Lib
open Mineshaft.Server (ConnId Task Consumes handled handled_afterSends handled_handle replies
  step_moves)

def signalOf (id : UInt64) : ClientMessage → Option (UInt64 × String)
  | .signal _ connectionId joinerNetworkId data =>
    if connectionId = id then some (joinerNetworkId, data) else none
  | .registerHost _ | .unregisterHost _ | .listHosts | .connectRequest _ _ | .ping | .updateHost _ =>
    none

def relayOf (id : UInt64) : ServerMessage → Option (UInt64 × String)
  | .signal connectionId joinerNetworkId data =>
    if connectionId = id then some (joinerNetworkId, data) else none
  | .registered _ | .hostList _ | .incomingJoin _ _ | .joinAccepted _ | .pong | .error _ => none

def signals (id : UInt64) (msgs : List ClientMessage) : List (UInt64 × String) :=
  msgs.filterMap (signalOf id)

def relays (id : UInt64) (msgs : List ServerMessage) : List (UInt64 × String) :=
  msgs.filterMap (relayOf id)

@[simp] theorem signals_append (id : UInt64) (xs ys : List ClientMessage) :
    signals id (xs ++ ys) = signals id xs ++ signals id ys :=
  List.filterMap_append

@[simp] theorem relays_append (id : UInt64) (xs ys : List ServerMessage) :
    relays id (xs ++ ys) = relays id xs ++ relays id ys :=
  List.filterMap_append

@[simp] theorem signals_nil (id : UInt64) : signals id [] = [] := rfl

@[simp] theorem relays_nil (id : UInt64) : relays id [] = [] := rfl

/-- The signals with the id that a connection has sent and its handler has not
passed on, the oldest first: those that it has routed, the one that it has
read, and those on the wire. -/
def upstream (id : UInt64) (s : Server.State) (c : ConnId) (wire : List ClientMessage) :
    List (UInt64 × String) :=
  relays id ((s.outgoing c).map (fun q => q.2)) ++
    signals id (((s.task c).bind handled).toList ++ wire)

def passed (id : UInt64) : Server.Label → List (UInt64 × String)
  | .sendTo _ _ msg => relays id [msg]
  | _ => []

def dropped (id : UInt64) (reg : Server.Registry) : Server.Label → List (UInt64 × String)
  | .handle _ (.signal targetSenderId connectionId joinerNetworkId data) =>
    if (reg.routeDest targetSenderId connectionId).isSome then []
    else signals id [.signal targetSenderId connectionId joinerNetworkId data]
  | _ => []

theorem relays_replies (id : UInt64) (reg : Server.Registry) (addr : SocketAddr) (c : ConnId)
    (msg : ClientMessage) :
    dropped id reg (.handle c msg) ++ relays id ((replies reg addr msg).map (fun q => q.2)) =
      signals id [msg] := by
  cases msg with
  | ping | registerHost | updateHost | unregisterHost | listHosts => rfl
  | connectRequest t n =>
    simp only [replies, dropped]
    split <;> rfl
  | signal t i n data =>
    cases hd : reg.routeDest t i with
    | none => simp [replies, dropped, hd]
    | some dest =>
      simp only [replies, dropped, hd, Option.isSome_some, ↓reduceIte, Option.toList_some,
        List.map_cons, List.map_nil, List.nil_append]
      rfl

theorem dropped_ne_nil {id : UInt64} {reg : Server.Registry} {l : Server.Label}
    (h : dropped id reg l ≠ []) : ∃ t n data, l = .handle l.conn (.signal t id n data) ∧
      reg.routeDest t id = none := by
  unfold dropped at h
  split at h
  next c t i n data =>
    split at h
    · exact absurd rfl h
    next hd =>
      by_cases hi : i = id
      · subst hi
        exact ⟨t, n, data, rfl, by simpa using hd⟩
      · simp [signals, signalOf, hi] at h
  · exact absurd rfl h

theorem upstream_append (id : UInt64) (s : Server.State) (c : ConnId) (wire more : List ClientMessage) :
    upstream id s c (wire ++ more) = upstream id s c wire ++ signals id more := by
  simp only [upstream, signals_append, List.append_assoc]

theorem upstream_own {s s' : Server.State} {l : Server.Label} (hs : Server.step s l = some s')
    {wire wire' : List ClientMessage} (hc : Consumes l wire wire') (id : UInt64) :
    upstream id s l.conn wire =
      passed id l ++ dropped id s.reg l ++ upstream id s' l.conn wire' := by
  obtain ⟨⟨addr, -, -, hm⟩, -⟩ := step_moves hs
  have hwire : (∀ msg, l ≠ .read l.conn msg) → wire' = wire := by
    intro hl
    obtain ⟨msg, he, -⟩ | ⟨-, he⟩ := hc
    · exact absurd he (hl msg)
    · exact he
  simp only [upstream, Server.State.outgoing]
  generalize s.task l.conn = t at hm
  generalize s'.task l.conn = t' at hm
  cases hm with
  | accept | insert | leave | cleanup | write | closeRx =>
    rw [hwire (by simp)]
    rfl
  | @read c msg =>
    obtain ⟨msg', he, rfl⟩ | ⟨hn, -⟩ := hc
    · cases he
      rfl
    · exact absurd rfl (hn msg)
  | listHosts | openSession =>
    rw [hwire (by simp)]
    simp only [Option.map_some, Option.getD_some, Option.bind_some, Server.outgoing_afterSends,
      handled_afterSends]
    rfl
  | sendTo =>
    rw [hwire (by simp)]
    simp only [Option.map_some, Option.getD_some, Option.bind_some, Server.outgoing_afterSends,
      Server.outgoing_sending, handled_afterSends, passed, dropped, List.append_nil]
    rw [← List.append_assoc, ← relays_append]
    rfl
  | @handle c msg r hr =>
    have hrel := relays_replies id s.reg addr c msg
    rw [hwire (by simp)]
    simp only [Option.map_some, Option.getD_some, Option.bind_some, Server.handle_outgoing hr,
      handled_handle hr, passed, List.nil_append, Option.toList_none]
    rw [← List.append_assoc, hrel, ← signals_append]
    rfl

theorem upstream_frame {s s' : Server.State} {l : Server.Label} (hs : Server.step s l = some s')
    {c : ConnId} (hc : c ≠ l.conn) (id : UInt64) (wire : List ClientMessage) :
    upstream id s' c wire = upstream id s c wire := by
  have ht := ((step_moves hs).2 c hc).1
  simp only [upstream, Server.State.outgoing, ht]

theorem outgoing_relay {s s' : Server.State} {l : Server.Label} (hs : Server.step s l = some s')
    {a : ConnId} {q : SocketAddr × ServerMessage} (hq : q ∈ s'.outgoing a) {id : UInt64}
    {x : UInt64 × String} (hx : relayOf id q.2 = some x) :
    q ∈ s.outgoing a ∨ ∃ t, l = .handle a (.signal t id x.1 x.2) ∧
      s.reg.routeDest t id = some q.1 := by
  by_cases ha : a = l.conn
  · subst ha
    have hmem : q ∈ s.outgoing l.conn ++ Server.outputs l.conn ⟨s, l⟩ := by
      rw [Server.outputs_own hs]
      exact List.mem_append_right _ hq
    refine (List.mem_append.mp hmem).imp_right (fun hout => ?_)
    simp only [Server.outputs, ↓reduceIte] at hout
    obtain ⟨addr, -, hout⟩ := List.mem_flatMap.mp hout
    cases l with
    | handle c msg =>
      cases msg with
      | signal t i n data =>
        obtain ⟨dest, hdest, rfl⟩ := List.mem_map.mp hout
        simp only [relayOf] at hx
        split at hx
        next hi =>
          cases hx
          subst hi
          exact ⟨t, rfl, Option.mem_toList.mp hdest⟩
        · cases hx
      | connectRequest t n =>
        simp only [Server.labelOutputs, replies] at hout
        split at hout
        · cases hout
        · obtain rfl := List.mem_singleton.mp hout
          cases hx
      | ping | registerHost =>
        obtain rfl := List.mem_singleton.mp hout
        cases hx
      | updateHost | unregisterHost | listHosts => cases hout
    | listHosts c hosts =>
      obtain rfl := List.mem_singleton.mp hout
      cases hx
    | openSession c host n =>
      obtain rfl | rfl := List.mem_pair.mp hout
      · cases hx
      · cases hx
    | _ => cases hout
  · left
    simpa only [Server.State.outgoing, ((step_moves hs).2 a ha).1] using hq

def inbox (s : Server.State) (d : ConnId) : List ServerMessage := (s.queue d).map (fun x => x.msg)

def delivered (s : Server.State) (d : ConnId) : Server.Label → List ServerMessage
  | .sendTo _ dest msg => if s.reg.clients.lookup dest = some ⟨d⟩ ∧ s.rxOpen d then [msg] else []
  | _ => []

theorem inbox_step {s s' : Server.State} {l : Server.Label} (hs : Server.step s l = some s')
    (d : ConnId) : inbox s' d = inbox s d ++ delivered s d l := by
  cases l with
  | sendTo c dest msg =>
    simp only [inbox, delivered, Server.step_sendTo_queue hs, List.map_append]
    split <;> rfl
  | _ => simp [inbox, delivered, Server.step_queue hs d (by simp)]

end Mineshaft.Signaling
