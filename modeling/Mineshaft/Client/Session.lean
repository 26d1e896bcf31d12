import Mineshaft.Client.Loop

namespace Mineshaft.Client

open Mineshaft.Core Mineshaft.Lib Mineshaft.Lib.Transition
open Mineshaft.Server (ConnId)

def livenessTimeout : Nat := 45000

/-- Where a reader task stands. It can be stopped where it waits: for the next
message, and inside `inject_signal`. -/
inductive ReaderPc
  | waiting
  | received (msg : ServerMessage)
  | noted (msg : ServerMessage)
  | injecting
  | leaving
  | ended
  deriving DecidableEq

def ReaderPc.inHand : ReaderPc → List ServerMessage
  | .received msg | .noted msg => [msg]
  | .waiting | .injecting | .leaving | .ended => []

/-- One connection: its reader task and whether it was aborted, the frames of
the server that were read and those on their way, the channel to the main
loop, and how many `ListHosts` have reached the server. -/
structure Link where
  reader : ReaderPc
  cancelled : Bool
  seen : List ServerMessage
  ahead : List ServerMessage
  channel : List ServerMessage
  asked : Nat

def Link.init : Link := ⟨.waiting, false, [], [], [], 0⟩

def hostLists (msgs : List ServerMessage) : List (List AdvertisedServer) :=
  msgs.filterMap (fun msg =>
    match msg with
    | .hostList hosts => some hosts
    | .registered _ | .incomingJoin _ _ | .joinAccepted _ | .signal _ _ _ | .pong | .error _ => none)

/-- One stretch of a reader task: `read_message` yields a message or ends the
loop, `last_seen` is stored, the message is dealt with, `inject_signal`
returns, and `reader_alive` is cleared after the loop. -/
inductive ReaderStep
  | read
  | fail
  | note (now : Nat)
  | handle
  | injected
  | leave
  deriving DecidableEq

def Link.readerStep (l : Link) : ReaderStep → Option Link
  | .read =>
    if l.reader = .waiting ∧ l.cancelled = false then
      match l.ahead with
      | msg :: rest =>
        some { l with reader := .received msg, seen := l.seen ++ [msg], ahead := rest }
      | [] => none
    else none
  | .fail =>
    if l.reader = .waiting ∧ l.cancelled = false then some { l with reader := .leaving } else none
  | .note _ =>
    match l.reader with
    | .received msg => some { l with reader := .noted msg }
    | _ => none
  | .handle =>
    match l.reader with
    | .noted (.hostList hosts) =>
      some { l with reader := .waiting, channel := l.channel ++ [.hostList hosts] }
    | .noted (.signal _ _ _) => some { l with reader := .injecting }
    | .noted _ => some { l with reader := .waiting }
    | _ => none
  | .injected =>
    if l.reader = .injecting ∧ l.cancelled = false then some { l with reader := .waiting } else none
  | .leave => if l.reader = .leaving then some { l with reader := .ended } else none

inductive Reads (l : Link) : ReaderStep → Link → Prop
  | read {msg : ServerMessage} {rest : List ServerMessage} : l.reader = .waiting →
      l.cancelled = false → l.ahead = msg :: rest →
      Reads l .read { l with reader := .received msg, seen := l.seen ++ [msg], ahead := rest }
  | fail : l.reader = .waiting → l.cancelled = false → Reads l .fail { l with reader := .leaving }
  | note {msg : ServerMessage} {now : Nat} : l.reader = .received msg →
      Reads l (.note now) { l with reader := .noted msg }
  | listed {hosts : List AdvertisedServer} : l.reader = .noted (.hostList hosts) →
      Reads l .handle { l with reader := .waiting, channel := l.channel ++ [.hostList hosts] }
  | signalled {msg : ServerMessage} : l.reader = .noted msg → hostLists [msg] = [] →
      Reads l .handle { l with reader := .injecting }
  | passed {msg : ServerMessage} : l.reader = .noted msg → hostLists [msg] = [] →
      Reads l .handle { l with reader := .waiting }
  | injected : l.reader = .injecting → l.cancelled = false →
      Reads l .injected { l with reader := .waiting }
  | leave : l.reader = .leaving → Reads l .leave { l with reader := .ended }

theorem hostLists_singleton {msg : ServerMessage} (h : ∀ hosts, msg ≠ .hostList hosts) :
    hostLists [msg] = [] := by
  cases msg with
  | hostList hosts => exact absurd rfl (h hosts)
  | registered _ | incomingJoin _ _ | joinAccepted _ | signal _ _ _ | pong | error _ => rfl

theorem readerStep_reads {l l' : Link} {r : ReaderStep} (h : l.readerStep r = some l') :
    Reads l r l' := by
  cases r with
  | read =>
    simp only [Link.readerStep] at h
    split at h
    next hg =>
      split at h
      next msg rest ha =>
        cases h
        exact Reads.read hg.1 hg.2 ha
      · cases h
    · cases h
  | fail =>
    simp only [Link.readerStep] at h
    split at h <;> cases h
    next hg => exact Reads.fail hg.1 hg.2
  | note now =>
    simp only [Link.readerStep] at h
    split at h <;> cases h
    next hg => exact Reads.note hg
  | handle =>
    simp only [Link.readerStep] at h
    split at h <;> cases h
    next hg => exact Reads.listed hg
    next hg => exact Reads.signalled hg rfl
    next msg hne _ hg => exact Reads.passed hg (hostLists_singleton hne)
  | injected =>
    simp only [Link.readerStep] at h
    split at h <;> cases h
    next hg => exact Reads.injected hg.1 hg.2
  | leave =>
    simp only [Link.readerStep] at h
    split at h <;> cases h
    next hg => exact Reads.leave hg

/-- The main loop with the reader tasks of all connections that it has opened.
`incoming` is the connection whose channel is in `server_incoming`. -/
structure Session where
  node : Node
  opened : List ConnId
  links : ConnId → Link
  incoming : Option ConnId
  readerAlive : Bool
  lastSeen : Nat

/-- A step of the main loop at some time, with whether a `ListHosts` whose write
failed has reached the server all the same; a step of a reader task; or a frame
that the server sends. -/
inductive Session.Label
  | node (l : Client.Label) (now : Nat) (reached : Bool)
  | reader (c : ConnId) (step : ReaderStep)
  | serve (c : ConnId) (msg : ServerMessage)

namespace Session

def init : Session := ⟨Node.init, [], fun _ => Link.init, none, false, 0⟩

def setLink (s : Session) (c : ConnId) (l : Link) : Session :=
  { s with links := Function.update s.links c l }

/-- Without a connection, `reader_task` is taken and aborted. -/
def abort (s : Session) : Session :=
  match s.node.server, s.node.readerTask with
  | none, some c => s.setLink c { s.links c with cancelled := true }
  | _, _ => s

/-- The `ListHosts` of `fetch_host_list` reaches the server. -/
def request (s : Session) (delivered : Bool) : Session :=
  match s.node.pc, s.node.server with
  | .fetching, some c =>
    if delivered then s.setLink c { s.links c with asked := (s.links c).asked + 1 } else s
  | _, _ => s

/-- The receive loop of `fetch_host_list`: the first host list in the channel,
and what is left behind it. -/
def popHostList : List ServerMessage → Option (List AdvertisedServer × List ServerMessage)
  | .hostList hosts :: rest => some (hosts, rest)
  | _ :: rest => popHostList rest
  | [] => none

/-- What surrounds a step of the main loop. The labels of the liveness check and
of a successful fetch say what the shared state says. -/
def around (s : Session) (now : Nat) (reached : Bool) (n' : Node) : Client.Label → Option Session
  | .top readerDead silent =>
    if readerDead = !s.readerAlive ∧ silent = decide (now - s.lastSeen > livenessTimeout) then
      some { s.abort with node := n' }
    else none
  | .connect (some c) =>
    if c ∈ s.opened then none
    else some { s.setLink c Link.init with
      node := n'
      opened := c :: s.opened
      incoming := some c
      readerAlive := true
      lastSeen := now }
  | .write ok => some { s.request (ok || reached) with node := n' }
  | .fetched (some hosts) =>
    match s.incoming with
    | some c =>
      match popHostList (s.links c).channel with
      | some (hosts', rest) =>
        if hosts' = hosts then
          some { s.setLink c { s.links c with channel := rest } with node := n' }
        else none
      | none => none
    | none => none
  | .connect none | .detect _ _ | .fetched none | .beat _ => some { s with node := n' }

def stored (s : Session) : ReaderStep → Session
  | .note now => { s with lastSeen := now }
  | .leave => { s with readerAlive := false }
  | .read | .fail | .handle | .injected => s

section Steps

variable (myNetworkId : UInt64)
variable (buildResponsePacket : UInt64 → ServerAdvertisement → Option (List UInt8))

/-- One step. The server sends no more host lists than it was asked for. -/
def step (s : Session) : Label → Option Session
  | .node l now reached =>
    (s.node.step myNetworkId buildResponsePacket l).bind (fun r => s.around now reached r.1 l)
  | .reader c r =>
    if c ∈ s.opened then ((s.links c).readerStep r).map (fun l => (s.stored r).setLink c l)
    else none
  | .serve c msg =>
    if c ∈ s.opened ∧
        (hostLists ((s.links c).seen ++ (s.links c).ahead ++ [msg])).length ≤ (s.links c).asked then
      some (s.setLink c { s.links c with ahead := (s.links c).ahead ++ [msg] })
    else none

def machine : Machine Session Label := ⟨init, step myNetworkId buildResponsePacket⟩

end Steps

abbrev Event := Transition.Event Session Label

inductive Around (s : Session) (now : Nat) (reached : Bool) (n' : Node) :
    Client.Label → Session → Prop
  | top {readerDead silent : Bool} : readerDead = !s.readerAlive →
      Around s now reached n' (.top readerDead silent) { s.abort with node := n' }
  | connect {c : ConnId} : c ∉ s.opened →
      Around s now reached n' (.connect (some c)) { s.setLink c Link.init with
        node := n'
        opened := c :: s.opened
        incoming := some c
        readerAlive := true
        lastSeen := now }
  | write {ok : Bool} :
      Around s now reached n' (.write ok) { s.request (ok || reached) with node := n' }
  | received {hosts : List AdvertisedServer} {c : ConnId} {rest : List ServerMessage} :
      s.incoming = some c → popHostList (s.links c).channel = some (hosts, rest) →
      Around s now reached n' (.fetched (some hosts))
        { s.setLink c { s.links c with channel := rest } with node := n' }
  | other {l : Client.Label} : (∀ d si, l ≠ .top d si) → (∀ c, l ≠ .connect (some c)) →
      (∀ ok, l ≠ .write ok) → (∀ hosts, l ≠ .fetched (some hosts)) →
      Around s now reached n' l { s with node := n' }

theorem around_cases {s s' : Session} {now : Nat} {reached : Bool} {n' : Node} {l : Client.Label}
    (h : s.around now reached n' l = some s') : Around s now reached n' l s' := by
  unfold around at h
  split at h
  · split at h <;> cases h
    next hg => exact Around.top hg.1
  · split at h <;> cases h
    next hg => exact Around.connect hg
  · cases h
    exact Around.write
  · split at h
    next c hc =>
      split at h
      next hosts' rest hp =>
        split at h <;> cases h
        next he =>
          subst he
          exact Around.received hc hp
      · cases h
    · cases h
  all_goals
    cases h
    apply Around.other <;> simp

theorem node_cases {myNetworkId : UInt64}
    {buildResponsePacket : UInt64 → ServerAdvertisement → Option (List UInt8)} {s s' : Session}
    {l : Client.Label} {now : Nat} {reached : Bool}
    (h : s.step myNetworkId buildResponsePacket (.node l now reached) = some s') :
    ∃ n' out, Moves myNetworkId buildResponsePacket s.node l n' out ∧
      Around s now reached n' l s' := by
  obtain ⟨⟨n', out⟩, hn, ha⟩ := Option.bind_eq_some_iff.mp h
  exact ⟨n', out, step_cases hn, around_cases ha⟩

theorem reader_cases {myNetworkId : UInt64}
    {buildResponsePacket : UInt64 → ServerAdvertisement → Option (List UInt8)} {s s' : Session}
    {c : ConnId} {r : ReaderStep}
    (h : (machine myNetworkId buildResponsePacket).step s (.reader c r) = some s') :
    c ∈ s.opened ∧ ∃ l, Reads (s.links c) r l ∧ s' = (s.stored r).setLink c l := by
  simp only [machine, step] at h
  split at h
  next hc =>
    obtain ⟨l, hl, rfl⟩ := Option.map_eq_some_iff.mp h
    exact ⟨hc, l, readerStep_reads hl, rfl⟩
  · cases h

theorem setLink_links (s : Session) (c d : ConnId) (l : Link) :
    (s.setLink c l).links d = if d = c then l else s.links d :=
  Function.update_apply s.links c l d

theorem abort_links (s : Session) (d : ConnId) :
    s.abort.links d = s.links d ∨
      s.abort.links d = { s.links d with cancelled := true } := by
  unfold abort
  split
  next c _ _ =>
    rw [setLink_links]
    split
    next hd =>
      subst hd
      exact Or.inr rfl
    · exact Or.inl rfl
  · exact Or.inl rfl

theorem abort_frame (s : Session) : s.abort.opened = s.opened ∧ s.abort.incoming = s.incoming ∧
    s.abort.readerAlive = s.readerAlive := by
  unfold abort
  split <;> exact ⟨rfl, rfl, rfl⟩

theorem request_links (s : Session) (delivered : Bool) (d : ConnId) :
    (s.request delivered).links d = s.links d ∨
      (s.request delivered).links d = { s.links d with asked := (s.links d).asked + 1 } := by
  unfold request
  split
  next c _ _ =>
    split
    · rw [setLink_links]
      split
      next hd =>
        subst hd
        exact Or.inr rfl
      · exact Or.inl rfl
    · exact Or.inl rfl
  · exact Or.inl rfl

theorem request_frame (s : Session) (delivered : Bool) :
    (s.request delivered).opened = s.opened ∧ (s.request delivered).incoming = s.incoming ∧
      (s.request delivered).readerAlive = s.readerAlive := by
  unfold request
  split
  · split <;> exact ⟨rfl, rfl, rfl⟩
  · exact ⟨rfl, rfl, rfl⟩

theorem stored_frame (s : Session) (r : ReaderStep) : (s.stored r).node = s.node ∧
    (s.stored r).opened = s.opened ∧ (s.stored r).incoming = s.incoming ∧
    (s.stored r).links = s.links := by
  cases r <;> exact ⟨rfl, rfl, rfl, rfl⟩

end Session

end Mineshaft.Client
