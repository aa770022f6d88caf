/-
The transport between two raft nodes.  Each node keeps a peer record for the
other, with at most one connection and a queue of messages.  Every connection
that is dialed or accepted starts a sender loop and a receiver loop, and
neither kind stops when the connection is replaced.  A sender between its two
writes owns the unfinished frame of its stream, and a receiver within a frame
is its one reader.
-/
import Streambus.FrameStream
import Streambus.GuardedRun

namespace Streambus.Consensus

inductive Side where
  | left
  | right
deriving DecidableEq

def Side.other : Side → Side
  | .left => .right
  | .right => .left

namespace Side

variable (side other : Side)

theorem other_ne : side.other ≠ side := by
  cases side <;> decide

@[simp] theorem other_other : side.other.other = side := by
  cases side <;> rfl

theorem eq_or_eq_other : other = side ∨ other = side.other := by
  cases side <;> cases other <;> decide

end Side

structure MessageCodec (M : Type) where
  marshal : M → Option Bytes
  unmarshal : Bytes → Option M

/-- The places of a sender loop: before it takes a message, before it looks up
the connection, before the two writes, after a failure, and before it connects
again. -/
inductive SenderLoop (M : Type) where
  | idle
  | loading (msg : M) (attempt : Nat)
  | length (msg : M) (data : Bytes) (attempt conn : Nat)
  | body (msg : M) (data : Bytes) (attempt conn : Nat)
  | failed (msg : M) (attempt : Nat)
  | waiting (msg : M) (attempt : Nat)

/-- The places of a receiver loop, with what it has read there. -/
inductive ReceiverLoop where
  | starting
  | length (conn : Nat) (got : Bytes)
  | body (conn size : Nat) (got : Bytes)
  | done
deriving DecidableEq

/-- The messages passed to `Send`, those handed to the handler with their
connection, and the positions at which frames were read are kept as
history. -/
structure BidirPeer (M : Type) where
  conn : Option Nat
  sendCh : List M
  sends : List M
  senders : List (SenderLoop M)
  receivers : List ReceiverLoop
  sent : List M
  handed : List (Nat × M)
  starts : List (Nat × Nat)

structure Conn where
  dialer : Option Side
  accepted : Bool
  closed : Side → Bool
  stream : Side → FrameStream

/-- The two nodes and the connections between them. -/
structure PeerPair (M : Type) where
  peer : Side → BidirPeer M
  conns : Nat → Conn
  dialed : Nat

inductive ReadEvent where
  | bytes (count : Nat)
  | timeout
  | error
deriving DecidableEq

/-- A step of a `Send` call, of a loop, or of the handling of an incoming
connection.  The step of a sender loop fails if a fault is given, a write after
that many bytes. -/
inductive TransportOp (M : Type) where
  | send (side : Side) (msg : M) (dial : Bool)
  | enqueue (side : Side) (call : Nat)
  | expire (side : Side) (call : Nat)
  | sender (side : Side) (loop : Nat) (fault : Option Nat)
  | accept (side : Side) (conn : Nat) (fails : Bool)
  | receiver (side : Side) (loop : Nat) (event : ReadEvent)

def sendChSize : Nat := 256

def maxRetries : Nat := 3

def maxMessageSize : Nat := 10 * 1024 * 1024

namespace ReceiverLoop

/-- The connection a loop reads from. -/
def conn? : ReceiverLoop → Option Nat
  | .length conn _ | .body conn _ _ => some conn
  | _ => none

/-- The number of bytes a loop asks for. -/
def wanted : ReceiverLoop → Nat
  | .length _ got => 4 - got.length
  | .body _ size got => size - got.length
  | _ => 0

/-- What a loop has read of a frame. -/
def consumed : ReceiverLoop → Bytes
  | .length _ got => got
  | .body _ size got => beBytes 4 size ++ got
  | _ => []

/-- Where a loop goes on with more bytes, and the payload it has read in
full. -/
def feed : ReceiverLoop → Bytes → ReceiverLoop × Option Bytes
  | .length conn got, bytes =>
    let got := got ++ bytes
    let size := beNat got
    if got.length < 4 then (.length conn got, none)
    else if maxMessageSize < size then (.done, none)
    else if size = 0 then (.length conn [], some [])
    else (.body conn size [], none)
  | .body conn size got, bytes =>
    let got := got ++ bytes
    if got.length < size then (.body conn size got, none)
    else (.length conn [], some got)
  | loop, _ => (loop, none)

/-- A deadline that expires in the length is no error. -/
def timedOut : ReceiverLoop → ReceiverLoop
  | .length conn _ => .length conn []
  | _ => .done

end ReceiverLoop

namespace PeerPair

variable {M : Type} (pair : PeerPair M)

def stream (conn : Nat) (writer : Side) : FrameStream :=
  (pair.conns conn).stream writer

def updatePeer (side : Side) (update : BidirPeer M → BidirPeer M) : PeerPair M :=
  { pair with
    peer := fun other =>
      if other = side then update (pair.peer other) else pair.peer other }

def updateConn (conn : Nat) (update : Conn → Conn) : PeerPair M :=
  { pair with
    conns := fun other =>
      if other = conn then update (pair.conns other) else pair.conns other }

def updateStream (conn : Nat) (writer : Side)
    (update : FrameStream → FrameStream) : PeerPair M :=
  pair.updateConn conn fun link =>
    { link with
      stream := fun side =>
        if side = writer then update (link.stream side)
        else link.stream side }

def setSender (side : Side) (loop : Nat) (place : SenderLoop M) : PeerPair M :=
  pair.updatePeer side fun peer =>
    { peer with senders := peer.senders.set loop place }

def setReceiver (side : Side) (loop : Nat) (place : ReceiverLoop) : PeerPair M :=
  pair.updatePeer side fun peer =>
    { peer with receivers := peer.receivers.set loop place }

/-- Close a connection on one side. -/
def close (side : Side) (conn : Nat) : PeerPair M :=
  pair.updateConn conn fun link =>
    { link with
      closed := fun other => if other = side then true else link.closed other }

/-- Use a connection from now on, with a sender and a receiver of its own. -/
def startLoops (side : Side) (conn : Nat) : PeerPair M :=
  pair.updatePeer side fun peer =>
    { peer with
      conn := some conn
      senders := peer.senders ++ [.idle]
      receivers := peer.receivers ++ [.starting] }

/-- Dial unless there is a connection.  Dialing may be held back by the circuit
breaker or fail. -/
def ensureConnected (side : Side) (dial : Bool) : PeerPair M × Bool :=
  match (pair.peer side).conn with
  | some _ => (pair, true)
  | none =>
    if dial then
      let dialing := pair.updateConn pair.dialed fun link =>
        { link with dialer := some side }
      ({ dialing with dialed := pair.dialed + 1 }.startLoops side pair.dialed, true)
    else (pair, false)

/-- The part of `Send` up to its wait for room in the queue. -/
def send (side : Side) (msg : M) (dial : Bool) : PeerPair M :=
  let pair := pair.updatePeer side fun peer =>
    { peer with sent := peer.sent ++ [msg] }
  match pair.ensureConnected side dial with
  | (pair, true) =>
    pair.updatePeer side fun peer => { peer with sends := peer.sends ++ [msg] }
  | (pair, false) => pair

def enqueue (side : Side) (call : Nat) : PeerPair M :=
  match (pair.peer side).sends[call]? with
  | none => pair
  | some msg =>
    if (pair.peer side).sendCh.length < sendChSize then
      pair.updatePeer side fun peer =>
        { peer with
          sends := peer.sends.eraseIdx call
          sendCh := peer.sendCh ++ [msg] }
    else pair

def expire (side : Side) (call : Nat) : PeerPair M :=
  pair.updatePeer side fun peer =>
    { peer with sends := peer.sends.eraseIdx call }

/-- The connection in use is closed, which need not be the one that failed. -/
def dropConn (side : Side) : PeerPair M :=
  match (pair.peer side).conn with
  | none => pair
  | some conn =>
    (pair.close side conn).updatePeer side fun peer =>
      { peer with conn := none }

def senderLoop (codec : MessageCodec M) (side : Side) (loop : Nat)
    (fault : Option Nat) : PeerPair M :=
  match (pair.peer side).senders[loop]? with
  | none => pair
  | some .idle =>
    match (pair.peer side).sendCh with
    | [] => pair
    | msg :: rest =>
      (pair.updatePeer side fun peer =>
        { peer with sendCh := rest }).setSender side loop (.loading msg 0)
  | some (.loading msg attempt) =>
    match (pair.peer side).conn, codec.marshal msg with
    | some conn, some data =>
      pair.setSender side loop (.length msg data attempt conn)
    | _, _ => pair.setSender side loop (.failed msg attempt)
  | some (.length msg data attempt conn) =>
    if (pair.conns conn).closed side then
      pair.setSender side loop (.failed msg attempt)
    else
      match fault with
      | none =>
        (pair.updateStream conn side fun stream =>
          stream.writeLength loop data 4).setSender side loop
            (.body msg data attempt conn)
      | some count =>
        (pair.updateStream conn side fun stream =>
          stream.writeLength loop data count).setSender side loop
            (.failed msg attempt)
  | some (.body msg data attempt conn) =>
    if (pair.conns conn).closed side then
      pair.setSender side loop (.failed msg attempt)
    else
      match fault with
      | none =>
        (pair.updateStream conn side fun stream =>
          stream.writeBody loop data data.length).setSender side loop .idle
      | some count =>
        (pair.updateStream conn side fun stream =>
          stream.writeBody loop data count).setSender side loop (.failed msg attempt)
  | some (.failed msg attempt) =>
    if attempt = maxRetries then (pair.dropConn side).setSender side loop .idle
    else (pair.dropConn side).setSender side loop (.waiting msg attempt)
  | some (.waiting msg attempt) =>
    (pair.ensureConnected side fault.isNone).1.setSender side loop
      (.loading msg (attempt + 1))

/-- An incoming connection is used unless there is one. -/
def handleIncomingConnection (side : Side) (conn : Nat) (fails : Bool) : PeerPair M :=
  if (pair.conns conn).dialer = some side.other ∧
      (pair.conns conn).accepted = false then
    let pair := pair.updateConn conn fun link => { link with accepted := true }
    if fails ∨ (pair.peer side).conn.isSome then pair.close side conn
    else pair.startLoops side conn
  else pair

/-- Read up to a number of bytes.  Without any the loop waits. -/
def readBytes (codec : MessageCodec M) (side : Side) (loop conn : Nat)
    (place : ReceiverLoop) (count : Nat) : PeerPair M :=
  let stream := pair.stream conn side.other
  let bytes := stream.peek (min count place.wanted)
  if bytes = [] then pair
  else
    let (next, payload) := place.feed bytes
    (pair.updateStream conn side.other fun stream =>
      let stream := stream.advance loop bytes.length
      if payload.isSome then stream.leave else stream).updatePeer side fun peer =>
          { peer with
            receivers := peer.receivers.set loop next
            starts :=
              if place.consumed = [] then peer.starts ++ [(conn, stream.read)]
              else peer.starts
            handed :=
              match payload.bind codec.unmarshal with
              | none => peer.handed
              | some msg => peer.handed ++ [(conn, msg)] }

def read (codec : MessageCodec M) (side : Side) (loop conn : Nat)
    (place : ReceiverLoop) (event : ReadEvent) : PeerPair M :=
  if (pair.conns conn).closed side then pair.setReceiver side loop .done
  else
    match event with
    | .bytes count => pair.readBytes codec side loop conn place count
    | .timeout => pair.setReceiver side loop place.timedOut
    | .error => pair.setReceiver side loop .done

def receiverLoop (codec : MessageCodec M) (side : Side) (loop : Nat)
    (event : ReadEvent) : PeerPair M :=
  match (pair.peer side).receivers[loop]? with
  | none => pair
  | some .done => pair
  | some .starting =>
    match (pair.peer side).conn with
    | none => pair.setReceiver side loop .done
    | some conn => pair.setReceiver side loop (.length conn [])
  | some (.length conn got) =>
    pair.read codec side loop conn (.length conn got) event
  | some (.body conn size got) =>
    pair.read codec side loop conn (.body conn size got) event

def step (codec : MessageCodec M) : TransportOp M → PeerPair M
  | .send side msg dial => pair.send side msg dial
  | .enqueue side call => pair.enqueue side call
  | .expire side call => pair.expire side call
  | .sender side loop fault => pair.senderLoop codec side loop fault
  | .accept side conn fails => pair.handleIncomingConnection side conn fails
  | .receiver side loop event => pair.receiverLoop codec side loop event

/-- Two nodes that have added each other and are not connected. -/
def start : PeerPair M :=
  ⟨fun _ => ⟨none, [], [], [], [], [], [], []⟩,
    fun _ => ⟨none, false, fun _ => false, fun _ => .empty⟩, 0⟩

end PeerPair

open List

variable {M : Type} {codec : MessageCodec M}

/-- The bytes of a message that was passed to `Send`. -/
def Sendable (codec : MessageCodec M) (sent : List M) (data : Bytes) : Prop :=
  ∃ msg ∈ sent, codec.marshal msg = some data

/-- The position is the end of a sequence of whole frames of messages. -/
def Boundary (codec : MessageCodec M) (sent : List M) (written : Bytes)
    (position : Nat) : Prop :=
  ∃ payloads, (∀ data ∈ payloads, Sendable codec sent data) ∧
    frames payloads <+: written ∧ (frames payloads).length = position

namespace SenderLoop

/-- The message of a sender loop was passed to `Send`. -/
def Holds (codec : MessageCodec M) (sent : List M) : SenderLoop M → Prop
  | .idle => True
  | .loading msg _ | .failed msg _ | .waiting msg _ => msg ∈ sent
  | .length msg data _ _ | .body msg data _ _ =>
    msg ∈ sent ∧ codec.marshal msg = some data

/-- A loop between its two writes is the one whose frame is unfinished. -/
def Owns (outgoing : Nat → FrameStream) (loop : Nat) : SenderLoop M → Prop
  | .body _ data _ conn =>
    data ≠ [] → (outgoing conn).pending = some (loop, data)
  | _ => True

theorem Holds.mono {sent more : List M} (hsent : sent ⊆ more)
    {place : SenderLoop M} (hholds : place.Holds codec sent) :
    place.Holds codec more := by
  cases place with
  | idle => trivial
  | loading msg attempt => exact hsent hholds
  | length msg data attempt conn | body msg data attempt conn =>
    exact ⟨hsent hholds.1, hholds.2⟩
  | failed msg attempt | waiting msg attempt => exact hsent hholds

end SenderLoop

/-- A loop within a frame is the one that reads it, and has read what was taken
off the stream. -/
def ReceiverLoop.Reads (incoming : Nat → FrameStream) (loop : Nat) :
    ReceiverLoop → Prop
  | .length conn got =>
    got.length < 4 ∧ (got ≠ [] → (incoming conn).Within loop got)
  | .body conn size got =>
    size ≤ maxMessageSize ∧ got.length < size ∧
      (incoming conn).Within loop (beBytes 4 size ++ got)
  | _ => True

/-- What a node knows of the streams it writes. -/
structure Sends (codec : MessageCodec M) (outgoing : Nat → FrameStream)
    (peer : BidirPeer M) : Prop where
  calls : ∀ msg ∈ peer.sends, msg ∈ peer.sent
  queued : ∀ msg ∈ peer.sendCh, msg ∈ peer.sent
  senders : ∀ loop (place : SenderLoop M), peer.senders[loop]? = some place →
    place.Holds codec peer.sent ∧ place.Owns outgoing loop

/-- What a node knows of the streams it reads. -/
structure Receives (codec : MessageCodec M) (incoming : Nat → FrameStream)
    (heard : List M) (peer : BidirPeer M) : Prop where
  receivers : ∀ loop (place : ReceiverLoop), peer.receivers[loop]? = some place →
    place.Reads incoming loop
  handed : ∀ entry ∈ peer.handed, ∃ data, Sendable codec heard data ∧
    codec.unmarshal data = some entry.2
  starts : ∀ entry ∈ peer.starts,
    Boundary codec heard (incoming entry.1).written entry.2

variable {more : List M}

theorem Sendable.mono {sent : List M} (hsent : sent ⊆ more) {data : Bytes}
    (hsendable : Sendable codec sent data) :
    Sendable codec more data := by
  obtain ⟨msg, hmsg, hdata⟩ := hsendable
  exact ⟨msg, hsent hmsg, hdata⟩

theorem Boundary.mono {sent : List M} (hsent : sent ⊆ more)
    {written longer : Bytes} (hwritten : written <+: longer) {position : Nat}
    (hboundary : Boundary codec sent written position) :
    Boundary codec more longer position := by
  obtain ⟨payloads, hpayloads, hprefix, hlength⟩ := hboundary
  exact ⟨payloads, fun data hdata => (hpayloads data hdata).mono hsent,
    hprefix.trans hwritten, hlength⟩

variable {loop other : Nat} {incoming : Nat → FrameStream}
  {place : ReceiverLoop} {conn : Nat}

/-- An entry of a list with one entry replaced. -/
theorem getElem?_set_cases {α : Type} {places : List α} {place found : α}
    (hfound : (places.set loop place)[other]? = some found) :
    (other = loop ∧ found = place) ∨
      (other ≠ loop ∧ places[other]? = some found) := by
  rw [getElem?_set] at hfound
  split_ifs at hfound with heq hlength
  · exact Or.inl ⟨heq.symm, (Option.some.inj hfound).symm⟩
  · exact Or.inr ⟨Ne.symm heq, hfound⟩

theorem getElem?_append_cases {α : Type} {places : List α} {place found : α}
    (hfound : (places ++ [place])[other]? = some found) :
    found = place ∨ places[other]? = some found := by
  rw [getElem?_append] at hfound
  split_ifs at hfound with hlength
  · exact Or.inr hfound
  · exact Or.inl (mem_singleton.mp (mem_of_getElem? hfound))

section

variable {outgoing incoming after : Nat → FrameStream} {heard : List M}
  {peer next : BidirPeer M}

theorem Sends.keep (hsends : Sends codec outgoing peer)
    (hcalls : next.sends = peer.sends) (hqueued : next.sendCh = peer.sendCh)
    (hsenders : next.senders = peer.senders) (hsent : next.sent = peer.sent) :
    Sends codec outgoing next := by
  constructor
  · rw [hcalls, hsent]
    exact hsends.calls
  · rw [hqueued, hsent]
    exact hsends.queued
  · rw [hsenders, hsent]
    exact hsends.senders

theorem Receives.keep (hreceives : Receives codec incoming heard peer)
    (hreceivers : next.receivers = peer.receivers)
    (hhanded : next.handed = peer.handed)
    (hstarts : next.starts = peer.starts) :
    Receives codec incoming heard next := by
  constructor
  · rw [hreceivers]
    exact hreceives.receivers
  · rw [hhanded]
    exact hreceives.handed
  · rw [hstarts]
    exact hreceives.starts

/-- One sender loop moves on, and the others keep the frames they own. -/
theorem Sends.set (hsends : Sends codec outgoing peer) {loop : Nat}
    {place : SenderLoop M} (hholds : place.Holds codec peer.sent)
    (howns : place.Owns after loop)
    (hothers : ∀ conn other data, other ≠ loop →
      (outgoing conn).pending = some (other, data) →
        (after conn).pending = some (other, data)) :
    Sends codec after { peer with senders := peer.senders.set loop place } := by
  refine ⟨hsends.calls, hsends.queued, fun other found hfound => ?_⟩
  rcases getElem?_set_cases hfound with ⟨rfl, rfl⟩ | ⟨hother, hold⟩
  · exact ⟨hholds, howns⟩
  · obtain ⟨hfoundHolds, hfoundOwns⟩ := hsends.senders other found hold
    refine ⟨hfoundHolds, ?_⟩
    cases found with
    | body msg data attempt conn =>
      exact fun hdata => hothers conn other data hother (hfoundOwns hdata)
    | _ => trivial

section

variable (hsends : Sends codec outgoing peer)

include hsends

/-- Without a change of the streams a loop may move on to any place where it
owns no frame. -/
theorem Sends.move (loop : Nat) {place : SenderLoop M}
    (hholds : place.Holds codec peer.sent) (howns : place.Owns outgoing loop) :
    Sends codec outgoing { peer with senders := peer.senders.set loop place } :=
  hsends.set hholds howns fun _ _ _ _ hpending => hpending

theorem Sends.congr
    (hpending : ∀ conn, (after conn).pending = (outgoing conn).pending) :
    Sends codec after peer := by
  refine ⟨hsends.calls, hsends.queued, fun loop place hplace => ?_⟩
  obtain ⟨hholds, howns⟩ := hsends.senders loop place hplace
  refine ⟨hholds, ?_⟩
  cases place with
  | body msg data attempt conn =>
    exact fun hdata => (hpending conn).trans (howns hdata)
  | _ => trivial

theorem Sends.startLoop :
    Sends codec outgoing { peer with senders := peer.senders ++ [.idle] } := by
  refine ⟨hsends.calls, hsends.queued, fun loop place hplace => ?_⟩
  rcases getElem?_append_cases hplace with rfl | hold
  · exact ⟨trivial, trivial⟩
  · exact hsends.senders loop place hold

theorem Sends.sent (msg : M) :
    Sends codec outgoing { peer with sent := peer.sent ++ [msg] } := by
  have hmore : peer.sent ⊆ peer.sent ++ [msg] := subset_append_left _ _
  refine ⟨fun other hother => hmore (hsends.calls other hother),
    fun other hother => hmore (hsends.queued other hother),
    fun loop place hplace => ?_⟩
  obtain ⟨hholds, howns⟩ := hsends.senders loop place hplace
  exact ⟨hholds.mono hmore, howns⟩

end

/-- Readers keep what they know when the streams grow around them. -/
theorem Receives.mono (hreceives : Receives codec incoming heard peer)
    (hwithin : ∀ conn loop bytes, (incoming conn).Within loop bytes →
      (after conn).Within loop bytes)
    (hwritten : ∀ conn, (incoming conn).written <+: (after conn).written)
    {more : List M} (hheard : heard ⊆ more) :
    Receives codec after more peer := by
  constructor
  · intro loop place hplace
    have hreads := hreceives.receivers loop place hplace
    cases place with
    | length conn got =>
      exact ⟨hreads.1, fun hgot => hwithin _ _ _ (hreads.2 hgot)⟩
    | body conn size got =>
      exact ⟨hreads.1, hreads.2.1, hwithin _ _ _ hreads.2.2⟩
    | _ => trivial
  · intro entry hentry
    obtain ⟨data, hdata, hmsg⟩ := hreceives.handed entry hentry
    exact ⟨data, hdata.mono hheard, hmsg⟩
  · intro entry hentry
    exact (hreceives.starts entry hentry).mono hheard (hwritten entry.1)

theorem Receives.set (hreceives : Receives codec incoming heard peer)
    (loop : Nat) {place : ReceiverLoop} (hreads : place.Reads incoming loop) :
    Receives codec incoming heard
      { peer with receivers := peer.receivers.set loop place } := by
  refine ⟨fun other found hfound => ?_, hreceives.handed, hreceives.starts⟩
  rcases getElem?_set_cases hfound with ⟨rfl, rfl⟩ | ⟨-, hold⟩
  · exact hreads
  · exact hreceives.receivers other found hold

theorem Receives.startLoop (hreceives : Receives codec incoming heard peer) :
    Receives codec incoming heard
      { peer with receivers := peer.receivers ++ [.starting] } := by
  refine ⟨fun loop place hplace => ?_, hreceives.handed, hreceives.starts⟩
  rcases getElem?_append_cases hplace with rfl | hold
  · trivial
  · exact hreceives.receivers loop place hold

end

variable {good : Bytes → Prop} {after : Nat → FrameStream}

theorem taken_of_reads (hreads : place.Reads incoming loop)
    (hconn : place.conn? = some conn) (hsound : (incoming conn).Sound good)
    (hfree : place.consumed = [] → (incoming conn).reading = none) :
    (incoming conn).written.take (incoming conn).read =
      frames ((incoming conn).begun.take (incoming conn).passed) ++
        place.consumed := by
  by_cases hnone : place.consumed = []
  · rw [hnone, append_nil]
    exact hsound.boundary (hfree hnone)
  · cases place with
    | length number got =>
      obtain rfl := Option.some.inj hconn
      exact (hreads.2 hnone).taken
    | body number size got =>
      obtain rfl := Option.some.inj hconn
      exact hreads.2.2.taken
    | starting | done => nomatch hconn

/-- A loop that has read on is still within the frame, or has read the payload
of one. -/
theorem feed_spec (after : Nat → FrameStream) {bytes : Bytes}
    (hfits : ∀ data, good data → Fits maxMessageSize data)
    (hreads : place.Reads incoming loop) (hconn : place.conn? = some conn)
    (hbytes : bytes.length ≤ place.wanted) (hsound : (after conn).Sound good)
    (hwithin : (after conn).Within loop (place.consumed ++ bytes)) :
    ((place.feed bytes).2 = none ∧ (place.feed bytes).1.Reads after loop) ∨
      ∃ data, place.feed bytes = (.length conn [], some data) ∧ good data ∧
        (after conn).leave.Sound good := by
  have hlimit : maxMessageSize < 256 ^ 4 := by decide
  cases place with
  | length number got =>
    obtain rfl := Option.some.inj hconn
    have hfour : (got ++ bytes).length ≤ 4 := by
      have hgot := hreads.1
      have hwanted : bytes.length ≤ 4 - got.length := hbytes
      rw [length_append]
      omega
    -- four bytes are the length they denote
    have hpayload : (got ++ bytes).length = 4 → (after number).Within loop
        (beBytes 4 (beNat (got ++ bytes)) ++ []) := by
      intro hlength
      rw [append_nil, ← hlength, beBytes_beNat]
      exact hwithin
    unfold ReceiverLoop.feed
    dsimp only
    split_ifs with hshort hlarge hzero
    · exact Or.inl ⟨rfl, hshort, fun _ => hwithin⟩
    · exact Or.inl ⟨rfl, trivial⟩
    · have htaken := (hpayload (by omega)).taken
      rw [hzero] at htaken
      exact Or.inr ⟨[], rfl, hsound.complete hfits hlimit (Nat.zero_le _) rfl htaken⟩
    · exact Or.inl ⟨rfl, not_lt.mp hlarge, Nat.pos_of_ne_zero hzero,
        hpayload (by omega)⟩
  | body number size got =>
    obtain rfl := Option.some.inj hconn
    obtain ⟨hsize, hgot, -⟩ := hreads
    have hwanted : bytes.length ≤ size - got.length := hbytes
    have hpayload : (after number).Within loop
        (beBytes 4 size ++ (got ++ bytes)) := by
      exact hwithin
    unfold ReceiverLoop.feed
    dsimp only
    split_ifs with hshort
    · exact Or.inl ⟨rfl, hsize, hshort, hpayload⟩
    · have hfull : (got ++ bytes).length = size := by
        rw [length_append] at hshort ⊢
        omega
      exact Or.inr ⟨_, rfl, hsound.complete hfits hlimit hsize hfull hpayload.taken⟩
  | starting | done => nomatch hconn

theorem reading_of_reads (hreads : place.Reads incoming loop)
    (hconn : place.conn? = some conn) (hsome : place.consumed ≠ []) :
    (incoming conn).reading = some loop := by
  cases place with
  | length number got =>
    obtain rfl := Option.some.inj hconn
    exact (hreads.2 hsome).reading
  | body number size got =>
    obtain rfl := Option.some.inj hconn
    exact hreads.2.2.reading
  | starting | done => nomatch hconn

/-- Another reader is not within a frame on a stream from which a loop
reads. -/
theorem reads_of_ne (hreads : place.Reads incoming other)
    (hother : (incoming conn).reading ≠ some other)
    (hafter : ∀ number, number ≠ conn → after number = incoming number) :
    place.Reads after other := by
  cases place with
  | length number got =>
    refine ⟨hreads.1, fun hgot => ?_⟩
    have hwithin := hreads.2 hgot
    by_cases hconn : number = conn
    · exact absurd (hconn ▸ hwithin.reading) hother
    · rw [hafter number hconn]
      exact hwithin
  | body number size got =>
    obtain ⟨hsize, hgot, hwithin⟩ := hreads
    refine ⟨hsize, hgot, ?_⟩
    by_cases hconn : number = conn
    · exact absurd (hconn ▸ hwithin.reading) hother
    · rw [hafter number hconn]
      exact hwithin
  | starting | done => trivial

theorem reads_length_nil (incoming : Nat → FrameStream) (loop conn : Nat) :
    (ReceiverLoop.length conn []).Reads incoming loop :=
  ⟨Nat.zero_lt_succ 3, fun hne => absurd rfl hne⟩

/-- One loop reads on, while the others stay out of its frame. -/
theorem Receives.read {heard : List M} {peer : BidirPeer M}
    (hreceives : Receives codec incoming heard peer) {next : ReceiverLoop}
    (hnext : next.Reads after loop)
    (hothers : ∀ other (place : ReceiverLoop), other ≠ loop →
      place.Reads incoming other → place.Reads after other)
    (hwritten : ∀ conn, (after conn).written = (incoming conn).written)
    {starts : List (Nat × Nat)}
    (hstarts : ∀ entry ∈ starts, entry ∈ peer.starts ∨
      Boundary codec heard (incoming entry.1).written entry.2)
    {handed : List (Nat × M)}
    (hhanded : ∀ entry ∈ handed, entry ∈ peer.handed ∨
      ∃ data, Sendable codec heard data ∧ codec.unmarshal data = some entry.2) :
    Receives codec after heard
      { peer with
        receivers := peer.receivers.set loop next
        starts := starts
        handed := handed } := by
  constructor
  · intro other found hfound
    rcases getElem?_set_cases hfound with ⟨rfl, rfl⟩ | ⟨hne, hold⟩
    · exact hnext
    · exact hothers other found hne (hreceives.receivers other found hold)
  · intro entry hentry
    rcases hhanded entry hentry with hold | hnew
    · exact hreceives.handed entry hold
    · exact hnew
  · intro entry hentry
    rw [hwritten]
    rcases hstarts entry hentry with hold | hnew
    · exact hreceives.starts entry hold
    · exact hnew

end Streambus.Consensus
