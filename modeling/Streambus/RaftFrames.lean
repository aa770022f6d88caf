/-
Raft frames arrive intact.  A loop that begins to write a frame on a connection
where another is unfinished, or to read one where a reader is or was left
within a frame, takes the stream apart.  Without such steps every message that
is handed to the handler was passed to `Send` on the other side.
-/
import Streambus.TransportLoops

namespace Streambus.Consensus

open FrameStream List Side

variable {M : Type} {codec : MessageCodec M}

namespace PeerPair

/-- Every message handed to the handler was passed to `Send` by the other side,
byte for byte, and frames were read at the boundaries of frames only. -/
structure Intact (codec : MessageCodec M) (pair : PeerPair M) : Prop where
  handed : ∀ side, ∀ entry ∈ (pair.peer side).handed,
    ∃ data, Sendable codec (pair.peer side.other).sent data ∧
      codec.unmarshal data = some entry.2
  starts : ∀ side, ∀ entry ∈ (pair.peer side).starts,
    Boundary codec (pair.peer side.other).sent
      (pair.stream entry.1 side.other).written entry.2

/-- No frame is begun on a stream with an unfinished one, or with a length that
four bytes do not hold; and no frame is read from a stream that a reader has
left within a frame. -/
def Unbroken (pair : PeerPair M) : TransportOp M → Prop
  | .sender side loop fault =>
    match (pair.peer side).senders[loop]? with
    | some (.length _ data _ conn) =>
      (pair.conns conn).closed side = false → fault ≠ some 0 →
        (pair.stream conn side).pending = none ∧ Fits maxMessageSize data
    | _ => True
  | .receiver side loop (.bytes count) =>
    match (pair.peer side).receivers[loop]? with
    | some (.length conn []) =>
      (pair.conns conn).closed side = false →
        (pair.stream conn side.other).peek count ≠ [] →
          (pair.stream conn side.other).reading = none
    | _ => True
  | _ => True

end PeerPair

namespace PeerPair

variable {pair : PeerPair M} {side : Side}

/-- A payload that may be framed: a message passed to `Send` whose length is
read back. -/
def Good (codec : MessageCodec M) (sent : List M) (data : Bytes) : Prop :=
  Sendable codec sent data ∧ Fits maxMessageSize data

structure Framed (codec : MessageCodec M) (pair : PeerPair M) : Prop where
  streams : ∀ conn side,
    (pair.stream conn side).Sound (Good codec (pair.peer side).sent)
  sends : ∀ side, Sends codec (fun conn => pair.stream conn side) (pair.peer side)
  receives : ∀ side, Receives codec
    (fun conn => pair.stream conn side.other) (pair.peer side.other).sent
    (pair.peer side)

theorem Framed.intact (hframed : pair.Framed codec) : pair.Intact codec :=
  ⟨fun side => (hframed.receives side).handed,
    fun side => (hframed.receives side).starts⟩

theorem start_framed : (start : PeerPair M).Framed codec := by
  refine ⟨fun _ _ => empty_sound, fun side => ?_, fun side => ?_⟩
  · constructor <;> simp [start]
  · constructor <;> simp [start]

@[simp] theorem peer_updatePeer_self (update : BidirPeer M → BidirPeer M) :
    (pair.updatePeer side update).peer side = update (pair.peer side) :=
  if_pos rfl

theorem peer_updatePeer_of_ne {other : Side} (hother : other ≠ side)
    (update : BidirPeer M → BidirPeer M) :
    (pair.updatePeer side update).peer other = pair.peer other :=
  if_neg hother

theorem stream_updateStream (conn : Nat) (writer : Side)
    (update : FrameStream → FrameStream) (other : Nat) (side : Side) :
    (pair.updateStream conn writer update).stream other side =
      if other = conn ∧ side = writer then update (pair.stream conn writer)
      else pair.stream other side := by
  by_cases hconn : other = conn
  · subst hconn
    by_cases hside : side = writer
    · subst hside
      simp [updateStream, updateConn, stream]
    · simp [updateStream, updateConn, stream, hside]
  · simp [updateStream, updateConn, stream, hconn]

variable {update : FrameStream → FrameStream} {conn : Nat} {data : Bytes}
  {place : SenderLoop M} {loop : Nat}

/-- A stream that only has its reader moved keeps what is written. -/
theorem written_updateStream {writer : Side}
    (hupdate : (update (pair.stream conn writer)).written =
      (pair.stream conn writer).written) (number : Nat) :
    ((pair.updateStream conn writer update).stream number writer).written =
      (pair.stream number writer).written := by
  rw [stream_updateStream]
  split_ifs with heq
  · rw [hupdate, heq.1]
  · rfl

variable {sent : List M}

theorem Good.mono {more : List M} (hsent : sent ⊆ more)
    (hgood : Good codec sent data) : Good codec more data :=
  ⟨hgood.1.mono hsent, hgood.2⟩

section

variable (hframed : pair.Framed codec)

include hframed

theorem Framed.updatePeer {update : BidirPeer M → BidirPeer M}
    (hsent : (pair.peer side).sent ⊆ (update (pair.peer side)).sent)
    (hsends : Sends codec (fun conn => pair.stream conn side)
      (update (pair.peer side)))
    (hreceives : Receives codec (fun conn => pair.stream conn side.other)
      (pair.peer side.other).sent (update (pair.peer side))) :
    (pair.updatePeer side update).Framed codec := by
  have hself : (pair.updatePeer side update).peer side =
      update (pair.peer side) := peer_updatePeer_self update
  have hother : (pair.updatePeer side update).peer side.other =
      pair.peer side.other := peer_updatePeer_of_ne side.other_ne update
  constructor
  · intro conn writer
    rcases side.eq_or_eq_other writer with rfl | rfl
    · rw [hself]
      exact (hframed.streams conn writer).mono fun _ => Good.mono hsent
    · rw [hother]
      exact hframed.streams conn side.other
  · intro sender
    rcases side.eq_or_eq_other sender with rfl | rfl
    · rw [hself]
      exact hsends
    · rw [hother]
      exact hframed.sends side.other
  · intro receiver
    rcases side.eq_or_eq_other receiver with rfl | rfl
    · rw [hself, hother]
      exact hreceives
    · rw [hother, other_other, hself]
      have hold := hframed.receives side.other
      rw [other_other] at hold
      exact hold.mono (fun _ _ _ hwithin => hwithin) (fun _ => prefix_rfl) hsent

theorem Framed.of_streams {next : PeerPair M} (hpeer : next.peer = pair.peer)
    (hstream : ∀ conn side, next.stream conn side = pair.stream conn side) :
    next.Framed codec := by
  constructor <;> simp only [hpeer, hstream]
  · exact hframed.streams
  · exact hframed.sends
  · exact hframed.receives

theorem Framed.setSender (loop : Nat)
    (hholds : place.Holds codec (pair.peer side).sent)
    (howns : place.Owns (fun conn => pair.stream conn side) loop) :
    (pair.setSender side loop place).Framed codec :=
  hframed.updatePeer (List.Subset.refl _)
    ((hframed.sends side).move loop hholds howns)
    ((hframed.receives side).keep rfl rfl rfl)

theorem Framed.setReceiver (loop : Nat) {place : ReceiverLoop}
    (hreads : place.Reads (fun conn => pair.stream conn side.other) loop) :
    (pair.setReceiver side loop place).Framed codec :=
  hframed.updatePeer (List.Subset.refl _) ((hframed.sends side).keep rfl rfl rfl rfl)
    ((hframed.receives side).set loop hreads)

theorem Framed.startLoops (side : Side) (conn : Nat) :
    (pair.startLoops side conn).Framed codec :=
  hframed.updatePeer (List.Subset.refl _)
    ((hframed.sends side).startLoop.keep rfl rfl rfl rfl)
    ((hframed.receives side).startLoop.keep rfl rfl rfl)

theorem Framed.updateConn (conn : Nat) {update : Conn → Conn}
    (hupdate : ∀ link, (update link).stream = link.stream) :
    (pair.updateConn conn update).Framed codec := by
  have hpeer : (pair.updateConn conn update).peer = pair.peer := rfl
  apply hframed.of_streams hpeer
  intro other side
  simp only [stream, PeerPair.updateConn]
  split
  · rw [hupdate]
  · rfl

theorem Framed.close (side : Side) (conn : Nat) :
    (pair.close side conn).Framed codec :=
  hframed.updateConn conn fun _ => rfl

theorem Framed.dropConn (side : Side) : (pair.dropConn side).Framed codec := by
  unfold PeerPair.dropConn
  split
  · exact hframed
  next conn _ =>
    have hclosed := hframed.close side conn
    exact hclosed.updatePeer (List.Subset.refl _)
      ((hclosed.sends side).keep rfl rfl rfl rfl)
      ((hclosed.receives side).keep rfl rfl rfl)

end

@[simp] theorem sent_dropConn (side : Side) :
    ((pair.dropConn side).peer side).sent = (pair.peer side).sent := by
  unfold PeerPair.dropConn
  split
  · rfl
  · rw [peer_updatePeer_self]
    rfl

theorem Framed.ensureConnected (hframed : pair.Framed codec) (side : Side)
    (dial : Bool) : (pair.ensureConnected side dial).1.Framed codec := by
  unfold PeerPair.ensureConnected
  split
  · exact hframed
  · split
    · have hdialing : (pair.updateConn pair.dialed fun link =>
          { link with dialer := some side }).Framed codec :=
        hframed.updateConn pair.dialed fun _ => rfl
      have hcounted : PeerPair.Framed codec
          { pair.updateConn pair.dialed fun link =>
              { link with dialer := some side } with
            dialed := pair.dialed + 1 } :=
        hdialing.of_streams rfl fun _ _ => rfl
      exact hcounted.startLoops side pair.dialed
    · exact hframed

@[simp] theorem sent_ensureConnected (side : Side) (dial : Bool) :
    ((pair.ensureConnected side dial).1.peer side).sent = (pair.peer side).sent := by
  unfold PeerPair.ensureConnected
  split
  · rfl
  · split
    · simp only [PeerPair.startLoops, peer_updatePeer_self]
      rfl
    · rfl

section

variable (hframed : pair.Framed codec)

include hframed

theorem Framed.send (side : Side) (msg : M) (dial : Bool) :
    (pair.send side msg dial).Framed codec := by
  have hsent : (pair.updatePeer side fun peer =>
      { peer with sent := peer.sent ++ [msg] }).Framed codec :=
    hframed.updatePeer (subset_append_left _ [msg]) ((hframed.sends side).sent msg)
      ((hframed.receives side).keep rfl rfl rfl)
  have hconnected := hsent.ensureConnected side dial
  have hmsg : msg ∈ (((pair.updatePeer side fun peer =>
      { peer with sent := peer.sent ++ [msg] }).ensureConnected side
        dial).1.peer side).sent := by
    simp
  unfold PeerPair.send
  dsimp only
  generalize (pair.updatePeer side fun peer =>
      { peer with sent := peer.sent ++ [msg] }).ensureConnected side
        dial = result at *
  obtain ⟨next, ok⟩ := result
  cases ok with
  | false => exact hconnected
  | true =>
    have hsends := hconnected.sends side
    refine hconnected.updatePeer (List.Subset.refl _) ?_
      ((hconnected.receives side).keep rfl rfl rfl)
    refine ⟨fun other hother => ?_, hsends.queued, hsends.senders⟩
    rcases mem_append.mp hother with hold | hnew
    · exact hsends.calls other hold
    · rwa [mem_singleton.mp hnew]

theorem Framed.enqueue (side : Side) (call : Nat) :
    (pair.enqueue side call).Framed codec := by
  unfold PeerPair.enqueue
  split
  · exact hframed
  next msg hmsg =>
    split
    · have hsends := hframed.sends side
      refine hframed.updatePeer (List.Subset.refl _) ?_
        ((hframed.receives side).keep rfl rfl rfl)
      refine ⟨fun other hother => ?_, fun other hother => ?_, hsends.senders⟩
      · exact hsends.calls other (mem_of_mem_eraseIdx hother)
      · rcases mem_append.mp hother with hold | hnew
        · exact hsends.queued other hold
        · rw [mem_singleton.mp hnew]
          exact hsends.calls msg (mem_of_getElem? hmsg)
    · exact hframed

theorem Framed.expire (side : Side) (call : Nat) :
    (pair.expire side call).Framed codec := by
  have hsends := hframed.sends side
  exact hframed.updatePeer (List.Subset.refl _)
    ⟨fun other hother => hsends.calls other (mem_of_mem_eraseIdx hother),
      hsends.queued, hsends.senders⟩
    ((hframed.receives side).keep rfl rfl rfl)

theorem Framed.handleIncomingConnection (side : Side) (conn : Nat) (fails : Bool) :
    (pair.handleIncomingConnection side conn fails).Framed codec := by
  have haccepted : (pair.updateConn conn fun link =>
      { link with accepted := true }).Framed codec :=
    hframed.updateConn conn fun _ => rfl
  unfold PeerPair.handleIncomingConnection
  split
  · dsimp only
    split
    · exact haccepted.close side conn
    · exact haccepted.startLoops side conn
  · exact hframed

end

section

variable (hframed : pair.Framed codec)

include hframed

/-- A loop writes to a stream and moves on: the stream stays sound, its readers
and its other writers keep what they know. -/
theorem Framed.write (hsound : (update (pair.stream conn side)).Sound
      (Good codec (pair.peer side).sent))
    (hwithin : ∀ reader bytes, (pair.stream conn side).Within reader bytes →
      (update (pair.stream conn side)).Within reader bytes)
    (hwritten : (pair.stream conn side).written <+:
      (update (pair.stream conn side)).written)
    (hothers : ∀ other data, other ≠ loop →
      (pair.stream conn side).pending = some (other, data) →
        (update (pair.stream conn side)).pending = some (other, data))
    (hholds : place.Holds codec (pair.peer side).sent)
    (howns : place.Owns
      (fun other => (pair.updateStream conn side update).stream other side)
      loop) :
    ((pair.updateStream conn side update).setSender side loop place).Framed
      codec := by
  have hstream : ∀ number writer, ((pair.updateStream conn side update).setSender
      side loop place).stream number writer =
        if number = conn ∧ writer = side then update (pair.stream conn side)
        else pair.stream number writer :=
    pair.stream_updateStream conn side update
  have hself : ((pair.updateStream conn side update).setSender side loop
      place).peer side =
        { pair.peer side with
          senders := (pair.peer side).senders.set loop place } :=
    peer_updatePeer_self _
  have hother : ((pair.updateStream conn side update).setSender side loop
      place).peer side.other = pair.peer side.other :=
    peer_updatePeer_of_ne side.other_ne _
  have hunchanged : ∀ number, ((pair.updateStream conn side update).setSender
      side loop place).stream number side.other = pair.stream number side.other := by
    intro number
    rw [hstream, if_neg fun heq => side.other_ne heq.2]
  constructor
  · intro number writer
    rcases side.eq_or_eq_other writer with rfl | rfl
    · rw [hself, hstream]
      split_ifs with heq
      · exact hsound
      · exact hframed.streams number writer
    · rw [hother, hunchanged]
      exact hframed.streams number side.other
  · intro sender
    rcases side.eq_or_eq_other sender with rfl | rfl
    · rw [hself]
      refine (hframed.sends sender).set hholds howns ?_
      intro number writer data hne hpending
      rw [hstream]
      split_ifs with heq
      · exact hothers writer data hne (heq.1 ▸ hpending)
      · exact hpending
    · rw [hother]
      exact (hframed.sends side.other).congr fun number =>
        congrArg FrameStream.pending (hunchanged number)
  · intro receiver
    rcases side.eq_or_eq_other receiver with rfl | rfl
    · rw [hself, hother]
      refine ((hframed.receives receiver).mono ?_ ?_
        (List.Subset.refl _)).keep rfl rfl rfl
      · intro number reader bytes hbytes
        rwa [hunchanged]
      · intro number
        rw [hunchanged]
    · have hold := hframed.receives side.other
      rw [other_other] at hold
      rw [hother, other_other, hself]
      refine hold.mono ?_ ?_ (List.Subset.refl _)
      · intro number reader bytes hbytes
        rw [hstream]
        split_ifs with heq
        · exact hwithin reader bytes (heq.1 ▸ hbytes)
        · exact hbytes
      · intro number
        rw [hstream]
        split_ifs with heq
        · exact heq.1 ▸ hwritten
        · exact prefix_rfl

/-- The length of a frame, or its first bytes, on a stream without an
unfinished frame. -/
theorem Framed.writeLength {count : Nat}
    (hfree : count ≠ 0 → (pair.stream conn side).pending = none ∧
      Good codec (pair.peer side).sent data)
    (hholds : place.Holds codec (pair.peer side).sent)
    (howns : place.Owns (fun other => (pair.updateStream conn side fun stream =>
      stream.writeLength loop data count).stream other side) loop) :
    ((pair.updateStream conn side fun stream =>
      stream.writeLength loop data count).setSender side loop place).Framed
        codec := by
  have hsound := hframed.streams conn side
  refine hframed.write (hsound.writeLength hfree)
    (fun reader bytes hwithin => hwithin.writeLength hsound loop data count)
    (written_writeLength loop data count) ?_ hholds howns
  intro other rest _ hpending
  unfold FrameStream.writeLength
  split_ifs with hcount
  · exact hpending
  · rw [(hfree hcount).1] at hpending
    nomatch hpending

/-- The payload of a frame, or its first bytes, by the loop that wrote the
length. -/
theorem Framed.writeBody (count : Nat)
    (hpending : data ≠ [] → (pair.stream conn side).pending = some (loop, data))
    (hholds : place.Holds codec (pair.peer side).sent)
    (howns : ∀ outgoing, place.Owns outgoing loop) :
    ((pair.updateStream conn side fun stream =>
      stream.writeBody loop data count).setSender side loop place).Framed
        codec := by
  have hsound := hframed.streams conn side
  refine hframed.write (hsound.writeBody count hpending)
    (fun reader bytes hwithin => hwithin.writeBody hsound loop data count)
    (written_writeBody loop data count) ?_ hholds (howns _)
  intro other rest hother hrest
  unfold FrameStream.writeBody
  split_ifs with hdata
  · exact hrest
  · rw [hpending hdata] at hrest
    exact absurd (congrArg Prod.fst (Option.some.inj hrest)) (Ne.symm hother)

theorem Framed.senderLoop {fault : Option Nat}
    (hunbroken : pair.Unbroken (.sender side loop fault)) :
    (pair.senderLoop codec side loop fault).Framed codec := by
  have hsends := hframed.sends side
  unfold PeerPair.senderLoop
  split
  · exact hframed
  next hplace =>
    split
    · exact hframed
    next msg rest hqueue =>
      have htaken : (pair.updatePeer side fun peer =>
          { peer with sendCh := rest }).Framed codec := by
        refine hframed.updatePeer (List.Subset.refl _) ?_
          ((hframed.receives side).keep rfl rfl rfl)
        refine ⟨hsends.calls, fun other hother => ?_, hsends.senders⟩
        exact hsends.queued other (hqueue ▸ mem_cons_of_mem msg hother)
      refine htaken.setSender loop ?_ trivial
      rw [peer_updatePeer_self]
      exact hsends.queued msg (hqueue ▸ mem_cons_self)
  next msg attempt hplace =>
    have hmsg := (hsends.senders loop _ hplace).1
    split
    next conn data hconn hdata =>
      exact hframed.setSender loop ⟨hmsg, hdata⟩ trivial
    · exact hframed.setSender loop hmsg trivial
  next msg data attempt conn hplace =>
    obtain ⟨⟨hmsg, hdata⟩, -⟩ := hsends.senders loop _ hplace
    simp only [Unbroken, hplace] at hunbroken
    split
    · exact hframed.setSender loop hmsg trivial
    next hopen =>
      have hfree : fault ≠ some 0 → (pair.stream conn side).pending = none ∧
          Good codec (pair.peer side).sent data := by
        intro hfault
        obtain ⟨hnone, hfits⟩ := hunbroken (Bool.eq_false_iff.mpr hopen) hfault
        exact ⟨hnone, ⟨msg, hmsg, hdata⟩, hfits⟩
      split
      · refine hframed.writeLength (fun _ => hfree nofun) ⟨hmsg, hdata⟩ ?_
        intro hne
        dsimp only
        rw [stream_updateStream, if_pos ⟨rfl, rfl⟩]
        exact pending_writeLength hne
      · refine hframed.writeLength (fun hcount => hfree ?_) hmsg trivial
        exact fun heq => hcount (Option.some.inj heq)
  next msg data attempt conn hplace =>
    obtain ⟨⟨hmsg, hdata⟩, howns⟩ := hsends.senders loop _ hplace
    split
    · exact hframed.setSender loop hmsg trivial
    · split
      · exact hframed.writeBody data.length howns trivial fun _ => trivial
      · exact hframed.writeBody _ howns hmsg fun _ => trivial
  next msg attempt hplace =>
    have hmsg := (hsends.senders loop _ hplace).1
    have hdropped := hframed.dropConn side
    split
    · exact hdropped.setSender loop trivial trivial
    · refine hdropped.setSender loop ?_ trivial
      rw [sent_dropConn]
      exact hmsg
  next msg attempt hplace =>
    have hmsg := (hsends.senders loop _ hplace).1
    refine (hframed.ensureConnected side _).setSender loop ?_ trivial
    rw [sent_ensureConnected]
    exact hmsg

end

/-- A loop takes bytes off a stream: its writers keep what they own. -/
theorem Framed.consume (hframed : pair.Framed codec)
    {advance : BidirPeer M → BidirPeer M}
    (hsound : (update (pair.stream conn side.other)).Sound
      (Good codec (pair.peer side.other).sent))
    (hpending : (update (pair.stream conn side.other)).pending =
      (pair.stream conn side.other).pending)
    (hsent : (advance (pair.peer side)).sent = (pair.peer side).sent)
    (hsends : Sends codec (fun number => pair.stream number side)
      (advance (pair.peer side)))
    (hreceives : Receives codec (fun number =>
        (pair.updateStream conn side.other update).stream number side.other)
      (pair.peer side.other).sent (advance (pair.peer side))) :
    ((pair.updateStream conn side.other update).updatePeer side
      advance).Framed codec := by
  have hstream : ∀ number writer, ((pair.updateStream conn side.other
      update).updatePeer side advance).stream number writer =
        if number = conn ∧ writer = side.other then
          update (pair.stream conn side.other)
        else pair.stream number writer :=
    pair.stream_updateStream conn side.other update
  have hself : ((pair.updateStream conn side.other update).updatePeer side
      advance).peer side = advance (pair.peer side) :=
    peer_updatePeer_self _
  have hother : ((pair.updateStream conn side.other update).updatePeer side
      advance).peer side.other = pair.peer side.other :=
    peer_updatePeer_of_ne side.other_ne _
  have hunchanged : ∀ number, ((pair.updateStream conn side.other
      update).updatePeer side advance).stream number side =
        pair.stream number side := by
    intro number
    rw [hstream, if_neg fun heq => side.other_ne heq.2.symm]
  constructor
  · intro number writer
    rcases side.eq_or_eq_other writer with rfl | rfl
    · rw [hself, hsent, hunchanged]
      exact hframed.streams number writer
    · rw [hother, hstream]
      split_ifs with heq
      · exact hsound
      · exact hframed.streams number side.other
  · intro sender
    rcases side.eq_or_eq_other sender with rfl | rfl
    · rw [hself]
      exact hsends.congr fun number =>
        congrArg FrameStream.pending (hunchanged number)
    · rw [hother]
      refine (hframed.sends side.other).congr fun number => ?_
      rw [hstream]
      split_ifs with heq
      · rw [hpending, heq.1]
      · rfl
  · intro receiver
    rcases side.eq_or_eq_other receiver with rfl | rfl
    · rw [hself, hother]
      exact hreceives
    · have hold := hframed.receives side.other
      rw [other_other] at hold
      rw [hother, other_other, hself, hsent]
      simp only [hunchanged]
      exact hold

/-- Between frames the position is a boundary. -/
theorem boundary_of_sound {stream : FrameStream}
    (hsound : stream.Sound (Good codec sent))
    (hreading : stream.reading = none) :
    Boundary codec sent stream.written stream.read := by
  have hboundary := hsound.boundary hreading
  refine ⟨stream.begun.take stream.passed, fun data hdata => ?_, ?_, ?_⟩
  · exact (hsound.good data (mem_of_mem_take hdata)).1
  · rw [← hboundary]
    exact List.take_prefix _ _
  · rw [← hboundary, length_take]
    exact Nat.min_eq_left hsound.read_le

section

variable (hframed : pair.Framed codec)

include hframed

theorem Framed.readBytes {place : ReceiverLoop}
    (hplace : (pair.peer side).receivers[loop]? = some place)
    (hconn : place.conn? = some conn) {count : Nat}
    (hfree : place.consumed = [] → (pair.stream conn side.other).peek count ≠ [] →
        (pair.stream conn side.other).reading = none) :
    (pair.readBytes codec side loop conn place count).Framed codec := by
  have hreceives := hframed.receives side
  have hreads := hreceives.receivers loop place hplace
  have hsound := hframed.streams conn side.other
  unfold PeerPair.readBytes
  dsimp only
  split
  · exact hframed
  next hbytes =>
    have hnone : place.consumed = [] → (pair.stream conn side.other).reading = none :=
      fun hempty => hfree hempty (peek_ne_nil hbytes)
    have hwanted : ((pair.stream conn side.other).peek
        (min count place.wanted)).length ≤ place.wanted := by
      simp only [FrameStream.peek, length_take]
      omega
    have htaken := taken_of_reads hreads hconn hsound hnone
    have hadvanced := hsound.advance loop (min count place.wanted)
    have hwithin := within_advance htaken loop (min count place.wanted)
    generalize (pair.stream conn side.other).peek (min count place.wanted) =
      bytes at *
    -- the other loops are not within a frame of this stream
    have hothers : ∀ other, other ≠ loop →
        (pair.stream conn side.other).reading ≠ some other := by
      intro other hne heq
      by_cases hempty : place.consumed = []
      · rw [hnone hempty] at heq
        cases heq
      · rw [reading_of_reads hreads hconn hempty] at heq
        exact hne (Option.some.inj heq).symm
    have hstarts : ∀ entry ∈ (if place.consumed = [] then
          (pair.peer side).starts ++ [(conn, (pair.stream conn side.other).read)]
        else (pair.peer side).starts), entry ∈ (pair.peer side).starts ∨
          Boundary codec (pair.peer side.other).sent
            (pair.stream entry.1 side.other).written entry.2 := by
      intro entry hentry
      split_ifs at hentry with hempty
      · rcases mem_append.mp hentry with hold | hnew
        · exact Or.inl hold
        · rw [mem_singleton.mp hnew]
          exact Or.inr (boundary_of_sound hsound (hnone hempty))
      · exact Or.inl hentry
    have hmoved := pair.stream_updateStream conn side.other fun stream =>
      stream.advance loop bytes.length
    have hself := hmoved conn side.other
    rw [if_pos ⟨rfl, rfl⟩] at hself
    rcases feed_spec (fun number => (pair.updateStream conn side.other
        fun stream => stream.advance loop bytes.length).stream number
          side.other) (fun _ => And.right) hreads hconn hwanted
        (by rw [hself]; exact hadvanced) (by rw [hself]; exact hwithin) with
      ⟨hnothing, hnext⟩ | ⟨data, hfeed, hgood, hleft⟩
    · generalize place.feed bytes = result at *
      obtain ⟨next, payload⟩ := result
      obtain rfl : payload = none := hnothing
      refine hframed.consume hadvanced rfl rfl
        ((hframed.sends side).keep rfl rfl rfl rfl)
        (hreceives.read hnext ?_ (written_updateStream rfl) hstarts
          fun entry hentry => Or.inl hentry)
      intro other found hne hfound
      refine reads_of_ne hfound (hothers other hne) fun number hnumber => ?_
      rw [stream_updateStream, if_neg fun heq => hnumber heq.1]
    · rw [hfeed]
      rw [hself] at hleft
      refine hframed.consume hleft rfl rfl ((hframed.sends side).keep rfl rfl rfl rfl)
        (hreceives.read (reads_length_nil _ loop conn) ?_
          (written_updateStream rfl) hstarts ?_)
      · intro other found hne hfound
        refine reads_of_ne hfound (hothers other hne) fun number hnumber => ?_
        rw [stream_updateStream, if_neg fun heq => hnumber heq.1]
      · intro entry hentry
        split at hentry
        · exact Or.inl hentry
        next msg hmsg =>
          rcases mem_append.mp hentry with hold | hnew
          · exact Or.inl hold
          · rw [mem_singleton.mp hnew]
            exact Or.inr ⟨data, hgood.1, hmsg⟩

variable {event : ReadEvent}

/-- A read event of a loop that has begun to read from a connection. -/
theorem Framed.read {place : ReceiverLoop}
    (hplace : (pair.peer side).receivers[loop]? = some place)
    (hconn : place.conn? = some conn)
    (hfree : ∀ count, event = .bytes count → place.consumed = [] →
      (pair.conns conn).closed side = false →
        (pair.stream conn side.other).peek count ≠ [] →
          (pair.stream conn side.other).reading = none) :
    (pair.read codec side loop conn place event).Framed codec := by
  unfold PeerPair.read
  split
  · exact hframed.setReceiver loop trivial
  next hopen =>
    cases event with
    | bytes count =>
      exact hframed.readBytes hplace hconn fun hempty =>
        hfree count rfl hempty (Bool.eq_false_iff.mpr hopen)
    | timeout =>
      refine hframed.setReceiver loop ?_
      cases place with
      | length number got => exact reads_length_nil _ loop number
      | _ => trivial
    | error => exact hframed.setReceiver loop trivial

theorem Framed.receiverLoop (hunbroken : pair.Unbroken (.receiver side loop event)) :
    (pair.receiverLoop codec side loop event).Framed codec := by
  unfold PeerPair.receiverLoop
  split
  · exact hframed
  · exact hframed
  next hplace =>
    split
    · exact hframed.setReceiver loop trivial
    · exact hframed.setReceiver loop (reads_length_nil _ loop _)
  next conn got hplace =>
    refine hframed.read hplace rfl ?_
    rintro count rfl hempty
    obtain rfl : got = [] := hempty
    simpa only [Unbroken, hplace] using hunbroken
  next conn size got hplace =>
    refine hframed.read hplace rfl ?_
    rintro count - hempty
    have hlength := congrArg List.length hempty
    simp [ReceiverLoop.consumed] at hlength

theorem Framed.step {op : TransportOp M} (hunbroken : pair.Unbroken op) :
    (pair.step codec op).Framed codec := by
  cases op with
  | send side msg dial => exact hframed.send side msg dial
  | enqueue side call => exact hframed.enqueue side call
  | expire side call => exact hframed.expire side call
  | sender side loop fault => exact hframed.senderLoop hunbroken
  | accept side conn fails =>
    exact hframed.handleIncomingConnection side conn fails
  | receiver side loop event => exact hframed.receiverLoop hunbroken

end

/-- In a run in which no frame is begun within another, neither by a writer nor
by a reader, the messages handed over are messages that were sent, and frames
are read at boundaries. -/
theorem intact_of_unbroken {ops : List (TransportOp M)}
    (hunbroken : AllAllowed (step · codec) Unbroken start ops) :
    (runSteps (step · codec) start ops).Intact codec :=
  (hunbroken.invariant (Framed codec) (fun _ _ hframed hop => hframed.step hop)
    start_framed).intact

/-- Messages that are their own bytes. -/
def plainCodec : MessageCodec Bytes := ⟨some, some⟩

/-- The left node dials and sends a message; the right node accepts the
connection and starts to read. -/
def exchange : List (TransportOp Bytes) :=
  [.send .left [7] true, .enqueue .left 0, .sender .left 0 none,
    .sender .left 0 none, .sender .left 0 none, .sender .left 0 none,
    .accept .right 0 false, .receiver .right 0 (.bytes 0)]

theorem intact_of_unbroken_exchanged :
    ((runSteps (step · plainCodec) start (exchange ++
      [.receiver .right 0 (.bytes 2), .receiver .right 0 (.bytes 4),
        .receiver .right 0 (.bytes 9)])).peer .right).handed = [(0, [7])] ∧
    (runSteps (step · plainCodec) start (exchange ++
      [.receiver .right 0 (.bytes 2), .receiver .right 0 (.bytes 4),
        .receiver .right 0 (.bytes 9)])).Intact plainCodec :=
  ⟨by decide +kernel, intact_of_unbroken
    ⟨trivial, trivial, trivial, trivial, fun _ _ => ⟨rfl, Or.inl (by decide)⟩,
      trivial, trivial, trivial, fun _ _ => rfl, trivial, trivial, trivial⟩⟩

/-- A deadline that expires within a length leaves the reader there. -/
theorem not_intact_timed_out : ¬ (runSteps (step · plainCodec) start (exchange ++
      [.receiver .right 0 (.bytes 2), .receiver .right 0 .timeout,
        .receiver .right 0 (.bytes 4)])).Intact plainCodec := by
  intro hintact
  obtain ⟨payloads, -, -, hlength⟩ :=
    hintact.starts .right (0, 2) (by decide +kernel)
  cases payloads with
  | nil => nomatch hlength
  | cons data rest =>
    simp only [frames_cons, length_append, frame_length] at hlength
    omega

end PeerPair

end Streambus.Consensus
