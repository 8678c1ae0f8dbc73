import TypeBit.Session.Assemble
import TypeBit.Session.Requests
import TypeBit.Session.Metadata

/-! What a session does with the bytes of a peer: the handshake stage, the message stream, and one
case of `dispatch` for every message. -/

namespace TypeBit.Session
open Metainfo Leech Wire

section Dispatch
variable {H : Type} (digests : Digests) (host : Host H) (env : Env)

def notePiece (piece : Nat) (p : Peer) : Peer :=
  if piece < p.haveBits.len then { p with haveBits := p.haveBits.set piece } else p

def availabilityChanged (conn : ConnId) (w : World H) : World H := (w.map recomputeAvailability).map (syncInterest conn)

def onBitfield (conn : ConnId) (bytes : Bytes) (w : World H) : Result Unit × World H :=
  match w.sess.peers.get? conn with
  | none => (.ok (), availabilityChanged conn w)
  | some p =>
      if p.haveAll then (.error .protocol, w)
      else match Bitfield.fromBytes bytes w.sess.pieces.pieceCount with
        | .error _ => (.error .protocol, w)
        | .ok bits =>
            (.ok (), availabilityChanged conn (w.mapPeer conn (fun p =>
              { p with haveBits := bits, isSeed := p.isSeed || decide (bits.count = w.sess.pieces.pieceCount) })))

def onHaveAllNone (conn : ConnId) (all : Bool) (w : World H) : Result Unit × World H :=
  match w.sess.peers.get? conn with
  | none => (.ok (), if all then availabilityChanged conn w else w.map (syncInterest conn))
  | some p =>
      if p.haveAll || p.haveNone then (.error .protocol, w)
      else if all then
        (.ok (), availabilityChanged conn (w.mapPeer conn (fun p => { p with haveAll := true, isSeed := true })))
      else (.ok (), (w.mapPeer conn (fun p => { p with haveNone := true })).map (syncInterest conn))

def dispatch (conn : ConnId) (msg : Message) (w : World H) : Result Unit × World H :=
  match msg with
  | .choke => (.ok (), w.mapPeer conn (fun p => { p with peerChoking := true }))
  | .unchoke => (.ok (), w.mapPeer conn (fun p => { p with peerChoking := false }))
  | .interested => (.ok (), w.mapPeer conn (fun p => { p with peerInterested := true }))
  | .notInterested => (.ok (), w.mapPeer conn (fun p => { p with peerInterested := false }))
  | .haves piece => (.ok (), availabilityChanged conn (w.mapPeer conn (notePiece piece)))
  | .bitfield bytes => onBitfield conn bytes w
  | .haveAll => onHaveAllNone conn true w
  | .haveNone => onHaveAllNone conn false w
  | .request index start length => onRequest host env conn index start length w
  | .piece index start data => onPiece env conn index start data w
  | .cancel index start _ => cancelPeerRequest conn index start w
  | .port _ => (.ok (), w)
  | .extended id payload => onExtended digests host env conn id payload w
  | .suggest piece => (.ok (), w.mapPeer conn (notePiece piece))
  | .allowedFast piece => (.ok (), w.mapPeer conn (notePiece piece))
  | .reject _ _ _ => (.ok (), w)
  | .keepAlive => (.ok (), w)

/-- Poll and dispatch until the stream has no whole message; every round takes at least four bytes. -/
def drain (conn : ConnId) : Nat → World H → World H
  | 0, w => w
  | fuel + 1, w =>
      match w.sess.peers.get? conn with
      | none => w
      | some p =>
          match p.msgs.poll with
          | (polled, msgs) =>
              let w := w.mapPeer conn (fun p => { p with msgs := msgs })
              match polled with
              | .ok none => w
              | .error _ => noteProtocolViolation env conn w
              | .ok (some msg) =>
                  match dispatch digests host env conn msg w with
                  | (.ok _, w) => drain conn fuel w
                  | (.error _, w) => noteProtocolViolation env conn w

def drainAll (conn : ConnId) (w : World H) : World H :=
  drain digests host env conn (((w.sess.peers.get? conn).map (fun p => p.msgs.buf.length)).getD 0 + 1) w

/-- Bytes while the handshake is outstanding: the first 68 are the handshake, the rest are messages. -/
def onHandshakeData (conn : ConnId) (buf : Bytes) (w : World H) : World H :=
  if buf.length ≥ HANDSHAKE_LEN then
    match Handshake.parse (buf.take HANDSHAKE_LEN) with
    | .error _ => dropPeer env conn w
    | .ok their =>
        let w := w.mapPeer conn (fun p =>
          { p with handshakeBuf := [], msgs := p.msgs.feed (buf.drop HANDSHAKE_LEN) })
        match onHandshake env conn their w with
        | (.error _, w) => dropPeer env conn w
        | (.ok _, w) => drainAll digests host env conn w
  else w.mapPeer conn (fun p => { p with handshakeBuf := buf })

def onData (conn : ConnId) (data : Bytes) (w : World H) : World H :=
  match w.sess.peers.get? conn with
  | none => w
  | some peer =>
      let w := w.mapPeer conn (fun p => p.onDataIn data.length env.now)
      if peer.phase = .handshake then onHandshakeData digests host env conn (peer.handshakeBuf ++ data) w
      else
        let w := if peer.phase = .ready ∧ peer.handshakeBuf = [] then
          w.mapPeer conn (fun p => { p with msgs := p.msgs.feed data }) else w
        drainAll digests host env conn w

end Dispatch
end TypeBit.Session
