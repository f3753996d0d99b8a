import Ldap.Service.Handle

/-! One client, from its first byte to the end of its connection. Its messages are read and handled
in turn, and the answers are written through one buffer, which is cleared for each of them. The
connection ends after an unbind, at the end of the input or when that fails, and with a notice after a
message that cannot be read or must not be answered. -/

namespace Ldap.Server

open Ber (Buffer Delivery Reader)

/-! ### Output -/

/-- Writes messages one after the other, each into the cleared buffer. What goes out are the bytes
that the buffer then holds. -/
def sendEach (b : Buffer) : List Message → List UInt8 × Buffer
  | [] => ([], b)
  | m :: rest =>
    let filled := Buffer.add m.toItem b.clear
    let (bytes, b) := sendEach filled rest
    (filled.toList ++ bytes, b)

/-- Sends messages, and leaves nothing of them in the buffer. Without messages the buffer is not
touched. -/
def send (b : Buffer) (messages : List Message) : List UInt8 × Buffer :=
  if messages.isEmpty then ([], b)
  else
    let (bytes, b) := sendEach b messages
    (bytes, b.clear)

/-- The buffer of a new connection. It may come to hold credentials. -/
def outputBuffer : Buffer := Buffer.empty.setZeroOnClear true

/-! ### The conversation -/

/-- The bytes written to a client, and the service afterwards. -/
structure Transcript where
  written : List UInt8
  service : Service
  /-- Whether the connection was lost because the handling of a message broke off. -/
  lost : Bool := false

namespace Transcript

/-- The transcript behind bytes written before. -/
def after (written : List UInt8) (t : Transcript) : Transcript :=
  { t with written := written ++ t.written }

end Transcript

/-- The end of a connection on which a message could not be read. When the transport fails or keeps
the server waiting, nothing more is sent. -/
def breakOff (s : Service) (b : Buffer) : Ber.Error → Transcript
  | .transport _ | .timeout _ => { written := [], service := s }
  | e =>
    { written := (send b [Message.disconnectionNotice .protocolError e.message]).1
      service := { s with metrics := s.metrics.undecodable } }

/-- Serves at most a number of messages. -/
def converse : Nat → Service → Connection → Buffer → Reader → Transcript
  | 0, s, _, _, _ => { written := [], service := s }
  | count + 1, s, c, b, r =>
    match Message.read.run r with
    | .error e _ => breakOff s b e
    | .ok none _ => { written := [], service := s }
    | .ok (some m) r =>
      match s.handle c m with
      | (.rejected f, _, s) =>
        { written := (send b [Message.disconnectionNotice f.code f.message]).1, service := s }
      | (.brokenOff, _, s) => { written := [], service := s, lost := true }
      | (.answered replies, c, s) =>
        let (bytes, b) := send b replies
        if m.op = .unbindRequest then { written := bytes, service := s }
        else (converse count s c b r).after bytes

/-- The number of bytes that a transport delivers. -/
def byteCount : List Delivery → Nat
  | [] => 0
  | .bytes chunk :: rest => chunk.length + byteCount rest
  | _ :: rest => byteCount rest

/-- Serves a client to the end of its connection. A message takes a byte or more, so there are at
most as many as bytes, and one further round finds the end. -/
def Transcript.ofReader (s : Service) (r : Reader) : Transcript :=
  converse (byteCount (r.source.getD []) + 1) s {} outputBuffer r

end Ldap.Server
