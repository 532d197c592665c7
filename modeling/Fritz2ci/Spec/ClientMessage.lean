import Fritz2ci.Spec.CIServer

/-! `_cisrv_handle_client_message` from one `recv` to the next, on a connection whose bytes
arrive when they like. libcinet is a parameter. -/

namespace Fritz2ci

inductive CINetRequest
  | version (major minor patch : UInt32)
  | leave
  | dbNumCalls | dbCallList | dbGetCaller | dbAddCaller | dbDelCaller | dbGetCallerList
  | unhandled
  deriving DecidableEq, Repr

structure CINet where
  /-- `CINET_HEADER_LENGTH` -/
  headerLength : ℕ
  /-- `cinet_msg_read_header`: its result and the `msglen` it finds -/
  readHeader : List UInt8 → ℕ × ℕ
  /-- `cinet_msg_read_msg`, `none` where it does not return 0 -/
  readMsg : List UInt8 → Option CINetRequest
  header_pos : 0 < headerLength
  /-- the buffer of the handler has 32 bytes -/
  header_le : headerLength ≤ 32
  readHeader_le : ∀ buffer, (readHeader buffer).1 ≤ headerLength
  readHeader_full : ∀ buffer, (readHeader buffer).1 = headerLength ↔ headerLength ≤ buffer.length

/-- The `recv` the handler makes next: the one for a header, one for the rest of a message,
whose header was taken off the stream at `offset`, or one that drops what is there. -/
inductive Handler
  | header
  | body (offset : ℕ) (header : List UInt8) (read : List UInt8)
  | drain
  deriving DecidableEq, Repr

structure ClientStream where
  client : CIClient
  /-- sent by the client, not yet arrived -/
  sent : List UInt8
  /-- arrived, not yet received -/
  arrived : List UInt8
  closed : Bool
  /-- the number of bytes received so far -/
  taken : ℕ
  handler : Handler
  /-- the messages handled, with the offset of each in the stream -/
  dispatched : List (ℕ × List UInt8)

/-- What handling a request does to the client. -/
def handleRequest (client : CIClient) : CINetRequest → CIClient
  | .version major minor patch => { client with version := CI_MAKE_VERSION major minor patch }
  | .leave => client.markRemove
  | _ => client

/-- The part of the handler behind the loop that reads the body. -/
def ClientStream.handle (net : CINet) (offset : ℕ) (msgdata : List UInt8) (s : ClientStream) :
    ClientStream :=
  match net.readMsg msgdata with
  | some msg => { s with
      client := handleRequest s.client msg
      dispatched := s.dispatched ++ [(offset, msgdata)]
      handler := .header }
  | none => { s with handler := .header }

/-- What `recv` with room for `n` bytes takes. -/
def ClientStream.receive (n : ℕ) (s : ClientStream) : List UInt8 × ClientStream :=
  (s.arrived.take n, { s with
    arrived := s.arrived.drop n
    taken := s.taken + (s.arrived.take n).length })

/-- The condition of the loop that reads the body. -/
def ClientStream.readOn (net : CINet) (offset : ℕ) (header read : List UInt8)
    (s : ClientStream) : ClientStream :=
  if read.length < (net.readHeader header).2 then { s with handler := .body offset header read }
  else s.handle net offset (header ++ read)

/-- The handler up to its next `recv` or its return. The listener calls it on readability
only, and never again for a client it has removed. -/
def ClientStream.recv (net : CINet) (s : ClientStream) : Option ClientStream :=
  if s.client.Marked then none
  else match s.handler with
  | .header =>
    if s.arrived = [] then
      if s.closed then some { s with client := s.client.markRemove } else none
    else
      let (buffer, s') := s.receive net.headerLength
      if (net.readHeader buffer).1 < net.headerLength then some { s' with handler := .drain }
      else some (s'.readOn net s.taken buffer [])
  | .drain =>
    if s.arrived = [] then some { s with handler := .header }
    else some (s.receive 32).2
  | .body offset header read =>
    if s.arrived = [] then some { s with client := s.client.markRemove, handler := .header }
    else
      let (bytes, s') := s.receive ((net.readHeader header).2 - read.length)
      some (s'.readOn net offset header (read ++ bytes))

inductive StreamEvent
  /-- so many of the bytes sent arrive -/
  | arrive (n : ℕ)
  | close
  | recv

def streamStep (net : CINet) (s : ClientStream) : StreamEvent → Option ClientStream
  | .arrive n => some { s with sent := s.sent.drop n, arrived := s.arrived ++ s.sent.take n }
  | .close => if s.sent = [] then some { s with closed := true } else none
  | .recv => s.recv net

/-- A complete message. -/
structure Message (net : CINet) where
  header : List UInt8
  body : List UInt8
  header_length : header.length = net.headerLength
  body_length : (net.readHeader header).2 = body.length
  valid : (net.readMsg (header ++ body)).isSome

def Message.bytes {net : CINet} (m : Message net) : List UInt8 := m.header ++ m.body

def bytesOf {net : CINet} (messages : List (Message net)) : List UInt8 :=
  messages.flatMap Message.bytes

/-- A client that has sent some messages, none of whose bytes has arrived. -/
def streamStart {net : CINet} (client : CIClient) (messages : List (Message net)) :
    ClientStream where
  client := client
  sent := bytesOf messages
  arrived := []
  closed := false
  taken := 0
  handler := .header
  dispatched := []

end Fritz2ci
