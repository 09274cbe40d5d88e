import FaxClient.Control
import FaxClient.Network
import FaxClient.Reply.Reader

/-!
# A control connection over a stream of octets

Commands are sent as lines, and replies are read off the octets that the server sends.  The octets
come in chunks, and a reply is looked for after each of them.  At the end of the stream an
incomplete reply is an error, and otherwise the connection counts as closed.

A connection is open until an error that is fatal, a reply that ends the session, or `close`.
Once it is not open, nothing more is sent.  After an error in what was received the next read
finds the connection closed, and the same octets are looked at again only when there is more or
the stream ends.
-/

namespace FaxClient.Control

structure Connection where
  /-- The chunks that the server has sent or will send, before its side of the stream ends. -/
  incoming : List Octets
  answer : Octets
  received : Octets
  buffer : Octets
  /-- Whether the octets are to be looked at before more are waited for. -/
  fresh : Bool
  ended : Bool
  /-- Whether the last octets looked at were an error. -/
  failed : Bool
  isOpen : Bool
  localAddress : Address

namespace Connection

/-- What the octets so far give without waiting: an answer, or nothing yet. -/
inductive Look where
  /-- A reply, an error, or, as `none`, the end of the stream. -/
  | found (answer : Option (Except ExchangeError Reply)) (c : Connection)
  | waiting (c : Connection)

/-- Looks for a reply in the octets so far; an error is remembered until the next look. -/
def look (c : Connection) : Look :=
  if c.failed then .found none { c with fresh := false, failed := false }
  else if ¬ c.fresh then .waiting c
  else
    match Reply.read c.buffer with
    | .error e => .found (some (.error e)) { c with failed := true }
    | .ok (some (r, rest)) => .found (some (.ok r)) { c with buffer := rest }
    | .ok none =>
      if ¬ c.ended then .waiting { c with fresh := false }
      else if c.buffer.isEmpty then .found none { c with fresh := false }
      else .found (some (.error (.io .unfinished))) { c with failed := true }

def nextFrom : List Octets → Connection → Option (Except ExchangeError Reply) × Connection
  | incoming, c =>
    match c.look with
    | .found answer c => (answer, { c with incoming := incoming })
    | .waiting c =>
      match incoming with
      | chunk :: rest =>
        nextFrom rest { c with buffer := c.buffer ++ chunk, fresh := true, ended := false }
      | [] =>
        if c.ended then (none, { c with incoming := [] })
        else
          match look { c with fresh := true, ended := true } with
          | .found answer c => (answer, { c with incoming := [] })
          | .waiting c => (none, { c with incoming := [] })

def next (c : Connection) : Option (Except ExchangeError Reply) × Connection :=
  nextFrom c.incoming c

def note (c : Connection) (e : ExchangeError) : Connection :=
  if e.isFatal then { c with isOpen := false } else c

def fail {α : Type} (e : ExchangeError) : Exchange Connection α := fun c => (.error e, c.note e)

/-- The next reply; one that ends the session closes the connection. -/
def read : Exchange Connection Reply := fun c =>
  match c.next with
  | (some (.ok r), c) =>
    (.ok r, if r.code = Reply.closingCode then { c with isOpen := false } else c)
  | (some (.error e), c) => fail e c
  | (none, c) => fail .closed c

def deliver (c : Connection) (line : Octets) : Connection :=
  { c with
    received := c.received ++ line
    incoming := if c.answer.isEmpty then c.incoming else c.incoming ++ [c.answer]
    answer := [] }

def request (command : Command) : Exchange Connection Reply := fun c =>
  if ¬ c.isOpen then (.error .closed, c)
  else
    match command.encode with
    | .error e => fail e c
    | .ok line => read (c.deliver line)

/-- Says goodbye over an open connection; it is not open afterwards, whatever the answer. -/
def close : Exchange Connection Unit := fun c =>
  if ¬ c.isOpen then (.ok (), c)
  else
    match request ⟨"QUIT", none⟩ c with
    | (.ok reply, c) => ((reply.expect [221]).map fun _ => (), { c with isOpen := false })
    | (.error e, c) => (.error e, { c with isOpen := false })

instance : Control Connection where
  request := request
  read := read
  close := close
  isOpen := Connection.isOpen
  localAddress? c := some c.localAddress

def receive (c : Connection) (chunk : Octets) : Connection :=
  if chunk.isEmpty then c else { c with incoming := c.incoming ++ [chunk] }

def made (localAddress : Address) (incoming : List Octets) : Connection :=
  ⟨incoming, [], [], [], false, false, false, true, localAddress⟩

def connect (dial : Dial) (peer : String) (c : Connection) :
    Except ExchangeError Unit × Connection :=
  match dial with
  | .failed fault => (.error (.io fault), c)
  | .pending => (.error (.io ⟨.timedOut, "connect to " ++ peer ++ " timed out"⟩), c)
  | .connected =>
    match read c with
    | (.ok greeting, c) => ((greeting.expect [220]).map fun _ => (), c)
    | (.error e, c) => (.error e, c)

end Connection

end FaxClient.Control
