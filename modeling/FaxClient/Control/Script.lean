import FaxClient.Control

/-!
# A scripted control connection

Each request and each read is answered with the next of a list of replies and errors, and when
there is none left, as a closed connection would.  What was asked is noted.
-/

namespace FaxClient.Control

inductive Act where
  | sent (command : Command)
  | read
  deriving DecidableEq

structure Script where
  answers : List (Except ExchangeError Reply)
  acts : List Act
  localAddress? : Option Address

namespace Script

/-- Notes what is done and takes the next answer. -/
def take (act : Act) : Exchange Script Reply := fun s =>
  let s := { s with acts := s.acts ++ [act] }
  match s.answers with
  | [] => (.error .closed, s)
  | answer :: rest => (answer, { s with answers := rest })

instance : Control Script where
  request c := take (.sent c)
  read := take .read
  close := Pure.pure ()
  isOpen _ := true
  localAddress? := Script.localAddress?

end Script

end FaxClient.Control
