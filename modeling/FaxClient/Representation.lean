/-!
# Representation and mode

How the octets of a document stand for it, and how they are put on the data connection.
-/

namespace FaxClient

inductive Representation where
  /-- Lines, which end with CR LF on the connection. -/
  | ascii
  | image
  deriving DecidableEq

def Representation.code : Representation → String
  | .ascii => "A"
  | .image => "I"

inductive Mode where
  | stream
  | compressed
  deriving DecidableEq

def Mode.code : Mode → String
  | .stream => "S"
  | .compressed => "Z"

end FaxClient
