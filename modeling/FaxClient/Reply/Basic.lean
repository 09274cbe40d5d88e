/-!
# Replies

A reply is a code and a text, which may run over several lines.  The first digit of the code says
what became of the command.
-/

namespace FaxClient

inductive Reply.Class where
  | preliminary
  | completion
  | intermediate
  | transientNegative
  | permanentNegative
  deriving DecidableEq

structure Reply where
  code : Nat
  text : String
  deriving DecidableEq

namespace Reply

def class? (r : Reply) : Option Class :=
  match r.code / 100 with
  | 1 => some .preliminary
  | 2 => some .completion
  | 3 => some .intermediate
  | 4 => some .transientNegative
  | 5 => some .permanentNegative
  | _ => none

/-- Whether another reply to the same command is to come. -/
def isPreliminary (r : Reply) : Bool := r.class? == some .preliminary

def isCompletion (r : Reply) : Bool := r.class? == some .completion

def closingCode : Nat := 421

def summary (r : Reply) : String := toString r.code ++ " " ++ r.text

end Reply

end FaxClient
