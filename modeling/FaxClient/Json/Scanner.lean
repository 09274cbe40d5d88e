import FaxClient.Json.Number
import FaxClient.Octets
import FaxClient.Utf8

/-!
# Scanning JSON

Strings, numbers and whole values are read off the front of octets, and what follows them is left
over.  Whoever wants a value says of what shape; the first problem in the order of the text counts:
the text ends too early, it is not JSON, or a value has the wrong shape.

A value nobody asked for is only skipped.  Its strings and numbers are held to their form alone,
so that half of a surrogate pair and a number of any size are let through.
-/

namespace FaxClient.Json

inductive Problem where
  | endOfText
  | notJson
  | wrongShape
  deriving DecidableEq

def quote : UInt8 := 34
def backslash : UInt8 := 92
def comma : UInt8 := 44
def colon : UInt8 := 58
def openBracket : UInt8 := 91
def closeBracket : UInt8 := 93
def openBrace : UInt8 := 123
def closeBrace : UInt8 := 125

def isSpace (b : UInt8) : Bool := b == 32 || b == 10 || b == 9 || b == 13

def isDigit (b : UInt8) : Bool := 48 ≤ b && b ≤ 57

def skipSpace (input : Octets) : Octets := input.dropWhile isSpace

/-- The letters that are still to come of `null`, `true` or `false`. -/
def literal : Octets → Octets → Except Problem Octets
  | [], input => .ok input
  | _ :: _, [] => .error .endOfText
  | a :: word, b :: input => if a = b then literal word input else .error .notJson

def nullRest : Octets := [117, 108, 108]
def trueRest : Octets := [114, 117, 101]
def falseRest : Octets := [97, 108, 115, 101]

/-! ## Strings -/

def hexDigit? (b : UInt8) : Option Nat :=
  if isDigit b then some (b.toNat - 48)
  else if 97 ≤ b ∧ b ≤ 102 then some (b.toNat - 87)
  else if 65 ≤ b ∧ b ≤ 70 then some (b.toNat - 55)
  else none

def hexUnit (a b c d : UInt8) : Except Problem Nat :=
  match hexDigit? a, hexDigit? b, hexDigit? c, hexDigit? d with
  | some a, some b, some c, some d => .ok (((a * 16 + b) * 16 + c) * 16 + d)
  | _, _, _, _ => .error .notJson

def simpleEscape? (b : UInt8) : Option UInt8 :=
  match b.toNat with
  | 34 => some 34
  | 92 => some 92
  | 47 => some 47
  | 98 => some 8
  | 102 => some 12
  | 110 => some 10
  | 114 => some 13
  | 116 => some 9
  | _ => none

/-- The rest of a string after its opening quote, as the octets it stands for. -/
def stringFrom (acc : Array UInt8) : Octets → Except Problem (Array UInt8 × Octets)
  | [] => .error .endOfText
  | b :: rest =>
    if b = quote then .ok (acc, rest)
    else if b = backslash then
      match rest with
      | [] => .error .endOfText
      | e :: rest =>
        if e = 117 then
          match rest with
          | a :: b :: c :: d :: rest =>
            match hexUnit a b c d with
            | .error p => .error p
            | .ok unit =>
              if 0xDC00 ≤ unit ∧ unit ≤ 0xDFFF then .error .notJson
              else if 0xD800 ≤ unit ∧ unit ≤ 0xDBFF then
                match rest with
                | [] => .error .endOfText
                | x :: rest =>
                  if x ≠ backslash then .error .notJson
                  else
                    match rest with
                    | [] => .error .endOfText
                    | y :: rest =>
                      if y ≠ 117 then .error .notJson
                      else
                        match rest with
                        | a :: b :: c :: d :: rest =>
                          match hexUnit a b c d with
                          | .error p => .error p
                          | .ok low =>
                            if 0xDC00 ≤ low ∧ low ≤ 0xDFFF then
                              let n := 0x10000 + (unit - 0xD800) * 0x400 + (low - 0xDC00)
                              stringFrom (acc ++ String.utf8EncodeChar (Char.ofNat n)) rest
                            else .error .notJson
                        | _ => .error .endOfText
              else stringFrom (acc ++ String.utf8EncodeChar (Char.ofNat unit)) rest
          | _ => .error .endOfText
        else
          match simpleEscape? e with
          | some c => stringFrom (acc.push c) rest
          | none => .error .notJson
    else if b < 32 then .error .notJson
    else stringFrom (acc.push b) rest

def string (input : Octets) : Except Problem (String × Octets) := do
  let (octets, rest) ← stringFrom #[] input
  return (Utf8.text octets.toList, rest)

def skipString : Octets → Except Problem Octets
  | [] => .error .endOfText
  | b :: rest =>
    if b = quote then .ok rest
    else if b = backslash then
      match rest with
      | [] => .error .endOfText
      | e :: rest =>
        if e = 117 then
          match rest with
          | a :: b :: c :: d :: rest =>
            match hexUnit a b c d with
            | .error p => .error p
            | .ok _ => skipString rest
          | _ => .error .endOfText
        else if (simpleEscape? e).isSome then skipString rest
        else .error .notJson
    else if b < 32 then .error .notJson
    else skipString rest

/-! ## Numbers -/

inductive Number where
  | natural (n : Nat)
  | other

/-- Takes digits into 64 bits for as long as they fit, and says how many it took. -/
def takeDigits : Nat → Nat → Octets → Nat × Nat × Octets
  | digits, taken, [] => (digits, taken, [])
  | digits, taken, b :: rest =>
    if isDigit b then
      let next := digits * 10 + (b.toNat - 48)
      if wordLimit < next then (digits, taken, b :: rest) else takeDigits next (taken + 1) rest
    else (digits, taken, b :: rest)

def double (digits : Nat) (power : Int) (rest : Octets) : Except Problem (Number × Octets) :=
  if outOfRange digits power then .error .notJson else .ok (.other, rest)

def exponentLimit : Nat := 2147483647

def exponent (digits : Nat) (power : Int) (input : Octets) : Except Problem (Number × Octets) :=
  let (negative, input) : Bool × Octets := match input with
    | 43 :: rest => (false, rest)
    | 45 :: rest => (true, rest)
    | _ => (false, input)
  match input with
  | [] => .error .endOfText
  | b :: _ =>
    if isDigit b then
      let e := (input.takeWhile isDigit).foldl (fun n b => n * 10 + (b.toNat - 48)) 0
      let rest := input.dropWhile isDigit
      if exponentLimit < e then
        if digits ≠ 0 ∧ ¬ negative then .error .notJson else .ok (.other, rest)
      else double digits (if negative then power - e else power + e) rest
    else .error .notJson

def afterDigits (digits : Nat) (power : Int) (input : Octets) : Except Problem (Number × Octets) :=
  match input with
  | b :: rest => if b = 101 ∨ b = 69 then exponent digits power rest else double digits power input
  | [] => double digits power input

def fraction (digits : Nat) (power : Int) (input : Octets) : Except Problem (Number × Octets) :=
  let (value, taken, rest) := takeDigits digits 0 input
  match rest with
  | b :: _ =>
    if isDigit b then afterDigits value (power - taken) (rest.dropWhile isDigit)
    else if taken = 0 then .error .notJson
    else afterDigits value (power - taken) rest
  | [] => if taken = 0 then .error .endOfText else afterDigits value (power - taken) rest

def number (negative : Bool) (input : Octets) : Except Problem (Number × Octets) :=
  match input with
  | [] => .error .endOfText
  | b :: rest =>
    if ¬ isDigit b then .error .notJson
    else if b = 48 ∧ rest.head?.any isDigit then .error .notJson
    else
      let (value, _, after) := takeDigits 0 0 input
      let long := after.takeWhile isDigit
      let after := after.dropWhile isDigit
      let power : Int := long.length
      match after with
      | 46 :: rest => fraction value power rest
      | c :: rest =>
        if c = 101 ∨ c = 69 then exponent value power rest
        else if ¬ long.isEmpty then double value power after
        else .ok (if negative then .other else .natural value, after)
      | [] =>
        if ¬ long.isEmpty then double value power after
        else .ok (if negative then .other else .natural value, after)

def skipExponent (input : Octets) : Except Problem Octets :=
  let input := match input with
    | 43 :: rest => rest
    | 45 :: rest => rest
    | _ => input
  if input.head?.any isDigit then .ok (input.dropWhile isDigit) else .error .notJson

def skipAfterDigits (input : Octets) : Except Problem Octets :=
  match input with
  | b :: rest => if b = 101 ∨ b = 69 then skipExponent rest else .ok input
  | [] => .ok input

def skipNumber (input : Octets) : Except Problem Octets :=
  match input with
  | [] => .error .notJson
  | b :: rest =>
    if ¬ isDigit b then .error .notJson
    else if b = 48 ∧ rest.head?.any isDigit then .error .notJson
    else
      match input.dropWhile isDigit with
      | 46 :: rest =>
        if rest.head?.any isDigit then skipAfterDigits (rest.dropWhile isDigit) else .error .notJson
      | after => skipAfterDigits after

/-! ## Values that are skipped -/

inductive Frame where
  | array
  | object

def Frame.close : Frame → UInt8
  | .array => closeBracket
  | .object => closeBrace

def skipName (input : Octets) : Except Problem Octets :=
  match skipSpace input with
  | [] => .error .endOfText
  | b :: rest =>
    if b = quote then do
      match skipSpace (← skipString rest) with
      | [] => .error .endOfText
      | c :: rest => if c = colon then .ok rest else .error .notJson
    else .error .notJson

/-- After a value, or after an opening bracket if `first`: closes the frames that end here, and
answers with those still open when another value is to come. -/
def closeFrames : Bool → List Frame → Octets → Except Problem (List Frame × Octets)
  | _, [], input => .ok ([], input)
  | first, frame :: frames, input =>
    match skipSpace input with
    | [] => .error .endOfText
    | b :: rest =>
      if b = comma ∧ ¬ first then .ok (frame :: frames, rest)
      else if b = frame.close then closeFrames false frames rest
      else if first then .ok (frame :: frames, b :: rest)
      else .error .notJson

/-- Before a value in these frames: in an object its name comes first. -/
def enterValue (frames : List Frame) (input : Octets) : Except Problem Octets :=
  match frames with
  | .object :: _ => skipName input
  | _ => .ok input

/-- Skips one value and those around it, as many as there are frames. -/
def skipValues : Nat → List Frame → Octets → Except Problem Octets
  | 0, _, _ => .error .endOfText
  | fuel + 1, frames, input => do
    match skipSpace input with
    | [] => .error .endOfText
    | b :: rest =>
      let (first, frames, rest) ← (
        if b = 110 then do return (false, frames, ← literal nullRest rest)
        else if b = 116 then do return (false, frames, ← literal trueRest rest)
        else if b = 102 then do return (false, frames, ← literal falseRest rest)
        else if b = 45 then do return (false, frames, ← skipNumber rest)
        else if isDigit b then do return (false, frames, ← skipNumber (b :: rest))
        else if b = quote then do return (false, frames, ← skipString rest)
        else if b = openBracket then .ok (true, .array :: frames, rest)
        else if b = openBrace then .ok (true, .object :: frames, rest)
        else .error .notJson : Except Problem (Bool × List Frame × Octets))
      let (frames, rest) ← closeFrames first frames rest
      match frames with
      | [] => .ok rest
      | _ => skipValues fuel frames (← enterValue frames rest)

def skipValue (input : Octets) : Except Problem Octets := skipValues (input.length + 1) [] input

/-! ## Values of a shape -/

/-- What is wrong with a value that is not of the shape wanted: what it is must be readable, but
of arrays and objects only the opening bracket is looked at. -/
def mismatch {α : Type} (input : Octets) : Except Problem α :=
  match input with
  | [] => .error .notJson
  | b :: rest => do
    if b = 110 then discard (literal nullRest rest)
    else if b = 116 then discard (literal trueRest rest)
    else if b = 102 then discard (literal falseRest rest)
    else if b = 45 then discard (number true rest)
    else if isDigit b then discard (number false input)
    else if b = quote then discard (string rest)
    else if b = openBracket ∨ b = openBrace then .ok ()
    else .error .notJson
    .error .wrongShape

def value {α : Type} (input : Octets)
    (read : UInt8 → Octets → Option (Except Problem (α × Octets))) : Except Problem (α × Octets) :=
  match skipSpace input with
  | [] => .error .endOfText
  | b :: rest => (read b rest).getD (mismatch (b :: rest))

def text (input : Octets) : Except Problem (String × Octets) :=
  value input fun b rest => if b = quote then some (string rest) else none

/-- A text, or `null` for none. -/
def text? (input : Octets) : Except Problem (Option String × Octets) :=
  match skipSpace input with
  | 110 :: rest => do return (none, ← literal nullRest rest)
  | _ => do
    let (s, rest) ← text input
    return (some s, rest)

def flag (input : Octets) : Except Problem (Bool × Octets) :=
  value input fun b rest =>
    if b = 116 then some ((literal trueRest rest).map fun rest => (true, rest))
    else if b = 102 then some ((literal falseRest rest).map fun rest => (false, rest))
    else none

def natural (greatest : Nat) (input : Octets) : Except Problem (Nat × Octets) :=
  let checked := fun (scan : Except Problem (Number × Octets)) => (do
    match ← scan with
    | (.natural n, rest) => if n ≤ greatest then return (n, rest) else .error .wrongShape
    | (.other, _) => .error .wrongShape : Except Problem (Nat × Octets))
  value input fun b rest =>
    if b = 45 then some (checked (number true rest))
    else if isDigit b then some (checked (number false (b :: rest)))
    else none

/-! ## Records -/

/-- A record of type `α` is read member by member; each member changes what was read so far. -/
structure Member (α : Type) where
  name : String
  read : Octets → Except Problem ((α → α) × Octets)

def afterColon (input : Octets) : Except Problem Octets :=
  match skipSpace input with
  | [] => .error .endOfText
  | b :: rest => if b = colon then .ok rest else .error .notJson

/-- Up to the opening quote of the next name: a member that is not the first follows a comma. -/
def nextName (first : Bool) (input : Octets) : Except Problem Octets :=
  let named := fun (input : Octets) => match input with
    | [] => Except.error Problem.endOfText
    | b :: rest => if b = quote then .ok rest else .error .notJson
  match input with
  | [] => .error .endOfText
  | b :: rest =>
    if first then named input
    else if b = comma then named (skipSpace rest)
    else .error .notJson

/-- The members of an object after its opening brace or a member: `seen` holds the names so far.
Members of other names are skipped, and a name is refused the second time. -/
def members {α : Type} (shape : List (Member α)) :
    Nat → Bool → List String → α → Octets → Except Problem (α × Octets)
  | 0, _, _, _, _ => .error .endOfText
  | fuel + 1, first, seen, acc, input =>
    let input := skipSpace input
    if input.head? = some closeBrace then .ok (acc, input.drop 1)
    else do
      let (name, rest) ← string (← nextName first input)
      match shape.find? (·.name == name) with
      | none => members shape fuel false seen acc (← skipValue (← afterColon rest))
      | some m =>
        if name ∈ seen then .error .wrongShape
        else
          let (change, rest) ← m.read (← afterColon rest)
          members shape fuel false (name :: seen) (change acc) rest

/-- The elements of an array after its opening bracket or an element, as the members in their
order; those missing at the end are left as they are. -/
def elements {α : Type} : List (Member α) → Bool → α → Octets → Except Problem (α × Octets)
  | [], _, acc, input =>
    match skipSpace input with
    | [] => .error .endOfText
    | b :: rest => if b = closeBracket then .ok (acc, rest) else .error .notJson
  | m :: shape, first, acc, input =>
    match skipSpace input with
    | [] => .error .endOfText
    | b :: rest =>
      if b = closeBracket then .ok (acc, rest)
      else if first then do
        let (change, rest) ← m.read (b :: rest)
        elements shape false (change acc) rest
      else if b = comma then do
        match skipSpace rest with
        | [] => .error .endOfText
        | c :: more =>
          if c = closeBracket then .error .notJson
          else
            let (change, rest) ← m.read (c :: more)
            elements shape false (change acc) rest
      else .error .notJson

/-- A record as an object, or as an array of its members in their order, and nothing after it. -/
def record {α : Type} (shape : List (Member α)) (start : α) (input : Octets) :
    Except Problem α := do
  let (a, rest) ← value input fun b rest =>
    if b = openBrace then some (members shape (rest.length + 1) true [] start rest)
    else if b = openBracket then some (elements shape true start rest)
    else none
  if (skipSpace rest).isEmpty then return a else .error .notJson

end FaxClient.Json
