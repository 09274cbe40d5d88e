import FaxClient.Text.Blank

/-!
# File names in replies

The server names the file of a transfer in a reply such as `FILE: /tmp/doc7.ps (opening).`  The
name is the first word after the first `FILE:`, less the closing punctuation at its end.
-/

namespace FaxClient.Transfer.FileName

def marker : List Char := ['F', 'I', 'L', 'E', ':']

def afterMarker? : List Char → Option (List Char)
  | [] => none
  | c :: rest =>
    if marker.isPrefixOf (c :: rest) then some ((c :: rest).drop marker.length)
    else afterMarker? rest

/-- Punctuation that closes a name and is no part of it. -/
def isClosing (c : Char) : Bool := c == ')' || c == '.' || c == ','

def trim (word : List Char) : List Char := (word.reverse.dropWhile isClosing).reverse

def firstWord (chars : List Char) : List Char :=
  (chars.dropWhile Text.isBlank).takeWhile (!Text.isBlank ·)

def find? (chars : List Char) : Option (List Char) := do
  let rest ← afterMarker? chars
  let name := trim (firstWord rest)
  if name.isEmpty then none else some name

def ofText? (text : String) : Option String := (find? text.toList).map String.ofList

end FaxClient.Transfer.FileName
