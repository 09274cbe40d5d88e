import FaxClient.Text.Printable

/-!
# Quoted text

A text between double quotes on which nothing is lost when it is shown: quotes, backslashes and
the usual controls are escaped with a backslash, and every other character that cannot be shown
by itself is given by its code point.
-/

namespace FaxClient.Text

def quoteChar (c : Char) : String :=
  match c with
  | '\x00' => "\\0"
  | '\t' => "\\t"
  | '\n' => "\\n"
  | '\r' => "\\r"
  | '"' => "\\\""
  | '\\' => "\\\\"
  | c =>
    if isPrintable c then c.toString
    else "\\u\x7b" ++ String.ofList (Nat.toDigits 16 c.toNat) ++ "\x7d"

def quote (text : String) : String := "\"" ++ String.join (text.toList.map quoteChar) ++ "\""

end FaxClient.Text
