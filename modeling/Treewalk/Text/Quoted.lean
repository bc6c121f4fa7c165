import Treewalk.Text.Showable

/-!
Quoted texts. A text is put between double quotes; quotes, backslashes and the
common control characters get a backslash, and every other character that cannot
be shown as it is becomes its number in hexadecimal digits between braces.
-/

namespace Treewalk
namespace Text

/-- A character as it stands in a quoted text. -/
def quoteChar (c : Char) : String :=
  match c with
  | '\x00' => "\\0"
  | '\t' => "\\t"
  | '\n' => "\\n"
  | '\r' => "\\r"
  | '"' => "\\\""
  | '\\' => "\\\\"
  | _ =>
      if isShowable c then c.toString
      else "\\u\x7b" ++ String.ofList (Nat.toDigits 16 c.toNat) ++ "\x7d"

def quoteChars : List Char → String
  | [] => ""
  | c :: cs => quoteChar c ++ quoteChars cs

/-- The text between quotes, with nothing in it that cannot be shown. -/
def quote (text : String) : String :=
  "\"" ++ quoteChars text.toList ++ "\""

end Text
end Treewalk
