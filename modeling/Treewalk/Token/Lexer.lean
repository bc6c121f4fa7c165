import Treewalk.Text.Blank
import Treewalk.Token

/-!
Reading text as tokens. Blanks between tokens are skipped; words, numbers and
the two-character operators are read as far as they reach; a string runs to the
next quote. Reading never fails: what fits nothing is a token of kind illegal,
one character long, except that a string without its closing quote is illegal
up to the end of the text.
-/

namespace Treewalk
namespace Token

/-- The characters of words. -/
def isLetter (c : Char) : Bool :=
  c.isAlpha || c == '_'

/-- The characters that stand inside a string. -/
def isQuotable (c : Char) : Bool :=
  c != '"'

/-- The token that starts with the given character, and what follows it. -/
def readFrom (c : Char) (rest : List Char) : Token × List Char :=
  match c, rest with
  | '=', '=' :: after => (⟨.eq, "=="⟩, after)
  | '!', '=' :: after => (⟨.notEq, "!="⟩, after)
  | '"', _ =>
      match rest.dropWhile isQuotable with
      | [] => (⟨.illegal, String.ofList ('"' :: rest)⟩, [])
      | _ :: after => (⟨.string, String.ofList (rest.takeWhile isQuotable)⟩, after)
  | _, _ =>
      match TokenKind.ofSymbol? c with
      | some kind => (⟨kind, c.toString⟩, rest)
      | none =>
          if isLetter c then
            let word := String.ofList (c :: rest.takeWhile isLetter)
            (⟨TokenKind.ofWord word, word⟩, rest.dropWhile isLetter)
          else if c.isDigit then
            (⟨.int, String.ofList (c :: rest.takeWhile Char.isDigit)⟩,
              rest.dropWhile Char.isDigit)
          else
            (⟨.illegal, c.toString⟩, rest)

/-- The first token of a text, and the text after it. At the end of the text it
is the token that stands for the end, however often it is asked for. -/
def next (text : List Char) : Token × List Char :=
  match text.dropWhile Text.isBlank with
  | [] => (eof, [])
  | c :: rest => readFrom c rest

theorem length_dropWhile_le (p : Char → Bool) (text : List Char) :
    (text.dropWhile p).length ≤ text.length :=
  (List.dropWhile_sublist p).length_le

theorem length_readFrom_le (c : Char) (rest : List Char) :
    (readFrom c rest).2.length ≤ rest.length := by
  unfold readFrom
  split
  · simp
  · simp
  · split
    · simp
    · rename_i h
      have := length_dropWhile_le isQuotable rest
      simp only [h, List.length_cons] at this
      exact Nat.le_of_succ_le this
  · split
    · simp
    · split
      · exact length_dropWhile_le _ _
      · split
        · exact length_dropWhile_le _ _
        · simp

/-- The tokens of a text, the end left out. -/
def readAll (text : List Char) : List Token :=
  match _h : text.dropWhile Text.isBlank with
  | [] => []
  | c :: rest => (readFrom c rest).1 :: readAll (readFrom c rest).2
termination_by text.length
decreasing_by
  have := length_dropWhile_le Text.isBlank text
  have := length_readFrom_le c rest
  simp_all
  omega

def scan (source : String) : List Token :=
  readAll source.toList

end Token
end Treewalk
