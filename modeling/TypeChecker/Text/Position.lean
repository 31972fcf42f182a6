/-!
# Lines and columns

A source text is cut into lines, each including its terminator. Line feed,
carriage return, vertical tab, form feed, next line, line separator and paragraph
separator end a line; a carriage return followed by a line feed is one terminator.
-/

namespace TypeChecker
namespace Text

structure Position where
  line : Nat
  column : Nat
  deriving DecidableEq

def endsLine (c : Char) : Bool :=
  c == '\n' || c == '\r' || c == '\x0b' || c == '\x0c' || c == '\u0085' || c == '\u2028' ||
    c == '\u2029'

/-- Walk `offset` characters on from `here`. The end of a line that closes the
text still belongs to that line. -/
def Position.advance (here : Position) : List Char -> Nat -> Position
  | _, 0 => here
  | [], _ + 1 => here
  | '\r' :: '\n' :: rest, offset + 1 =>
      match offset with
      | 0 => { here with column := here.column + 1 }
      | next + 1 =>
          if rest.isEmpty then { here with column := here.column + 2 }
          else Position.advance { line := here.line + 1, column := 1 } rest next
  | c :: rest, offset + 1 =>
      if endsLine c && !rest.isEmpty then
        Position.advance { line := here.line + 1, column := 1 } rest offset
      else Position.advance { here with column := here.column + 1 } rest offset

/-- The position of the character at `offset`, or of the end of the text if the
text is shorter. -/
def positionAt (source : String) (offset : Nat) : Position :=
  Position.advance { line := 1, column := 1 } source.toList offset

end Text
end TypeChecker
