/-!
# Splitting texts at a character
-/

namespace TypeChecker
namespace Text

def splitFirst? (mark : Char) : List Char -> Option (List Char × List Char)
  | [] => none
  | c :: rest =>
      if c = mark then some ([], rest)
      else (splitFirst? mark rest).map fun parts => (c :: parts.1, parts.2)

def splitAll (mark : Char) : List Char -> List (List Char)
  | [] => [[]]
  | c :: rest =>
      if c = mark then [] :: splitAll mark rest
      else
        match splitAll mark rest with
        | [] => [[c]]
        | part :: parts => (c :: part) :: parts

end Text
end TypeChecker
