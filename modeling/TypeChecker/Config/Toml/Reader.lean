import TypeChecker.Config.Toml.Scalar

/-!
# Reading TOML documents

Keys, arrays and tables written in braces, and the lines of a document. Arrays and
braces nest to a fixed depth, and keys have at most that many parts.
-/

namespace TypeChecker
namespace Toml

/-- How deep values may nest and how many parts a key may have. -/
def maxDepth : Nat := 79

def skipTrivia : Bool -> Chars -> Option Chars
  | _, [] => some []
  | _, '\n' :: rest => skipTrivia false rest
  | _, '\r' :: '\n' :: rest => skipTrivia false rest
  | true, c :: rest => if isPrintable c then skipTrivia true rest else none
  | false, '#' :: rest => skipTrivia true rest
  | false, c :: rest => if isSpace c then skipTrivia false rest else some (c :: rest)

def readKeyPart : Chars -> Reading String
  | '"' :: rest => (readBasic rest).map fun item => (String.ofList item.1, item.2)
  | '\'' :: rest => (readLiteralText rest).map fun item => (String.ofList item.1, item.2)
  | text =>
      let part := text.takeWhile isBare
      if part.isEmpty then none else some (String.ofList part, text.dropWhile isBare)

def readKeyParts : Nat -> Chars -> Reading (List String)
  | 0, _ => none
  | parts + 1, text =>
      match readKeyPart (skipSpaces text) with
      | none => none
      | some (key, rest) =>
          match skipSpaces rest with
          | '.' :: more => (readKeyParts parts more).map fun item => (key :: item.1, item.2)
          | rest => some ([key], rest)

def readKey (text : Chars) : Reading (List String × String) :=
  match readKeyParts maxDepth text with
  | none => none
  | some (parts, rest) => parts.getLast?.map fun last => ((parts.dropLast, last), rest)

mutual

/-- Read a value. The first number bounds the steps of reading, the second how
much deeper values may nest. -/
def readValue : Nat -> Nat -> Chars -> Reading Value
  | 0, _, _ => none
  | _ + 1, 0, '[' :: _ => none
  | _ + 1, 0, '\x7b' :: _ => none
  | steps + 1, depth + 1, '[' :: rest =>
      (readItems steps depth rest).map fun item => (.array item.1, item.2)
  | steps + 1, depth + 1, '\x7b' :: rest =>
      match skipSpaces rest with
      | '\x7d' :: rest => some (.table .inline [], rest)
      | rest => (readPairs steps depth [] rest).map fun item => (.table .inline item.1, item.2)
  | _ + 1, _, text => readScalar text

def readItems : Nat -> Nat -> Chars -> Reading (List Value)
  | 0, _, _ => none
  | steps + 1, depth, text =>
      match skipTrivia false text with
      | some (']' :: rest) => some ([], rest)
      | some text =>
          match readValue steps depth text with
          | none => none
          | some (value, rest) =>
              match skipTrivia false rest with
              | some (',' :: rest) =>
                  (readItems steps depth rest).map fun item => (value :: item.1, item.2)
              | some (']' :: rest) => some ([value], rest)
              | _ => none
      | none => none

def readPairs : Nat -> Nat -> Entries -> Chars -> Reading Entries
  | 0, _, _, _ => none
  | steps + 1, depth, entries, text =>
      match readKey text with
      | some ((path, key), '=' :: rest) =>
          match readValue steps depth (skipSpaces rest) with
          | none => none
          | some (value, rest) =>
              match entries.setDotted path key value .inline with
              | none => none
              | some entries =>
                  match skipSpaces rest with
                  | ',' :: rest => readPairs steps depth entries rest
                  | '\x7d' :: rest => some (entries, rest)
                  | _ => none
      | _ => none

end

def finishLine (text : Chars) : Option Chars :=
  let rest :=
    match skipSpaces text with
    | '#' :: comment => comment.dropWhile isPrintable
    | rest => rest
  match rest with
  | [] => some []
  | '\n' :: rest => some rest
  | '\r' :: '\n' :: rest => some rest
  | _ => none

structure Document where
  entries : Entries := []
  current : List String := []

namespace Document

def set (doc : Document) (path : List String) (key : String) (value : Value) : Option Document := do
  let entries <-
    Entries.updateAt .implied (Entries.setDotted path key value) doc.current .header doc.entries
  return { doc with entries }

def startTable (doc : Document) (path : List String) (key : String) : Option Document := do
  let entries <-
    Entries.updateAt .implied (fun _ => Entries.openTable key) path .header doc.entries
  return { entries, current := path ++ [key] }

def startShared (doc : Document) (path : List String) (key : String) : Option Document := do
  let entries <-
    Entries.updateAt .implied (fun _ => Entries.openShared key) path .header doc.entries
  return { entries, current := path ++ [key] }

def readLine (doc : Document) (text : Chars) : Option (Document × Chars) :=
  match text with
  | '[' :: '[' :: header =>
      match readKey header with
      | some ((path, key), ']' :: ']' :: rest) => do
          let doc <- doc.startShared path key
          return (doc, ← finishLine rest)
      | _ => none
  | '[' :: header =>
      match readKey header with
      | some ((path, key), ']' :: rest) => do
          let doc <- doc.startTable path key
          return (doc, ← finishLine rest)
      | _ => none
  | _ =>
      match readKey text with
      | some ((path, key), '=' :: rest) => do
          let (value, rest) <- readValue (2 * text.length + 2) maxDepth (skipSpaces rest)
          let doc <- doc.set path key value
          return (doc, ← finishLine rest)
      | _ => none

def readLines : Nat -> Document -> Chars -> Option Document
  | 0, _, _ => none
  | lines + 1, doc, text =>
      match skipTrivia false text with
      | none => none
      | some [] => some doc
      | some text =>
          match doc.readLine text with
          | none => none
          | some (doc, rest) => readLines lines doc rest

end Document

/-- The entries of a document; a byte order mark at its start is ignored. -/
def read? (text : String) : Option Entries :=
  let chars :=
    match text.toList with
    | '\uFEFF' :: rest => rest
    | chars => chars
  (Document.readLines (chars.length + 1) {} chars).map Document.entries

end Toml
end TypeChecker
