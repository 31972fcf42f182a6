import TypeChecker.Fault.Basic
import TypeChecker.Registry.Basic
import TypeChecker.Source.Item
import TypeChecker.Text.Letter
import TypeChecker.Text.Split

/-!
# Tags

A tag line such as `# data: name=Point, ver=v1` gives a type its identity on the
wire. The last of several tags counts.
-/

namespace TypeChecker
namespace DataId

structure Pieces where
  name : Option String := none
  version : Option String := none

def isValue (text : List Char) : Bool :=
  !text.isEmpty && text.all fun c => Text.isAlphanumeric c || c == '_' || c == '-' || c == '.'

def Pieces.readItem (sofar : Pieces) (item : List Char) : Except String Pieces := do
  match Text.splitFirst? '=' item with
  | none => throw ("invalid data config item: " ++ String.ofList item)
  | some (key, value) =>
      let key := String.ofList key
      if !(key == "name" || key == "ver") then
        throw ("unknown data config key: " ++ key)
      if !isValue value then
        throw ("invalid value for item '" ++ key ++ "': " ++ String.ofList value)
      if key == "name" then
        return { sofar with name := some (String.ofList value) }
      else
        return { sofar with version := some (String.ofList value) }

def tagContent (text : String) : List Char :=
  Text.trim ((Text.dropEndWhile (· == '\r') text.toList).dropWhile (· == '#'))

/-- The identity a tag line gives, or what is wrong with the line. -/
def ofTagText (text : String) : Except String DataId := do
  match Text.splitFirst? ':' (tagContent text) with
  | none => throw "wrong format"
  | some (kind, body) =>
      let kind := String.ofList (Text.trim kind)
      if kind != "data" then
        throw ("invalid type tag kind: " ++ kind)
      let items := (Text.splitAll ',' body).map Text.trim
      let identity <- items.foldlM Pieces.readItem {}
      match identity with
      | { name := none, .. } => throw "invalid data config: 'name' not set"
      | { name := some _, version := none } => throw "invalid data config: 'ver' not set"
      | { name := some name, version := some version } => return ⟨name, version⟩

def ofTag (tag : Source.Tag) : Except DeclError DataId :=
  (ofTagText tag.text).mapError fun info => { value := .badTag tag.text info, span := tag.span }

def ofTags (tags : List Source.Tag) : Except DeclError (Option DataId) :=
  tags.foldlM (fun _ tag => (ofTag tag).map some) none

end DataId
end TypeChecker
