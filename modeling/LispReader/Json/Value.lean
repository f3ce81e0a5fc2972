import LispReader.Json.Escape
import LispReader.Numeral

/-! JSON values and their text.

A layout says what stands between the parts of an array or object: nothing, a space, or a line
break with two spaces for each level of nesting. -/
namespace LispReader

inductive Json where
  | null
  | integer (value : Int)
  | text (value : String)
  | array (items : List Json)
  | object (members : List (String × Json))

namespace Json

inductive Layout where
  | compact
  | spaced
  | indented
  deriving DecidableEq, Repr

/-- A line break and the indentation of a level. -/
def lineBreak (level : Nat) : String := "\n" ++ String.ofList (List.replicate (2 * level) ' ')

/-- What opens the items of an array or object at a level. -/
def Layout.opening (level : Nat) : Layout → String
  | indented => lineBreak (level + 1)
  | _ => ""

/-- What closes the items of an array or object at a level. -/
def Layout.closing (level : Nat) : Layout → String
  | indented => lineBreak level
  | _ => ""

/-- What separates the items of an array or object at a level. -/
def Layout.separator (level : Nat) : Layout → String
  | compact => ","
  | spaced => ", "
  | indented => "," ++ lineBreak (level + 1)

/-- What separates a name from its value. -/
def Layout.colon : Layout → String
  | compact => ":"
  | _ => ": "

def ofText? : Option String → Json
  | none => null
  | some s => text s

def ofInteger? : Option Int → Json
  | none => null
  | some n => integer n

/-- Items between brackets; brackets without items close at once. -/
def Layout.enclose (layout : Layout) (level : Nat) (first last : String) :
    List String → String
  | [] => first ++ last
  | items => first ++ layout.opening level ++ (layout.separator level).intercalate items ++
      layout.closing level ++ last

mutual

/-- The text of a value at a level of nesting. -/
def writeAt (layout : Layout) (level : Nat) : Json → String
  | null => "null"
  | integer n => Numeral.write n
  | text s => string s
  | array items => layout.enclose level "[" "]" (writeItems layout (level + 1) items)
  | object members => layout.enclose level "\x7b" "\x7d" (writeMembers layout (level + 1) members)

def writeItems (layout : Layout) (level : Nat) : List Json → List String
  | [] => []
  | item :: items => item.writeAt layout level :: writeItems layout level items

def writeMembers (layout : Layout) (level : Nat) : List (String × Json) → List String
  | [] => []
  | member :: members => writeMember layout level member :: writeMembers layout level members

def writeMember (layout : Layout) (level : Nat) : String × Json → String
  | (name, value) => string name ++ layout.colon ++ value.writeAt layout level

end

/-- The text of a value. -/
def write (layout : Layout) (value : Json) : String := value.writeAt layout 0

end Json

end LispReader
