import MonkeyLang.Text.Quoted

namespace MonkeyLang.Text

/-- How the parts of a node are enclosed. A partial record says that it leaves fields out. -/
inductive Outline.Shape where
  | record
  | partialRecord
  | tuple
  | list
deriving DecidableEq, Repr

inductive Outline where
  | leaf (text : String)
  | field (name : String) (content : Outline)
  | node (shape : Outline.Shape) (label : String) (parts : List Outline)

namespace Outline

def nat (n : Nat) : Outline := leaf n.repr

def quoted (text : String) : Outline := leaf (Text.quoted text)

def list (parts : List Outline) : Outline := node .list "" parts

def record (label : String) (parts : List Outline) : Outline := node .record label parts

def tuple (label : String) (parts : List Outline) : Outline := node .tuple label parts

namespace Shape

def opening : Shape → String
  | .record | .partialRecord => " \x7b"
  | .tuple => "("
  | .list => "["

def closing : Shape → String
  | .record | .partialRecord => "\x7d"
  | .tuple => ")"
  | .list => "]"

/-- What stands inside the brackets on either side when all is on one line. -/
def padding : Shape → String
  | .record | .partialRecord => " "
  | .tuple | .list => ""

/-- What stands for the fields left out. -/
def remainder : Shape → List String
  | .partialRecord => [".."]
  | _ => []

end Shape

mutual

/-- The outline on one line. -/
def compact : Outline → String
  | leaf text => text
  | field name content => name ++ ": " ++ content.compact
  | node shape label parts =>
    label ++ shape.opening ++ shape.padding ++
      ", ".intercalate (compactParts parts ++ shape.remainder) ++ shape.padding ++ shape.closing

def compactParts : List Outline → List String
  | [] => []
  | part :: parts => part.compact :: compactParts parts

end

def indent (depth : Nat) : String := String.ofList (List.replicate (4 * depth) ' ')

mutual

/-- The outline with each part on a line of its own, behind the first `depth` indentations; a node
without parts stays on its line. -/
def indentedAt (depth : Nat) : Outline → String
  | leaf text => text
  | field name content => name ++ ": " ++ indentedAt depth content
  | node shape label [] => label ++ shape.opening ++ shape.closing
  | node shape label (part :: parts) =>
    label ++ shape.opening ++ "\n" ++ indentedParts (depth + 1) (part :: parts) ++
      String.join (shape.remainder.map fun text => indent (depth + 1) ++ text ++ "\n") ++
      indent depth ++ shape.closing

def indentedParts (depth : Nat) : List Outline → String
  | [] => ""
  | part :: parts => indent depth ++ indentedAt depth part ++ ",\n" ++ indentedParts depth parts

end

def indented (outline : Outline) : String := indentedAt 0 outline

end Outline

end MonkeyLang.Text
