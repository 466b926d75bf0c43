/-!
Structured values as text, on one line or indented. Names say what each part is; the text shows the
whole structure.
-/
namespace LuaSyntax

/-- A record holds fields; a wrapped value is a name around one part. -/
inductive Shape
  | word (text : String)
  | field (name : String) (value : Shape)
  | wrapped (name : String) (value : Shape)
  | record (name : String) (fields : List Shape)
  | list (items : List Shape)

namespace Shape

mutual

def flat : Shape → String
  | word text => text
  | field name value => name ++ ": " ++ flat value
  | wrapped name value => name ++ "(" ++ flat value ++ ")"
  | record name fields => name ++ " \x7b " ++ ", ".intercalate (flats fields) ++ " \x7d"
  | list items => "[" ++ ", ".intercalate (flats items) ++ "]"

def flats : List Shape → List String
  | [] => []
  | s :: ss => flat s :: flats ss

end

def indent (depth : Nat) : String := String.ofList (List.replicate (4 * depth) ' ')

mutual

/-- Every part on a line of its own with a comma after it. The empty list stays on its line. -/
def indented (depth : Nat) : Shape → String
  | word text => text
  | field name value => name ++ ": " ++ indented depth value
  | wrapped name value =>
    name ++ "(\n" ++ indent (depth + 1) ++ indented (depth + 1) value ++ ",\n" ++ indent depth ++ ")"
  | record name fields =>
    name ++ " \x7b\n" ++ indentedLines (depth + 1) fields ++ indent depth ++ "\x7d"
  | list [] => "[]"
  | list (s :: ss) => "[\n" ++ indentedLines (depth + 1) (s :: ss) ++ indent depth ++ "]"

def indentedLines (depth : Nat) : List Shape → String
  | [] => ""
  | s :: ss => indent depth ++ indented depth s ++ ",\n" ++ indentedLines depth ss

end

end Shape

end LuaSyntax
