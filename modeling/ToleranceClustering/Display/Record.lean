/-!
# Texts of structured values

How records, lists and optional values are written on one line.
-/

namespace ToleranceClustering.Display

/-- The fields of a record with their texts, one after the other. -/
def fields (fs : List (String × String)) : String := ", ".intercalate (fs.map fun f => f.1 ++ ": " ++ f.2)

/-- A record with all its fields. -/
def record (name : String) (fs : List (String × String)) : String := name ++ " \x7b " ++ fields fs ++ " \x7d"

/-- A record of which only some fields are shown. -/
def partialRecord (name : String) (fs : List (String × String)) : String :=
  name ++ " \x7b " ++ fields fs ++ ", .. \x7d"

/-- A value under a name. -/
def wrapped (name inner : String) : String := name ++ "(" ++ inner ++ ")"

/-- A value that may be missing. -/
def optional {β : Type} (f : β → String) : Option β → String
  | none => "None"
  | some b => wrapped "Some" (f b)

/-- The items of a list. -/
def list (items : List String) : String := "[" ++ ", ".intercalate items ++ "]"

/-- A truth value. -/
def truth (b : Bool) : String := if b then "true" else "false"

end ToleranceClustering.Display
