/-! # Forms of listings

A listing writes a tree on one line: a part with places as `Name(a, b)`, one with named fields as
`Name { field: a }`, sequences between brackets. -/

namespace WorldScript.Listing

/-- Parts with a comma and a blank between them. -/
def separated (parts : List String) : String := ", ".intercalate parts

/-- Parts in order under a name. -/
def applied (name : String) (parts : List String) : String := name ++ "(" ++ separated parts ++ ")"

/-- A field and its part. -/
def field (name part : String) : String := name ++ ": " ++ part

/-- Named parts under a name. -/
def record (name : String) (fields : List (String × String)) : String :=
  name ++ " \x7b " ++ separated (fields.map fun (n, part) => field n part) ++ " \x7d"

/-- A record under its own name, as the part of a choice. -/
def wrapped (choice : String) (name : String) (fields : List (String × String)) : String :=
  applied choice [record name fields]

/-- A sequence. -/
def sequence (parts : List String) : String := "[" ++ separated parts ++ "]"

/-- A part that may be missing. -/
def optional : Option String → String
  | some part => applied "Some" [part]
  | none => "None"

end WorldScript.Listing
