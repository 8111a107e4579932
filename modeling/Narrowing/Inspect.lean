-- SUMMARY: The brackets of structural texts: records, calls, lists, tuples, and maps.
/-!
# Structural texts

The brackets of the texts that show a thing with all its parts: records with named fields, calls,
lists, tuples and maps. What the parts are called belongs to the modules that write the texts.
-/

namespace Narrowing

namespace Inspect

/-- Parts one after the other. -/
def commas (parts : List String) : String :=
  ", ".intercalate parts

/-- A record: a name and its fields. -/
def record (name : String) (fields : List (String × String)) : String :=
  name ++ " \x7b " ++ commas (fields.map fun (field, text) => field ++ ": " ++ text) ++ " \x7d"

/-- A record whose fields are not shown. -/
def closedRecord (name : String) : String :=
  name ++ " \x7b .. \x7d"

/-- A name with parts in parentheses. -/
def call (name : String) (part : String) : String :=
  name ++ "(" ++ part ++ ")"

/-- A list. -/
def list (parts : List String) : String :=
  "[" ++ commas parts ++ "]"

/-- A tuple; one with a single part keeps a comma behind it. -/
def tuple (parts : List String) : String :=
  match parts with
  | [part] => "(" ++ part ++ ",)"
  | parts => "(" ++ commas parts ++ ")"

/-- A map. -/
def map (entries : List (String × String)) : String :=
  "\x7b" ++ commas (entries.map fun (key, text) => key ++ ": " ++ text) ++ "\x7d"

/-- A part that may be missing. -/
def option (part : Option String) : String :=
  match part with
  | some text => call "Some" text
  | none => "None"

/-- A truth value. -/
def bool (b : Bool) : String :=
  if b then "true" else "false"

end Inspect

end Narrowing
