-- SUMMARY: JSON documents, their canonical form, and the order of members.
import Narrowing.Binary64.Layout

/-!
# JSON documents

Documents keep integers apart from numbers with a fraction, and the members of an object in a
list. A document whose members are sorted by key, each key once, at every level is *canonical*;
`canonical?` brings a document into that form and refuses integers that do not fit a machine word.
-/

namespace Narrowing

/-- A JSON document. -/
inductive Json where
  | null
  | bool (value : Bool)
  | integer (value : Int)
  | float (value : Binary64)
  | string (value : String)
  | array (items : List Json)
  | object (members : List (String × Json))

namespace Json

instance : Inhabited Json := ⟨.null⟩

/-! ## Members -/

/-- Members in ascending order of keys with one put in, unless its key is there. Keys are compared
by code points. -/
def insertMember {α : Type} (key : String) (item : α) : List (String × α) → List (String × α)
  | [] => [(key, item)]
  | (k, d) :: rest =>
      if key = k then (k, d) :: rest
      else if key < k then (key, item) :: (k, d) :: rest
      else (k, d) :: insertMember key item rest

/-- Members in ascending order of keys, of equal keys the last. -/
def sortMembers {α : Type} (members : List (String × α)) : List (String × α) :=
  members.foldr (fun (key, item) sorted => insertMember key item sorted) []

/-! ## The canonical form -/

/-- Why a document has no canonical form. -/
inductive Fault where
  | numberOutOfRange
  deriving DecidableEq

/-- The wording of a fault. -/
def Fault.message : Fault → String
  | .numberOutOfRange => "number out of range"

/-- Whether an integer fits a signed or an unsigned word of 64 bits. -/
def fitsWord (i : Int) : Bool :=
  decide (-9223372036854775808 ≤ i ∧ i ≤ 18446744073709551615)

mutual

/-- The canonical form of a document. -/
def canonical? : Json → Except Fault Json
  | .null => .ok .null
  | .bool b => .ok (.bool b)
  | .integer i => if fitsWord i then .ok (.integer i) else .error .numberOutOfRange
  | .float x => .ok (.float x)
  | .string s => .ok (.string s)
  | .array items => (canonicalItems? items).map .array
  | .object members => (canonicalMembers? members).map fun ms => .object (sortMembers ms)

/-- The canonical forms of the items of a list. -/
def canonicalItems? : List Json → Except Fault (List Json)
  | [] => .ok []
  | d :: ds =>
      match d.canonical?, canonicalItems? ds with
      | .ok e, .ok es => .ok (e :: es)
      | .error fault, _ | _, .error fault => .error fault

/-- Members with the canonical forms of their documents. -/
def canonicalMembers? : List (String × Json) → Except Fault (List (String × Json))
  | [] => .ok []
  | (key, d) :: ds =>
      match d.canonical?, canonicalMembers? ds with
      | .ok e, .ok es => .ok ((key, e) :: es)
      | .error fault, _ | _, .error fault => .error fault

end

end Json

end Narrowing
