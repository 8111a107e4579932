-- SUMMARY: Classes with single inheritance: lineage, the subclass test, and structural texts.
import Narrowing.Inspect
import Narrowing.Text.Quoted

/-!
# Classes

A class marks the objects that were made for one purpose. Each class extends at most one other,
so the classes above a given one form a chain that ends.
-/

namespace Narrowing

/-- A class, by its number in the order of creation, its name, and the class it extends. -/
inductive Class where
  | root (id : Nat) (name : String)
  | derived (id : Nat) (name : String) (parent : Class)
  deriving DecidableEq

namespace Class

/-- The name of a class. -/
def name : Class → String
  | .root _ name => name
  | .derived _ name _ => name

/-- The class that a class extends. -/
def parent? : Class → Option Class
  | .root _ _ => none
  | .derived _ _ parent => some parent

/-- The class and the classes above it, nearest first. -/
def lineage : Class → List Class
  | .root id name => [.root id name]
  | .derived id name parent => .derived id name parent :: parent.lineage

/-- Whether a class is another one or extends it at some remove. -/
def isSubclassOf (c d : Class) : Bool :=
  c.lineage.contains d

/-- The structural text of a class, which names the class it extends. -/
def inspect (c : Class) : String :=
  Inspect.record "Class"
    [("name", Text.quoted c.name),
     ("parent", Inspect.option (c.parent?.map fun d => Text.quoted d.name))]

theorem mem_lineage_self (c : Class) : c ∈ c.lineage := by
  cases c <;> simp [lineage]

end Class

end Narrowing
