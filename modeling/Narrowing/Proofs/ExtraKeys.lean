-- SUMMARY: What the report on extra keys says, by name and by number.
import Narrowing.Proofs.Enumeration
import Narrowing.Shape

/-!
# Extra keys

A closed shape tells the own keys of an object that are the key of none of its fields: the first
three by name, in the order of enumeration, and the others by their number
(`checkExtra_reports`).
-/

namespace Narrowing

theorem Complaint.reason_extraKeys (keys : List PropertyKey) :
    (extraKeys keys).reason = .message
      ("The object has unexpected properties: " ++
        ", ".intercalate ((keys.take 3).map fun key => "\"" ++ key.display ++ "\"") ++
        (if 3 < keys.length then " and " ++ toString (keys.length - 3) ++ " more" else "") ++
        ".") := by
  have hsome : 0 < keys.length - 3 ↔ 3 < keys.length := Nat.sub_pos_iff_lt
  simp only [← hsome]
  rfl

/-- The check for extra keys accepts an object without any. Else it rejects the object with one
message, which names the first three of them, in the order of enumeration, and counts the others.
So each of them is named or counted, and none is named or counted twice if no key is in the table of
the object twice. -/
theorem checkExtra_reports (shape : Shape) (o : Object) :
    let extra := o.ownKeys.filter fun key => !shape.keys.contains key
    (checkExtra o shape.keys = .accepted () ↔ extra = []) ∧
      ∃ named counted, extra = named ++ counted ∧
        named.length = min 3 extra.length ∧ counted.length = extra.length - 3 ∧
        (extra ≠ [] → checkExtra o shape.keys = .rejected (.message
          ("The object has unexpected properties: " ++
            ", ".intercalate (named.map fun key => "\"" ++ key.display ++ "\"") ++
            (if 3 < extra.length then " and " ++ toString counted.length ++ " more" else "") ++
            "."))) ∧
        (o.kind.indexCount ≤ PropertyKey.indexLimit → (o.properties.map Prod.fst).Nodup →
          (named ++ counted).Nodup) := by
  intro extra
  have hcheck : checkExtra o shape.keys =
      .ensure extra.isEmpty (Complaint.extraKeys extra).reason () := checkExtra_eq o shape.keys
  refine ⟨?_, extra.take 3, extra.drop 3, (List.take_append_drop 3 extra).symm,
    List.length_take, List.length_drop, fun hsome => ?_, fun hcount htable => ?_⟩
  · simp [hcheck]
  · have hempty : extra.isEmpty = false := by simpa using hsome
    rw [hcheck, hempty, Complaint.reason_extraKeys, List.length_drop]
    rfl
  · rw [List.take_append_drop]
    exact (Object.nodup_ownKeys hcount htable).filter _

-- Keys of fields stand between the others, and the order is not the one in which they were set.
example :
    let shape : Shape := ({} : Shape).addField (.text "id") (.ofType .value) false
      |>.addField (.text "7") (.ofType .value) true
    let o : Object := .mk (.made []) .ordinary
      [(.text "b", .null), (.symbol ⟨0, some "e"⟩, .null), (.text "7", .null), (.text "10", .null),
        (.text "id", .null), (.text "2", .null), (.text "a", .null)] none none
    checkExtra o shape.keys = .rejected (.message
      "The object has unexpected properties: \"2\", \"10\", \"b\" and 2 more.") := by
  rfl

end Narrowing
