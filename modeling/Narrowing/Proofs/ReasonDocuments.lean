-- SUMMARY: Reading reasons back from their documents.
import Narrowing.Reason.Text

/-!
# Documents of reasons

A reason can be read back from its document. A string is read as a message, an array as several
reasons, and an object as a message with a cause if these are its members and it has no others. A
document is read as a reason if and only if it is the document of that reason, so no two reasons
have the same document (`Reason.document_lossless`).
-/

namespace Narrowing

namespace Reason

/-! ## Reading a document -/

mutual

/-- The reason that a document is read as. -/
def ofJson? : Json → Option Reason
  | .string text => some (.message text)
  | .array items => (ofJsonAll? items).map .several
  | .object [("cause", cause), ("message", .string text)] => (ofJson? cause).map (.because text)
  | _ => none

/-- The reasons that the documents of a list are read as. -/
def ofJsonAll? : List Json → Option (List Reason)
  | [] => some []
  | d :: ds => do
      let r ← ofJson? d
      let rs ← ofJsonAll? ds
      return r :: rs

end

mutual

theorem ofJson?_toJson : (r : Reason) → ofJson? r.toJson = some r
  | .message _ => rfl
  | .because text cause => by
      rw [toJson, ofJson?, ofJson?_toJson cause, Option.map_some]
  | .several reasons => by
      rw [toJson, ofJson?, ofJsonAll?_toJsonAll reasons, Option.map_some]

theorem ofJsonAll?_toJsonAll : (rs : List Reason) → ofJsonAll? (toJsonAll rs) = some rs
  | [] => rfl
  | r :: rs => by
      rw [toJsonAll, ofJsonAll?, ofJson?_toJson r, ofJsonAll?_toJsonAll rs]
      rfl

end

theorem ofJson?_object_eq_some {members : List (String × Json)} {r : Reason}
    (h : ofJson? (.object members) = some r) :
    ∃ cause text s, members = [("cause", cause), ("message", .string text)] ∧
      ofJson? cause = some s ∧ because text s = r := by
  unfold ofJson? at h
  split at h
  case h_3 cause text hmembers =>
    obtain ⟨s, hs, rfl⟩ := Option.map_eq_some_iff.1 h
    exact ⟨cause, text, s, Json.object.inj hmembers, hs, rfl⟩
  all_goals contradiction

mutual

theorem toJson_of_ofJson? : {d : Json} → {r : Reason} → ofJson? d = some r → r.toJson = d
  | .string text, r, h => by
      cases h
      rfl
  | .array items, r, h => by
      obtain ⟨rs, hrs, rfl⟩ := Option.map_eq_some_iff.1 h
      rw [toJson, toJsonAll_of_ofJsonAll? hrs]
  | .object members, r, h => by
      obtain ⟨cause, text, s, rfl, hs, rfl⟩ := ofJson?_object_eq_some h
      rw [toJson, toJson_of_ofJson? hs]
  | .null, r, h | .bool _, r, h | .integer _, r, h | .float _, r, h => by cases h

theorem toJsonAll_of_ofJsonAll? : {ds : List Json} → {rs : List Reason} →
    ofJsonAll? ds = some rs → toJsonAll rs = ds
  | [], rs, h => by
      cases h
      rfl
  | d :: ds, rs, h => by
      obtain ⟨r, hr, htail⟩ := Option.bind_eq_some_iff.1 h
      obtain ⟨rs, hrs, hcons⟩ := Option.bind_eq_some_iff.1 htail
      cases hcons
      rw [toJsonAll, toJson_of_ofJson? hr, toJsonAll_of_ofJsonAll? hrs]

end

theorem ofJson?_eq_some_iff {d : Json} {r : Reason} : ofJson? d = some r ↔ r.toJson = d :=
  ⟨toJson_of_ofJson?, fun h => h ▸ ofJson?_toJson r⟩

theorem toJson_injective : Function.Injective toJson := by
  intro r s h
  have hread := ofJson?_toJson r
  rw [h, ofJson?_toJson s] at hread
  exact (Option.some.inj hread).symm

/-! ## The canonical form -/

mutual

theorem canonical_toJson : (r : Reason) → r.toJson.canonical? = .ok r.toJson
  | .message _ => rfl
  | .because text cause => by
      rw [toJson, Json.canonical?]
      simp only [Json.canonicalMembers?, canonical_toJson cause, Json.canonical?]
      rfl
  | .several reasons => by
      rw [toJson, Json.canonical?, canonicalItems_toJsonAll reasons]
      rfl

theorem canonicalItems_toJsonAll :
    (rs : List Reason) → Json.canonicalItems? (toJsonAll rs) = .ok (toJsonAll rs)
  | [] => rfl
  | r :: rs => by
      simp only [toJsonAll, Json.canonicalItems?, canonical_toJson r, canonicalItems_toJsonAll rs]

end

/-- A document is read as a reason if and only if it is the document of that reason. So a reason can
be read back from its document, and reasons with equal documents are equal. Documents of reasons are
canonical: that they are equal does not depend on the order of members. -/
theorem document_lossless :
    (∀ d r, ofJson? d = some r ↔ r.toJson = d) ∧
    (∀ r, ofJson? r.toJson = some r) ∧
    (∀ r s : Reason, r.toJson = s.toJson ↔ r = s) ∧
    ∀ r : Reason, r.toJson.canonical? = .ok r.toJson :=
  ⟨fun _ _ => ofJson?_eq_some_iff, ofJson?_toJson, fun _ _ => toJson_injective.eq_iff,
    canonical_toJson⟩

end Reason

end Narrowing
