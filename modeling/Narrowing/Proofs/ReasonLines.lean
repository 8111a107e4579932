-- SUMMARY: Lines of the indented tree of a reason, with and without newlines in messages.
import Mathlib.Algebra.BigOperators.Group.List.Basic
import Mathlib.Algebra.GroupWithZero.Nat
import Narrowing.Proofs.ReasonViews

/-!
# Lines of trees

The tree of a reason has a line for each message, unless messages have newlines of their own: they
stand in the tree as they are (`Reason.tree_lines`). Messages have the texts of keys, classes and
callers in them, so a validator of the library can give a reason of one message whose tree has more
than one line (`Definitions.brokenKey_tree`).

The lines are indented as far as the messages are deep, without a limit. A formatter that takes
widths of 16 bits writes the same lines for reasons of depth 32767 and less.
-/

namespace Narrowing

/-! ## Lines of a text -/

namespace Text

/-- The lines of a text: what stands between its newlines. -/
def lines (text : String) : List String :=
  (text.split '\n').toList.map String.Slice.copy

theorem lines_eq (text : String) :
    lines text = (text.toList.splitOn '\n').map String.ofList :=
  String.toList_split_char

theorem length_splitOn {α : Type} [DecidableEq α] (a : α) (as : List α) :
    (as.splitOn a).length = as.count a + 1 := by
  induction as with
  | nil => rfl
  | cons b as ih =>
    rw [List.splitOn_cons_eq_if_modifyHead, List.count_cons]
    split
    · rw [List.length_cons, ih]
    · rw [List.length_modifyHead, ih, Nat.add_zero]

theorem length_lines (text : String) : (lines text).length = text.toList.count '\n' + 1 := by
  rw [lines_eq, List.length_map, length_splitOn]

theorem lines_eq_singleton {text : String} (h : '\n' ∉ text.toList) : lines text = [text] := by
  rw [lines_eq, List.splitOn_eq_singleton h, List.map_singleton, String.ofList_toList]

theorem lines_append (s t : String) : lines (s ++ "\n" ++ t) = lines s ++ lines t := by
  have hnewline : (s ++ "\n" ++ t).toList = s.toList ++ '\n' :: t.toList := by simp
  rw [lines_eq, lines_eq, lines_eq, hnewline, List.splitOn_append_cons_self, List.map_append]

theorem lines_intercalate {texts : List String} (h : texts ≠ []) :
    lines ("\n".intercalate texts) = texts.flatMap lines := by
  induction texts with
  | nil => exact absurd rfl h
  | cons text texts ih =>
    cases texts with
    | nil => simp
    | cons next texts =>
      rw [String.intercalate_cons_cons, lines_append, ih (by simp), ← List.flatMap_cons]

end Text

/-! ## Lines of a tree -/

namespace Reason

/-- The line of a reason with a message: two spaces for each message that it is behind, and its
message. -/
def Entry.line (entry : Entry) : String :=
  String.ofList (List.replicate (2 * entry.depth) ' ') ++ entry.reason.display

theorem Entry.count_line (entry : Entry) :
    entry.line.toList.count '\n' = entry.reason.display.toList.count '\n' := by
  simp [Entry.line, List.count_replicate]

variable {r : Reason}

theorem tree_eq (r : Reason) : r.tree = "\n".intercalate (r.entries.map Entry.line) := by
  rw [tree, outline_eq_map, List.map_map]
  congr 1
  refine List.map_congr_left fun entry _ => ?_
  simp only [Function.comp_apply, treeLine, Nat.zero_add, Entry.line]

theorem count_eq_length_entries (r : Reason) : r.count = r.entries.length := by
  rw [count_eq_length, ← map_reason_entries, List.length_map]

theorem lines_tree (h : r.count ≠ 0) :
    Text.lines r.tree = r.entries.flatMap fun entry => Text.lines entry.line := by
  have hentries : r.entries ≠ [] := by
    intro hnil
    rw [count_eq_length_entries, hnil] at h
    exact h rfl
  rw [tree_eq, Text.lines_intercalate (by simpa using hentries), List.flatMap_map]

theorem length_lines_tree (h : r.count ≠ 0) : (Text.lines r.tree).length =
    r.count + (r.flatten.map fun s => s.display.toList.count '\n').sum := by
  rw [lines_tree h, List.length_flatMap, count_eq_length_entries, ← map_reason_entries,
    List.map_map]
  simp only [Text.length_lines, Entry.count_line]
  rw [List.sum_map_add]
  simp [Function.comp_def, Nat.add_comm]

theorem lines_tree_of_plain (h : r.count ≠ 0)
    (hplain : ∀ s ∈ r.flatten, '\n' ∉ s.display.toList) :
    Text.lines r.tree = r.entries.map Entry.line := by
  rw [lines_tree h, ← List.flatMap_singleton' (r.entries.map Entry.line), List.flatMap_map]
  refine List.flatMap_congr fun entry hentry => ?_
  apply Text.lines_eq_singleton
  rw [← List.count_eq_zero, Entry.count_line, List.count_eq_zero]
  apply hplain
  rw [← map_reason_entries]
  exact List.mem_map_of_mem hentry

/-- With a newline in a message there are more lines than messages. -/
theorem plain_of_length_lines_tree (h : r.count ≠ 0)
    (hlength : (Text.lines r.tree).length = r.count) {s : Reason} (hs : s ∈ r.flatten) :
    '\n' ∉ s.display.toList := by
  rw [length_lines_tree h] at hlength
  have hsum : (r.flatten.map fun s => s.display.toList.count '\n').sum = 0 := by omega
  have hcount := List.sum_eq_zero_iff_forall_eq_nat.1 hsum _ (List.mem_map_of_mem hs)
  exact List.count_eq_zero.1 hcount

/-- The tree of a reason with a message gives the messages of the flat list in their order, each
indented by two spaces for each message that it is behind. Newlines in messages are kept, so there
are as many lines as messages and newlines, and each line is one message if and only if no message
has a newline. Where widths have 16 bits, this is so down to depth 32767. -/
theorem tree_lines (h : r.count ≠ 0) :
    r.entries.map Entry.reason = r.flatten ∧
    (∀ entry ∈ r.entries, r.HasAt entry.place entry.depth entry.reason) ∧
    Text.lines r.tree = r.entries.flatMap (fun entry => Text.lines entry.line) ∧
    (Text.lines r.tree).length =
      r.count + (r.flatten.map fun s => s.display.toList.count '\n').sum ∧
    (Text.lines r.tree = r.entries.map Entry.line ↔
      ∀ s ∈ r.flatten, '\n' ∉ s.display.toList) := by
  refine ⟨map_reason_entries r, fun _ hentry => (mem_entries_iff.1 hentry).1, lines_tree h,
    length_lines_tree h, fun hlines s hs => ?_, lines_tree_of_plain h⟩
  apply plain_of_length_lines_tree h ?_ hs
  rw [hlines, List.length_map, count_eq_length_entries]

end Reason

namespace Definitions

open Reason

/-- No message of the reason has a newline, so there is a line for each of the six. -/
theorem flaggedReason_lines :
    flaggedReason.count ≠ 0 ∧ (∀ s ∈ flaggedReason.flatten, '\n' ∉ s.display.toList) ∧
    Text.lines flaggedReason.tree =
      ["No number and no nulls.",
        "  The value does not satisfy any of the validators.",
        "    The value is not a number.",
        "    The property \"flag\" is invalid.",
        "      The value does not satisfy any of the validators.",
        "        The value is not null."] := by
  have hcount : flaggedReason.count ≠ 0 := by decide
  have hplain : ∀ s ∈ flaggedReason.flatten, '\n' ∉ s.display.toList := by decide
  obtain ⟨-, -, -, -, hlines⟩ := tree_lines hcount
  refine ⟨hcount, hplain, (hlines.2 hplain).trans ?_⟩
  decide

/-- The reason for a missing property is one message, which has the key in it. -/
theorem brokenKey_tree :
    let v := Validator.checked (.property (.text "a\nb") (.ofType .value) {})
    let x := Value.object (.mk (.made []) .ordinary [] none none)
    let reason := (Complaint.missingProperty (.text "a\nb")).reason
    Returns [] v x (.rejected reason) ∧ reason.count = 1 ∧
      Text.lines reason.tree = ["The property \"a", "b\" is missing."] := by
  intro v x reason
  have hrun : run [] 0 v x = .rejected reason := by rfl
  refine ⟨returns_of_run hrun (by simp), by rfl, ?_⟩
  have htree : reason.tree = "The property \"a" ++ "\n" ++ "b\" is missing." := by decide
  rw [htree, Text.lines_append, Text.lines_eq_singleton (by decide),
    Text.lines_eq_singleton (by decide), List.singleton_append]

end Definitions

end Narrowing
