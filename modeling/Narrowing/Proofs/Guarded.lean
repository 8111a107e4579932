-- SUMMARY: Termination of guarded recursion within the depth of the value, and a recursion without a guard.
import Narrowing.Proofs.Calls

/-!
# Guarded recursion

Recursion is *guarded* if every reference lies below a validator that looks into a value. Then a
definition is unfolded again only on what an object or an array has inside, and so never more often
than the value is nested (`Definitions.guarded_terminates`). This holds as long as no value is
turned into an object on the way, which would nest it more deeply.

Without a guard a definition may stand for itself (`Definitions.endless`). Then it depends on the
first own key of an object whether a validator comes to it.
-/

namespace Narrowing

/-- Every reference lies below a validator that looks into a value. -/
inductive Validator.Guarded : Validator → Prop
  | container {v : Validator} (hv : v.isContainer = true) : Guarded v
  | parts {v : Validator} (hv : v.isReference = false) (hparts : ∀ u ∈ v.parts, Guarded u) :
      Guarded v

namespace Definitions

variable {defs : Definitions} {v w : Validator} {x y : Value}

variable (defs) in
/-- A validator that is known and turns no value into an object. -/
def Strict : Validator → Prop
  | .leaf (.rule _) | .leaf .toObject => False
  | .reference name => ∃ w, defs.lookup name = some w
  | _ => True

theorem Strict.known (h : defs.Strict v) : defs.Known v := by
  cases v with
  | leaf l => cases l <;> first | exact h.elim | rfl
  | reference name => exact h
  | _ => trivial

/-! ## Depth along calls -/

/-- A leaf that makes no object gives nothing that is nested more deeply than what it takes. -/
theorem Strict.depth_le {l : Leaf} (hl : defs.Strict (.leaf l)) (h : l.judge x = .accepted y) :
    y.depth ≤ x.depth := by
  rcases Leaf.output_cases hl.known h with rfl | ⟨n, rfl, rfl⟩ | ⟨rfl, -⟩
  · exact Nat.le_refl _
  · simp
  · exact hl.elim

/-- A call goes on with a value that is nested no more deeply. -/
theorem Calls.depth_le (hdefs : defs.Each (Validator.Throughout defs.Strict))
    (hv : v.Throughout defs.Strict) (h : defs.Calls v x w y) (hcontainer : v.isContainer = false) :
    y.depth ≤ x.depth := by
  have hleaf : ∀ l, defs.Strict (.leaf l) → ∀ z y, z.depth ≤ x.depth → l.judge z = .accepted y →
      y.depth ≤ x.depth := by
    intro l hl z y hz hjudge
    exact Nat.le_trans (hl.depth_le hjudge) hz
  exact h.keeps hcontainer hdefs hv hleaf (Nat.le_refl x.depth)

/-! ## Unfoldings along call paths -/

/-- Each unfolding but the first takes a level off the value. -/
theorem CallPath.length_le {trace : List (String × Value)}
    (hdefs : defs.Each fun w => w.Guarded ∧ w.Throughout defs.Strict)
    (hv : v.Throughout defs.Strict) (h : defs.CallPath v x trace) :
    trace.length ≤ x.depth + 1 ∧ (v.Guarded → trace.length ≤ x.depth) := by
  have hstrict : defs.Each (Validator.Throughout defs.Strict) :=
    fun name w hw => (hdefs name w hw).2
  induction h with
  | done => simp
  | @call v w x y trace hcall hpath ih =>
    obtain ⟨hany, hguarded⟩ := ih (hv.inside w hcall.mem_parts)
    cases hcontainer : v.isContainer with
    | true =>
      -- Below a guard the value is smaller, which makes up for a reference without a guard.
      have hlt : y.depth < x.depth := (hcall.yields hcontainer).depth_lt
      exact ⟨by omega, fun _ => by omega⟩
    | false =>
      -- Without a guard the value may stay, but then the parts are guarded if the whole is.
      have hle : y.depth ≤ x.depth := hcall.depth_le hstrict hv hcontainer
      refine ⟨by omega, ?_⟩
      intro hv
      cases hv with
      | container h => rw [h] at hcontainer; cases hcontainer
      | parts _ hparts => exact (hguarded (hparts w hcall.mem_parts)).trans hle
  | @unfold name w x trace hw hpath ih =>
    obtain ⟨hguarded, hw⟩ := hdefs name w hw
    have hle := (ih hw).2 hguarded
    refine ⟨by simpa using hle, ?_⟩
    intro h
    cases h with
    | container h => cases h
    | parts h _ => cases h

/-- Without references a validator comes to an end on every value. -/
theorem settles_of_throughout (hv : v.Throughout fun u => defs.Known u ∧ u.isReference = false)
    (x : Value) : defs.Settles v x := by
  suffices h : defs.run 0 v x ≠ .unsettled from settles_of_run h
  intro hrun
  induction v using Validator.partsInduction generalizing x with
  | step v ih =>
    -- The run would go on with one part after the other and never reach a leaf.
    obtain ⟨w, y, hcall, hw⟩ := exists_call_of_unsettled hv.here.1 hv.here.2 hrun
    exact ih w hcall.mem_parts (hv.inside w hcall.mem_parts) y hw

theorem validate_ne_unsettled_of_guarded
    (hdefs : defs.Each fun w => w.Guarded ∧ w.Throughout defs.Strict)
    (hv : v.Throughout defs.Strict) (x : Value) : defs.validate v x ≠ .unsettled := by
  apply validate_ne_unsettled
  intro hrun
  -- An unsettled run would leave a call path that is longer than the value is deep.
  have hknown : defs.Each (Validator.Throughout defs.Known) :=
    fun name w hw => (hdefs name w hw).2.mono fun _ => Strict.known
  obtain ⟨trace, hpath, hlength⟩ :=
    exists_path_of_unsettled hknown (hv.mono fun _ => Strict.known) hrun
  have hshort := (hpath.length_le hdefs hv).1
  -- The bound of the library is above the depth in any case.
  have hbound : x.depth + coercedSteps ≤ defs.unfoldings x :=
    Nat.le_mul_of_pos_left _ (Nat.succ_pos _)
  have hsteps : 0 < coercedSteps := by decide
  omega

theorem settles_of_guarded (hdefs : defs.Each fun w => w.Guarded ∧ w.Throughout defs.Strict)
    (hv : v.Throughout defs.Strict) (x : Value) : defs.Settles v x :=
  ⟨_, returns_validate (validate_ne_unsettled_of_guarded hdefs hv x)⟩

/-- Guarded recursion ends on every value. The definitions unfolded one inside the other are at
most as many as the value is nested, not counting a reference in front of which there is no guard
because the recursion starts with it. -/
theorem guarded_terminates (hdefs : defs.Each fun w => w.Guarded ∧ w.Throughout defs.Strict)
    (hv : v.Throughout defs.Strict) (x : Value) :
    defs.validate v x ≠ .unsettled ∧
      ∀ trace, defs.CallPath v x trace →
        trace.length ≤ x.depth + 1 ∧ (v.Guarded → trace.length ≤ x.depth) :=
  ⟨validate_ne_unsettled_of_guarded hdefs hv x, fun _ hpath => hpath.length_le hdefs hv⟩

theorem keyTrees_guarded : keyTrees.Each fun w => w.Guarded ∧ w.Throughout keyTrees.Strict := by
  refine each_of_mem ?_
  simp only [keyTrees, List.mem_singleton, forall_eq, Validator.checkedArray]
  constructor
  · refine .parts rfl ?_
    simp only [Validator.parts, List.forall_mem_cons]
    exact ⟨.parts rfl (by simp [Validator.parts]), .container rfl, by simp⟩
  · simp [Strict]

theorem keyTrees_terminate : keyTrees.validate (.arrayOf (.reference "Tree")) keyTree ≠ .unsettled ∧
    ∀ trace, keyTrees.CallPath (.arrayOf (.reference "Tree")) keyTree trace → trace.length ≤ 2 := by
  have hstrict : Validator.Throughout keyTrees.Strict (.arrayOf (.reference "Tree")) := by
    simp [Strict, keyTrees]
  obtain ⟨hsettled, hpaths⟩ := guarded_terminates keyTrees_guarded hstrict keyTree
  exact ⟨hsettled, fun trace hpath => (hpaths trace hpath).2 (.container rfl)⟩

/-! ## Recursion without a guard -/

/-- A definition that stands for itself. -/
def endless : Definitions := [("Endless", .reference "Endless")]

theorem endless_unsettled (bound : Nat) (x : Value) :
    endless.run bound (.reference "Endless") x = .unsettled := by
  induction bound with
  | zero => exact run_reference_zero ..
  | succ bound ih =>
    rw [run_reference_succ]
    exact ih

/-- Rejects all values but texts, and comes to no end on these. -/
def endlessText : Validator := .allOf .tuple [.ofType .string, .reference "Endless"]

/-- Objects with a property that is no text, provided that it comes before all texts. -/
def notAllEndless : Validator := .not (.checked (.dictionary (.ofType .value) endlessText))

/-- There is no end on an object if what comes first is a text. -/
theorem not_accepts_notAllEndless {o : Object} {key : PropertyKey} {keys : List PropertyKey}
    {s : String} (hkeys : o.ownKeys = key :: keys)
    (htext : (o.getOwn key).getD .undefined = .string s) :
    ¬ endless.Accepts notAllEndless (.object o) := by
  rintro ⟨y, -, bound, hrun⟩
  have hobject : endless.Returns (.ofType .object) (.object o) (.accepted (.object o)) :=
    ⟨by simp, 0, rfl⟩
  have hkey : endless.Accepts (.ofType .value) key.toValue := ⟨_, by simp, 0, rfl⟩
  have hstring : endless.Accepts (.ofType .string) (.string s) := ⟨_, by simp, 0, rfl⟩
  -- The calls lead to the definition that stands for itself, which no bound settles.
  have hreference : endless.Calls endlessText (.string s) (.reference "Endless") (.string s) :=
    @Calls.allOf _ _ [.ofType .string] [] _ _ (by simpa using hstring)
  have hentry : endless.Calls (.dictionary (.ofType .value) endlessText) (.object o) endlessText
      (.string s) := by
    rw [← htext]
    exact @Calls.entry _ _ _ _ [] _ _ hkeys (by simp) hkey
  have hdictionary := hentry.run_eq_unsettled
    (hreference.run_eq_unsettled (endless_unsettled bound _))
  have hnot := Calls.not.run_eq_unsettled ((Calls.second hobject).run_eq_unsettled hdictionary)
  cases hnot.symm.trans hrun

end Definitions

end Narrowing
