-- SUMMARY: Hierarchies of classes: identity by number, the subclass order, and instances along prototypes.
import Mathlib.Logic.Relation
import Mathlib.Order.Preorder.Chain
import Narrowing.Proofs.Characters

/-!
# The order of classes

Classes are defined one after the other, each with the next number and some of them as extensions
of one that is there (`Class.Hierarchy`). The number is what tells a class from all others; its name
may be one that others have.

A class stands below those whose lineage is the end of its own (`Class.isSubclassOf_iff`). So
classes are ordered, and those above one class form a chain. Instances go with this order and with
prototypes (`Definitions.hierarchy_ordered`).
-/

namespace Narrowing

/-! ## Lineages -/

namespace Class

variable {c d e : Class} {classes later : List Class}

theorem lineage_eq (c : Class) : c.lineage = c :: (c.parent?.map lineage).getD [] := by
  cases c <;> rfl

theorem eq_of_lineage (h : c.lineage = d.lineage) : c = d := by
  rw [lineage_eq c, lineage_eq d] at h
  exact (List.cons.inj h).1

/-- The lineage of a class goes on with that of each class in it. -/
theorem suffix_of_mem_lineage (h : d ∈ c.lineage) : d.lineage <:+ c.lineage := by
  induction c with
  | root number name =>
    obtain rfl : d = .root number name := by simpa [lineage] using h
    exact List.suffix_rfl
  | derived number name parent ih =>
    rcases List.mem_cons.1 h with rfl | hparent
    · exact List.suffix_rfl
    · exact (ih hparent).trans (List.suffix_cons _ _)

theorem isSubclassOf_iff : c.isSubclassOf d = true ↔ d.lineage <:+ c.lineage := by
  unfold isSubclassOf
  rw [List.contains_iff_mem]
  exact ⟨suffix_of_mem_lineage, fun h => h.subset d.mem_lineage_self⟩

theorem isSubclassOf_refl (c : Class) : c.isSubclassOf c = true :=
  isSubclassOf_iff.2 List.suffix_rfl

theorem isSubclassOf_trans (h : c.isSubclassOf d = true) (h' : d.isSubclassOf e = true) :
    c.isSubclassOf e = true := by
  rw [isSubclassOf_iff] at *
  exact h'.trans h

theorem isSubclassOf_antisymm (h : c.isSubclassOf d = true) (h' : d.isSubclassOf c = true) :
    c = d := by
  rw [isSubclassOf_iff] at *
  exact eq_of_lineage (h'.sublist.antisymm h.sublist)

theorem isSubclassOf_total (h : c.isSubclassOf d = true) (h' : c.isSubclassOf e = true) :
    d.isSubclassOf e = true ∨ e.isSubclassOf d = true := by
  rw [isSubclassOf_iff] at *
  rw [isSubclassOf_iff]
  exact (List.suffix_or_suffix_of_suffix h h').symm

/-! ## Classes defined one after the other -/

/-- The number of a class in the order of creation. -/
def number : Class → Nat
  | .root number _ => number
  | .derived number _ _ => number

/-- One class more is defined, by itself or as one that extends a class that is there. -/
inductive Defines : List Class → List Class → Prop
  | root (classes : List Class) (name : String) :
      Defines classes (classes ++ [.root classes.length name])
  | derived {classes : List Class} {parent : Class} (name : String) (h : parent ∈ classes) :
      Defines classes (classes ++ [.derived classes.length name parent])

/-- Classes that were defined one after the other. -/
def Hierarchy (classes : List Class) : Prop :=
  Relation.ReflTransGen Defines [] classes

/-- Each class has the number of its place, and with a class are those above it. -/
structure Numbered (classes : List Class) : Prop where
  number_eq : ∀ (i : Nat) (c : Class), classes[i]? = some c → c.number = i
  lineage_subset : ∀ c ∈ classes, c.lineage ⊆ classes

namespace Numbered

theorem nil : Numbered [] where
  number_eq _ _ h := by cases h
  lineage_subset _ h := by cases h

/-- A class with the next number may be added if those above it are there. -/
theorem concat (h : Numbered classes) (hnumber : c.number = classes.length)
    (habove : ∀ d ∈ c.lineage, d = c ∨ d ∈ classes) : Numbered (classes ++ [c]) where
  number_eq := by
    intro i d hi
    rcases Nat.lt_trichotomy i classes.length with hlt | rfl | hgt
    · rw [List.getElem?_append_left hlt] at hi
      exact h.number_eq i d hi
    · rw [List.getElem?_concat_length] at hi
      cases hi
      exact hnumber
    · have hlength := (List.getElem?_eq_some_iff.1 hi).1
      simp only [List.length_append, List.length_singleton] at hlength
      omega
  lineage_subset := by
    intro d hd a ha
    rw [List.mem_append, List.mem_singleton] at hd ⊢
    rcases hd with hd | rfl
    · exact .inl (h.lineage_subset d hd ha)
    · exact (habove a ha).symm

theorem defines (h : Numbered classes) (hstep : Defines classes later) : Numbered later := by
  cases hstep with
  | root name =>
    apply h.concat rfl
    intro d hd
    exact .inl (List.mem_singleton.1 hd)
  | derived name hparent =>
    apply h.concat rfl
    intro d hd
    rcases List.mem_cons.1 hd with rfl | hd
    · exact .inl rfl
    · exact .inr (h.lineage_subset _ hparent hd)

theorem of_hierarchy (h : Hierarchy classes) : Numbered classes := by
  induction h with
  | refl => exact nil
  | tail _ hstep ih => exact ih.defines hstep

theorem eq_iff (h : Numbered classes) (hc : c ∈ classes) (hd : d ∈ classes) :
    c = d ↔ c.number = d.number := by
  refine ⟨fun heq => heq ▸ rfl, fun heq => ?_⟩
  obtain ⟨i, hi⟩ := List.mem_iff_getElem?.1 hc
  obtain ⟨j, hj⟩ := List.mem_iff_getElem?.1 hd
  obtain rfl : i = j := (h.number_eq i c hi).symm.trans (heq.trans (h.number_eq j d hj))
  exact Option.some.inj (hi.symm.trans hj)

/-- Looking for the number of a class on the way up is looking for the class. -/
theorem isSubclassOf_iff (h : Numbered classes) (hc : c ∈ classes) (hd : d ∈ classes) :
    c.isSubclassOf d = true ↔ d.number ∈ c.lineage.map number := by
  unfold isSubclassOf
  rw [List.contains_iff_mem, List.mem_map]
  constructor
  · exact fun hmem => ⟨d, hmem, rfl⟩
  · rintro ⟨a, ha, hnumber⟩
    exact (h.eq_iff (h.lineage_subset c hc ha) hd).2 hnumber ▸ ha

end Numbered

end Class

/-! ## Instances -/

namespace Definitions

variable {defs : Definitions} {o p : Object} {c d : Class}

theorem accepts_instanceOf_iff :
    defs.Accepts (.leaf (.instanceOf c)) (.object o) ↔
      ∃ q ∈ o.chain, ∃ d, q.classOf = some d ∧ d.isSubclassOf c = true := by
  simp [accepts_leaf_iff, Leaf.judge, Value.object?, Object.instanceOf, Option.any_eq_true]

/-- An object is an instance of the class that it has. -/
theorem accepts_instanceOf_of_classOf (h : o.classOf = some c) :
    defs.Accepts (.leaf (.instanceOf c)) (.object o) :=
  accepts_instanceOf_iff.2 ⟨o, o.mem_chain_self, c, h, Class.isSubclassOf_refl c⟩

theorem accepts_instanceOf_of_isSubclassOf (h : d.isSubclassOf c = true)
    (ho : defs.Accepts (.leaf (.instanceOf d)) (.object o)) :
    defs.Accepts (.leaf (.instanceOf c)) (.object o) := by
  rw [accepts_instanceOf_iff] at ho ⊢
  obtain ⟨q, hq, e, he, hsub⟩ := ho
  exact ⟨q, hq, e, he, Class.isSubclassOf_trans hsub h⟩

theorem accepts_instanceOf_of_prototype (h : o.prototype = some p)
    (hp : defs.Accepts (.leaf (.instanceOf c)) (.object p)) :
    defs.Accepts (.leaf (.instanceOf c)) (.object o) := by
  rw [accepts_instanceOf_iff] at hp ⊢
  obtain ⟨q, hq, hclass⟩ := hp
  refine ⟨q, ?_, hclass⟩
  rw [Object.chain_eq, h]
  exact List.mem_cons_of_mem o hq

/-- Classes that were defined one after the other are told apart by their numbers, and the test for
a subclass looks at nothing else. It is a partial order of them, in which those above a class form a
chain. An instance of a class is one of those above it, and so is all that has it for a
prototype. -/
theorem hierarchy_ordered {classes : List Class} (h : Class.Hierarchy classes) :
    (∀ c ∈ classes, ∀ d ∈ classes, (c = d ↔ c.number = d.number) ∧
      (c.isSubclassOf d = true ↔ d.number ∈ c.lineage.map Class.number)) ∧
    IsPartialOrder {c // c ∈ classes} (fun c d => c.1.isSubclassOf d.1 = true) ∧
    (∀ c ∈ classes, c.lineage ⊆ classes ∧
      IsChain (fun a b => a.isSubclassOf b = true) {a | c.isSubclassOf a = true}) ∧
    ∀ (defs : Definitions) (o : Object), ∀ c ∈ classes,
      (∀ d ∈ classes, d.isSubclassOf c = true →
        defs.Accepts (.leaf (.instanceOf d)) (.object o) →
          defs.Accepts (.leaf (.instanceOf c)) (.object o)) ∧
      ∀ p, o.prototype = some p → defs.Accepts (.leaf (.instanceOf c)) (.object p) →
        defs.Accepts (.leaf (.instanceOf c)) (.object o) := by
  have hnumbered := Class.Numbered.of_hierarchy h
  refine ⟨fun c hc d hd => ⟨hnumbered.eq_iff hc hd, hnumbered.isSubclassOf_iff hc hd⟩, ?_, ?_, ?_⟩
  · exact
      { refl := fun c => Class.isSubclassOf_refl c.1
        trans := fun _ _ _ => Class.isSubclassOf_trans
        antisymm := fun _ _ hcd hdc => Subtype.ext (Class.isSubclassOf_antisymm hcd hdc) }
  · intro c hc
    refine ⟨hnumbered.lineage_subset c hc, ?_⟩
    intro a ha b hb _
    exact Class.isSubclassOf_total ha hb
  · intro defs o c _
    exact ⟨fun d _ => accepts_instanceOf_of_isSubclassOf,
      fun p => accepts_instanceOf_of_prototype⟩

/-- Two classes of one name, and one that extends the second of them and has their name as well. -/
def namesakes : List Class :=
  [.root 0 "A", .root 1 "A", .derived 2 "A" (.root 1 "A")]

theorem namesakes_hierarchy : Class.Hierarchy namesakes :=
  ((Relation.ReflTransGen.single (.root [] "A")).tail (.root _ "A")).tail
    (.derived "A" (by simp))

/-- An object whose prototype is of the last of these classes is an instance of the class that it
extends, and not of the other one. -/
theorem namesakes_ordered :
    let p : Object := .mk (.made [0]) .ordinary [] none (some (.derived 2 "A" (.root 1 "A")))
    let o : Object := .mk (.made []) .ordinary [] (some p) none
    Class.Hierarchy namesakes ∧
      Class.number (.root 0 "A") ≠ Class.number (.root 1 "A") ∧
      Accepts [] (.leaf (.instanceOf (.root 1 "A"))) (.object o) ∧
      ¬ Accepts [] (.leaf (.instanceOf (.root 0 "A"))) (.object o) := by
  intro p o
  obtain ⟨htold, -, -, hinstances⟩ := hierarchy_ordered namesakes_hierarchy
  have hfirst : .root 0 "A" ∈ namesakes := by simp [namesakes]
  have hsecond : .root 1 "A" ∈ namesakes := by simp [namesakes]
  refine ⟨namesakes_hierarchy, ?_, ?_, ?_⟩
  · intro hnumber
    have hsame := (htold _ hfirst _ hsecond).1.2 hnumber
    cases hsame
  · -- The prototype is an instance of its own class, so of the one above, and then the object is.
    apply (hinstances [] o _ hsecond).2 p rfl
    exact (hinstances [] p _ hsecond).1 _ (by simp [namesakes]) (by decide)
      (accepts_instanceOf_of_classOf rfl)
  · rw [accepts_instanceOf_iff]
    simp [o, p, Object.chain, Class.isSubclassOf, Class.lineage]

end Definitions

end Narrowing
