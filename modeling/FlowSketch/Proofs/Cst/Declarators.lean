import FlowSketch.Cst.Name
import Mathlib.Data.List.Chain

/-!
# Chains of declarators

From the declarator of a function definition a chain leads to the name: a declarator holds the next
one in its `declarator` field, or, as references and parentheses do, without a field as its only
named child. The search for the name takes a child without a field for the last of the chain, so
that the name is found exactly if no declarator but the last leads on without the field.

* `Cst.LeadsOn` — a declarator and the next one.
* `Cst.IsDeclaratorChain` — the declarators of a function definition down to its name.

Results:

* `Cst.declaredName?_eq`: one step of the search.
* `Cst.declaredName?_of_chain`: what the search finds at the end of a chain.
* `Cst.name_found_iff`: the name is found exactly if all declarators but the last lead on by the
  field, and else the function has no name.
* `Cst.name_lost_referenceFunction`: a function that returns a reference has no name.
-/

namespace FlowSketch.Cst

/-- A declarator leads on to the child of its field, or without one to its only named child. -/
def LeadsOn (d next : Cst) : Prop :=
  d.child? "declarator" = some next ∨
    (d.child? "declarator" = none ∧ d.namedChildren = [next])

/-- The declarators of a function definition down to its name, which is the first node of the chain
    that names something. -/
structure IsDeclaratorChain (n : Cst) (declarators : List Cst) (name : Cst) : Prop where
  begins : n.child? "declarator" = (declarators ++ [name]).head?
  leads : (declarators ++ [name]).IsChain LeadsOn
  unnamed : ∀ d ∈ declarators, d.isIdentifier = false
  ends : name.isIdentifier = true

/-- All declarators but the last hold the next one in the field. -/
def LeadsByField (declarators : List Cst) : Prop :=
  ∀ d ∈ declarators.dropLast, (d.child? "declarator").isSome

variable (bytes : List UInt8)

theorem declaredName?_eq (d : Cst) : declaredName? bytes d =
    if d.isIdentifier then some (d.strippedText bytes)
    else
      match d.child? "declarator" with
      | some inside => declaredName? bytes inside
      | none => (d.namedChildren.find? isIdentifier).map (strippedText bytes) := by
  rw [declaredName?]
  split_ifs
  · rfl
  · cases d.child? "declarator" <;> rfl

/-- What the search finds from the first node of a chain. The induction is on the declarators in
    front of the name, and asks of each but the last that it leads on by the field. -/
theorem declaredName?_of_chain {declarators : List Cst} {first name : Cst}
    (hfirst : (declarators ++ [name]).head? = some first)
    (hleads : (declarators ++ [name]).IsChain LeadsOn)
    (hunnamed : ∀ d ∈ declarators, d.isIdentifier = false) (hname : name.isIdentifier = true) :
    (LeadsByField declarators → declaredName? bytes first = some (name.strippedText bytes)) ∧
      (¬LeadsByField declarators → declaredName? bytes first = none) := by
  induction declarators generalizing first with
  | nil =>
    obtain rfl : name = first := Option.some.inj hfirst
    rw [declaredName?_eq, if_pos hname]
    exact ⟨fun _ => rfl, fun h => absurd (by simp [LeadsByField]) h⟩
  | cons d declarators ih =>
    obtain rfl : d = first := Option.some.inj hfirst
    rw [List.forall_mem_cons] at hunnamed
    obtain ⟨next, hnext⟩ : ∃ next, (declarators ++ [name]).head? = some next := by
      cases declarators <;> exact ⟨_, rfl⟩
    rw [List.cons_append, List.isChain_cons] at hleads
    have ih := ih hnext hleads.2 hunnamed.2
    rw [declaredName?_eq, hunnamed.1, if_neg Bool.false_ne_true]
    rcases hleads.1 next hnext with hfield | ⟨hnone, honly⟩
    · -- the field decides nothing about the nodes behind it
      have hiff : LeadsByField (d :: declarators) ↔ LeadsByField declarators := by
        cases declarators with
        | nil => simp [LeadsByField]
        | cons e declarators => simp [LeadsByField, hfield]
      rw [hiff, hfield]
      exact ih
    · rw [hnone, honly]
      cases declarators with
      | nil =>
        obtain rfl : name = next := Option.some.inj hnext
        refine ⟨fun _ => ?_, fun h => absurd (by simp [LeadsByField]) h⟩
        simp [hname]
      | cons e declarators =>
        obtain rfl : e = next := Option.some.inj hnext
        rw [List.forall_mem_cons] at hunnamed
        refine ⟨fun h => ?_, fun _ => ?_⟩
        · have := h d (by simp)
          rw [hnone] at this
          contradiction
        · simp [hunnamed.2.1]

/-- A function definition has the name at the end of its chain of declarators, without blanks at the
    ends, exactly if every declarator but the last holds the next one in its field, and else it has
    no name. -/
theorem name_found_iff {n name : Cst} {declarators : List Cst}
    (h : n.IsDeclaratorChain declarators name) :
    (n.functionName? bytes = some (name.strippedText bytes) ↔ LeadsByField declarators) ∧
      (n.functionName? bytes = none ↔ ¬LeadsByField declarators) := by
  obtain ⟨first, hfirst⟩ : ∃ first, (declarators ++ [name]).head? = some first := by
    cases declarators <;> exact ⟨_, rfl⟩
  obtain ⟨hfound, hlost⟩ := declaredName?_of_chain bytes hfirst h.leads h.unnamed h.ends
  have hname : n.functionName? bytes = declaredName? bytes first := by
    rw [functionName?, h.begins, hfirst, Option.bind_some]
  rw [hname]
  by_cases hfield : LeadsByField declarators
  · simp [hfound hfield, hfield]
  · simp [hlost hfield, hfield]

/-! ## Functions that return pointers and references -/

/-- A node without children on the first line of a source. -/
def leafAt (type : String) (start stop : Nat) (field : Option String := none) : Cst where
  type := type
  start := start
  stop := stop
  row := 0
  column := start
  field := field

/-- The definition of a function that returns an `int`, with its declarator and its body. -/
def definitionOf (declarator body : Cst) : Cst where
  type := "function_definition"
  start := 0
  stop := body.stop
  row := 0
  column := 0
  children := [leafAt "primitive_type" 0 3, declarator, body]

/-- The definition `int *(f)() {}`. -/
def pointerFunction : Cst :=
  definitionOf
    { leafAt "pointer_declarator" 4 10 "declarator" with
      children := [
        { leafAt "function_declarator" 5 10 "declarator" with
          children := [
            { leafAt "parenthesized_declarator" 5 8 "declarator" with
              children := [leafAt "identifier" 6 7] },
            leafAt "parameter_list" 8 10] }] }
    (leafAt "compound_statement" 11 13 "body")

/-- The definition `int &f() { return x; }`. -/
def referenceFunction : Cst :=
  definitionOf
    { leafAt "reference_declarator" 4 8 "declarator" with
      children := [
        { leafAt "function_declarator" 5 8 with
          children := [
            leafAt "identifier" 5 6 "declarator",
            leafAt "parameter_list" 6 8] }] }
    { leafAt "compound_statement" 9 22 "body" with
      children := [
        { leafAt "return_statement" 11 20 with children := [leafAt "identifier" 18 19] }] }

/-- Parentheses lead on without the field, and are the last declarator: the name is found. -/
theorem name_found_pointerFunction :
    ∃ declarators name, pointerFunction.IsDeclaratorChain declarators name ∧
      declarators.length = 3 ∧
      pointerFunction.functionName? (Utf8.encode "int *(f)() \x7b\x7d") = some "f" := by
  let name := leafAt "identifier" 6 7
  let inner : Cst :=
    { leafAt "parenthesized_declarator" 5 8 "declarator" with children := [name] }
  let middle : Cst :=
    { leafAt "function_declarator" 5 10 "declarator" with
      children := [inner, leafAt "parameter_list" 8 10] }
  let outer : Cst := { leafAt "pointer_declarator" 4 10 "declarator" with children := [middle] }
  have hchain : pointerFunction.IsDeclaratorChain [outer, middle, inner] name :=
    { begins := rfl
      leads := .cons_cons (.inl rfl) (.cons_cons (.inl rfl) (.cons_cons (.inr ⟨rfl, rfl⟩)
        (.singleton name)))
      unnamed := by decide
      ends := rfl }
  refine ⟨_, name, hchain, rfl, ?_⟩
  rw [(name_found_iff _ hchain).1.2 (by unfold LeadsByField; decide)]
  decide

/-- A reference leads on to the declarator of the function without the field: the chain goes on to
    the name `f`, and the search stops before it. -/
theorem name_lost_referenceFunction :
    referenceFunction.form = .function ∧
    ∃ declarators name, referenceFunction.IsDeclaratorChain declarators name ∧
      name.strippedText (Utf8.encode "int &f() \x7b return x; \x7d") = "f" ∧
      referenceFunction.functionName? (Utf8.encode "int &f() \x7b return x; \x7d") = none := by
  let name := leafAt "identifier" 5 6 "declarator"
  let inner : Cst :=
    { leafAt "function_declarator" 5 8 with children := [name, leafAt "parameter_list" 6 8] }
  let outer : Cst := { leafAt "reference_declarator" 4 8 "declarator" with children := [inner] }
  have hchain : referenceFunction.IsDeclaratorChain [outer, inner] name :=
    { begins := rfl
      leads := .cons_cons (.inr ⟨rfl, rfl⟩) (.cons_cons (.inl rfl) (.singleton name))
      unnamed := by decide
      ends := rfl }
  refine ⟨rfl, _, name, hchain, by decide, ?_⟩
  rw [functionName?, hchain.begins]
  exact (declaredName?_of_chain _ rfl hchain.leads hchain.unnamed hchain.ends).2
    (by unfold LeadsByField; decide)

end FlowSketch.Cst
