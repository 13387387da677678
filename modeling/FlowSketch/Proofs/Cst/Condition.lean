import FlowSketch.Proofs.Cst.Places

/-!
# Conditions in wrappers

A condition may stand in any number of clauses and parentheses, with comments beside it in each of
them. Reading takes them away one after the other, on the same level all the time, so the statement
is read as if its condition stood there bare. What the parent calls a node changes when a wrapper is
put around it; but a name of a field is only looked at from above, and no node is read differently
for its own.

* `Cst.withField` — a node as another parent knows it.
* `Cst.Encloses` — a node with so many wrappers around it.
* `Cst.withCondition` — a statement with another node in the place of its condition.

Results:

* `Cst.astFrom_withField`: the tree of a node does not depend on the field that it fills.
* `Cst.unwrap_of_encloses`, `Cst.encloses_unwrap`: wrappers hold what is left without them, and
  every node is what is left with some wrappers around it.
* `Cst.statement_withCondition`: a statement reads the same with its condition in wrappers.
* `Cst.wrappers_transparent`: the condition of a statement, whatever its wrappers.
-/

namespace FlowSketch.Cst

/-- The node as another parent knows it. -/
def withField (n : Cst) (field : Option String) : Cst := { n with field }

/-- A node with so many wrappers around it, one in the other. Each has the next one as its value
    or, where it has no value, as the last of its named children that is not skipped. What field the
    node fills is for its parent to say. -/
inductive Encloses (c : Cst) : Nat → Cst → Prop
  | bare (field : Option String) : Encloses c 0 (c.withField field)
  | value {k : Nat} {v w : Cst} : Encloses c k v → w.isWrapper = true →
    w.child? "value" = some v → Encloses c (k + 1) w
  | last {k : Nat} {v w : Cst} {before after : List Cst} : Encloses c k v → w.isWrapper = true →
    w.child? "value" = none → w.namedChildren = before ++ v :: after → v.isSkipped = false →
    (∀ s ∈ after, s.isSkipped = true) → Encloses c (k + 1) w

/-- The statement with another node in the place of its condition. -/
def withCondition (n w : Cst) : Cst :=
  n.replaceAt [n.children.findIdx (·.field == some "condition")] (w.withField (some "condition"))

variable {n c v w : Cst} {k : Nat}

/-! ## Names of fields -/

theorem operands_withField (n : Cst) (field : Option String) :
    (n.withField field).operands = n.operands := by
  have hform : (n.withField field).form = n.form := rfl
  rw [operands, operandHolders, operands, operandHolders, hform]
  split <;> rfl

/-- The tree of a node does not depend on the field that it fills. -/
theorem astFrom_withField (bytes : List UInt8) (limit : Int) (depth : Nat) (n : Cst)
    (field : Option String) :
    (n.withField field).astFrom bytes limit depth = n.astFrom bytes limit depth := by
  have hs' : (n.withField field).isStatement = n.isStatement := rfl
  cases hs : n.isStatement with
  | true =>
    rw [astFrom_of_isStatement bytes limit depth (hs'.trans hs),
      astFrom_of_isStatement bytes limit depth hs]
    rfl
  | false =>
    rw [astFrom_operands (hs'.trans hs), operands_withField, astFrom_operands hs]
    rfl

/-! ## One wrapper -/

/-- The last of the children with a part in the program, told by all named children. -/
theorem getLast?_content_eq_some_iff : w.content.getLast? = some v ↔
    ∃ before after, w.namedChildren = before ++ v :: after ∧ v.isSkipped = false ∧
      ∀ s ∈ after, s.isSkipped = true := by
  constructor
  · intro h
    obtain ⟨front, hfront⟩ := List.getLast?_eq_some_iff.1 h
    obtain ⟨first, second, hchildren, -, hsecond⟩ := List.filter_eq_append_iff.1 hfront
    obtain ⟨before, after, rfl, -, hv, hafter⟩ := List.filter_eq_cons_iff.1 hsecond
    refine ⟨first ++ before, after, by rw [hchildren, List.append_assoc], by simpa using hv, ?_⟩
    simpa using List.filter_eq_nil_iff.1 hafter
  · rintro ⟨before, after, hchildren, hv, hafter⟩
    have hnone : after.filter (fun s => !s.isSkipped) = [] :=
      List.filter_eq_nil_iff.2 (by simpa using hafter)
    rw [content, hchildren, List.filter_append, List.filter_cons_of_pos (by simp [hv]), hnone,
      List.getLast?_concat]

theorem wrapped?_of_value (h : w.child? "value" = some v) : w.wrapped? = some v := by
  rw [wrapped?, h]
  rfl

theorem wrapped?_of_no_value (h : w.child? "value" = none) :
    w.wrapped? = w.content.getLast? := by
  rw [wrapped?, h]
  rfl

/-- A wrapper holds nothing when it has neither a value nor a child with a part in the program. -/
theorem wrapped?_eq_none_iff : w.wrapped? = none ↔
    w.child? "value" = none ∧ ∀ d ∈ w.namedChildren, d.isSkipped = true := by
  have hlast : w.content.getLast? = none ↔ ∀ d ∈ w.namedChildren, d.isSkipped = true := by
    rw [List.getLast?_eq_none_iff, content, List.filter_eq_nil_iff]
    simp
  rw [← hlast, wrapped?]
  cases w.child? "value" <;> simp

/-! ## All wrappers -/

theorem unwrap_withField (n : Cst) (field other : Option String) :
    (n.withField field).unwrap.withField other = n.unwrap.withField other := by
  by_cases h : n.isWrapper = true → n.wrapped? = none
  · rw [unwrap_eq_self h, unwrap_eq_self (n := n.withField field) h]
    rfl
  · obtain ⟨hwrapper, hsome⟩ := Classical.not_imp.1 h
    obtain ⟨inside, hinside⟩ := Option.ne_none_iff_exists'.1 hsome
    rw [unwrap_of_wrapped? hwrapper hinside,
      unwrap_of_wrapped? (n := n.withField field) hwrapper hinside]

/-- Wrappers hold what is left without them, but for the field that it fills. -/
theorem unwrap_of_encloses (h : Encloses c k w) (other : Option String) :
    w.unwrap.withField other = c.unwrap.withField other := by
  induction h with
  | bare field => exact unwrap_withField c field other
  | value _ hwrapper hvalue ih => rwa [unwrap_of_wrapped? hwrapper (wrapped?_of_value hvalue)]
  | last _ hwrapper hvalue hchildren hv hafter ih =>
    have hlast := getLast?_content_eq_some_iff.2 ⟨_, _, hchildren, hv, hafter⟩
    rwa [unwrap_of_wrapped? hwrapper ((wrapped?_of_no_value hvalue).trans hlast)]

theorem encloses_self (n : Cst) : Encloses n 0 n := by
  have h := Encloses.bare (c := n) n.field
  cases n
  exact h

/-- Every node is what is left without its wrappers, with these around it. -/
theorem encloses_unwrap (n : Cst) : ∃ k, Encloses n.unwrap k n := by
  fun_induction unwrap n with
  | case1 n hwrapper inside hinside ih =>
    obtain ⟨k, hk⟩ := ih
    refine ⟨k + 1, ?_⟩
    cases hvalue : n.child? "value" with
    | some v =>
      obtain rfl : v = inside := Option.some.inj ((wrapped?_of_value hvalue).symm.trans hinside)
      exact hk.value hwrapper hvalue
    | none =>
      obtain ⟨before, after, hchildren, hv, hafter⟩ :=
        getLast?_content_eq_some_iff.1 ((wrapped?_of_no_value hvalue).symm.trans hinside)
      exact hk.last hwrapper hvalue hchildren hv hafter
  | case2 n _ _ => exact ⟨0, encloses_self n⟩
  | case3 n _ => exact ⟨0, encloses_self n⟩

/-- A wrapper that is left holds nothing. -/
theorem wrapped?_unwrap (h : n.unwrap.isWrapper = true) : n.unwrap.wrapped? = none := by
  fun_induction unwrap n with
  | case1 n _ inside _ ih => exact ih h
  | case2 n _ hnone => exact hnone
  | case3 n hn => exact absurd h hn

/-! ## Statements with a condition -/

/-- Only the condition changes, which is the first child of its field. -/
theorem children_withCondition (hc : n.child? "condition" = some c) (w : Cst) :
    ∃ before after, n.children = before ++ c :: after ∧
      (∀ d ∈ before, d.field ≠ some "condition") ∧
      (n.withCondition w).children = before ++ w.withField (some "condition") :: after := by
  obtain ⟨hfound, before, after, hchildren, hbefore⟩ := List.find?_eq_some_iff_append.1 hc
  have hindex : n.children.findIdx (·.field == some "condition") = before.length := by
    have hnone : before.findIdx (·.field == some "condition") = before.length :=
      List.findIdx_eq_length_of_false (by simpa using hbefore)
    rw [hchildren, List.findIdx_append, hnone, if_neg (Nat.lt_irrefl _), List.findIdx_cons, hfound]
    simp
  refine ⟨before, after, hchildren, by simpa using hbefore, ?_⟩
  rw [withCondition, hindex, replaceAt_cons (c := c) (by simp [hchildren])]
  simp [hchildren, replaceAt]

theorem child?_withCondition (hc : n.child? "condition" = some c) (w : Cst) :
    (n.withCondition w).child? "condition" = some (w.withField (some "condition")) := by
  obtain ⟨before, after, -, hbefore, hnew⟩ := children_withCondition hc w
  rw [child?, hnew, List.find?_append, List.find?_eq_none.2 (by simpa using hbefore)]
  simp [withField]

theorem child?_withCondition_of_ne (hc : n.child? "condition" = some c) (w : Cst) {f : String}
    (hf : f ≠ "condition") : (n.withCondition w).child? f = n.child? f := by
  obtain ⟨before, after, hold, -, hnew⟩ := children_withCondition hc w
  have hfield := field_of_child? hc
  rw [child?, hnew, child?, hold, List.find?_append, List.find?_append,
    List.find?_cons_of_neg (by simpa [withField] using hf.symm),
    List.find?_cons_of_neg (by simpa [hfield] using hf.symm)]

theorem condition?_withCondition (hc : n.child? "condition" = some c) (w : Cst) :
    (n.withCondition w).condition? = some (w.withField (some "condition")).unwrap := by
  rw [condition?, child?_withCondition hc, Option.map_some]

section

variable {bytes : List UInt8} {visit : Cst → Except Failure Ast}
  (hvisit : ∀ n field, visit (n.withField field) = visit n)
include hvisit

theorem conditionPart_withCondition (hc : n.child? "condition" = some c) (hw : Encloses c k w) :
    conditionPart visit (n.withCondition w) = conditionPart visit n := by
  have hunwrap : (w.withField (some "condition")).unwrap.withField none =
      c.unwrap.withField none := by
    rw [unwrap_withField, unwrap_of_encloses hw]
  have hinside : visit (w.withField (some "condition")).unwrap = visit c.unwrap := by
    rw [← hvisit _ none, hunwrap, hvisit]
  rw [conditionPart, condition?_withCondition hc, conditionPart, condition?, hc, Option.map_some,
    visitOption, visitOption, hinside]

/-- A statement reads the same with its condition in wrappers. -/
theorem statement_withCondition (hun : n.form.unwraps = true) (hc : n.child? "condition" = some c)
    (hw : Encloses c k w) :
    (n.withCondition w).statement bytes visit = n.statement bytes visit := by
  have hform : (n.withCondition w).form = n.form := rfl
  have hcondition := conditionPart_withCondition hvisit hc hw
  have hpart : ∀ f, f ≠ "condition" → part visit (n.withCondition w) f = part visit n f := by
    intro f hf
    rw [part, child?_withCondition_of_ne hc w hf, part]
  unfold statement
  rw [hform]
  cases hf : n.form <;> simp only [hf, Form.unwraps, Bool.false_eq_true] at hun
  case ifStmt =>
    simp only [hcondition, hpart "consequence" (by decide), hpart "alternative" (by decide)]
    rfl
  case whileLoop | doLoop | switchStmt =>
    simp only [conditional, hcondition, hpart "body" (by decide)]
    rfl

end

/-- Let an `if`, a `while` or `do` loop or a `switch` have its condition in any number of wrappers.
    The node that is read for it is what these hold, and a wrapper only if it holds nothing. The
    tree of the condition or the failure, and with it that of the statement, is what it is without
    the wrappers, at every depth and under every limit. -/
theorem wrappers_transparent (hun : n.form.unwraps = true) (hc : n.child? "condition" = some c)
    (hw : Encloses c k w) (bytes : List UInt8) (limit : Int) (depth : Nat) :
    (∃ inside, (n.withCondition w).condition? = some inside ∧
      (∃ j, Encloses inside j (w.withField (some "condition"))) ∧
      (inside.isWrapper = true →
        inside.child? "value" = none ∧ ∀ d ∈ inside.namedChildren, d.isSkipped = true) ∧
      conditionPart (astFrom bytes limit depth) (n.withCondition w) =
        (inside.astFrom bytes limit depth).map some) ∧
    conditionPart (astFrom bytes limit depth) (n.withCondition w) =
      conditionPart (astFrom bytes limit depth) n ∧
    (n.withCondition w).astFrom bytes limit depth = n.astFrom bytes limit depth := by
  have hvisit := fun depth => astFrom_withField bytes limit depth
  have hinside := condition?_withCondition hc w
  refine ⟨⟨_, hinside, encloses_unwrap _, fun h => wrapped?_eq_none_iff.1 (wrapped?_unwrap h), ?_⟩,
    conditionPart_withCondition (hvisit depth) hc hw, ?_⟩
  · rw [conditionPart, hinside, visitOption]
    cases (w.withField (some "condition")).unwrap.astFrom bytes limit depth <;> rfl
  · have hs := (form_of_unwraps hun).1
    have hs' : (n.withCondition w).isStatement = true := hs
    rw [astFrom_of_isStatement bytes limit depth hs', astFrom_of_isStatement bytes limit depth hs,
      statement_withCondition (hvisit (depth + 1)) hun hc hw]

/-- The declaration in `if ((/* a */ int i = 1 /* b */)) {}`. -/
def initialisedInteger : Cst where
  type := "declaration"
  start := 13
  stop := 22
  row := 0
  column := 13
  field := some "condition"

/-- The braces behind it. -/
def emptyConsequence : Cst where
  type := "compound_statement"
  start := 33
  stop := 35
  row := 0
  column := 33
  field := some "consequence"

/-- The statement with its declaration and nothing around it. -/
def declaringIf : Cst where
  type := "if_statement"
  start := 0
  stop := 35
  row := 0
  column := 0
  children := [initialisedInteger, emptyConsequence]

/-- A comment from a column up to another. -/
def commentBetween (start stop : Nat) : Cst :=
  { type := "comment", start, stop, row := 0, column := start }

/-- The parentheses with the comments beside the declaration. -/
def commentedParentheses : Cst where
  type := "parenthesized_expression"
  start := 4
  stop := 31
  row := 0
  column := 4
  field := some "value"
  children := [commentBetween 5 12, initialisedInteger.withField none, commentBetween 23 30]

/-- The clause around them. -/
def commentedClause : Cst where
  type := "condition_clause"
  start := 3
  stop := 32
  row := 0
  column := 3
  children :=
    [{ type := "(", start := 3, stop := 4, row := 0, column := 3, named := false },
     commentedParentheses]

/-- A declaration in two wrappers with comments is read on its own level, and it is too deep where
    it would be without them. -/
theorem wrappers_transparent_declaringIf :
    let bytes := Utf8.encode "if ((/* a */ int i = 1 /* b */)) \x7b\x7d"
    let wrapped := declaringIf.withCondition commentedClause
    (∃ tree, conditionPart (astFrom bytes 1 1) wrapped = .ok (some tree) ∧
      tree.text = "int i = 1") ∧
    conditionPart (astFrom bytes 0 1) wrapped = .error (.tooDeep 1 0) ∧
    ∃ tree, wrapped.astFrom bytes 1 0 = .ok tree ∧ declaringIf.astFrom bytes 1 0 = .ok tree := by
  intro bytes wrapped
  have hparentheses : Encloses initialisedInteger 1 commentedParentheses := by
    have hchildren : commentedParentheses.namedChildren =
        [commentBetween 5 12] ++ initialisedInteger.withField none :: [commentBetween 23 30] := rfl
    have hafter : ∀ s ∈ [commentBetween 23 30], s.isSkipped = true := by
      simp [commentBetween, isSkipped]
    exact .last (.bare none) rfl rfl hchildren rfl hafter
  have hclause : Encloses initialisedInteger 2 commentedClause := hparentheses.value rfl rfl
  have hif := wrappers_transparent (n := declaringIf) rfl rfl hclause bytes
  have hcondition : declaringIf.condition? = some initialisedInteger := by
    have hchild : declaringIf.child? "condition" = some initialisedInteger := rfl
    rw [condition?, hchild, Option.map_some, unwrap_eq_self (by decide)]
  refine ⟨?_, ?_, ?_⟩
  · rw [(hif 1 1).2.1, conditionPart, hcondition, visitOption, astFrom_of_isStatement _ _ _ rfl,
      if_neg (by decide)]
    exact ⟨_, rfl, by decide +kernel⟩
  · rw [(hif 0 1).2.1, conditionPart, hcondition, visitOption, astFrom_of_isStatement _ _ _ rfl,
      if_pos (by decide)]
    rfl
  · have hparts : declaringIf.parts = [emptyConsequence, initialisedInteger] := by
      rw [parts, hcondition]
      rfl
    have hleaf : ∀ c : Cst, c.parts = [] → c.Fits 1 1 := fun c hc =>
      fits_iff.2 ⟨fun _ => by decide, by simp [hc]⟩
    have hfits : declaringIf.Fits 1 0 := by
      rw [fits_iff, hparts, List.forall_mem_cons, List.forall_mem_singleton]
      exact ⟨fun _ => by decide, hleaf _ rfl, hleaf _ rfl⟩
    obtain ⟨tree, htree⟩ := succeeds_astFrom_iff.2 hfits
    exact ⟨tree, (hif 1 0).2.2.trans htree, htree⟩

end FlowSketch.Cst
