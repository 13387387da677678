import FlowSketch.Proofs.Cst.Declarators
import FlowSketch.Proofs.Cst.TreeSize
import FlowSketch.Proofs.Cst.Wrapping

/-!
# Comments

A comment has no part in the program, and almost nowhere does it matter to what is read. But whether
a node is a leaf is told from all that is named in it, comments included, and among the operands and
expressions of a node the leaves are passed over. So a node with nothing in it but comments is read
there, and without the comments it is not.

* `Cst.uncommented` — a tree without the comments below its root.
* `Cst.FieldlessComments` — no comment fills a field, as in every tree of the grammar.
* `Cst.isHollow`, `Cst.sieves` — nodes with nothing in them but comments, and nodes that pass over
  leaves.
* `Cst.ReadsHollow` — somewhere a node is read for its comments alone.

Results:

* `Cst.FieldlessComments.parts`: without comments a node has the same parts but for the hollow ones.
* `Cst.astFrom_uncommented`: a node has the same tree without comments, where nothing is read for
  its comments alone.
* `Cst.treeSize_uncommented`: elsewhere it has a smaller one.
* `Cst.comments_transparent_iff`: so comments change nothing exactly if nothing is read for them.
* `Cst.comments_seen_commentedPrototype`: in `int f(/* none */);` the parameters are.
-/

namespace FlowSketch.Cst

/-! ## Deleting comments -/

/-- A comment. -/
def isComment (n : Cst) : Bool := n.type == "comment"

mutual

/-- The tree without the comments below its root. -/
def uncommented : Cst → Cst
  | ⟨type, start, stop, row, column, field, named, missing, faulty, children⟩ =>
    ⟨type, start, stop, row, column, field, named, missing, faulty, uncommentedAll children⟩

/-- Several trees without their comments and without those among them that are comments. -/
def uncommentedAll : List Cst → List Cst
  | [] => []
  | c :: rest => if c.isComment then uncommentedAll rest else c.uncommented :: uncommentedAll rest

end

/-- No comment is known to its parent by a field name. -/
def FieldlessComments (n : Cst) : Prop :=
  ∀ m ∈ n.preorder, ∀ c ∈ m.children, c.isComment = true → c.field = none

/-- All that is named in the node are comments, of which there is at least one. -/
def isHollow (n : Cst) : Bool := !n.isLeaf && n.namedChildren.all isComment

/-- Reading the node passes over the leaves in it. -/
def sieves (n : Cst) : Bool :=
  match n.form with
  | .returnStmt | .declaration | .call | .operation | .other => true
  | .expressionStmt => n.content.length != 1
  | _ => false

/-- The part would be passed over but for its comments. -/
def isHollowIn (n c : Cst) : Bool := n.sieves && c.isHollow

/-- Somewhere a part is read that would be passed over but for its comments. -/
inductive ReadsHollow : Cst → Prop
  | here {n c : Cst} : c ∈ n.parts → n.isHollowIn c = true → ReadsHollow n
  | inside {n c : Cst} : c ∈ n.parts → ReadsHollow c → ReadsHollow n

variable {n c : Cst}

theorem uncommentedAll_eq (cs : List Cst) :
    uncommentedAll cs = (cs.filter (fun c => !c.isComment)).map uncommented := by
  induction cs with
  | nil => rfl
  | cons c cs ih => cases h : c.isComment <;> simp [uncommentedAll, h, ih]

/-- Nothing but the children changes. -/
theorem uncommented_eq (n : Cst) : n.uncommented =
    { n with children := (n.children.filter (fun c => !c.isComment)).map uncommented } := by
  cases n
  simp only [uncommented, uncommentedAll_eq]

@[simp] theorem type_uncommented (n : Cst) : n.uncommented.type = n.type := by
  rw [uncommented_eq]

@[simp] theorem start_uncommented (n : Cst) : n.uncommented.start = n.start := by
  rw [uncommented_eq]

@[simp] theorem stop_uncommented (n : Cst) : n.uncommented.stop = n.stop := by
  rw [uncommented_eq]

@[simp] theorem row_uncommented (n : Cst) : n.uncommented.row = n.row := by
  rw [uncommented_eq]

@[simp] theorem field_uncommented (n : Cst) : n.uncommented.field = n.field := by
  rw [uncommented_eq]

@[simp] theorem named_uncommented (n : Cst) : n.uncommented.named = n.named := by
  rw [uncommented_eq]

@[simp] theorem faulty_uncommented (n : Cst) : n.uncommented.faulty = n.faulty := by
  rw [uncommented_eq]

theorem children_uncommented (n : Cst) :
    n.uncommented.children = (n.children.filter (fun c => !c.isComment)).map uncommented := by
  rw [uncommented_eq]

@[simp] theorem form_uncommented (n : Cst) : n.uncommented.form = n.form := by
  rw [form, type_uncommented, form]

@[simp] theorem isStatement_uncommented (n : Cst) : n.uncommented.isStatement = n.isStatement := by
  rw [isStatement, form_uncommented, isStatement]

@[simp] theorem isSkipped_uncommented (n : Cst) : n.uncommented.isSkipped = n.isSkipped := by
  rw [isSkipped, type_uncommented, isSkipped]

@[simp] theorem isWrapper_uncommented (n : Cst) : n.uncommented.isWrapper = n.isWrapper := by
  rw [isWrapper, type_uncommented, isWrapper]

@[simp] theorem isIdentifier_uncommented (n : Cst) :
    n.uncommented.isIdentifier = n.isIdentifier := by
  rw [isIdentifier, type_uncommented, isIdentifier]

@[simp] theorem text_uncommented (bytes : List UInt8) (n : Cst) :
    n.uncommented.text bytes = n.text bytes := by
  rw [text, start_uncommented, stop_uncommented, text]

@[simp] theorem line_uncommented (n : Cst) : n.uncommented.line = n.line := by
  rw [line, row_uncommented, line]

/-! ## Children -/

theorem isSkipped_of_isComment (h : c.isComment = true) : c.isSkipped = true := by
  rw [isComment] at h
  rw [isSkipped, h, Bool.true_or]

theorem not_isIdentifier_of_isComment (h : c.isComment = true) : c.isIdentifier = false := by
  rw [isIdentifier, beq_iff_eq.1 h]
  decide

theorem namedChildren_uncommented (n : Cst) :
    n.uncommented.namedChildren =
      (n.namedChildren.filter (fun c => !c.isComment)).map uncommented := by
  rw [namedChildren, children_uncommented, List.filter_map, namedChildren, List.filter_filter,
    List.filter_filter]
  congr 1
  exact List.filter_congr fun c _ => by simp [Bool.and_comm]

theorem content_uncommented (n : Cst) : n.uncommented.content = n.content.map uncommented := by
  rw [content, namedChildren_uncommented, List.filter_map, content, List.filter_filter]
  congr 1
  refine List.filter_congr fun c _ => ?_
  show (!c.uncommented.isSkipped && !c.isComment) = !c.isSkipped
  rw [isSkipped_uncommented]
  cases h : c.isComment with
  | true => rw [isSkipped_of_isComment h]; rfl
  | false => simp

/-- A node becomes a leaf when its comments were all that it had. -/
theorem isLeaf_uncommented (n : Cst) : n.uncommented.isLeaf = (n.isLeaf || n.isHollow) := by
  have hall : n.uncommented.isLeaf = n.namedChildren.all isComment := by
    rw [isLeaf, namedChildren_uncommented, Bool.eq_iff_iff, List.isEmpty_iff, List.map_eq_nil_iff,
      List.filter_eq_nil_iff, List.all_eq_true]
    simp
  rw [hall, isHollow]
  cases hleaf : n.isLeaf with
  | true =>
    have hnone : n.namedChildren = [] := List.isEmpty_iff.1 hleaf
    rw [hnone]
    rfl
  | false => simp

theorem inner_uncommented (n : Cst) :
    n.uncommented.inner = (n.inner.filter (fun c => !c.isHollow)).map uncommented := by
  rw [inner, content_uncommented, List.filter_map, inner, List.filter_filter]
  congr 1
  refine List.filter_congr fun c _ => ?_
  show (!c.uncommented.isLeaf) = (!c.isHollow && !c.isLeaf)
  rw [isLeaf_uncommented, Bool.not_or, Bool.and_comm]

/-- What is sought among the children and is no comment is found as before. -/
theorem find?_uncommented {p : Cst → Bool} (hp : ∀ c : Cst, p c.uncommented = p c) {cs : List Cst}
    (h : ∀ c ∈ cs, c.isComment = true → p c = false) :
    ((cs.filter (fun c => !c.isComment)).map uncommented).find? p =
      (cs.find? p).map uncommented := by
  induction cs with
  | nil => rfl
  | cons c cs ih =>
    obtain ⟨hc, hcs⟩ := List.forall_mem_cons.1 h
    cases hcomment : c.isComment with
    | true =>
      rw [List.filter_cons_of_neg (by simp [hcomment]), ih hcs,
        List.find?_cons_of_neg (by simp [hc hcomment])]
    | false =>
      rw [List.filter_cons_of_pos (by simp [hcomment]), List.map_cons, List.find?_cons,
        List.find?_cons, hp, ih hcs]
      cases p c <;> rfl

theorem child?_uncommented (h : ∀ c ∈ n.children, c.isComment = true → c.field = none)
    (f : String) : n.uncommented.child? f = (n.child? f).map uncommented := by
  rw [child?, children_uncommented, child?]
  refine find?_uncommented (fun c => by rw [field_uncommented]) fun c hc hcomment => ?_
  rw [h c hc hcomment]
  rfl

/-! ## Conditions and names -/

theorem fieldlessComments_iff : n.FieldlessComments ↔
    (∀ c ∈ n.children, c.isComment = true → c.field = none) ∧
      ∀ c ∈ n.children, c.FieldlessComments :=
  forall_mem_preorder_iff

theorem FieldlessComments.child? (h : n.FieldlessComments) (f : String) :
    n.uncommented.child? f = (n.child? f).map uncommented :=
  child?_uncommented (fieldlessComments_iff.1 h).1 f

theorem FieldlessComments.wrapped? (h : n.FieldlessComments) :
    n.uncommented.wrapped? = n.wrapped?.map uncommented := by
  rw [Cst.wrapped?, h.child?, content_uncommented, List.getLast?_map, Cst.wrapped?]
  cases n.child? "value" <;> rfl

theorem FieldlessComments.unwrap (h : n.FieldlessComments) :
    n.uncommented.unwrap = n.unwrap.uncommented := by
  induction n using Cst.induction with
  | node n ih =>
    cases hwrapper : n.isWrapper with
    | false =>
      rw [unwrap_eq_self (by simp [hwrapper]), unwrap_eq_self (by simp [hwrapper])]
    | true =>
      cases hwrapped : n.wrapped? with
      | none =>
        rw [unwrap_eq_self (by simp [h.wrapped?, hwrapped]), unwrap_eq_self (by simp [hwrapped])]
      | some c =>
        have hc := mem_children_of_wrapped? hwrapped
        rw [unwrap_of_wrapped? (by simp [hwrapper]) (by rw [h.wrapped?, hwrapped]; rfl),
          unwrap_of_wrapped? hwrapper hwrapped, ih c hc ((fieldlessComments_iff.1 h).2 c hc)]

theorem FieldlessComments.of_child? (h : n.FieldlessComments) {f : String}
    (hc : n.child? f = some c) : c.FieldlessComments :=
  (fieldlessComments_iff.1 h).2 c (mem_children_of_child? hc)

theorem FieldlessComments.condition? (h : n.FieldlessComments) :
    n.uncommented.condition? = n.condition?.map uncommented := by
  rw [Cst.condition?, h.child?, Cst.condition?, Option.map_map, Option.map_map]
  refine Option.map_congr fun c hc => ?_
  exact (h.of_child? hc).unwrap

variable {bytes : List UInt8}

theorem strippedText_uncommented (n : Cst) :
    n.uncommented.strippedText bytes = n.strippedText bytes := by
  rw [strippedText, text_uncommented, strippedText]

theorem FieldlessComments.declaredName? (h : n.FieldlessComments) :
    n.uncommented.declaredName? bytes = n.declaredName? bytes := by
  induction n using Cst.induction with
  | node n ih =>
    rw [declaredName?_eq, declaredName?_eq, isIdentifier_uncommented, strippedText_uncommented]
    split_ifs
    · rfl
    · rw [h.child?]
      cases hc : n.child? "declarator" with
      | some inside => exact ih inside (mem_children_of_child? hc) (h.of_child? hc)
      | none =>
        -- a comment is not taken for a name
        show (n.uncommented.namedChildren.find? isIdentifier).map _ = _
        rw [namedChildren_uncommented, find?_uncommented isIdentifier_uncommented
          fun c _ => not_isIdentifier_of_isComment, Option.map_map]
        exact Option.map_congr fun c _ => strippedText_uncommented c

theorem FieldlessComments.functionName? (h : n.FieldlessComments) :
    n.uncommented.functionName? bytes = n.functionName? bytes := by
  rw [Cst.functionName?, h.child?, Cst.functionName?]
  cases hc : n.child? "declarator" with
  | none => rfl
  | some c => exact (h.of_child? hc).declaredName?

/-- The header of a loop reads the text up to the body, comments included. -/
theorem FieldlessComments.rangeHeader (h : n.FieldlessComments) :
    n.uncommented.rangeHeader bytes = n.rangeHeader bytes := by
  unfold Cst.rangeHeader
  rw [h.child?, start_uncommented, stop_uncommented]
  cases n.child? "body" with
  | none => rfl
  | some body => simp only [Option.map_some, start_uncommented]

/-! ## Parts -/

theorem fields_of_sieves (h : n.sieves = true) :
    n.form.fields = [] ∧ n.form.unwraps = false := by
  unfold sieves at h
  cases hf : n.form <;> simp_all [Form.fields, Form.unwraps]

/-- Where leaves are not passed over, nothing else is. -/
theorem filter_of_not_sieves (h : n.sieves = false) (cs : List Cst) :
    cs.filter (fun c => !n.isHollowIn c) = cs := by
  refine List.filter_eq_self.2 fun c _ => ?_
  rw [isHollowIn, h]
  rfl

theorem filter_of_sieves (h : n.sieves = true) (cs : List Cst) :
    cs.filter (fun c => !n.isHollowIn c) = cs.filter (fun c => !c.isHollow) := by
  refine List.filter_congr fun c _ => ?_
  rw [isHollowIn, h, Bool.true_and]

theorem FieldlessComments.operands (h : n.FieldlessComments) :
    n.uncommented.operands = (n.operands.filter (fun c => !c.isHollow)).map uncommented := by
  have hholders : n.uncommented.operandHolders = n.operandHolders.map uncommented := by
    rw [operandHolders, operandHolders, form_uncommented]
    split_ifs
    · rw [h.child?, h.child?]
      cases n.child? "function" <;> cases n.child? "arguments" <;> rfl
    · rfl
  rw [Cst.operands, hholders, List.flatMap_map, Cst.operands, List.filter_flatMap, List.map_flatMap]
  exact List.flatMap_congr fun holder _ => holder.inner_uncommented

theorem members_uncommented (n : Cst) : n.uncommented.members =
    (n.members.filter (fun c => !n.isHollowIn c)).map uncommented := by
  have hkept : n.sieves = false → ∀ cs : List Cst,
      (cs.filter (fun c => !n.isHollowIn c)).map uncommented = cs.map uncommented :=
    fun hs cs => by rw [filter_of_not_sieves hs]
  have hsieved : n.sieves = true → n.uncommented.inner =
      (n.inner.filter (fun c => !n.isHollowIn c)).map uncommented := fun hs => by
    rw [filter_of_sieves hs, inner_uncommented]
  by_cases hexpression : n.form = .expressionStmt
  · rw [members_expressionStmt (by rw [form_uncommented, hexpression]),
      members_expressionStmt hexpression, content_uncommented, List.length_map]
    split_ifs with hone
    · exact (hkept (by simp [sieves, hexpression, hone]) _).symm
    · exact hsieved (by simp [sieves, hexpression, hone])
  unfold members
  rw [form_uncommented]
  cases hf : n.form
  case block | elseClause =>
    rw [hkept (by rw [sieves, hf]), content_uncommented]
  case template =>
    rw [hkept (by rw [sieves, hf]), content_uncommented]
    simp only [List.filter_map, Function.comp_def, type_uncommented]
  case returnStmt | declaration | operation | other =>
    exact hsieved (by rw [sieves, hf])
  case expressionStmt => exact absurd hf hexpression
  all_goals simp

/-- The parts are the same without the hollow ones. -/
theorem FieldlessComments.parts (h : n.FieldlessComments) : n.uncommented.parts =
    (n.parts.filter (fun c => !n.isHollowIn c)).map uncommented := by
  have hfields : n.form.fields.filterMap n.uncommented.child? =
      ((n.form.fields.filterMap n.child?).filter (fun c => !n.isHollowIn c)).map uncommented := by
    cases hs : n.sieves with
    | true =>
      rw [(fields_of_sieves hs).1]
      rfl
    | false =>
      rw [filter_of_not_sieves hs, List.map_filterMap]
      exact List.filterMap_congr fun f _ => h.child? f
  have hcondition : (if n.form.unwraps then n.uncommented.condition?.toList else []) =
      ((if n.form.unwraps then n.condition?.toList else []).filter
        (fun c => !n.isHollowIn c)).map uncommented := by
    cases hs : n.sieves with
    | true =>
      rw [(fields_of_sieves hs).2]
      rfl
    | false =>
      rw [filter_of_not_sieves hs, h.condition?]
      cases n.form.unwraps <;> cases n.condition? <;> rfl
  have hoperands : (if n.form = .call then n.uncommented.operands else []) =
      ((if n.form = .call then n.operands else []).filter
        (fun c => !n.isHollowIn c)).map uncommented := by
    split_ifs with hcall
    · rw [filter_of_sieves (by rw [sieves, hcall]), h.operands]
    · rfl
  rw [Cst.parts, Cst.parts, form_uncommented, members_uncommented, hfields, hcondition, hoperands]
  simp only [List.filter_append, List.map_append]

/-! ## Trees -/

section

variable {visit : Cst → Except Failure Ast}

theorem visitAll_map (f : Cst → Cst) (cs : List Cst) :
    visitAll visit (cs.map f) = visitAll (fun c => visit (f c)) cs := by
  induction cs with
  | nil => rfl
  | cons c cs ih => rw [List.map_cons, visitAll, visitAll, ih]

theorem visitOption_map (f : Cst → Cst) (c? : Option Cst) :
    visitOption visit (c?.map f) = visitOption (fun c => visit (f c)) c? := by
  cases c? <;> rfl

theorem node_uncommented (n : Cst) (kind : Kind) (filled : Slots Ast) (others : List Ast)
    (name : Option String) :
    n.uncommented.node bytes kind filled others name = n.node bytes kind filled others name := by
  rw [node, text_uncommented, line_uncommented, node]

theorem FieldlessComments.part (h : n.FieldlessComments) (f : String) :
    part visit n.uncommented f = part (fun c => visit c.uncommented) n f := by
  rw [Cst.part, h.child?, visitOption_map, Cst.part]

theorem FieldlessComments.conditionPart (h : n.FieldlessComments) :
    conditionPart visit n.uncommented = conditionPart (fun c => visit c.uncommented) n := by
  rw [Cst.conditionPart, h.condition?, visitOption_map, Cst.conditionPart]

theorem statements_uncommented (n : Cst) :
    statements visit n.uncommented = statements (fun c => visit c.uncommented) n := by
  rw [statements, content_uncommented, visitAll_map, statements]

theorem expressions_uncommented (h : ∀ c ∈ n.inner, c.isHollow = false) :
    expressions visit n.uncommented = expressions (fun c => visit c.uncommented) n := by
  rw [expressions, inner_uncommented, visitAll_map, expressions,
    List.filter_eq_self.2 fun c hc => by rw [h c hc]; rfl]

/-- Where no part is read for its comments alone, a statement is made of the same parts. -/
theorem FieldlessComments.statement (h : n.FieldlessComments) (hs : n.isStatement = true)
    (hparts : ∀ c ∈ n.parts, n.isHollowIn c = false) :
    n.uncommented.statement bytes visit = n.statement bytes (fun c => visit c.uncommented) := by
  have hinner : n.sieves = true → n.members = n.inner →
      expressions visit n.uncommented = expressions (fun c => visit c.uncommented) n := by
    intro hsieves hmembers
    refine expressions_uncommented fun c hc => ?_
    have hc := hparts c (mem_parts_iff.2 (.inl (hmembers ▸ hc)))
    rwa [isHollowIn, hsieves, Bool.true_and] at hc
  unfold isStatement at hs
  unfold Cst.statement
  rw [form_uncommented]
  cases hf : n.form
  case block | elseClause => simp only [statements_uncommented, node_uncommented]
  case template =>
    simp only [content_uncommented, List.filter_map, Function.comp_def, type_uncommented,
      visitAll_map, node_uncommented]
  case scope => simp only [h.part, node_uncommented]
  case function => simp only [h.part, h.functionName?, node_uncommented]
  case ifStmt => simp only [h.conditionPart, h.part, node_uncommented]
  case forLoop => simp only [h.part, node_uncommented]
  case rangeLoop => simp only [h.part, h.rangeHeader, line_uncommented, node_uncommented]
  case whileLoop | doLoop | switchStmt =>
    simp only [conditional, h.conditionPart, h.part, node_uncommented]
  case returnStmt | declaration =>
    simp only [hinner (by rw [sieves, hf]) (by rw [members, hf]), node_uncommented]
  case expressionStmt =>
    show expressionStmt bytes visit n.uncommented = expressionStmt bytes _ n
    by_cases hone : n.content.length = 1
    · obtain ⟨single, hsingle⟩ := List.length_eq_one_iff.1 hone
      have hbare : n.uncommented.content = [single.uncommented] := by
        rw [content_uncommented, hsingle]
        rfl
      simp only [expressionStmt_of_content hsingle, expressionStmt_of_content hbare,
        node_uncommented]
    · have hexpressions := hinner (by simp [sieves, hf, hone])
        (by rw [members_expressionStmt hf, if_neg hone])
      have hbare : n.uncommented.content.length ≠ 1 := by
        rwa [content_uncommented, List.length_map]
      simp only [expressionStmt_of_length_ne hone, expressionStmt_of_length_ne hbare, hexpressions,
        node_uncommented]
  case call | operation | other =>
    rw [hf] at hs
    exact absurd hs (by decide)

theorem expressionNode_uncommented (h : n.FieldlessComments) (trees : List Ast) :
    n.uncommented.expressionNode bytes trees = n.expressionNode bytes trees := by
  unfold expressionNode
  rw [form_uncommented, text_uncommented, line_uncommented, h.child?, Option.map_map]
  simp only [Function.comp_def, text_uncommented]

end

theorem forall_mem_preorder_child {P : Cst → Prop} (h : ∀ m ∈ n.preorder, P m)
    (hc : c ∈ n.children) : ∀ m ∈ c.preorder, P m :=
  (forall_mem_preorder_iff.1 h).2 c hc

theorem forall_mem_preorder_unwrap {P : Cst → Prop} (h : ∀ m ∈ n.preorder, P m) :
    ∀ m ∈ n.unwrap.preorder, P m := by
  fun_induction unwrap n with
  | case1 n _ inside hinside ih =>
    exact ih (forall_mem_preorder_child h (mem_children_of_wrapped? hinside))
  | case2 => exact h
  | case3 => exact h

/-- What holds of all nodes of a tree holds of those of a part. -/
theorem forall_mem_preorder_part {P : Cst → Prop} (h : ∀ m ∈ n.preorder, P m)
    (hc : c ∈ n.parts) : ∀ m ∈ c.preorder, P m := by
  rcases mem_parts_iff.1 hc with hc | ⟨f, -, hc⟩ | ⟨-, hc⟩ | ⟨-, hc⟩
  · exact forall_mem_preorder_child h (mem_children_of_mem_content (mem_content_of_mem_members hc))
  · exact forall_mem_preorder_child h (mem_children_of_child? hc)
  · obtain ⟨wrapped, hwrapped, rfl⟩ := Option.map_eq_some_iff.1 hc
    exact forall_mem_preorder_unwrap
      (forall_mem_preorder_child h (mem_children_of_child? hwrapped))
  · exact forall_mem_preorder_operand h hc

theorem FieldlessComments.of_mem_parts (h : n.FieldlessComments) (hc : c ∈ n.parts) :
    c.FieldlessComments :=
  forall_mem_preorder_part h hc

theorem level_uncommented (depth : Nat) (n c : Cst) :
    n.uncommented.level depth c.uncommented = n.level depth c := by
  rw [level, isStatement_uncommented, isStatement_uncommented, level]

theorem sieves_of_not_isStatement (hs : n.isStatement = false) : n.sieves = true := by
  unfold isStatement at hs
  unfold sieves
  cases hf : n.form <;> simp_all [Form.isStatement]

/-- Where nothing is read for its comments alone, a node has the same tree without them. -/
theorem astFrom_uncommented (bytes : List UInt8) (limit : Int) (depth : Nat)
    (h : n.FieldlessComments) (hhollow : ¬n.ReadsHollow) :
    n.uncommented.astFrom bytes limit depth = n.astFrom bytes limit depth := by
  induction hsize : n.size using Nat.strongRecOn generalizing n depth with
  | ind size ih =>
    have hkept : ∀ c ∈ n.parts, n.isHollowIn c = false := fun c hc => by
      by_contra hin
      exact hhollow (.here hc (by simpa using hin))
    have hparts : ∀ c ∈ n.parts, ∀ depth,
        c.uncommented.astFrom bytes limit depth = c.astFrom bytes limit depth := fun c hc depth =>
      ih c.size (hsize ▸ size_lt_of_mem_parts c hc) depth (h.of_mem_parts hc)
        (fun hin => hhollow (.inside hc hin)) rfl
    cases hs : n.isStatement with
    | true =>
      rw [astFrom_of_isStatement bytes limit depth (by simp [hs]),
        astFrom_of_isStatement bytes limit depth hs, h.statement hs hkept]
      split_ifs
      · rfl
      · exact statement_congr hs fun c hc => hparts c hc (depth + 1)
    | false =>
      rw [parts_of_not_isStatement hs] at hkept hparts
      have hoperands : n.uncommented.operands = n.operands.map uncommented := by
        rw [h.operands, ← filter_of_sieves (sieves_of_not_isStatement hs),
          List.filter_eq_self.2 fun c hc => by rw [hkept c hc]; rfl]
      rw [astFrom_operands (by simp [hs]), astFrom_operands hs, hoperands, visitAll_map]
      simp only [level_uncommented, expressionNode_uncommented h]
      rw [visitAll_congr fun c hc => hparts c hc (n.level depth c)]

/-! ## How large trees get without comments -/

theorem ownSize_uncommented (n : Cst) : n.uncommented.ownSize = n.ownSize := by
  rw [ownSize, form_uncommented, content_uncommented, List.length_map, ownSize]

theorem not_readsHollow_iff : ¬n.ReadsHollow ↔
    ∀ c ∈ n.parts, n.isHollowIn c = false ∧ ¬c.ReadsHollow := by
  constructor
  · intro h c hc
    refine ⟨?_, fun hin => h (.inside hc hin)⟩
    by_contra hin
    exact h (.here hc (by simpa using hin))
  · rintro h (⟨hc, hin⟩ | ⟨hc, hin⟩)
    · rw [(h _ hc).1] at hin
      exact absurd hin (by decide)
    · exact (h _ hc).2 hin

/-- Without comments a tree gets no larger, and it gets smaller exactly if something is read for its
    comments alone. -/
theorem treeSize_uncommented (h : n.FieldlessComments) :
    n.uncommented.treeSize ≤ n.treeSize ∧
      (n.uncommented.treeSize = n.treeSize ↔ ¬n.ReadsHollow) := by
  induction hsize : n.size using Nat.strongRecOn generalizing n with
  | ind size ih =>
    have hparts : ∀ c ∈ n.parts, c.uncommented.treeSize ≤ c.treeSize ∧
        (c.uncommented.treeSize = c.treeSize ↔ ¬c.ReadsHollow) := fun c hc =>
      ih c.size (hsize ▸ size_lt_of_mem_parts c hc) (h.of_mem_parts hc) rfl
    obtain ⟨hle, hiff⟩ := @sum_filter_le Cst (fun c => !n.isHollowIn c)
      (fun c => c.uncommented.treeSize) treeSize n.parts fun c hc => (hparts c hc).1
    rw [treeSize_eq n.uncommented, treeSize_eq n, h.parts, List.map_map, ownSize_uncommented]
    refine ⟨Nat.add_le_add_left hle _, ?_⟩
    rw [Nat.add_left_cancel_iff, not_readsHollow_iff]
    refine hiff.trans (forall₂_congr fun c hc => ?_)
    have hpos := c.treeSize_pos
    cases hin : n.isHollowIn c with
    | true => simp [hpos.ne']
    | false => simp [(hparts c hc).2]

/-! ## Sources -/

/-- Comments in a source without faults change nothing of what is read, under any limit, exactly if
    nothing is read for its comments alone. -/
theorem comments_transparent_iff {grammar : String → Cst} {source : String}
    (hfaulty : (grammar source).faulty = false) (hfields : (grammar source).FieldlessComments) :
    ((∀ limit, (parse (fun s => (grammar s).uncommented) limit source).outcome =
        (parse grammar limit source).outcome) ↔
      Text.blankOnly source = true ∨ ¬(grammar source).ReadsHollow) ∧
    ∀ limit tree, (parse grammar limit source).outcome = .ok tree →
      ((parse (fun s => (grammar s).uncommented) limit source).outcome = .ok tree ↔
        ¬(grammar source).ReadsHollow) := by
  have hbare : ∀ limit, (parse (fun s => (grammar s).uncommented) limit source).outcome =
      if Text.blankOnly source then .error .noSource
      else (grammar source).uncommented.astFrom (Utf8.encode source) limit 0 := fun limit =>
    outcome_parse (by rw [faulty_uncommented, hfaulty])
  have hequal : ¬(grammar source).ReadsHollow → ∀ limit,
      (parse (fun s => (grammar s).uncommented) limit source).outcome =
        (parse grammar limit source).outcome := fun hhollow limit => by
    rw [hbare, outcome_parse hfaulty, astFrom_uncommented _ limit 0 hfields hhollow]
  have hread : ∀ limit tree, (parse grammar limit source).outcome = .ok tree →
      ((parse (fun s => (grammar s).uncommented) limit source).outcome = .ok tree ↔
        ¬(grammar source).ReadsHollow) := by
    intro limit tree htree
    refine ⟨fun hsame => ?_, fun hhollow => by rw [hequal hhollow limit, htree]⟩
    rw [outcome_parse hfaulty] at htree
    rw [hbare] at hsame
    split_ifs at htree hsame
    exact (treeSize_uncommented hfields).2.1
      ((length_preorder_astFrom hsame).symm.trans (length_preorder_astFrom htree))
  refine ⟨⟨fun hall => ?_, ?_⟩, hread⟩
  · cases hblank : Text.blankOnly source with
    | true => exact .inl rfl
    | false =>
      -- there is a limit under which the source is read
      have hfits : (grammar source).Fits (grammar source).size 0 := fits_of_size (by simp)
      obtain ⟨tree, htree⟩ := (succeeds_parse_iff hfaulty).2 ⟨hblank, hfits⟩
      exact .inr ((hread _ tree htree).1 ((hall _).trans htree))
  · rintro (hblank | hhollow) limit
    · rw [hbare, outcome_parse hfaulty, if_pos hblank, if_pos hblank]
    · exact hequal hhollow limit

/-- The negation `-x` in `{ f(1 /* a */, -x); /* b */ }`. -/
def negation : Cst where
  type := "unary_expression"
  start := 15
  stop := 17
  row := 0
  column := 15
  children := [leafAt "identifier" 16 17 "argument"]

/-- The call in `{ f(1 /* a */, -x); /* b */ }`, with the semicolon behind it. -/
def commentedCall : Cst where
  type := "expression_statement"
  start := 2
  stop := 19
  row := 0
  column := 2
  children := [
    { type := "call_expression", start := 2, stop := 18, row := 0, column := 2
      children := [leafAt "identifier" 2 3 "function",
        { type := "argument_list", start := 3, stop := 18, row := 0, column := 3
          field := some "arguments"
          children := [leafAt "number_literal" 4 5, leafAt "comment" 6 13, negation] }] }]

/-- The block `{ f(1 /* a */, -x); /* b */ }`. -/
def commentedBlock : Cst where
  type := "compound_statement"
  start := 0
  stop := 29
  row := 0
  column := 0
  children := [commentedCall, leafAt "comment" 20 27]

theorem not_readsHollow_commentedBlock : ¬commentedBlock.ReadsHollow := by
  have hnegation : ¬negation.ReadsHollow := by
    rw [not_readsHollow_iff, show negation.parts = [] from rfl]
    exact List.forall_mem_nil _
  have hcall : ∀ c ∈ commentedCall.children, ¬c.ReadsHollow := by
    intro c hc
    obtain rfl := List.mem_singleton.1 hc
    rw [not_readsHollow_iff]
    exact List.forall_mem_singleton.2 ⟨rfl, hnegation⟩
  have hstatement : ¬commentedCall.ReadsHollow := by
    rw [not_readsHollow_iff]
    exact List.forall_mem_singleton.2 ⟨rfl, hcall _ (List.mem_singleton_self _)⟩
  rw [not_readsHollow_iff]
  exact List.forall_mem_singleton.2 ⟨rfl, hstatement⟩

/-- Comments between the arguments of a call and behind a statement change nothing. -/
theorem comments_transparent_commentedBlock :
    commentedBlock.faulty = false ∧ commentedBlock.FieldlessComments ∧ ∃ tree,
      (parse (fun _ => commentedBlock) 10 "\x7b f(1 /* a */, -x); /* b */ \x7d").outcome =
        .ok tree ∧
      (parse (fun _ => commentedBlock.uncommented) 10
        "\x7b f(1 /* a */, -x); /* b */ \x7d").outcome = .ok tree := by
  have hfields : commentedBlock.FieldlessComments := by
    unfold FieldlessComments
    decide
  have hfits : commentedBlock.Fits 10 0 := fits_of_size (by decide)
  obtain ⟨tree, htree⟩ : Succeeds (parse (fun _ => commentedBlock) 10
      "\x7b f(1 /* a */, -x); /* b */ \x7d").outcome :=
    (succeeds_parse_iff rfl).2 ⟨by decide, hfits⟩
  obtain ⟨-, hread⟩ := @comments_transparent_iff (fun _ => commentedBlock)
    "\x7b f(1 /* a */, -x); /* b */ \x7d" rfl hfields
  exact ⟨rfl, hfields, tree, htree, (hread 10 tree htree).2 not_readsHollow_commentedBlock⟩

/-- The declaration `int f(/* none */);` in a source of its own. -/
def commentedPrototype : Cst where
  type := "translation_unit"
  start := 0
  stop := 18
  row := 0
  column := 0
  children := [
    { type := "declaration", start := 0, stop := 18, row := 0, column := 0
      children := [leafAt "primitive_type" 0 3,
        { type := "function_declarator", start := 4, stop := 17, row := 0, column := 4
          field := some "declarator"
          children := [leafAt "identifier" 4 5 "declarator",
            { type := "parameter_list", start := 5, stop := 17, row := 0, column := 5
              children := [leafAt "comment" 6 16] }] }] }]

/-- The texts of all nodes that become of a source, if it is read. -/
def textsRead (root : Cst) (limit : Int) (source : String) : Option (List String) :=
  (parse (fun _ => root) limit source).outcome.toOption.map fun tree => tree.preorder.map (·.text)

/-- The parameters are read for the comment between their parentheses, and without it they are
    passed over. -/
theorem comments_seen_commentedPrototype :
    commentedPrototype.faulty = false ∧ commentedPrototype.FieldlessComments ∧
      commentedPrototype.textsRead 10 "int f(/* none */);" =
        some ["int f(/* none */);", "int f(/* none */);", "f(/* none */)", "(/* none */)"] ∧
      commentedPrototype.uncommented.textsRead 10 "int f(/* none */);" =
        some ["int f(/* none */);", "int f(/* none */);", "f(/* none */)"] := by
  refine ⟨rfl, by unfold FieldlessComments; decide, ?_, ?_⟩
  · decide +kernel
  · decide +kernel

end FlowSketch.Cst
