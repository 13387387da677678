import FlowSketch.Proofs.Cst.Failing

/-!
# The sides of a branch

A tree can hold a branch whose two sides are one and the same child. A source gives no such tree:
the parts of a statement are laid out one behind the other, each in its own place.

* `Ast.SidesApart` — no branch has the same child on both sides.
* `Cst.Yields` — whenever there is a result, it is as it should be.

Results:

* `Ast.sidesApart_ofParts`: a node made from parts keeps its sides apart.
* `Cst.yields_statement`, `Cst.yields_expression`: so does what is read from nodes that do.
* `Cst.sidesApart_of_parse`: the tree of a source has its sides apart.
-/

namespace FlowSketch

/-- The body is laid out before the `else`, in another place. -/
theorem Slots.positions_ne {α : Type} (slots : Slots α) {i : Nat}
    (hbody : slots.positions.body = some i) : slots.positions.elseBranch ≠ some i := by
  intro helse
  obtain ⟨a, ha, hbefore⟩ := Option.map_eq_some_iff.1 hbody
  obtain ⟨b, -, hbeyond⟩ := Option.map_eq_some_iff.1 helse
  have hplaces : Slot.all.takeWhile (· ≠ .elseBranch) = Slot.all.takeWhile (· ≠ .body) ++ [.body] :=
    rfl
  rw [hplaces, List.filterMap_append, List.length_append, hbefore] at hbeyond
  simp [ha] at hbeyond

/-- What holds of the contents of all slots. -/
theorem Slots.forall_mem_toList {α : Type} {slots : Slots α} {P : α → Prop} :
    (∀ a ∈ slots.toList, P a) ↔ (∀ a ∈ slots.init, P a) ∧ (∀ a ∈ slots.condition, P a) ∧
      (∀ a ∈ slots.increment, P a) ∧ (∀ a ∈ slots.body, P a) ∧ ∀ a ∈ slots.elseBranch, P a := by
  simp only [Slots.mem_toList, Option.mem_def]
  constructor
  · intro h
    exact ⟨fun a ha => h a ⟨.init, ha⟩, fun a ha => h a ⟨.condition, ha⟩,
      fun a ha => h a ⟨.increment, ha⟩, fun a ha => h a ⟨.body, ha⟩,
      fun a ha => h a ⟨.elseBranch, ha⟩⟩
  · rintro ⟨hinit, hcondition, hincrement, hbody, helse⟩ a ⟨slot, ha⟩
    cases slot with
    | init => exact hinit a ha
    | condition => exact hcondition a ha
    | increment => exact hincrement a ha
    | body => exact hbody a ha
    | elseBranch => exact helse a ha

namespace Ast

variable {n m : Ast}

/-- No branch of the tree has the same child on both sides. -/
def SidesApart (root : Ast) : Prop :=
  ∀ n ∈ root.preorder, n.kind = .ifStmt → ∀ i < n.children.length,
    n.slots.body = some i → n.slots.elseBranch ≠ some i

/-- What holds of all nodes of a tree holds of the root and of all nodes below its children. -/
theorem forall_mem_preorder_iff {P : Ast → Prop} :
    (∀ m ∈ n.preorder, P m) ↔ P n ∧ ∀ c ∈ n.children, ∀ m ∈ c.preorder, P m := by
  rw [preorder_eq, preorderAll_eq_flatMap, List.forall_mem_cons, List.forall_mem_flatMap]

theorem SidesApart.child (h : n.SidesApart) (hm : m ∈ n.children) : m.SidesApart :=
  (forall_mem_preorder_iff.1 h).2 m hm

theorem sidesApart_of_children (hslots : ∀ i, n.slots.body = some i → n.slots.elseBranch ≠ some i)
    (h : ∀ m ∈ n.children, m.SidesApart) : n.SidesApart :=
  forall_mem_preorder_iff.2 ⟨fun _ i _ => hslots i, h⟩

/-- A node made from parts keeps its sides apart. -/
theorem sidesApart_ofParts (kind : Kind) (text : String) (line : Int) (name : Option String)
    {filled : Slots Ast} {others : List Ast} (hfilled : ∀ m ∈ filled.toList, m.SidesApart)
    (hothers : ∀ m ∈ others, m.SidesApart) :
    (ofParts kind text line name filled others).SidesApart :=
  sidesApart_of_children (fun _ hbody helse => filled.positions_ne hbody helse) fun m hm =>
    (List.mem_append.1 hm).elim (hfilled m) (hothers m)

end Ast

namespace Cst

/-- Whenever there is a result, it is as it should be. -/
def Yields {α : Type} (P : α → Prop) (x : Except Failure α) : Prop := ∀ a, x = .ok a → P a

section

variable {α β : Type} {P : α → Prop} {Q : β → Prop}

theorem Yields.ok {a : α} (h : P a) : Yields P (.ok a) := by
  intro b hb
  cases hb
  exact h

theorem Yields.error (failure : Failure) : Yields P (.error failure) :=
  fun _ h => absurd h (by simp)

theorem Yields.bind {x : Except Failure α} {f : α → Except Failure β} (hx : Yields P x)
    (hf : ∀ a, P a → Yields Q (f a)) : Yields Q (x >>= f) := by
  intro b hb
  obtain ⟨a, ha, hb⟩ := bind_eq_ok_iff.1 hb
  exact hf a (hx a ha) b hb

end

section

variable {P : Ast → Prop} {visit : Cst → Except Failure Ast} {bytes : List UInt8}

theorem yields_visitAll {cs : List Cst} (h : ∀ c ∈ cs, Yields P (visit c)) :
    Yields (fun trees => ∀ m ∈ trees, P m) (visitAll visit cs) := by
  induction cs with
  | nil => exact .ok (by simp)
  | cons c cs ih =>
    refine (h c List.mem_cons_self).bind fun tree htree => ?_
    refine (ih fun d hd => h d (List.mem_cons_of_mem c hd)).bind fun trees htrees => .ok ?_
    exact List.forall_mem_cons.2 ⟨htree, htrees⟩

theorem yields_visitOption (hv : ∀ c, Yields P (visit c)) (c? : Option Cst) :
    Yields (fun tree? => ∀ m ∈ tree?, P m) (visitOption visit c?) := by
  cases c? with
  | none => exact .ok (by simp)
  | some c => exact (hv c).bind fun tree htree => .ok (by simpa using htree)

/-- The tree of a statement has its sides apart if the trees in it have. -/
theorem yields_statement (hv : ∀ c, Yields Ast.SidesApart (visit c)) (n : Cst) :
    Yields Ast.SidesApart (n.statement bytes visit) := by
  have hall : ∀ cs, Yields (fun trees => ∀ m ∈ trees, m.SidesApart) (visitAll visit cs) :=
    fun _ => yields_visitAll fun c _ => hv c
  have hoption := yields_visitOption hv
  have hnode : ∀ {kind : Kind} {filled : Slots Ast} {others : List Ast} {name : Option String},
      (∀ m ∈ filled.toList, m.SidesApart) → (∀ m ∈ others, m.SidesApart) →
        Yields Ast.SidesApart (.ok (n.node bytes kind filled others name)) :=
    fun hfilled hothers => .ok (Ast.sidesApart_ofParts _ _ _ _ hfilled hothers)
  have hnone : ∀ m ∈ ({} : Slots Ast).toList, m.SidesApart := by simp [Slots.forall_mem_toList]
  unfold statement
  cases n.form with
  | block | template | returnStmt | declaration =>
    exact (hall _).bind fun trees htrees => hnode hnone htrees
  | scope =>
    exact (hoption _).bind fun body hbody => hnode hnone (by simpa using hbody)
  | function =>
    refine (hoption _).bind fun body hbody => hnode ?_ (by simp)
    simpa [Slots.forall_mem_toList] using hbody
  | elseClause =>
    refine (hall _).bind fun trees htrees => hnode ?_ fun m hm => htrees m (List.mem_of_mem_tail hm)
    simpa [Slots.forall_mem_toList] using fun m hm => htrees m (List.mem_of_mem_head? hm)
  | rangeLoop =>
    refine (hoption _).bind fun right hright => (hoption _).bind fun body hbody =>
      hnode ?_ (by simpa using hright)
    have hcondition : ∀ text, Ast.SidesApart { kind := .other, text, line := n.line } :=
      fun _ => Ast.sidesApart_of_children (by simp) (by simp)
    simpa [Slots.forall_mem_toList, hcondition] using hbody
  | whileLoop | doLoop | switchStmt =>
    refine (hoption _).bind fun condition hcondition => (hoption _).bind fun body hbody =>
      hnode ?_ (by simp)
    simpa [Slots.forall_mem_toList] using ⟨hcondition, hbody⟩
  | ifStmt =>
    refine (hoption _).bind fun condition hcondition => (hoption _).bind fun body hbody =>
      (hoption _).bind fun elseBranch helse => hnode ?_ (by simp)
    simpa [Slots.forall_mem_toList] using ⟨hcondition, hbody, helse⟩
  | forLoop =>
    refine (hoption _).bind fun init hinit => (hoption _).bind fun condition hcondition =>
      (hoption _).bind fun increment hincrement => (hoption _).bind fun body hbody =>
        hnode ?_ (by simp)
    simpa [Slots.forall_mem_toList] using ⟨hinit, hcondition, hincrement, hbody⟩
  | expressionStmt | call | operation | other =>
    simp only [expressionStmt]
    split
    · exact (hv _).bind fun tree htree => hnode hnone fun m hm => htree.child hm
    · exact (hall _).bind fun trees htrees => hnode hnone htrees

/-- The tree of an expression has its sides apart if those of the statements in it have. -/
theorem yields_expression (hv : ∀ c, Yields Ast.SidesApart (visit c)) (n : Cst) :
    Yields Ast.SidesApart (n.expression bytes visit) := by
  rw [expression_eq_exprTree]
  induction hsize : n.size using Nat.strongRecOn generalizing n with
  | ind size ih =>
    cases hs : n.isStatement with
    | true =>
      rw [exprTree, if_pos hs]
      exact hv n
    | false =>
      rw [exprTree_of_not_isStatement bytes visit hs]
      refine Yields.bind (yields_visitAll (P := Ast.SidesApart) fun c hc => ?_)
        fun operands hoperands => .ok ?_
      · have := size_le_sizeAll hc
        have := sizeAll_operands_lt n
        exact ih c.size (by omega) c rfl
      · unfold expressionNode
        cases n.form <;> exact Ast.sidesApart_of_children (by simp) hoperands

end

/-- The tree of a concrete tree has its sides apart. -/
theorem yields_astAt (bytes : List UInt8) (limit : Int) (budget depth : Nat) (n : Cst) :
    Yields Ast.SidesApart (n.astAt bytes limit budget depth) := by
  induction budget generalizing depth n with
  | zero =>
    rw [astAt]
    split_ifs
    · exact .error _
    · exact yields_expression (fun _ => .error _) n
  | succ budget ih =>
    rw [astAt]
    split_ifs
    · exact yields_statement (ih (depth + 1)) n
    · exact yields_expression (ih (depth + 1)) n

/-- The tree of a source has its sides apart. -/
theorem sidesApart_of_parse {grammar : String → Cst} {limit : Int} {source : String} {tree : Ast}
    (h : (parse grammar limit source).outcome = .ok tree) : tree.SidesApart :=
  yields_astAt _ _ _ _ _ tree (ast_of_parse h).2

end Cst

end FlowSketch
