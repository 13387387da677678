import FlowSketch.Chart.Build
import FlowSketch.Metrics
import Mathlib.Data.List.Forall2
import Mathlib.Data.Option.Basic

/-!
# Trees that look alike

A slot holds the position of a child, and when the same child stands at several positions any of
them will do. Two trees look alike when they differ in nothing else: the nodes say the same, and so
do their children one by one and what fills their slots. Nothing that is made from a tree tells such
trees apart.

* `Kind.labelSlots`, `Ast.SameHeader` — the slots that a label is read from, and nodes that say the
  same themselves and in these slots.
* `Ast.SaysSame` — nodes that say the same, whatever stands below them.
* `Ast.Alike` — trees that look alike.

Results:

* `SameHeader.label_eq`, `SameHeader.malformed?_eq`: nodes that say the same there have the same
  label and the same defect.
* `Alike.outlineAt_eq`: alike trees have the same program, events and failures included.
* `Alike.survey_eq`: alike trees have the same counts.
* `Alike.build_eq`, `Alike.analyze_eq`: hence the same flowchart and the same figures.
-/

namespace FlowSketch

/-! ## Likeness -/

/-- Options that are related are both empty, or hold related values. -/
theorem rel_cases {α β : Type} {R : α → β → Prop} {x : Option α} {y : Option β}
    (h : Option.Rel R x y) :
    (x = none ∧ y = none) ∨ ∃ a b, x = some a ∧ y = some b ∧ R a b := by
  cases h with
  | none => exact .inl ⟨rfl, rfl⟩
  | some h => exact .inr ⟨_, _, rfl, rfl, h⟩

/-- The slots that the label of a node of that kind is read from. -/
def Kind.labelSlots : Kind → List Slot
  | ifStmt | whileLoop | doWhile => [.condition]
  | forLoop => [.init, .condition, .increment]
  | _ => []

namespace Ast

/-- Nodes with the same words of their own, and the same texts in the slots that the label is read
    from. -/
structure SameHeader (a b : Ast) : Prop where
  kind : a.kind = b.kind
  text : a.text = b.text
  name : a.name = b.name
  line : a.line = b.line
  words : ∀ slot ∈ b.kind.labelSlots, (a.child? slot).map Ast.text = (b.child? slot).map Ast.text

namespace SameHeader

variable {a b : Ast}

theorem clause_eq (h : SameHeader a b) {slot : Slot} (hslot : slot ∈ b.kind.labelSlots) :
    a.clause slot = b.clause slot := by
  have hword := h.words slot hslot
  unfold clause
  cases ha : a.child? slot <;> cases hb : b.child? slot <;> simp_all

/-- The condition is missing in both nodes, or has the same text. -/
theorem condition_cases (h : SameHeader a b) (hslot : .condition ∈ b.kind.labelSlots) :
    (a.child? .condition = none ∧ b.child? .condition = none) ∨
      ∃ c d, a.child? .condition = some c ∧ b.child? .condition = some d ∧ c.text = d.text := by
  have hword := h.words .condition hslot
  cases ha : a.child? .condition <;> cases hb : b.child? .condition <;> simp_all

/-- Nodes with the same header have the same label. -/
theorem label_eq (h : SameHeader a b) : a.label = b.label := by
  unfold label properName?
  rw [h.kind, h.text, h.name]
  cases hk : b.kind <;> simp only
  case ifStmt =>
    rcases h.condition_cases (by rw [hk]; decide) with ⟨ha, hb⟩ | ⟨c, d, ha, hb, hcd⟩
    · rw [ha, hb]
    · simp only [ha, hb, hcd]
  case forLoop =>
    rw [h.clause_eq (by rw [hk]; decide), h.clause_eq (by rw [hk]; decide),
      h.clause_eq (by rw [hk]; decide)]
  case whileLoop => rw [h.clause_eq (by rw [hk]; decide)]
  case doWhile => rw [h.clause_eq (by rw [hk]; decide)]

/-- They also lack the same. -/
theorem malformed?_eq (h : SameHeader a b) : a.malformed? = b.malformed? := by
  have hdefect : a.defect? = b.defect? := by
    unfold defect? properName?
    rw [h.kind, h.name]
    cases hk : b.kind <;> simp only
    case ifStmt =>
      rcases h.condition_cases (by rw [hk]; decide) with ⟨ha, hb⟩ | ⟨c, d, ha, hb, -⟩
      · rw [ha, hb]
      · rw [ha, hb]
        rfl
    case whileLoop => rw [h.clause_eq (by rw [hk]; decide)]
    case doWhile => rw [h.clause_eq (by rw [hk]; decide)]
  rw [malformed?, malformed?, hdefect, h.kind, h.text, h.line]

end SameHeader

/-- Nodes that say the same: their own words and the texts in their slots. -/
structure SaysSame (a b : Ast) : Prop where
  kind : a.kind = b.kind
  text : a.text = b.text
  name : a.name = b.name
  line : a.line = b.line
  words : ∀ slot, (a.child? slot).map Ast.text = (b.child? slot).map Ast.text

namespace SaysSame

variable {a b : Ast}

theorem properName?_eq (h : SaysSame a b) : a.properName? = b.properName? := by
  rw [properName?, properName?, h.name]

theorem sameHeader (h : SaysSame a b) : SameHeader a b :=
  ⟨h.kind, h.text, h.name, h.line, fun slot _ => h.words slot⟩

theorem label_eq (h : SaysSame a b) : a.label = b.label := h.sameHeader.label_eq

theorem malformed?_eq (h : SaysSame a b) : a.malformed? = b.malformed? :=
  h.sameHeader.malformed?_eq

end SaysSame

/-- Trees that look alike: the same kind, text, name and line at every node, children alike one by
    one, and alike children in the same slots, at whatever positions. -/
inductive Alike : Ast → Ast → Prop
  | intro {a b : Ast} (kind : a.kind = b.kind) (text : a.text = b.text) (name : a.name = b.name)
      (line : a.line = b.line) (children : List.Forall₂ Alike a.children b.children)
      (slots : ∀ slot, Option.Rel Alike (a.child? slot) (b.child? slot)) : Alike a b

namespace Alike

variable {a b : Ast}

theorem kind_eq (h : Alike a b) : a.kind = b.kind := by
  cases h
  assumption

theorem text_eq (h : Alike a b) : a.text = b.text := by
  cases h
  assumption

theorem children (h : Alike a b) : List.Forall₂ Alike a.children b.children := by
  cases h
  assumption

/-- A slot is empty in both trees, or alike children fill it. -/
theorem child?_cases (h : Alike a b) (slot : Slot) :
    (a.child? slot = none ∧ b.child? slot = none) ∨
      ∃ c d, a.child? slot = some c ∧ b.child? slot = some d ∧ Alike c d := by
  obtain ⟨-, -, -, -, -, hslots⟩ := h
  exact rel_cases (hslots slot)

theorem saysSame (h : Alike a b) : SaysSame a b := by
  have hwords : ∀ slot, (a.child? slot).map Ast.text = (b.child? slot).map Ast.text := by
    intro slot
    rcases h.child?_cases slot with ⟨ha, hb⟩ | ⟨c, d, ha, hb, hcd⟩
    · rw [ha, hb]
    · rw [ha, hb, Option.map_some, Option.map_some, hcd.text_eq]
  obtain ⟨hkind, htext, hname, hline, -, -⟩ := h
  exact ⟨hkind, htext, hname, hline, hwords⟩

end Alike

/-! ## Programs -/

/-- What makes the same of alike trees makes the same of their lists. -/
theorem each_eq_of_alike {β : Type} {f : Ast → Report Failure β} {as bs : List Ast}
    (hf : ∀ c d, Alike c d → f c = f d) (h : List.Forall₂ Alike as bs) :
    Report.each f as = Report.each f bs := by
  induction h with
  | nil => rfl
  | cons hcd _ ih => rw [Report.each, Report.each, hf _ _ hcd, ih]

namespace Alike

variable {a b : Ast}

theorem noteDefect_eq (h : Alike a b) : a.noteDefect = b.noteDefect := by
  rw [noteDefect, noteDefect, h.saysSame.malformed?_eq]

section

variable {visit : Ast → Report Failure Stmt} (hvisit : ∀ c d, Alike c d → visit c = visit d)

include hvisit

theorem outlineSlot_eq (h : Alike a b) (slot : Slot) :
    outlineSlot visit a slot = outlineSlot visit b slot := by
  rw [outlineSlot, outlineSlot]
  rcases h.child?_cases slot with ⟨ha, hb⟩ | ⟨c, d, ha, hb, hcd⟩
  · rw [ha, hb]
  · rw [ha, hb]
    exact hvisit c d hcd

theorem outlineBody_eq (h : Alike a b) : outlineBody visit a = outlineBody visit b := by
  rw [outlineBody, outlineBody, each_eq_of_alike hvisit h.children]
  rcases h.child?_cases .body with ⟨ha, hb⟩ | ⟨c, d, ha, hb, hcd⟩
  · rw [ha, hb]
  · rw [ha, hb]
    exact hvisit c d hcd

theorem outlineLoop_eq (h : Alike a b) (form : LoopForm) :
    outlineLoop visit a form = outlineLoop visit b form := by
  rw [outlineLoop, outlineLoop, h.noteDefect_eq, outlineSlot_eq hvisit h, h.saysSame.label_eq]

end

/-- Alike trees have the same program, or fail alike. -/
theorem outlineAt_eq (limit : Int) {budget depth : Nat} (h : Alike a b) :
    a.outlineAt limit budget depth = b.outlineAt limit budget depth := by
  induction budget generalizing a b depth with
  | zero => rfl
  | succ budget ih =>
    have hvisit : ∀ c d, Alike c d →
        c.outlineAt limit budget (depth + 1) = d.outlineAt limit budget (depth + 1) :=
      fun c d hcd => ih hcd
    rw [outlineAt, outlineAt, h.kind_eq, h.saysSame.label_eq, h.noteDefect_eq,
      outlineBody_eq hvisit h, outlineSlot_eq hvisit h .body, outlineSlot_eq hvisit h .elseBranch,
      outlineLoop_eq hvisit h .forLoop, outlineLoop_eq hvisit h .whileLoop,
      outlineLoop_eq hvisit h .doWhile, each_eq_of_alike hvisit h.children]
    rcases h.child?_cases .body with ⟨ha, hb⟩ | ⟨c, d, ha, hb, hcd⟩
    · rw [ha, hb]
    · simp only [ha, hb, hvisit c d hcd]

end Alike

end Ast

/-! ## Surveys -/

namespace Metrics

open Ast

namespace Tally

theorem enter_eq_of_alike {a b : Ast} (t : Tally) (h : Alike a b) : t.enter a = t.enter b := by
  rw [enter, enter, h.kind_eq, h.saysSame.properName?_eq]

theorem leave_eq_of_alike {a b : Ast} (t : Tally) (h : Alike a b) : t.leave a = t.leave b := by
  rw [leave, leave, h.kind_eq, h.saysSame.properName?_eq]

end Tally

/-- Tasks of the same sort on alike nodes. -/
inductive Task.Alike : Task → Task → Prop
  | enter {a b : Ast} (h : Ast.Alike a b) : Alike (.enter a) (.enter b)
  | leave {a b : Ast} (h : Ast.Alike a b) : Alike (.leave a) (.leave b)

namespace Task.Alike

variable {task other : Task}

theorem perform_eq (h : Task.Alike task other) (t : Tally) : task.perform t = other.perform t := by
  cases h with
  | enter h => exact t.enter_eq_of_alike h
  | leave h => exact t.leave_eq_of_alike h

theorem tasks (h : Task.Alike task other) : List.Forall₂ Task.Alike task.tasks other.tasks := by
  cases h with
  | enter h =>
    refine List.rel_append ?_ (.cons (.leave h) .nil)
    rw [List.forall₂_map_left_iff, List.forall₂_map_right_iff]
    exact h.children.imp (fun _ _ hcd => .enter hcd)
  | leave h => exact .nil

end Task.Alike

/-- Stacks of the same tasks on alike nodes lead to the same counts. -/
theorem work_eq_of_alike {t : Tally} {stack other : List Task}
    (h : List.Forall₂ Task.Alike stack other) : work t stack = work t other := by
  induction t, stack using work.induct generalizing other with
  | case1 t =>
    cases h
    rfl
  | case2 t task rest ih =>
    cases h with
    | cons htask hrest =>
      rw [work, work, ← htask.perform_eq]
      exact ih (List.rel_append htask.tasks hrest)

end Metrics

/-! ## Flowcharts and figures -/

namespace Ast.Alike

variable {a b : Ast}

theorem survey_eq (h : Alike a b) : Metrics.survey a = Metrics.survey b :=
  Metrics.work_eq_of_alike (.cons (.enter h) .nil)

/-- Alike trees have the same flowchart within every limit, or fail alike. -/
theorem build_eq (h : Alike a b) (limit : Int) :
    Flowchart.build limit (some a) = Flowchart.build limit (some b) := by
  rw [Flowchart.build, Flowchart.build, Flowchart.ofAst, Flowchart.ofAst, outline, outline,
    h.outlineAt_eq]

/-- Alike trees have the same figures for every text. -/
theorem analyze_eq (h : Alike a b) (source : String) :
    Metrics.analyze (some a) source = Metrics.analyze (some b) source := by
  rw [Metrics.analyze, Metrics.analyze, h.survey_eq]

end Ast.Alike

end FlowSketch
