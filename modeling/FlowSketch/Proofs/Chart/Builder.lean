import FlowSketch.Chart.Builder
import FlowSketch.Proofs.Chart.Drawn

/-!
# What a builder leaves behind

A builder draws while it visits, and is stopped in the middle of a tree by a node that lies too
deep. Step by step it does what is said of a tree beforehand: where the outline of the tree gives a
program, the builder has drawn the layout of the program, and where the outline fails, so does the
builder, with the same malformed nodes noted. So all that is known of flowcharts holds of it, and
nothing that it drew before matters.

* `Builder.Agrees` — a part of a drawing does what a report says.
* `Ast.Lies` — a visited node, with the number of visit steps to it.

Results:

* `Builder.Agrees.bind`: two parts, one after the other.
* `Builder.visit_agrees`: a visit agrees with the outline of the tree.
* `Builder.build_eq`: what a builder draws does not depend on what it has drawn before.
* `Builder.build_guards_depth`: when a builder gives up, and what comes of it.
-/

namespace FlowSketch

/-! ## Reports -/

namespace Report

variable {ε α β : Type}

/-- The malformed nodes that a report records. -/
def malformed (r : Report ε α) : List Malformed := r.events.filterMap Event.malformed?

theorem malformed_bind_ok {r : Report ε α} {a : α} (h : r.outcome = .ok a) (g : α → Report ε β) :
    (r >>= g).malformed = r.malformed ++ (g a).malformed := by
  simp [malformed, bind, h]

theorem malformed_bind_error {r : Report ε α} {e : ε} (h : r.outcome = .error e)
    (g : α → Report ε β) : (r >>= g).malformed = r.malformed := by
  simp [malformed, bind, h]

/-- Malformed nodes are all that a report records. -/
def RecordsMalformed (r : Report ε α) : Prop := r.events = r.malformed.map .malformedNode

theorem RecordsMalformed.pure (a : α) : (Pure.pure a : Report ε α).RecordsMalformed := rfl

theorem RecordsMalformed.bind {r : Report ε α} {g : α → Report ε β} (hr : r.RecordsMalformed)
    (hg : ∀ a, (g a).RecordsMalformed) : (r >>= g).RecordsMalformed := by
  unfold RecordsMalformed at hr hg ⊢
  cases h : r.outcome with
  | error e =>
    rw [malformed_bind_error h, ← hr]
    simp [Bind.bind, h]
  | ok a =>
    rw [malformed_bind_ok h, List.map_append, ← hr, ← hg a]
    simp [Bind.bind, h]

theorem RecordsMalformed.each {f : α → Report ε β} (hf : ∀ a, (f a).RecordsMalformed)
    (as : List α) : (each f as).RecordsMalformed := by
  induction as with
  | nil => exact .pure []
  | cons a as ih => exact (hf a).bind fun _ => ih.bind fun _ => .pure _

end Report

namespace Ast

theorem malformed_noteDefect (n : Ast) : n.noteDefect.malformed = n.malformed?.toList := by
  rw [noteDefect_eq, Report.malformed, event?]
  cases h : n.malformed? <;> simp [Event.malformed?]

/-- An outline records malformed nodes and nothing else. -/
theorem recordsMalformed_outlineAt (limit : Int) (budget depth : Nat) (n : Ast) :
    (n.outlineAt limit budget depth).RecordsMalformed := by
  induction budget generalizing depth n with
  | zero => rfl
  | succ budget ih =>
    have hnote : n.noteDefect.RecordsMalformed := by
      rw [Report.RecordsMalformed, malformed_noteDefect, noteDefect_eq, event?]
      cases n.malformed? <;> rfl
    rw [outlineAt_succ]
    exact hnote.bind fun _ => .bind (.each (fun m => ih (depth + 1) m) _) fun _ => .pure _

/-! ## Levels -/

/-- A node lies so many visit steps below a root. -/
inductive Lies (root : Ast) : Nat → Ast → Prop
  | root : Lies root 0 root
  | visited {steps : Nat} {n m : Ast} : Lies root steps n → m ∈ n.visited → Lies root (steps + 1) m

theorem Lies.of_visited {n m x : Ast} {steps : Nat} (hm : m ∈ n.visited) (h : m.Lies steps x) :
    n.Lies (steps + 1) x := by
  induction h with
  | root => exact .visited .root hm
  | visited _ hx ih => exact ih.visited hx

theorem lies_succ_iff {n x : Ast} {steps : Nat} :
    n.Lies (steps + 1) x ↔ ∃ m ∈ n.visited, m.Lies steps x := by
  refine ⟨fun h => ?_, fun ⟨m, hm, h⟩ => h.of_visited hm⟩
  induction steps generalizing x with
  | zero =>
    obtain _ | ⟨⟨⟩, hx⟩ := h
    exact ⟨x, hx, .root⟩
  | succ steps ih =>
    obtain _ | ⟨hy, hx⟩ := h
    obtain ⟨m, hm, hlies⟩ := ih hy
    exact ⟨m, hm, hlies.visited hx⟩

theorem reaches_iff_lies {n : Ast} {steps : Nat} :
    n.reaches steps = true ↔ ∃ m, n.Lies steps m := by
  induction steps generalizing n with
  | zero => exact ⟨fun _ => ⟨n, .root⟩, fun _ => rfl⟩
  | succ steps ih =>
    simp only [reaches_succ_iff, lies_succ_iff, ih]
    exact ⟨fun ⟨m, hm, x, hx⟩ => ⟨x, m, hm, hx⟩, fun ⟨x, m, hm, hx⟩ => ⟨m, hm, x, hx⟩⟩

/-- Where a level is not reached, none below it is. -/
theorem reaches_eq_false_of_le {n : Ast} {steps more : Nat} (hle : steps ≤ more)
    (h : n.reaches steps = false) : n.reaches more = false := by
  induction hle with
  | refl => exact h
  | step _ ih =>
    exact Bool.eq_false_iff.2 fun hmore => Bool.eq_false_iff.1 ih (reaches_of_succ hmore)

end Ast

namespace Builder

variable {α β γ δ : Type}

/-! ## Agreement -/

/-- The builder with another draft, and with nodes noted behind those that are noted already. -/
def put (b : Builder) (d : Draft) (malformed : List Malformed) : Builder :=
  { b with draft := d, malformed := b.malformed ++ malformed }

@[simp] theorem draft_put (b : Builder) (d : Draft) (ms : List Malformed) :
    (b.put d ms).draft = d := rfl

@[simp] theorem put_put (b : Builder) (d d' : Draft) (ms ms' : List Malformed) :
    (b.put d ms).put d' ms' = b.put d' (ms ++ ms') := by
  simp [put, List.append_assoc]

@[simp] theorem put_draft_nil (b : Builder) : b.put b.draft [] = b := by
  simp [put]

/-- A drawing agrees with a report: it fails as the report does, and else draws what `out` makes of
    the result. Either way it notes the malformed nodes that are reported. -/
def Agrees (b : Builder) (report : Report Failure β) (drawing : Draws α)
    (out : β → Draft × α) : Prop :=
  match report.outcome with
  | .ok p => drawing b = .ok (out p).2 (b.put (out p).1 report.malformed)
  | .error failure => ∃ d, drawing b = .error failure (b.put d report.malformed)

section

variable {b b' : Builder} {x : Draws α} {f : α → Draws γ} {r : Report Failure β}
  {g : β → Report Failure δ} {out : β → Draft × α} {out' : δ → Draft × γ}

theorem bind_ok {a : α} (h : x b = .ok a b') : (x >>= f) b = f a b' := by
  simp [bind, EStateM.bind, h]

theorem bind_error {failure : Failure} (h : x b = .error failure b') :
    (x >>= f) b = .error failure b' := by
  simp [bind, EStateM.bind, h]

theorem Agrees.bind (hx : b.Agrees r x out) (hf : ∀ p, r.outcome = .ok p →
    (b.put (out p).1 r.malformed).Agrees (g p) (f (out p).2) out') :
    b.Agrees (r >>= g) (x >>= f) out' := by
  unfold Agrees at hx ⊢
  rw [Report.outcome_bind]
  cases hr : r.outcome with
  | error failure =>
    rw [hr] at hx
    obtain ⟨d, hd⟩ := hx
    rw [Report.malformed_bind_error hr]
    exact ⟨d, bind_error hd⟩
  | ok p =>
    rw [hr] at hx
    have hp := hf p hr
    rw [Report.malformed_bind_ok hr, bind_ok hx]
    unfold Agrees at hp
    simp only [put_put] at hp
    exact hp

/-- What goes before without a report. -/
theorem Agrees.after {d : Draft} {a : α} {r : Report Failure δ} (hx : x b = .ok a (b.put d []))
    (hf : (b.put d []).Agrees r (f a) out') : b.Agrees r (x >>= f) out' := by
  unfold Agrees at hf ⊢
  simp only [put_put, List.nil_append] at hf
  rwa [bind_ok hx]

theorem draw_eq (change : Draft → Draft × α) (b : Builder) :
    draw change b = .ok (change b.draft).2 (b.put (change b.draft).1 []) := by
  rw [put, List.append_nil]
  rfl

theorem Agrees.ok {x : Draws α} {p : β} (h : x b = .ok (out p).2 (b.put (out p).1 [])) :
    b.Agrees (Pure.pure p) x out := h

theorem Agrees.draw {change : Draft → Draft × α} {p : β} (h : change b.draft = out p) :
    b.Agrees (pure p) (draw change) out :=
  .ok (by rw [draw_eq, h])

theorem Agrees.pure {a : α} {p : β} (h : (b.draft, a) = out p) :
    b.Agrees (Pure.pure p) (Pure.pure a) out := by
  refine .ok ?_
  rw [← h, put_draft_nil]
  rfl

theorem Agrees.note (n : Ast) : b.Agrees n.noteDefect (note n) (fun _ => (b.draft, ())) := by
  unfold Agrees
  rw [Ast.outcome_noteDefect, Ast.malformed_noteDefect]
  rfl

/-- What is only put together on the side of the report. -/
theorem Agrees.map {f : β → δ} {out : β → Draft × γ} {x : Draws γ} (hx : b.Agrees r x out)
    (h : ∀ p, out' (f p) = out p) :
    b.Agrees (r >>= fun p => (Pure.pure (f p) : Report Failure δ)) x out' := by
  unfold Agrees at hx ⊢
  rw [Report.outcome_bind]
  cases hr : r.outcome with
  | error failure =>
    rw [hr] at hx
    rw [Report.malformed_bind_error hr]
    exact hx
  | ok p =>
    rw [hr] at hx
    rw [Report.malformed_bind_ok hr]
    simpa [Except.bind, Report.malformed, h p] using hx

end

/-! ## Visits -/

theorem layAll_cons (s : Stmt) (rest : List Stmt) (d : Draft) (before : Fragment) :
    layAll (s :: rest) d before =
      layAll rest (layAll [s] d before).1 (layAll [s] d before).2 := by
  simp only [layAll]
  split <;> rfl

theorem guardDepth_ok {b : Builder} {depth : Nat} (h : depth ≤ b.limit) :
    guardDepth depth b = .ok () b := by
  show (if b.limit < depth then _ else _ : Draws Unit) b = _
  rw [if_neg (by omega)]
  rfl

theorem guardDepth_error {b : Builder} {depth : Nat} (h : b.limit < depth) :
    guardDepth depth b = .error (.tooDeep depth b.limit) b := by
  show (if b.limit < depth then _ else _ : Draws Unit) b = _
  rw [if_pos h]
  rfl

/-- A statement goes behind others as it does in a program. -/
theorem follow_eq {s : Stmt} {n : Ast} (hs : s.isFunction = decide (n.kind = .functionDef))
    (d : Draft) (before : Fragment) {b : Builder} (hb : b.draft = (s.lay d).1) :
    follow before n (s.lay d).2 b =
      .ok (layAll [s] d before).2 (b.put (layAll [s] d before).1 []) := by
  unfold follow
  rw [← hs]
  simp only [layAll]
  cases hf : s.isFunction <;> cases he : (s.lay d).2.entry
  all_goals simp only [← hb, put_draft_nil]
  all_goals first | rfl | exact draw_eq _ b

section Visit

variable {limit : Int} {budget depth : Nat}
  (hv : ∀ (m : Ast) (b : Builder), b.limit = limit → b.Agrees (m.outlineAt limit budget (depth + 1))
    (visit m (depth + 1)) (fun s => s.lay b.draft))
  {b : Builder} (hb : b.limit = limit)
include hv hb

theorem visitAll_agrees (ns : List Ast) (before : Fragment) :
    b.Agrees (Report.each (Ast.outlineAt limit budget (depth + 1)) ns) (visitAll ns depth before)
      (fun stmts => layAll stmts b.draft before) := by
  induction ns generalizing b before with
  | nil =>
    rw [visitAll]
    exact .pure rfl
  | cons n ns ih =>
    rw [visitAll, Report.each]
    refine .bind (hv n b hb) fun s hs => ?_
    have hfun := Ast.isFunction_program_eq n
    rw [← Ast.eq_program_of_outlineAt hs] at hfun
    refine .after (follow_eq hfun b.draft before rfl) ?_
    refine .map (ih (by exact hb) _) fun stmts => ?_
    rw [layAll_cons]
    rfl

theorem visitSlot_agrees (n : Ast) (slot : Slot) :
    b.Agrees (Ast.outlineSlot (Ast.outlineAt limit budget (depth + 1)) n slot)
      (visitSlot n slot depth) (fun s => s.lay b.draft) := by
  unfold Ast.outlineSlot
  rw [visitSlot]
  cases n.child? slot with
  | none => exact .pure (by simp only [Stmt.lay, layAll])
  | some child => exact hv child b hb

theorem visitBlock_agrees (ns : List Ast) :
    b.Agrees (do
        let stmts ← Report.each (Ast.outlineAt limit budget (depth + 1)) ns
        return Stmt.block stmts)
      (visitAll ns depth {}) (fun s : Stmt => s.lay b.draft) :=
  .map (visitAll_agrees hv hb ns {}) fun _ => by rw [Stmt.lay]

theorem visitBody_agrees (n : Ast) :
    b.Agrees (Ast.outlineBody (Ast.outlineAt limit budget (depth + 1)) n)
      (visitBody n depth) (fun s => s.lay b.draft) := by
  unfold Ast.outlineBody
  rw [visitBody]
  cases n.child? .body with
  | none => exact visitBlock_agrees hv hb n.children
  | some body => exact hv body b hb

theorem visitLoop_agrees (n : Ast) (form : LoopForm) :
    b.Agrees (Ast.outlineLoop (Ast.outlineAt limit budget (depth + 1)) n form)
      (visitLoop n form depth) (fun s => s.lay b.draft) := by
  unfold Ast.outlineLoop
  rw [visitLoop]
  refine .bind (.note n) fun _ _ => .after (draw_eq _ _) ?_
  refine .bind (visitSlot_agrees hv (by exact hb) n .body) fun body _ => .draw ?_
  rw [Stmt.lay]
  cases h : (body.lay (b.draft.addNode form.flowKind n.label)).2.entry <;>
    simp only [draft_put, h]

end Visit

/-- A visit agrees with the outline of the tree, given the same number of levels. The induction is
    on the levels that are left, which the guard counts down. -/
theorem visit_agrees {budget depth : Nat} (n : Ast) {b : Builder}
    (h : (b.limit + 1 - depth).toNat = budget) :
    b.Agrees (n.outlineAt b.limit budget depth) (visit n depth) (fun s => s.lay b.draft) := by
  induction budget generalizing n depth b with
  | zero =>
    rw [visit]
    refine ⟨b.draft, ?_⟩
    rw [bind_error (guardDepth_error (by omega))]
    show _ = EStateM.Result.error _ (b.put b.draft [])
    rw [put_draft_nil]
  | succ budget ih =>
    have hv : ∀ (m : Ast) (b' : Builder), b'.limit = b.limit →
        b'.Agrees (m.outlineAt b.limit budget (depth + 1)) (visit m (depth + 1))
          (fun s => s.lay b'.draft) := by
      intro m b' hb'
      rw [← hb']
      exact ih m (by omega)
    rw [visit]
    have hguard : guardDepth depth b = .ok () (b.put b.draft []) := by
      rw [guardDepth_ok (by omega), put_draft_nil]
    refine .after hguard ?_
    rw [put_draft_nil]
    cases hk : n.kind <;> simp only [Ast.outlineAt, hk]
    case functionDef =>
      refine .bind (.note n) fun _ _ => .after (draw_eq _ _) ?_
      refine .bind (visitBody_agrees hv (by rfl) n) fun body _ => .draw ?_
      rw [Stmt.lay]
      cases h : (body.lay (b.draft.addNode .function n.label)).2.entry <;>
        simp only [draft_put, h]
    case compoundBlock => exact visitBlock_agrees hv rfl n.children
    case elseClause =>
      rw [visitElse]
      cases n.child? .body with
      | none => exact visitBlock_agrees hv rfl n.children
      | some body =>
        refine .bind (hv body b rfl) fun s hs => ?_
        have hfun := Ast.isFunction_program_eq body
        rw [← Ast.eq_program_of_outlineAt hs] at hfun
        refine .ok ?_
        simpa only [Stmt.lay] using follow_eq hfun b.draft {} rfl
    case ifStmt =>
      refine .bind (.note n) fun _ _ => .after (draw_eq _ _) ?_
      refine .bind (visitSlot_agrees hv (by rfl) n .body) fun yes _ => .after (draw_eq _ _) ?_
      refine .bind (visitSlot_agrees hv (by rfl) n .elseBranch) fun no _ => .after (draw_eq _ _) ?_
      refine .pure ?_
      rw [Stmt.lay]
      rfl
    case forLoop => exact visitLoop_agrees hv rfl n .forLoop
    case whileLoop => exact visitLoop_agrees hv rfl n .whileLoop
    case doWhile => exact visitLoop_agrees hv rfl n .doWhile
    all_goals exact .after (draw_eq _ _) (.pure (by rw [Stmt.lay]; rfl))

/-! ## Builds -/

theorem visit_root_agrees (b : Builder) (root : Ast) :
    b.reset.Agrees (root.outline b.limit) (visit root 0) (fun s => s.lay {}) :=
  visit_agrees root (by simp [reset])

/-- What a builder draws does not depend on what it has drawn before. -/
theorem build_eq (b : Builder) (root : Option Ast) :
    (b.build root).1 = Flowchart.build b.limit root := by
  cases root with
  | none => rfl
  | some root =>
    have hagrees := visit_root_agrees b root
    have hevents : (root.outline b.limit).RecordsMalformed :=
      Ast.recordsMalformed_outlineAt b.limit _ 0 root
    unfold Agrees at hagrees
    simp only [build, Flowchart.build, Flowchart.ofAst]
    cases h : (root.outline b.limit).outcome with
    | error failure =>
      rw [h] at hagrees
      obtain ⟨d, hd⟩ := hagrees
      simp only [hd, Bind.bind, h]
      congr 1
      exact hevents.symm
    | ok program =>
      rw [h] at hagrees
      simp only [hagrees, Bind.bind, h]
      congr 1
      exact congrArg (· ++ [_]) hevents.symm

/-- A builder keeps its limit. -/
theorem limit_build (b : Builder) (root : Option Ast) : (b.build root).2.limit = b.limit := by
  cases root with
  | none => rfl
  | some root =>
    have hagrees := visit_root_agrees b root
    unfold Agrees at hagrees
    split at hagrees
    · simp only [build, hagrees]
      rfl
    · obtain ⟨d, hd⟩ := hagrees
      simp only [build, hd]
      rfl

theorem outcome_build (b : Builder) (root : Ast) :
    (b.build (some root)).1.outcome = if root.reaches (b.limit + 1).toNat
      then .error (.tooDeep (b.limit + 1).toNat b.limit)
      else .ok (Flowchart.ofProgram root.program (root.notes.filterMap id)) := by
  rw [build_eq, Flowchart.build, Flowchart.outcome_ofAst]
  split_ifs with h
  · rfl
  · rw [Ast.outline, Ast.outlineAt_eq b.limit 0 (Bool.eq_false_iff.2 h), Ast.malformed?_events]

/-- A builder gives up on a tree exactly when a visited node lies below its limit, and names the
    first level there. What it draws it draws under every larger limit, and what is left in it by a
    tree, drawn or given up, does not show in the next one. -/
theorem build_guards_depth (b : Builder) (hlimit : 0 ≤ b.limit) (root : Ast) :
    (∀ failure, (b.build (some root)).1.outcome = .error failure ↔
      (∃ steps m, root.Lies steps m ∧ b.limit < steps) ∧
        failure = .tooDeep (b.limit + 1) b.limit) ∧
    (∀ chart, (b.build (some root)).1.outcome = .ok chart → ∀ other : Builder,
      b.limit ≤ other.limit → (other.build (some root)).1.outcome = .ok chart) ∧
    (∀ next, ((b.build (some root)).2.build next).1 =
      (({ limit := b.limit } : Builder).build next).1) := by
  have hbeyond : ((b.limit + 1).toNat : Int) = b.limit + 1 := Int.toNat_of_nonneg (by omega)
  have hreaches : root.reaches (b.limit + 1).toNat = true ↔
      ∃ steps m, root.Lies steps m ∧ b.limit < steps := by
    constructor
    · intro h
      obtain ⟨m, hm⟩ := Ast.reaches_iff_lies.1 h
      exact ⟨_, m, hm, by omega⟩
    · rintro ⟨steps, m, hm, hlt⟩
      by_contra h
      have hfalse : root.reaches steps = false :=
        Ast.reaches_eq_false_of_le (by omega) (Bool.eq_false_iff.2 h)
      rw [Ast.reaches_iff_lies.2 ⟨m, hm⟩] at hfalse
      contradiction
  refine ⟨fun failure => ?_, fun chart h other hle => ?_, fun next => ?_⟩
  · rw [outcome_build, ← hreaches, hbeyond]
    split_ifs with h
    · simp [h, eq_comm]
    · simp [h]
  · rw [outcome_build] at h ⊢
    split_ifs at h with hr
    have hother : root.reaches (other.limit + 1).toNat = false :=
      Ast.reaches_eq_false_of_le (by omega) (Bool.eq_false_iff.2 hr)
    rw [hother]
    exact h
  · rw [build_eq, build_eq, limit_build]

/-- A `return` in two blocks lies one step below this limit. A function is drawn after it as it
    would have been before. -/
theorem build_guards_depth_nestedBlocks :
    let inner : Ast := { kind := .compoundBlock, children := [{ kind := .returnStmt }] }
    let root : Ast := { kind := .compoundBlock, children := [inner] }
    let b : Builder := { limit := 1 }
    let next : Ast := { kind := .functionDef, name := some "f" }
    (b.build (some root)).1.outcome = .error (.tooDeep 2 1) ∧
      ((b.build (some root)).2.build (some next)).1 = (b.build (some next)).1 ∧
      ((b.build (some next)).1.outcome = .ok
        { nodes := [⟨0, .function, "Function: f"⟩], edges := [], entry := some 0 }) := by
  intro inner root b next
  have hinner : root.Lies 1 inner := .visited .root (by simp [root, inner, Ast.visited])
  have hlies : root.Lies 2 { kind := .returnStmt } :=
    hinner.visited (by simp [inner, Ast.visited])
  obtain ⟨hfails, -, hnext⟩ := build_guards_depth b (by decide) root
  refine ⟨(hfails _).2 ⟨⟨2, _, hlies, by decide⟩, rfl⟩, hnext (some next), ?_⟩
  rw [build_eq]
  rfl

end Builder

end FlowSketch
