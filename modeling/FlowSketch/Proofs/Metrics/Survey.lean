import FlowSketch.Metrics.Survey
import FlowSketch.Proofs.Program.Structure
import Mathlib.Data.List.Basic
import Mathlib.Order.Bounds.Basic

/-!
# What a survey finds

The survey of a tree goes through a stack of tasks and keeps the open scopes by itself. Here its
counts are read off the tree alone: from the nodes, and from the way that leads down to each.

The counts at any time are given by two lists, the places that have been entered so far and the
nodes that are open. Entering a node adds to both and leaving it takes the node off the second, so
a node that has been worked off has added its own places to the first and nothing to the second.

* `Place`, `Ast.places` — the nodes of a tree, each with the nodes above it.
* `Ast.Leads` — the way down to a node.
* `Tally.seen` — the counts, read off the places entered and the nodes open.
* `Reached` — the counts and stacks that a survey goes through.

Results:

* `Ast.mem_places_iff`: the places of a tree are the ways down from its root.
* `Tally.enter_seen`, `Tally.leave_seen`: what entering and leaving a node does to the two lists.
* `work_enter`: the places of a node are entered in order, and all that it opens is closed.
* `Reached.seen`: the open scopes are always those of the nodes that are still to be left.
* `survey_found`: what a survey counts, and that no scope is closed that is not open.
-/

namespace FlowSketch

/-! ## Places in a tree -/

/-- A node of a tree, with the nodes above it from the root down. -/
structure Place where
  above : List Ast
  node : Ast

namespace Ast

/-- The name that a function can be called by. -/
def functionName? (n : Ast) : Option String :=
  if n.kind = .functionDef then n.properName? else none

/-- The name that a call looks up. -/
def callName? (n : Ast) : Option String := if n.kind = .call then n.properName? else none

mutual

/-- The places below some nodes that a tree takes up, every node before its children. -/
def places (above : List Ast) : Ast → List Place
  | ⟨kind, text, name, line, slots, children⟩ =>
    ⟨above, ⟨kind, text, name, line, slots, children⟩⟩ ::
      placesAll (above ++ [⟨kind, text, name, line, slots, children⟩]) children

/-- The places of several trees below the same nodes. -/
def placesAll (above : List Ast) : List Ast → List Place
  | [] => []
  | n :: rest => n.places above ++ placesAll above rest

end

/-- The children of nodes lead from the root of a tree through some nodes to another. -/
inductive Leads (root : Ast) : List Ast → Ast → Prop
  | root : Leads root [] root
  | child {above : List Ast} {n m : Ast} :
    Leads root above n → m ∈ n.children → Leads root (above ++ [n]) m

end Ast

namespace Place

/-- The nodes from the root down to the node itself. -/
def path (p : Place) : List Ast := p.above ++ [p.node]

/-- The names of the functions around the node, the outermost first. -/
def around (p : Place) : List String := p.above.filterMap Ast.functionName?

/-- The function around it that the node calls. -/
def recursion? (p : Place) : Option String :=
  p.node.callName?.bind (fun name => Metrics.target? name p.around.reverse)

end Place

namespace Ast

theorem places_eq (n : Ast) (above : List Ast) :
    n.places above = ⟨above, n⟩ :: placesAll (above ++ [n]) n.children := by
  cases n
  simp only [places]

theorem placesAll_eq_flatMap (ns above : List Ast) :
    placesAll above ns = ns.flatMap (places above) := by
  induction ns with
  | nil => rfl
  | cons n rest ih => simp [placesAll, ih]

theorem mem_places {n : Ast} {above : List Ast} {p : Place} :
    p ∈ n.places above ↔ p = ⟨above, n⟩ ∨ ∃ m ∈ n.children, p ∈ m.places (above ++ [n]) := by
  rw [places_eq, placesAll_eq_flatMap, List.mem_cons, List.mem_flatMap]

/-- The nodes of the places are those of the tree, in the same order. -/
theorem map_node_places (n : Ast) (above : List Ast) :
    (n.places above).map Place.node = n.preorder := by
  induction n using Ast.induction generalizing above with
  | node n ih =>
    rw [places_eq, preorder_eq, placesAll_eq_flatMap, preorderAll_eq_flatMap, List.map_cons,
      List.map_flatMap]
    exact congrArg (n :: ·) (List.flatMap_congr (fun m hm => ih m hm _))

theorem countP_places (n : Ast) (above : List Ast) (counted : Ast → Bool) :
    (n.places above).countP (fun p => counted p.node) = n.preorder.countP counted := by
  rw [← map_node_places n above, List.countP_map]
  rfl

theorem filterMap_places {α : Type} (n : Ast) (above : List Ast) (f : Ast → Option α) :
    (n.places above).filterMap (fun p => f p.node) = n.preorder.filterMap f := by
  rw [← map_node_places n above, List.filterMap_map]
  rfl

theorem leads_of_mem_places {root n : Ast} {above : List Ast} {p : Place}
    (hn : root.Leads above n) (hp : p ∈ n.places above) : root.Leads p.above p.node := by
  induction n using Ast.induction generalizing above with
  | node n ih =>
    rcases mem_places.1 hp with rfl | ⟨m, hm, hp⟩
    · exact hn
    · exact ih m hm (hn.child hm) hp

theorem child_mem_places {n m : Ast} {above : List Ast} {p : Place} (hp : p ∈ n.places above)
    (hm : m ∈ p.node.children) : ⟨p.path, m⟩ ∈ n.places above := by
  induction n using Ast.induction generalizing above with
  | node n ih =>
    rcases mem_places.1 hp with rfl | ⟨k, hk, hp⟩
    · exact mem_places.2 (.inr ⟨m, hm, mem_places.2 (.inl rfl)⟩)
    · exact mem_places.2 (.inr ⟨k, hk, ih k hk hp⟩)

/-- The places of a tree are the ways down from its root. -/
theorem mem_places_iff {root n : Ast} {above : List Ast} :
    ⟨above, n⟩ ∈ root.places [] ↔ root.Leads above n := by
  constructor
  · exact leads_of_mem_places .root
  · intro h
    induction h with
    | root => exact mem_places.2 (.inl rfl)
    | child _ hm ih => exact child_mem_places ih hm

end Ast

namespace Metrics

/-! ## Counting over places -/

/-- The number of loops among some nodes. -/
def loopsOn (path : List Ast) : Nat := path.countP (·.kind.isLoop)

theorem loopsOn_concat (path : List Ast) (n : Ast) :
    loopsOn (path ++ [n]) = loopsOn path + if n.kind.isLoop then 1 else 0 := by
  simp [loopsOn, List.countP_append, List.countP_singleton]

/-- The largest number of loops on the way to one of the places. -/
def deepestOf (places : List Place) : Nat := (places.map (fun p => loopsOn p.path)).foldl max 0

theorem deepestOf_concat (places : List Place) (p : Place) :
    deepestOf (places ++ [p]) = max (deepestOf places) (loopsOn p.path) := by
  simp only [deepestOf, List.map_append, List.map_singleton, List.foldl_append, List.foldl_cons,
    List.foldl_nil]

theorem deepestOf_le_append (places more : List Place) :
    deepestOf places ≤ deepestOf (places ++ more) := by
  induction more generalizing places with
  | nil => simp
  | cons p more ih =>
    have hp : deepestOf places ≤ deepestOf (places ++ [p]) := by
      rw [deepestOf_concat]
      omega
    have hmore := ih (places ++ [p])
    rw [List.append_assoc, List.singleton_append] at hmore
    omega

theorem isGreatest_deepestOf {places : List Place} (h : places ≠ []) :
    IsGreatest {k | ∃ p ∈ places, loopsOn p.path = k} (deepestOf places) := by
  obtain ⟨k, hk⟩ : ∃ k, (places.map (fun p => loopsOn p.path)).max? = some k :=
    Option.isSome_iff_exists.1 (by simp [List.isSome_max?_iff, h])
  have hdeepest : deepestOf places = k := by
    rw [deepestOf, List.foldl_max, hk, Option.getD_some, Nat.zero_max]
  obtain ⟨hmem, hle⟩ := List.max?_eq_some_iff.1 hk
  rw [hdeepest]
  constructor
  · exact List.mem_map.1 hmem
  · rintro _ ⟨p, hp, rfl⟩
    exact hle _ (List.mem_map_of_mem hp)

/-- One more name, wherever it has been met before. -/
theorem eraseDups_concat (names : List String) (name : String) :
    (names ++ [name]).eraseDups = addName names.eraseDups name := by
  rw [List.eraseDups_append]
  by_cases h : name ∈ names <;> simp [List.removeAll, addName, h, List.eraseDups_cons]

theorem filterMap_concat {α β : Type} (f : α → Option β) (as : List α) (a : α) :
    (as ++ [a]).filterMap f = as.filterMap f ++ (f a).toList := by
  rw [List.filterMap_append]
  cases h : f a <;> simp [h]

theorem reverse_toList {α : Type} (a? : Option α) : a?.toList.reverse = a?.toList := by
  cases a? <;> rfl

/-- One more name or none. -/
theorem eraseDups_append_toList (names : List String) (name? : Option String) :
    (names ++ name?.toList).eraseDups = name?.elim names.eraseDups (addName names.eraseDups) := by
  cases name? with
  | none => simp
  | some name => exact eraseDups_concat names name

/-! ## The counts at any time -/

namespace Tally

/-- The counts when some places have been entered and the nodes of a path are open. -/
def seen (entered : List Place) (path : List Ast) : Tally where
  functions := entered.countP (fun p => p.node.kind = .functionDef)
  loops := entered.countP (fun p => p.node.kind.isLoop)
  conditionals := entered.countP (fun p => p.node.kind.isConditional)
  deepest := deepestOf entered
  declared := (entered.filterMap (fun p => p.node.functionName?)).eraseDups
  recursive := (entered.filterMap Place.recursion?).eraseDups
  openLoops := loopsOn path
  openFunctions := (path.filterMap Ast.functionName?).reverse

/-- What entering a node does to each of the counts. -/
theorem enter_eq (t : Tally) (n : Ast) : t.enter n =
    { functions := t.functions + if n.kind = .functionDef then 1 else 0
      loops := t.loops + if n.kind.isLoop then 1 else 0
      conditionals := t.conditionals + if n.kind.isConditional then 1 else 0
      deepest := max t.deepest (if n.kind.isLoop then t.openLoops + 1 else 0)
      declared := n.functionName?.elim t.declared (addName t.declared)
      recursive := (n.callName?.bind (fun name => target? name t.openFunctions)).elim t.recursive
        (addName t.recursive)
      openLoops := t.openLoops + if n.kind.isLoop then 1 else 0
      openFunctions := n.functionName?.toList ++ t.openFunctions } := by
  unfold enter Ast.functionName? Ast.callName?
  cases hk : n.kind <;> simp [Kind.isLoop, Kind.isConditional]
  case functionDef => cases n.properName? <;> rfl
  case forLoop => rfl
  case whileLoop => rfl
  case doWhile => rfl
  case call =>
    unfold enterCall
    cases n.properName?.bind (fun name => target? name t.openFunctions) <;> rfl

/-- What leaving a node does to each of the counts. -/
theorem leave_eq (t : Tally) (n : Ast) : t.leave n =
    { t with
      openLoops := t.openLoops - if n.kind.isLoop then 1 else 0
      openFunctions := t.openFunctions.drop n.functionName?.toList.length } := by
  unfold leave Ast.functionName?
  cases hk : n.kind <;> simp [Kind.isLoop]
  cases n.properName? <;> simp

/-- A node that is entered takes its place behind the others and is open. -/
theorem enter_seen {entered : List Place} {path : List Ast} (n : Ast)
    (h : loopsOn path ≤ deepestOf entered) :
    (seen entered path).enter n = seen (entered ++ [⟨path, n⟩]) (path ++ [n]) := by
  have hdeepest : max (deepestOf entered) (if n.kind.isLoop then loopsOn path + 1 else 0) =
      deepestOf (entered ++ [⟨path, n⟩]) := by
    -- A node that is not a loop has no more loops on its way than the open nodes have, and that
    -- many have been met before.
    simp only [deepestOf_concat, Place.path, loopsOn_concat]
    split_ifs <;> omega
  rw [enter_eq]
  simp only [seen, hdeepest, loopsOn_concat, List.countP_append, List.countP_singleton,
    filterMap_concat, eraseDups_append_toList, List.reverse_append, reverse_toList,
    decide_eq_true_eq, Place.recursion?, Place.around]

/-- The node that was entered last is closed again, with all that it has opened. -/
theorem leave_seen (entered : List Place) (path : List Ast) (n : Ast) :
    (seen entered (path ++ [n])).leave n = seen entered path := by
  rw [leave_eq]
  simp only [seen, loopsOn_concat, filterMap_concat, List.reverse_append, reverse_toList,
    List.drop_left, Nat.add_sub_cancel]

end Tally

/-! ## The run -/

/-- The nodes that are open while the tasks of a stack are still to be done, the outermost first. -/
def openPath : List Task → List Ast
  | [] => []
  | .enter _ :: rest => openPath rest
  | .leave n :: rest => openPath rest ++ [n]

/-- The counts and stacks that the survey of a tree goes through. -/
inductive Reached (root : Ast) : Tally → List Task → Prop
  | start : Reached root {} [.enter root]
  | step {t : Tally} {task : Task} {rest : List Task} :
    Reached root t (task :: rest) → Reached root (task.perform t) (task.tasks ++ rest)

theorem openPath_enters (ns : List Ast) (rest : List Task) :
    openPath (ns.map .enter ++ rest) = openPath rest := by
  induction ns with
  | nil => rfl
  | cons n ns ih => exact ih

theorem work_cons (t : Tally) (task : Task) (rest : List Task) :
    work t (task :: rest) = work (task.perform t) (task.tasks ++ rest) := by
  rw [work]

theorem work_enters {ns : List Ast} {path : List Ast}
    (hns : ∀ n ∈ ns, ∀ {entered : List Place} (rest : List Task),
      loopsOn path ≤ deepestOf entered → work (.seen entered path) (.enter n :: rest) =
        work (.seen (entered ++ n.places path) path) rest)
    {entered : List Place} (rest : List Task) (h : loopsOn path ≤ deepestOf entered) :
    work (.seen entered path) (ns.map .enter ++ rest) =
      work (.seen (entered ++ Ast.placesAll path ns) path) rest := by
  induction ns generalizing entered with
  | nil => simp [Ast.placesAll]
  | cons n ns ih =>
    rw [List.map_cons, List.cons_append, hns n List.mem_cons_self _ h,
      ih (fun m hm => hns m (List.mem_cons_of_mem n hm)) (h.trans (deepestOf_le_append _ _)),
      Ast.placesAll, List.append_assoc]

/-- A node that is worked off has entered its places in order, and nothing more is open. -/
theorem work_enter {n : Ast} {entered : List Place} {path : List Ast} (rest : List Task)
    (h : loopsOn path ≤ deepestOf entered) :
    work (.seen entered path) (.enter n :: rest) =
      work (.seen (entered ++ n.places path) path) rest := by
  -- The rest of the stack is arbitrary, so the hypothesis for a child covers its siblings and the
  -- task of leaving the node itself.
  induction n using Ast.induction generalizing entered path rest with
  | node n ih =>
    have hopen : loopsOn (path ++ [n]) ≤ deepestOf (entered ++ [⟨path, n⟩]) := by
      simp only [deepestOf_concat, Place.path, le_max_right]
    calc work (.seen entered path) (.enter n :: rest)
        = work (.seen (entered ++ [⟨path, n⟩]) (path ++ [n]))
            (n.children.map .enter ++ .leave n :: rest) := by
          rw [work_cons, Task.perform, Tally.enter_seen n h, Task.tasks, List.append_assoc,
            List.singleton_append]
      _ = work (.seen (entered ++ n.places path) (path ++ [n])) (.leave n :: rest) := by
          rw [work_enters (fun m hm => ih m hm) _ hopen, List.append_assoc, List.singleton_append,
            Ast.places_eq]
      _ = work (.seen (entered ++ n.places path) path) rest := by
          rw [work_cons, Task.perform, Tally.leave_seen, Task.tasks, List.nil_append]

/-- A survey enters all places of the tree, and nothing is open at its end. -/
theorem survey_eq_seen (root : Ast) : survey root = .seen (root.places []) [] := by
  calc survey root = work (.seen [] []) [.enter root] := rfl
    _ = work (.seen (root.places []) []) [] := by
      rw [work_enter [] (Nat.zero_le _), List.nil_append]
    _ = .seen (root.places []) [] := by rw [work]

/-- The functions that are counted are those of the tree. -/
theorem functions_survey (root : Ast) :
    (survey root).functions = root.preorder.countP (fun n => n.kind = .functionDef) := by
  rw [survey_eq_seen]
  exact root.countP_places [] (fun n => n.kind = .functionDef)

@[inherit_doc functions_survey]
theorem loops_survey (root : Ast) :
    (survey root).loops = root.preorder.countP (fun n => n.kind.isLoop) := by
  rw [survey_eq_seen]
  exact root.countP_places [] (fun n => n.kind.isLoop)

@[inherit_doc functions_survey]
theorem conditionals_survey (root : Ast) :
    (survey root).conditionals = root.preorder.countP (fun n => n.kind.isConditional) := by
  rw [survey_eq_seen]
  exact root.countP_places [] (fun n => n.kind.isConditional)

/-- The open scopes are always those of the nodes that are still to be left. -/
theorem Reached.seen {root : Ast} {t : Tally} {stack : List Task} (h : Reached root t stack) :
    ∃ entered, t = .seen entered (openPath stack) ∧
      loopsOn (openPath stack) ≤ deepestOf entered := by
  induction h with
  | start => exact ⟨[], rfl, Nat.zero_le _⟩
  | @step t task rest _ ih =>
    obtain ⟨entered, rfl, hle⟩ := ih
    cases task with
    | enter n =>
      have hpath : openPath (Task.tasks (.enter n) ++ rest) = openPath rest ++ [n] := by
        rw [Task.tasks, List.append_assoc, openPath_enters, List.singleton_append, openPath]
      rw [hpath]
      refine ⟨entered ++ [⟨openPath rest, n⟩], ?_, ?_⟩
      · exact Tally.enter_seen n hle
      · simp only [deepestOf_concat, Place.path, le_max_right]
    | leave n =>
      refine ⟨entered, Tally.leave_seen entered (openPath rest) n, ?_⟩
      rw [openPath, loopsOn_concat] at hle
      exact (Nat.le_add_right _ _).trans hle

theorem Reached.work_eq {root : Ast} {t : Tally} {stack : List Task} (h : Reached root t stack) :
    work t stack = survey root := by
  induction h with
  | start => rfl
  | step _ ih => rw [← ih, work_cons]

theorem Reached.finish {root : Ast} {t : Tally} {stack : List Task} (h : Reached root t stack) :
    Reached root (work t stack) [] := by
  induction t, stack using work.induct with
  | case1 t => rwa [work]
  | case2 t task rest ih =>
    rw [work_cons]
    exact ih h.step

/-- The survey is where the run ends. -/
theorem reached_nil_iff {root : Ast} {t : Tally} : Reached root t [] ↔ t = survey root := by
  constructor
  · intro h
    rw [← h.work_eq, work]
  · rintro rfl
    exact Reached.start.finish

/-- No scope is closed that is not open: the innermost open function is the one that is left, and a
    loop that is left is among the open ones. -/
theorem Reached.open_of_leave {root n : Ast} {t : Tally} {rest : List Task}
    (h : Reached root t (.leave n :: rest)) :
    (∀ name, n.functionName? = some name → t.openFunctions.head? = some name) ∧
      (n.kind.isLoop → 0 < t.openLoops) := by
  obtain ⟨entered, rfl, -⟩ := h.seen
  constructor
  · intro name hname
    simp [Tally.seen, openPath, hname]
  · intro hn
    simp [Tally.seen, openPath, loopsOn_concat, hn]

theorem isGreatest_deepest (root : Ast) :
    IsGreatest {k | ∃ above n, root.Leads above n ∧ loopsOn (above ++ [n]) = k}
      (deepestOf (root.places [])) := by
  have hne : root.places [] ≠ [] := by simp [Ast.places_eq]
  obtain ⟨⟨⟨above, n⟩, hp, hk⟩, hle⟩ := isGreatest_deepestOf hne
  constructor
  · exact ⟨above, n, Ast.mem_places_iff.1 hp, hk⟩
  · rintro _ ⟨above, n, hn, rfl⟩
    exact hle ⟨⟨above, n⟩, Ast.mem_places_iff.2 hn, rfl⟩

/-- The survey of a tree counts its functions, loops and conditionals, finds the largest number of
    loops on a way down from the root, and lists, each once and in the order in which they are
    first met, the functions that are declared and those that are called inside themselves. No
    scope is closed on the way that is not open, and none is open at the end. -/
theorem survey_found (root : Ast) :
    (survey root).functions = root.preorder.countP (fun n => n.kind = .functionDef) ∧
      (survey root).loops = root.preorder.countP (fun n => n.kind.isLoop) ∧
      (survey root).conditionals = root.preorder.countP (fun n => n.kind.isConditional) ∧
      IsGreatest {k | ∃ above n, root.Leads above n ∧ loopsOn (above ++ [n]) = k}
        (survey root).deepest ∧
      (survey root).declared = (root.preorder.filterMap Ast.functionName?).eraseDups ∧
      (survey root).recursive = ((root.places []).filterMap Place.recursion?).eraseDups ∧
      (survey root).openLoops = 0 ∧ (survey root).openFunctions = [] ∧
      (∀ t, Reached root t [] ↔ t = survey root) ∧
      ∀ t n rest, Reached root t (.leave n :: rest) →
        (∀ name, n.functionName? = some name → t.openFunctions.head? = some name) ∧
          (n.kind.isLoop → 0 < t.openLoops) := by
  rw [survey_eq_seen]
  have hdeclared : (Tally.seen (root.places []) []).declared =
      (root.preorder.filterMap Ast.functionName?).eraseDups := by
    rw [Tally.seen, root.filterMap_places]
  refine ⟨root.countP_places [] (fun n => n.kind = .functionDef),
    root.countP_places [] (fun n => n.kind.isLoop),
    root.countP_places [] (fun n => n.kind.isConditional), isGreatest_deepest root, hdeclared,
    rfl, rfl, rfl, ?_, ?_⟩
  · intro t
    rw [reached_nil_iff, survey_eq_seen]
  · intro t n rest h
    exact h.open_of_leave

/-- A loop in a function without a name in a loop in a function that the innermost loop calls. -/
def retryFunction : Ast :=
  { kind := .functionDef
    name := some "retry"
    children :=
      [{ kind := .whileLoop
         children :=
          [{ kind := .functionDef
             name := some ""
             children :=
              [{ kind := .doWhile
                 children := [{ kind := .call, name := some "this->retry" }] }] }] }] }

theorem survey_found_retryFunction :
    (survey retryFunction).functions = 2 ∧ (survey retryFunction).recursive = ["retry"] ∧
      ∃ t, Reached retryFunction t [.leave retryFunction] ∧
        t.openFunctions.head? = some "retry" := by
  obtain ⟨hfunctions, -, -, -, -, hrecursive, -, -, -, hleave⟩ := survey_found retryFunction
  refine ⟨?_, ?_, ?_⟩
  · rw [hfunctions]
    decide
  · rw [hrecursive]
    decide
  · have h := (@Reached.start retryFunction).step.step.step.step.step.step.step.step.step
    exact ⟨_, h, (hleave _ _ _ h).1 "retry" (by decide)⟩

end Metrics

end FlowSketch
