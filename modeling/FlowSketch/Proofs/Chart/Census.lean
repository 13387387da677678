import FlowSketch.Proofs.Chart.Path
import FlowSketch.Proofs.Cst.Sides
import FlowSketch.Proofs.Metrics.Figures
import Mathlib.Data.List.Perm.Basic

/-!
# What is drawn and what is counted

A flowchart follows the slots of a tree and passes over all other children; a survey goes through
all children and asks for no slot. So a survey counts what is drawn, and besides what stands where
no visit goes. A node is drawn more than once only where the two sides of a branch are the same
child.

* `Ast.visitedAt`, `Ast.unvisited` — the positions of the children that are visited, and the
  children at all others.
* `Ast.reached`, `Ast.hidden` — the nodes of a tree that are visited, and those that are not.
* `Ast.VisitsEvery` — every node of some sort stands at a place that is visited.
* `Flowchart.Census` — how the counts of a flowchart and of a survey compare.

Results:

* `Ast.visited_append_unvisited_perm`: the children are the visited ones and the others.
* `Ast.reached_append_hidden_perm`: the nodes of a tree are those reached and those hidden.
* `Ast.visitsEvery_iff`: what stands at a place that is not visited is hidden, and nothing else is.
* `Flowchart.countP_nodes`: the nodes of a kind are the reached nodes that are drawn so.
* `Flowchart.counts_agree`: how many nodes a flowchart has, and how many a survey counts.
-/

namespace FlowSketch

/-- The members at the first positions are the first members. -/
theorem filterMap_getElem?_range {α : Type} (as : List α) (k : Nat) :
    (List.range k).filterMap (as[·]?) = as.take k := by
  induction k with
  | zero => rfl
  | succ k ih => rw [List.range_succ, Metrics.filterMap_concat, ih, List.take_add_one]

namespace Ast

open scoped List

variable {root n m : Ast} {d c : Draft} {p : Nat} {path : List Nat}

/-! ## Positions that are visited -/

instance (n : Ast) : Decidable n.RunsChildren := by unfold RunsChildren; infer_instance

/-- The position of the child in a slot. -/
def place? (n : Ast) (slot : Slot) : Option Nat :=
  (n.slots.get slot).filter (· < n.children.length)

/-- The positions of the children that are visited, in the order in which they are. -/
def visitedAt (n : Ast) : List Nat :=
  if n.RunsChildren then List.range n.children.length else n.kind.visitedSlots.filterMap n.place?

/-- The positions of the children that are not visited. -/
def passedAt (n : Ast) : List Nat := (List.range n.children.length).filter (· ∉ n.visitedAt)

/-- The children at the positions that are not visited. -/
def unvisited (n : Ast) : List Ast := n.passedAt.filterMap (n.children[·]?)

theorem child?_eq_place? (n : Ast) (slot : Slot) :
    n.child? slot = (n.place? slot).bind (n.children[·]?) := by
  unfold child? place?
  cases n.slots.get slot with
  | none => rfl
  | some i =>
    by_cases hi : i < n.children.length
    · simp [Option.filter, hi]
    · simp [Option.filter, hi]

theorem visited_eq_filterMap (n : Ast) : n.visited = n.visitedAt.filterMap (n.children[·]?) := by
  unfold visitedAt
  split_ifs with hruns
  · rw [hruns.visited, filterMap_getElem?_range, List.take_length]
  · rw [visited_of_not_runsChildren hruns, List.filterMap_filterMap]
    induction n.kind.visitedSlots with
    | nil => rfl
    | cons slot slots ih =>
      rw [List.flatMap_cons, ih, child?_eq_place?, List.filterMap_cons]
      cases (n.place? slot).bind (n.children[·]?) <;> rfl

theorem place?_lt {slot : Slot} (h : n.place? slot = some p) : p < n.children.length := by
  simpa using (Option.filter_eq_some_iff.1 h).2

theorem lt_of_mem_visitedAt (h : p ∈ n.visitedAt) : p < n.children.length := by
  unfold visitedAt at h
  split_ifs at h
  · exact List.mem_range.1 h
  · obtain ⟨slot, -, hp⟩ := List.mem_filterMap.1 h
    exact place?_lt hp

theorem slot_of_place? {slot : Slot} (h : n.place? slot = some p) : n.slots.get slot = some p :=
  (Option.filter_eq_some_iff.1 h).1

/-- No child is visited twice, unless it is on both sides of a branch. -/
theorem nodup_visitedAt (h : n.kind = .ifStmt → ∀ i < n.children.length,
    n.slots.body = some i → n.slots.elseBranch ≠ some i) : n.visitedAt.Nodup := by
  have hone : ∀ slot, ([slot].filterMap n.place?).Nodup := by
    intro slot
    cases hp : n.place? slot <;> simp [hp]
  unfold visitedAt
  split_ifs
  · exact List.nodup_range
  · cases hk : n.kind with
    | ifStmt =>
      show ([.body, .elseBranch].filterMap n.place?).Nodup
      cases hb : n.place? .body with
      | none => simpa [hb] using hone .elseBranch
      | some i =>
        cases he : n.place? .elseBranch with
        | none => simp [hb, he]
        | some j =>
          have hne : i ≠ j := by
            rintro rfl
            exact h hk i (place?_lt hb) (slot_of_place? hb) (slot_of_place? he)
          simp [hb, he, hne]
    | functionDef | elseClause | forLoop | whileLoop | doWhile => exact hone .body
    | compoundBlock | returnStmt | declaration | call | binaryOp | switchStmt | other =>
      exact List.nodup_nil

/-- The children are the visited ones and the others. -/
theorem visited_append_unvisited_perm (h : n.visitedAt.Nodup) :
    (n.visited ++ n.unvisited).Perm n.children := by
  have hvisited : n.visitedAt.Perm ((List.range n.children.length).filter (· ∈ n.visitedAt)) := by
    rw [List.perm_ext_iff_of_nodup h (List.nodup_range.filter _)]
    intro p
    simp only [List.mem_filter, List.mem_range, decide_eq_true_eq]
    exact ⟨fun hp => ⟨lt_of_mem_visitedAt hp, hp⟩, fun hp => hp.2⟩
  have hall : (n.visitedAt ++ n.passedAt).Perm (List.range n.children.length) := by
    refine (hvisited.append_right _).trans ?_
    simpa [passedAt] using List.filter_append_perm (· ∈ n.visitedAt) (List.range n.children.length)
  have hchildren := hall.filterMap (n.children[·]?)
  rwa [List.filterMap_append, ← visited_eq_filterMap, filterMap_getElem?_range,
    List.take_length] at hchildren

/-! ## Nodes that are visited -/

/-- The nodes of a tree that are visited, in pre-order. -/
def reached (n : Ast) : List Ast := n :: n.visited.attach.flatMap (fun m => m.1.reached)
termination_by sizeOf n
decreasing_by exact sizeOf_lt_of_mem_children (mem_children_of_mem_visited m.2)

/-- The nodes of a tree that are not visited. -/
def hidden (n : Ast) : List Ast :=
  n.unvisited.flatMap preorder ++ n.visited.attach.flatMap (fun m => m.1.hidden)
termination_by sizeOf n
decreasing_by exact sizeOf_lt_of_mem_children (mem_children_of_mem_visited m.2)

theorem reached_eq (n : Ast) : n.reached = n :: n.visited.flatMap reached := by
  rw [reached, List.flatMap_subtype (g := reached) (by simp), List.unattach_attach]

theorem hidden_eq (n : Ast) :
    n.hidden = n.unvisited.flatMap preorder ++ n.visited.flatMap hidden := by
  rw [hidden, List.flatMap_subtype (g := hidden) (by simp), List.unattach_attach]

theorem SidesApart.visitedAt (h : n.SidesApart) : n.visitedAt.Nodup :=
  nodup_visitedAt (forall_mem_preorder_iff.1 h).1

/-- The nodes of a tree are those that are visited and those that are not. -/
theorem reached_append_hidden_perm (h : n.SidesApart) :
    (n.reached ++ n.hidden).Perm n.preorder := by
  induction n using Ast.induction with
  | node n ih =>
    have hvisited : (n.visited.flatMap reached ++ n.visited.flatMap hidden).Perm
        (n.visited.flatMap preorder) := by
      refine (List.flatMap_append_perm n.visited reached hidden).trans (.flatMap_left _ ?_)
      intro m hm
      have hchild := mem_children_of_mem_visited hm
      exact ih m hchild (h.child hchild)
    rw [reached_eq, hidden_eq, preorder_eq, preorderAll_eq_flatMap, List.cons_append]
    refine .cons n ?_
    calc n.visited.flatMap reached ++ (n.unvisited.flatMap preorder ++ n.visited.flatMap hidden)
      _ ~ n.visited.flatMap reached ++ (n.visited.flatMap hidden ++ n.unvisited.flatMap preorder) :=
          (List.perm_append_comm).append_left _
      _ ~ n.visited.flatMap preorder ++ n.unvisited.flatMap preorder := by
          rw [← List.append_assoc]
          exact hvisited.append_right _
      _ = (n.visited ++ n.unvisited).flatMap preorder := List.flatMap_append.symm
      _ ~ n.children.flatMap preorder := (visited_append_unvisited_perm h.visitedAt).flatMap_right _

/-! ## Places that are not visited -/

/-- Every node of some sort stands at a place that is visited. -/
def VisitsEvery (root : Ast) (sort : Ast → Prop) : Prop :=
  ∀ path n, root.at? path = some n → sort n → ∃ d, root.Along {} path n d

theorem Below.mem_visitedAt (h : n.Below d p m c) : p ∈ n.visitedAt := by
  have hp := h.getElem?
  have hlt : p < n.children.length := (List.getElem?_eq_some_iff.1 hp).1
  have hslot : ∀ slot, n.slots.get slot = some p → n.place? slot = some p := by
    intro slot hs
    rw [place?, hs, Option.filter_some, if_pos (by simpa using hlt)]
  unfold visitedAt
  split_ifs with hruns
  · exact List.mem_range.2 hlt
  · cases h with
    | child runs _ => exact absurd runs hruns
    | body kind hs _ =>
      have hb : n.place? .body = some p := hslot .body hs
      refine List.mem_filterMap.2 ⟨.body, ?_, hb⟩
      rcases kind with hk | hk
      · cases h : n.kind <;> simp_all [Kind.governs, Kind.visitedSlots]
      · simp [hk, Kind.visitedSlots]
    | elseBranch kind hs _ =>
      have he : n.place? .elseBranch = some p := hslot .elseBranch hs
      refine List.mem_filterMap.2 ⟨.elseBranch, ?_, he⟩
      simp [kind, Kind.visitedSlots]

theorem exists_at_of_mem_preorder (h : m ∈ n.preorder) : ∃ path, n.at? path = some m := by
  induction n using Ast.induction with
  | node n ih =>
    rw [preorder_eq, preorderAll_eq_flatMap, List.mem_cons, List.mem_flatMap] at h
    rcases h with rfl | ⟨c, hc, hm⟩
    · exact ⟨[], rfl⟩
    · obtain ⟨p, hp⟩ := List.mem_iff_getElem?.1 hc
      obtain ⟨path, hpath⟩ := ih c hc hm
      exact ⟨p :: path, at?_cons_eq_some_iff.2 ⟨c, hp, hpath⟩⟩

theorem mem_preorder_of_at? (h : n.at? path = some m) : m ∈ n.preorder := by
  induction path generalizing n with
  | nil =>
    obtain rfl : n = m := Option.some.inj h
    rw [preorder_eq]
    exact List.mem_cons_self
  | cons p path ih =>
    obtain ⟨c, hc, hpath⟩ := at?_cons_eq_some_iff.1 h
    rw [preorder_eq, preorderAll_eq_flatMap]
    exact List.mem_cons_of_mem n
      (List.mem_flatMap.2 ⟨c, List.mem_of_getElem? hc, ih hpath⟩)

/-- A hidden node stands at a place that no visit comes to. -/
theorem exists_place_of_mem_hidden (h : m ∈ n.hidden) :
    ∃ path, n.at? path = some m ∧ ∀ d f c, ¬n.Along d path f c := by
  induction n using Ast.induction with
  | node n ih =>
    rw [hidden_eq, List.mem_append, List.mem_flatMap, List.mem_flatMap] at h
    rcases h with ⟨c, hc, hm⟩ | ⟨c, hc, hm⟩
    · -- the way leads through a child that is not visited
      obtain ⟨p, hp, hpc⟩ := List.mem_filterMap.1 hc
      obtain ⟨path, hpath⟩ := exists_at_of_mem_preorder hm
      refine ⟨p :: path, at?_cons_eq_some_iff.2 ⟨c, hpc, hpath⟩, fun d f e halong => ?_⟩
      obtain ⟨k, e', hbelow, -⟩ := along_cons_iff.1 halong
      have hpassed := (List.mem_filter.1 hp).2
      exact absurd hbelow.mem_visitedAt (by simpa using hpassed)
    · -- the child is visited, but what is below it is not
      have hchild := mem_children_of_mem_visited hc
      obtain ⟨p, hp⟩ := List.mem_iff_getElem?.1 hchild
      obtain ⟨path, hpath, hnot⟩ := ih c hchild hm
      refine ⟨p :: path, at?_cons_eq_some_iff.2 ⟨c, hp, hpath⟩, fun d f e halong => ?_⟩
      obtain ⟨k, e', hbelow, hrest⟩ := along_cons_iff.1 halong
      obtain rfl : c = k := Option.some.inj (hp.symm.trans hbelow.getElem?)
      exact hnot e' f e hrest

/-- The child at a position that is visited is visited. -/
theorem exists_below_of_mem_visitedAt (hp : p ∈ n.visitedAt) (hm : n.children[p]? = some m)
    (d : Draft) : ∃ c, n.Below d p m c := by
  unfold visitedAt at hp
  split_ifs at hp with hruns
  · exact ⟨_, .child hruns hm⟩
  · obtain ⟨slot, hslot, hplace⟩ := List.mem_filterMap.1 hp
    have hs := slot_of_place? hplace
    cases hk : n.kind <;> simp only [hk, Kind.visitedSlots, List.mem_cons, List.not_mem_nil,
      or_false] at hslot
    case ifStmt =>
      rcases hslot with rfl | rfl
      · exact ⟨_, .body (.inl (by rw [hk]; rfl)) hs hm⟩
      · exact ⟨_, .elseBranch hk hs hm⟩
    case elseClause =>
      obtain rfl := hslot
      exact ⟨_, .body (.inr hk) hs hm⟩
    all_goals
      obtain rfl := hslot
      exact ⟨_, .body (.inl (by rw [hk]; rfl)) hs hm⟩

/-- A place is visited, or the node there is hidden. -/
theorem exists_along_or_mem_hidden (h : n.at? path = some m) (d : Draft) :
    (∃ c, n.Along d path m c) ∨ m ∈ n.hidden := by
  induction path generalizing n d with
  | nil =>
    obtain rfl : n = m := Option.some.inj h
    exact .inl ⟨d, .here n d⟩
  | cons p path ih =>
    obtain ⟨k, hk, hpath⟩ := at?_cons_eq_some_iff.1 h
    rw [hidden_eq, List.mem_append, List.mem_flatMap, List.mem_flatMap]
    by_cases hp : p ∈ n.visitedAt
    · obtain ⟨e, hbelow⟩ := exists_below_of_mem_visitedAt hp hk d
      rcases ih hpath e with ⟨c, halong⟩ | hhidden
      · exact .inl ⟨c, .further hbelow halong⟩
      · rw [visited_eq_filterMap]
        exact .inr (.inr ⟨k, List.mem_filterMap.2 ⟨p, hp, hk⟩, hhidden⟩)
    · have hpassed : p ∈ n.passedAt := by
        have hlt := (List.getElem?_eq_some_iff.1 hk).1
        simp [passedAt, hp, hlt]
      exact .inr (.inl ⟨k, List.mem_filterMap.2 ⟨p, hpassed, hk⟩, mem_preorder_of_at? hpath⟩)

/-- Every node of some sort stands at a place that is visited exactly when none is hidden. -/
theorem visitsEvery_iff {sort : Ast → Prop} :
    n.VisitsEvery sort ↔ ∀ m ∈ n.hidden, ¬sort m := by
  constructor
  · intro h m hm hsort
    obtain ⟨path, hpath, hnot⟩ := exists_place_of_mem_hidden hm
    obtain ⟨d, halong⟩ := h path m hpath hsort
    exact hnot {} m d halong
  · intro h path m hpath hsort
    exact (exists_along_or_mem_hidden hpath {}).resolve_right fun hm => h m hm hsort

/-! ## Counting kinds -/

/-- No more nodes of some kinds are reached than there are. -/
theorem countP_reached_le (h : n.SidesApart) (sort : Kind → Bool) :
    n.reached.countP (fun m => sort m.kind) ≤ n.preorder.countP (fun m => sort m.kind) := by
  rw [← (reached_append_hidden_perm h).countP_eq, List.countP_append]
  exact Nat.le_add_right _ _

/-- All nodes of some kinds are reached if they all stand at places that are visited. -/
theorem countP_reached_eq (h : n.SidesApart) (sort : Kind → Bool)
    (hvisits : n.VisitsEvery (fun m => sort m.kind)) :
    n.reached.countP (fun m => sort m.kind) = n.preorder.countP (fun m => sort m.kind) := by
  have hhidden : n.hidden.countP (fun m => sort m.kind) = 0 :=
    List.countP_eq_zero.2 (visitsEvery_iff.1 hvisits)
  rw [← (reached_append_hidden_perm h).countP_eq, List.countP_append, hhidden, Nat.add_zero]

theorem length_reached_le (h : n.SidesApart) : n.reached.length ≤ n.preorder.length := by
  rw [← (reached_append_hidden_perm h).length_eq, List.length_append]
  exact Nat.le_add_right _ _

/-- What is listed are the nodes that are reached, without blocks and `else` clauses. -/
theorem listing_eq_filterMap (n : Ast) : n.listing =
    n.reached.filterMap (fun m => m.kind.flowKind?.map (fun kind => (kind, m.label))) := by
  induction n using Ast.induction with
  | node n ih =>
    have hvisited : n.visited.flatMap listing = n.visited.flatMap (fun m =>
        m.reached.filterMap (fun m => m.kind.flowKind?.map (fun kind => (kind, m.label)))) :=
      List.flatMap_congr fun m hm => ih m (mem_children_of_mem_visited hm)
    rw [listing_eq, reached_eq, List.filterMap_cons, List.filterMap_flatMap, ← hvisited]
    cases n.kind.flowKind? <;> rfl

end Ast

namespace Flowchart

variable {limit : Int} {root : Ast} {chart : Flowchart}

/-- The nodes of a flowchart have the kinds of the nodes that are reached, in order. -/
theorem map_kind_nodes (h : (ofAst limit root).outcome = .ok chart) :
    chart.nodes.map (·.kind) = root.reached.filterMap (·.kind.flowKind?) := by
  obtain ⟨malformed, rfl⟩ := eq_ofProgram_of_ofAst h
  have hfigures := map_figure_numberFrom 0 root.program.listing
  rw [← nodes_ofProgram root.program malformed, Ast.listing_program,
    Ast.listing_eq_filterMap] at hfigures
  have hkinds := congrArg (List.map Prod.fst) hfigures
  rw [List.map_map, List.map_filterMap] at hkinds
  simpa [Function.comp_def] using hkinds

/-- The nodes of some kinds are those that nodes of some kinds of the tree are drawn as. -/
theorem countP_nodes (h : (ofAst limit root).outcome = .ok chart) (drawn : FlowKind → Bool)
    (sort : Kind → Bool) (hsort : ∀ kind, kind.flowKind?.any drawn = sort kind) :
    chart.nodes.countP (fun node => drawn node.kind) =
      root.reached.countP (fun m => sort m.kind) := by
  have hmap : chart.nodes.countP (fun node => drawn node.kind) =
      (chart.nodes.map (·.kind)).countP drawn := by
    rw [List.countP_map]
    rfl
  rw [hmap, map_kind_nodes h, List.countP_filterMap]
  refine List.countP_congr fun m _ => ?_
  rw [← hsort]
  cases m.kind.flowKind? <;> simp

/-! ## What is drawn and what is counted -/

/-- How many nodes of each kind a flowchart of a tree has, and how many a survey has counted. -/
structure Census (chart : Flowchart) (root : Ast) (counted : Metrics.Tally) : Prop where
  functions_le : chart.nodes.countP (fun node => node.kind = .function) ≤ counted.functions
  loops_le : chart.nodes.countP (fun node => node.kind.isLoop) ≤ counted.loops
  branches_le : chart.nodes.countP (fun node => node.kind = .branch) ≤ counted.conditionals
  nodes_le : chart.nodes.length ≤ root.preorder.length
  functions_eq : root.VisitsEvery (fun n => n.kind = .functionDef) →
    chart.nodes.countP (fun node => node.kind = .function) = counted.functions
  loops_eq : root.VisitsEvery (fun n => n.kind.isLoop) →
    chart.nodes.countP (fun node => node.kind.isLoop) = counted.loops

theorem census (hsides : root.SidesApart) (h : (ofAst limit root).outcome = .ok chart) :
    chart.Census root (Metrics.survey root) := by
  have hfunctions := countP_nodes h (fun kind => kind = .function) (fun kind => kind = .functionDef)
    (fun kind => by cases kind <;> rfl)
  have hloops := countP_nodes h FlowKind.isLoop Kind.isLoop (fun kind => by cases kind <;> rfl)
  have hbranches := countP_nodes h (fun kind => kind = .branch) (fun kind => kind = .ifStmt)
    (fun kind => by cases kind <;> rfl)
  constructor
  case functions_le =>
    rw [hfunctions, Metrics.functions_survey]
    exact Ast.countP_reached_le hsides (fun kind => kind = .functionDef)
  case loops_le =>
    rw [hloops, Metrics.loops_survey]
    exact Ast.countP_reached_le hsides Kind.isLoop
  case branches_le =>
    rw [hbranches, Metrics.conditionals_survey]
    refine (Ast.countP_reached_le hsides (fun kind => kind = .ifStmt)).trans ?_
    -- a switch is counted as well
    refine List.countP_mono_left fun n _ hn => ?_
    rw [of_decide_eq_true hn]
    rfl
  case nodes_le =>
    have hlength := congrArg List.length (map_kind_nodes h)
    rw [List.length_map] at hlength
    rw [hlength]
    exact (List.length_filterMap_le _ _).trans (Ast.length_reached_le hsides)
  case functions_eq =>
    intro hvisits
    rw [hfunctions, Metrics.functions_survey]
    exact Ast.countP_reached_eq hsides (fun kind => kind = .functionDef)
      fun path n hat hn => hvisits path n hat (of_decide_eq_true hn)
  case loops_eq =>
    intro hvisits
    rw [hloops, Metrics.loops_survey]
    exact Ast.countP_reached_eq hsides Kind.isLoop hvisits

/-- The two analyses of one tree agree on what exists, if the tree has its sides apart. The tree of
    a source always has. -/
theorem counts_agree :
    (∀ (grammar : String → Cst) (limit : Int) (source : String) (root : Ast),
      (Cst.parse grammar limit source).outcome = .ok root → root.SidesApart) ∧
    ∀ (limit : Int) (root : Ast) (chart : Flowchart),
      root.SidesApart → (ofAst limit root).outcome = .ok chart →
        chart.Census root (Metrics.survey root) ∧
        ∀ (source : String) (figures : Metrics),
          (Metrics.analyze (some root) source).outcome = .ok figures →
            figures.functions = (Metrics.survey root).functions ∧
            figures.loops = (Metrics.survey root).loops ∧
            figures.conditionals = (Metrics.survey root).conditionals := by
  refine ⟨fun grammar limit source root h => Cst.sidesApart_of_parse h, ?_⟩
  intro limit root chart hsides h
  refine ⟨census hsides h, fun source figures hfigures => ?_⟩
  obtain ⟨_, _, _, rfl⟩ := Metrics.ofTally_eq_ok (Metrics.analyze_eq_ok hfigures).2
  exact ⟨rfl, rfl, rfl⟩

end Flowchart

/-- The text `void f(){for(;;)switch(x)for(;;);}`, as far as its parts are told apart. -/
def Cst.loopInSwitch : Cst where
  type := "translation_unit"
  start := 0
  stop := 34
  row := 0
  column := 0
  children := [
    { type := "function_definition", start := 0, stop := 34, row := 0, column := 0
      children := [
        { type := "compound_statement", start := 8, stop := 34, row := 0, column := 8
          field := some "body"
          children := [
            { type := "for_statement", start := 9, stop := 33, row := 0, column := 9
              children := [
                { type := "switch_statement", start := 16, stop := 33, row := 0, column := 16
                  field := some "body"
                  children := [
                    { type := "for_statement", start := 25, stop := 33, row := 0, column := 25
                      field := some "body" }] }] }] }] }]

/-- The tree of that text. -/
def Ast.loopInSwitch : Ast where
  kind := .compoundBlock
  text := "void f(){for(;;)switch(x)for(;;);}"
  line := 1
  children := [
    { kind := .functionDef, text := "void f(){for(;;)switch(x)for(;;);}", line := 1
      slots := { body := some 0 }
      children := [
        { kind := .compoundBlock, text := "{for(;;)switch(x)for(;;);}", line := 1
          children := [
            { kind := .forLoop, text := "for(;;)switch(x)for(;;);", line := 1
              slots := { body := some 0 }
              children := [
                { kind := .switchStmt, text := "switch(x)for(;;);", line := 1
                  slots := { body := some 0 }
                  children := [{ kind := .forLoop, text := "for(;;);", line := 1 }] }] }] }] }]

/-- The only function is visited and drawn; the loop in the `switch` is counted and not drawn. -/
theorem Flowchart.counts_agree_loopInSwitch :
    (Cst.parse (fun _ => Cst.loopInSwitch) 200 "void f(){for(;;)switch(x)for(;;);}").outcome =
      .ok Ast.loopInSwitch ∧
    Ast.loopInSwitch.VisitsEvery (fun n => n.kind = .functionDef) ∧
    ∃ chart figures, (ofAst 200 Ast.loopInSwitch).outcome = .ok chart ∧
      (Metrics.analyze (some Ast.loopInSwitch) "void f(){for(;;)switch(x)for(;;);}").outcome =
        .ok figures ∧
      chart.nodes.countP (fun node => node.kind = .function) = figures.functions ∧
      chart.nodes.countP (fun node => node.kind.isLoop) = 1 ∧ figures.loops = 2 := by
  have hparse : (Cst.parse (fun _ => Cst.loopInSwitch) 200
      "void f(){for(;;)switch(x)for(;;);}").outcome = .ok Ast.loopInSwitch := rfl
  have hvisits : Ast.loopInSwitch.VisitsEvery (fun n => n.kind = .functionDef) := by
    rw [Ast.visitsEvery_iff]
    decide +kernel
  have hchart : (ofAst 200 Ast.loopInSwitch).outcome = .ok
      { nodes := [⟨0, .function, "Function: <anonymous>"⟩, ⟨1, .forLoop, "for (;;)"⟩,
          ⟨2, .other, "switch(x)for(;;);"⟩]
        edges := [⟨1, 2, .body⟩, ⟨2, 1, .loop⟩, ⟨0, 1, .next⟩]
        entry := some 0
        malformed :=
          [⟨.functionDef, .functionWithoutName, "void f(){for(;;)switch(x)for(;;);}", 1⟩] } := rfl
  have hfigures : (Metrics.analyze (some Ast.loopInSwitch)
      "void f(){for(;;)switch(x)for(;;);}").outcome = .ok
        { lines := 1, functions := 1, loops := 2, nested := 1, recursion := 0, conditionals := 1
          complexity := .quadratic, score := 100, insights := [], recursive := [] } := by
    simp only [Metrics.analyze, Metrics.survey_eq_seen]
    decide +kernel
  obtain ⟨hapart, hagree⟩ := counts_agree
  obtain ⟨hcensus, hcounts⟩ := hagree _ _ _ (hapart _ _ _ _ hparse) hchart
  refine ⟨hparse, hvisits, _, _, hchart, hfigures, ?_, rfl, rfl⟩
  rw [(hcounts _ _ hfigures).1]
  exact hcensus.functions_eq hvisits

end FlowSketch
