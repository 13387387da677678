import FlowSketch.Proofs.Chart.Path

/-!
# Trees redrawn with other edges

A tree changed at one place may be drawn with the same nodes and only its edges made in another
order there. Every statement around the place then carries the change on as it is: the nodes, the
entry and the exits of what it governs are the same, and its own edges are made from these.

How the edges may differ is a parameter, so that the same argument serves for edges in another order
and for edges that are the same.

* `EdgeCongruence` — a relation between lists of edges that is kept when they are put together.
* `Region.Redraws`, `Stmt.Redraws`, `Ast.Redraws`, `Flowchart.Redraws` — the same but for the edges.
* `Ast.ReadsLabelAt` — the label of the node above a place is read from the node there.

Results:

* `Region.Redraws.seq`, `Region.Redraws.branch`, `Region.Redraws.loop`, `Region.Redraws.function`:
  each combinator carries the change on.
* `Ast.Redraws.of_visited`: so does a node, from the nodes that are visited from it.
* `Ast.redraws_modifyAt`: hence a whole tree, from the node at the place.
* `Ast.Redraws.chart`: the flowchart is the same but for the edges.
-/

namespace FlowSketch

/-- A relation between lists of edges that is kept when lists are put together. -/
structure EdgeCongruence (E : List FlowEdge → List FlowEdge → Prop) : Prop where
  refl : ∀ es, E es es
  trans : ∀ {es fs gs}, E es fs → E fs gs → E es gs
  append : ∀ {es es' fs fs'}, E es es' → E fs fs' → E (es ++ fs) (es' ++ fs')

theorem EdgeCongruence.perm : EdgeCongruence List.Perm := ⟨.refl, .trans, .append⟩

theorem EdgeCongruence.eq : EdgeCongruence Eq :=
  ⟨fun _ => rfl, Eq.trans, fun h h' => by rw [h, h']⟩

variable {E : List FlowEdge → List FlowEdge → Prop}

/-! ## Regions -/

namespace Region

/-- A region is another one but for its edges. -/
def Redraws (E : List FlowEdge → List FlowEdge → Prop) (r r' : Region) : Prop :=
  ∃ es, r' = { r with edges := es } ∧ E r.edges es

namespace Redraws

variable {r r' s s' : Region}

theorem refl (hE : EdgeCongruence E) (r : Region) : Redraws E r r := ⟨r.edges, rfl, hE.refl _⟩

theorem trans (hE : EdgeCongruence E) {t : Region} (h : Redraws E r s) (h' : Redraws E s t) :
    Redraws E r t := by
  obtain ⟨es, rfl, hes⟩ := h
  obtain ⟨fs, rfl, hfs⟩ := h'
  exact ⟨fs, rfl, hE.trans hes hfs⟩

theorem stop_eq (h : Redraws E r r') : r'.stop = r.stop := by
  obtain ⟨es, rfl, -⟩ := h
  rfl

theorem detached (h : Redraws E r r') : Redraws E r.detached r'.detached := by
  obtain ⟨es, rfl, hes⟩ := h
  exact ⟨es, rfl, hes⟩

theorem seq (hE : EdgeCongruence E) (h : Redraws E r r') (hs : Redraws E s s') :
    Redraws E (r.seq s) (r'.seq s') := by
  obtain ⟨es, rfl, hes⟩ := h
  obtain ⟨fs, rfl, hfs⟩ := hs
  exact ⟨_, rfl, hE.append (hE.append hes hfs) (hE.refl _)⟩

theorem branch (hE : EdgeCongruence E) (i : Int) (label : String) (hr : Redraws E r r')
    (hs : Redraws E s s') : Redraws E (branch i label r s) (branch i label r' s') := by
  obtain ⟨es, rfl, hes⟩ := hr
  obtain ⟨fs, rfl, hfs⟩ := hs
  exact ⟨_, rfl, hE.append (hE.append hes (hE.refl _)) (hE.append hfs (hE.refl _))⟩

/-- With which labels the exits of a body go back is told by its nodes. -/
theorem loop (hE : EdgeCongruence E) (i : Int) (form : LoopForm) (label : String)
    (h : Redraws E r r') : Redraws E (loop i form label r) (loop i form label r') := by
  obtain ⟨es, rfl, hes⟩ := h
  exact ⟨_, rfl, hE.append hes (hE.refl _)⟩

theorem function (hE : EdgeCongruence E) (i : Int) (label : String) (h : Redraws E r r') :
    Redraws E (function i label r) (function i label r') := by
  obtain ⟨es, rfl, hes⟩ := h
  exact ⟨_, rfl, hE.append hes (hE.refl _)⟩

end Redraws

end Region

/-! ## Statements -/

namespace Stmt

/-- A statement is drawn as another one but for its edges, wherever its ids begin. -/
structure Redraws (E : List FlowEdge → List FlowEdge → Prop) (s s' : Stmt) : Prop where
  isFunction_eq : s'.isFunction = s.isFunction
  region : ∀ i, Region.Redraws E (s.region i) (s'.region i)

namespace Redraws

variable {s s' : Stmt} {stmts stmts' : List Stmt}

theorem refl (hE : EdgeCongruence E) (s : Stmt) : Redraws E s s := ⟨rfl, fun _ => .refl hE _⟩

theorem size_eq (h : Redraws E s s') : s'.size = s.size := by
  have hstop := (h.region 0).stop_eq
  rw [region_stop, region_stop] at hstop
  omega

theorem member (h : Redraws E s s') (i : Int) : Region.Redraws E (s.member i) (s'.member i) := by
  unfold Stmt.member
  rw [h.isFunction_eq]
  split_ifs
  · exact (h.region i).detached
  · exact h.region i

theorem all (hE : EdgeCongruence E) (h : List.Forall₂ (Redraws E) stmts stmts') {r r' : Region}
    (hr : Region.Redraws E r r') :
    Region.Redraws E (regionAll stmts r) (regionAll stmts' r') := by
  induction h generalizing r r' with
  | nil => rwa [regionAll, regionAll]
  | cons hs _ ih =>
    rw [regionAll_cons, regionAll_cons, hr.stop_eq]
    exact ih (hr.seq hE (hs.member _))

theorem block (hE : EdgeCongruence E) (h : List.Forall₂ (Redraws E) stmts stmts') :
    Redraws E (.block stmts) (.block stmts') := by
  refine ⟨rfl, fun i => ?_⟩
  rw [Stmt.region, Stmt.region]
  exact all hE h (.refl hE _)

theorem branch (hE : EdgeCongruence E) (label : String) {yes yes' no no' : Stmt}
    (hy : Redraws E yes yes') (hn : Redraws E no no') :
    Redraws E (.branch label yes no) (.branch label yes' no') := by
  refine ⟨rfl, fun i => ?_⟩
  rw [Stmt.region, Stmt.region, hy.size_eq]
  exact .branch hE i label (hy.region _) (hn.region _)

theorem loop (hE : EdgeCongruence E) (form : LoopForm) (label : String) (h : Redraws E s s') :
    Redraws E (.loop form label s) (.loop form label s') := by
  refine ⟨rfl, fun i => ?_⟩
  rw [Stmt.region, Stmt.region]
  exact .loop hE i form label (h.region _)

theorem function (hE : EdgeCongruence E) (label : String) (h : Redraws E s s') :
    Redraws E (.function label s) (.function label s') := by
  refine ⟨rfl, fun i => ?_⟩
  rw [Stmt.region, Stmt.region]
  exact .function hE i label (h.region _)

end Redraws

end Stmt

/-! ## Trees -/

namespace Ast

variable {n n' f : Ast} {path : List Nat}

/-- A tree is drawn as another one but for its edges, and lacks the same. -/
structure Redraws (E : List FlowEdge → List FlowEdge → Prop) (n n' : Ast) : Prop where
  program : Stmt.Redraws E n.program n'.program
  same_notes : n'.notes = n.notes

theorem Redraws.refl (hE : EdgeCongruence E) (n : Ast) : Redraws E n n := ⟨.refl hE _, rfl⟩

theorem Redraws.flatMap_notes {ns ns' : List Ast} (h : List.Forall₂ (Redraws E) ns ns') :
    ns'.flatMap notes = ns.flatMap notes := by
  induction h with
  | nil => rfl
  | cons hm _ ih => rw [List.flatMap_cons, List.flatMap_cons, hm.same_notes, ih]

section Members

variable {α : Type} {R : α → α → Prop} {as bs : List α} {a b : α}

theorem rel_headD (h : List.Forall₂ R as bs) (hab : R a b) : R (as.headD a) (bs.headD b) := by
  cases h with
  | nil => exact hab
  | cons hhead _ => exact hhead

theorem rel_getLastD (h : List.Forall₂ R as bs) (hab : R a b) :
    R (as.getLastD a) (bs.getLastD b) := by
  induction h generalizing a b with
  | nil => exact hab
  | cons hhead _ ih =>
    rw [List.getLastD_cons, List.getLastD_cons]
    exact ih hhead

end Members

/-- The statement of a node is redrawn if those that it is put together from are. -/
theorem redraws_assemble (hE : EdgeCongruence E) (hheader : SameHeader n' n)
    (hslots : ∀ slot, (n'.child? slot).isSome = (n.child? slot).isSome) {stmts stmts' : List Stmt}
    (h : List.Forall₂ (Stmt.Redraws E) stmts stmts') :
    Stmt.Redraws E (n.assemble stmts) (n'.assemble stmts') := by
  have hempty : Stmt.Redraws E (.block []) (.block []) := .refl hE _
  unfold assemble
  rw [hheader.kind, hheader.label_eq, hslots, hslots]
  cases hk : n.kind <;> simp only [Kind.loopForm?]
  case functionDef =>
    refine .function hE _ ?_
    split_ifs
    · exact rel_headD h hempty
    · exact .block hE h
  case compoundBlock => exact .block hE h
  case elseClause => exact .block hE h
  case ifStmt =>
    refine .branch hE _ ?_ ?_ <;> split_ifs
    · exact rel_headD h hempty
    · exact hempty
    · exact rel_getLastD h hempty
    · exact hempty
  case forLoop => exact .loop hE _ _ (rel_headD h hempty)
  case whileLoop => exact .loop hE _ _ (rel_headD h hempty)
  case doWhile => exact .loop hE _ _ (rel_headD h hempty)
  all_goals exact .refl hE _

/-- A node is redrawn if the nodes that are visited from it are. -/
theorem Redraws.of_visited (hE : EdgeCongruence E) (hheader : SameHeader n' n)
    (hslots : ∀ slot, (n'.child? slot).isSome = (n.child? slot).isSome)
    (h : List.Forall₂ (Redraws E) n.visited n'.visited) : Redraws E n n' := by
  constructor
  case program =>
    rw [program_eq_assemble, program_eq_assemble]
    refine redraws_assemble hE hheader hslots ?_
    rw [List.forall₂_map_left_iff, List.forall₂_map_right_iff]
    exact h.imp fun _ _ hm => hm.program
  case same_notes =>
    have hself : n'.self.map malformed? = n.self.map malformed? := by
      unfold self
      rw [hheader.kind, List.map_map, List.map_map]
      exact List.map_congr_left fun _ _ => hheader.malformed?_eq
    rw [notes_eq, notes_eq, hself, Redraws.flatMap_notes h]

/-! ## Trees changed at a place -/

/-- The label of the node above the place is read from the node that is there. -/
inductive ReadsLabelAt : Ast → List Nat → Prop
  | here {n : Ast} {p : Nat} {slot : Slot} :
    slot ∈ n.kind.labelSlots → n.slots.get slot = some p → ReadsLabelAt n [p]
  | further {n m : Ast} {p : Nat} {path : List Nat} :
    n.children[p]? = some m → ReadsLabelAt m path → ReadsLabelAt n (p :: path)

section MapChildren

variable {change : Nat → Ast → Ast}

/-- The nodes that are visited from a node are redrawn if its children are. -/
theorem redraws_visited (h : ∀ p m, n.children[p]? = some m → Redraws E m (change p m)) :
    List.Forall₂ (Redraws E) n.visited (n.mapChildren change).visited := by
  by_cases hruns : n.RunsChildren
  · rw [hruns.visited, (runsChildren_mapChildren_iff.2 hruns).visited, mapChildren,
      List.forall₂_iff_get]
    refine ⟨by simp, fun p hp _ => ?_⟩
    simpa using h p n.children[p] (List.getElem?_eq_getElem hp)
  · rw [visited_of_not_runsChildren hruns,
      visited_of_not_runsChildren (mt runsChildren_mapChildren_iff.1 hruns)]
    refine List.rel_flatMap (List.forall₂_same.2 fun slot _ => rfl) ?_
    rintro slot _ rfl
    beta_reduce
    rw [child?_mapChildren, child?]
    cases n.slots.get slot with
    | none => exact .nil
    | some p =>
      cases hm : n.children[p]? with
      | none => simp [hm]
      | some m => simpa [hm] using h p m hm

theorem isSome_child?_mapChildren (n : Ast) (slot : Slot) :
    ((n.mapChildren change).child? slot).isSome = (n.child? slot).isSome := by
  rw [child?_mapChildren, child?]
  cases n.slots.get slot <;> simp

end MapChildren

/-- A tree changed at a place is redrawn if the node there is, unless a label is read from it that
    is changed. -/
theorem redraws_modifyAt (hE : EdgeCongruence E) {change : Ast → Ast} (hat : n.at? path = some f)
    (hf : Redraws E f (change f)) (htext : n.ReadsLabelAt path → (change f).text = f.text) :
    Redraws E n (n.modifyAt change path) := by
  induction path generalizing n with
  | nil =>
    obtain rfl : n = f := Option.some.inj hat
    exact hf
  | cons p path ih =>
    obtain ⟨m, hm, hat⟩ := at?_cons_eq_some_iff.1 hat
    rw [modifyAt_cons]
    refine .of_visited hE ⟨rfl, rfl, rfl, rfl, ?words⟩ (isSome_child?_mapChildren n)
      (redraws_visited ?parts)
    case words =>
      intro slot hslot
      rw [child?_mapChildren, child?]
      cases hs : n.slots.get slot with
      | none => rfl
      | some q =>
        cases hc : n.children[q]? with
        | none => simp [hc]
        | some c =>
          suffices htexts : (if q = p then c.modifyAt change path else c).text = c.text by
            simpa [hc] using htexts
          split_ifs with hq
          · subst hq
            obtain rfl : c = m := Option.some.inj (hc.symm.trans hm)
            -- only the node at the end of the path can lose its text
            cases path with
            | nil =>
              obtain rfl : c = f := Option.some.inj hat
              exact htext (.here hslot hs)
            | cons => rfl
          · rfl
    case parts =>
      intro q c hc
      split_ifs with hq
      · subst hq
        obtain rfl : c = m := Option.some.inj (hc.symm.trans hm)
        exact ih hat fun hreads => htext (.further hm hreads)
      · exact .refl hE c

end Ast

/-! ## Flowcharts -/

/-- A flowchart is another one but for its edges. -/
structure Flowchart.Redraws (E : List FlowEdge → List FlowEdge → Prop) (chart rest : Flowchart) :
    Prop where
  entry : rest.entry = chart.entry
  nodes : rest.nodes = chart.nodes
  malformed : rest.malformed = chart.malformed
  edges : E chart.edges rest.edges

theorem Flowchart.Redraws.eq {chart rest : Flowchart} (h : Redraws Eq chart rest) :
    rest = chart := by
  obtain ⟨nodes, edges, entry, malformed⟩ := chart
  obtain ⟨hentry, hnodes, hmalformed, hedges⟩ := h
  cases rest
  simp_all

/-- A flowchart is told by the region of the program but for its malformed nodes. -/
theorem Flowchart.redraws_ofProgram {s s' : Stmt} (h : Stmt.Redraws E s s')
    (malformed : List Malformed) :
    Redraws E (ofProgram s malformed) (ofProgram s' malformed) := by
  obtain ⟨es, hregion, hes⟩ := h.region 0
  obtain ⟨hnodes, hedges⟩ := ofProgram_eq s malformed
  obtain ⟨hnodes', hedges'⟩ := ofProgram_eq s' malformed
  rw [hregion] at hnodes' hedges'
  have hsame : (ofProgram s' malformed).nodes = (ofProgram s malformed).nodes :=
    hnodes'.trans hnodes.symm
  refine ⟨?_, hsame, rfl, ?_⟩
  · exact congrArg (fun nodes : List FlowNode => nodes.head?.map (·.id)) hsame
  · rwa [hedges, hedges']

/-- The flowchart that is made of a tree when it is not too deep is the same but for the edges. -/
theorem Ast.Redraws.chart {n n' : Ast} (h : Redraws E n n') :
    Flowchart.Redraws E (.ofProgram n.program (n.notes.filterMap id))
      (.ofProgram n'.program (n'.notes.filterMap id)) := by
  rw [h.same_notes]
  exact Flowchart.redraws_ofProgram h.program _

end FlowSketch
