import FlowSketch.Proofs.Chart.BackEdge
import FlowSketch.Proofs.Chart.Numbering
import FlowSketch.Proofs.Chart.Walk

/-!
# Reachability

Where no function stands in a slot of a branch or loop, every node of the flowchart is reached from
a function or from where control enters.

* `Stmt.Clean`, `Ast.SlotClean` — no function stands in a slot.
* `Region.Connected` — every node is reached from the entry of the region or from a function.

Results:

* `Stmt.Clean.isStuck`: control does not get stuck in a clean statement.
* `Stmt.Clean.connected`: the region of a clean statement is connected.
* `Flowchart.nodes_reached`: every node of the flowchart of a clean tree is reached, hence has an
  edge that leads to it, and every visited statement that is entered is left.
-/

namespace FlowSketch

/-! ## Clean statements -/

namespace Stmt

mutual

/-- No function stands in a slot of a branch or loop. -/
def Clean : Stmt → Prop
  | .step .. => True
  | .block stmts => CleanAll stmts
  | .branch _ yes no =>
    (yes.isFunction = false ∧ yes.Clean) ∧ no.isFunction = false ∧ no.Clean
  | .loop _ _ body => body.isFunction = false ∧ body.Clean
  | .function _ body => body.Clean

/-- The members of a block are clean. -/
def CleanAll : List Stmt → Prop
  | [] => True
  | s :: rest => s.Clean ∧ CleanAll rest

end

theorem cleanAll_iff {stmts : List Stmt} : CleanAll stmts ↔ ∀ s ∈ stmts, s.Clean := by
  induction stmts with
  | nil => simp [CleanAll]
  | cons s stmts ih => rw [CleanAll, ih, List.forall_mem_cons]

/-- Control does not get stuck in a clean statement. -/
theorem Clean.isStuck {s : Stmt} (h : s.Clean) (hf : s.isFunction = false) : s.isStuck = false := by
  induction s using Stmt.induction with
  | step action label => rfl
  | block stmts ih =>
    rw [Clean, cleanAll_iff] at h
    rw [Stmt.isStuck]
    clear hf
    induction stmts with
    | nil => rfl
    | cons s stmts ihs =>
      rw [endsStuck]
      split_ifs with hd
      · exact ihs (fun t ht => ih t (List.mem_cons_of_mem s ht))
          (fun t ht => h t (List.mem_cons_of_mem s ht))
      · cases hs : s.isFunction with
        | true => rfl
        | false => exact ih s (List.mem_cons_self ..) (h s (List.mem_cons_self ..)) hs
  | branch label yes no ihy ihn =>
    rw [Clean] at h
    rw [Stmt.isStuck, ihy h.1.2 h.1.1, Bool.false_and]
  | loop form label body ih => rfl
  | function label body ih => simp [isFunction] at hf

theorem Visit.clean {s t : Stmt} {start i : Int} (hs : s.Clean) (h : s.Visit start t i) :
    t.Clean := by
  induction h with
  | self => exact hs
  | member _ ih =>
    rw [Clean, cleanAll_iff] at ih
    exact ih _ (by simp)
  | yes _ ih =>
    rw [Clean] at ih
    exact ih.1.2
  | no _ ih =>
    rw [Clean] at ih
    exact ih.2.2
  | loopBody _ ih =>
    rw [Clean] at ih
    exact ih.2
  | functionBody _ ih =>
    rw [Clean] at ih
    exact ih

end Stmt

/-! ## Connected regions -/

namespace Region

variable {r s : Region} {start : Int}

/-- Control can come in at the node: it is the entry, or that of a function. -/
def IsSource (r : Region) (id : Int) : Prop :=
  r.entry = some id ∨ ∃ n ∈ r.nodes, n.id = id ∧ n.kind = .function

/-- Every node is reached from the entry of the region or from a function. -/
def Connected (r : Region) : Prop :=
  ∀ id, r.Owns id → ∃ u, r.IsSource u ∧ Reaches r.edges u id

/-- In a region around a connected one everything is reached, if the entry of the part is. -/
theorem Connected.embed (hr : r.Connected) (hnodes : ∀ n ∈ r.nodes, n ∈ s.nodes)
    (hedges : ∀ e ∈ r.edges, e ∈ s.edges)
    (hentry : ∀ id, r.entry = some id → ∃ u, s.IsSource u ∧ Reaches s.edges u id) {id : Int}
    (hid : r.Owns id) : ∃ u, s.IsSource u ∧ Reaches s.edges u id := by
  obtain ⟨u, hu, hreach⟩ := hr id hid
  replace hreach := hreach.mono hedges
  rcases hu with hu | ⟨n, hn, rfl, hk⟩
  · obtain ⟨v, hv, hvu⟩ := hentry u hu
    exact ⟨v, hv, hvu.trans hreach⟩
  · exact ⟨n.id, .inr ⟨n, hnodes n hn, rfl, hk⟩, hreach⟩

theorem connected_seq (hr : r.Connected) (hs : s.Connected) (hrw : r.WellFormed)
    (h : s.start = r.stop) (hstuck : r.toFragment.isStuck = false) : (r.seq s).Connected := by
  have hleft : ∀ id, r.Owns id → ∃ u, (r.seq s).IsSource u ∧ Reaches (r.seq s).edges u id := by
    intro id hid
    apply hr.embed _ _ _ hid
    · intro n hn
      exact List.mem_append_left _ hn
    · intro e he
      exact mem_edges_seq.2 (.inl he)
    · intro id hid
      exact ⟨id, .inl (by simp [seq, hid]), .refl⟩
  intro id hid
  rcases (owns_seq h).1 hid with hid | hid
  · exact hleft id hid
  · apply hs.embed _ _ _ hid
    · intro n hn
      exact List.mem_append_right _ hn
    · intro e he
      exact mem_edges_seq.2 (.inr (.inl he))
    · intro entry hentry
      cases hre : r.entry with
      | none => exact ⟨entry, .inl (by simp [seq, hre, hentry]), .refl⟩
      | some first =>
        -- the first part is left, and control comes from there
        have hne : r.exits ≠ [] := Fragment.exits_ne_nil hstuck hre
        obtain ⟨x, hx⟩ := List.exists_mem_of_ne_nil _ hne
        obtain ⟨u, hu, hreach⟩ := hleft x.source (hrw.exit_owned x hx)
        refine ⟨u, hu, hreach.tail ⟨x.to entry, ?_, rfl, rfl⟩⟩
        exact mem_edges_seq.2 (.inr (.inr ⟨entry, hentry, x, hx, rfl⟩))

theorem connected_detached (hr : r.Connected)
    (hentry : ∀ id, r.entry = some id → ∃ n ∈ r.nodes, n.id = id ∧ n.kind = .function) :
    r.detached.Connected := by
  intro id hid
  apply hr.embed (s := r.detached) (fun _ hn => hn) (fun _ he => he) _ hid
  intro id hid
  exact ⟨id, .inr (hentry id hid), .refl⟩

theorem connected_step (action : Action) (label : String) :
    (step start action label).Connected := by
  intro id hid
  rw [owns_step] at hid
  exact ⟨start, .inl rfl, hid ▸ .refl⟩

theorem connected_branch {label : String} {yes no : Region} (hy : yes.Connected)
    (hn : no.Connected) (hys : yes.start = start + 1) (hns : no.start = yes.stop) :
    (branch start label yes no).Connected := by
  intro id hid
  rcases (owns_branch hys hns).1 hid with rfl | hid | hid
  · exact ⟨id, .inl rfl, .refl⟩
  · apply hy.embed _ _ _ hid
    · intro n hn
      exact List.mem_cons_of_mem _ (List.mem_append_left _ hn)
    · intro e he
      exact mem_edges_branch.2 (.inl he)
    · intro entry hentry
      refine ⟨start, .inl rfl, .single ⟨⟨start, entry, .yes⟩, ?_, rfl, rfl⟩⟩
      exact mem_edges_branch.2 (.inr (.inr (.inl (mem_into.2 ⟨entry, hentry, rfl⟩))))
  · apply hn.embed _ _ _ hid
    · intro n hn
      exact List.mem_cons_of_mem _ (List.mem_append_right _ hn)
    · intro e he
      exact mem_edges_branch.2 (.inr (.inl he))
    · intro entry hentry
      refine ⟨start, .inl rfl, .single ⟨⟨start, entry, .no⟩, ?_, rfl, rfl⟩⟩
      exact mem_edges_branch.2 (.inr (.inr (.inr (mem_into.2 ⟨entry, hentry, rfl⟩))))

theorem connected_loop {form : LoopForm} {label : String} (hr : r.Connected) (hrw : r.WellFormed)
    (hrs : r.start = start + 1) (hstuck : r.toFragment.isStuck = false) :
    (loop start form label r).Connected := by
  have hbody : ∀ id, r.Owns id →
      (∀ entry, r.entry = some entry → ∃ u, (loop start form label r).IsSource u ∧
        Reaches (loop start form label r).edges u entry) →
      ∃ u, (loop start form label r).IsSource u ∧ Reaches (loop start form label r).edges u id := by
    intro id hid hentry
    apply hr.embed _ _ hentry hid
    · intro n hn
      exact List.mem_cons_of_mem _ hn
    · intro e he
      exact List.mem_append_left _ he
  have hin : ∀ entry, r.entry = some entry →
      Step (loop start form label r).edges start entry := by
    intro entry hentry
    refine ⟨⟨start, entry, .body⟩, List.mem_append_right _ ?_, rfl, rfl⟩
    simp [loopEdges, hentry]
  intro id hid
  by_cases hfirst : (loop start form label r).entry = some start
  · -- the loop tests first: everything is reached from its header
    rcases (owns_loop hrs).1 hid with rfl | hid
    · exact ⟨id, .inl hfirst, .refl⟩
    · exact hbody id hid (fun entry hentry => ⟨start, .inl hfirst, .single (hin entry hentry)⟩)
  · -- the loop runs its body first: the header is reached from an exit of the body
    obtain ⟨entry, hentry, hsource⟩ : ∃ entry, r.entry = some entry ∧
        (loop start form label r).entry = some entry := by
      cases he : r.entry with
      | none => simp [loop, he] at hfirst
      | some entry =>
        refine ⟨entry, rfl, ?_⟩
        simp only [loop, he] at hfirst ⊢
        split_ifs at hfirst ⊢ <;> simp_all
    have hall : ∀ id, r.Owns id → ∃ u, (loop start form label r).IsSource u ∧
        Reaches (loop start form label r).edges u id := by
      intro id hid
      apply hbody id hid
      intro entry' hentry'
      exact ⟨entry, .inl hsource, by rw [Option.some.inj (hentry.symm.trans hentry')]; exact .refl⟩
    rcases (owns_loop hrs).1 hid with rfl | hid
    · have hne : r.exits ≠ [] := Fragment.exits_ne_nil hstuck hentry
      obtain ⟨x, hx⟩ := List.exists_mem_of_ne_nil _ hne
      obtain ⟨u, hu, hreach⟩ := hall x.source (hrw.exit_owned x hx)
      refine ⟨u, hu, hreach.tail ⟨⟨x.source, id, r.backLabel x⟩, ?_, rfl, rfl⟩⟩
      apply List.mem_append_right
      simp only [loopEdges, hentry, List.mem_cons, List.mem_append]
      exact .inr (.inl (List.mem_map.2 ⟨x, hx, rfl⟩))
    · exact hall id hid

theorem connected_function {label : String} (hr : r.Connected) (hrs : r.start = start + 1) :
    (function start label r).Connected := by
  intro id hid
  rcases (owns_function hrs).1 hid with rfl | hid
  · exact ⟨id, .inl rfl, .refl⟩
  · apply hr.embed _ _ _ hid
    · intro n hn
      exact List.mem_cons_of_mem _ hn
    · intro e he
      exact List.mem_append_left _ he
    · intro entry hentry
      refine ⟨start, .inl rfl, .single ⟨⟨start, entry, .next⟩, ?_, rfl, rfl⟩⟩
      exact List.mem_append_right _ (mem_into.2 ⟨entry, hentry, rfl⟩)

end Region

namespace Stmt

theorem connected_member {s : Stmt} {i : Int} (hr : (s.region i).Connected) :
    (s.member i).Connected := by
  unfold member
  split_ifs with hf
  · apply Region.connected_detached hr
    intro id hid
    cases s <;> simp [isFunction] at hf
    simp only [region, Region.function, Option.some.injEq] at hid ⊢
    exact ⟨_, List.mem_cons_self .., hid, rfl⟩
  · exact hr

/-- The region of a clean statement is connected. -/
theorem Clean.connected {s : Stmt} (h : s.Clean) (i : Int) : (s.region i).Connected := by
  induction s using Stmt.induction generalizing i with
  | step action label => exact Region.connected_step action label
  | block stmts ih =>
    rw [Clean, cleanAll_iff] at h
    rw [region]
    have hblock : (regionAll stmts { start := i }).WellFormed ∧
        (regionAll stmts { start := i }).toFragment.isStuck = false ∧
        (regionAll stmts { start := i }).Connected := by
      refine regionAll_induction
        (P := fun r => r.WellFormed ∧ r.toFragment.isStuck = false ∧ r.Connected) stmts
        ⟨.empty i, rfl, ?_⟩ ?_
      · intro id hid
        have := hid.start_le
        have := hid.lt_stop
        simp only [Region.stop, List.length_nil] at *
        omega
      · rintro s hs r ⟨hr, hstuck, hconn⟩
        have hm := member_wellFormed (s.region_wellFormed r.stop)
        have hms : (s.member r.stop).start = r.stop := by rw [start_member, region_start]
        refine ⟨hr.seq hm hms, ?_,
          Region.connected_seq hconn (connected_member (ih s hs (h s hs) _)) hr hms hstuck⟩
        rw [Region.isStuck_seq, isStuck_member, isStuck_region]
        cases hf : s.isFunction with
        | true => simpa using fun _ => hstuck
        | false => simp [(h s hs).isStuck hf, hstuck]
    exact hblock.2.2
  | branch label yes no ihy ihn =>
    rw [Clean] at h
    rw [region]
    exact Region.connected_branch (ihy h.1.2 _) (ihn h.2.2 _) (by simp) (by simp)
  | loop form label body ih =>
    rw [Clean] at h
    rw [region]
    refine Region.connected_loop (ih h.2 _) (body.region_wellFormed _) (by simp) ?_
    rw [isStuck_region, h.2.isStuck h.1]
  | function label body ih =>
    rw [Clean] at h
    rw [region]
    exact Region.connected_function (ih h _) (by simp)

end Stmt

/-! ## Clean trees -/

namespace Ast

/-- No node of a branch or loop has a function directly as its body or `else`. -/
def SlotClean (root : Ast) : Prop :=
  ∀ n ∈ root.preorder, n.kind = .ifStmt ∨ n.kind.isLoop = true →
    ∀ slot ∈ [Slot.body, Slot.elseBranch], ∀ m, n.child? slot = some m → m.kind ≠ .functionDef

theorem SlotClean.child {n m : Ast} (h : n.SlotClean) (hm : m ∈ n.children) : m.SlotClean := by
  intro k hk
  apply h k
  rw [preorder_eq, preorderAll_eq_flatMap]
  exact List.mem_cons_of_mem _ (List.mem_flatMap.2 ⟨m, hm, hk⟩)

theorem isFunction_program {n : Ast} (h : n.kind ≠ .functionDef) :
    n.program.isFunction = false := by
  rw [isFunction_program_eq, decide_eq_false h]

/-- The program of a clean tree is clean. -/
theorem SlotClean.program {n : Ast} (h : n.SlotClean) : n.program.Clean := by
  have hchild : ∀ m ∈ n.children, m.program.Clean := by
    intro m hm
    have := sizeOf_lt_of_mem_children hm
    exact (h.child hm).program
  have hmembers : (Stmt.block (n.members.map Ast.program)).Clean := by
    rw [Stmt.Clean, Stmt.cleanAll_iff]
    intro s hs
    obtain ⟨m, hm, rfl⟩ := List.mem_map.1 hs
    exact hchild m (mem_children_of_mem_members hm)
  have hslot : ∀ slot, (n.slotProgram slot).Clean := by
    intro slot
    unfold slotProgram
    cases hc : n.child? slot with
    | none => trivial
    | some m => exact hchild m (mem_children_of_child? hc)
  -- what stands in a slot of a branch or loop is no function
  have hfree : n.kind = .ifStmt ∨ n.kind.isLoop = true → ∀ slot ∈ [Slot.body, Slot.elseBranch],
      (n.slotProgram slot).isFunction = false := by
    intro hk slot hs
    unfold slotProgram
    cases hc : n.child? slot with
    | none => rfl
    | some m =>
      refine isFunction_program (h n ?_ hk slot hs m hc)
      rw [preorder_eq]
      exact List.mem_cons_self ..
  rcases n.kind_cases with hk | hk | hk | ⟨form, hk⟩ | hk
  · rw [program_step hk]
    trivial
  · rw [program_sequence hk]
    exact hmembers
  · rw [program_ifStmt hk]
    exact ⟨⟨hfree (.inl hk) _ (by decide), hslot _⟩, hfree (.inl hk) _ (by decide), hslot _⟩
  · rw [program_loop hk, bodyProgram_of_loop hk]
    exact ⟨hfree (.inr (isLoop_of_loopForm? hk)) _ (by decide), hslot _⟩
  · rw [program_functionDef hk, Stmt.Clean]
    unfold bodyProgram
    cases hb : n.child? .body with
    | some body => exact hchild body (mem_children_of_child? hb)
    | none => exact hmembers
termination_by sizeOf n

end Ast

/-- In the flowchart of a clean tree every node is reached from a function or from where control
    enters the root, every other node has an edge that leads to it, and a visited statement that
    can be entered can be left. -/
theorem Flowchart.nodes_reached {limit : Int} {root : Ast} {chart : Flowchart}
    (h : (Flowchart.ofAst limit root).outcome = .ok chart) (hclean : root.SlotClean) :
    (∀ node ∈ chart.nodes, ∃ u, ((root.program.lay {}).2.entry = some u ∨
        ∃ n ∈ chart.nodes, n.id = u ∧ n.kind = .function) ∧ Reaches chart.edges u node.id) ∧
      (∀ node ∈ chart.nodes, node.kind ≠ .function → (root.program.lay {}).2.entry ≠ some node.id →
        chart.inEdges node.id ≠ []) ∧
      ∀ n d, root.Visit n d → n.kind ≠ .functionDef → (n.program.lay d).2.entry ≠ none →
        (n.program.lay d).2.exits ≠ [] := by
  obtain ⟨malformed, rfl⟩ := Flowchart.eq_ofProgram_of_ofAst h
  obtain ⟨hnodes, hedges⟩ := Flowchart.ofProgram_eq root.program malformed
  have hreach : ∀ node ∈ (root.program.region 0).nodes, ∃ u, (root.program.region 0).IsSource u ∧
      Reaches (root.program.region 0).edges u node.id := by
    intro node hmem
    exact hclean.program.connected 0 node.id
      ((root.program.region_wellFormed 0).node_owned node hmem)
  rw [hnodes, hedges, Ast.rootFragment_eq]
  refine ⟨hreach, ?_, ?_⟩
  · intro node hmem hkind hentry
    obtain ⟨u, hu, hpath⟩ := hreach node hmem
    rcases Relation.ReflTransGen.cases_tail hpath with heq | ⟨v, -, e, he, -, ht⟩
    · rcases hu with hu | ⟨n, hn, hid, hk⟩
      · exact absurd (heq ▸ hu) hentry
      · rw [(root.program.region_sorted 0).eq_of_id_eq hmem hn (heq.trans hid.symm)] at hkind
        exact absurd hk hkind
    · apply List.ne_nil_of_mem (a := e)
      rw [Flowchart.inEdges, hedges, List.mem_filter]
      exact ⟨he, by simpa using ht⟩
  · intro n d hv hk hentry hexits
    obtain ⟨hd, hp⟩ := hv.toStmt
    have hstuck := (hp.clean hclean.program).isStuck (Ast.isFunction_program hk)
    rw [← n.program.isStuck_region d.nextId] at hstuck
    rw [n.program.laysRegion d hd] at hentry hexits
    obtain ⟨id, hid⟩ := Option.ne_none_iff_exists'.1 hentry
    exact Fragment.exits_ne_nil hstuck hid hexits

theorem Ast.slotClean_idleFunction : Ast.idleFunction.SlotClean := by
  intro n hn
  simp only [idleFunction, idleLoop, idleBranch, preorder_eq, preorderAll, List.mem_cons,
    List.mem_append, List.not_mem_nil, or_false, List.append_nil] at hn
  rcases hn with rfl | rfl | (rfl | rfl | rfl | rfl) | rfl | rfl <;>
    simp [child?, Slots.get, Kind.isLoop, List.getElem?_cons]

/-- The function inside stands apart, and everything else is reached around it. -/
theorem Flowchart.nodes_reached_idleFunction : ∃ chart,
    (Flowchart.ofAst 3 Ast.idleFunction).outcome = .ok chart ∧
      ∀ node ∈ chart.nodes, node.kind ≠ .function →
        (Ast.idleFunction.program.lay {}).2.entry ≠ some node.id → chart.inEdges node.id ≠ [] := by
  obtain ⟨chart, h⟩ : ∃ chart, (Flowchart.ofAst 3 Ast.idleFunction).outcome = .ok chart := ⟨_, rfl⟩
  exact ⟨chart, h, (Flowchart.nodes_reached h Ast.slotClean_idleFunction).2.1⟩

end FlowSketch
