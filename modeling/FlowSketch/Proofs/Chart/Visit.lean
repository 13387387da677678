import FlowSketch.Proofs.Chart.Layout
import FlowSketch.Proofs.Program.Reading

/-!
# Visits

Drawing the flowchart of a tree visits some of its nodes, each at the draft that is there when its
turn comes. What is proved about the finished chart is proved about every visit.

* `Ast.begun` — the draft with the node of a visited node, which is made before what it governs.
* `Ast.Visit` — the visits of a tree: a node and the draft at which it is laid out.
* `Stmt.Visit` — the same for programs, where the first id stands for the draft.
* `Ast.Origin` — what a visited statement stands for in the tree.

Results:

* `Ast.Visit.toStmt`: a visit of a node is a visit of its program, at a well-formed draft.
* `Ast.Origin.of_visit`: a visit of a statement comes from the tree.
* `Stmt.Visit.exists_ast`: a visit of anything but a block is the visit of a node.
* `Stmt.exists_visit_of_mem_nodes`: every node of a region is made by a visit.
-/

namespace FlowSketch

namespace Kind

/-- The flow node kind of a node of that kind, if it is drawn. -/
def flowKind? (kind : Kind) : Option FlowKind :=
  match kind with
  | functionDef => some .function
  | ifStmt => some .branch
  | compoundBlock | elseClause => none
  | kind =>
    match kind.loopForm? with
    | some form => some form.flowKind
    | none => some (Ast.actionOf kind).flowKind

/-- The kinds whose node is made before what is in their slots. -/
def governs : Kind → Bool
  | functionDef | ifStmt | forLoop | whileLoop | doWhile => true
  | _ => false

end Kind

/-! ## Visits of programs -/

/-- The visits that laying out a statement makes, each at the first id that is free then. -/
inductive Stmt.Visit (s : Stmt) (start : Int) : Stmt → Int → Prop
  | self : Visit s start s start
  | member {before after : List Stmt} {t : Stmt} {i : Int} :
    Visit s start (.block (before ++ t :: after)) i → Visit s start t (i + sizeAll before)
  | yes {label : String} {yes no : Stmt} {i : Int} :
    Visit s start (.branch label yes no) i → Visit s start yes (i + 1)
  | no {label : String} {yes no : Stmt} {i : Int} :
    Visit s start (.branch label yes no) i → Visit s start no (i + 1 + yes.size)
  | loopBody {form : LoopForm} {label : String} {body : Stmt} {i : Int} :
    Visit s start (.loop form label body) i → Visit s start body (i + 1)
  | functionBody {label : String} {body : Stmt} {i : Int} :
    Visit s start (.function label body) i → Visit s start body (i + 1)

namespace Ast

/-! ## Visits of trees -/

/-- The draft with the node of `n`, at which the visit goes on to what `n` governs. -/
def begun (n : Ast) (d : Draft) : Draft :=
  match n.kind.flowKind? with
  | some kind => d.addNode kind n.label
  | none => d

/-- The draft at which the visit of a branch goes on to its second side: the first one is laid out
    and attached. -/
def halfway (n : Ast) (d : Draft) : Draft :=
  let (d', side) := (n.slotProgram .body).lay (n.begun d)
  (side.attach d' d.nextId .yes).1

/-- The visits that drawing a tree makes, each at the draft that is there then. -/
inductive Visit (root : Ast) : Ast → Draft → Prop
  /-- The root is visited first. -/
  | root : Visit root root {}
  /-- The members of a sequence are visited one after the other. -/
  | member {n m : Ast} {d : Draft} {before after : List Ast} :
    Visit root n d → n.members = before ++ m :: after →
      Visit root m (layAll (before.map program) (n.begun d) {}).1
  /-- The body of a branch, loop or function is visited after its header is made. -/
  | body {n m : Ast} {d : Draft} :
    Visit root n d → n.kind.governs → n.child? .body = some m → Visit root m (n.begun d)
  /-- The second side of a branch is visited after the first. -/
  | elseBranch {n m : Ast} {d : Draft} :
    Visit root n d → n.kind = .ifStmt → n.child? .elseBranch = some m →
      Visit root m (n.halfway d)

variable {root n m : Ast} {d : Draft}

theorem begun_of_sequence (h : n.kind = .compoundBlock ∨ n.kind = .elseClause) (d : Draft) :
    n.begun d = d := by
  rcases h with h | h <;> simp [begun, Kind.flowKind?, h]

theorem begun_of_functionDef (h : n.kind = .functionDef) (d : Draft) :
    n.begun d = d.addNode .function n.label := by
  simp [begun, Kind.flowKind?, h]

theorem begun_of_ifStmt (h : n.kind = .ifStmt) (d : Draft) :
    n.begun d = d.addNode .branch n.label := by
  simp [begun, Kind.flowKind?, h]

theorem begun_of_loop {form : LoopForm} (h : n.kind.loopForm? = some form) (d : Draft) :
    n.begun d = d.addNode form.flowKind n.label := by
  cases hk : n.kind <;> simp_all [begun, Kind.flowKind?, Kind.loopForm?]

theorem bodyProgram_of_child {body : Ast} (h : n.child? .body = some body) :
    n.bodyProgram = body.program := by
  simp [bodyProgram, h]

theorem slotProgram_of_child {slot : Slot} {child : Ast} (h : n.child? slot = some child) :
    n.slotProgram slot = child.program := by
  simp [slotProgram, h]

/-- A node with members is a sequence or a function without a body. -/
theorem members_cases (h : n.members ≠ []) :
    (n.kind = .compoundBlock ∨ n.kind = .elseClause) ∨
      (n.kind = .functionDef ∧ n.bodyProgram = .block (n.members.map program)) := by
  cases hk : n.kind <;> cases hb : n.child? .body <;> simp_all [members, bodyProgram]

theorem wellFormed_begun (hd : d.WellFormed) (n : Ast) :
    (n.begun d).WellFormed := by
  unfold Ast.begun
  cases n.kind.flowKind? with
  | none => exact hd
  | some kind =>
    simp only [Draft.addNode_eq_grow]
    exact hd.addNode kind n.label

/-- Halfway through a branch its first side has taken its ids. -/
theorem wellFormed_halfway (hd : d.WellFormed) (h : n.kind = .ifStmt) :
    (n.halfway d).WellFormed ∧
      (n.halfway d).nextId = d.nextId + 1 + (n.slotProgram .body).size := by
  have hlay := (n.slotProgram .body).laysRegion.attach_behind hd .branch n.label .yes
  have hh : n.halfway d = (((n.slotProgram .body).lay (d.addNode .branch n.label)).2.attach
      ((n.slotProgram .body).lay (d.addNode .branch n.label)).1 d.nextId .yes).1 := by
    rw [halfway, begun_of_ifStmt h]
  rw [hh, hlay]
  exact ⟨hd.behind .branch n.label _ .yes, d.nextId_behind ..⟩

/-- A visit of a node, at a well-formed draft, is a visit of its program. -/
theorem Visit.toStmt (h : root.Visit n d) :
    d.WellFormed ∧ root.program.Visit 0 n.program d.nextId := by
  induction h with
  | root => exact ⟨.empty, .self⟩
  | @member n m d before after _ hm ih =>
    obtain ⟨hd, hv⟩ := ih
    have hwf := (wellFormed_begun hd n).layAll (before.map program)
    refine ⟨hwf.1, ?_⟩
    rw [hwf.2]
    rcases members_cases (n := n) (by simp [hm]) with hk | ⟨hk, hbody⟩
    · rw [begun_of_sequence hk]
      rw [program_sequence hk, hm, List.map_append, List.map_cons] at hv
      exact hv.member
    · rw [begun_of_functionDef hk, Draft.addNode_eq_grow, Draft.nextId_grow]
      rw [program_functionDef hk, hbody, hm, List.map_append, List.map_cons] at hv
      exact hv.functionBody.member
  | @body n m d _ hk hm ih =>
    obtain ⟨hd, hv⟩ := ih
    refine ⟨wellFormed_begun hd n, ?_⟩
    rcases n.kind_cases with hs | hs | hs | ⟨form, hs⟩ | hs
    · cases h : n.kind <;> simp_all [Kind.isStep, Kind.governs]
    · rcases hs with hs | hs <;> simp [Kind.governs, hs] at hk
    · rw [program_ifStmt hs, slotProgram_of_child hm] at hv
      rw [begun_of_ifStmt hs, Draft.addNode_eq_grow, Draft.nextId_grow]
      exact hv.yes
    · rw [program_loop hs, bodyProgram_of_child hm] at hv
      rw [begun_of_loop hs, Draft.addNode_eq_grow, Draft.nextId_grow]
      exact hv.loopBody
    · rw [program_functionDef hs, bodyProgram_of_child hm] at hv
      rw [begun_of_functionDef hs, Draft.addNode_eq_grow, Draft.nextId_grow]
      exact hv.functionBody
  | @elseBranch n m d _ hk hm ih =>
    obtain ⟨hd, hv⟩ := ih
    obtain ⟨hwf, hnext⟩ := wellFormed_halfway hd hk
    refine ⟨hwf, ?_⟩
    rw [hnext]
    rw [program_ifStmt hk, slotProgram_of_child hm] at hv
    exact hv.no

/-! ## From programs back to trees -/

/-- What a visited statement stands for: a visited node, the members of a visited function without
    a body, or a slot that nothing fills. -/
inductive Origin (root : Ast) (s : Stmt) (i : Int) : Prop
  | node (n : Ast) (d : Draft) (visit : root.Visit n d) (id : d.nextId = i)
    (program : n.program = s)
  | children (n : Ast) (d : Draft) (visit : root.Visit n d) (kind : n.kind = .functionDef)
    (id : d.nextId + 1 = i) (program : Stmt.block (n.members.map Ast.program) = s)
  | nothing (program : Stmt.block [] = s)

/-- What fills a slot is a node, or nothing is there. -/
theorem Origin.of_slot {slot : Slot} {i : Int} {e : Draft} (he : e.nextId = i)
    (h : ∀ child, n.child? slot = some child → root.Visit child e) :
    Origin root (n.slotProgram slot) i := by
  unfold slotProgram
  cases hc : n.child? slot with
  | none => exact .nothing rfl
  | some child => exact .node child e (h child hc) he rfl

theorem nextId_begun {kind : FlowKind} (h : n.kind.flowKind? = some kind) (d : Draft) :
    (n.begun d).nextId = d.nextId + 1 := by
  rw [begun, h]
  simp only [Draft.addNode_eq_grow, Draft.nextId_grow, List.length_singleton]
  rfl

theorem flowKind?_of_loop {kind : Kind} {form : LoopForm} (h : kind.loopForm? = some form) :
    kind.flowKind? = some form.flowKind ∧ kind.governs = true := by
  cases kind <;> simp_all [Kind.flowKind?, Kind.loopForm?, Kind.governs]

theorem Origin.of_members {before after : List Stmt} {t : Stmt} (hv : root.Visit n d)
    (hm : n.members.map program = before ++ t :: after) :
    Origin root t ((n.begun d).nextId + Stmt.sizeAll before) := by
  obtain ⟨before, rest, hsplit, rfl, hrest⟩ := List.map_eq_append_iff.1 hm
  obtain ⟨m, after, rfl, rfl, -⟩ := List.map_eq_cons_iff.1 hrest
  have hnext := ((wellFormed_begun hv.toStmt.1 n).layAll (before.map program)).2
  exact .node m _ (hv.member hsplit) hnext rfl

theorem Origin.of_body {i : Int} (hv : root.Visit n d) (hk : n.kind.governs = true)
    (hi : (n.begun d).nextId = i)
    (hc : n.kind = .functionDef ∨ ∃ form, n.kind.loopForm? = some form) :
    Origin root n.bodyProgram i := by
  unfold bodyProgram
  cases hb : n.child? .body with
  | some body => exact .node body _ (hv.body hk hb) hi rfl
  | none =>
    rcases hc with hf | ⟨form, hl⟩
    · refine .children n d hv hf ?_ rfl
      rw [← hi, nextId_begun (by rw [hf, Kind.flowKind?])]
    · have : n.members = [] := by cases h : n.kind <;> simp_all [members, Kind.loopForm?]
      exact .nothing (by rw [this, List.map_nil])

theorem Origin.of_visit {s : Stmt} {i : Int} (h : root.program.Visit 0 s i) :
    Origin root s i := by
  induction h with
  | self => exact .node root {} .root rfl rfl
  | @member before after t i _ ih =>
    rcases ih with ⟨n, d, hv, rfl, hp⟩ | ⟨n, d, hv, hk, rfl, hp⟩ | hp
    · obtain ⟨hk, hm⟩ := reads_of_program hp
      rw [← begun_of_sequence hk d]
      exact .of_members hv hm.symm
    · rw [← nextId_begun (n := n) (by rw [hk, Kind.flowKind?])]
      exact .of_members hv (Stmt.block.inj hp)
    · simp at hp
  | @yes label yes no i _ ih =>
    rcases ih with ⟨n, d, hv, rfl, hp⟩ | ⟨n, d, hv, hk, rfl, hp⟩ | hp
    · obtain ⟨hk, -, rfl, -⟩ := reads_of_program hp
      exact .of_slot (nextId_begun (by rw [hk, Kind.flowKind?]) d)
        (fun child hc => hv.body (by rw [hk, Kind.governs]) hc)
    · simp at hp
    · simp at hp
  | @no label yes no i _ ih =>
    rcases ih with ⟨n, d, hv, rfl, hp⟩ | ⟨n, d, hv, hk, rfl, hp⟩ | hp
    · obtain ⟨hk, -, rfl, rfl⟩ := reads_of_program hp
      exact .of_slot (wellFormed_halfway hv.toStmt.1 hk).2 (fun child hc => hv.elseBranch hk hc)
    · simp at hp
    · simp at hp
  | @loopBody form label body i _ ih =>
    rcases ih with ⟨n, d, hv, rfl, hp⟩ | ⟨n, d, hv, hk, rfl, hp⟩ | hp
    · obtain ⟨hk, -, rfl⟩ := reads_of_program hp
      obtain ⟨hflow, hgoverns⟩ := flowKind?_of_loop hk
      exact .of_body hv hgoverns (nextId_begun hflow d) (.inr ⟨form, hk⟩)
    · simp at hp
    · simp at hp
  | @functionBody label body i _ ih =>
    rcases ih with ⟨n, d, hv, rfl, hp⟩ | ⟨n, d, hv, hk, rfl, hp⟩ | hp
    · obtain ⟨hk, -, rfl⟩ := reads_of_program hp
      exact .of_body hv (by rw [hk, Kind.governs]) (nextId_begun (by rw [hk, Kind.flowKind?]) d)
        (.inl hk)
    · simp at hp
    · simp at hp

end Ast

/-! ## Nodes -/

/-- The node that a statement draws for itself, when its first id is `i`. -/
def Stmt.node? : Stmt → (i : Int) → Option FlowNode
  | .step action label, i => some ⟨i, action.flowKind, label⟩
  | .block _, _ => none
  | .branch label _ _, i => some ⟨i, .branch, label⟩
  | .loop form label _, i => some ⟨i, form.flowKind, label⟩
  | .function label _, i => some ⟨i, .function, label⟩

/-- The node of a program is the one with which the visit begins. -/
theorem Ast.node?_program (n : Ast) (i : Int) :
    n.program.node? i = n.kind.flowKind?.map (fun kind => ⟨i, kind, n.label⟩) := by
  rcases n.kind_cases with hk | hk | hk | ⟨form, hk⟩ | hk
  · rw [program_step hk]
    cases h : n.kind <;> simp_all [Kind.isStep, Kind.flowKind?, Kind.loopForm?, Stmt.node?]
  · rw [program_sequence hk]
    rcases hk with hk | hk <;> rw [hk] <;> rfl
  · rw [program_ifStmt hk, hk]
    rfl
  · rw [program_loop hk, (flowKind?_of_loop hk).1]
    rfl
  · rw [program_functionDef hk, hk]
    rfl

namespace Stmt

/-- A visit of anything that draws a node is the visit of a node of the tree. -/
theorem Visit.exists_ast {root : Ast} {s : Stmt} {i : Int} {node : FlowNode}
    (h : root.program.Visit 0 s i) (hs : s.node? i = some node) :
    ∃ n d, root.Visit n d ∧ d.nextId = i ∧ n.program = s := by
  rcases Ast.Origin.of_visit h with ⟨n, d, hv, hi, hp⟩ | ⟨n, d, hv, hk, hi, rfl⟩ | rfl
  · exact ⟨n, d, hv, hi, hp⟩
  · simp [node?] at hs
  · simp [node?] at hs

theorem Visit.trans {s t u : Stmt} {i j k : Int} (hst : s.Visit i t j) (htu : t.Visit j u k) :
    s.Visit i u k := by
  induction htu with
  | self => exact hst
  | member _ ih => exact ih.member
  | yes _ ih => exact ih.yes
  | no _ ih => exact ih.no
  | loopBody _ ih => exact ih.loopBody
  | functionBody _ ih => exact ih.functionBody

theorem nodes_regionAll (stmts : List Stmt) (before : Region) {node : FlowNode}
    (h : node ∈ (regionAll stmts before).nodes) : node ∈ before.nodes ∨
      ∃ front s back, stmts = front ++ s :: back ∧
        node ∈ (s.region (before.stop + sizeAll front)).nodes := by
  induction stmts generalizing before with
  | nil => exact .inl h
  | cons s stmts ih =>
    rw [regionAll_cons] at h
    have hstop : (before.seq (s.member before.stop)).stop = before.stop + s.size := by
      rw [Region.stop_seq (by simp), stop_member, region_stop]
    rcases ih _ h with hn | ⟨front, t, back, rfl, hn⟩
    · rcases List.mem_append.1 hn with hn | hn
      · exact .inl hn
      · refine .inr ⟨[], s, stmts, rfl, ?_⟩
        simp only [sizeAll, Int.natCast_zero, Int.add_zero]
        unfold member at hn
        split_ifs at hn <;> exact hn
    · refine .inr ⟨s :: front, t, back, rfl, ?_⟩
      rw [hstop] at hn
      rw [sizeAll]
      push_cast
      rwa [← Int.add_assoc]

/-- Every node of a region is made by the visit of a statement, as its own node. -/
theorem exists_visit_of_mem_nodes {s : Stmt} {i : Int} {node : FlowNode}
    (h : node ∈ (s.region i).nodes) : ∃ t j, s.Visit i t j ∧ t.node? j = some node := by
  induction s using Stmt.induction generalizing i with
  | step action label => exact ⟨_, i, .self, by rw [List.mem_singleton.1 h, node?]⟩
  | block stmts ih =>
    rw [region] at h
    rcases nodes_regionAll stmts { start := i } h with hn | ⟨front, s, back, rfl, hn⟩
    · simp at hn
    · obtain ⟨t, j, hv, ht⟩ := ih s (by simp) hn
      refine ⟨t, j, Visit.trans (Visit.self.member) ?_, ht⟩
      simpa [Region.stop] using hv
  | branch label yes no ihy ihn =>
    rw [region] at h
    rcases List.mem_cons.1 h with rfl | h
    · exact ⟨_, i, .self, rfl⟩
    · rcases List.mem_append.1 h with h | h
      · obtain ⟨t, j, hv, ht⟩ := ihy h
        exact ⟨t, j, Visit.self.yes.trans hv, ht⟩
      · obtain ⟨t, j, hv, ht⟩ := ihn h
        exact ⟨t, j, Visit.self.no.trans hv, ht⟩
  | loop form label body ih =>
    rw [region] at h
    rcases List.mem_cons.1 h with rfl | h
    · exact ⟨_, i, .self, rfl⟩
    · obtain ⟨t, j, hv, ht⟩ := ih h
      exact ⟨t, j, Visit.self.loopBody.trans hv, ht⟩
  | function label body ih =>
    rw [region] at h
    rcases List.mem_cons.1 h with rfl | h
    · exact ⟨_, i, .self, rfl⟩
    · obtain ⟨t, j, hv, ht⟩ := ih h
      exact ⟨t, j, Visit.self.functionBody.trans hv, ht⟩

end Stmt

end FlowSketch
