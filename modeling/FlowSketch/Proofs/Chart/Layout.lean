import FlowSketch.Proofs.Chart.Canvas
import FlowSketch.Proofs.Chart.WellFormed

/-!
# A layout is a region

Laying out a statement puts its region behind the draft. No edge of a layout is there already when
it is made, and no exit of a branch is listed twice: the checks for repetitions never find one. So
it does not matter what a canvas does about repetitions, as long as it takes what is new.

* `Draft.grow` — a draft with nodes and edges put behind it.
* `Draft.WellFormed` — every edge of a draft joins nodes of the draft.
* `Canvas.Faithful` — a canvas takes new edges and distinct exits as they come.

Results:

* `Canvas.Faithful.addEdges`: edges that are new and distinct are simply put behind the draft.
* `Canvas.Faithful.drawsRegion`: on a faithful canvas laying out a statement puts its region behind
  a well-formed draft.
* `Stmt.laysRegion`: so it does on the draft itself.
* `Draft.WellFormed.lay`: the draft stays well formed, and grows by the nodes of the statement.
* `Flowchart.ofProgram_eq`: a flowchart is the region of its program.
-/

namespace FlowSketch

namespace Draft

/-- The draft with nodes and edges put behind it. -/
def grow (d : Draft) (nodes : List FlowNode) (edges : List FlowEdge) : Draft :=
  ⟨d.nodes ++ nodes, d.edges ++ edges⟩

/-- Every edge joins ids that are taken, and no node has an id that is yet to come. -/
structure WellFormed (d : Draft) : Prop where
  node_lt : ∀ n ∈ d.nodes, n.id < d.nextId
  edge_lt : ∀ e ∈ d.edges, e.source < d.nextId ∧ e.target < d.nextId

theorem grow_nil (d : Draft) : d.grow [] [] = d := by
  simp [grow]

theorem grow_grow (d : Draft) (nodes nodes' : List FlowNode) (edges edges' : List FlowEdge) :
    (d.grow nodes edges).grow nodes' edges' = d.grow (nodes ++ nodes') (edges ++ edges') := by
  simp [grow]

theorem nextId_grow (d : Draft) (nodes : List FlowNode) (edges : List FlowEdge) :
    (d.grow nodes edges).nextId = d.nextId + nodes.length := by
  simp [grow, nextId]

theorem addNode_eq_grow (d : Draft) (kind : FlowKind) (label : String) :
    d.addNode kind label = d.grow [⟨d.nextId, kind, label⟩] [] := by
  simp [addNode, grow]

theorem addEdge_eq_grow {d : Draft} {source target : Int} {label : EdgeLabel}
    (h : ⟨source, target, label⟩ ∉ d.edges) :
    d.addEdge source target label = d.grow [] [⟨source, target, label⟩] := by
  unfold addEdge grow
  rw [if_neg (by simpa using h), List.append_nil]

theorem WellFormed.empty : ({} : Draft).WellFormed := ⟨by simp, by simp⟩

/-- A well-formed draft stays so when a region that starts at its next id is put behind it. -/
theorem WellFormed.grow {d : Draft} {r : Region} (hd : d.WellFormed) (hr : r.WellFormed)
    (h : r.start = d.nextId) : (d.grow r.nodes r.edges).WellFormed := by
  have hnext : (d.grow r.nodes r.edges).nextId = r.stop := by
    rw [nextId_grow, Region.stop, h]
  have hle : d.nextId ≤ r.stop := by
    have := r.start_le_stop
    omega
  constructor
  · intro n hn
    rw [hnext]
    rcases List.mem_append.1 hn with hn | hn
    · have := hd.node_lt n hn
      omega
    · exact (hr.node_owned n hn).lt_stop
  · intro e he
    rw [hnext]
    rcases List.mem_append.1 he with he | he
    · have := hd.edge_lt e he
      omega
    · exact ⟨(hr.edge_owned e he).1.lt_stop, (hr.edge_owned e he).2.lt_stop⟩

theorem WellFormed.addNode {d : Draft} (hd : d.WellFormed) (kind : FlowKind) (label : String) :
    (d.grow [⟨d.nextId, kind, label⟩] []).WellFormed := by
  constructor
  · intro n hn
    rw [nextId_grow]
    rcases List.mem_append.1 hn with hn | hn
    · have := hd.node_lt n hn
      simp only [List.length_singleton]
      omega
    · rw [List.mem_singleton.1 hn, List.length_singleton]
      push_cast
      omega
  · intro e he
    have := hd.edge_lt e (by simpa [Draft.grow] using he)
    rw [nextId_grow, List.length_singleton]
    omega

theorem WellFormed.growEdges {d : Draft} (hd : d.WellFormed) {edges : List FlowEdge}
    (h : ∀ e ∈ edges, e.source < d.nextId ∧ e.target < d.nextId) :
    (d.grow [] edges).WellFormed := by
  have hnext : (d.grow [] edges).nextId = d.nextId := by simp [nextId_grow]
  constructor
  · intro n hn
    rw [hnext]
    exact hd.node_lt n (by simpa [Draft.grow] using hn)
  · intro e he
    rw [hnext]
    rcases List.mem_append.1 he with he | he
    · exact hd.edge_lt e he
    · exact h e he

/-- Branches with the id of a node of a region are nodes of the region. -/
theorem WellFormed.isBranch_grow {d : Draft} {r : Region} (hd : d.WellFormed)
    (h : d.nextId ≤ r.start) {id : Int} (hid : r.Owns id) (edges : List FlowEdge) :
    (d.grow r.nodes edges).isBranch id = r.isBranch id := by
  have : d.isBranch id = false := by
    simp only [isBranch, List.any_eq_false, Bool.and_eq_true, beq_iff_eq, not_and]
    rintro n hn rfl
    have := hd.node_lt n hn
    have := hid.start_le
    omega
  unfold isBranch at *
  simp only [Draft.grow, List.any_append, this, Bool.false_or]

/-- The edges of a draft do not start in a region that comes later. -/
theorem WellFormed.not_owns {d : Draft} {r : Region} (hd : d.WellFormed) (h : d.nextId ≤ r.start)
    {e : FlowEdge} (he : e ∈ d.edges) : ¬r.Owns e.source := by
  intro ho
  have := (hd.edge_lt e he).1
  have := ho.start_le
  omega

end Draft

/-! ## Canvases that take what is new -/

theorem Fragment.distinct_eq_self {exits : List Exit} (h : exits.Nodup) :
    Fragment.distinct exits = exits := by
  unfold Fragment.distinct
  induction exits with
  | nil => rfl
  | cons x exits ih =>
    obtain ⟨hx, hnodup⟩ := List.nodup_cons.1 h
    rw [List.eraseDups_cons, List.filter_eq_self.2, ih hnodup]
    rintro y hy
    simp only [Bool.not_eq_eq_eq_not, Bool.not_true, beq_eq_false_iff_ne]
    rintro rfl
    exact hx hy

/-- A canvas takes new edges and distinct exits as they come. A canvas may show a draft only on
    conditions that are kept as long as it is given nothing else. -/
structure Canvas.Faithful {δ : Type} (C : Canvas δ) (Shows : δ → Draft → Prop) : Prop where
  draft_eq {c : δ} {d : Draft} : Shows c d → C.draft c = d
  blank : Shows C.blank {}
  addNode {c : δ} {d : Draft} (kind : FlowKind) (label : String) :
    Shows c d → Shows (C.addNode c kind label) (d.addNode kind label)
  addEdge {c : δ} {d : Draft} {e : FlowEdge} :
    Shows c d → e ∉ d.edges → Shows (C.addEdge c e) (d.grow [] [e])
  distinct {c : δ} {d : Draft} {exits : List Exit} :
    Shows c d → exits.Nodup → ∃ c', C.distinct c exits = (c', exits) ∧ Shows c' d

/-- A draft with its filters takes what is new. -/
theorem Canvas.faithful_filtering : filtering.Faithful (· = ·) where
  draft_eq h := h
  blank := rfl
  addNode kind label h := congrArg (Draft.addNode · kind label) h
  addEdge h hnew := by
    subst h
    exact Draft.addEdge_eq_grow hnew
  distinct h hnodup := ⟨_, congrArg (Prod.mk _) (Fragment.distinct_eq_self hnodup), h⟩

section Faithful

variable {δ : Type} {C : Canvas δ} {Shows : δ → Draft → Prop} (hC : C.Faithful Shows)
  {c : δ} {d : Draft} {r : Region}
include hC

namespace Canvas.Faithful

/-! ## Leading exits somewhere -/

theorem nextId_eq (hc : Shows c d) : C.nextId c = d.nextId := by
  rw [Canvas.nextId, hC.draft_eq hc]

/-- Edges that are new to the draft and distinct are put behind it as they are. -/
theorem addEdges {α : Type} {f : α → FlowEdge} {as : List α} (hc : Shows c d)
    (hnew : ∀ e ∈ as.map f, e ∉ d.edges) (hnodup : (as.map f).Nodup) :
    Shows (as.foldl (fun c a => C.addEdge c (f a)) c) (d.grow [] (as.map f)) := by
  induction as generalizing c d with
  | nil =>
    rw [List.map_nil, Draft.grow_nil]
    exact hc
  | cons a as ih =>
    rw [List.map_cons, List.nodup_cons] at hnodup
    have ha : f a ∉ d.edges := hnew (f a) (List.mem_cons_self ..)
    have h := ih (hC.addEdge hc ha) ?_ hnodup.2
    · rwa [Draft.grow_grow] at h
    · intro e he hmem
      rcases List.mem_append.1 hmem with hmem | hmem
      · exact hnew e (List.mem_cons_of_mem _ he) hmem
      · rw [List.mem_singleton] at hmem
        rw [hmem] at he
        exact hnodup.1 he

/-- The exits of a region are led to an id. -/
theorem connect (hc : Shows c d) (hr : r.WellFormed) (target : Int)
    (hnew : ∀ x ∈ r.exits, ∀ e ∈ d.edges, e.source = x.source → e.label ≠ x.label) :
    Shows (C.connect c r.exits target) (d.grow [] (r.exits.map (·.to target))) := by
  refine hC.addEdges hc ?_ ?_
  · intro e he hmem
    obtain ⟨x, hx, rfl⟩ := List.mem_map.1 he
    exact hnew x hx _ hmem rfl rfl
  · apply hr.exits_nodup.map_on
    intro x _ y _ h
    cases x
    cases y
    simp_all

/-- A branch is led into one of its sides. -/
theorem attach (hc : Shows c d) (r : Region) (source : Int) (label : EdgeLabel)
    (hnew : ∀ e ∈ d.edges, e.source = source → e.label ≠ label) :
    ∃ c', C.attach r.toFragment c source label = (c', r.exitsFrom source label) ∧
      Shows c' (d.grow [] (r.into source label)) := by
  unfold Canvas.attach Region.into Region.exitsFrom
  cases r.entry with
  | none =>
    rw [Draft.grow_nil]
    exact ⟨c, rfl, hc⟩
  | some id => exact ⟨_, rfl, hC.addEdge hc fun h => hnew _ h rfl rfl⟩

/-- The exits of a loop body are led back to the header. -/
theorem closeLoop (hc : Shows c d) (hr : r.WellFormed) (header : Int)
    (hback : ∀ x ∈ r.exits, d.backLabel x = r.backLabel x)
    (hnew : ∀ x ∈ r.exits, ∀ e ∈ d.edges, e.source = x.source → e.target ≠ header) :
    Shows (C.closeLoop c header r.exits)
      (d.grow [] (r.backEdges header ++ r.lastEdge header)) := by
  have hmap : r.exits.map (fun x => (⟨x.source, header, d.backLabel x⟩ : FlowEdge)) =
      r.backEdges header := by
    unfold Region.backEdges
    apply List.map_congr_left
    intro x hx
    rw [hback x hx]
  have hany : r.exits.any (fun x => decide (d.backLabel x = .loop)) =
      r.exits.any (fun x => decide (r.backLabel x = .loop)) := by
    rw [Bool.eq_iff_iff, List.any_eq_true, List.any_eq_true]
    constructor <;> rintro ⟨x, hx, h⟩ <;> refine ⟨x, hx, ?_⟩
    · rwa [← hback x hx]
    · rwa [hback x hx]
  have hclosed : Shows (r.exits.foldl (fun c x => C.addEdge c ⟨x.source, header, d.backLabel x⟩) c)
      (d.grow [] (r.backEdges header)) := by
    rw [← hmap]
    refine hC.addEdges hc ?_ ?_
    · intro e he hmem
      obtain ⟨x, hx, rfl⟩ := List.mem_map.1 he
      exact hnew x hx _ hmem rfl rfl
    · apply hr.exits_nodup.map_on
      intro x hx y hy h
      rw [FlowEdge.mk.injEq, hback x hx, hback y hy] at h
      exact hr.back_inj x hx y hy h.1 h.2.2
  unfold Canvas.closeLoop Region.lastEdge
  simp only [hC.draft_eq hc, hany]
  split_ifs with h
  · rwa [List.append_nil]
  · simp only [List.any_eq_true, decide_eq_true_eq, not_exists, not_and] at h
    cases hx : r.exits.getLast? with
    | none => simpa using hclosed
    | some x =>
      have hxm := List.mem_of_getLast? hx
      simp only [Option.map_some, Option.toList_some]
      have hlast := hC.addEdge hclosed (e := ⟨x.source, header, .loop⟩) ?_
      · rwa [Draft.grow_grow] at hlast
      -- the additional edge is marked as going back, and no other at this header is
      intro hmem
      rcases List.mem_append.1 hmem with hmem | hmem
      · exact hnew x hxm _ hmem rfl rfl
      · obtain ⟨y, hy, he⟩ := List.mem_map.1 hmem
        rw [FlowEdge.mk.injEq] at he
        exact h y hy he.2.2

end Canvas.Faithful

end Faithful

/-! ## Statements -/

/-- What it means that laying out a statement on a canvas puts its region behind every well-formed
    draft that the canvas shows. -/
def Canvas.DrawsRegion {δ : Type} (C : Canvas δ) (Shows : δ → Draft → Prop) (s : Stmt) : Prop :=
  ∀ {c : δ} {d : Draft}, Shows c d → d.WellFormed →
    ∃ c', C.lay s c = (c', (s.region d.nextId).toFragment) ∧
      Shows c' (d.grow (s.region d.nextId).nodes (s.region d.nextId).edges)

section Header

variable {d : Draft} (hd : d.WellFormed) (kind : FlowKind) (label : String)
include hd

/-- No edge leaves a header as long as only what lies behind it has been laid out. -/
theorem Draft.WellFormed.source_ne {r : Region} (hr : r.WellFormed)
    (h : r.start = d.nextId + 1) {nodes : List FlowNode} {e : FlowEdge}
    (he : e ∈ (d.grow nodes r.edges).edges) : e.source ≠ d.nextId := by
  intro hs
  rcases List.mem_append.1 he with he | he
  · have := (hd.edge_lt e he).1
    omega
  · have := (hr.edge_owned e he).1.start_le
    omega

omit hd in
theorem Draft.nextId_behind (s : Stmt) (edges : List FlowEdge) :
    (d.grow (⟨d.nextId, kind, label⟩ :: (s.region (d.nextId + 1)).nodes) edges).nextId =
      d.nextId + 1 + s.size := by
  have := s.region_stop (d.nextId + 1)
  rw [Region.stop, Stmt.region_start] at this
  rw [Draft.nextId_grow, List.length_cons]
  push_cast
  omega

theorem Draft.WellFormed.behind (s : Stmt) (side : EdgeLabel) :
    (d.grow (⟨d.nextId, kind, label⟩ :: (s.region (d.nextId + 1)).nodes)
      ((s.region (d.nextId + 1)).edges ++ (s.region (d.nextId + 1)).into d.nextId side)).WellFormed
    := by
  have hr := s.region_wellFormed (d.nextId + 1)
  have hgrow := (hd.addNode kind label).grow hr (by simp [Draft.nextId_grow])
  have hinto : ∀ e ∈ (s.region (d.nextId + 1)).into d.nextId side,
      e.source < d.nextId + 1 + s.size ∧ e.target < d.nextId + 1 + s.size := by
    intro e he
    obtain ⟨id, hid, rfl⟩ := Region.mem_into.1 he
    have := (hr.entry_owned id hid).lt_stop
    rw [Stmt.region_stop] at this
    refine ⟨?_, this⟩
    show d.nextId < d.nextId + 1 + s.size
    omega
  rw [Draft.grow_grow] at hgrow
  have hlen := d.nextId_behind kind label s (s.region (d.nextId + 1)).edges
  have h := hgrow.growEdges (by rwa [← hlen] at hinto)
  rwa [Draft.grow_grow, List.append_nil] at h

end Header

namespace Canvas

section Faithful

variable {δ : Type} {C : Canvas δ} {Shows : δ → Draft → Prop} (hC : C.Faithful Shows)
  {c : δ} {d : Draft} {r : Region}
include hC

/-- A statement is laid out behind the region in front of it. -/
theorem Faithful.layAll_singleton {s : Stmt} (hs : C.DrawsRegion Shows s)
    (hc : Shows c (d.grow r.nodes r.edges)) (hd : d.WellFormed) (hr : r.WellFormed)
    (h : r.start = d.nextId) :
    ∃ c', C.layAll [s] c r.toFragment = (c', (r.seq (s.member r.stop)).toFragment) ∧
      Shows c' (d.grow (r.seq (s.member r.stop)).nodes (r.seq (s.member r.stop)).edges) := by
  have hnext : (d.grow r.nodes r.edges).nextId = r.stop := by
    rw [Draft.nextId_grow, Region.stop, h]
  obtain ⟨c₁, hlay, hc₁⟩ := hs hc (hd.grow hr h)
  rw [hnext, Draft.grow_grow] at hc₁
  rw [Canvas.layAll, hlay, hnext]
  unfold Stmt.member
  cases hf : s.isFunction with
  | true =>
    exact ⟨c₁, by simp [Canvas.layAll, Region.seq, Region.detached],
      by simpa [Region.seq, Region.detached] using hc₁⟩
  | false =>
    cases he : (s.region r.stop).entry with
    | none =>
      exact ⟨c₁, by simp [Canvas.layAll, Region.seq, he], by simpa [Region.seq, he] using hc₁⟩
    | some entry =>
      have hc₂ := hC.connect hc₁ hr entry ?_
      · rw [Draft.grow_grow, List.append_nil] at hc₂
        exact ⟨C.connect c₁ r.exits entry, by simp [Canvas.layAll, Region.seq, he],
          by simpa [Region.seq, he] using hc₂⟩
      · -- the exits in front are fresh, and no edge of the statement starts at one of them
        intro x hx e hmem hsource
        have ho := hr.exit_owned x hx
        rw [← hsource] at ho
        rcases List.mem_append.1 hmem with hmem | hmem
        · exact absurd ho (hd.not_owns (Int.le_of_eq h.symm) hmem)
        · rcases List.mem_append.1 hmem with hmem | hmem
          · exact (hr.fresh x hx e hmem hsource).1
          · exact absurd ((s.region_wellFormed r.stop).edge_owned e hmem).1
              (ho.not_behind (by simp))

/-- A block is laid out behind the region in front of it. -/
theorem Faithful.layAll {stmts : List Stmt} (hs : ∀ s ∈ stmts, C.DrawsRegion Shows s)
    (hc : Shows c (d.grow r.nodes r.edges)) (hd : d.WellFormed) (hr : r.WellFormed)
    (h : r.start = d.nextId) :
    ∃ c', C.layAll stmts c r.toFragment = (c', (regionAll stmts r).toFragment) ∧
      Shows c' (d.grow (regionAll stmts r).nodes (regionAll stmts r).edges) := by
  induction stmts generalizing c r with
  | nil =>
    rw [Canvas.layAll, regionAll]
    exact ⟨c, rfl, hc⟩
  | cons s stmts ih =>
    obtain ⟨c₁, hlay, hc₁⟩ := hC.layAll_singleton (hs s (List.mem_cons_self ..)) hc hd hr h
    rw [layAll_cons, hlay, regionAll_cons]
    exact ih (fun t ht => hs t (List.mem_cons_of_mem s ht)) hc₁
      (hr.seq (Stmt.member_wellFormed (s.region_wellFormed r.stop)) (by simp)) (by simpa using h)

/-- What is laid out behind a header. -/
theorem Faithful.lay_behind (hc : Shows c d) (hd : d.WellFormed) (kind : FlowKind) (label : String)
    {s : Stmt} (hs : C.DrawsRegion Shows s) :
    ∃ c', C.lay s (C.addNode c kind label) = (c', (s.region (d.nextId + 1)).toFragment) ∧
      Shows c' (d.grow (⟨d.nextId, kind, label⟩ :: (s.region (d.nextId + 1)).nodes)
        (s.region (d.nextId + 1)).edges) := by
  have hnode := hC.addNode kind label hc
  rw [Draft.addNode_eq_grow] at hnode
  have hnext : (d.grow [⟨d.nextId, kind, label⟩] []).nextId = d.nextId + 1 := by
    simp [Draft.nextId_grow]
  obtain ⟨c₁, hlay, hc₁⟩ := hs hnode (hd.addNode kind label)
  rw [hnext] at hlay hc₁
  rw [Draft.grow_grow] at hc₁
  exact ⟨c₁, hlay, hc₁⟩

theorem Faithful.drawsRegion_branch {label : String} {yes no : Stmt}
    (hyes : C.DrawsRegion Shows yes) (hno : C.DrawsRegion Shows no) :
    C.DrawsRegion Shows (.branch label yes no) := by
  intro c d hc hd
  have hy := yes.region_wellFormed (d.nextId + 1)
  have hn := no.region_wellFormed (d.nextId + 1 + yes.size)
  have hwf := hd.behind .branch label yes .yes
  have hnext := d.nextId_behind .branch label yes
    ((yes.region (d.nextId + 1)).edges ++ (yes.region (d.nextId + 1)).into d.nextId .yes)
  obtain ⟨c₁, hyesLay, hc₁⟩ := hC.lay_behind hc hd .branch label hyes
  obtain ⟨c₂, hyesAttach, hc₂⟩ := hC.attach hc₁ (yes.region (d.nextId + 1)) d.nextId .yes
    (fun e he h => absurd h (hd.source_ne hy (by simp) he))
  rw [Draft.grow_grow, List.append_nil] at hc₂
  obtain ⟨c₃, hnoLay, hc₃⟩ := hno hc₂ hwf
  rw [hnext] at hnoLay hc₃
  -- no edge labelled `no` leaves the decision before the second side is attached
  have hnew : ∀ e ∈ ((d.grow (⟨d.nextId, .branch, label⟩ :: (yes.region (d.nextId + 1)).nodes)
      ((yes.region (d.nextId + 1)).edges ++ (yes.region (d.nextId + 1)).into d.nextId .yes)).grow
      (no.region (d.nextId + 1 + yes.size)).nodes
      (no.region (d.nextId + 1 + yes.size)).edges).edges, e.source = d.nextId → e.label ≠ .no := by
    intro e he hs
    rcases List.mem_append.1 he with he | he
    · rw [Draft.grow, ← List.append_assoc] at he
      rcases List.mem_append.1 he with he | he
      · have he' : e ∈ (d.grow [] (yes.region (d.nextId + 1)).edges).edges := he
        exact absurd hs (hd.source_ne hy (by simp) he')
      · obtain ⟨id, -, rfl⟩ := Region.mem_into.1 he
        simp
    · have := (hn.edge_owned e he).1.start_le
      rw [Stmt.region_start] at this
      omega
  obtain ⟨c₄, hnoAttach, hc₄⟩ :=
    hC.attach hc₃ (no.region (d.nextId + 1 + yes.size)) d.nextId .no hnew
  have hnodup := ((Stmt.branch label yes no).region_wellFormed d.nextId).exits_nodup
  rw [Stmt.region] at hnodup
  obtain ⟨c₅, hdistinct, hc₅⟩ := hC.distinct hc₄ hnodup
  refine ⟨c₅, ?_, ?_⟩
  · rw [Canvas.lay, hC.nextId_eq hc]
    simp only [hyesLay, hyesAttach, hnoLay, hnoAttach]
    rw [Region.branch] at hdistinct
    simp only [hdistinct]
    rfl
  · rw [Draft.grow_grow, Draft.grow_grow] at hc₅
    simpa [Stmt.region, Region.branch] using hc₅

theorem Faithful.drawsRegion_loop {form : LoopForm} {label : String} {body : Stmt}
    (hs : C.DrawsRegion Shows body) : C.DrawsRegion Shows (.loop form label body) := by
  intro c d hc hd
  have hb := body.region_wellFormed (d.nextId + 1)
  have hnew : ∀ target label', (⟨d.nextId, target, label'⟩ : FlowEdge) ∉
      (d.grow (⟨d.nextId, form.flowKind, label⟩ :: (body.region (d.nextId + 1)).nodes)
        (body.region (d.nextId + 1)).edges).edges :=
    fun _ _ h => hd.source_ne hb (by simp) h rfl
  obtain ⟨c₁, hlay, hc₁⟩ := hC.lay_behind hc hd form.flowKind label hs
  rw [Canvas.lay, hC.nextId_eq hc]
  simp only [hlay]
  cases he : (body.region (d.nextId + 1)).entry with
  | none =>
    have hc₂ := hC.addEdge hc₁ (hnew d.nextId .loop)
    rw [Draft.grow_grow, List.append_nil] at hc₂
    exact ⟨C.addEdge c₁ ⟨d.nextId, d.nextId, .loop⟩, by simp [Stmt.region, Region.loop, he],
      by simpa [Stmt.region, Region.loop, Region.loopEdges, he] using hc₂⟩
  | some entry =>
    have hc₂ := hC.addEdge hc₁ (hnew entry .body)
    rw [Draft.grow_grow, List.append_nil] at hc₂
    have hc₃ := hC.closeLoop hc₂ hb d.nextId ?_ ?_
    · rw [Draft.grow_grow, List.append_nil] at hc₃
      exact ⟨C.closeLoop (C.addEdge c₁ ⟨d.nextId, entry, .body⟩) d.nextId
          (body.region (d.nextId + 1)).exits, by simp [Stmt.region, Region.loop, he],
        by simpa [Stmt.region, Region.loop, Region.loopEdges, he] using hc₃⟩
    · intro x hx
      have ho : (Region.loop d.nextId form label (body.region (d.nextId + 1))).Owns x.source :=
        (Region.owns_loop (Stmt.region_start ..)).2 (.inr (hb.exit_owned x hx))
      apply Region.backLabel_congr
      exact (hd.isBranch_grow (Int.le_refl _) ho _).trans (Region.isBranch_loop ..)
    · -- so far nothing but the edge into the body touches the header
      intro x hx e hmem hsource
      have ho := hb.exit_owned x hx
      rw [← hsource] at ho
      have := ho.start_le
      rw [Stmt.region_start] at this
      rcases List.mem_append.1 hmem with hmem | hmem
      · have := (hd.edge_lt e hmem).1
        omega
      · rcases List.mem_append.1 hmem with hmem | hmem
        · have := (hb.edge_owned e hmem).2.start_le
          rw [Stmt.region_start] at this
          omega
        · rw [List.mem_singleton.1 hmem] at this
          simp only at this
          omega

/-- Laying out a statement on a canvas that takes what is new puts its region behind a well-formed
    draft. -/
theorem Faithful.drawsRegion (s : Stmt) : C.DrawsRegion Shows s := by
  induction s using Stmt.induction with
  | step action label =>
    intro c d hc hd
    have hnode := hC.addNode action.flowKind label hc
    rw [Draft.addNode_eq_grow] at hnode
    rw [Canvas.lay, hC.nextId_eq hc, Stmt.region]
    exact ⟨_, rfl, hnode⟩
  | block stmts ih =>
    intro c d hc hd
    rw [← d.grow_nil] at hc
    rw [Canvas.lay, Stmt.region]
    exact hC.layAll ih hc hd (.empty d.nextId) rfl
  | branch label yes no ihy ihn => exact hC.drawsRegion_branch ihy ihn
  | loop form label body ih => exact hC.drawsRegion_loop ih
  | function label body ih =>
    intro c d hc hd
    have hb := body.region_wellFormed (d.nextId + 1)
    obtain ⟨c₁, hlay, hc₁⟩ := hC.lay_behind hc hd .function label ih
    rw [Canvas.lay, hC.nextId_eq hc]
    simp only [hlay]
    cases he : (body.region (d.nextId + 1)).entry with
    | none =>
      exact ⟨c₁, rfl, by simpa [Stmt.region, Region.function, Region.into, he] using hc₁⟩
    | some entry =>
      have hc₂ := hC.addEdge hc₁ (e := ⟨d.nextId, entry, .next⟩) ?_
      · rw [Draft.grow_grow, List.append_nil] at hc₂
        exact ⟨_, rfl, by simpa [Stmt.region, Region.function, Region.into, he] using hc₂⟩
      · intro h
        exact hd.source_ne hb (by simp) h rfl

end Faithful

end Canvas

/-! ## The draft itself -/

/-- What it means that laying out a statement puts its region behind every well-formed draft. -/
def Stmt.LaysRegion (s : Stmt) : Prop :=
  ∀ d : Draft, d.WellFormed → s.lay d =
    (d.grow (s.region d.nextId).nodes (s.region d.nextId).edges, (s.region d.nextId).toFragment)

/-- Laying out a statement puts its region behind a well-formed draft. -/
theorem Stmt.laysRegion (s : Stmt) : s.LaysRegion := by
  intro d hd
  obtain ⟨_, hlay, rfl⟩ := Canvas.faithful_filtering.drawsRegion s rfl hd
  rw [← Canvas.lay_filtering, hlay]

section Header

variable {d : Draft} (hd : d.WellFormed) (kind : FlowKind) (label : String)
include hd

/-- What is laid out behind a header. -/
theorem Stmt.LaysRegion.behind {s : Stmt} (hs : s.LaysRegion) :
    s.lay (d.addNode kind label) =
      (d.grow (⟨d.nextId, kind, label⟩ :: (s.region (d.nextId + 1)).nodes)
        (s.region (d.nextId + 1)).edges, (s.region (d.nextId + 1)).toFragment) := by
  have hnext : (d.grow [⟨d.nextId, kind, label⟩] []).nextId = d.nextId + 1 := by
    simp [Draft.nextId_grow]
  rw [Draft.addNode_eq_grow, hs _ (hd.addNode kind label), hnext, Draft.grow_grow]
  rfl

/-- A statement is laid out behind a header, which is led into it. -/
theorem Stmt.LaysRegion.attach_behind {s : Stmt} (hs : s.LaysRegion) (side : EdgeLabel) :
    (s.lay (d.addNode kind label)).2.attach (s.lay (d.addNode kind label)).1 d.nextId side =
      (d.grow (⟨d.nextId, kind, label⟩ :: (s.region (d.nextId + 1)).nodes)
        ((s.region (d.nextId + 1)).edges ++ (s.region (d.nextId + 1)).into d.nextId side),
        (s.region (d.nextId + 1)).exitsFrom d.nextId side) := by
  have hr := s.region_wellFormed (d.nextId + 1)
  obtain ⟨_, hattach, rfl⟩ := Canvas.faithful_filtering.attach rfl (s.region (d.nextId + 1))
    d.nextId side (fun e he h => absurd h (hd.source_ne hr (by simp) he))
  rw [Draft.grow_grow, List.append_nil] at hattach
  rw [hs.behind hd]
  exact hattach

end Header

/-- A draft stays well formed when a statement is laid out, and grows by the nodes of it. -/
theorem Draft.WellFormed.lay {d : Draft} (hd : d.WellFormed) (s : Stmt) :
    (s.lay d).1.WellFormed ∧ (s.lay d).1.nextId = d.nextId + s.size := by
  rw [s.laysRegion d hd]
  refine ⟨hd.grow (s.region_wellFormed _) (by simp), ?_⟩
  have := s.region_stop d.nextId
  rw [Region.stop, Stmt.region_start] at this
  rw [Draft.nextId_grow]
  omega

/-- The same for statements that are laid out one after the other. -/
theorem Draft.WellFormed.layAll {d : Draft} (hd : d.WellFormed) (stmts : List Stmt) :
    (FlowSketch.layAll stmts d {}).1.WellFormed ∧
      (FlowSketch.layAll stmts d {}).1.nextId = d.nextId + Stmt.sizeAll stmts := by
  have h := hd.lay (.block stmts)
  rwa [Stmt.lay, Stmt.size] at h

/-- A flowchart is the region of its program. -/
theorem Flowchart.ofProgram_eq (program : Stmt) (malformed : List Malformed) :
    (Flowchart.ofProgram program malformed).nodes = (program.region 0).nodes ∧
      (Flowchart.ofProgram program malformed).edges = (program.region 0).edges := by
  have h : program.lay {} = _ := program.laysRegion {} .empty
  simp only [Flowchart.ofProgram, h]
  exact ⟨List.nil_append _, List.nil_append _⟩

end FlowSketch
