import FlowSketch.Proofs.Chart.Region

/-!
# Well-formed regions

Every region of a statement keeps to its own ids, and its open exits are fresh: no edge leaves the
same node for the same reason. So control has not left by an exit before the exit is led somewhere.

* `Region.WellFormed` — the invariant.
* `Region.WellFormed.seq`, `Region.WellFormed.branch`, `Region.WellFormed.loop`,
  `Region.WellFormed.function`: each combinator keeps it.

Results:

* `Stmt.region_wellFormed`: the region of every statement is well formed.
* `regionAll_wellFormed`: so is a block behind a well-formed region.
-/

namespace FlowSketch

namespace Region

/-- A region keeps to its own ids. Its open exits are distinct, also after their labels are
    replaced by those that lead back to a header, and fresh: no edge has the source and label of an
    open exit, and the only edge back that may leave its source is the one from a header to
    itself. -/
structure WellFormed (r : Region) : Prop where
  node_owned : ∀ n ∈ r.nodes, r.Owns n.id
  edge_owned : ∀ e ∈ r.edges, r.Owns e.source ∧ r.Owns e.target
  exit_owned : ∀ x ∈ r.exits, r.Owns x.source
  entry_owned : ∀ id, r.entry = some id → r.Owns id
  exits_nil : r.entry = none → r.exits = []
  exits_nodup : r.exits.Nodup
  exit_label : ∀ x ∈ r.exits, x.label = .next ∨ x.label = .yes ∨ x.label = .no
  back_inj : ∀ x ∈ r.exits, ∀ y ∈ r.exits, x.source = y.source →
    r.backLabel x = r.backLabel y → x = y
  fresh : ∀ x ∈ r.exits, ∀ e ∈ r.edges, e.source = x.source →
    e.label ≠ x.label ∧ (e.label = .loop → e.target = e.source)

variable {r s : Region} {start : Int}

/-! ## Members of composite regions -/

theorem mem_into {e : FlowEdge} {label : EdgeLabel} :
    e ∈ r.into start label ↔ ∃ id, r.entry = some id ∧ e = ⟨start, id, label⟩ := by
  unfold into
  cases r.entry <;> simp

theorem mem_exitsFrom {x : Exit} {label : EdgeLabel} (hr : r.WellFormed) :
    x ∈ r.exitsFrom start label ↔ x ∈ r.exits ∨ (r.entry = none ∧ x = ⟨start, label⟩) := by
  unfold exitsFrom
  cases h : r.entry with
  | none => simp [hr.exits_nil h]
  | some id => simp

theorem mem_edges_seq {e : FlowEdge} :
    e ∈ (r.seq s).edges ↔ e ∈ r.edges ∨ e ∈ s.edges ∨
      ∃ id, s.entry = some id ∧ ∃ x ∈ r.exits, e = x.to id := by
  simp only [seq, List.mem_append, or_assoc]
  cases s.entry <;> simp [eq_comm]

theorem mem_edges_branch {e : FlowEdge} {label : String} {yes no : Region} :
    e ∈ (branch start label yes no).edges ↔ e ∈ yes.edges ∨ e ∈ no.edges ∨
      e ∈ yes.into start .yes ∨ e ∈ no.into start .no := by
  simp only [branch, List.mem_append]
  tauto

theorem mem_exits_branch {x : Exit} {label : String} {yes no : Region} :
    x ∈ (branch start label yes no).exits ↔
      x ∈ yes.exitsFrom start .yes ∨ x ∈ no.exitsFrom start .no := by
  simp only [branch, List.mem_append]

/-- The additional edge back is there only when every exit keeps its own label, and then it comes
    from one of them. -/
theorem lastEdge_cases (r : Region) (header : Int) : r.lastEdge header = [] ∨
    ∃ x ∈ r.exits, (∀ y ∈ r.exits, r.backLabel y ≠ .loop) ∧
      r.lastEdge header = [⟨x.source, header, .loop⟩] := by
  unfold lastEdge
  split_ifs with h
  · exact .inl rfl
  · simp only [List.any_eq_true, decide_eq_true_eq, not_exists, not_and] at h
    cases hx : r.exits.getLast? with
    | none => exact .inl rfl
    | some x => exact .inr ⟨x, List.mem_of_getLast? hx, h, rfl⟩

/-- An edge at the header of a loop goes round at the header itself, into the body, or from an exit
    of the body back. -/
theorem mem_loopEdges {e : FlowEdge} (h : e ∈ loopEdges start r) :
    (r.entry = none ∧ e = ⟨start, start, .loop⟩) ∨
      (∃ id, r.entry = some id ∧ e = ⟨start, id, .body⟩) ∨
      ∃ x ∈ r.exits, e.source = x.source ∧ e.target = start := by
  unfold loopEdges at h
  cases hr : r.entry with
  | none =>
    simp only [hr, List.mem_singleton] at h
    exact .inl ⟨rfl, h⟩
  | some id =>
    simp only [hr, List.mem_cons, List.mem_append, backEdges, List.mem_map] at h
    rcases h with rfl | ⟨x, hx, rfl⟩ | h
    · exact .inr (.inl ⟨id, rfl, rfl⟩)
    · exact .inr (.inr ⟨x, hx, rfl, rfl⟩)
    · rcases r.lastEdge_cases start with h' | ⟨x, hx, -, h'⟩
      · simp [h'] at h
      · rw [h', List.mem_singleton] at h
        exact .inr (.inr ⟨x, hx, by rw [h], by rw [h]⟩)

/-! ## Branches in composite regions -/

theorem isBranch_eq_false_of_not_owns (hr : r.WellFormed) {id : Int} (h : ¬r.Owns id) :
    r.isBranch id = false := by
  simp only [Draft.isBranch, List.any_eq_false, Bool.and_eq_true, beq_iff_eq, not_and]
  rintro n hn rfl
  exact absurd (hr.node_owned n hn) h

@[simp] theorem isBranch_seq (id : Int) :
    (r.seq s).isBranch id = (r.isBranch id || s.isBranch id) := by
  simp [Draft.isBranch, seq]

@[simp] theorem isBranch_branch (id : Int) (label : String) (yes no : Region) :
    (branch start label yes no).isBranch id =
      ((start == id) || (yes.isBranch id || no.isBranch id)) := by
  simp [Draft.isBranch, branch]

@[simp] theorem isBranch_loop (id : Int) (form : LoopForm) (label : String) :
    (loop start form label r).isBranch id = r.isBranch id := by
  cases form <;> simp [Draft.isBranch, loop, LoopForm.flowKind]

@[simp] theorem isBranch_function (id : Int) (label : String) :
    (function start label r).isBranch id = r.isBranch id := by
  simp [Draft.isBranch, function]

theorem isBranch_seq_left (hs : s.WellFormed) (h : s.start = r.stop) {id : Int} (hid : r.Owns id) :
    (r.seq s).isBranch id = r.isBranch id := by
  rw [isBranch_seq, isBranch_eq_false_of_not_owns hs (hid.not_behind h), Bool.or_false]

theorem isBranch_seq_right (hr : r.WellFormed) (h : s.start = r.stop) {id : Int} (hid : s.Owns id) :
    (r.seq s).isBranch id = s.isBranch id := by
  rw [isBranch_seq, isBranch_eq_false_of_not_owns hr (hid.not_before h), Bool.false_or]

theorem isBranch_branch_yes {label : String} {yes no : Region} (hn : no.WellFormed)
    (hys : yes.start = start + 1) (hns : no.start = yes.stop) {id : Int} (hid : yes.Owns id) :
    (branch start label yes no).isBranch id = yes.isBranch id := by
  have hne : start ≠ id := by
    rintro rfl
    exact not_owns_header hys hid
  rw [isBranch_branch, beq_eq_false_iff_ne.2 hne,
    isBranch_eq_false_of_not_owns hn (hid.not_behind hns), Bool.false_or, Bool.or_false]

theorem isBranch_branch_no {label : String} {yes no : Region} (hy : yes.WellFormed)
    (hys : yes.start = start + 1) (hns : no.start = yes.stop) {id : Int} (hid : no.Owns id) :
    (branch start label yes no).isBranch id = no.isBranch id := by
  have hne : start ≠ id := by
    rintro rfl
    exact not_owns_header_second hys hns hid
  rw [isBranch_branch, beq_eq_false_iff_ne.2 hne,
    isBranch_eq_false_of_not_owns hy (hid.not_before hns), Bool.false_or, Bool.false_or]

/-- The label of an exit on its way back depends only on what kind of node it leaves. -/
theorem backLabel_congr {d d' : Draft} {x : Exit} (h : d.isBranch x.source = d'.isBranch x.source) :
    d.backLabel x = d'.backLabel x := by
  unfold Draft.backLabel
  rw [h]

/-! ## Edges by where they start -/

/-- The edges of a region that start in a part of it. -/
def edgesFrom (r part : Region) : List FlowEdge := r.edges.filter (fun e => part.Owns e.source)

theorem mem_edgesFrom {part : Region} {e : FlowEdge} :
    e ∈ r.edgesFrom part ↔ e ∈ r.edges ∧ part.Owns e.source := by
  simp [edgesFrom]

theorem filter_owns_eq_self {part : Region} {edges : List FlowEdge}
    (h : ∀ e ∈ edges, part.Owns e.source) :
    edges.filter (fun e => part.Owns e.source) = edges := by
  rw [List.filter_eq_self]
  simpa using h

theorem filter_owns_eq_nil {part : Region} {edges : List FlowEdge}
    (h : ∀ e ∈ edges, ¬part.Owns e.source) :
    edges.filter (fun e => part.Owns e.source) = [] := by
  rw [List.filter_eq_nil_iff]
  simpa using h

theorem WellFormed.edgesFrom_self (hr : r.WellFormed) :
    r.edges.filter (fun e => r.Owns e.source) = r.edges :=
  filter_owns_eq_self (fun e he => (hr.edge_owned e he).1)

/-- The edges that a sequence adds to those of its parts start at the exits of the first. -/
theorem edgesFrom_seq_left (hr : r.WellFormed) (hs : s.WellFormed) (h : s.start = r.stop) :
    (r.seq s).edgesFrom r =
      r.edges ++ s.entry.elim [] (fun entry => r.exits.map (·.to entry)) := by
  unfold edgesFrom
  rw [Region.seq, List.filter_append, List.filter_append, hr.edgesFrom_self,
    filter_owns_eq_nil (fun e he => (hs.edge_owned e he).1.not_before h),
    List.append_nil, filter_owns_eq_self]
  intro e he
  cases hse : s.entry with
  | none => simp [hse] at he
  | some entry =>
    simp only [hse, Option.elim_some, List.mem_map] at he
    obtain ⟨x, hx, rfl⟩ := he
    exact hr.exit_owned x hx

theorem edgesFrom_seq_right (hr : r.WellFormed) (hs : s.WellFormed) (h : s.start = r.stop) :
    (r.seq s).edgesFrom s = s.edges := by
  unfold edgesFrom
  rw [Region.seq, List.filter_append, List.filter_append, hs.edgesFrom_self,
    filter_owns_eq_nil (fun e he => (hr.edge_owned e he).1.not_behind h),
    List.nil_append, filter_owns_eq_nil, List.append_nil]
  intro e he
  cases hse : s.entry with
  | none => simp [hse] at he
  | some entry =>
    simp only [hse, Option.elim_some, List.mem_map] at he
    obtain ⟨x, hx, rfl⟩ := he
    exact (hr.exit_owned x hx).not_behind h

theorem filter_into_eq_nil {part : Region} {label : EdgeLabel} (h : ¬part.Owns start) :
    (r.into start label).filter (fun e => part.Owns e.source) = [] := by
  apply filter_owns_eq_nil
  intro e he
  obtain ⟨id, -, rfl⟩ := mem_into.1 he
  exact h

section Branch

variable {label : String} {yes no : Region}

theorem edgesFrom_branch_yes (hy : yes.WellFormed) (hn : no.WellFormed)
    (hys : yes.start = start + 1) (hns : no.start = yes.stop) :
    (branch start label yes no).edgesFrom yes = yes.edges := by
  have h0 : ¬yes.Owns start := not_owns_header hys
  unfold edgesFrom
  rw [Region.branch, List.filter_append, List.filter_append, List.filter_append, hy.edgesFrom_self,
    filter_into_eq_nil h0, filter_into_eq_nil h0, filter_owns_eq_nil
      (fun e he => (hn.edge_owned e he).1.not_before hns)]
  simp

theorem edgesFrom_branch_no (hy : yes.WellFormed) (hn : no.WellFormed)
    (hys : yes.start = start + 1) (hns : no.start = yes.stop) :
    (branch start label yes no).edgesFrom no = no.edges := by
  have h0 : ¬no.Owns start := not_owns_header_second hys hns
  unfold edgesFrom
  rw [Region.branch, List.filter_append, List.filter_append, List.filter_append, hn.edgesFrom_self,
    filter_into_eq_nil h0, filter_into_eq_nil h0, filter_owns_eq_nil
      (fun e he => (hy.edge_owned e he).1.not_behind hns)]
  simp

end Branch

section Body

variable {form : LoopForm} {label : String} {body : Region}

/-- The edges back to a header start in the body. -/
theorem WellFormed.back_owned (hb : body.WellFormed) :
    ∀ e ∈ body.backEdges start ++ body.lastEdge start, body.Owns e.source := by
  intro e he
  rcases List.mem_append.1 he with he | he
  · obtain ⟨x, hx, rfl⟩ := List.mem_map.1 he
    exact hb.exit_owned x hx
  · rcases body.lastEdge_cases start with h | ⟨x, hx, -, h⟩
    · simp [h] at he
    · rw [h, List.mem_singleton] at he
      exact he ▸ hb.exit_owned x hx

theorem edgesFrom_loop (hb : body.WellFormed) (hbs : body.start = start + 1) :
    (loop start form label body).edgesFrom body =
      body.edges ++ (body.backEdges start ++ body.lastEdge start) := by
  have h0 : ¬body.Owns start := not_owns_header hbs
  unfold edgesFrom
  rw [Region.loop, List.filter_append, hb.edgesFrom_self]
  congr 1
  unfold loopEdges
  cases hbe : body.entry with
  | none => simp [backEdges, lastEdge, hb.exits_nil hbe, h0]
  | some id =>
    simp only []
    rw [List.filter_cons_of_neg (by simpa using h0), filter_owns_eq_self hb.back_owned]

theorem edgesFrom_function (hb : body.WellFormed) (hbs : body.start = start + 1) :
    (function start label body).edgesFrom body = body.edges := by
  have h0 : ¬body.Owns start := not_owns_header hbs
  unfold edgesFrom
  rw [Region.function, List.filter_append, hb.edgesFrom_self, filter_into_eq_nil h0,
    List.append_nil]

end Body

/-! ## Each combinator keeps the invariant -/

theorem WellFormed.empty (start : Int) : ({ start } : Region).WellFormed where
  node_owned := by simp
  edge_owned := by simp
  exit_owned := by simp
  entry_owned := by simp
  exits_nil := by simp
  exits_nodup := by simp
  exit_label := by simp
  back_inj := by simp
  fresh := by simp

theorem owns_step (id : Int) (action : Action) (label : String) :
    (step start action label).Owns id ↔ id = start := by
  unfold Owns
  rw [stop_step, start_step]
  omega

theorem WellFormed.step (start : Int) (action : Action) (label : String) :
    (step start action label).WellFormed where
  node_owned n hn := by
    rw [List.mem_singleton.1 hn, owns_step]
  edge_owned := by simp [Region.step]
  exit_owned x hx := by
    rw [List.mem_singleton.1 hx, owns_step]
  entry_owned id hid := by
    rw [owns_step, Option.some.inj hid]
  exits_nil := by simp [Region.step]
  exits_nodup := by simp [Region.step]
  exit_label := by simp [Region.step]
  back_inj := by simp [Region.step]
  fresh := by simp [Region.step]

theorem WellFormed.detached (hr : r.WellFormed) : r.detached.WellFormed where
  node_owned := hr.node_owned
  edge_owned := hr.edge_owned
  exit_owned := by simp [Region.detached]
  entry_owned := by simp [Region.detached]
  exits_nil _ := rfl
  exits_nodup := List.nodup_nil
  exit_label := by simp [Region.detached]
  back_inj := by simp [Region.detached]
  fresh := by simp [Region.detached]

/-- The exits of a sequence are those of one of its two parts. -/
theorem exits_seq (r s : Region) : (s.entry = none ∧ (r.seq s).exits = r.exits) ∨
    ((∃ id, s.entry = some id) ∧ (r.seq s).exits = s.exits) := by
  cases h : s.entry with
  | none => exact .inl ⟨rfl, by simp [Region.seq, h]⟩
  | some id => exact .inr ⟨⟨id, rfl⟩, by simp [Region.seq, h]⟩

theorem WellFormed.seq (hr : r.WellFormed) (hs : s.WellFormed) (h : s.start = r.stop) :
    (r.seq s).WellFormed where
  node_owned n hn := by
    rw [owns_seq h]
    rcases List.mem_append.1 hn with hn | hn
    · exact .inl (hr.node_owned n hn)
    · exact .inr (hs.node_owned n hn)
  edge_owned e he := by
    rw [owns_seq h, owns_seq h]
    rcases mem_edges_seq.1 he with he | he | ⟨id, hid, x, hx, rfl⟩
    · exact ⟨.inl (hr.edge_owned e he).1, .inl (hr.edge_owned e he).2⟩
    · exact ⟨.inr (hs.edge_owned e he).1, .inr (hs.edge_owned e he).2⟩
    · exact ⟨.inl (hr.exit_owned x hx), .inr (hs.entry_owned id hid)⟩
  exit_owned x hx := by
    rw [owns_seq h]
    rcases exits_seq r s with ⟨-, he⟩ | ⟨-, he⟩ <;> rw [he] at hx
    · exact .inl (hr.exit_owned x hx)
    · exact .inr (hs.exit_owned x hx)
  entry_owned id hid := by
    rw [owns_seq h]
    cases hre : r.entry with
    | none =>
      simp only [Region.seq, hre, Option.none_or, Option.orElse_eq_orElse,
        Option.orElse_eq_or] at hid
      exact .inr (hs.entry_owned id hid)
    | some id' =>
      simp only [Region.seq, hre, Option.some_or, Option.orElse_eq_orElse,
        Option.orElse_eq_or, Option.some.injEq] at hid
      exact .inl (hid ▸ hr.entry_owned id' hre)
  exits_nil he := by
    simp only [Region.seq, Option.orElse_eq_orElse, Option.orElse_eq_or,
      Option.or_eq_none_iff] at he
    rcases exits_seq r s with ⟨-, hx⟩ | ⟨⟨id, hid⟩, -⟩
    · rw [hx, hr.exits_nil he.1]
    · rw [hid] at he
      exact absurd he.2 (by simp)
  exits_nodup := by
    rcases exits_seq r s with ⟨-, he⟩ | ⟨-, he⟩ <;> rw [he]
    · exact hr.exits_nodup
    · exact hs.exits_nodup
  exit_label := by
    rcases exits_seq r s with ⟨-, he⟩ | ⟨-, he⟩ <;> rw [he]
    · exact hr.exit_label
    · exact hs.exit_label
  back_inj x hx y hy hxy hb := by
    rcases exits_seq r s with ⟨-, he⟩ | ⟨-, he⟩ <;> rw [he] at hx hy
    · rw [backLabel_congr (isBranch_seq_left hs h (hr.exit_owned x hx)),
        backLabel_congr (isBranch_seq_left hs h (hr.exit_owned y hy))] at hb
      exact hr.back_inj x hx y hy hxy hb
    · rw [backLabel_congr (isBranch_seq_right hr h (hs.exit_owned x hx)),
        backLabel_congr (isBranch_seq_right hr h (hs.exit_owned y hy))] at hb
      exact hs.back_inj x hx y hy hxy hb
  fresh x hx e he hsource := by
    rcases exits_seq r s with ⟨hn, hxs⟩ | ⟨-, hxs⟩ <;> rw [hxs] at hx
    · have he' := mem_edgesFrom.2 ⟨he, hsource ▸ hr.exit_owned x hx⟩
      rw [edgesFrom_seq_left hr hs h, hn, Option.elim_none, List.append_nil] at he'
      exact hr.fresh x hx e he' hsource
    · have he' := mem_edgesFrom.2 ⟨he, hsource ▸ hs.exit_owned x hx⟩
      rw [edgesFrom_seq_right hr hs h] at he'
      exact hs.fresh x hx e he' hsource

section Branch

variable {label : String} {yes no : Region}

theorem nodup_exitsFrom {label : EdgeLabel} (hr : r.WellFormed) :
    (r.exitsFrom start label).Nodup := by
  unfold exitsFrom
  cases r.entry with
  | none => exact List.nodup_singleton _
  | some id => exact hr.exits_nodup

theorem backLabel_branch_self {x : Exit} (hx : x.source = start)
    (hl : x.label = .yes ∨ x.label = .no) :
    (branch start label yes no).backLabel x = x.label := by
  unfold Draft.backLabel
  rw [if_pos ⟨hl, by simp [hx]⟩]

/-- An exit of a branch comes from one of its sides, or from the branch itself where a side has
    nothing to enter. -/
theorem exit_branch_cases {x : Exit} (hy : yes.WellFormed) (hn : no.WellFormed)
    (hx : x ∈ (branch start label yes no).exits) :
    (x ∈ yes.exits ∧ yes.Owns x.source) ∨ (x ∈ no.exits ∧ no.Owns x.source) ∨
      (x.source = start ∧ ((yes.entry = none ∧ x.label = .yes) ∨
        (no.entry = none ∧ x.label = .no))) := by
  rw [mem_exits_branch, mem_exitsFrom hy, mem_exitsFrom hn] at hx
  rcases hx with (hx | ⟨he, rfl⟩) | (hx | ⟨he, rfl⟩)
  · exact .inl ⟨hx, hy.exit_owned x hx⟩
  · exact .inr (.inr ⟨rfl, .inl ⟨he, rfl⟩⟩)
  · exact .inr (.inl ⟨hx, hn.exit_owned x hx⟩)
  · exact .inr (.inr ⟨rfl, .inr ⟨he, rfl⟩⟩)

section

variable (hy : yes.WellFormed) (hn : no.WellFormed) (hys : yes.start = start + 1)
  (hns : no.start = yes.stop)
include hy hn hys hns

theorem exits_nodup_branch : (Region.branch start label yes no).exits.Nodup := by
  refine List.nodup_append.2 ⟨nodup_exitsFrom hy, nodup_exitsFrom hn, ?_⟩
  rintro x hx y hxy rfl
  rw [mem_exitsFrom hy] at hx
  rw [mem_exitsFrom hn] at hxy
  rcases hx with hx | ⟨-, rfl⟩ <;> rcases hxy with hxy | ⟨-, hxy⟩
  · exact (hy.exit_owned x hx).not_behind hns (hn.exit_owned x hxy)
  · exact not_owns_header hys (by simpa [hxy] using hy.exit_owned x hx)
  · exact not_owns_header_second hys hns (hn.exit_owned _ hxy)
  · exact absurd (congrArg Exit.label hxy) (by simp)

/-- Two exits of a branch at one node lie on one side, or both at the branch itself. -/
theorem back_inj_branch {x y : Exit} (hx : x ∈ (Region.branch start label yes no).exits)
    (hx' : y ∈ (Region.branch start label yes no).exits) (hs : x.source = y.source)
    (hb : (Region.branch start label yes no).backLabel x =
      (Region.branch start label yes no).backLabel y) : x = y := by
  have hyn : ∀ id, yes.Owns id → ¬no.Owns id := fun id h => h.not_behind hns
  have hy0 : ¬yes.Owns start := not_owns_header hys
  have hn0 : ¬no.Owns start := not_owns_header_second hys hns
  rcases exit_branch_cases hy hn hx with ⟨hx, ho⟩ | ⟨hx, ho⟩ | ⟨ho, hl⟩ <;>
    rcases exit_branch_cases hy hn hx' with ⟨hx', ho'⟩ | ⟨hx', ho'⟩ | ⟨ho', hl'⟩
  · rw [backLabel_congr (isBranch_branch_yes hn hys hns ho),
      backLabel_congr (isBranch_branch_yes hn hys hns ho')] at hb
    exact hy.back_inj x hx y hx' hs hb
  · exact absurd ho' (hs ▸ hyn _ ho)
  · exact absurd (ho' ▸ hs ▸ ho) hy0
  · exact absurd ho (hs ▸ hyn _ ho')
  · rw [backLabel_congr (isBranch_branch_no hy hys hns ho),
      backLabel_congr (isBranch_branch_no hy hys hns ho')] at hb
    exact hn.back_inj x hx y hx' hs hb
  · exact absurd (ho' ▸ hs ▸ ho) hn0
  · exact absurd (ho ▸ hs ▸ ho') hy0
  · exact absurd (ho ▸ hs ▸ ho') hn0
  · rw [backLabel_branch_self ho (by tauto), backLabel_branch_self ho' (by tauto)] at hb
    cases x
    cases y
    simp_all

/-- The edges of a branch that start where one of its exits does have another label: an exit at the
    branch itself is there only for a side without an entry. -/
theorem fresh_branch {x : Exit} (hx : x ∈ (Region.branch start label yes no).exits) {e : FlowEdge}
    (he : e ∈ (Region.branch start label yes no).edges) (hs : e.source = x.source) :
    e.label ≠ x.label ∧ (e.label = .loop → e.target = e.source) := by
  rcases exit_branch_cases hy hn hx with ⟨hx, ho⟩ | ⟨hx, ho⟩ | ⟨ho, hl⟩
  · have he' := mem_edgesFrom.2 ⟨he, hs ▸ ho⟩
    rw [edgesFrom_branch_yes hy hn hys hns] at he'
    exact hy.fresh x hx e he' hs
  · have he' := mem_edgesFrom.2 ⟨he, hs ▸ ho⟩
    rw [edgesFrom_branch_no hy hn hys hns] at he'
    exact hn.fresh x hx e he' hs
  · rcases mem_edges_branch.1 he with he | he | he | he
    · exact absurd (ho ▸ hs ▸ (hy.edge_owned e he).1) (not_owns_header hys)
    · exact absurd (ho ▸ hs ▸ (hn.edge_owned e he).1) (not_owns_header_second hys hns)
    all_goals
      obtain ⟨id, hid, rfl⟩ := mem_into.1 he
      rcases hl with ⟨hnone, hl⟩ | ⟨hnone, hl⟩ <;> simp_all

theorem WellFormed.branch : (branch start label yes no).WellFormed where
  node_owned n hmem := by
    rw [owns_branch hys hns]
    rcases List.mem_cons.1 hmem with rfl | hmem
    · exact .inl rfl
    · rcases List.mem_append.1 hmem with hmem | hmem
      · exact .inr (.inl (hy.node_owned n hmem))
      · exact .inr (.inr (hn.node_owned n hmem))
  edge_owned e he := by
    rw [owns_branch hys hns, owns_branch hys hns]
    rcases mem_edges_branch.1 he with he | he | he | he
    · exact ⟨.inr (.inl (hy.edge_owned e he).1), .inr (.inl (hy.edge_owned e he).2)⟩
    · exact ⟨.inr (.inr (hn.edge_owned e he).1), .inr (.inr (hn.edge_owned e he).2)⟩
    · obtain ⟨id, hid, rfl⟩ := mem_into.1 he
      exact ⟨.inl rfl, .inr (.inl (hy.entry_owned id hid))⟩
    · obtain ⟨id, hid, rfl⟩ := mem_into.1 he
      exact ⟨.inl rfl, .inr (.inr (hn.entry_owned id hid))⟩
  exit_owned x hx := by
    rw [owns_branch hys hns]
    rcases exit_branch_cases hy hn hx with ⟨-, h⟩ | ⟨-, h⟩ | ⟨h, -⟩
    · exact .inr (.inl h)
    · exact .inr (.inr h)
    · exact .inl h
  entry_owned id hid := by
    rw [owns_branch hys hns, Option.some.inj hid]
    exact .inl rfl
  exits_nil h := absurd h (by simp [Region.branch])
  exits_nodup := exits_nodup_branch hy hn hys hns
  exit_label x hx := by
    rcases exit_branch_cases hy hn hx with ⟨h, -⟩ | ⟨h, -⟩ | ⟨-, ⟨-, h⟩ | ⟨-, h⟩⟩
    · exact hy.exit_label x h
    · exact hn.exit_label x h
    · exact .inr (.inl h)
    · exact .inr (.inr h)
  back_inj _ hx _ hx' hs hb := back_inj_branch hy hn hys hns hx hx' hs hb
  fresh _ hx _ he hs := fresh_branch hy hn hys hns hx he hs

end

end Branch

section Body

variable {form : LoopForm} {label : String} {body : Region}

theorem WellFormed.loop (hb : body.WellFormed) (hbs : body.start = start + 1) :
    (loop start form label body).WellFormed where
  node_owned n hn := by
    rw [owns_loop hbs]
    rcases List.mem_cons.1 hn with rfl | hn
    · exact .inl rfl
    · exact .inr (hb.node_owned n hn)
  edge_owned e he := by
    rw [owns_loop hbs, owns_loop hbs]
    rcases List.mem_append.1 he with he | he
    · exact ⟨.inr (hb.edge_owned e he).1, .inr (hb.edge_owned e he).2⟩
    · rcases mem_loopEdges he with ⟨-, rfl⟩ | ⟨id, hid, rfl⟩ | ⟨x, hx, hs, ht⟩
      · exact ⟨.inl rfl, .inl rfl⟩
      · exact ⟨.inl rfl, .inr (hb.entry_owned id hid)⟩
      · exact ⟨.inr (hs ▸ hb.exit_owned x hx), .inl ht⟩
  exit_owned x hx := by
    rw [owns_loop hbs, List.mem_singleton.1 hx]
    exact .inl rfl
  entry_owned id hid := by
    rw [owns_loop hbs]
    simp only [Region.loop, Option.some.injEq] at hid
    cases hbe : body.entry with
    | none => simp_all
    | some entry =>
      have := hb.entry_owned entry hbe
      split_ifs at hid <;> simp_all
  exits_nil h := absurd h (by simp [Region.loop])
  exits_nodup := List.nodup_singleton _
  exit_label x hx := by
    rw [List.mem_singleton.1 hx]
    exact .inr (.inr rfl)
  back_inj x hx y hy _ _ := by
    rw [List.mem_singleton.1 hx, List.mem_singleton.1 hy]
  fresh x hx e he hs := by
    have h0 : ¬body.Owns start := not_owns_header hbs
    have hxs := List.mem_singleton.1 hx
    replace hs : e.source = start := by rw [hs, hxs]
    rw [hxs]
    rcases List.mem_append.1 he with he | he
    · exact absurd (hs ▸ (hb.edge_owned e he).1) h0
    · rcases mem_loopEdges he with ⟨-, rfl⟩ | ⟨id, hid, rfl⟩ | ⟨x, hx, hs', -⟩
      · simp
      · simp
      · exact absurd (hs ▸ hs' ▸ hb.exit_owned x hx) h0

theorem WellFormed.function (hb : body.WellFormed) (hbs : body.start = start + 1) :
    (function start label body).WellFormed where
  node_owned n hn := by
    rw [owns_function hbs]
    rcases List.mem_cons.1 hn with rfl | hn
    · exact .inl rfl
    · exact .inr (hb.node_owned n hn)
  edge_owned e he := by
    rw [owns_function hbs, owns_function hbs]
    rcases List.mem_append.1 he with he | he
    · exact ⟨.inr (hb.edge_owned e he).1, .inr (hb.edge_owned e he).2⟩
    · obtain ⟨id, hid, rfl⟩ := mem_into.1 he
      exact ⟨.inl rfl, .inr (hb.entry_owned id hid)⟩
  exit_owned := by simp [Region.function]
  entry_owned id hid := by
    rw [owns_function hbs, Option.some.inj hid]
    exact .inl rfl
  exits_nil _ := rfl
  exits_nodup := List.nodup_nil
  exit_label := by simp [Region.function]
  back_inj := by simp [Region.function]
  fresh := by simp [Region.function]

end Body

end Region

/-! ## Regions of statements -/

theorem Stmt.member_wellFormed {s : Stmt} {start : Int} (h : (s.region start).WellFormed) :
    (s.member start).WellFormed := by
  unfold member
  split_ifs
  · exact h.detached
  · exact h

theorem regionAll_wellFormed_of {stmts : List Stmt}
    (hs : ∀ s ∈ stmts, ∀ i, (s.region i).WellFormed) {before : Region} (hb : before.WellFormed) :
    (regionAll stmts before).WellFormed := by
  apply regionAll_induction _ hb
  intro s hmem r hr
  exact hr.seq (Stmt.member_wellFormed (hs s hmem r.stop)) (by simp)

/-- The region of every statement is well formed. -/
theorem Stmt.region_wellFormed (s : Stmt) (start : Int) : (s.region start).WellFormed := by
  induction s using Stmt.induction generalizing start with
  | step action label =>
    rw [region]
    exact .step start action label
  | block stmts ih =>
    rw [region]
    exact regionAll_wellFormed_of ih (.empty start)
  | branch label yes no ihy ihn =>
    rw [region]
    exact .branch (ihy _) (ihn _) (by simp) (by simp)
  | loop form label body ih =>
    rw [region]
    exact .loop (ih _) (by simp)
  | function label body ih =>
    rw [region]
    exact .function (ih _) (by simp)

/-- A block behind a well-formed region is well formed. -/
theorem regionAll_wellFormed (stmts : List Stmt) {before : Region} (hb : before.WellFormed) :
    (regionAll stmts before).WellFormed :=
  regionAll_wellFormed_of (fun s _ => s.region_wellFormed) hb

end FlowSketch
