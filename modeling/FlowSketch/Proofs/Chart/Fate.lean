import FlowSketch.Proofs.Chart.Visit

/-!
# The fate of open exits

What happens to the exits of a visited statement in the end. The edges of the finished chart that
start among the nodes of the statement are its own and, for all of its exits together, the edges of
one of four fates: the exits are still open, or open for good at the end of a function body, or they
lead to what comes next, or back to the header of an enclosing loop.

* `Region.Inside` — a region is part of another.
* `Region.Fate` — the four fates.
* `Stmt.Ends` — the exits at which the body of a visited function ends.
* `Stmt.Loops` — the headers of visited loops, with where the loop stops.

Results:

* `Region.Fate.trans`: the fate in a part is carried over to the whole.
* `Stmt.Visit.inside`, `Stmt.Visit.fate`: every visited statement has one of the four fates.
* `Stmt.Visit.edgesFrom_functionBody`: no edge is ever added to the body of a function.
-/

namespace FlowSketch

namespace Region

variable {r s whole mid part : Region} {start : Int}

/-! ## Parts -/

/-- A region is part of another: its ids are among those of the other, and the same of them are
    branches. -/
structure Inside (whole part : Region) : Prop where
  start_le : whole.start ≤ part.start
  stop_le : part.stop ≤ whole.stop
  isBranch_eq : ∀ id, part.Owns id → whole.isBranch id = part.isBranch id

theorem Inside.owns (h : whole.Inside part) {id : Int} (hid : part.Owns id) : whole.Owns id := by
  have := h.start_le
  have := h.stop_le
  have := hid.start_le
  have := hid.lt_stop
  exact ⟨by omega, by omega⟩

theorem Inside.refl (r : Region) : r.Inside r :=
  ⟨Int.le_refl _, Int.le_refl _, fun _ _ => rfl⟩

theorem Inside.trans (h₁ : whole.Inside mid) (h₂ : mid.Inside part) : whole.Inside part where
  start_le := Int.le_trans h₁.start_le h₂.start_le
  stop_le := Int.le_trans h₂.stop_le h₁.stop_le
  isBranch_eq id hid := (h₁.isBranch_eq id (h₂.owns hid)).trans (h₂.isBranch_eq id hid)

theorem inside_seq_left (hs : s.WellFormed) (h : s.start = r.stop) : (r.seq s).Inside r where
  start_le := Int.le_refl _
  stop_le := by
    have := s.start_le_stop
    rw [stop_seq h]
    omega
  isBranch_eq _ hid := isBranch_seq_left hs h hid

theorem inside_seq_right (hr : r.WellFormed) (h : s.start = r.stop) : (r.seq s).Inside s where
  start_le := by
    have := r.start_le_stop
    rw [start_seq]
    omega
  stop_le := Int.le_of_eq (stop_seq h).symm
  isBranch_eq _ hid := isBranch_seq_right hr h hid

theorem inside_detached (r : Region) : r.detached.Inside r :=
  ⟨Int.le_refl _, Int.le_refl _, fun _ _ => rfl⟩

theorem inside_branch_yes {label : String} {yes no : Region} (hn : no.WellFormed)
    (hys : yes.start = start + 1) (hns : no.start = yes.stop) :
    (branch start label yes no).Inside yes where
  start_le := by
    rw [start_branch]
    omega
  stop_le := by
    have := no.start_le_stop
    rw [stop_branch hys hns]
    omega
  isBranch_eq _ hid := isBranch_branch_yes hn hys hns hid

theorem inside_branch_no {label : String} {yes no : Region} (hy : yes.WellFormed)
    (hys : yes.start = start + 1) (hns : no.start = yes.stop) :
    (branch start label yes no).Inside no where
  start_le := by
    have := yes.start_le_stop
    rw [start_branch]
    omega
  stop_le := Int.le_of_eq (stop_branch hys hns).symm
  isBranch_eq _ hid := isBranch_branch_no hy hys hns hid

theorem inside_loop {form : LoopForm} {label : String} (h : r.start = start + 1) :
    (loop start form label r).Inside r where
  start_le := by
    rw [start_loop]
    omega
  stop_le := Int.le_of_eq (stop_loop h).symm
  isBranch_eq _ _ := isBranch_loop ..

theorem inside_function {label : String} (h : r.start = start + 1) :
    (function start label r).Inside r where
  start_le := by
    rw [start_function]
    omega
  stop_le := Int.le_of_eq (stop_function h).symm
  isBranch_eq _ _ := isBranch_function ..

/-! ## The four fates -/

/-- The open exits of a region that lie in a part of it. -/
def exitsOf (r part : Region) : List Exit := r.exits.filter (fun x => part.Owns x.source)

/-- The additional edge back to a header: there is at most one, from an exit, and only when no exit
    of the region is marked as going back. -/
def IsLast (r : Region) (header : Int) (last : List FlowEdge) : Prop :=
  last = [] ∨ ∃ x ∈ r.exits, (∀ y ∈ r.exits, r.backLabel y ≠ .loop) ∧
    last = [⟨x.source, header, .loop⟩]

/-- What becomes of the open exits of a part. The edges that start in the part are its own and
    those that its exits have become. -/
inductive Fate (ends : Exit → Prop) (loops : Int → Int → Prop) (whole part : Region) : Prop
  /-- The exits are still open. -/
  | pending (edges : whole.edgesFrom part = part.edges) (exits : whole.exitsOf part = part.exits)
  /-- The exits are where a function ends. -/
  | stopped (edges : whole.edgesFrom part = part.edges) (exits : whole.exitsOf part = [])
    (atEnd : ∀ x ∈ part.exits, ends x)
  /-- The exits lead to what comes next. -/
  | sequenced (target : Int) (le : part.stop ≤ target)
    (edges : whole.edgesFrom part = part.edges ++ part.exits.map (·.to target))
    (exits : whole.exitsOf part = [])
  /-- The exits lead back to the header of a loop around the part. -/
  | closed (header stop : Int) (isLoop : loops header stop) (lt : header < part.start)
    (le : part.stop ≤ stop) (last : List FlowEdge) (isLast : part.IsLast header last)
    (edges : whole.edgesFrom part = part.edges ++ (part.backEdges header ++ last))
    (exits : whole.exitsOf part = [])

variable {ends : Exit → Prop} {loops : Int → Int → Prop}

/-- Whatever the fate, the edges that are added start at exits, and the exits go all together. -/
theorem Fate.extra (h : Fate ends loops whole part) : ∃ extra,
    whole.edgesFrom part = part.edges ++ extra ∧
      (∀ e ∈ extra, ∃ x ∈ part.exits, e.source = x.source) ∧
      (whole.exitsOf part = part.exits ∨ whole.exitsOf part = []) := by
  rcases h with ⟨he, hx⟩ | ⟨he, hx, -⟩ | ⟨target, -, he, hx⟩ |
    ⟨header, -, -, -, -, last, hlast, he, hx⟩
  · exact ⟨[], by rw [he, List.append_nil], by simp, .inl hx⟩
  · exact ⟨[], by rw [he, List.append_nil], by simp, .inr hx⟩
  · refine ⟨_, he, ?_, .inr hx⟩
    intro e hmem
    obtain ⟨x, hxm, rfl⟩ := List.mem_map.1 hmem
    exact ⟨x, hxm, rfl⟩
  · refine ⟨_, he, ?_, .inr hx⟩
    intro e hmem
    rcases List.mem_append.1 hmem with hmem | hmem
    · obtain ⟨x, hxm, rfl⟩ := List.mem_map.1 hmem
      exact ⟨x, hxm, rfl⟩
    · rcases hlast with rfl | ⟨x, hxm, -, rfl⟩
      · simp at hmem
      · exact ⟨x, hxm, by rw [List.mem_singleton.1 hmem]⟩

/-- On its way back to a header an exit is marked as going back, or it is a side of a branch and
    keeps its label. -/
theorem backLabel_eq (d : Draft) (x : Exit) : d.backLabel x = .loop ∨
    (d.backLabel x = x.label ∧ (x.label = .yes ∨ x.label = .no) ∧ d.isBranch x.source = true) := by
  unfold Draft.backLabel
  by_cases h : (x.label = .yes ∨ x.label = .no) ∧ d.isBranch x.source = true
  · rw [if_pos h]
    exact .inr ⟨rfl, h⟩
  · rw [if_neg h]
    exact .inl rfl

/-- An edge that starts in a part is its own, or one of its exits that leads out of it: on to what
    comes next, or back to the header of a loop around the part. -/
theorem Fate.edge_cases (h : Fate ends loops whole part) {e : FlowEdge} (he : e ∈ whole.edges)
    (hs : part.Owns e.source) : e ∈ part.edges ∨ ∃ x ∈ part.exits, x.source = e.source ∧
      ((e.label = x.label ∧ part.stop ≤ e.target) ∨
        ((e.label = .loop ∨ e.label = part.backLabel x) ∧ e.target < part.start ∧
          ∃ stop, loops e.target stop ∧ part.stop ≤ stop)) := by
  have hmem := mem_edgesFrom.2 ⟨he, hs⟩
  rcases h with ⟨hedges, -⟩ | ⟨hedges, -, -⟩ | ⟨target, hle, hedges, -⟩ |
    ⟨header, stop, hloop, hlt, hle, last, hlast, hedges, -⟩
  all_goals rw [hedges] at hmem
  · exact .inl hmem
  · exact .inl hmem
  · rcases List.mem_append.1 hmem with hmem | hmem
    · exact .inl hmem
    · obtain ⟨x, hx, rfl⟩ := List.mem_map.1 hmem
      exact .inr ⟨x, hx, rfl, .inl ⟨rfl, hle⟩⟩
  · rcases List.mem_append.1 hmem with hmem | hmem
    · exact .inl hmem
    · rcases List.mem_append.1 hmem with hmem | hmem
      · obtain ⟨x, hx, rfl⟩ := List.mem_map.1 hmem
        exact .inr ⟨x, hx, rfl, .inr ⟨.inr rfl, hlt, stop, hloop, hle⟩⟩
      · rcases hlast with rfl | ⟨x, hx, -, rfl⟩
        · simp at hmem
        · rw [List.mem_singleton.1 hmem]
          exact .inr ⟨x, hx, rfl, .inr ⟨.inl rfl, hlt, stop, hloop, hle⟩⟩

/-- Every other edge that starts in a part ends outside of it. -/
theorem Fate.mem_or_leaves (h : Fate ends loops whole part) {e : FlowEdge} (he : e ∈ whole.edges)
    (hs : part.Owns e.source) :
    e ∈ part.edges ∨ (¬part.Owns e.target ∧ ∃ x ∈ part.exits, x.source = e.source) := by
  rcases h.edge_cases he hs with hmem | ⟨x, hx, hxs, ⟨-, hle⟩ | ⟨-, hlt, -⟩⟩
  · exact .inl hmem
  · refine .inr ⟨fun ho => ?_, x, hx, hxs⟩
    have := ho.lt_stop
    omega
  · refine .inr ⟨fun ho => ?_, x, hx, hxs⟩
    have := ho.start_le
    omega

theorem Fate.refl (hr : r.WellFormed) : Fate ends loops r r := by
  refine .pending hr.edgesFrom_self ?_
  rw [exitsOf, List.filter_eq_self]
  simpa using hr.exit_owned

theorem mem_exits_of_exitsOf {exits : List Exit} (h : mid.exitsOf part = exits) {x : Exit}
    (hx : x ∈ exits) : x ∈ mid.exits ∧ part.Owns x.source := by
  rw [← h, exitsOf, List.mem_filter] at hx
  exact ⟨hx.1, by simpa using hx.2⟩

section Trans

variable (hin : mid.Inside part)
include hin

theorem filter_owns_filter {α : Type} (f : α → Int) (as : List α) :
    (as.filter (fun a => mid.Owns (f a))).filter (fun a => part.Owns (f a)) =
      as.filter (fun a => part.Owns (f a)) := by
  rw [List.filter_filter]
  apply List.filter_congr
  intro a _
  rw [Bool.and_eq_left_iff_imp]
  simpa using hin.owns

theorem edgesFrom_edgesFrom :
    (whole.edgesFrom mid).filter (fun e => part.Owns e.source) = whole.edgesFrom part :=
  filter_owns_filter hin FlowEdge.source whole.edges

theorem exitsOf_exitsOf :
    (whole.exitsOf mid).filter (fun x => part.Owns x.source) = whole.exitsOf part :=
  filter_owns_filter hin Exit.source whole.exits

theorem backLabel_inside {x : Exit} (hx : part.Owns x.source) :
    mid.backLabel x = part.backLabel x :=
  backLabel_congr (hin.isBranch_eq x.source hx)

/-- When the part has still its exits, those of its edges that go back to a header are the part's
    own. -/
theorem filter_backEdges (h : mid.exitsOf part = part.exits) (header : Int) :
    (mid.backEdges header).filter (fun e => part.Owns e.source) = part.backEdges header := by
  unfold backEdges
  rw [List.filter_map, ← h]
  apply List.map_congr_left
  intro x hx
  rw [backLabel_inside hin (mem_exits_of_exitsOf rfl hx).2]

theorem IsLast.filter (h : mid.exitsOf part = part.exits) {header : Int} {last : List FlowEdge}
    (hlast : mid.IsLast header last) :
    part.IsLast header (last.filter (fun e => part.Owns e.source)) := by
  rcases hlast with rfl | ⟨x, hx, hlabel, rfl⟩
  · exact .inl rfl
  · by_cases ho : part.Owns x.source
    · refine .inr ⟨x, ?_, ?_, ?_⟩
      · rw [← h, exitsOf, List.mem_filter]
        exact ⟨hx, by simpa using ho⟩
      · intro y hy
        obtain ⟨hym, hyo⟩ := mem_exits_of_exitsOf h hy
        rw [← backLabel_inside hin hyo]
        exact hlabel y hym
      · rw [List.filter_cons_of_pos (by simpa using ho), List.filter_nil]
    · refine .inl ?_
      rw [List.filter_cons_of_neg (by simpa using ho), List.filter_nil]

end Trans

/-- When no exit of a part is left in what surrounds it, the part has met its fate. -/
theorem Fate.settled (h : Fate ends loops whole mid) (hin : mid.Inside part)
    (hx : mid.exitsOf part = []) :
    whole.edgesFrom part = mid.edgesFrom part ∧ whole.exitsOf part = [] := by
  obtain ⟨extra, he, hsource, hexits⟩ := h.extra
  have hnone : extra.filter (fun e => part.Owns e.source) = [] := by
    apply filter_owns_eq_nil
    intro e hmem ho
    obtain ⟨x, hxm, hs⟩ := hsource e hmem
    have : x ∈ mid.exitsOf part := by
      rw [exitsOf, List.mem_filter]
      exact ⟨hxm, by simpa [← hs] using ho⟩
    rw [hx] at this
    simp at this
  constructor
  · rw [← edgesFrom_edgesFrom hin, he, List.filter_append, hnone, List.append_nil, edgesFrom]
  · rw [← exitsOf_exitsOf hin]
    rcases hexits with hexits | hexits <;> rw [hexits]
    · exact hx
    · rfl

/-- The fate in a part is carried over to the whole: if the exits are still open there, they share
    the fate of the part, and otherwise nothing more happens to them. -/
theorem Fate.trans (h₁ : Fate ends loops whole mid) (h₂ : Fate ends loops mid part)
    (hin : mid.Inside part) : Fate ends loops whole part := by
  rcases h₂ with ⟨he, hx⟩ | ⟨he, hx, hends⟩ | ⟨target, hle, he, hx⟩ |
    ⟨header, stop, hloop, hlt, hle, last, hlast, he, hx⟩
  · have hedges : _ = whole.edgesFrom part := edgesFrom_edgesFrom hin
    have hexits : _ = whole.exitsOf part := exitsOf_exitsOf hin
    rcases h₁ with ⟨he₁, hx₁⟩ | ⟨he₁, hx₁, hends⟩ | ⟨target, hle, he₁, hx₁⟩ |
      ⟨header, stop, hloop, hlt, hle, last, hlast, he₁, hx₁⟩
    all_goals rw [he₁] at hedges
    all_goals rw [hx₁] at hexits
    · exact .pending (hedges ▸ he) (hexits ▸ hx)
    · refine .stopped (hedges ▸ he) hexits.symm ?_
      intro x hxm
      exact hends x (mem_exits_of_exitsOf hx hxm).1
    · refine .sequenced target (Int.le_trans hin.stop_le hle) ?_ hexits.symm
      rw [← hedges, List.filter_append, ← he, edgesFrom, List.filter_map, ← hx]
      rfl
    · refine .closed header stop hloop (Int.lt_of_lt_of_le hlt hin.start_le)
        (Int.le_trans hin.stop_le hle) _ (hlast.filter hin hx) ?_ hexits.symm
      rw [← hedges, List.filter_append, List.filter_append, filter_backEdges hin hx, ← he,
        edgesFrom]
  all_goals obtain ⟨hedges, hexits⟩ := h₁.settled hin hx
  · exact .stopped (hedges.trans he) hexits hends
  · exact .sequenced target hle (hedges.trans he) hexits
  · exact .closed header stop hloop hlt hle last hlast (hedges.trans he) hexits

/-! ## The fate of a direct part -/

theorem exitsOf_eq_nil (h : ∀ x ∈ r.exits, ¬part.Owns x.source) : r.exitsOf part = [] := by
  rw [exitsOf, List.filter_eq_nil_iff]
  simpa using h

theorem exitsOf_eq_of_exits_eq (hp : part.WellFormed) (h : r.exits = part.exits) :
    r.exitsOf part = part.exits := by
  rw [exitsOf, h, List.filter_eq_self]
  simpa using hp.exit_owned

theorem fate_seq_left (hr : r.WellFormed) (hs : s.WellFormed) (h : s.start = r.stop) :
    Fate ends loops (r.seq s) r := by
  have he := edgesFrom_seq_left hr hs h
  rcases exits_seq r s with ⟨hsn, hx⟩ | ⟨⟨id, hid⟩, hx⟩
  · refine .pending ?_ (exitsOf_eq_of_exits_eq hr hx)
    rw [he, hsn, Option.elim_none, List.append_nil]
  · refine .sequenced id ?_ ?_ (exitsOf_eq_nil ?_)
    · have := (hs.entry_owned id hid).start_le
      omega
    · rw [he, hid, Option.elim_some]
    · intro x hxm
      rw [hx] at hxm
      exact (hs.exit_owned x hxm).not_before h

theorem fate_seq_right (hr : r.WellFormed) (hs : s.WellFormed) (h : s.start = r.stop) :
    Fate ends loops (r.seq s) s := by
  refine .pending (edgesFrom_seq_right hr hs h) ?_
  rcases exits_seq r s with ⟨hsn, hx⟩ | ⟨-, hx⟩
  · rw [hs.exits_nil hsn]
    apply exitsOf_eq_nil
    intro x hxm
    rw [hx] at hxm
    exact (hr.exit_owned x hxm).not_behind h
  · exact exitsOf_eq_of_exits_eq hs hx

/-- Control passes over a region that has no exits anyway. -/
theorem fate_detached (hr : r.WellFormed) (hx : r.exits = []) :
    Fate ends loops r.detached r :=
  .pending hr.edgesFrom_self (by rw [hx]; rfl)

theorem filter_exitsFrom_eq_self {label : EdgeLabel} (hr : r.WellFormed) (h : ¬r.Owns start) :
    (r.exitsFrom start label).filter (fun x => r.Owns x.source) = r.exits := by
  unfold exitsFrom
  cases he : r.entry with
  | some id =>
    rw [List.filter_eq_self]
    simpa using hr.exit_owned
  | none =>
    rw [hr.exits_nil he, List.filter_cons_of_neg (by simpa using h), List.filter_nil]

theorem filter_exitsFrom_eq_nil {label : EdgeLabel} (hr : r.WellFormed) (h : ¬part.Owns start)
    (hd : ∀ id, r.Owns id → ¬part.Owns id) :
    (r.exitsFrom start label).filter (fun x => part.Owns x.source) = [] := by
  rw [List.filter_eq_nil_iff]
  intro x hx
  rcases (mem_exitsFrom hr).1 hx with hx | ⟨-, rfl⟩
  · simpa using hd x.source (hr.exit_owned x hx)
  · simpa using h

section Branch

variable {label : String} {yes no : Region} (hy : yes.WellFormed) (hn : no.WellFormed)
  (hys : yes.start = start + 1) (hns : no.start = yes.stop)
include hy hn hys hns

theorem fate_branch_yes : Fate ends loops (branch start label yes no) yes := by
  have h0 : ¬yes.Owns start := not_owns_header hys
  refine .pending (edgesFrom_branch_yes hy hn hys hns) ?_
  rw [exitsOf, branch, List.filter_append, filter_exitsFrom_eq_self hy h0,
    filter_exitsFrom_eq_nil hn h0 (fun id hid => hid.not_before hns),
    List.append_nil]

theorem fate_branch_no : Fate ends loops (branch start label yes no) no := by
  have h0 : ¬no.Owns start := not_owns_header_second hys hns
  refine .pending (edgesFrom_branch_no hy hn hys hns) ?_
  rw [exitsOf, branch, List.filter_append, filter_exitsFrom_eq_self hn h0,
    filter_exitsFrom_eq_nil hy h0 (fun id hid => hid.not_behind hns),
    List.nil_append]

end Branch

theorem fate_loop {form : LoopForm} {label : String} (hr : r.WellFormed)
    (h : r.start = start + 1) (hloop : loops start r.stop) :
    Fate ends loops (loop start form label r) r := by
  refine .closed start r.stop hloop (by omega) (Int.le_refl _) (r.lastEdge start)
    (r.lastEdge_cases start) (edgesFrom_loop hr h) (exitsOf_eq_nil ?_)
  intro x hx ho
  rw [List.mem_singleton.1 hx] at ho
  have := ho.start_le
  simp only at this
  omega

theorem fate_function {label : String} (hr : r.WellFormed) (h : r.start = start + 1)
    (hends : ∀ x ∈ r.exits, ends x) : Fate ends loops (function start label r) r :=
  .stopped (edgesFrom_function hr h) rfl hends

end Region

/-! ## The fate of a visited statement -/

namespace Stmt

variable {s t : Stmt} {start i : Int}

/-- The exits at which the body of a visited function ends. -/
def Ends (s : Stmt) (start : Int) (x : Exit) : Prop :=
  ∃ label body i, s.Visit start (.function label body) i ∧ x ∈ (body.region (i + 1)).exits

/-- The headers of the visited loops, each with the id at which the loop stops. -/
def Loops (s : Stmt) (start header stop : Int) : Prop :=
  ∃ form label body, s.Visit start (.loop form label body) header ∧
    stop = header + (Stmt.loop form label body).size

/-- What the visit of a statement has to do with the whole. -/
structure Traced (s : Stmt) (start : Int) (part : Region) : Prop where
  inside : (s.region start).Inside part
  fate : Region.Fate (s.Ends start) (s.Loops start) (s.region start) part

theorem Traced.trans {mid part : Region} (h : s.Traced start mid) (hin : mid.Inside part)
    (hfate : Region.Fate (s.Ends start) (s.Loops start) mid part) : s.Traced start part :=
  ⟨h.inside.trans hin, h.fate.trans hfate hin⟩

theorem exits_function (label : String) (body : Stmt) (i : Int) :
    ((Stmt.function label body).region i).exits = [] := by
  rw [region, Region.function]

theorem inside_member (t : Stmt) (i : Int) : (t.member i).Inside (t.region i) := by
  unfold member
  split_ifs
  · exact Region.inside_detached _
  · exact .refl _

theorem fate_member {ends : Exit → Prop} {loops : Int → Int → Prop} (t : Stmt) (i : Int) :
    Region.Fate ends loops (t.member i) (t.region i) := by
  have hr := t.region_wellFormed i
  unfold member
  split_ifs with hf
  · refine Region.fate_detached hr ?_
    cases t <;> simp [isFunction] at hf
    exact exits_function ..
  · exact .refl hr

/-- What holds of a member with whatever stands before it, and is kept when more is put behind,
    holds of the whole block. -/
theorem block_induction {P : Region → Prop} {before after : List Stmt} {t : Stmt} {i : Int}
    (hmember : ∀ r m : Region, r.WellFormed → m.WellFormed → m.start = r.stop →
      m = t.member (i + sizeAll before) → P (r.seq m))
    (hseq : ∀ r u : Region, r.WellFormed → u.WellFormed → u.start = r.stop → P r → P (r.seq u)) :
    P ((Stmt.block (before ++ t :: after)).region i) := by
  have hstop : (regionAll before { start := i }).stop = i + sizeAll before := by
    rw [(regionAll_interval before _).2]
    simp [Region.stop]
  have hb : (regionAll before { start := i }).WellFormed := regionAll_wellFormed before (.empty i)
  have hm := member_wellFormed (t.region_wellFormed (i + sizeAll before))
  have hms : (t.member (i + sizeAll before)).start = (regionAll before { start := i }).stop := by
    rw [start_member, region_start, hstop]
  rw [region, regionAll_append, regionAll_cons, hstop]
  -- the invariant along the members that follow
  refine (regionAll_induction (P := fun r => r.WellFormed ∧ P r) after
    ⟨hb.seq hm hms, hmember _ _ hb hm hms rfl⟩ ?_).2
  rintro u - r ⟨hr, hp⟩
  have hu := member_wellFormed (u.region_wellFormed r.stop)
  have hus : (u.member r.stop).start = r.stop := by rw [start_member, region_start]
  exact ⟨hr.seq hu hus, hseq _ _ hr hu hus hp⟩

/-- A member of a block is part of the block, and its exits lead to the next member that has an
    entry. -/
theorem fate_block (ends : Exit → Prop) (loops : Int → Int → Prop) (before after : List Stmt)
    (t : Stmt) (i : Int) :
    ((Stmt.block (before ++ t :: after)).region i).Inside (t.region (i + sizeAll before)) ∧
      Region.Fate ends loops ((Stmt.block (before ++ t :: after)).region i)
        (t.region (i + sizeAll before)) := by
  refine block_induction (P := fun r => r.Inside (t.region (i + sizeAll before)) ∧
    Region.Fate ends loops r (t.region (i + sizeAll before))) ?_ ?_
  · rintro r m hr hm hms rfl
    exact ⟨(Region.inside_seq_right hr hms).trans (inside_member ..),
      (Region.fate_seq_right hr hm hms).trans (fate_member ..) (inside_member ..)⟩
  · rintro r u hr hu hus ⟨hin, hfate⟩
    exact ⟨(Region.inside_seq_left hu hus).trans hin,
      (Region.fate_seq_left hr hu hus).trans hfate hin⟩

theorem Visit.traced (h : s.Visit start t i) : s.Traced start (t.region i) := by
  induction h with
  | self => exact ⟨.refl _, .refl (s.region_wellFormed start)⟩
  | @member before after t i _ ih =>
    have hb := fate_block (s.Ends start) (s.Loops start) before after t i
    exact ih.trans hb.1 hb.2
  | @yes label yes no i hv ih =>
    rw [region] at ih
    exact ih.trans (Region.inside_branch_yes (no.region_wellFormed _) (by simp) (by simp))
      (Region.fate_branch_yes (yes.region_wellFormed _) (no.region_wellFormed _) (by simp)
        (by simp))
  | @no label yes no i hv ih =>
    rw [region] at ih
    exact ih.trans (Region.inside_branch_no (yes.region_wellFormed _) (by simp) (by simp))
      (Region.fate_branch_no (yes.region_wellFormed _) (no.region_wellFormed _) (by simp)
        (by simp))
  | @loopBody form label body i hv ih =>
    rw [region] at ih
    refine ih.trans (Region.inside_loop (by simp))
      (Region.fate_loop (body.region_wellFormed _) (by simp) ⟨form, label, body, hv, ?_⟩)
    rw [region_stop, size]
    push_cast
    omega
  | @functionBody label body i hv ih =>
    rw [region] at ih
    exact ih.trans (Region.inside_function (by simp))
      (Region.fate_function (body.region_wellFormed _) (by simp)
        (fun x hx => ⟨label, body, i, hv, hx⟩))

/-- Every visited statement is part of the whole. -/
theorem Visit.inside (h : s.Visit start t i) : (s.region start).Inside (t.region i) :=
  h.traced.inside

/-- Every visited statement has one of the four fates. -/
theorem Visit.fate (h : s.Visit start t i) :
    Region.Fate (s.Ends start) (s.Loops start) (s.region start) (t.region i) :=
  h.traced.fate

/-- Nothing is added to a function: no edge leaves it. -/
theorem Visit.edgesFrom_function {label : String} {body : Stmt}
    (h : s.Visit start (.function label body) i) :
    (s.region start).edgesFrom ((Stmt.function label body).region i) =
      ((Stmt.function label body).region i).edges := by
  obtain ⟨extra, he, hsource, -⟩ := h.fate.extra
  have : extra = [] := by
    rw [List.eq_nil_iff_forall_not_mem]
    intro e hmem
    obtain ⟨x, hx, -⟩ := hsource e hmem
    rw [exits_function] at hx
    simp at hx
  rw [he, this, List.append_nil]

/-- Nothing is added to the body of a function. -/
theorem Visit.edgesFrom_functionBody {label : String} {body : Stmt}
    (h : s.Visit start (.function label body) i) :
    (s.region start).edgesFrom (body.region (i + 1)) = (body.region (i + 1)).edges := by
  have hin : ((Stmt.function label body).region i).Inside (body.region (i + 1)) := by
    rw [region]
    exact Region.inside_function (by simp)
  rw [← Region.edgesFrom_edgesFrom hin, h.edgesFrom_function, region]
  exact Region.edgesFrom_function (body.region_wellFormed _) (by simp)

end Stmt

end FlowSketch
