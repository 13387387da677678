import FlowSketch.Proofs.Chart.Exits
import FlowSketch.Proofs.Chart.Walk

/-!
# The executions of a flowchart

A structured program has traces: a step is its own id, a block runs its members one after the
other, a branch one of its sides, a loop its body any number of times. The walks through the
flowchart, from where a statement is entered to where it is left, are exactly the traces.

* `Stmt.traces` — the traces of a statement, by recursion on it.
* `Region.executions` — the walks through a region.
* `Ast.functionFragment` — a function from its own node to the end of its body.

Results:

* `Region.executions_seq`, `Region.executions_branch`, `Region.executions_loop`: the walks through
  what a combinator makes, by the walks through its parts.
* `Stmt.executions_eq_traces`: the walks through a region are the traces of its statement.
* `Flowchart.walks_eq_traces`: the walks through a flowchart, and through each function in it,
  are the traces of the program.
-/

open Computability

namespace FlowSketch

/-! ## Traces -/

namespace Stmt

mutual

/-- The sequences of nodes that control visits in a statement whose ids count up from `start`. A
    function in a slot is entered and not left, so it has no trace. -/
def traces : Stmt → (start : Int) → Language Int
  | .step .., start => {[start]}
  | .block stmts, start => tracesAll stmts start
  | .branch _ yes no, start =>
    {[start]} * (yes.traces (start + 1) + no.traces (start + 1 + yes.size))
  | .loop form _ body, start =>
    if form = .doWhile then
      body.traces (start + 1) * {[start]} * (body.traces (start + 1) * {[start]})∗
    else {[start]} * (body.traces (start + 1) * {[start]})∗
  | .function .., _ => 0

/-- The traces of the members of a block, one after the other. Functions are passed over. -/
def tracesAll : List Stmt → (start : Int) → Language Int
  | [], _ => 1
  | s :: rest, start =>
    (if s.isFunction then 1 else s.traces start) * tracesAll rest (start + s.size)

end

end Stmt

theorem mem_single_mul {i : Int} {l : Language Int} {w : List Int} :
    w ∈ ({[i]} : Language Int) * l ↔ ∃ w' ∈ l, w = i :: w' := by
  rw [Language.mem_mul]
  constructor
  · rintro ⟨a, rfl, b, hb, rfl⟩
    exact ⟨b, hb, rfl⟩
  · rintro ⟨w', hw', rfl⟩
    exact ⟨[i], rfl, w', hw', rfl⟩

namespace Region

variable {r s whole part : Region} {start u v : Int} {w : List Int}

/-- The walks through a region. -/
def executions (r : Region) : Language Int := r.toFragment.executions r.edges

theorem executions_of_entry_none (h : r.entry = none) : r.executions = 1 := by
  unfold executions Fragment.executions
  rw [h]

theorem mem_executions {entry : Int} (h : r.entry = some entry) :
    w ∈ r.executions ↔ ∃ x ∈ r.exits, Walk r.edges entry w x.source := by
  unfold executions Fragment.executions
  rw [h]
  rfl

/-- A walk that enters a part to which no edge was added stays there. -/
theorem walk_stay (h : whole.edgesFrom part = part.edges) (hp : part.WellFormed)
    (hw : Walk whole.edges u w v) (hu : part.Owns u) : part.Owns v ∧ Walk part.edges u w v := by
  apply hw.stay _ hu
  intro e he hs
  have hmem : e ∈ part.edges := h ▸ mem_edgesFrom.2 ⟨he, hs⟩
  exact ⟨hmem, (hp.edge_owned e hmem).2⟩

theorem mem_of_edgesFrom (h : whole.edgesFrom part = part.edges) :
    ∀ e ∈ part.edges, e ∈ whole.edges := by
  intro e he
  rw [← h] at he
  exact (mem_edgesFrom.1 he).1

/-- The walks through a part to which no edge was added, seen in the whole. -/
theorem mem_executions_part {entry : Int} (h : whole.edgesFrom part = part.edges)
    (hp : part.WellFormed) (he : part.entry = some entry) :
    w ∈ part.executions ↔ ∃ x ∈ part.exits, Walk whole.edges entry w x.source := by
  rw [mem_executions he]
  constructor
  · rintro ⟨x, hx, hw⟩
    exact ⟨x, hx, hw.mono (mem_of_edgesFrom h)⟩
  · rintro ⟨x, hx, hw⟩
    exact ⟨x, hx, (walk_stay h hp hw (hp.entry_owned entry he)).2⟩

/-! ## Sequences -/

/-- A walk through a sequence goes through its two parts. -/
theorem executions_seq (hr : r.WellFormed) (hs : s.WellFormed) (h : s.start = r.stop) :
    (r.seq s).executions = r.executions * s.executions := by
  have hleft := edgesFrom_seq_left hr hs h
  have hright := edgesFrom_seq_right hr hs h
  cases hse : s.entry with
  | none =>
    have hexits : (r.seq s).exits = r.exits := by simp [seq, hse]
    rw [hse, Option.elim_none, List.append_nil] at hleft
    rw [executions_of_entry_none hse, mul_one]
    cases hre : r.entry with
    | none => rw [executions_of_entry_none hre, executions_of_entry_none (by simp [seq, hre, hse])]
    | some a =>
      have hentry : (r.seq s).entry = some a := by simp [seq, hre]
      ext w
      rw [mem_executions_part hleft hr hre, mem_executions hentry, hexits]
  | some b =>
    have hexits : (r.seq s).exits = s.exits := by simp [seq, hse]
    cases hre : r.entry with
    | none =>
      have hentry : (r.seq s).entry = some b := by simp [seq, hre, hse]
      rw [executions_of_entry_none hre, one_mul]
      ext w
      rw [mem_executions_part hright hs hse, mem_executions hentry, hexits]
    | some a =>
      have hentry : (r.seq s).entry = some a := by simp [seq, hre]
      have hb : ¬r.Owns b := (hs.entry_owned b hse).not_before h
      -- an edge out of the first part starts at one of its exits
      have hedge : ∀ e ∈ (r.seq s).edges, r.Owns e.source →
          e ∈ r.edges ∨ ∃ x ∈ r.exits, e = x.to b := by
        intro e he ho
        have hmem := mem_edgesFrom.2 ⟨he, ho⟩
        rw [hleft, hse, Option.elim_some, List.mem_append, List.mem_map] at hmem
        rcases hmem with hmem | ⟨x, hx, rfl⟩
        · exact .inl hmem
        · exact .inr ⟨x, hx, rfl⟩
      have hin : ∀ e ∈ (r.seq s).edges, r.Owns e.source → r.Owns e.target → e ∈ r.edges := by
        intro e he hos hot
        rcases hedge e he hos with he | ⟨x, -, rfl⟩
        · exact he
        · exact absurd hot hb
      ext w
      rw [mem_executions hentry, hexits, Language.mem_mul]
      constructor
      · rintro ⟨x, hx, hw⟩
        rcases hw.escape hin (hr.entry_owned a hre) with ⟨ho, -⟩ |
          ⟨e, he, hos, hot, w₁, w₂, rfl, h₁, h₂⟩
        · exact absurd ho ((hs.exit_owned x hx).not_before h)
        · rcases hedge e he hos with he | ⟨y, hy, rfl⟩
          · exact absurd (hr.edge_owned e he).2 hot
          · exact ⟨w₁, (mem_executions hre).2 ⟨y, hy, h₁⟩, w₂,
              (mem_executions_part hright hs hse).2 ⟨x, hx, h₂⟩, rfl⟩
      · rintro ⟨w₁, h₁, w₂, h₂, rfl⟩
        obtain ⟨y, hy, hw₁⟩ := (mem_executions hre).1 h₁
        obtain ⟨x, hx, hw₂⟩ := (mem_executions_part hright hs hse).1 h₂
        refine ⟨x, hx, (hw₁.mono fun e he => mem_edges_seq.2 (.inl he)).append ?_ hw₂⟩
        exact ⟨y.to b, mem_edges_seq.2 (.inr (.inr ⟨b, hse, y, hy, rfl⟩)), rfl, rfl⟩

/-! ## Headers -/

section Header

variable (h : whole.edgesFrom part = part.edges) (hp : part.WellFormed)
include h hp

/-- A walk behind a header, into a part that it leads to or past it, is one that starts at the
    header. -/
theorem exists_walk_of_mem (label : EdgeLabel)
    (hin : ∀ entry, part.entry = some entry → Step whole.edges start entry)
    (hw : w ∈ part.executions) :
    ∃ x ∈ part.exitsFrom start label, Walk whole.edges start (start :: w) x.source := by
  cases he : part.entry with
  | none =>
    rw [executions_of_entry_none he, Language.mem_one] at hw
    rw [hw]
    exact ⟨⟨start, label⟩, (mem_exitsFrom hp).2 (.inr ⟨he, rfl⟩), .single start⟩
  | some entry =>
    obtain ⟨x, hx, hw⟩ := (mem_executions_part h hp he).1 hw
    exact ⟨x, (mem_exitsFrom hp).2 (.inl hx), .cons (hin entry he) hw⟩

/-- A walk into a part that ends at an exit is one through the part: the exits of the part are the
    only ones there. -/
theorem mem_of_walk {entry : Int} {x : Exit} (he : part.entry = some entry)
    (hx : x ∈ part.exits ∨ ¬part.Owns x.source) (hw : Walk whole.edges entry w x.source) :
    w ∈ part.executions := by
  have ho := (walk_stay h hp hw (hp.entry_owned entry he)).1
  rcases hx with hx | hx
  · exact (mem_executions_part h hp he).2 ⟨x, hx, hw⟩
  · exact absurd ho hx

end Header

/-- An exit at a header that is that of a part shows that there is nothing to enter. -/
theorem nil_mem_of_exitsFrom {label : EdgeLabel} {x : Exit} (hr : r.WellFormed) (h0 : ¬r.Owns start)
    (hx : x ∈ r.exitsFrom start label) (hs : x.source = start) : [] ∈ r.executions := by
  rcases (mem_exitsFrom hr).1 hx with hx | ⟨hn, -⟩
  · exact absurd (hs ▸ hr.exit_owned x hx) h0
  · rw [executions_of_entry_none hn]
    exact Language.nil_mem_one

/-- The exits of one side of a branch do not lie in a part that does not meet it. -/
theorem exitsFrom_cases {label : EdgeLabel} {x : Exit} (hr : r.WellFormed) (h0 : ¬part.Owns start)
    (hd : ∀ id, r.Owns id → ¬part.Owns id) (hx : x ∈ r.exitsFrom start label) :
    ¬part.Owns x.source := by
  rcases (mem_exitsFrom hr).1 hx with hx | ⟨-, rfl⟩
  · exact hd _ (hr.exit_owned x hx)
  · exact h0

theorem exitsFrom_self {label : EdgeLabel} {x : Exit} (hr : r.WellFormed) (h0 : ¬r.Owns start)
    (hx : x ∈ r.exitsFrom start label) : x ∈ r.exits ∨ ¬r.Owns x.source := by
  rcases (mem_exitsFrom hr).1 hx with hx | ⟨-, rfl⟩
  · exact .inl hx
  · exact .inr h0

/-- A walk through a branch goes from the branch through one of its sides. -/
theorem executions_branch {label : String} {yes no : Region} (hy : yes.WellFormed)
    (hn : no.WellFormed) (hys : yes.start = start + 1) (hns : no.start = yes.stop) :
    (branch start label yes no).executions = {[start]} * (yes.executions + no.executions) := by
  have hey : (branch start label yes no).edgesFrom yes = yes.edges :=
    edgesFrom_branch_yes hy hn hys hns
  have hen : (branch start label yes no).edgesFrom no = no.edges :=
    edgesFrom_branch_no hy hn hys hns
  have hy0 : ¬yes.Owns start := not_owns_header hys
  have hn0 : ¬no.Owns start := not_owns_header_second hys hns
  have hyn : ∀ id, yes.Owns id → ¬no.Owns id :=
    fun id hid => hid.not_behind hns
  have hny : ∀ id, no.Owns id → ¬yes.Owns id :=
    fun id hid => hid.not_before hns
  ext w
  rw [mem_executions rfl, mem_single_mul]
  constructor
  · rintro ⟨x, hx, hw⟩
    rw [mem_exits_branch] at hx
    rcases Walk.iff_single_or_cons.1 hw with ⟨hv, rfl⟩ | ⟨a, w, ⟨e, he, hsource, rfl⟩, rfl, hw⟩
    · refine ⟨[], ?_, rfl⟩
      rcases hx with hx | hx
      · exact .inl (nil_mem_of_exitsFrom hy hy0 hx hv.symm)
      · exact .inr (nil_mem_of_exitsFrom hn hn0 hx hv.symm)
    · refine ⟨w, ?_, rfl⟩
      rcases mem_edges_branch.1 he with he | he | he | he
      · exact absurd (hsource ▸ (hy.edge_owned e he).1) hy0
      · exact absurd (hsource ▸ (hn.edge_owned e he).1) hn0
      · obtain ⟨id, hid, rfl⟩ := mem_into.1 he
        refine .inl (mem_of_walk hey hy hid ?_ hw)
        rcases hx with hx | hx
        · exact exitsFrom_self hy hy0 hx
        · exact .inr (exitsFrom_cases hn hy0 hny hx)
      · obtain ⟨id, hid, rfl⟩ := mem_into.1 he
        refine .inr (mem_of_walk hen hn hid ?_ hw)
        rcases hx with hx | hx
        · exact .inr (exitsFrom_cases hy hn0 hyn hx)
        · exact exitsFrom_self hn hn0 hx
  · rintro ⟨w, hw, rfl⟩
    rw [Language.mem_add] at hw
    rcases hw with hw | hw
    · obtain ⟨x, hx, hwalk⟩ := exists_walk_of_mem hey hy .yes (fun id hid =>
        ⟨_, mem_edges_branch.2 (.inr (.inr (.inl (mem_into.2 ⟨id, hid, rfl⟩)))), rfl, rfl⟩) hw
      exact ⟨x, mem_exits_branch.2 (.inl hx), hwalk⟩
    · obtain ⟨x, hx, hwalk⟩ := exists_walk_of_mem hen hn .no (fun id hid =>
        ⟨_, mem_edges_branch.2 (.inr (.inr (.inr (mem_into.2 ⟨id, hid, rfl⟩)))), rfl, rfl⟩) hw
      exact ⟨x, mem_exits_branch.2 (.inr hx), hwalk⟩

/-! ## Loops -/

section Loop

variable {form : LoopForm} {label : String}

/-- The walks from the header of a loop back to it. -/
def rounds (r : Region) (start : Int) (form : LoopForm) (label : String) : Language Int :=
  {w | Walk (loop start form label r).edges start w start}

variable (hr : r.WellFormed) (hrs : r.start = start + 1)
include hr hrs

/-- From the header control goes into the body, or round again if there is none to enter. -/
theorem step_header_iff : Step (loop start form label r).edges start v ↔
    r.entry = some v ∨ (r.entry = none ∧ v = start) := by
  have h0 := not_owns_header hrs
  constructor
  · rintro ⟨e, he, hs, rfl⟩
    rcases List.mem_append.1 he with he | he
    · exact absurd (hs ▸ (hr.edge_owned e he).1) h0
    · rcases mem_loopEdges he with ⟨hn, rfl⟩ | ⟨id, hid, rfl⟩ | ⟨x, hx, hsx, -⟩
      · exact .inr ⟨hn, rfl⟩
      · exact .inl hid
      · exact absurd (hs ▸ hsx ▸ hr.exit_owned x hx) h0
  · rintro (hv | ⟨hn, rfl⟩)
    · exact ⟨⟨start, v, .body⟩, List.mem_append_right _ (by simp [loopEdges, hv]), rfl, rfl⟩
    · exact ⟨⟨v, v, .loop⟩, List.mem_append_right _ (by simp [loopEdges, hn]), rfl, rfl⟩

omit hrs in
/-- From every exit of the body control goes back to the header. -/
theorem step_back {x : Exit} (hx : x ∈ r.exits) :
    Step (loop start form label r).edges x.source start := by
  cases he : r.entry with
  | none =>
    rw [hr.exits_nil he] at hx
    simp at hx
  | some id =>
    refine ⟨⟨x.source, start, r.backLabel x⟩, List.mem_append_right _ ?_, rfl, rfl⟩
    simp only [loopEdges, he, List.mem_cons, List.mem_append]
    exact .inr (.inl (List.mem_map.2 ⟨x, hx, rfl⟩))

omit hr in
/-- In a loop an edge from a node of the body is one of the body, or goes back from an exit. -/
theorem edge_from_body {e : FlowEdge} (he : e ∈ (loop start form label r).edges)
    (ho : r.Owns e.source) :
    e ∈ r.edges ∨ (e.target = start ∧ ∃ x ∈ r.exits, x.source = e.source) := by
  have h0 := not_owns_header hrs
  rcases List.mem_append.1 he with he | he
  · exact .inl he
  · rcases mem_loopEdges he with ⟨-, rfl⟩ | ⟨id, -, rfl⟩ | ⟨x, hx, hsx, ht⟩
    · exact absurd ho h0
    · exact absurd ho h0
    · exact .inr ⟨ht, x, hx, hsx.symm⟩

/-- After the entry of the body, a walk to the header goes through the body and then round. -/
theorem walk_body_iff {entry : Int} (he : r.entry = some entry) :
    Walk (loop start form label r).edges entry w start ↔
      w ∈ r.executions * r.rounds start form label := by
  have h0 := not_owns_header hrs
  have hin : ∀ e ∈ (loop start form label r).edges, r.Owns e.source → r.Owns e.target →
      e ∈ r.edges := by
    intro e hmem hs ht
    rcases edge_from_body hrs hmem hs with hmem | ⟨htarget, -⟩
    · exact hmem
    · exact absurd (htarget ▸ ht) h0
  rw [Language.mem_mul]
  constructor
  · intro hw
    rcases hw.escape hin (hr.entry_owned entry he) with ⟨ho, -⟩ |
      ⟨e, hmem, hs, ht, w₁, w₂, rfl, h₁, h₂⟩
    · exact absurd ho h0
    · rcases edge_from_body hrs hmem hs with hmem | ⟨htarget, x, hx, hsource⟩
      · exact absurd (hr.edge_owned e hmem).2 ht
      · refine ⟨w₁, (mem_executions he).2 ⟨x, hx, hsource ▸ h₁⟩, w₂, ?_, rfl⟩
        rw [htarget] at h₂
        exact h₂
  · rintro ⟨w₁, h₁, w₂, h₂, rfl⟩
    obtain ⟨x, hx, hw₁⟩ := (mem_executions he).1 h₁
    have hw₁' : Walk (loop start form label r).edges entry w₁ x.source :=
      hw₁.mono (fun e hmem => List.mem_append_left _ hmem)
    exact hw₁'.append (step_back hr hx) h₂

/-- A walk round a loop is the header alone, or goes on through the body and round again. -/
theorem rounds_eq : r.rounds start form label =
    {[start]} * r.executions * r.rounds start form label + {[start]} := by
  ext w
  rw [Language.mem_add, mul_assoc, mem_single_mul]
  constructor
  · intro hw
    rcases Walk.iff_single_or_cons.1 hw with ⟨-, rfl⟩ | ⟨a, w', hs, rfl, hw'⟩
    · exact .inr rfl
    · refine .inl ⟨w', ?_, rfl⟩
      rcases (step_header_iff hr hrs).1 hs with he | ⟨he, rfl⟩
      · exact (walk_body_iff hr hrs he).1 hw'
      · rw [executions_of_entry_none he, one_mul]
        exact hw'
  · rintro (⟨w, hw, rfl⟩ | rfl)
    · cases he : r.entry with
      | none =>
        rw [executions_of_entry_none he, one_mul] at hw
        exact .cons ((step_header_iff hr hrs).2 (.inr ⟨he, rfl⟩)) hw
      | some entry =>
        exact .cons ((step_header_iff hr hrs).2 (.inl he)) ((walk_body_iff hr hrs he).2 hw)
    · exact .single start

/-- The walks round a loop: the header, and any number of times the body and the header. -/
theorem rounds_eq_kstar : r.rounds start form label =
    {[start]} * (r.executions * {[start]})∗ := by
  have hnil : [] ∉ ({[start]} : Language Int) * r.executions := by
    rw [mem_single_mul]
    rintro ⟨w, -, h⟩
    simp at h
  rw [(Language.self_eq_mul_add_iff hnil).1 (rounds_eq hr hrs), eq_comm,
    ← Language.self_eq_mul_add_iff hnil]
  calc ({[start]} : Language Int) * (r.executions * {[start]})∗
      = {[start]} * (1 + r.executions * {[start]} * (r.executions * {[start]})∗) := by
        rw [Language.one_add_self_mul_kstar_eq_kstar]
    _ = {[start]} * r.executions * ({[start]} * (r.executions * {[start]})∗) + {[start]} := by
        rw [mul_add, mul_one, add_comm]
        simp only [mul_assoc]

omit hr hrs in
/-- A loop is left at its header. -/
theorem mem_executions_loop {entry : Int} (h : (loop start form label r).entry = some entry) :
    w ∈ (loop start form label r).executions ↔
      Walk (loop start form label r).edges entry w start := by
  rw [mem_executions h]
  constructor
  · rintro ⟨x, hx, hw⟩
    rw [List.mem_singleton.1 hx] at hw
    exact hw
  · intro hw
    exact ⟨⟨start, .no⟩, List.mem_singleton_self _, hw⟩

/-- The walks through a loop begin at its header, or with its body if that runs first. -/
theorem executions_loop : (loop start form label r).executions =
    if form = .doWhile then r.executions * {[start]} * (r.executions * {[start]})∗
    else {[start]} * (r.executions * {[start]})∗ := by
  have hrounds : r.rounds start form label = _ := rounds_eq_kstar hr hrs
  split_ifs with hf
  · rw [mul_assoc, ← hrounds]
    ext w
    cases he : r.entry with
    | none =>
      have hentry : (loop start form label r).entry = some start := by simp [loop, he]
      rw [executions_of_entry_none he, one_mul, mem_executions_loop hentry]
      rfl
    | some entry =>
      have hentry : (loop start form label r).entry = some entry := by simp [loop, hf, he]
      rw [mem_executions_loop hentry, walk_body_iff hr hrs he]
  · rw [← hrounds]
    ext w
    have hentry : (loop start form label r).entry = some start := by simp [loop, hf]
    rw [mem_executions_loop hentry]
    rfl

end Loop

/-! ## Functions -/

/-- The walks from a function to where its body ends, in a chart that has only the function's own
    edges there. -/
theorem executions_function {label : String} (hr : r.WellFormed) (hrs : r.start = start + 1)
    (h : whole.edgesFrom (function start label r) = (function start label r).edges) :
    (⟨some start, r.exitsFrom start .next⟩ : Fragment).executions whole.edges =
      {[start]} * r.executions := by
  have h0 := not_owns_header hrs
  have hbody : (function start label r).edgesFrom r = r.edges := edgesFrom_function hr hrs
  have hown : (function start label r).Owns start := (owns_function hrs).2 (.inl rfl)
  ext w
  rw [mem_single_mul]
  constructor
  · rintro ⟨x, hx, hw⟩
    replace hw := (walk_stay h (hr.function hrs) hw hown).2
    rcases Walk.iff_single_or_cons.1 hw with ⟨hs, rfl⟩ | ⟨a, w', ⟨e, he, hs, rfl⟩, rfl, hw'⟩
    · exact ⟨[], nil_mem_of_exitsFrom hr h0 hx hs.symm, rfl⟩
    · refine ⟨w', ?_, rfl⟩
      rcases List.mem_append.1 he with he | he
      · exact absurd (hs ▸ (hr.edge_owned e he).1) h0
      · obtain ⟨id, hid, rfl⟩ := mem_into.1 he
        exact mem_of_walk hbody hr hid (exitsFrom_self hr h0 hx) hw'
  · rintro ⟨w', hw', rfl⟩
    obtain ⟨x, hx, hw⟩ := exists_walk_of_mem hbody hr .next (fun id hid =>
      ⟨_, List.mem_append_right _ (mem_into.2 ⟨id, hid, rfl⟩), rfl, rfl⟩) hw'
    exact ⟨x, hx, hw.mono (mem_of_edgesFrom h)⟩

end Region

namespace Stmt

theorem executions_member (s : Stmt) (i : Int) : (s.member i).executions =
    if s.isFunction then 1 else (s.region i).executions := by
  unfold member
  split_ifs
  · rfl
  · rfl

theorem executions_regionAll {stmts : List Stmt}
    (hs : ∀ s ∈ stmts, ∀ i, (s.region i).executions = s.traces i) {before : Region}
    (hb : before.WellFormed) :
    (regionAll stmts before).executions = before.executions * tracesAll stmts before.stop := by
  induction stmts generalizing before with
  | nil => rw [regionAll, tracesAll, mul_one]
  | cons s stmts ih =>
    have hm := member_wellFormed (s.region_wellFormed before.stop)
    have hms : (s.member before.stop).start = before.stop := by rw [start_member, region_start]
    rw [regionAll_cons, ih (fun t ht => hs t (List.mem_cons_of_mem s ht)) (hb.seq hm hms),
      Region.executions_seq hb hm hms, Region.stop_seq hms, stop_member, region_stop,
      executions_member, hs s (List.mem_cons_self ..), tracesAll, mul_assoc]

/-- The walks through a region are the traces of its statement. -/
theorem executions_eq_traces (s : Stmt) (i : Int) : (s.region i).executions = s.traces i := by
  induction s using Stmt.induction generalizing i with
  | step action label =>
    ext w
    rw [Region.mem_executions rfl, traces]
    constructor
    · rintro ⟨x, -, hw⟩
      rcases Walk.iff_single_or_cons.1 hw with ⟨-, rfl⟩ | ⟨a, w', ⟨e, he, -⟩, -⟩
      · rfl
      · simp [region, Region.step] at he
    · rintro rfl
      exact ⟨⟨i, .next⟩, List.mem_singleton_self _, .single i⟩
  | block stmts ih =>
    have := executions_regionAll ih (.empty i)
    rw [region, this, traces, Region.executions_of_entry_none rfl, one_mul]
    simp [Region.stop]
  | branch label yes no ihy ihn =>
    rw [region, Region.executions_branch (yes.region_wellFormed _) (no.region_wellFormed _)
      (by simp) (by simp), ihy, ihn, traces]
  | loop form label body ih =>
    rw [region, Region.executions_loop (body.region_wellFormed _) (by simp), ih, traces]
  | function label body ih =>
    ext w
    rw [Region.mem_executions rfl, exits_function, traces]
    simp

end Stmt

/-! ## Flowcharts -/

namespace Ast

/-- A function from its own node to where its body ends, or to itself if there is nothing in the
    body to enter. -/
def functionFragment (n : Ast) (d : Draft) : Fragment where
  entry := some d.nextId
  exits :=
    match (n.bodyFragment d).entry with
    | some _ => (n.bodyFragment d).exits
    | none => [⟨d.nextId, .next⟩]

end Ast

/-- The walks through a flowchart from the entry of the root to one of its exits are the traces of
    the program, and the walks from a function in it to where its body ends are its own id followed
    by the traces of its body. -/
theorem Flowchart.walks_eq_traces {limit : Int} {root : Ast} {chart : Flowchart}
    (h : (Flowchart.ofAst limit root).outcome = .ok chart) :
    (root.program.lay {}).2.executions chart.edges = root.program.traces 0 ∧
      ∀ n d, root.Visit n d → n.kind = .functionDef →
        (n.functionFragment d).executions chart.edges =
          {[d.nextId]} * n.bodyProgram.traces (d.nextId + 1) := by
  obtain ⟨malformed, rfl⟩ := Flowchart.eq_ofProgram_of_ofAst h
  obtain ⟨-, hedges⟩ := Flowchart.ofProgram_eq root.program malformed
  rw [hedges]
  constructor
  · rw [Ast.rootFragment_eq]
    exact root.program.executions_eq_traces 0
  · intro n d hv hk
    obtain ⟨hd, hp⟩ := hv.toStmt
    rw [Ast.program_functionDef hk] at hp
    have hfrag : n.functionFragment d = ⟨some d.nextId,
        (n.bodyProgram.region (d.nextId + 1)).exitsFrom d.nextId .next⟩ := by
      have hbody := Ast.bodyFragment_eq hd (show n.kind.flowKind? = some .function by rw [hk]; rfl)
      unfold Ast.functionFragment Region.exitsFrom
      cases he : (n.bodyProgram.region (d.nextId + 1)).entry <;> simp [hbody, he]
    have hown := hp.edgesFrom_function
    rw [Stmt.region] at hown
    rw [hfrag, Region.executions_function (n.bodyProgram.region_wellFormed _) (by simp) hown,
      n.bodyProgram.executions_eq_traces]

theorem Ast.bodyProgram_idleFunction : Ast.idleFunction.bodyProgram = .block [
    .loop .doWhile idleLoop.label (.branch idleBranch.label (.block []) (.block [])),
    .function "Function: g" (.block []), .step .returns "return;"] := by
  rw [bodyProgram_of_child rfl, program_sequence (.inl rfl)]
  simp only [members, List.map_cons, List.map_nil]
  rw [program_loop rfl, bodyProgram_of_child rfl, program_ifStmt rfl, program_functionDef rfl,
    program_step rfl]
  rfl

/-- The body of the function runs its loop, passes over the function inside and returns. -/
theorem Flowchart.walks_idleFunction : ∃ chart,
    (Flowchart.ofAst 3 Ast.idleFunction).outcome = .ok chart ∧
      (Ast.idleFunction.functionFragment {}).executions chart.edges =
        {[0]} * ({[2]} * {[1]} * ({[2]} * {[1]})∗ * {[4]}) := by
  obtain ⟨chart, h⟩ : ∃ chart, (Flowchart.ofAst 3 Ast.idleFunction).outcome = .ok chart := ⟨_, rfl⟩
  refine ⟨chart, h, ?_⟩
  rw [(Flowchart.walks_eq_traces h).2 _ _ .root rfl, Ast.bodyProgram_idleFunction]
  simp [Stmt.traces, Stmt.tracesAll, Stmt.size, Stmt.sizeAll, Stmt.isFunction, Draft.nextId]

end FlowSketch
