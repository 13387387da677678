import FlowSketch.Proofs.Chart.Renumber
import FlowSketch.Proofs.Chart.WellFormed

/-!
# Thinning a region out

A function stands apart: control passes over it. So a program without it is laid out as before,
except that the nodes of the function are gone and those behind it are renumbered.

* `Region.Thins` — a region is what is left of another.
* `Stmt.Thins`, `Stmt.ThinsAll` — the same for statements, together with one note for each node.

Results:

* `Region.Thins.seq`, `Region.Thins.branch`, `Region.Thins.loop`, `Region.Thins.function`: each
  combinator keeps what is left.
* `Region.Thins.drop`: a detached region that is gone altogether leaves nothing behind.
* `Stmt.ThinsAll.thins`: a block without some of its functions is what is left of the block.
* `Stmt.region_thins_self`: a statement of which nothing is gone stays as it is.
-/

namespace FlowSketch

/-! ## Regions -/

namespace Region

variable {gone : Int → Bool} {r s r' s' : Region} {i : Int}

/-- A region is what is left of another. Where control enters and leaves, nothing is gone. -/
structure Thins (gone : Int → Bool) (r r' : Region) : Prop where
  start : r'.start = renumber gone r.start
  stop : r'.stop = renumber gone r.stop
  nodes : r'.nodes = keptNodes gone r.nodes
  edges : r'.edges = keptEdges gone r.edges
  entry : r'.entry = r.entry.map (renumber gone)
  exits : r'.exits = r.exits.map (·.renumber gone)
  entry_kept : ∀ id, r.entry = some id → gone id = false
  exits_kept : ∀ x ∈ r.exits, gone x.source = false

namespace Thins

theorem empty (gone : Int → Bool) (i : Int) :
    Thins gone { start := i } { start := renumber gone i } where
  start := rfl
  stop := by simp [Region.stop]
  nodes := rfl
  edges := rfl
  entry := rfl
  exits := rfl
  entry_kept := by simp
  exits_kept := by simp

theorem step (hg : Nonneg gone) (hi : gone i = false) (action : Action) (label : String) :
    (step i action label).Thins gone (step (renumber gone i) action label) where
  start := rfl
  stop := (renumber_succ_of_kept hg hi).symm
  nodes := by
    rw [Region.step, Region.step, keptNodes_cons hi]
    rfl
  edges := rfl
  entry := rfl
  exits := rfl
  entry_kept _ hid := Option.some.inj hid ▸ hi
  exits_kept _ hx := List.mem_singleton.1 hx ▸ hi

theorem detached (h : r.Thins gone r') : r.detached.Thins gone r'.detached where
  start := h.start
  stop := h.stop
  nodes := h.nodes
  edges := h.edges
  entry := rfl
  exits := rfl
  entry_kept := by simp [Region.detached]
  exits_kept := by simp [Region.detached]

theorem seq (h : r.Thins gone r') (hs : s.Thins gone s') (hstart : s.start = r.stop) :
    (r.seq s).Thins gone (r'.seq s') where
  start := h.start
  stop := by
    have hstart' : s'.start = r'.stop := by rw [hs.start, h.stop, hstart]
    rw [stop_seq hstart, stop_seq hstart', hs.stop]
  nodes := by
    rw [Region.seq, Region.seq, keptNodes_append, h.nodes, hs.nodes]
  edges := by
    simp only [Region.seq, keptEdges_append, h.edges, hs.edges, hs.entry]
    congr 1
    cases hse : s.entry with
    | none => rfl
    | some entry =>
      have hkept : ∀ e ∈ r.exits.map (·.to entry), gone e.source = false := by
        intro e he
        obtain ⟨x, hx, rfl⟩ := List.mem_map.1 he
        exact h.exits_kept x hx
      simp only [Option.map_some, Option.elim_some]
      rw [keptEdges_eq_map hkept, h.exits, List.map_map, List.map_map]
      rfl
  entry := by
    simp only [Region.seq, h.entry, hs.entry]
    cases r.entry <;> rfl
  exits := by
    simp only [Region.seq, h.exits, hs.exits, hs.entry]
    cases s.entry <;> rfl
  entry_kept id hid := by
    cases hre : r.entry with
    | none => exact hs.entry_kept id (by simpa [Region.seq, hre] using hid)
    | some entry => exact h.entry_kept id (by simpa [Region.seq, hre] using hid)
  exits_kept x hx := by
    rcases exits_seq r s with ⟨-, he⟩ | ⟨-, he⟩ <;> rw [he] at hx
    · exact h.exits_kept x hx
    · exact hs.exits_kept x hx

/-- A detached region that is gone altogether leaves nothing behind. -/
theorem drop (hg : Nonneg gone) (h : r.Thins gone r') (hs : s.WellFormed)
    (hstart : s.start = r.stop) (hgone : ∀ id, s.Owns id → gone id = true) :
    (r.seq s.detached).Thins gone r' where
  start := h.start
  stop := by
    have hstop : renumber gone s.stop = renumber gone s.start :=
      renumber_add_of_gone hg (fun id hle hlt => hgone id ⟨hle, hlt⟩)
    rw [stop_seq (show s.detached.start = r.stop from hstart), h.stop, ← hstart]
    exact hstop.symm
  nodes := by
    have hnil : keptNodes gone s.nodes = [] :=
      keptNodes_eq_nil (fun node hnode => hgone _ (hs.node_owned node hnode))
    show r'.nodes = keptNodes gone (r.nodes ++ s.nodes)
    rw [keptNodes_append, hnil, List.append_nil, h.nodes]
  edges := by
    have hnil : keptEdges gone s.edges = [] :=
      keptEdges_eq_nil (fun e he => hgone _ (hs.edge_owned e he).1)
    show r'.edges = keptEdges gone (r.edges ++ s.edges ++ [])
    rw [List.append_nil, keptEdges_append, hnil, List.append_nil, h.edges]
  entry := by
    rw [h.entry]
    cases hre : r.entry <;> simp [Region.seq, Region.detached, hre]
  exits := h.exits
  entry_kept id hid := by
    cases hre : r.entry with
    | none => simp [Region.seq, Region.detached, hre] at hid
    | some entry => exact h.entry_kept id (by simpa [Region.seq, hre] using hid)
  exits_kept := h.exits_kept

/-- Where a header leads into a region, it leads into what is left of it. -/
theorem into (h : r.Thins gone r') (hi : gone i = false) (label : EdgeLabel) :
    r'.into (renumber gone i) label = keptEdges gone (r.into i label) := by
  rw [keptEdges_eq_map]
  · unfold Region.into
    rw [h.entry]
    cases r.entry <;> rfl
  · intro e he
    obtain ⟨id, -, rfl⟩ := mem_into.1 he
    exact hi

theorem exitsFrom (h : r.Thins gone r') (label : EdgeLabel) :
    r'.exitsFrom (renumber gone i) label = (r.exitsFrom i label).map (·.renumber gone) := by
  unfold Region.exitsFrom
  rw [h.entry, h.exits]
  cases r.entry <;> rfl

theorem exitsFrom_kept (h : r.Thins gone r') (hi : gone i = false) {label : EdgeLabel} {x : Exit}
    (hx : x ∈ r.exitsFrom i label) : gone x.source = false := by
  unfold Region.exitsFrom at hx
  cases hre : r.entry with
  | none =>
    rw [hre] at hx
    rw [List.mem_singleton.1 hx]
    exact hi
  | some entry =>
    rw [hre] at hx
    exact h.exits_kept x hx

theorem branch (hg : Nonneg gone) {yes no yes' no' : Region} {label : String}
    (hi : gone i = false) (hy : yes.Thins gone yes') (hn : no.Thins gone no')
    (hys : yes.start = i + 1) (hns : no.start = yes.stop) :
    (branch i label yes no).Thins gone (branch (renumber gone i) label yes' no') where
  start := rfl
  stop := by
    have hys' : yes'.start = renumber gone i + 1 := by
      rw [hy.start, hys, renumber_succ_of_kept hg hi]
    have hns' : no'.start = yes'.stop := by rw [hn.start, hy.stop, hns]
    rw [stop_branch hys hns, stop_branch hys' hns', hn.stop]
  nodes := by
    rw [Region.branch, Region.branch, keptNodes_cons hi, keptNodes_append, hy.nodes, hn.nodes]
    rfl
  edges := by
    simp only [Region.branch, keptEdges_append, hy.edges, hn.edges, hy.into hi, hn.into hi]
  entry := rfl
  exits := by
    rw [Region.branch, Region.branch, List.map_append, hy.exitsFrom, hn.exitsFrom]
  entry_kept id hid := Option.some.inj hid ▸ hi
  exits_kept x hx := by
    rcases mem_exits_branch.1 hx with hx | hx
    · exact hy.exitsFrom_kept hi hx
    · exact hn.exitsFrom_kept hi hx

/-- A node that is left is a branch if it was one. -/
theorem isBranch (hg : Nonneg gone) (h : r.Thins gone r') {id : Int} (hid : gone id = false) :
    r'.isBranch (renumber gone id) = r.isBranch id := by
  unfold Draft.isBranch
  rw [h.nodes, keptNodes, List.any_map, List.any_filter]
  congr 1
  funext node
  by_cases hnode : gone node.id = true
  · -- a node that is gone has another id than one that is left
    have hne : (node.id == id) = false := by
      rw [beq_eq_false_iff_ne]
      rintro rfl
      rw [hid] at hnode
      exact Bool.false_ne_true hnode
    rw [hnode, hne]
    rfl
  · have hkept : gone node.id = false := by simpa using hnode
    have heq : (renumber gone node.id == renumber gone id) = (node.id == id) := by
      rw [Bool.eq_iff_iff, beq_iff_eq, beq_iff_eq]
      exact renumber_inj hg hkept hid
    simp only [hkept, Bool.not_false, Bool.true_and, Function.comp, FlowNode.renumber, heq]

theorem backLabel (hg : Nonneg gone) (h : r.Thins gone r') {x : Exit} (hx : x ∈ r.exits) :
    r'.backLabel (x.renumber gone) = r.backLabel x := by
  have hbranch := h.isBranch hg (h.exits_kept x hx)
  unfold Draft.backLabel
  show (if (x.label = .yes ∨ x.label = .no) ∧ r'.isBranch (renumber gone x.source) then
    x.label else EdgeLabel.loop) = _
  rw [hbranch]

theorem backEdges (hg : Nonneg gone) (h : r.Thins gone r') :
    r'.backEdges (renumber gone i) = keptEdges gone (r.backEdges i) := by
  rw [keptEdges_eq_map]
  · unfold Region.backEdges
    rw [h.exits, List.map_map, List.map_map]
    apply List.map_congr_left
    intro x hx
    show (⟨renumber gone x.source, renumber gone i, r'.backLabel (x.renumber gone)⟩ : FlowEdge) =
      ⟨renumber gone x.source, renumber gone i, r.backLabel x⟩
    rw [h.backLabel hg hx]
  · intro e he
    obtain ⟨x, hx, rfl⟩ := List.mem_map.1 he
    exact h.exits_kept x hx

theorem lastEdge (hg : Nonneg gone) (h : r.Thins gone r') :
    r'.lastEdge (renumber gone i) = keptEdges gone (r.lastEdge i) := by
  have hany : r'.exits.any (fun x => decide (r'.backLabel x = .loop)) =
      r.exits.any (fun x => decide (r.backLabel x = .loop)) := by
    rw [h.exits, List.any_map, Bool.eq_iff_iff, List.any_eq_true, List.any_eq_true]
    simp only [Function.comp, decide_eq_true_eq]
    constructor <;> rintro ⟨x, hx, hl⟩ <;> refine ⟨x, hx, ?_⟩
    · rwa [← h.backLabel hg hx]
    · rwa [h.backLabel hg hx]
  unfold Region.lastEdge
  rw [hany]
  split_ifs
  · rfl
  · rw [h.exits, List.getLast?_map]
    cases hx : r.exits.getLast? with
    | none => rfl
    | some x =>
      have hkept : gone x.source = false := h.exits_kept x (List.mem_of_getLast? hx)
      simp [keptEdges, hkept, FlowEdge.renumber, Exit.renumber]

theorem loopEdges (hg : Nonneg gone) (h : r.Thins gone r') (hi : gone i = false) :
    loopEdges (renumber gone i) r' = keptEdges gone (loopEdges i r) := by
  unfold Region.loopEdges
  rw [h.entry]
  cases r.entry with
  | none => simp [keptEdges, hi, FlowEdge.renumber]
  | some entry =>
    simp only [Option.map_some]
    rw [h.backEdges hg, h.lastEdge hg, ← keptEdges_append]
    simp [keptEdges, hi, FlowEdge.renumber]

theorem loop (hg : Nonneg gone) (hi : gone i = false) (h : r.Thins gone r')
    (hstart : r.start = i + 1) (form : LoopForm) (label : String) :
    (loop i form label r).Thins gone (loop (renumber gone i) form label r') where
  start := rfl
  stop := by
    have hstart' : r'.start = renumber gone i + 1 := by
      rw [h.start, hstart, renumber_succ_of_kept hg hi]
    rw [stop_loop hstart, stop_loop hstart', h.stop]
  nodes := by
    rw [Region.loop, Region.loop, keptNodes_cons hi, h.nodes]
    rfl
  edges := by
    rw [Region.loop, Region.loop, keptEdges_append, h.edges, h.loopEdges hg hi]
  entry := by
    simp only [Region.loop, h.entry]
    cases r.entry <;> split_ifs <;> rfl
  exits := rfl
  entry_kept id hid := by
    simp only [Region.loop, Option.some.injEq] at hid
    rw [← hid]
    cases hre : r.entry with
    | none =>
      simp only [Option.getD_none, ite_self]
      exact hi
    | some entry =>
      split_ifs
      · exact h.entry_kept entry hre
      · exact hi
  exits_kept x hx := List.mem_singleton.1 hx ▸ hi

theorem function (hg : Nonneg gone) (hi : gone i = false) (h : r.Thins gone r')
    (hstart : r.start = i + 1) (label : String) :
    (function i label r).Thins gone (function (renumber gone i) label r') where
  start := rfl
  stop := by
    have hstart' : r'.start = renumber gone i + 1 := by
      rw [h.start, hstart, renumber_succ_of_kept hg hi]
    rw [stop_function hstart, stop_function hstart', h.stop]
  nodes := by
    rw [Region.function, Region.function, keptNodes_cons hi, h.nodes]
    rfl
  edges := by
    rw [Region.function, Region.function, keptEdges_append, h.edges, h.into hi]
  entry := rfl
  exits := rfl
  entry_kept id hid := Option.some.inj hid ▸ hi
  exits_kept := by simp [Region.function]

end Thins

end Region

/-! ## Statements -/

namespace Stmt

variable {α : Type} {gone : Int → Bool} {s s' : Stmt} {notes notes' : List α} {i : Int}

/-- A statement with a note for each of its nodes is what is left of another, whose ids count up
    from `i`. -/
structure Thins (gone : Int → Bool) (s : Stmt) (notes : List α) (i : Int) (s' : Stmt)
    (notes' : List α) : Prop where
  region : (s.region i).Thins gone (s'.region (renumber gone i))
  length : notes.length = s.size
  notes : notes' = keep gone i notes

theorem Thins.member (h : s.Thins gone notes i s' notes') (hf : s'.isFunction = s.isFunction) :
    (s.member i).Thins gone (s'.member (renumber gone i)) := by
  unfold Stmt.member
  rw [hf]
  split_ifs
  · exact h.region.detached
  · exact h.region

/-- A list of statements is what is left of another from which some functions may be gone. -/
inductive ThinsAll (gone : Int → Bool) :
    List Stmt → List α → (i : Int) → List Stmt → List α → Prop
  | nil (i : Int) : ThinsAll gone [] [] i [] []
  | cons {s s' : Stmt} {notes notes' more more' : List α} {rest rest' : List Stmt} {i : Int} :
    s.Thins gone notes i s' notes' → s'.isFunction = s.isFunction →
      ThinsAll gone rest more (i + s.size) rest' more' →
        ThinsAll gone (s :: rest) (notes ++ more) i (s' :: rest') (notes' ++ more')
  | drop {s : Stmt} {notes more more' : List α} {rest rest' : List Stmt} {i : Int} :
    s.isFunction = true → notes.length = s.size →
      (∀ id, i ≤ id → id < i + s.size → gone id = true) →
        ThinsAll gone rest more (i + s.size) rest' more' →
          ThinsAll gone (s :: rest) (notes ++ more) i rest' more'

namespace ThinsAll

variable {stmts stmts' : List Stmt}

theorem length (h : ThinsAll gone stmts notes i stmts' notes') : notes.length = sizeAll stmts := by
  induction h with
  | nil => rfl
  | cons hs _ _ ih => rw [List.length_append, hs.length, ih, sizeAll]
  | drop _ hlen _ _ ih => rw [List.length_append, hlen, ih, sizeAll]

theorem append {rest rest' : List Stmt} {more more' : List α}
    (h : ThinsAll gone stmts notes i stmts' notes')
    (h' : ThinsAll gone rest more (i + sizeAll stmts) rest' more') :
    ThinsAll gone (stmts ++ rest) (notes ++ more) i (stmts' ++ rest') (notes' ++ more') := by
  induction h with
  | nil i => simpa [sizeAll] using h'
  | cons hs hf _ ih =>
    rw [sizeAll, Int.natCast_add, ← Int.add_assoc] at h'
    rw [List.append_assoc, List.append_assoc]
    exact .cons hs hf (ih h')
  | drop hf hlen hgone _ ih =>
    rw [sizeAll, Int.natCast_add, ← Int.add_assoc] at h'
    rw [List.append_assoc]
    exact .drop hf hlen hgone (ih h')

theorem keep (h : ThinsAll gone stmts notes i stmts' notes') :
    notes' = FlowSketch.keep gone i notes := by
  induction h with
  | nil => rfl
  | cons hs _ _ ih => rw [keep_append, hs.length, ← hs.notes, ← ih]
  | drop _ hlen hgone _ ih =>
    rw [keep_append, keep_eq_nil (by rwa [hlen]), hlen, List.nil_append, ← ih]

theorem regionAll (hg : Nonneg gone) (h : ThinsAll gone stmts notes i stmts' notes')
    {before before' : Region} (hb : before.Thins gone before') (hi : before.stop = i) :
    (regionAll stmts before).Thins gone (regionAll stmts' before') := by
  induction h generalizing before before' with
  | nil => rwa [FlowSketch.regionAll, FlowSketch.regionAll]
  | @cons s s' _ _ _ _ _ _ i hs hf _ ih =>
    subst hi
    rw [regionAll_cons, regionAll_cons, hb.stop]
    apply ih
    · exact hb.seq (hs.member hf) (by simp)
    · rw [Region.stop_seq (by simp), stop_member, region_stop]
  | @drop s _ _ _ _ _ i hf _ hgone _ ih =>
    subst hi
    have hmember : s.member before.stop = (s.region before.stop).detached := by
      rw [Stmt.member, if_pos hf]
    rw [regionAll_cons, hmember]
    apply ih
    · refine hb.drop hg (s.region_wellFormed _) (by simp) ?_
      intro id hid
      exact hgone id (by simpa using hid.start_le) (by simpa using hid.lt_stop)
    · rw [Region.stop_seq (by simp [Region.detached])]
      exact s.region_stop before.stop

/-- A block without some of its functions is what is left of the block. -/
theorem thins (hg : Nonneg gone) (h : ThinsAll gone stmts notes i stmts' notes') :
    (Stmt.block stmts).Thins gone notes i (.block stmts') notes' where
  region := by
    rw [Stmt.region, Stmt.region]
    exact h.regionAll hg (.empty gone i) (by simp [Region.stop])
  length := h.length
  notes := h.keep

end ThinsAll

/-! ## Headers -/

section Header

variable {body body' yes yes' no no' : Stmt} {more more' : List α}

theorem Thins.branch (hg : Nonneg gone) (hi : gone i = false) (label : String) (note : α)
    (hy : yes.Thins gone notes (i + 1) yes' notes')
    (hn : no.Thins gone more (i + 1 + yes.size) no' more') :
    (Stmt.branch label yes no).Thins gone (note :: (notes ++ more)) i (.branch label yes' no')
      (note :: (notes' ++ more')) where
  region := by
    have hstop : renumber gone i + 1 + yes'.size = renumber gone (i + 1 + yes.size) := by
      have := hy.region.stop
      rwa [region_stop, region_stop, renumber_succ_of_kept hg hi] at this
    have hyes := hy.region
    rw [renumber_succ_of_kept hg hi] at hyes
    rw [Stmt.region, Stmt.region, hstop]
    exact .branch hg hi hyes hn.region (by simp) (by simp)
  length := by
    rw [List.length_cons, List.length_append, hy.length, hn.length, size]
    omega
  notes := by
    rw [keep, hi, keep_append, hy.length, ← hy.notes, ← hn.notes]
    rfl

theorem Thins.loop (hg : Nonneg gone) (hi : gone i = false) (form : LoopForm) (label : String)
    (note : α) (h : body.Thins gone notes (i + 1) body' notes') :
    (Stmt.loop form label body).Thins gone (note :: notes) i (.loop form label body')
      (note :: notes') where
  region := by
    have hbody := h.region
    rw [renumber_succ_of_kept hg hi] at hbody
    rw [Stmt.region, Stmt.region]
    exact hbody.loop hg hi (by simp) form label
  length := by
    rw [List.length_cons, h.length, size]
    omega
  notes := by
    rw [keep, hi, ← h.notes]
    rfl

theorem Thins.function (hg : Nonneg gone) (hi : gone i = false) (label : String) (note : α)
    (h : body.Thins gone notes (i + 1) body' notes') :
    (Stmt.function label body).Thins gone (note :: notes) i (.function label body')
      (note :: notes') where
  region := by
    have hbody := h.region
    rw [renumber_succ_of_kept hg hi] at hbody
    rw [Stmt.region, Stmt.region]
    exact hbody.function hg hi (by simp) label
  length := by
    rw [List.length_cons, h.length, size]
    omega
  notes := by
    rw [keep, hi, ← h.notes]
    rfl

end Header

/-! ## Where nothing is gone -/

theorem regionAll_thins_self {stmts : List Stmt}
    (hs : ∀ s ∈ stmts, ∀ i : Int, (∀ id, i ≤ id → id < i + s.size → gone id = false) →
      (s.region i).Thins gone (s.region (renumber gone i))) {before before' : Region}
    (hb : before.Thins gone before')
    (h : ∀ id, before.stop ≤ id → id < before.stop + sizeAll stmts → gone id = false) :
    (regionAll stmts before).Thins gone (regionAll stmts before') := by
  induction stmts generalizing before before' with
  | nil => rwa [regionAll, regionAll]
  | cons s stmts ih =>
    rw [sizeAll] at h
    have hregion : (s.region before.stop).Thins gone (s.region (renumber gone before.stop)) :=
      hs s List.mem_cons_self _ (fun id hle hlt => h id hle (by omega))
    have hmember : (s.member before.stop).Thins gone (s.member (renumber gone before.stop)) := by
      unfold Stmt.member
      split_ifs
      · exact hregion.detached
      · exact hregion
    rw [regionAll_cons, regionAll_cons, hb.stop]
    apply ih (fun t ht => hs t (List.mem_cons_of_mem s ht)) (hb.seq hmember (by simp))
    intro id hle hlt
    rw [Region.stop_seq (by simp), stop_member, region_stop] at hle hlt
    exact h id (by omega) (by omega)

/-- A statement of which nothing is gone stays as it is. -/
theorem region_thins_self (hg : Nonneg gone) (s : Stmt) (i : Int)
    (h : ∀ id, i ≤ id → id < i + s.size → gone id = false) :
    (s.region i).Thins gone (s.region (renumber gone i)) := by
  induction s using Stmt.induction generalizing i with
  | step action label =>
    rw [size] at h
    rw [region, region]
    exact .step hg (h i (by omega) (by omega)) action label
  | block stmts ih =>
    rw [region, region]
    refine regionAll_thins_self ih (.empty gone i) ?_
    simpa [Region.stop, size] using h
  | branch label yes no ihy ihn =>
    rw [size] at h
    have hi : gone i = false := h i (by omega) (by omega)
    have hy := ihy (i + 1) (fun id hle hlt => h id (by omega) (by omega))
    have hn := ihn (i + 1 + yes.size) (fun id hle hlt => h id (by omega) (by omega))
    have hstop := hy.stop
    rw [region_stop, region_stop, renumber_succ_of_kept hg hi] at hstop
    rw [renumber_succ_of_kept hg hi] at hy
    rw [region, region, hstop]
    exact .branch hg hi hy hn (by simp) (by simp)
  | loop form label body ih =>
    rw [size] at h
    have hi : gone i = false := h i (by omega) (by omega)
    have hb := ih (i + 1) (fun id hle hlt => h id (by omega) (by omega))
    rw [renumber_succ_of_kept hg hi] at hb
    rw [region, region]
    exact hb.loop hg hi (by simp) form label
  | function label body ih =>
    rw [size] at h
    have hi : gone i = false := h i (by omega) (by omega)
    have hb := ih (i + 1) (fun id hle hlt => h id (by omega) (by omega))
    rw [renumber_succ_of_kept hg hi] at hb
    rw [region, region]
    exact hb.function hg hi (by simp) label

/-- The same with its notes. -/
theorem Thins.refl (hg : Nonneg gone) (s : Stmt) {notes : List α} (hlen : notes.length = s.size)
    (h : ∀ id, i ≤ id → id < i + s.size → gone id = false) : s.Thins gone notes i s notes where
  region := s.region_thins_self hg i h
  length := hlen
  notes := (keep_eq_self (by rwa [hlen])).symm

end Stmt

end FlowSketch
