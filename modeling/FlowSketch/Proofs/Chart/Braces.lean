import FlowSketch.Proofs.Chart.Detached
import FlowSketch.Proofs.Chart.Redrawing
import FlowSketch.Proofs.Chart.Skeleton

/-!
# Braces

A block in a block is drawn as if its statements stood in the outer one, and a statement that is no
function as if it stood in a block of its own. What differs is the order in which the edges of an
inner block are made: those within it come before those that lead into it.

Functions may stand in either block and statements may have nothing to enter, so this is about
sequences of regions that are passed through, and it holds wherever the block stands: in a loop, a
branch or a function, and at a place that is visited twice. Braces around a node can be seen only
where the label of the node above is read from it.

* `Ast.spliceChild` — a node with the children of one of its children in the place of that child.

Results:

* `Region.redraws_seq_assoc`: a sequence of three regions, put together in either order.
* `Region.redraws_seq_all`: so a block behind a region is put there member by member.
* `Ast.redraws_spliceChild`, `Ast.redraws_braced`: braces taken away from a block in a block, and
  put around a node that is no function.
* `Flowchart.exists_redraws_spliceChild`, `Flowchart.ofProgram_braced_eq`: so it is in a tree.
* `Flowchart.braces_transparent`: neither changes the flowchart of a tree around it, but for the
  order of the edges when braces are taken away.
* `Flowchart.label_braced_sharedCondition`: braces around the condition of a branch are in its
  label.
-/

namespace FlowSketch

/-! ## Sequences of sequences -/

namespace Region

variable {r s t : Region}

/-- Regions are put together in either order when nothing leaves the middle one without entering
    it. What differs is when the exits of the first are led into the middle one: before or after the
    edges of the third are made. -/
theorem redraws_seq_assoc (hs : s.entry = none → s.exits = []) :
    Redraws List.Perm (r.seq (s.seq t)) ((r.seq s).seq t) := by
  refine ⟨((r.seq s).seq t).edges, ?_, ?_⟩
  · cases hse : s.entry <;> cases hte : t.entry <;> simp [seq, hse, hte]
  · cases hse : s.entry with
    | none => cases hte : t.entry <;> simp [seq, hse, hte, hs hse]
    | some entry =>
      have hswap : ((t.edges ++ t.entry.elim [] (fun target => s.exits.map (·.to target))) ++
          r.exits.map (·.to entry)).Perm (r.exits.map (·.to entry) ++
            (t.edges ++ t.entry.elim [] (fun target => s.exits.map (·.to target)))) :=
        List.perm_append_comm
      simpa [seq, hse] using hswap.append_left (r.edges ++ s.edges)

/-- A block may be put behind a region as a whole or member by member. -/
theorem redraws_seq_all (stmts : List Stmt) (hs : s.entry = none → s.exits = [])
    (hstart : s.start = r.stop) :
    Redraws List.Perm (r.seq (regionAll stmts s)) (regionAll stmts (r.seq s)) := by
  have hE := EdgeCongruence.perm
  induction stmts generalizing s with
  | nil =>
    rw [regionAll, regionAll]
    exact .refl hE _
  | cons stmt stmts ih =>
    have hexits : (s.seq (stmt.member s.stop)).entry = none →
        (s.seq (stmt.member s.stop)).exits = [] := by
      intro hnone
      cases hse : s.entry <;> cases hme : (stmt.member s.stop).entry <;> simp_all [seq]
    rw [regionAll_cons, regionAll_cons, stop_seq hstart]
    -- the first member joins the middle region, then the others follow behind both
    refine (ih hexits hstart).trans hE (Stmt.Redraws.all hE ?_ (redraws_seq_assoc hs))
    exact List.forall₂_same.2 fun _ _ => .refl hE _

end Region

namespace Stmt

/-- Without the braces of a block in it, a block is drawn with its edges in another order. -/
theorem redraws_splice (front stmts back : List Stmt) :
    Redraws List.Perm (.block (front ++ .block stmts :: back))
      (.block (front ++ (stmts ++ back))) := by
  have hE := EdgeCongruence.perm
  refine ⟨rfl, fun i => ?_⟩
  rw [region, region, regionAll_append, regionAll_append, regionAll_append, regionAll_cons]
  refine Redraws.all hE (List.forall₂_same.2 fun _ _ => .refl hE _) ?_
  generalize regionAll front { start := i } = r
  have hmember : (Stmt.block stmts).member r.stop = regionAll stmts { start := r.stop } := by
    rw [member, if_neg (by simp [isFunction]), region]
  have hempty : r.seq { start := r.stop } = r := by simp [Region.seq]
  have hall := Region.redraws_seq_all (r := r) (s := { start := r.stop }) stmts (fun _ => rfl) rfl
  rwa [hempty, ← hmember] at hall

/-- With braces around it a statement that is no function is drawn as it is. -/
theorem redraws_braced {s : Stmt} (h : s.isFunction = false) : Redraws Eq s (.block [s]) := by
  refine ⟨h.symm, fun i => ?_⟩
  rw [region_block_singleton h]
  exact .refl .eq _

end Stmt

/-! ## Blocks without the braces of a child -/

namespace Ast

variable {root n b m w : Ast} {d : Draft} {k : Nat} {path : List Nat}

/-- The node with the children of its child at a position in the place of that child. The children
    behind move on, and a slot that held the child is empty. -/
def spliceChild (k : Nat) (n : Ast) : Ast :=
  match n.children[k]? with
  | some b =>
    { n with
      children := n.children.take k ++ (b.children ++ n.children.drop (k + 1))
      slots := n.slots.bind fun i =>
        if i = k then none else if k < i then some (i - 1 + b.children.length) else some i }
  | none => n

theorem kind_spliceChild (k : Nat) (n : Ast) : (n.spliceChild k).kind = n.kind := by
  unfold spliceChild
  cases n.children[k]? <;> rfl

theorem text_spliceChild (k : Nat) (n : Ast) : (n.spliceChild k).text = n.text := by
  unfold spliceChild
  cases n.children[k]? <;> rfl

/-- What stands in the place of a child. -/
theorem exists_children_spliceChild (hb : n.children[k]? = some b) : ∃ front back,
    n.children = front ++ b :: back ∧
      (n.spliceChild k).children = front ++ (b.children ++ back) := by
  refine ⟨n.children.take k, n.children.drop (k + 1), eq_append_of_getElem? hb, ?_⟩
  rw [spliceChild, hb]

section Splice

variable (hk : n.kind = .compoundBlock) (hb : n.children[k]? = some b)
  (hbk : b.kind = .compoundBlock)

include hk hb hbk

/-- A block without the braces of a block in it is the same but for the order of its edges. -/
theorem redraws_spliceChild : Redraws List.Perm n (n.spliceChild k) := by
  have hk' : (n.spliceChild k).kind = .compoundBlock := (kind_spliceChild k n).trans hk
  have hruns : n.RunsChildren := .inl hk
  have hruns' : (n.spliceChild k).RunsChildren := .inl hk'
  have hbruns : b.RunsChildren := .inl hbk
  obtain ⟨front, back, hold, hnew⟩ := exists_children_spliceChild hb
  constructor
  case program =>
    rw [program_sequence (.inl hk), program_sequence (.inl hk'), hruns.members, hruns'.members,
      hold, hnew, List.map_append, List.map_append, List.map_append, List.map_cons,
      program_sequence (.inl hbk), hbruns.members]
    exact Stmt.redraws_splice ..
  case same_notes =>
    rw [notes_of_sequence (.inl hk), notes_of_sequence (.inl hk'), hruns.members, hruns'.members,
      hold, hnew, List.flatMap_append, List.flatMap_append, List.flatMap_append, List.flatMap_cons,
      notes_of_sequence (.inl hbk), hbruns.members]

/-- It is visited no deeper. -/
theorem reaches_spliceChild (steps : Nat) (h : (n.spliceChild k).reaches steps = true) :
    n.reaches steps = true := by
  have hk' : (n.spliceChild k).kind = .compoundBlock := (kind_spliceChild k n).trans hk
  have hruns : n.RunsChildren := .inl hk
  have hruns' : (n.spliceChild k).RunsChildren := .inl hk'
  have hbruns : b.RunsChildren := .inl hbk
  obtain ⟨front, back, hold, hnew⟩ := exists_children_spliceChild hb
  cases steps with
  | zero => rfl
  | succ steps =>
    obtain ⟨m, hm, hreaches⟩ := reaches_succ_iff.1 h
    rw [hruns'.visited, hnew, List.mem_append, List.mem_append] at hm
    rw [reaches_succ_iff, hruns.visited, hold]
    rcases hm with hm | hm | hm
    · exact ⟨m, by simp [hm], hreaches⟩
    · -- what stood below the braces stood one step deeper
      have hbreaches : b.reaches (steps + 1) = true :=
        reaches_succ_iff.2 ⟨m, by rwa [hbruns.visited], hreaches⟩
      exact ⟨b, by simp, reaches_of_succ hbreaches⟩
    · exact ⟨m, by simp [hm], hreaches⟩

end Splice

/-! ## Nodes with braces around them -/

section Braced

variable (hk : w.kind = .compoundBlock) (hw : w.children = [m])

include hk hw

/-- A node that is no function is the same with braces around it. -/
theorem redraws_braced (hm : m.kind ≠ .functionDef) : Redraws Eq m w := by
  have hruns : w.RunsChildren := .inl hk
  constructor
  case program =>
    rw [program_sequence (.inl hk), hruns.members, hw, List.map_singleton]
    exact Stmt.redraws_braced (by rw [isFunction_program_eq]; simpa using hm)
  case same_notes =>
    rw [notes_of_sequence (.inl hk), hruns.members, hw, List.flatMap_singleton]

theorem reaches_braced (steps : Nat) : w.reaches (steps + 1) = m.reaches steps := by
  have hruns : w.RunsChildren := .inl hk
  rw [reaches, hruns.visited, hw, List.any_cons, List.any_nil, Bool.or_false]

end Braced

end Ast

/-! ## Flowcharts -/

namespace Flowchart

section Build

variable {limit : Int} {root c b m w : Ast} {d : Draft} {chart : Flowchart} {path : List Nat}
  {k : Nat} (h : (ofAst limit root).outcome = .ok chart)

include h

/-- A tree in which a block loses the braces of a block in it has the same flowchart, but for the
    order of the edges. -/
theorem exists_redraws_spliceChild (halong : root.Along {} path c d)
    (hk : c.kind = .compoundBlock) (hb : c.children[k]? = some b) (hbk : b.kind = .compoundBlock) :
    ∃ rest, (ofAst limit (root.modifyAt (Ast.spliceChild k) path)).outcome = .ok rest ∧
      chart.Redraws List.Perm rest := by
  obtain ⟨hreaches, rfl⟩ := outcome_eq_ok_iff.1 h
  refine ⟨_, outcome_eq_ok_iff.2 ⟨?_, rfl⟩, Ast.Redraws.chart ?_⟩
  · rw [Bool.eq_false_iff] at hreaches ⊢
    exact mt (Ast.reaches_modifyAt halong.at? (Ast.reaches_spliceChild hk hb hbk)) hreaches
  · exact Ast.redraws_modifyAt .perm halong.at? (Ast.redraws_spliceChild hk hb hbk)
      (fun _ => Ast.text_spliceChild k c)

section Braced

variable (halong : root.Along {} path m d) (hk : w.kind = .compoundBlock) (hw : w.children = [m])

include halong hk hw

/-- With braces around a node a tree nests at most one level deeper. -/
theorem reaches_braced_eq_false :
    (root.modifyAt (fun _ => w) path).reaches (limit + 1 + 1).toNat = false := by
  obtain ⟨hreaches, -⟩ := outcome_eq_ok_iff.1 h
  -- the root of a tree is a level, so that the limit is not negative
  have hlevels : (limit + 1 + 1).toNat = (limit + 1).toNat + 1 := by
    cases hsteps : (limit + 1).toNat with
    | zero =>
      rw [hsteps] at hreaches
      exact absurd hreaches (by simp [Ast.reaches])
    | succ steps => omega
  rw [Bool.eq_false_iff] at hreaches ⊢
  rw [hlevels]
  refine mt (Ast.reaches_modifyAt_add 1 halong.at? fun steps hdeep => ?_) hreaches
  rwa [Ast.reaches_braced hk hw] at hdeep

/-- A tree in which a node gets braces around it has the same flowchart, if it has one at all. -/
theorem ofProgram_braced_eq (hm : m.kind ≠ .functionDef)
    (htext : root.ReadsLabelAt path → w.text = m.text) :
    ofProgram (root.modifyAt (fun _ => w) path).program
      ((root.modifyAt (fun _ => w) path).notes.filterMap id) = chart := by
  obtain ⟨-, rfl⟩ := outcome_eq_ok_iff.1 h
  have hredraws : Ast.Redraws Eq root (root.modifyAt (fun _ => w) path) :=
    Ast.redraws_modifyAt .eq halong.at? (Ast.redraws_braced hk hw hm) htext
  exact hredraws.chart.eq

end Braced

end Build

/-- Braces in a block make no difference to its flowchart. Where a visited block has a block among
    its children, the children of that one may stand in its place: there is still a flowchart, with
    the same entry, nodes and malformed nodes and with the same edges in some order. And a visited
    node that is no function may be put in a block of its own, with whatever words, unless the label
    of the node above is read from it and these are other words: every limit that allows the
    flowchart gives the same one, and one level more is enough. -/
theorem braces_transparent {limit : Int} {root : Ast} {chart : Flowchart}
    (h : (ofAst limit root).outcome = .ok chart) :
    (∀ path c d k b, root.Along {} path c d → c.kind = .compoundBlock →
      c.children[k]? = some b → b.kind = .compoundBlock →
        ∃ rest, (ofAst limit (root.modifyAt (Ast.spliceChild k) path)).outcome = .ok rest ∧
          chart.Redraws List.Perm rest) ∧
    (∀ path m d w, root.Along {} path m d → m.kind ≠ .functionDef → w.kind = .compoundBlock →
      w.children = [m] → (root.ReadsLabelAt path → w.text = m.text) →
        (ofAst (limit + 1) (root.modifyAt (fun _ => w) path)).outcome = .ok chart ∧
        ∀ limit' rest, (ofAst limit' (root.modifyAt (fun _ => w) path)).outcome = .ok rest →
          rest = chart) := by
  refine ⟨fun path c d k b halong hk hb hbk => exists_redraws_spliceChild h halong hk hb hbk, ?_⟩
  intro path m d w halong hm hk hw htext
  have hsame := ofProgram_braced_eq h halong hk hw hm htext
  constructor
  · exact outcome_eq_ok_iff.2 ⟨reaches_braced_eq_false h halong hk hw, hsame.symm⟩
  · intro limit' rest hrest
    exact (outcome_eq_ok_iff.1 hrest).2.trans hsame

end Flowchart

/-- The block `{ x; { y; z; } }`. -/
def Ast.bracedTail : Ast where
  kind := .compoundBlock
  children := [
    { kind := .other, text := "x;" },
    { kind := .compoundBlock
      children := [{ kind := .other, text := "y;" }, { kind := .other, text := "z;" }] }]

/-- The label of a block is not read from its members. -/
theorem Ast.not_readsLabelAt_bracedTail : ¬bracedTail.ReadsLabelAt [1, 0] := by
  intro h
  cases h with
  | further hm h =>
    cases hm
    cases h with
    | here hslot => cases hslot
    | further _ h => cases h

/-- The nodes stay as they are; the edge into the inner block is made first without its braces. -/
theorem Flowchart.braces_transparent_bracedTail : ∃ chart rest w,
    (ofAst 2 Ast.bracedTail).outcome = .ok chart ∧
      (ofAst 2 (Ast.bracedTail.modifyAt (Ast.spliceChild 1) [])).outcome = .ok rest ∧
      rest.nodes = chart.nodes ∧ chart.edges = [⟨1, 2, .next⟩, ⟨0, 1, .next⟩] ∧
      rest.edges = [⟨0, 1, .next⟩, ⟨1, 2, .next⟩] ∧
      (ofAst 3 (Ast.bracedTail.modifyAt (fun _ => w) [1, 0])).outcome = .ok chart ∧
      w.children = [{ kind := .other, text := "y;" }] := by
  have h : (ofAst 2 Ast.bracedTail).outcome = .ok _ := rfl
  obtain ⟨hsplice, hbraced⟩ := braces_transparent h
  obtain ⟨rest, hrest, hredraws⟩ := hsplice [] _ {} 1 _ (.here _ _) rfl rfl rfl
  obtain ⟨hsame, -⟩ := hbraced [1, 0] _ _
    { kind := .compoundBlock, text := "{ y; }", children := [{ kind := .other, text := "y;" }] }
    (.further (.child (.inl rfl) rfl) (.further (.child (.inl rfl) rfl) (.here _ _)))
    (by decide) rfl rfl (fun hreads => absurd hreads Ast.not_readsLabelAt_bracedTail)
  refine ⟨_, rest, _, h, hrest, hredraws.nodes, rfl, ?_, hsame, rfl⟩
  cases hrest
  rfl

/-- A branch with one child, which is both its condition and its body. -/
def Ast.sharedCondition : Ast where
  kind := .ifStmt
  text := "if (c)"
  slots := { condition := some 0, body := some 0 }
  children := [{ kind := .other, text := "c" }]

/-- With braces around it the label of the branch has them too. -/
theorem Flowchart.label_braced_sharedCondition : ∃ m d w chart rest,
    Ast.sharedCondition.Along {} [0] m d ∧ m.kind = .other ∧
      w.kind = .compoundBlock ∧ w.children = [m] ∧
      (ofAst 2 Ast.sharedCondition).outcome = .ok chart ∧
      (ofAst 2 (Ast.sharedCondition.modifyAt (fun _ => w) [0])).outcome = .ok rest ∧
      chart.nodes = [⟨0, .branch, "c"⟩, ⟨1, .other, "c"⟩] ∧
      rest.nodes = [⟨0, .branch, "{ c }"⟩, ⟨1, .other, "c"⟩] := by
  refine ⟨_, _, { kind := .compoundBlock, text := "{ c }", children := [_] }, _, _,
    .further (.body (.inl rfl) rfl rfl) (.here _ _), rfl, rfl, rfl, rfl, rfl, rfl, rfl⟩

end FlowSketch
