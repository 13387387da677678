import FlowSketch.Proofs.Chart.Path
import FlowSketch.Proofs.Chart.Thinning

/-!
# Functions stand apart

A function definition in a block is drawn beside everything else: no edge joins its nodes with
others, and without it the flowchart is the same but for its nodes, edges and malformed nodes. A
block that holds only functions is passed over like an empty one, whatever it is the body of.

* `Ast.Thins` — a tree is what is left of another.
* `Flowchart.Without` — a flowchart is another one without some of its nodes.

Results:

* `Ast.thins_mapChildren`: where all visited children are thinned out, so is the node.
* `Ast.thins_modifyAt`: a tree without a function is what is left of the tree.
* `Flowchart.function_detached`: the flowchart of a tree without a function is that of the tree
  without the nodes of the function.
-/

namespace FlowSketch

namespace Ast

variable {gone : Int → Bool} {root n m f block : Ast} {d e : Draft} {i : Int} {k p : Nat}
  {path : List Nat}

/-! ## Thinning trees out -/

/-- A tree is what is left of another, as a statement with what its nodes lack. -/
def Thins (gone : Int → Bool) (n : Ast) (i : Int) (n' : Ast) : Prop :=
  n.program.Thins gone n.notes i n'.program n'.notes

/-- A tree of which nothing is gone stays as it is. -/
theorem Thins.refl (hg : Nonneg gone) (n : Ast)
    (h : ∀ id, i ≤ id → id < i + n.program.size → gone id = false) : Thins gone n i n :=
  Stmt.Thins.refl hg n.program n.length_notes h

theorem isFunction_eq (h : m.kind = n.kind) : m.program.isFunction = n.program.isFunction := by
  rw [isFunction_program_eq, isFunction_program_eq, h]

theorem thinsAll_self (hg : Nonneg gone) (ns : List Ast)
    (h : ∀ id, i ≤ id → id < i + Stmt.sizeAll (ns.map program) → gone id = false) :
    Stmt.ThinsAll gone (ns.map program) (ns.flatMap notes) i (ns.map program)
      (ns.flatMap notes) := by
  induction ns generalizing i with
  | nil => exact .nil i
  | cons n ns ih =>
    rw [List.map_cons, Stmt.sizeAll] at h
    refine .cons (Thins.refl hg n fun id hle hlt => h id hle (by omega)) rfl (ih ?_)
    intro id hle hlt
    exact h id (by omega) (by omega)

/-! ## What is left of a node -/

theorem notes_of_flowKind? (h : n.kind.flowKind?.isSome) :
    n.notes = n.malformed? :: n.visited.flatMap notes := by
  rw [notes_eq, self_of_flowKind? h]
  rfl

theorem self_of_sequence (h : n.kind = .compoundBlock ∨ n.kind = .elseClause) : n.self = [] := by
  rcases h with hk | hk <;> rw [self, hk] <;> rfl

theorem notes_of_sequence (h : n.kind = .compoundBlock ∨ n.kind = .elseClause) :
    n.notes = n.members.flatMap notes := by
  rw [notes_eq, self_of_sequence h, visited_of_sequence h]
  rfl

section MapChildren

variable {change : Nat → Ast → Ast}

/-- What is left of a slot. -/
theorem thins_slot (hg : Nonneg gone) {slot : Slot}
    (hpart : ∀ p m, n.slots.get slot = some p → n.children[p]? = some m →
      Thins gone m i (change p m)) :
    (n.slotProgram slot).Thins gone ((n.child? slot).toList.flatMap notes) i
      ((n.mapChildren change).slotProgram slot)
      (((n.mapChildren change).child? slot).toList.flatMap notes) := by
  have hempty : (Stmt.block []).Thins gone ([] : List (Option Malformed)) i (.block []) [] :=
    (Stmt.ThinsAll.nil i).thins hg
  unfold slotProgram
  rw [child?_mapChildren, child?]
  cases hs : n.slots.get slot with
  | none => exact hempty
  | some p =>
    cases hm : n.children[p]? with
    | none => simpa [hm] using hempty
    | some m => simpa [hm, Thins] using hpart p m hs hm

/-- What is left of a list of children. -/
theorem thinsAll_mapIdx {ns : List Ast} (hkind : ∀ p m, (change p m).kind = m.kind)
    (hpart : ∀ p m, ns[p]? = some m →
      Thins gone m (i + Stmt.sizeAll ((ns.take p).map program)) (change p m)) :
    Stmt.ThinsAll gone (ns.map program) (ns.flatMap notes) i ((ns.mapIdx change).map program)
      ((ns.mapIdx change).flatMap notes) := by
  induction ns generalizing i change with
  | nil => exact .nil i
  | cons n ns ih =>
    have hn : Thins gone n i (change 0 n) := by simpa [Stmt.sizeAll] using hpart 0 n rfl
    rw [List.mapIdx_cons]
    refine .cons hn (isFunction_eq (hkind 0 n)) (ih (fun p m => hkind (p + 1) m) ?_)
    intro p m hm
    have hrest := hpart (p + 1) m (by simpa using hm)
    rw [List.take_succ_cons, List.map_cons, Stmt.sizeAll] at hrest
    push_cast at hrest
    rwa [← Int.add_assoc] at hrest

section Parts

variable (hg : Nonneg gone) (hd : d.WellFormed)
  (hkind : ∀ p m, (change p m).kind = m.kind)
  (hpart : ∀ p m e, n.Below d p m e → Thins gone m e.nextId (change p m))

include hg hpart

/-- What is left of a body. -/
theorem thins_body (hk : n.kind.governs = true) :
    (n.slotProgram .body).Thins gone ((n.child? .body).toList.flatMap notes) (n.begun d).nextId
      ((n.mapChildren change).slotProgram .body)
      (((n.mapChildren change).child? .body).toList.flatMap notes) :=
  thins_slot hg (fun p m hs hm => hpart p m _ (.body (.inl hk) hs hm))

/-- What is left of the second side of a branch. -/
theorem thins_elseBranch (hk : n.kind = .ifStmt) :
    (n.slotProgram .elseBranch).Thins gone ((n.child? .elseBranch).toList.flatMap notes)
      (n.halfway d).nextId ((n.mapChildren change).slotProgram .elseBranch)
      (((n.mapChildren change).child? .elseBranch).toList.flatMap notes) :=
  thins_slot hg (fun p m hs hm => hpart p m _ (.elseBranch hk hs hm))

include hd hkind

/-- What is left of children that are run through. -/
theorem thins_children (hruns : n.RunsChildren) :
    (Stmt.block (n.children.map program)).Thins gone (n.children.flatMap notes) (n.begun d).nextId
      (.block ((n.mapChildren change).children.map program))
      ((n.mapChildren change).children.flatMap notes) := by
  refine (thinsAll_mapIdx hkind ?_).thins hg
  intro p m hm
  have hchild := hpart p m _ (.child hruns hm)
  rwa [(wellFormed_child hd n p).2, ← nextId_begun_eq] at hchild

/-- What is left of a block or an `else`. -/
theorem thins_sequence (hk : n.kind = .compoundBlock ∨ n.kind = .elseClause) :
    Thins gone n d.nextId (n.mapChildren change) := by
  have hk' : (n.mapChildren change).kind = .compoundBlock ∨
      (n.mapChildren change).kind = .elseClause := hk
  rw [Thins, program_sequence hk, program_sequence hk', notes_of_sequence hk,
    notes_of_sequence hk']
  by_cases hruns : n.RunsChildren
  · have hchildren := thins_children hg hd hkind hpart hruns
    rw [begun_of_sequence hk] at hchildren
    rwa [hruns.members, (runsChildren_mapChildren_iff.2 hruns).members]
  · -- the body of an `else` is its only member
    obtain ⟨helse, body, hb⟩ : n.kind = .elseClause ∧ ∃ body, n.child? .body = some body := by
      unfold RunsChildren at hruns
      rcases hk with hk | hk <;> simp_all [Option.ne_none_iff_exists']
    obtain ⟨p, hs, hp⟩ := exists_of_child? hb
    have hmembers : n.members = [body] := by rw [members, helse, hb]
    have hmembers' : (n.mapChildren change).members = [change p body] := by
      have helse' : (n.mapChildren change).kind = .elseClause := helse
      have hb' : (n.mapChildren change).child? .body = some (change p body) := by
        rw [child?_mapChildren, hs, Option.bind_some, hp, Option.map_some]
      rw [members, helse', hb']
    have hbody := hpart p body _ (.body (.inr helse) hs hp)
    rw [begun_of_sequence hk] at hbody
    rw [hmembers, hmembers']
    exact (Stmt.ThinsAll.cons hbody (isFunction_eq (hkind p body)) (.nil _)).thins hg

end Parts

section Header

variable (hg : Nonneg gone) (hd : d.WellFormed)
  (hheader : n.kind.flowKind?.isSome → gone d.nextId = false)
  (hsame : SaysSame (n.mapChildren change) n)
  (hpart : ∀ p m e, n.Below d p m e → Thins gone m e.nextId (change p m))

include hg hheader hsame

/-- A step stays as it is. -/
theorem thins_step (hk : n.kind.isStep = true) :
    Thins gone n d.nextId (n.mapChildren change) := by
  have hk' : (n.mapChildren change).kind.isStep = true := hk
  have hflow : n.kind.flowKind?.isSome := by
    cases h : n.kind <;> simp_all [Kind.isStep, Kind.flowKind?, Kind.loopForm?]
  have hflow' : (n.mapChildren change).kind.flowKind?.isSome := hflow
  have hprogram : (n.mapChildren change).program = n.program := by
    rw [program_step hk, program_step hk', hsame.label_eq, hsame.kind]
  have hnotes : (n.mapChildren change).notes = n.notes := by
    rw [notes_of_flowKind? hflow, notes_of_flowKind? hflow', visited_of_step hk,
      visited_of_step hk', hsame.malformed?_eq]
  rw [Thins, hprogram, hnotes]
  apply Thins.refl hg n
  intro id hle hlt
  rw [program_step hk, Stmt.size] at hlt
  obtain rfl : id = d.nextId := by omega
  exact hheader hflow

include hpart

/-- What is left of a loop. -/
theorem thins_loop {form : LoopForm} (hk : n.kind.loopForm? = some form) :
    Thins gone n d.nextId (n.mapChildren change) := by
  have hk' : (n.mapChildren change).kind.loopForm? = some form := hk
  obtain ⟨hform, hgoverns⟩ := flowKind?_of_loop hk
  have hflow : n.kind.flowKind?.isSome := by rw [hform]; rfl
  have hflow' : (n.mapChildren change).kind.flowKind?.isSome := hflow
  have hbody := thins_body hg hpart hgoverns
  rw [nextId_begun hform] at hbody
  rw [Thins, program_loop hk, program_loop hk', notes_of_flowKind? hflow,
    notes_of_flowKind? hflow', visited_of_loop hk, visited_of_loop hk', bodyProgram_of_loop hk,
    bodyProgram_of_loop hk', hsame.label_eq, hsame.malformed?_eq]
  exact .loop hg (hheader hflow) form n.label n.malformed? hbody

include hd

/-- What is left of a branch. -/
theorem thins_ifStmt (hk : n.kind = .ifStmt) :
    Thins gone n d.nextId (n.mapChildren change) := by
  have hk' : (n.mapChildren change).kind = .ifStmt := hk
  have hform : n.kind.flowKind? = some .branch := by rw [hk]; rfl
  have hflow : n.kind.flowKind?.isSome := by rw [hform]; rfl
  have hflow' : (n.mapChildren change).kind.flowKind?.isSome := hflow
  have hyes := thins_body hg hpart (by rw [hk]; rfl)
  rw [nextId_begun hform] at hyes
  have hno := thins_elseBranch hg hpart hk
  rw [(wellFormed_halfway hd hk).2] at hno
  rw [Thins, program_ifStmt hk, program_ifStmt hk', notes_of_flowKind? hflow,
    notes_of_flowKind? hflow', visited_of_ifStmt hk, visited_of_ifStmt hk', List.flatMap_append,
    List.flatMap_append, hsame.label_eq, hsame.malformed?_eq]
  exact .branch hg (hheader hflow) n.label n.malformed? hyes hno

/-- What is left of a function. -/
theorem thins_functionDef (hkind : ∀ p m, (change p m).kind = m.kind)
    (hk : n.kind = .functionDef) : Thins gone n d.nextId (n.mapChildren change) := by
  have hk' : (n.mapChildren change).kind = .functionDef := hk
  have hform : n.kind.flowKind? = some .function := by rw [hk]; rfl
  have hflow : n.kind.flowKind?.isSome := by rw [hform]; rfl
  have hflow' : (n.mapChildren change).kind.flowKind?.isSome := hflow
  rw [Thins, program_functionDef hk, program_functionDef hk', notes_of_flowKind? hflow,
    notes_of_flowKind? hflow', hsame.label_eq, hsame.malformed?_eq]
  refine .function hg (hheader hflow) n.label n.malformed? ?_
  rw [← nextId_begun hform]
  by_cases hruns : n.RunsChildren
  · have hruns' : (n.mapChildren change).RunsChildren := runsChildren_mapChildren_iff.2 hruns
    rw [hruns.bodyProgram hk, hruns'.bodyProgram hk', hruns.visited, hruns'.visited]
    exact thins_children hg hd hkind hpart hruns
  · have hruns' : ¬(n.mapChildren change).RunsChildren := mt runsChildren_mapChildren_iff.1 hruns
    have hslots : n.kind.visitedSlots = [.body] := by rw [hk]; rfl
    have hslots' : (n.mapChildren change).kind.visitedSlots = [.body] := hslots
    rw [bodyProgram_of_not_runsChildren hruns hk, bodyProgram_of_not_runsChildren hruns' hk',
      visited_of_not_runsChildren hruns, visited_of_not_runsChildren hruns', hslots, hslots',
      List.flatMap_singleton, List.flatMap_singleton]
    exact thins_body hg hpart (by rw [hk]; rfl)

end Header

/-- Where all visited children are thinned out, so is the node. -/
theorem thins_mapChildren (hg : Nonneg gone) (hd : d.WellFormed)
    (hself : ∀ id, d.nextId ≤ id → id < d.nextId + n.self.length → gone id = false)
    (htext : ∀ p m, (change p m).text = m.text) (hkind : ∀ p m, (change p m).kind = m.kind)
    (hpart : ∀ p m e, n.Below d p m e → Thins gone m e.nextId (change p m)) :
    Thins gone n d.nextId (n.mapChildren change) := by
  have hsame := saysSame_mapChildren htext n
  have hheader : n.kind.flowKind?.isSome → gone d.nextId = false := by
    intro hflow
    refine hself _ (Int.le_refl _) ?_
    rw [self_of_flowKind? hflow, List.length_singleton]
    omega
  rcases n.kind_cases with hk | hk | hk | ⟨form, hk⟩ | hk
  · exact thins_step hg hheader hsame hk
  · exact thins_sequence hg hd hkind hpart hk
  · exact thins_ifStmt hg hd hheader hsame hpart hk
  · exact thins_loop hg hheader hsame hpart hk
  · exact thins_functionDef hg hd hheader hsame hpart hkind hk

end MapChildren

/-! ## Trees without a function -/

/-- What a child takes where all children are run through. -/
theorem RunsChildren.takes_iff (hruns : n.RunsChildren) (hf : n.children[k]? = some f) {id : Int} :
    n.Takes d [k] id ↔
      f.Makes (layAll ((n.children.take k).map program) (n.begun d) {}).1 id := by
  rw [takes_cons_iff]
  constructor
  · rintro ⟨m, e, hb, m', e', halong, hid⟩
    obtain ⟨rfl, rfl⟩ := along_nil_iff.1 halong
    cases hb with
    | child _ hm =>
      obtain rfl : m' = f := Option.some.inj (hm.symm.trans hf)
      exact hid
    | body kind hs hm => exact absurd hm (by rw [hruns.not_body kind hs]; simp)
    | elseBranch kind => exact absurd kind hruns.not_ifStmt
  · intro hid
    exact ⟨f, _, .child hruns hf, f, _, .here f _, hid⟩

/-- A block without a function is what is left of the block. -/
theorem thins_withoutChild (hg : Nonneg gone) (hd : d.WellFormed) (hk : n.kind = .compoundBlock)
    (hf : n.children[k]? = some f) (hfunction : f.kind = .functionDef)
    (hgone : ∀ id, n.Makes d id → (gone id = true ↔ n.Takes d [k] id)) :
    Thins gone n d.nextId (n.withoutChild k) := by
  have hk' : (n.withoutChild k).kind = .compoundBlock := hk
  have hsplit := eq_append_of_getElem? hf
  have hchildren : (n.withoutChild k).children = n.children.take k ++ n.children.drop (k + 1) :=
    List.eraseIdx_eq_take_drop_succ ..
  have hruns : n.RunsChildren := .inl hk
  have hruns' : (n.withoutChild k).RunsChildren := .inl hk'
  have hsize : n.program.size = Stmt.sizeAll (n.children.map program) := by
    rw [size_program, self_of_sequence (.inl hk), hruns.visited, List.length_nil, Nat.zero_add]
  rw [sizeAll_split hsplit] at hsize
  -- the ids of the function are gone, and no others
  have hgone' : ∀ id, d.nextId ≤ id → id < d.nextId + n.program.size → (gone id = true ↔
      d.nextId + Stmt.sizeAll ((n.children.take k).map program) ≤ id ∧
        id < d.nextId + Stmt.sizeAll ((n.children.take k).map program) + f.program.size) := by
    intro id hle hlt
    obtain ⟨hwf, hnext⟩ := wellFormed_child hd n k
    rw [hgone id ((makes_iff_lt hd n).2 ⟨hle, hlt⟩), hruns.takes_iff hf, makes_iff_lt hwf, hnext,
      self_of_sequence (.inl hk), List.length_nil, Int.natCast_zero, Int.add_zero]
  have hkept : ∀ id, d.nextId ≤ id → id < d.nextId + n.program.size →
      (id < d.nextId + Stmt.sizeAll ((n.children.take k).map program) ∨
        d.nextId + Stmt.sizeAll ((n.children.take k).map program) + f.program.size ≤ id) →
          gone id = false := by
    intro id hle hlt hid
    by_contra hne
    have := (hgone' id hle hlt).1 (by simpa using hne)
    omega
  have hall : Stmt.ThinsAll gone ((n.children.take k ++ f :: n.children.drop (k + 1)).map program)
      ((n.children.take k ++ f :: n.children.drop (k + 1)).flatMap notes) d.nextId
      ((n.children.take k ++ n.children.drop (k + 1)).map program)
      ((n.children.take k ++ n.children.drop (k + 1)).flatMap notes) := by
    rw [List.map_append, List.map_append, List.flatMap_append, List.flatMap_append, List.map_cons,
      List.flatMap_cons]
    refine (thinsAll_self hg _ ?_).append (.drop ?_ f.length_notes ?_ (thinsAll_self hg _ ?_))
    · intro id hle hlt
      exact hkept id hle (by omega) (.inl hlt)
    · rw [isFunction_program_eq, hfunction]
      rfl
    · intro id hle hlt
      exact (hgone' id (by omega) (by omega)).2 ⟨hle, hlt⟩
    · intro id hle hlt
      exact hkept id (by omega) (by omega) (.inr hle)
  rw [← hsplit] at hall
  rw [Thins, program_sequence (.inl hk), program_sequence (.inl hk'), notes_of_sequence (.inl hk),
    notes_of_sequence (.inl hk'), hruns.members, hruns'.members, hchildren]
  exact hall.thins hg

theorem kind_withoutChild (k : Nat) (n : Ast) : (n.withoutChild k).kind = n.kind := rfl

theorem text_withoutChild (k : Nat) (n : Ast) : (n.withoutChild k).text = n.text := rfl

/-- A tree without a function is what is left of the tree. -/
theorem thins_modifyAt (hg : Nonneg gone) (hd : d.WellFormed) (hat : n.at? path = some block)
    (hk : block.kind = .compoundBlock) (hf : block.children[k]? = some f)
    (hfunction : f.kind = .functionDef)
    (hgone : ∀ id, n.Makes d id → (gone id = true ↔ n.Takes d (path ++ [k]) id)) :
    Thins gone n d.nextId (n.modifyAt (withoutChild k) path) := by
  induction path generalizing n d with
  | nil =>
    obtain rfl : n = block := Option.some.inj hat
    exact thins_withoutChild hg hd hk hf hfunction hgone
  | cons p path ih =>
    obtain ⟨m, hm, hat⟩ := at?_cons_eq_some_iff.1 hat
    have hkept : ∀ id, n.Makes d id → ¬n.Takes d (p :: path ++ [k]) id → gone id = false := by
      intro id hid htakes
      by_contra hne
      exact htakes ((hgone id hid).1 (by simpa using hne))
    rw [modifyAt_cons]
    apply thins_mapChildren hg hd
    · intro id hle hlt
      have hsize := n.size_program
      exact hkept id ((makes_iff_lt hd n).2 ⟨hle, by omega⟩) (not_takes_self hd hlt)
    · intro q c
      split_ifs
      · exact text_modifyAt (text_withoutChild k) path c
      · rfl
    · intro q c
      split_ifs
      · exact kind_modifyAt (kind_withoutChild k) path c
      · rfl
    · intro q c e hb
      have he := (hb.interval hd).1
      by_cases hq : q = p
      · subst hq
        obtain rfl : c = m := Option.some.inj (hb.getElem?.symm.trans hm)
        rw [if_pos rfl]
        refine ih he hat ?_
        intro id hid
        rw [hgone id (hb.makes hd hid).1]
        exact hb.takes_iff hd hid
      · -- nothing is gone from another child
        rw [if_neg hq]
        refine Thins.refl hg c ?_
        intro id hle hlt
        have hid := (makes_iff_lt he c).2 ⟨hle, hlt⟩
        exact hkept id (hb.makes hd hid).1 (hb.not_takes hd hq hid)

/-! ## No edge crosses the border of a function -/

/-- No edge joins a node that is made while a function in a block is visited with any other. -/
theorem Visit.makes_source_iff {limit : Int} {chart : Flowchart}
    (h : (Flowchart.ofAst limit root).outcome = .ok chart) (hv : root.Visit block d)
    (hk : block.kind = .compoundBlock) (hfunction : f.kind = .functionDef)
    (hb : block.Below d k f e) : ∀ edge ∈ chart.edges, f.Makes e edge.source ↔ f.Makes e edge.target
    := by
  obtain ⟨hd, hvisit⟩ := hv.toStmt
  have hruns : block.RunsChildren := .inl hk
  have hborder := Flowchart.borders h f e (hb.visit hv)
  have hf := hb.getElem?
  have he := (hb.interval hd).1
  have hnext : e.nextId = d.nextId + Stmt.sizeAll ((block.children.take k).map program) := by
    cases hb with
    | child =>
      rw [(wellFormed_child hd block k).2, self_of_sequence (.inl hk), List.length_nil,
        Int.natCast_zero, Int.add_zero]
    | body kind hs hm => exact absurd hm (by rw [hruns.not_body kind hs]; simp)
    | elseBranch kind => exact absurd kind hruns.not_ifStmt
  rw [program_sequence (.inl hk), hruns.members, eq_append_of_getElem? hf, List.map_append,
    List.map_cons] at hvisit
  obtain ⟨malformed, rfl⟩ := Flowchart.eq_ofProgram_of_ofAst h
  intro edge hedge
  refine ⟨hborder.function hfunction edge hedge, ?_⟩
  rw [(Flowchart.ofProgram_eq root.program malformed).2] at hedge
  rw [makes_iff he, makes_iff he, hnext]
  exact hvisit.owns_source_of_function (by rw [isFunction_program_eq, hfunction]; rfl) hedge

end Ast

/-! ## Flowcharts without a function -/

/-- What is left of a list of notes goes with the nodes that are left. -/
theorem filterMap_keep {gone : Int → Bool} {lacks : Int → Option Malformed}
    {figures : List (FlowKind × String)} {notes : List (Option Malformed)} {i : Int}
    (hlen : figures.length = notes.length)
    (hlacks : ∀ k : Nat, lacks (i + k) = notes[k]?.join) :
    ((numberFrom i figures).filter (fun node => !gone node.id)).filterMap
        (fun node => lacks node.id) = (keep gone i notes).filterMap id := by
  induction notes generalizing i figures with
  | nil =>
    obtain rfl := List.length_eq_zero_iff.1 hlen
    rfl
  | cons note notes ih =>
    obtain ⟨figure, figures, rfl⟩ := List.exists_cons_of_length_eq_add_one hlen
    have hhead : lacks i = note := by simpa using hlacks 0
    have hlacks' : ∀ k : Nat, lacks (i + 1 + k) = notes[k]?.join := by
      intro k
      have hk := hlacks (k + 1)
      have hcast : i + ((k + 1 : Nat) : Int) = i + 1 + k := by omega
      rw [hcast] at hk
      simpa using hk
    have hrest := ih (Nat.succ.inj hlen) hlacks'
    rw [numberFrom_cons, keep]
    by_cases hgone : gone i = true
    · rw [if_pos hgone, List.filter_cons_of_neg (by simpa using hgone)]
      exact hrest
    · rw [if_neg hgone, List.filter_cons_of_pos (by simpa using hgone), List.filterMap_cons,
        List.filterMap_cons, hrest, hhead]
      rfl

namespace Flowchart

/-- A flowchart is another one without some of its nodes: the other nodes, edges and malformed nodes
    are there, in order, and the ids that are left are numbered anew. Of the malformed nodes those
    are there that belong to the nodes that are left: `lacks` says what the node lacks that a flow
    node stands for. -/
structure Without (chart rest : Flowchart) (gone : Int → Bool) (lacks : Int → Option Malformed) :
    Prop where
  nodes : rest.nodes = (chart.nodes.filter (fun node => !gone node.id)).map (·.renumber gone)
  edges : rest.edges = (chart.edges.filter (fun e => !gone e.source)).map (·.renumber gone)
  all_malformed : chart.malformed = chart.nodes.filterMap (fun node => lacks node.id)
  malformed : rest.malformed =
    (chart.nodes.filter (fun node => !gone node.id)).filterMap (fun node => lacks node.id)
  /-- An edge is left when both of its ends are, and gone when both are gone. -/
  closed : ∀ e ∈ chart.edges, gone e.source = gone e.target
  /-- The ids that are left keep their order. -/
  increasing : ∀ id id', gone id = false → gone id' = false →
    (renumber gone id < renumber gone id' ↔ id < id')

/-- What is left of a tree is drawn as what is left of its flowchart. -/
theorem without_of_thins {gone : Int → Bool} (hg : Nonneg gone) {root root' : Ast}
    (h : Ast.Thins gone root 0 root')
    (hclosed : ∀ e ∈ (ofProgram root.program (root.notes.filterMap id)).edges,
      gone e.source = gone e.target) :
    (ofProgram root.program (root.notes.filterMap id)).Without
      (ofProgram root'.program (root'.notes.filterMap id)) gone root.lacksAt := by
  obtain ⟨hregion, -, hnotes⟩ := h
  rw [renumber_zero] at hregion
  have hlen : root.program.listing.length = root.notes.length := by
    rw [Stmt.length_listing, Ast.length_notes]
  have hlacks : ∀ k : Nat, root.lacksAt (0 + k) = root.notes[k]?.join := by
    intro k
    rw [Ast.lacksAt, Int.zero_add, Int.toNat_natCast]
  refine ⟨?_, ?_, ?_, ?_, hclosed, ?_⟩
  · rw [(ofProgram_eq ..).1, (ofProgram_eq ..).1]
    exact hregion.nodes
  · rw [(ofProgram_eq ..).2, (ofProgram_eq ..).2]
    exact hregion.edges
  · have hall := @filterMap_keep (fun _ => false) _ _ _ 0 hlen hlacks
    rw [keep_eq_self (fun _ _ _ => rfl)] at hall
    simp only [Bool.not_false, List.filter_true] at hall
    rw [nodes_ofProgram]
    exact hall.symm
  · rw [nodes_ofProgram, filterMap_keep hlen hlacks, ← hnotes]
    rfl
  · intro id id' hid hid'
    refine ⟨?_, renumber_lt hg hid⟩
    intro hlt
    by_contra hle
    have := renumber_le hg (show id' ≤ id by omega)
    omega

/-- A function definition in a visited block, at whatever place, stands apart. No edge joins a node
    that is made while the function is visited with any other node. When the function is deleted
    from the block there is still a flowchart, and it is the same but for what was made in the
    visits of the function. -/
theorem function_detached {limit : Int} {root block f : Ast} {chart : Flowchart} {d : Draft}
    {path : List Nat} {k : Nat} (h : (ofAst limit root).outcome = .ok chart)
    (hblock : root.Along {} path block d) (hk : block.kind = .compoundBlock)
    (hf : block.children[k]? = some f) (hfunction : f.kind = .functionDef) :
    (∀ e, root.Along {} (path ++ [k]) f e →
      ∀ edge ∈ chart.edges, f.Makes e edge.source ↔ f.Makes e edge.target) ∧
    ∃ (gone : Int → Bool) (lacks : Int → Option Malformed) (rest : Flowchart),
      (∀ id, gone id = true ↔ root.Takes {} (path ++ [k]) id) ∧
      (∀ n e, root.Visit n e → n.kind.flowKind?.isSome → lacks e.nextId = n.malformed?) ∧
      (ofAst limit (root.modifyAt (Ast.withoutChild k) path)).outcome = .ok rest ∧
      chart.Without rest gone lacks := by
  classical
  -- whatever is visited at the place of the function is the function, as a child of the block
  have hvisits : ∀ f' e, root.Along {} (path ++ [k]) f' e →
      f' = f ∧ ∃ c, root.Visit block c ∧ block.Below c k f e := by
    intro f' e halong
    obtain ⟨m, c, hm, hb⟩ := halong.exists_below
    obtain rfl : m = block := Option.some.inj (hm.at?.symm.trans hblock.at?)
    obtain rfl : f' = f := Option.some.inj (hb.getElem?.symm.trans hf)
    exact ⟨rfl, c, hm.visit .root, hb⟩
  have hclosed : ∀ e, root.Along {} (path ++ [k]) f e →
      ∀ edge ∈ chart.edges, f.Makes e edge.source ↔ f.Makes e edge.target := by
    intro e halong
    obtain ⟨-, c, hv, hb⟩ := hvisits f e halong
    exact hv.makes_source_iff h hk hfunction hb
  have htakes : ∀ edge ∈ chart.edges, root.Takes {} (path ++ [k]) edge.source ↔
      root.Takes {} (path ++ [k]) edge.target := by
    intro edge hedge
    constructor
    · rintro ⟨f', e, halong, hid⟩
      obtain ⟨rfl, -⟩ := hvisits f' e halong
      exact ⟨f', e, halong, (hclosed e halong edge hedge).1 hid⟩
    · rintro ⟨f', e, halong, hid⟩
      obtain ⟨rfl, -⟩ := hvisits f' e halong
      exact ⟨f', e, halong, (hclosed e halong edge hedge).2 hid⟩
  obtain ⟨hreaches, rfl⟩ := outcome_eq_ok_iff.1 h
  let gone : Int → Bool := fun id => decide (root.Takes {} (path ++ [k]) id)
  have hgone : ∀ id, gone id = true ↔ root.Takes {} (path ++ [k]) id := fun id => decide_eq_true_iff
  have hg : Nonneg gone := by
    intro id hid
    exact ((Ast.makes_iff_lt .empty root).1 (((hgone id).1 hid).makes .empty)).1
  have hreaches' : (root.modifyAt (Ast.withoutChild k) path).reaches (limit + 1).toNat = false := by
    by_contra hne
    have := Ast.reaches_modifyAt hblock.at? (Ast.reaches_withoutChild hk k) (by simpa using hne)
    rw [hreaches] at this
    exact Bool.false_ne_true this
  refine ⟨hclosed, gone, root.lacksAt, _, hgone, fun n e hv hflow => hv.lacksAt_eq hflow,
    outcome_eq_ok_iff.2 ⟨hreaches', rfl⟩, without_of_thins hg ?_ ?_⟩
  · exact Ast.thins_modifyAt hg .empty hblock.at? hk hf hfunction (fun id _ => hgone id)
  · intro edge hedge
    rw [Bool.eq_iff_iff, hgone, hgone]
    exact htakes edge hedge

end Flowchart

/-- The function `void f() { while () { void () { return; } } x; }` as a lenient reader
    gives it: the body of the loop holds nothing but a function without a name. -/
def Ast.nestedFunction : Ast where
  kind := .functionDef
  name := some "f"
  slots := { body := some 0 }
  children := [{
    kind := .compoundBlock
    children := [
      { kind := .whileLoop
        slots := { body := some 0 }
        children := [{
          kind := .compoundBlock
          children := [{ kind := .functionDef, children := [{ kind := .returnStmt }] }] }] },
      { kind := .other, text := "x;" }] }]

theorem Ast.along_nestedFunction : ∃ block d, nestedFunction.Along {} [0, 0, 0] block d ∧
    block.kind = .compoundBlock ∧
    block.children[0]? = some { kind := .functionDef, children := [{ kind := .returnStmt }] } :=
  ⟨_, _, .further (.body (.inl rfl) rfl rfl) (.further (.child (.inl rfl) rfl)
    (.further (.body (.inl rfl) rfl rfl) (.here _ _))), rfl, rfl⟩

/-- Without the function the body of the loop is empty; it was passed over before as well. -/
theorem Flowchart.function_detached_nestedFunction : ∃ chart rest gone lacks,
    (Flowchart.ofAst 5 Ast.nestedFunction).outcome = .ok chart ∧
      (Flowchart.ofAst 5 (Ast.nestedFunction.modifyAt (Ast.withoutChild 0) [0, 0, 0])).outcome =
        .ok rest ∧
      chart.Without rest gone lacks ∧
      chart.edges = [⟨2, 3, .next⟩, ⟨1, 1, .loop⟩, ⟨1, 4, .no⟩, ⟨0, 1, .next⟩] ∧
      rest.edges = [⟨1, 1, .loop⟩, ⟨1, 2, .no⟩, ⟨0, 1, .next⟩] := by
  obtain ⟨block, d, halong, hk, hf⟩ := Ast.along_nestedFunction
  have h : (Flowchart.ofAst 5 Ast.nestedFunction).outcome = .ok _ := rfl
  obtain ⟨-, gone, lacks, rest, -, -, hrest, hwithout⟩ :=
    Flowchart.function_detached h halong hk hf rfl
  refine ⟨_, rest, gone, lacks, h, hrest, hwithout, rfl, ?_⟩
  cases hrest
  rfl

end FlowSketch
