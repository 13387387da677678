import FlowSketch.Proofs.Chart.Border
import FlowSketch.Proofs.Chart.Drawn
import FlowSketch.Proofs.Ast.Likeness

/-!
# Paths

A place in a tree is a path: the positions of the children that lead to it from the root. A place
may be visited more than once, as the body and as the `else` of the same branch, and each time at
another draft.

* `Ast.at?`, `Ast.modifyAt` — the node at a place, and the tree with another node there.
* `Ast.withoutChild` — a node without one of its children.
* `Ast.Below`, `Ast.Along` — the visits of a child, and of a place.
* `Ast.Takes` — the ids of the nodes that are made while a place is visited.
* `Ast.mapChildren` — a node with its children replaced one by one.

Results:

* `Ast.visit_iff_along`: every visit is the visit of a place.
* `Ast.Below.interval`: the visit of a child takes ids of the visit of the node.
* `Ast.Below.unique`: what different visits of children make has different ids.
* `Ast.takes_cons_iff`: so each id of a place is made in one of them.
* `Ast.reaches_modifyAt_add`: a tree changed at a place is visited deeper by no more steps than the
  node there is.
-/

namespace FlowSketch

/-- The slots of which a node of that kind visits what fills them. -/
def Kind.visitedSlots : Kind → List Slot
  | ifStmt => [.body, .elseBranch]
  | functionDef | elseClause | forLoop | whileLoop | doWhile => [.body]
  | _ => []

namespace Ast

/-! ## Places -/

/-- The node at a place. -/
def at? : Ast → List Nat → Option Ast
  | n, [] => some n
  | n, p :: path => n.children[p]?.bind (·.at? path)

/-- The tree with the node at a place changed. -/
def modifyAt (change : Ast → Ast) : List Nat → Ast → Ast
  | [], n => change n
  | p :: path, n => { n with children := n.children.modify p (modifyAt change path) }

/-- The node without the child at a position. The children behind it move up, and a slot that held
    it is empty. -/
def withoutChild (k : Nat) (n : Ast) : Ast :=
  { n with
    children := n.children.eraseIdx k
    slots := n.slots.bind fun i =>
      if i = k then none else if k < i then some (i - 1) else some i }

/-! ## Visits of places -/

/-- Control runs through all children of the node, one after the other. -/
def RunsChildren (n : Ast) : Prop :=
  n.kind = .compoundBlock ∨
    ((n.kind = .elseClause ∨ n.kind = .functionDef) ∧ n.child? .body = none)

/-- The visits of the child at a position while `n` is visited at `d`, each with the draft that is
    there then. -/
inductive Below (n : Ast) (d : Draft) (p : Nat) (m : Ast) : Draft → Prop
  /-- The children of a sequence are visited one after the other. -/
  | child (runs : n.RunsChildren) (at_p : n.children[p]? = some m) :
    Below n d p m (layAll ((n.children.take p).map program) (n.begun d) {}).1
  /-- The body is visited after the header is made. -/
  | body (kind : n.kind.governs = true ∨ n.kind = .elseClause) (slot : n.slots.body = some p)
      (at_p : n.children[p]? = some m) : Below n d p m (n.begun d)
  /-- The second side of a branch is visited after the first. -/
  | elseBranch (kind : n.kind = .ifStmt) (slot : n.slots.elseBranch = some p)
      (at_p : n.children[p]? = some m) : Below n d p m (n.halfway d)

/-- The visits of a place while `n` is visited at `d`: the node there, and the draft that is there
    then. -/
inductive Along : Ast → Draft → List Nat → Ast → Draft → Prop
  | here (n : Ast) (d : Draft) : Along n d [] n d
  | further {n m f : Ast} {d e c : Draft} {p : Nat} {path : List Nat} :
    Below n d p m e → Along m e path f c → Along n d (p :: path) f c

/-- The id is that of a node that is made during a visit of the place. -/
def Takes (n : Ast) (d : Draft) (path : List Nat) (id : Int) : Prop :=
  ∃ f e, n.Along d path f e ∧ f.Makes e id

variable {root n m m' f : Ast} {d e e' c : Draft} {p q : Nat} {path : List Nat} {id : Int}

theorem RunsChildren.members (h : n.RunsChildren) : n.members = n.children := by
  rcases h with hk | ⟨hk | hk, hb⟩
  · rw [Ast.members, hk]
  · rw [Ast.members, hk, hb]
  · rw [Ast.members, hk, hb]

/-- The body of a function whose children are run through. -/
theorem RunsChildren.bodyProgram (h : n.RunsChildren) (hk : n.kind = .functionDef) :
    n.bodyProgram = .block (n.children.map program) := by
  rcases h with hk' | ⟨-, hb⟩
  · rw [hk] at hk'
    exact absurd hk' (by decide)
  · rw [Ast.bodyProgram, hb, Ast.members, hk, hb]

/-- The body of a function whose children are not run through. -/
theorem bodyProgram_of_not_runsChildren (h : ¬n.RunsChildren) (hk : n.kind = .functionDef) :
    n.bodyProgram = n.slotProgram .body := by
  have hb : n.child? .body ≠ none := fun hb => h (.inr ⟨.inr hk, hb⟩)
  obtain ⟨body, hb⟩ := Option.ne_none_iff_exists'.1 hb
  rw [bodyProgram_of_child hb, slotProgram_of_child hb]

theorem eq_append_of_getElem? {ns : List Ast} (h : ns[p]? = some m) :
    ns = ns.take p ++ m :: ns.drop (p + 1) := by
  obtain ⟨hp, rfl⟩ := List.getElem?_eq_some_iff.1 h
  rw [← List.drop_eq_getElem_cons hp, List.take_append_drop]

theorem child?_body_of_slot (hs : n.slots.body = some p) (hm : n.children[p]? = some m) :
    n.child? .body = some m := by
  simp [child?, Slots.get, hs, hm]

theorem child?_elseBranch_of_slot (hs : n.slots.elseBranch = some p)
    (hm : n.children[p]? = some m) : n.child? .elseBranch = some m := by
  simp [child?, Slots.get, hs, hm]

/-- What fills a slot stands at some position. -/
theorem exists_of_child? {slot : Slot} (h : n.child? slot = some m) :
    ∃ p, n.slots.get slot = some p ∧ n.children[p]? = some m :=
  Option.bind_eq_some_iff.1 h

theorem Below.getElem? (h : n.Below d p m e) : n.children[p]? = some m := by
  cases h <;> assumption

theorem Along.at? (h : n.Along d path f c) : n.at? path = some f := by
  induction h with
  | here n d => rfl
  | further hb _ ih => rw [Ast.at?, hb.getElem?, Option.bind_some, ih]

/-- The visit of a child of a visited node. -/
theorem Below.visit (hv : root.Visit n d) (h : n.Below d p m e) : root.Visit m e := by
  cases h with
  | child runs hp => exact hv.member (by rw [runs.members]; exact eq_append_of_getElem? hp)
  | body kind hs hp =>
    rcases kind with hk | hk
    · exact hv.body hk (child?_body_of_slot hs hp)
    · have hm : n.members = [] ++ m :: [] := by
        rw [members, hk, child?_body_of_slot hs hp]
        rfl
      exact hv.member hm
  | elseBranch kind hs hp => exact hv.elseBranch kind (child?_elseBranch_of_slot hs hp)

theorem Along.visit (hv : root.Visit n d) (h : n.Along d path f c) : root.Visit f c := by
  induction h with
  | here n d => exact hv
  | further hb _ ih => exact ih (hb.visit hv)

/-- A place of a place is a place. -/
theorem Along.snoc (h : n.Along d path f c) (hb : f.Below c p m e) :
    n.Along d (path ++ [p]) m e := by
  induction h with
  | here n d => exact .further hb (.here m e)
  | further hb' _ ih => exact .further hb' (ih hb)

theorem Along.exists_of_append {rest : List Nat} (h : n.Along d (path ++ rest) f c) :
    ∃ m e, n.Along d path m e ∧ m.Along e rest f c := by
  induction path generalizing n d with
  | nil => exact ⟨n, d, .here n d, h⟩
  | cons p path ih =>
    rw [List.cons_append] at h
    cases h with
    | further hb h =>
      obtain ⟨m, e, hm, hrest⟩ := ih h
      exact ⟨m, e, .further hb hm, hrest⟩

theorem along_nil_iff : n.Along d [] f c ↔ f = n ∧ c = d := by
  constructor
  · intro h
    cases h
    exact ⟨rfl, rfl⟩
  · rintro ⟨rfl, rfl⟩
    exact .here f c

theorem along_cons_iff : n.Along d (p :: path) f c ↔
    ∃ m e, n.Below d p m e ∧ m.Along e path f c := by
  constructor
  · intro h
    cases h with
    | further hb h => exact ⟨_, _, hb, h⟩
  · rintro ⟨m, e, hb, h⟩
    exact .further hb h

/-- Every visit of a place below another is made during a visit of that one. -/
theorem Along.exists_below (h : n.Along d (path ++ [p]) f e) :
    ∃ m c, n.Along d path m c ∧ m.Below c p f e := by
  obtain ⟨m, c, hm, hrest⟩ := h.exists_of_append
  obtain ⟨m', e', hb, hlast⟩ := along_cons_iff.1 hrest
  obtain ⟨rfl, rfl⟩ := along_nil_iff.1 hlast
  exact ⟨m, c, hm, hb⟩

/-- A member of a sequence is a child, visited where the sequence has come to. -/
theorem exists_below_of_members {before after : List Ast} (hm : n.members = before ++ m :: after) :
    ∃ p, n.Below d p m (layAll (before.map program) (n.begun d) {}).1 := by
  by_cases hruns : n.RunsChildren
  · rw [hruns.members] at hm
    have hp : n.children[before.length]? = some m := by simp [hm]
    have htake : n.children.take before.length = before := by simp [hm]
    have hbelow := Below.child (d := d) hruns hp
    rw [htake] at hbelow
    exact ⟨_, hbelow⟩
  · -- the only other sequence is an `else` with a body
    have helse : n.kind = .elseClause ∧ n.child? .body = some m ∧ before = [] := by
      unfold members at hm
      unfold RunsChildren at hruns
      cases hk : n.kind <;> cases hb : n.child? .body <;> simp_all
      cases before <;> simp_all
    obtain ⟨hk, hb, rfl⟩ := helse
    obtain ⟨p, hs, hp⟩ := exists_of_child? hb
    exact ⟨p, .body (.inr hk) hs hp⟩

/-- Every visit is the visit of a place. -/
theorem visit_iff_along : root.Visit n d ↔ ∃ path, root.Along {} path n d := by
  constructor
  · intro h
    induction h with
    | root => exact ⟨[], .here root {}⟩
    | member _ hm ih =>
      obtain ⟨path, h⟩ := ih
      obtain ⟨p, hb⟩ := exists_below_of_members hm
      exact ⟨_, h.snoc hb⟩
    | body _ hk hm ih =>
      obtain ⟨path, h⟩ := ih
      obtain ⟨p, hs, hp⟩ := exists_of_child? hm
      exact ⟨_, h.snoc (.body (.inl hk) hs hp)⟩
    | elseBranch _ hk hm ih =>
      obtain ⟨path, h⟩ := ih
      obtain ⟨p, hs, hp⟩ := exists_of_child? hm
      exact ⟨_, h.snoc (.elseBranch hk hs hp)⟩
  · rintro ⟨path, h⟩
    exact h.visit .root

/-! ## The ids of a place -/

/-- The ids of a visit count up from the first that is free, one for each node of the program. -/
theorem makes_iff_lt (hd : d.WellFormed) (n : Ast) {id : Int} :
    n.Makes d id ↔ d.nextId ≤ id ∧ id < d.nextId + n.program.size := by
  rw [makes_iff hd, Region.Owns, Stmt.region_start, Stmt.region_stop]

/-- The node itself and everything that is visited from it take the ids of its visit. -/
theorem size_program (n : Ast) :
    n.program.size = n.self.length + Stmt.sizeAll (n.visited.map program) := by
  rw [← length_drawn, drawn_eq, List.length_append, length_drawnAll]

theorem sizeAll_split {ns before after : List Ast} (h : ns = before ++ m :: after) :
    Stmt.sizeAll (ns.map program) = Stmt.sizeAll (before.map program) + m.program.size +
      Stmt.sizeAll (after.map program) := by
  rw [h, List.map_append, List.map_cons, Stmt.sizeAll_append, Stmt.sizeAll, Nat.add_assoc]

theorem RunsChildren.visited (h : n.RunsChildren) : n.visited = n.children := by
  rcases h with hk | ⟨hk | hk, hb⟩
  · rw [Ast.visited, hk]
  · simp only [Ast.visited, hk, bodyOrChildren, hb]
  · simp only [Ast.visited, hk, bodyOrChildren, hb]

/-- A node whose children are not run through visits what fills its slots. -/
theorem visited_of_not_runsChildren (h : ¬n.RunsChildren) :
    n.visited = n.kind.visitedSlots.flatMap (fun slot => (n.child? slot).toList) := by
  unfold RunsChildren at h
  cases hk : n.kind <;> cases hb : n.child? .body <;>
    simp_all [Ast.visited, bodyOrChildren, Kind.visitedSlots]

theorem wellFormed_child (hd : d.WellFormed) (n : Ast) (p : Nat) :
    (layAll ((n.children.take p).map program) (n.begun d) {}).1.WellFormed ∧
      (layAll ((n.children.take p).map program) (n.begun d) {}).1.nextId =
        d.nextId + n.self.length + Stmt.sizeAll ((n.children.take p).map program) := by
  have h := (wellFormed_begun hd n).layAll ((n.children.take p).map program)
  rwa [nextId_begun_eq] at h

/-- The visit of a child is at a well-formed draft, and takes ids behind that of the node itself. -/
theorem Below.interval (hd : d.WellFormed) (h : n.Below d p m e) :
    e.WellFormed ∧ d.nextId + n.self.length ≤ e.nextId ∧
      e.nextId + m.program.size ≤ d.nextId + n.program.size := by
  rw [size_program n]
  cases h with
  | child runs hp =>
    obtain ⟨hwf, hnext⟩ := wellFormed_child hd n p
    rw [runs.visited, sizeAll_split (eq_append_of_getElem? hp)]
    exact ⟨hwf, by omega, by omega⟩
  | body kind hs hp =>
    have hsplit : ∃ rest, n.visited = m :: rest := by
      have hb := child?_body_of_slot hs hp
      rcases kind with hk | hk
      · exact visited_of_body hk hb
      · exact ⟨[], by simp only [visited, hk, bodyOrChildren, hb]⟩
    obtain ⟨rest, hvisited⟩ := hsplit
    rw [nextId_begun_eq, hvisited, List.map_cons, Stmt.sizeAll]
    exact ⟨wellFormed_begun hd n, by omega, by omega⟩
  | elseBranch kind hs hp =>
    obtain ⟨hwf, hnext⟩ := wellFormed_halfway hd kind
    have hself : n.self = [n] := self_of_flowKind? (by rw [kind]; rfl)
    have hbody : Stmt.sizeAll ((n.child? .body).toList.map program) =
        (n.slotProgram .body).size := by
      unfold slotProgram
      cases n.child? .body with
      | none => rfl
      | some body => simp [Stmt.sizeAll]
    have helse : Stmt.sizeAll ((n.child? .elseBranch).toList.map program) = m.program.size := by
      rw [child?_elseBranch_of_slot hs hp]
      simp [Stmt.sizeAll]
    rw [visited_of_ifStmt kind, hself, hnext, List.map_append, Stmt.sizeAll_append, hbody, helse,
      List.length_singleton]
    exact ⟨hwf, by omega, by omega⟩

/-- What a child takes is taken by the node, but not for itself. -/
theorem Below.makes (hd : d.WellFormed) (h : n.Below d p m e) (hid : m.Makes e id) :
    n.Makes d id ∧ d.nextId + n.self.length ≤ id := by
  obtain ⟨he, hle, hlt⟩ := h.interval hd
  rw [makes_iff_lt he] at hid
  rw [makes_iff_lt hd]
  exact ⟨by omega, by omega⟩

theorem sizeAll_take_le {ns : List Ast} (hp : ns[p]? = some m) (h : p < q) :
    Stmt.sizeAll ((ns.take p).map program) + m.program.size ≤
      Stmt.sizeAll ((ns.take q).map program) := by
  have hq : (ns.take q)[p]? = some m := by rw [List.getElem?_take_of_lt h, hp]
  have hfront : (ns.take q).take p = ns.take p := by
    rw [List.take_take, Nat.min_eq_left (Nat.le_of_lt h)]
  have hsplit := sizeAll_split (eq_append_of_getElem? hq)
  rw [hfront] at hsplit
  omega

/-- A node whose children are run through has nothing in a slot that is visited. -/
theorem RunsChildren.not_body (h : n.RunsChildren)
    (hk : n.kind.governs = true ∨ n.kind = .elseClause) (hs : n.slots.body = some p) :
    n.children[p]? = none := by
  rcases h with hk' | ⟨-, hb⟩
  · rcases hk with hk | hk <;> rw [hk'] at hk <;> exact absurd hk (by decide)
  · simpa [child?, Slots.get, hs] using hb

theorem RunsChildren.not_ifStmt (h : n.RunsChildren) : n.kind ≠ .ifStmt := by
  rintro hk
  rcases h with hk' | ⟨hk' | hk', -⟩ <;> rw [hk'] at hk <;> exact absurd hk (by decide)

/-- What different visits of children make has different ids. -/
theorem Below.unique (hd : d.WellFormed) (h : n.Below d p m e) (h' : n.Below d q m' e')
    (hid : m.Makes e id) (hid' : m'.Makes e' id) : p = q ∧ e = e' := by
  rw [makes_iff_lt (h.interval hd).1] at hid
  rw [makes_iff_lt (h'.interval hd).1] at hid'
  have hchild := fun p => (wellFormed_child hd n p).2
  cases h with
  | child runs hp =>
    cases h' with
    | child _ hq =>
      rw [hchild] at hid hid'
      rcases Nat.lt_trichotomy p q with hlt | rfl | hlt
      · have := sizeAll_take_le hp hlt
        omega
      · exact ⟨rfl, rfl⟩
      · have := sizeAll_take_le hq hlt
        omega
    | body kind hs hq => exact absurd hq (by rw [runs.not_body kind hs]; simp)
    | elseBranch kind => exact absurd kind runs.not_ifStmt
  | body kind hs hp =>
    cases h' with
    | child runs => exact absurd hp (by rw [runs.not_body kind hs]; simp)
    | body _ hs' => exact ⟨Option.some.inj (hs.symm.trans hs'), rfl⟩
    | elseBranch kind' =>
      -- the second side comes behind the first
      have hself : n.self = [n] := self_of_flowKind? (by rw [kind']; rfl)
      rw [(wellFormed_halfway hd kind').2, slotProgram_of_child (child?_body_of_slot hs hp)] at hid'
      rw [nextId_begun_eq, hself, List.length_singleton] at hid
      omega
  | elseBranch kind hs hp =>
    cases h' with
    | child runs => exact absurd kind runs.not_ifStmt
    | body _ hs' hq =>
      have hself : n.self = [n] := self_of_flowKind? (by rw [kind]; rfl)
      rw [(wellFormed_halfway hd kind).2, slotProgram_of_child (child?_body_of_slot hs' hq)] at hid
      rw [nextId_begun_eq, hself, List.length_singleton] at hid'
      omega
    | elseBranch _ hs' => exact ⟨Option.some.inj (hs.symm.trans hs'), rfl⟩

/-- What a place takes is taken by the tree. -/
theorem Along.makes (hd : d.WellFormed) (h : n.Along d path f c) (hid : f.Makes c id) :
    n.Makes d id := by
  induction h with
  | here n d => exact hid
  | further hb _ ih => exact (hb.makes hd (ih (hb.interval hd).1 hid)).1

theorem Takes.makes (hd : d.WellFormed) (h : n.Takes d path id) : n.Makes d id := by
  obtain ⟨f, c, halong, hid⟩ := h
  exact halong.makes hd hid

/-- Each id that a place takes is taken in the visit of one child. -/
theorem takes_cons_iff : n.Takes d (p :: path) id ↔
    ∃ m e, n.Below d p m e ∧ m.Takes e path id := by
  constructor
  · rintro ⟨f, c, h, hid⟩
    obtain ⟨m, e, hb, h⟩ := along_cons_iff.1 h
    exact ⟨m, e, hb, f, c, h, hid⟩
  · rintro ⟨m, e, hb, f, c, h, hid⟩
    exact ⟨f, c, .further hb h, hid⟩

/-- Of the ids of a child, those are taken that are taken there. -/
theorem Below.takes_iff (hd : d.WellFormed) (h : n.Below d p m e) (hid : m.Makes e id) :
    n.Takes d (p :: path) id ↔ m.Takes e path id := by
  rw [takes_cons_iff]
  constructor
  · rintro ⟨m', e', h', htakes⟩
    obtain rfl : m = m' := Option.some.inj (h.getElem?.symm.trans h'.getElem?)
    obtain ⟨-, rfl⟩ := h.unique hd h' hid (htakes.makes (h'.interval hd).1)
    exact htakes
  · intro htakes
    exact ⟨m, e, h, htakes⟩

/-- Nothing is taken in the visit of another child. -/
theorem Below.not_takes (hd : d.WellFormed) (h : n.Below d q m e) (hne : q ≠ p)
    (hid : m.Makes e id) : ¬n.Takes d (p :: path) id := by
  intro htakes
  obtain ⟨m', e', h', htakes⟩ := takes_cons_iff.1 htakes
  exact hne (h.unique hd h' hid (htakes.makes (h'.interval hd).1)).1

/-- Nor are the ids of the node itself. -/
theorem not_takes_self (hd : d.WellFormed) (hlt : id < d.nextId + n.self.length) :
    ¬n.Takes d (p :: path) id := by
  intro htakes
  obtain ⟨m, e, h, htakes⟩ := takes_cons_iff.1 htakes
  have := (h.makes hd (htakes.makes (h.interval hd).1)).2
  omega

/-! ## Children replaced one by one -/

/-- The node with its children replaced, each by its position. -/
def mapChildren (change : Nat → Ast → Ast) (n : Ast) : Ast :=
  { n with children := n.children.mapIdx change }

theorem modifyAt_cons (change : Ast → Ast) (p : Nat) (path : List Nat) (n : Ast) :
    n.modifyAt change (p :: path) =
      n.mapChildren (fun q m => if q = p then m.modifyAt change path else m) := by
  rw [modifyAt, mapChildren]
  congr 1
  apply List.ext_getElem?
  intro q
  rw [List.getElem?_modify, List.getElem?_mapIdx]
  by_cases h : q = p
  · subst h
    simp
  · simp [h, Ne.symm h]

section MapChildren

variable {change : Nat → Ast → Ast}

theorem child?_mapChildren (n : Ast) (slot : Slot) : (n.mapChildren change).child? slot =
    (n.slots.get slot).bind (fun p => n.children[p]?.map (change p)) := by
  simp only [child?, mapChildren, List.getElem?_mapIdx]

theorem child?_mapChildren_eq_none_iff {slot : Slot} :
    (n.mapChildren change).child? slot = none ↔ n.child? slot = none := by
  rw [child?_mapChildren, child?]
  cases n.slots.get slot <;> simp

/-- A node says the same when its children keep their texts. -/
theorem saysSame_mapChildren (htext : ∀ p m, (change p m).text = m.text) (n : Ast) :
    SaysSame (n.mapChildren change) n where
  kind := rfl
  text := rfl
  name := rfl
  line := rfl
  words slot := by
    rw [child?_mapChildren, child?]
    cases n.slots.get slot with
    | none => rfl
    | some p => cases h : n.children[p]? <;> simp [h, htext]

theorem runsChildren_mapChildren_iff : (n.mapChildren change).RunsChildren ↔ n.RunsChildren := by
  unfold RunsChildren
  rw [child?_mapChildren_eq_none_iff]
  rfl

/-- A visited child of the node with its children replaced replaces a visited child. -/
theorem mem_visited_mapChildren (h : m ∈ (n.mapChildren change).visited) :
    ∃ p c, n.children[p]? = some c ∧ c ∈ n.visited ∧ m = change p c := by
  by_cases hruns : n.RunsChildren
  · rw [(runsChildren_mapChildren_iff.2 hruns).visited] at h
    rw [hruns.visited]
    obtain ⟨p, hm⟩ := List.mem_iff_getElem?.1 h
    rw [mapChildren, List.getElem?_mapIdx] at hm
    obtain ⟨c, hc, rfl⟩ := Option.map_eq_some_iff.1 hm
    exact ⟨p, c, hc, List.mem_of_getElem? hc, rfl⟩
  · rw [visited_of_not_runsChildren (mt runsChildren_mapChildren_iff.1 hruns)] at h
    rw [visited_of_not_runsChildren hruns]
    obtain ⟨slot, hslot, hm⟩ := List.mem_flatMap.1 h
    rw [child?_mapChildren, Option.mem_toList] at hm
    obtain ⟨p, hs, hm⟩ := Option.bind_eq_some_iff.1 hm
    obtain ⟨c, hc, rfl⟩ := Option.map_eq_some_iff.1 hm
    refine ⟨p, c, hc, List.mem_flatMap.2 ⟨slot, hslot, ?_⟩, rfl⟩
    rw [child?, hs, Option.bind_some, hc]
    exact List.mem_singleton_self c

end MapChildren

/-! ## Trees changed at a place -/

section ModifyAt

variable {change : Ast → Ast}

theorem kind_modifyAt (hkind : ∀ a, (change a).kind = a.kind) (path : List Nat) (n : Ast) :
    (n.modifyAt change path).kind = n.kind := by
  cases path with
  | nil => exact hkind n
  | cons p path => rfl

theorem text_modifyAt (htext : ∀ a, (change a).text = a.text) (path : List Nat) (n : Ast) :
    (n.modifyAt change path).text = n.text := by
  cases path with
  | nil => exact htext n
  | cons p path => rfl

theorem at?_cons_eq_some_iff : n.at? (p :: path) = some f ↔
    ∃ m, n.children[p]? = some m ∧ m.at? path = some f :=
  Option.bind_eq_some_iff

/-- A tree changed at a place is visited deeper by no more steps than the node there is. -/
theorem reaches_modifyAt_add (more : Nat) (hat : n.at? path = some f)
    (hf : ∀ steps, (change f).reaches (steps + more) = true → f.reaches steps = true) {steps : Nat}
    (h : (n.modifyAt change path).reaches (steps + more) = true) : n.reaches steps = true := by
  induction path generalizing n steps with
  | nil =>
    obtain rfl : n = f := Option.some.inj hat
    exact hf steps h
  | cons p path ih =>
    obtain ⟨m, hm, hat⟩ := at?_cons_eq_some_iff.1 hat
    cases steps with
    | zero => rfl
    | succ steps =>
      rw [modifyAt_cons, Nat.add_right_comm] at h
      obtain ⟨m', hm', hreaches⟩ := reaches_succ_iff.1 h
      obtain ⟨q, c, hc, hvisited, rfl⟩ := mem_visited_mapChildren hm'
      refine reaches_succ_iff.2 ⟨c, hvisited, ?_⟩
      by_cases hq : q = p
      · obtain rfl : c = m := Option.some.inj (hc.symm.trans (hq ▸ hm))
        rw [if_pos hq] at hreaches
        exact ih hat hreaches
      · rw [if_neg hq] at hreaches
        exact reaches_of_add more hreaches

/-- It is visited no deeper, if the node there is not. -/
theorem reaches_modifyAt (hat : n.at? path = some f)
    (hf : ∀ steps, (change f).reaches steps = true → f.reaches steps = true) {steps : Nat}
    (h : (n.modifyAt change path).reaches steps = true) : n.reaches steps = true :=
  reaches_modifyAt_add 0 hat hf h

end ModifyAt

/-- A block without one of its children is visited no deeper. -/
theorem reaches_withoutChild (hk : n.kind = .compoundBlock) (k : Nat) (steps : Nat)
    (h : (n.withoutChild k).reaches steps = true) : n.reaches steps = true := by
  cases steps with
  | zero => rfl
  | succ steps =>
    obtain ⟨m, hm, hreaches⟩ := reaches_succ_iff.1 h
    have hkind : (n.withoutChild k).kind = .compoundBlock := hk
    rw [visited_of_sequence (.inl hkind), members, hkind] at hm
    refine reaches_succ_iff.2 ⟨m, ?_, hreaches⟩
    rw [visited_of_sequence (.inl hk), members, hk]
    exact List.mem_of_mem_eraseIdx hm

end Ast

end FlowSketch
