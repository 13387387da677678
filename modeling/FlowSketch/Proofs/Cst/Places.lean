import FlowSketch.Proofs.Cst.Calls
import FlowSketch.Proofs.Cst.Levels

/-!
# Places in a concrete tree

Reading a tree goes from a node to its parts, and every part has a place below the node: that of a
child for most of them, a place further down for a condition inside its wrappers and for the
operands of a call. Another node can be put there, and where the two are alike in the few things
that are looked at beforehand, all other parts stay what they are.

* `Cst.replaceAt` — the tree with another node at a place.
* `Cst.Below`, `Cst.Along` — the places of the parts of a node, and of all that is read below it.
* `Cst.Swapped` — the same node, or one in the place of another.
* `Cst.Alike`, `Cst.StandsIn` — what a node must share with the one whose place it takes.

Results:

* `Cst.exists_below_iff`: the parts of a node are the nodes that have a place below it.
* `Cst.forall_mem_parts_replaceAt`: a node that takes the place of a part leaves the other parts as
  they are.
* `Cst.replaceAt_append`: a replacement further down is one of the part on the way.
-/

namespace FlowSketch.Cst

/-! ## Places -/

/-- The tree with another node at a place. -/
def replaceAt : Cst → List Nat → Cst → Cst
  | _, [], w => w
  | n, i :: path, w => { n with children := n.children.modify i (·.replaceAt path w) }

/-- What stands inside all wrappers, at a place below the outermost one. -/
inductive Unwraps : Cst → List Nat → Cst → Prop
  | here {n : Cst} : (n.isWrapper = true → n.wrapped? = none) → Unwraps n [] n
  | inside {n w c : Cst} {i : Nat} {path : List Nat} : n.isWrapper = true → n.wrapped? = some w →
    n.children[i]? = some w → Unwraps w path c → Unwraps n (i :: path) c

/-- The part at a place below a node. -/
inductive Below (n : Cst) : List Nat → Cst → Prop
  | member {c : Cst} {i : Nat} : c ∈ n.members → n.children[i]? = some c → Below n [i] c
  | field {c : Cst} {f : String} {i : Nat} : f ∈ n.form.fields → n.child? f = some c →
    n.children[i]? = some c → Below n [i] c
  /-- A condition stands inside its wrappers. -/
  | condition {w c : Cst} {i : Nat} {path : List Nat} : n.form.unwraps = true →
    n.child? "condition" = some w → n.children[i]? = some w → Unwraps w path c →
      Below n (i :: path) c
  /-- An operand of a call stands in the callee or in the arguments. -/
  | operand {h c : Cst} {i j : Nat} : n.form = .call → h ∈ n.operandHolders →
    n.children[i]? = some h → c ∈ h.inner → h.children[j]? = some c → Below n [i, j] c

/-- The node at a place, where reading a tree comes to it. -/
inductive Along : Cst → List Nat → Cst → Prop
  | here (n : Cst) : Along n [] n
  | further {n m c : Cst} {first path : List Nat} : n.Below first m → Along m path c →
    Along n (first ++ path) c

variable {n m m' c e w : Cst} {path place : List Nat}

/-! ## Parts and places -/

theorem mem_children_of_wrapped? (h : n.wrapped? = some c) : c ∈ n.children := by
  unfold wrapped? at h
  cases hv : n.child? "value" with
  | some v =>
    rw [hv] at h
    cases h
    exact mem_children_of_child? hv
  | none =>
    rw [hv] at h
    exact mem_children_of_mem_content (List.mem_of_getLast? h)

/-- What is left without the wrappers has a place inside them. -/
theorem exists_unwraps (n : Cst) : ∃ path, Unwraps n path n.unwrap := by
  fun_induction unwrap n with
  | case1 n hn w hw ih =>
    obtain ⟨i, hi⟩ := List.getElem?_of_mem (mem_children_of_wrapped? hw)
    obtain ⟨path, hpath⟩ := ih
    exact ⟨i :: path, .inside hn hw hi hpath⟩
  | case2 n _ hw => exact ⟨[], .here fun _ => hw⟩
  | case3 n hn => exact ⟨[], .here fun h => absurd h hn⟩

theorem unwrap_eq_self (h : n.isWrapper = true → n.wrapped? = none) : n.unwrap = n := by
  rw [unwrap]
  split
  · next hn =>
    split
    · next hw => rw [h hn] at hw; cases hw
    · rfl
  · rfl

theorem unwrap_of_wrapped? (hn : n.isWrapper = true) (hw : n.wrapped? = some w) :
    n.unwrap = w.unwrap := by
  rw [unwrap, if_pos hn]
  split
  · next h => rw [hw] at h; cases h; rfl
  · next h => rw [hw] at h; cases h

theorem unwrap_eq_of_unwraps (h : Unwraps n path c) : n.unwrap = c := by
  induction h with
  | here h => exact unwrap_eq_self h
  | inside hn hw _ _ ih => rw [unwrap_of_wrapped? hn hw, ih]

/-- The parts of a node are the nodes that have a place below it. -/
theorem exists_below_iff : (∃ path, n.Below path c) ↔ c ∈ n.parts := by
  rw [mem_parts_iff]
  constructor
  · rintro ⟨path, h⟩
    cases h with
    | member hmem _ => exact .inl hmem
    | field hf hc _ => exact .inr (.inl ⟨_, hf, hc⟩)
    | condition hun hw _ hunwraps =>
      refine .inr (.inr (.inl ⟨hun, ?_⟩))
      rw [condition?, hw, Option.map_some, unwrap_eq_of_unwraps hunwraps]
    | operand hcall hh _ hc _ =>
      exact .inr (.inr (.inr ⟨hcall, List.mem_flatMap.2 ⟨_, hh, hc⟩⟩))
  · rintro (hmem | ⟨f, hf, hc⟩ | ⟨hun, hc⟩ | ⟨hcall, hc⟩)
    · obtain ⟨i, hi⟩ := List.getElem?_of_mem
        (mem_children_of_mem_content (mem_content_of_mem_members hmem))
      exact ⟨[i], .member hmem hi⟩
    · obtain ⟨i, hi⟩ := List.getElem?_of_mem (mem_children_of_child? hc)
      exact ⟨[i], .field hf hc hi⟩
    · obtain ⟨w, hw, rfl⟩ := Option.map_eq_some_iff.1 hc
      obtain ⟨i, hi⟩ := List.getElem?_of_mem (mem_children_of_child? hw)
      obtain ⟨path, hpath⟩ := exists_unwraps w
      exact ⟨i :: path, .condition hun hw hi hpath⟩
    · obtain ⟨h, hh, hc⟩ := List.mem_flatMap.1 hc
      have hmem : h ∈ n.children := by
        rw [operandHolders, if_pos hcall] at hh
        rcases List.mem_append.1 hh with hh | hh <;>
          exact mem_children_of_child? (Option.mem_toList.1 hh)
      obtain ⟨i, hi⟩ := List.getElem?_of_mem hmem
      obtain ⟨j, hj⟩ := List.getElem?_of_mem
        (mem_children_of_mem_content (List.mem_filter.1 hc).1)
      exact ⟨[i, j], .operand hcall hh hi hc hj⟩

/-! ## Replacing a child -/

/-- The same node, or one in the place of the other. -/
def Swapped (m m' x y : Cst) : Prop := x = y ∨ (x = m ∧ y = m')

theorem Swapped.eq_of_eq {α : Type} {f : Cst → α} {x y : Cst} (hf : f m = f m')
    (h : Swapped m m' x y) : f x = f y := by
  rcases h with rfl | ⟨rfl, rfl⟩
  · rfl
  · exact hf

theorem forall₂_swapped_set {ns : List Cst} {i : Nat} (h : ns[i]? = some m) :
    List.Forall₂ (Swapped m m') ns (ns.set i m') := by
  induction ns generalizing i with
  | nil => simp at h
  | cons x ns ih =>
    cases i with
    | zero =>
      obtain rfl : x = m := by simpa using h
      exact .cons (.inr ⟨rfl, rfl⟩) (List.forall₂_same.2 fun y _ => .inl rfl)
    | succ i => exact .cons (.inl rfl) (ih (by simpa using h))

theorem forall₂_swapped_filter {p : Cst → Bool} (hp : p m = p m') {xs ys : List Cst}
    (h : List.Forall₂ (Swapped m m') xs ys) :
    List.Forall₂ (Swapped m m') (xs.filter p) (ys.filter p) :=
  List.rel_filter (fun _ _ hxy => by simp only [hxy.eq_of_eq hp]) h

theorem forall_mem_swapped {P : Cst → Prop} (hP : P m ↔ P m') {xs ys : List Cst}
    (h : List.Forall₂ (Swapped m m') xs ys) : (∀ y ∈ ys, P y) ↔ ∀ x ∈ xs, P x := by
  induction h with
  | nil => simp
  | cons hxy _ ih => simp only [List.forall_mem_cons, ih, hxy.eq_of_eq (propext hP)]

theorem find?_swapped {p : Cst → Bool} (hp : p m = p m') {xs ys : List Cst}
    (h : List.Forall₂ (Swapped m m') xs ys) :
    Option.Rel (Swapped m m') (xs.find? p) (ys.find? p) := by
  induction h with
  | nil => exact .none
  | @cons x y _ _ hxy _ ih =>
    simp only [List.find?_cons, ← hxy.eq_of_eq hp]
    split
    · exact .some hxy
    · exact ih

theorem head?_swapped {xs ys : List Cst} (h : List.Forall₂ (Swapped m m') xs ys) :
    Option.Rel (Swapped m m') xs.head? ys.head? := by
  cases h with
  | nil => exact .none
  | cons hxy _ => exact .some hxy

/-! ## Nodes alike -/

/-- Nodes that a statement does not tell apart before it reads them. -/
structure Alike (c d : Cst) : Prop where
  type : c.type = d.type
  field : c.field = d.field
  named : c.named = d.named
  leaf : c.isLeaf = d.isLeaf

theorem Alike.isSkipped (h : Alike c e) : c.isSkipped = e.isSkipped := by
  rw [Cst.isSkipped, Cst.isSkipped, h.type]

theorem Alike.isInner (h : Alike c e) : c.isInner = e.isInner := by
  rw [Cst.isInner, Cst.isInner, h.isSkipped, h.named, h.leaf]

theorem Alike.isStatement (h : Alike c e) : c.isStatement = e.isStatement := by
  rw [Cst.isStatement, Cst.isStatement, form, form, h.type]

theorem Alike.isWrapper (h : Alike c e) : c.isWrapper = e.isWrapper := by
  rw [Cst.isWrapper, Cst.isWrapper, h.type]

/-- A node `m'` can take the place of `m` among the parts of `n`. An expression looks at whether an
    operand has an inner structure, a statement also at other things. -/
structure StandsIn (n m m' : Cst) : Prop where
  inner : m.isInner = m'.isInner
  alike : n.isStatement = true → Alike m m'
  /-- What is in the place of a condition is no wrapper that could still be taken away. -/
  stays : n.isStatement = true → m.isWrapper = true → m.wrapped? ≠ none

section

variable {n' : Cst} (hc : List.Forall₂ (Swapped m m') n.children n'.children)
include hc

theorem child?_swapped (h : m.field = m'.field) (f : String) :
    Option.Rel (Swapped m m') (n.child? f) (n'.child? f) :=
  find?_swapped (by simp only [h]) hc

theorem content_swapped (h : Alike m m') :
    List.Forall₂ (Swapped m m') n.content n'.content :=
  forall₂_swapped_filter (by simp only [h.isSkipped]) (forall₂_swapped_filter h.named hc)

theorem inner_swapped (h : m.isInner = m'.isInner) :
    List.Forall₂ (Swapped m m') n.inner n'.inner := by
  rw [inner_eq_filter, inner_eq_filter]
  exact forall₂_swapped_filter h hc

theorem wrapped?_swapped (h : Alike m m') :
    Option.Rel (Swapped m m') n.wrapped? n'.wrapped? := by
  have hvalue := child?_swapped hc h.field "value"
  have hlast := head?_swapped (List.forall₂_reverse_iff.2 (content_swapped hc h))
  rw [List.head?_reverse, List.head?_reverse] at hlast
  unfold wrapped?
  generalize n.child? "value" = v, n'.child? "value" = v' at hvalue
  cases hvalue with
  | none => exact hlast
  | some hxy => exact .some hxy

theorem members_swapped (htype : n.type = n'.type) (h : StandsIn n m m') :
    List.Forall₂ (Swapped m m') n.members n'.members := by
  have hform : n.form = n'.form := by rw [form, form, htype]
  have hinner := inner_swapped hc h.inner
  have hcontent : n.isStatement = true → List.Forall₂ (Swapped m m') n.content n'.content :=
    fun hs => content_swapped hc (h.alike hs)
  unfold isStatement at hcontent
  have halike := h.alike
  unfold isStatement at halike
  unfold members
  rw [← hform]
  cases hf : n.form <;> simp only [hf] at hcontent halike ⊢
  case block | elseClause => exact hcontent rfl
  case template => exact forall₂_swapped_filter (by simp only [(halike rfl).type]) (hcontent rfl)
  case returnStmt | declaration | operation | other => exact hinner
  case expressionStmt =>
    have hcontent := hcontent rfl
    generalize n.content = xs, n'.content = ys at hcontent
    rcases hcontent with _ | ⟨hx, _ | ⟨hy, hrest⟩⟩
    · exact hinner
    · exact .cons hx .nil
    · exact hinner
  all_goals exact .nil

end

/-! ## Replacing a part -/

theorem replaceAt_cons {i : Nat} (h : n.children[i]? = some c) :
    n.replaceAt (i :: path) w = { n with children := n.children.set i (c.replaceAt path w) } := by
  rw [replaceAt, List.modify_eq_set_getElem?, h]
  rfl

theorem forall₂_replaceAt {i : Nat} (h : n.children[i]? = some c) :
    List.Forall₂ (Swapped c (c.replaceAt path w)) n.children
      (n.replaceAt (i :: path) w).children := by
  rw [replaceAt_cons h]
  exact forall₂_swapped_set h

theorem isLeaf_eq_of_swapped {n' : Cst} (hc : List.Forall₂ (Swapped m m') n.children n'.children)
    (h : m.named = m'.named) : n.isLeaf = n'.isLeaf := by
  have hnamed := forall₂_swapped_filter h hc
  unfold isLeaf namedChildren
  generalize n.children.filter (·.named) = xs, n'.children.filter (·.named) = ys at hnamed
  cases hnamed <;> rfl

/-- A node is like itself with a node in it replaced. -/
theorem alike_replaceAt {i : Nat} (h : n.children[i]? = some c)
    (hc : c.named = (c.replaceAt path w).named) : Alike n (n.replaceAt (i :: path) w) where
  type := rfl
  field := rfl
  named := rfl
  leaf := isLeaf_eq_of_swapped (forall₂_replaceAt h) hc

/-- With another node inside its wrappers, a wrapper stands for that node. -/
theorem unwraps_replaceAt (h : Unwraps n path c) (halike : Alike c w)
    (hstay : c.isWrapper = true → c.wrapped? ≠ none) :
    Alike n (n.replaceAt path w) ∧ Swapped c w n.unwrap (n.replaceAt path w).unwrap := by
  induction h with
  | @here n h =>
    have hn : n.isWrapper = false := by
      by_contra hn
      rw [Bool.not_eq_false] at hn
      exact hstay hn (h hn)
    have hw : w.isWrapper = false := by rw [← halike.isWrapper, hn]
    rw [replaceAt, unwrap_eq_self (by simp [hn]), unwrap_eq_self (by simp [hw])]
    exact ⟨halike, .inr ⟨rfl, rfl⟩⟩
  | @inside n x c i path hn hx hi hunwraps ih =>
    obtain ⟨hax, hswap⟩ := ih halike hstay
    have hn' : (n.replaceAt (i :: path) w).isWrapper = true := hn
    have hc : List.Forall₂ (Swapped x (x.replaceAt path w)) n.children
        (n.replaceAt (i :: path) w).children := forall₂_replaceAt hi
    have hwrapped := wrapped?_swapped hc hax
    refine ⟨alike_replaceAt hi hax.named, ?_⟩
    generalize hy : (n.replaceAt (i :: path) w).wrapped? = y? at hwrapped
    rw [hx] at hwrapped
    cases hwrapped with
    | some hxy =>
      rw [unwrap_of_wrapped? hn hx, unwrap_of_wrapped? hn' hy]
      rcases hxy with rfl | ⟨-, rfl⟩
      · exact .inl rfl
      · exact hswap

/-! ## Parts with a part replaced -/

/-- A node goes on to its members, to fields with or without a condition, or to its operands, and
    never to two of these. -/
theorem form_of_mem_members (h : c ∈ n.members) :
    n.form.fields = [] ∧ n.form.unwraps = false ∧ n.form ≠ .call := by
  unfold members at h
  cases hf : n.form <;> simp_all [Form.fields, Form.unwraps]

theorem form_of_mem_fields {f : String} (h : f ∈ n.form.fields) :
    n.isStatement = true ∧ n.members = [] ∧ n.form ≠ .call ∧
      (n.form.unwraps = true → f ≠ "condition") := by
  unfold isStatement members
  cases hf : n.form <;> simp [hf, Form.fields, Form.unwraps, Form.isStatement] at h ⊢
  case ifStmt => rcases h with rfl | rfl <;> decide
  all_goals simp [h]

theorem form_of_unwraps (h : n.form.unwraps = true) :
    n.isStatement = true ∧ n.members = [] ∧ n.form ≠ .call ∧ "condition" ∉ n.form.fields := by
  unfold isStatement members
  cases hf : n.form <;> simp_all [Form.fields, Form.unwraps, Form.isStatement]

theorem form_of_call (h : n.form = .call) :
    n.isStatement = false ∧ n.members = [] ∧ n.form.fields = [] ∧ n.form.unwraps = false := by
  simp [isStatement, members, h, Form.fields, Form.unwraps, Form.isStatement]

theorem field_of_child? {f : String} (h : n.child? f = some c) : c.field = some f := by
  simpa using List.find?_some h

section

variable {n' : Cst} {P : Cst → Prop}

theorem forall_child?_iff {f : String} (hP : P m ↔ P m')
    (h : Option.Rel (Swapped m m') (n.child? f) (n'.child? f)) :
    (∀ c, n'.child? f = some c → P c) ↔ ∀ c, n.child? f = some c → P c := by
  generalize n.child? f = x, n'.child? f = y at h
  cases h with
  | none => simp
  | some hxy => simp [hxy.eq_of_eq (propext hP)]

/-- Another field than that of the node replaced is filled as before. -/
theorem child?_eq_of_field_ne {f : String}
    (hc : List.Forall₂ (Swapped m m') n.children n'.children) (h : m.field = m'.field)
    (hf : m.field ≠ some f) : n'.child? f = n.child? f := by
  have hrel := child?_swapped hc h f
  generalize hx : n.child? f = x, n'.child? f = y at hrel
  cases hrel with
  | none => rfl
  | some hxy =>
    rcases hxy with rfl | ⟨rfl, rfl⟩
    · rfl
    · exact absurd (field_of_child? hx) hf

/-- A member is replaced. -/
theorem forall_member_iff (hc : List.Forall₂ (Swapped m m') n.children n'.children)
    (htype : n.type = n'.type) (hm : c ∈ n.members) (h : StandsIn n m m') (hP : P m ↔ P m') :
    (∀ c ∈ n'.parts, P c) ↔ ∀ c ∈ n.parts, P c := by
  have hform : n'.form = n.form := by rw [form, form, htype]
  obtain ⟨hfields, hunwraps, hcall⟩ := form_of_mem_members hm
  rw [forall_mem_parts_iff, forall_mem_parts_iff, hform, hfields, hunwraps,
    forall_mem_swapped hP (members_swapped hc htype h)]
  simp [hcall]

/-- What fills a field is replaced. The condition, if any, fills another field. -/
theorem forall_field_iff {f : String} (hc : List.Forall₂ (Swapped m m') n.children n'.children)
    (htype : n.type = n'.type) (hf : f ∈ n.form.fields) (hm : n.child? f = some m)
    (h : StandsIn n m m') (hP : P m ↔ P m') :
    (∀ c ∈ n'.parts, P c) ↔ ∀ c ∈ n.parts, P c := by
  have hform : n'.form = n.form := by rw [form, form, htype]
  obtain ⟨hs, -, hcall, hcondition⟩ := form_of_mem_fields hf
  have hchild := child?_swapped hc (h.alike hs).field
  rw [forall_mem_parts_iff, forall_mem_parts_iff, hform,
    forall_mem_swapped hP (members_swapped hc htype h)]
  refine and_congr_right' (and_congr ?_ (and_congr ?_ (by simp [hcall])))
  · exact forall₂_congr fun g _ => forall_child?_iff hP (hchild g)
  · refine imp_congr_right fun hunwraps => ?_
    have hother : m.field ≠ some "condition" := by
      rw [field_of_child? hm]
      simpa using hcondition hunwraps
    rw [condition?, condition?, child?_eq_of_field_ne hc (h.alike hs).field hother]

/-- The condition is replaced inside its wrappers. -/
theorem forall_condition_iff {x : Cst} {i : Nat} (hun : n.form.unwraps = true)
    (hx : n.child? "condition" = some x) (hi : n.children[i]? = some x) (h : Unwraps x path m)
    (halike : Alike m m') (hstay : m.isWrapper = true → m.wrapped? ≠ none) (hP : P m ↔ P m') :
    (∀ c ∈ (n.replaceAt (i :: path) m').parts, P c) ↔ ∀ c ∈ n.parts, P c := by
  obtain ⟨hs, hmembers, hcall, hfields⟩ := form_of_unwraps hun
  obtain ⟨hax, hswap⟩ := unwraps_replaceAt h halike hstay
  have hc : List.Forall₂ (Swapped x (x.replaceAt path m')) n.children
      (n.replaceAt (i :: path) m').children := forall₂_replaceAt hi
  have hfield := field_of_child? hx
  have hcondition := child?_swapped hc hax.field "condition"
  rw [forall_mem_parts_iff, forall_mem_parts_iff]
  refine and_congr ?_ (and_congr ?_ (and_congr ?_ ?_))
  · rw [hmembers, (form_of_unwraps (n := n.replaceAt (i :: path) m') hun).2.1]
  · refine forall₂_congr fun g hg => ?_
    have hother : x.field ≠ some g := by
      rw [hfield]
      rintro ⟨⟩
      exact hfields hg
    rw [child?_eq_of_field_ne hc hax.field hother]
  · refine imp_congr_right fun _ => ?_
    rw [condition?, condition?, hx]
    rw [hx] at hcondition
    generalize (n.replaceAt (i :: path) m').child? "condition" = y at hcondition
    cases hcondition with
    | some hxy =>
      rcases hxy with rfl | ⟨-, rfl⟩
      · rfl
      · simp [hswap.eq_of_eq (propext hP)]
  · have hcall' : (n.replaceAt (i :: path) m').form ≠ .call := hcall
    simp [hcall, hcall']

/-- An operand of a call is replaced. -/
theorem forall_operand_iff {x : Cst} {i j : Nat} (hcall : n.form = .call)
    (hi : n.children[i]? = some x) (hj : x.children[j]? = some m) (hm : m.isInner = m'.isInner)
    (hP : P m ↔ P m') :
    (∀ c ∈ (n.replaceAt [i, j] m').parts, P c) ↔ ∀ c ∈ n.parts, P c := by
  have hcall' : (n.replaceAt [i, j] m').form = .call := hcall
  have hc : List.Forall₂ (Swapped x (x.replaceAt [j] m')) n.children
      (n.replaceAt [i, j] m').children := forall₂_replaceAt hi
  have hholders : List.Forall₂ (Swapped x (x.replaceAt [j] m')) n.operandHolders
      (n.replaceAt [i, j] m').operandHolders := by
    have hfield := fun f => child?_swapped (f := f) hc rfl
    have htoList : ∀ {x? y? : Option Cst}, Option.Rel (Swapped x (x.replaceAt [j] m')) x? y? →
        List.Forall₂ (Swapped x (x.replaceAt [j] m')) x?.toList y?.toList := by
      rintro _ _ (h | _)
      · exact .cons h .nil
      · exact .nil
    rw [operandHolders, operandHolders, if_pos hcall, if_pos hcall']
    exact List.rel_append (htoList (hfield _)) (htoList (hfield _))
  rw [parts_of_not_isStatement (form_of_call hcall).1,
    parts_of_not_isStatement (form_of_call hcall').1]
  refine forall_mem_swapped hP (List.rel_flatMap hholders fun y z hyz => ?_)
  rcases hyz with rfl | ⟨rfl, rfl⟩
  · exact List.forall₂_same.2 fun _ _ => .inl rfl
  · exact inner_swapped (@forall₂_replaceAt y m m' [] j hj) hm

/-- A node that takes the place of a part leaves the other parts as they are. -/
theorem forall_mem_parts_replaceAt (h : n.Below place m) (hm : StandsIn n m m')
    (hP : P m ↔ P m') :
    (∀ c ∈ (n.replaceAt place m').parts, P c) ↔ ∀ c ∈ n.parts, P c := by
  cases h with
  | member hmember hi => exact forall_member_iff (forall₂_replaceAt hi) rfl hmember hm hP
  | field hf hchild hi => exact forall_field_iff (forall₂_replaceAt hi) rfl hf hchild hm hP
  | condition hun hx hi hunwraps =>
    have hs := (form_of_unwraps hun).1
    exact forall_condition_iff hun hx hi hunwraps (hm.alike hs) (hm.stays hs) hP
  | operand hcall _ hi _ hj => exact forall_operand_iff hcall hi hj hm.inner hP

end

theorem replaceAt_append_unwraps (h : Unwraps n path c) (rest : List Nat) :
    n.replaceAt (path ++ rest) w = n.replaceAt path (c.replaceAt rest w) := by
  induction h with
  | here => rfl
  | inside _ _ hi _ ih => rw [List.cons_append, replaceAt_cons hi, replaceAt_cons hi, ih]

/-- A replacement further down is one of the part on the way. -/
theorem replaceAt_append (h : n.Below place c) (rest : List Nat) :
    n.replaceAt (place ++ rest) w = n.replaceAt place (c.replaceAt rest w) := by
  cases h with
  | member _ hi => rw [List.cons_append, replaceAt_cons hi, replaceAt_cons hi]; rfl
  | field _ _ hi => rw [List.cons_append, replaceAt_cons hi, replaceAt_cons hi]; rfl
  | condition _ _ hi hunwraps =>
    rw [List.cons_append, replaceAt_cons hi, replaceAt_cons hi, replaceAt_append_unwraps hunwraps]
  | operand _ _ hi _ hj =>
    rw [List.cons_append, replaceAt_cons hi, replaceAt_cons hi, List.cons_append,
      replaceAt_cons hj, replaceAt_cons hj]
    rfl

/-- A node with a part replaced is told apart from the node only by what is read. -/
theorem alike_of_below (h : n.Below place m) (hnamed : m.named = m'.named) :
    Alike n (n.replaceAt place m') := by
  cases h with
  | member _ hi => exact alike_replaceAt hi hnamed
  | field _ _ hi => exact alike_replaceAt hi hnamed
  | condition _ _ hi hunwraps =>
    refine alike_replaceAt hi ?_
    cases hunwraps with
    | here => exact hnamed
    | inside => rfl
  | operand _ _ hi _ hj => exact alike_replaceAt hi rfl

/-- A wrapper that is read is empty, so nothing is below it. -/
theorem wrapped?_ne_none_of_below (h : n.Below place c) (hn : n.isWrapper = true) :
    n.wrapped? ≠ none := by
  have hform : n.form = .other := by
    simp only [isWrapper, Bool.or_eq_true, beq_iff_eq] at hn
    rcases hn with hn | hn <;> rw [form, hn] <;> rfl
  have hinner : c ∈ n.inner := by
    have hs : n.isStatement = false := by rw [isStatement, hform]; rfl
    have hcall : n.isCall = false := by simp [isCall, hform]
    rw [← operands_of_not_isCall hcall, ← parts_of_not_isStatement hs]
    exact exists_below_iff.1 ⟨place, h⟩
  unfold wrapped?
  have hcontent : n.content ≠ [] := List.ne_nil_of_mem (List.mem_filter.1 hinner).1
  cases n.child? "value" with
  | some v => simp
  | none => simpa using hcontent

end FlowSketch.Cst
