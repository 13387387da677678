import FlowSketch.Ast.Pool
import FlowSketch.Proofs.Ast.Likeness
import FlowSketch.Proofs.Ast.Record
import Mathlib.Data.List.Induction

/-!
# Shared nodes in records

A node that is used in several places is written several times in a record, once for each use, and a
slot is written as the first position of the node that fills it. What is read back shares nothing,
but it looks like the node: its children picture the children one by one, and what fills a slot
pictures the node that fills it.

* `Pool.records` — the record of each node, written from the nodes themselves.
* `Pool.Depicts` — a tree that pictures a node, whatever position stands for a slot.
* `Recipe.Grounded` — each node is made of nodes made before it.

Results:

* `Pool.getElem?_trees`: the tree of a node holds the trees of its children.
* `Pool.depicts_of_trees`, `Pool.filled_of_trees`: that tree pictures the node, and its slots hold
  positions of children.
* `Pool.alike_of_depicts`: two pictures of one node look alike.
* `Pool.read_records`: the record of a node is read without a warning, it is the record of what is
  read, and this has the flowcharts and figures of the node.
-/

namespace FlowSketch

/-! ## One after the other -/

section

variable {α β : Type} (f : List β → α → β)

/-- What is made of each item, given what was made of the items before it. -/
def accumulate (items : List α) : List β := items.foldl (fun before a => before ++ [f before a]) []

theorem accumulate_concat (items : List α) (a : α) :
    accumulate f (items ++ [a]) = accumulate f items ++ [f (accumulate f items) a] := by
  simp only [accumulate, List.foldl_append, List.foldl_cons, List.foldl_nil]

theorem length_accumulate (items : List α) : (accumulate f items).length = items.length := by
  induction items using List.reverseRecOn with
  | nil => rfl
  | append_singleton items a ih =>
    rw [accumulate_concat, List.length_append, List.length_append, ih]
    rfl

theorem getElem?_accumulate {items : List α} {i : Nat} {a : α} (h : items[i]? = some a) :
    (accumulate f items)[i]? = some (f ((accumulate f items).take i) a) := by
  induction items using List.reverseRecOn with
  | nil => simp at h
  | append_singleton items b ih =>
    have hlength := length_accumulate f items
    rw [accumulate_concat]
    by_cases hi : i < items.length
    · rw [List.getElem?_append_left hi] at h
      rw [List.getElem?_append_left (by omega), List.take_append_of_le_length (by omega)]
      exact ih h
    · have hi : i = items.length := by
        have hlt := (List.getElem?_eq_some_iff.1 h).1
        simp only [List.length_append, List.length_singleton] at hlt
        omega
      subst hi
      obtain rfl : b = a := by simpa using h
      rw [← hlength, List.getElem?_concat_length, List.take_left]

end

/-! ## Nodes made of earlier nodes -/

/-- The nodes asked for in a recipe. -/
def Recipe.handles (r : Recipe) : List Nat := r.slots.toList ++ r.children

/-- Each node is made of nodes made before it. -/
def Recipe.Grounded (recipes : List Recipe) : Prop :=
  ∀ (i : Nat) (r : Recipe), recipes[i]? = some r → ∀ handle ∈ r.handles, handle < i

theorem PoolNode.mem_handles {r : Recipe} {handle : Nat} (h : handle ∈ (ofRecipe r).children) :
    handle ∈ r.handles := by
  rw [ofRecipe, List.mem_append] at h
  rw [Recipe.handles, List.mem_append]
  rcases h with h | h
  · exact .inl h
  · exact .inr (List.mem_filter.1 h).1

namespace Pool

/-- A tree that pictures a node: it says the same, its children picture the children of the node one
    by one, and what fills a slot pictures the node that fills it. -/
inductive Depicts (pool : Pool) : Nat → Ast → Prop
  | intro {i : Nat} {n : PoolNode} {t : Ast} (made : pool[i]? = some n) (kind : t.kind = n.kind)
      (text : t.text = n.text) (name : t.name = n.name) (line : t.line = n.line)
      (children : List.Forall₂ (Depicts pool) n.children t.children)
      (slots : ∀ slot, Option.Rel (Depicts pool) (n.slots.get slot) (t.child? slot)) :
      Depicts pool i t

/-- Lists that picture the same list are related one by one. -/
theorem forall₂_of_common {α β γ : Type} {R : α → β → Prop} {S : α → γ → Prop} {Q : β → γ → Prop}
    {as : List α} {bs : List β} {cs : List γ} (hb : List.Forall₂ R as bs)
    (hc : List.Forall₂ S as cs) (h : ∀ a, ∀ b ∈ bs, ∀ c, R a b → S a c → Q b c) :
    List.Forall₂ Q bs cs := by
  induction hb generalizing cs with
  | nil =>
    cases hc
    exact .nil
  | cons hab _ ih =>
    cases hc with
    | cons hac hrest =>
      exact .cons (h _ _ List.mem_cons_self _ hab hac)
        (ih hrest (fun a b hb c => h a b (List.mem_cons_of_mem _ hb) c))

/-- Two pictures of one node look alike. -/
theorem alike_of_depicts {pool : Pool} {i : Nat} {t u : Ast} (ht : pool.Depicts i t)
    (hu : pool.Depicts i u) : Ast.Alike t u := by
  induction t using Ast.induction generalizing i u with
  | node t ih =>
    obtain ⟨hmade, hkind, htext, hname, hline, hchildren, hslots⟩ := ht
    obtain ⟨hmade', hkind', htext', hname', hline', hchildren', hslots'⟩ := hu
    obtain rfl := Option.some.inj (hmade.symm.trans hmade')
    refine .intro (hkind.trans hkind'.symm) (htext.trans htext'.symm) (hname.trans hname'.symm)
      (hline.trans hline'.symm) ?_ (fun slot => ?_)
    · exact forall₂_of_common hchildren hchildren' (fun _ c hc _ => ih c hc)
    · rcases rel_cases (hslots slot) with ⟨hnone, hc⟩ | ⟨_, c, hsome, hc, hdepicts⟩ <;>
        rcases rel_cases (hslots' slot) with ⟨hnone', hd⟩ | ⟨_, d, hsome', hd, hdepicts'⟩
      · rw [hc, hd]
        exact .none
      · exact absurd (hnone.symm.trans hsome') (Option.some_ne_none _).symm
      · exact absurd (hsome.symm.trans hnone') (Option.some_ne_none _)
      · obtain rfl := Option.some.inj (hsome.symm.trans hsome')
        rw [hc, hd]
        exact .some (ih c (Ast.mem_children_of_child? hc) hdepicts hdepicts')

/-! ## Trees -/

theorem length_trees (pool : Pool) : pool.trees.length = pool.length :=
  length_accumulate (fun before (n : PoolNode) => n.tree before) pool

theorem get_slots_tree (n : PoolNode) (before : List Ast) (slot : Slot) :
    (n.tree before).slots.get slot = n.slotIndex? slot :=
  Slots.get_bind n.slots _ slot

/-- Values taken from a list by their positions do not depend on what stands behind them. -/
theorem filterMap_take {α : Type} (values : List α) {i : Nat} {handles : List Nat}
    (h : ∀ handle ∈ handles, handle < i) :
    handles.filterMap ((values.take i)[·]?) = handles.filterMap (values[·]?) := by
  induction handles with
  | nil => rfl
  | cons handle handles ih =>
    obtain ⟨hhandle, hhandles⟩ := List.forall_mem_cons.1 h
    rw [List.filterMap_cons, List.filterMap_cons, List.getElem?_take_of_lt hhandle, ih hhandles]

/-- Values taken from a list by positions in it are all there. -/
theorem forall₂_filterMap {α : Type} {values : List α} {i : Nat} {handles : List Nat}
    (hi : i ≤ values.length) (h : ∀ handle ∈ handles, handle < i) :
    List.Forall₂ (fun handle value => handle < i ∧ values[handle]? = some value) handles
      (handles.filterMap (values[·]?)) := by
  induction handles with
  | nil => exact .nil
  | cons handle handles ih =>
    obtain ⟨hhandle, hhandles⟩ := List.forall_mem_cons.1 h
    have hvalue := List.getElem?_eq_getElem (Nat.lt_of_lt_of_le hhandle hi)
    rw [List.filterMap_cons_some hvalue]
    exact .cons ⟨hhandle, hvalue⟩ (ih hhandles)

theorem exists_getElem?_of_forall₂ {α β : Type} {R : α → β → Prop} {as : List α} {bs : List β}
    {k : Nat} {a : α} (h : List.Forall₂ R as bs) (hk : as[k]? = some a) :
    ∃ b, bs[k]? = some b ∧ R a b := by
  induction h generalizing k with
  | nil => simp at hk
  | cons hab _ ih =>
    cases k with
    | zero =>
      obtain rfl : _ = a := by simpa using hk
      exact ⟨_, rfl, hab⟩
    | succ k => exact ih hk

theorem filterMap_eq_map_of_forall₂ {α β γ : Type} {f : α → Option γ} {g : β → γ} {as : List α}
    {bs : List β} (h : List.Forall₂ (fun a b => f a = some (g b)) as bs) :
    as.filterMap f = bs.map g := by
  induction h with
  | nil => rfl
  | cons hab _ ih => rw [List.filterMap_cons_some hab, List.map_cons, ih]

/-- A node made before the one at `i`, with its tree. -/
def Earlier (pool : Pool) (i handle : Nat) (t : Ast) : Prop :=
  handle < i ∧ pool.trees[handle]? = some t

section

variable {recipes : List Recipe} {i : Nat} {r : Recipe} {t : Ast}

theorem getElem?_ofRecipes (hr : recipes[i]? = some r) :
    (ofRecipes recipes)[i]? = some (PoolNode.ofRecipe r) := by
  rw [ofRecipes, List.getElem?_map, hr]
  rfl

theorem exists_recipe (ht : (ofRecipes recipes).trees[i]? = some t) :
    ∃ r, recipes[i]? = some r := by
  have hlt := (List.getElem?_eq_some_iff.1 ht).1
  rw [length_trees, ofRecipes, List.length_map] at hlt
  exact ⟨recipes[i], List.getElem?_eq_getElem hlt⟩

variable (hground : Recipe.Grounded recipes)

include hground

theorem lt_of_mem_children (hr : recipes[i]? = some r) :
    ∀ handle ∈ (PoolNode.ofRecipe r).children, handle < i :=
  fun handle h => hground i r hr handle (PoolNode.mem_handles h)

/-- The tree of a node is made of the trees of the whole pool. -/
theorem getElem?_trees (hr : recipes[i]? = some r) :
    (ofRecipes recipes).trees[i]? =
      some ((PoolNode.ofRecipe r).tree (ofRecipes recipes).trees) := by
  have hi := getElem?_accumulate (fun before (n : PoolNode) => n.tree before)
    (getElem?_ofRecipes hr)
  refine hi.trans (congrArg some ?_)
  rw [PoolNode.tree, PoolNode.tree, filterMap_take _ (lt_of_mem_children hground hr)]
  rfl

/-- The children of the tree of a node are the trees of its children. -/
theorem children_tree (hr : recipes[i]? = some r) :
    List.Forall₂ ((ofRecipes recipes).Earlier i) (PoolNode.ofRecipe r).children
      ((PoolNode.ofRecipe r).tree (ofRecipes recipes).trees).children := by
  refine forall₂_filterMap ?_ (lt_of_mem_children hground hr)
  have hlt := (List.getElem?_eq_some_iff.1 hr).1
  rw [length_trees, ofRecipes, List.length_map]
  omega

/-- What fills a slot of the tree of a node is the tree of the node that fills it. -/
theorem child?_tree (hr : recipes[i]? = some r) (slot : Slot) :
    Option.Rel ((ofRecipes recipes).Earlier i) ((PoolNode.ofRecipe r).slots.get slot)
      (((PoolNode.ofRecipe r).tree (ofRecipes recipes).trees).child? slot) := by
  rw [Ast.child?, get_slots_tree]
  cases hslot : (PoolNode.ofRecipe r).slots.get slot with
  | none =>
    rw [PoolNode.slotIndex?, hslot]
    exact .none
  | some handle =>
    obtain ⟨k, hk, hchild⟩ := PoolNode.slotIndex?_eq_some hslot
    obtain ⟨t, ht, htree⟩ := exists_getElem?_of_forall₂ (children_tree hground hr) hchild
    rw [hk, Option.bind_some, ht]
    exact .some htree

/-- The tree of a node pictures it. -/
theorem depicts_of_trees (ht : (ofRecipes recipes).trees[i]? = some t) :
    (ofRecipes recipes).Depicts i t := by
  induction i using Nat.strongRecOn generalizing t with
  | ind i ih =>
    obtain ⟨r, hr⟩ := exists_recipe ht
    rw [getElem?_trees hground hr] at ht
    obtain rfl := Option.some.inj ht
    refine .intro (getElem?_ofRecipes hr) rfl rfl rfl rfl ?_ (fun slot => ?_)
    · exact (children_tree hground hr).imp (fun handle c hc => ih handle hc.1 hc.2)
    · rcases rel_cases (child?_tree hground hr slot) with ⟨hnone, hc⟩ | ⟨handle, c, hsome, hc, h⟩
      · rw [hnone, hc]
        exact .none
      · rw [hsome, hc]
        exact .some (ih handle h.1 h.2)

/-- The slots of the tree of a node hold positions of children. -/
theorem filled_of_trees (ht : (ofRecipes recipes).trees[i]? = some t) : t.Filled := by
  induction i using Nat.strongRecOn generalizing t with
  | ind i ih =>
    obtain ⟨r, hr⟩ := exists_recipe ht
    rw [getElem?_trees hground hr] at ht
    obtain rfl := Option.some.inj ht
    refine Ast.filled_iff.2 ⟨fun slot k hk => ?_, fun c hc => ?_⟩
    · rw [get_slots_tree] at hk
      obtain ⟨handle, hslot, -⟩ := Option.bind_eq_some_iff.1 hk
      obtain ⟨k', hk', hchild⟩ := PoolNode.slotIndex?_eq_some hslot
      obtain rfl := Option.some.inj (hk.symm.trans hk')
      obtain ⟨c, hc, -⟩ := exists_getElem?_of_forall₂ (children_tree hground hr) hchild
      exact (List.getElem?_eq_some_iff.1 hc).1
    · obtain ⟨handle, hhandle, hc⟩ := List.mem_filterMap.1 hc
      exact ih handle (lt_of_mem_children hground hr handle hhandle) hc

end

/-! ## Records -/

end Pool

/-- The record of a node, given the records of the nodes made before it. A slot is written as the
    first position among the children of the very node that fills it. Model of `ast_to_dict` on
    nodes that may be shared. -/
def PoolNode.record (before : List Json) (n : PoolNode) : Json :=
  let slots := Slot.all.filterMap (fun slot =>
    (n.slotIndex? slot).map (fun i => (slot.name, Json.integer i)))
  .objectOf [
    ("kind", some (.string n.kind.name)),
    ("text", some (.string n.text)),
    ("line", some (.integer n.line)),
    ("children", some (.array (n.children.filterMap (before[·]?)))),
    ("name", n.name.map .string),
    ("slots", if slots.isEmpty then none else some (.object slots))]

namespace Pool

/-- The records of the nodes, in the order in which they were made. -/
def records (pool : Pool) : List Json :=
  accumulate (fun before (n : PoolNode) => n.record before) pool

section

variable {recipes : List Recipe} {i : Nat} {r : Recipe} {t : Ast}

theorem slotMembers_tree {n : PoolNode} {before : List Ast} (h : (n.tree before).Filled) :
    (n.tree before).raw.slotMembers = Slot.all.filterMap (fun slot =>
      (n.slotIndex? slot).map (fun i => (slot.name, Json.integer i))) := by
  have hindex : ∀ slot, (n.tree before).raw.slotIndex? slot = n.slotIndex? slot := by
    intro slot
    rw [RawAst.slotIndex?, Ast.slots_raw, Ast.length_children_raw, ← get_slots_tree n before slot]
    cases hslot : (n.tree before).slots.get slot with
    | none => rfl
    | some k => simp [Option.filter, (Ast.filled_iff.1 h).1 slot k hslot]
  simp only [RawAst.slotMembers, hindex]

theorem given?_name_tree (n : PoolNode) (before : List Ast) :
    (n.tree before).raw.name.given? = n.name.map .string := by
  rw [PoolNode.tree, Ast.raw]
  cases n.name <;> rfl

/-- The record of a node is the record of its tree. -/
theorem records_of_trees (hground : Recipe.Grounded recipes)
    (ht : (ofRecipes recipes).trees[i]? = some t) :
    (ofRecipes recipes).records[i]? = some t.toJson := by
  induction i using Nat.strongRecOn generalizing t with
  | ind i ih =>
    have hfilled := filled_of_trees hground ht
    obtain ⟨r, hr⟩ := exists_recipe ht
    have hrecord := getElem?_accumulate (fun before (n : PoolNode) => n.record before)
      (getElem?_ofRecipes hr)
    rw [getElem?_trees hground hr] at ht
    obtain rfl := Option.some.inj ht
    refine hrecord.trans (congrArg some ?_)
    have hchildren : (PoolNode.ofRecipe r).children.filterMap
        (((ofRecipes recipes).records.take i)[·]?) =
        ((PoolNode.ofRecipe r).tree (ofRecipes recipes).trees).children.map Ast.toJson := by
      rw [filterMap_take _ (lt_of_mem_children hground hr)]
      exact filterMap_eq_map_of_forall₂
        ((children_tree hground hr).imp (fun handle c hc => ih handle hc.1 hc.2))
    rw [Ast.toJson_eq, RawAst.record, slotMembers_tree hfilled, given?_name_tree, ← hchildren]
    rfl

/-- The record of a node that is made of nodes made before it, whatever they share: it is read
    without a warning, what is read has the same record, and it has the flowcharts and the figures
    that the node has. -/
theorem read_records (hground : Recipe.Grounded recipes) (hi : i < recipes.length) :
    ∃ record m, (ofRecipes recipes).records[i]? = some record ∧
      RawAst.read record = ⟨[], .ok m.raw⟩ ∧ Ast.read record = ⟨[], .ok m⟩ ∧ m.toJson = record ∧
      (ofRecipes recipes).Depicts i m ∧ ∀ t, (ofRecipes recipes).Depicts i t →
        (∀ limit, Flowchart.build limit (some m) = Flowchart.build limit (some t)) ∧
        ∀ source, Metrics.analyze (some m) source = Metrics.analyze (some t) source := by
  have hm := getElem?_trees hground (List.getElem?_eq_getElem hi)
  have hdepicts := depicts_of_trees hground hm
  have hfilled := filled_of_trees hground hm
  refine ⟨_, _, records_of_trees hground hm, RawAst.read_toJson (Ast.settled_raw hfilled),
    Ast.read_toJson hfilled, rfl, hdepicts, fun t ht => ?_⟩
  have halike := alike_of_depicts hdepicts ht
  exact ⟨halike.build_eq, halike.analyze_eq⟩

/-- A loop whose condition is its body too. -/
def sharedLoop : List Recipe :=
  [{ kind := .other, text := "x" },
    { kind := .whileLoop, text := "while (x) x", slots := { condition := some 0, body := some 0 } }]

/-- A tree of that loop in which the body stands at a position of its own. -/
def spreadLoop : Ast where
  kind := .whileLoop
  text := "while (x) x"
  slots := { condition := some 0, body := some 1 }
  children := [{ kind := .other, text := "x" }, { kind := .other, text := "x" }]

theorem grounded_sharedLoop : Recipe.Grounded sharedLoop := by
  intro i r hr handle h
  rcases i with _ | _ | i
  · obtain rfl := Option.some.inj hr
    exact absurd h List.not_mem_nil
  · obtain rfl := Option.some.inj hr
    obtain rfl : 0 = handle := by
      simpa [Recipe.handles, Slots.toList, Slot.all, Slots.get] using h
    exact Nat.zero_lt_one
  · exact absurd hr (by simp [sharedLoop])

theorem depicts_spreadLoop : (ofRecipes sharedLoop).Depicts 1 spreadLoop := by
  have hleaf : (ofRecipes sharedLoop).Depicts 0 { kind := .other, text := "x" } :=
    .intro rfl rfl rfl rfl rfl .nil (fun slot => by cases slot <;> exact .none)
  refine .intro rfl rfl rfl rfl rfl (.cons hleaf (.cons hleaf .nil)) (fun slot => ?_)
  cases slot with
  | condition | body => exact .some hleaf
  | init | increment | elseBranch => exact .none

/-- What is read from the record of that loop is drawn like the tree with a body of its own. -/
theorem read_records_sharedLoop : ∃ record m, (ofRecipes sharedLoop).records[1]? = some record ∧
    Ast.read record = ⟨[], .ok m⟩ ∧ m.toJson = record ∧
      Flowchart.build 200 (some m) = Flowchart.build 200 (some spreadLoop) := by
  obtain ⟨record, m, hrecord, -, hread, hwritten, -, hsame⟩ :=
    read_records grounded_sharedLoop (i := 1) (by decide)
  exact ⟨record, m, hrecord, hread, hwritten, (hsame spreadLoop depicts_spreadLoop).1 200⟩

end

end Pool

end FlowSketch
