import FlowSketch.Proofs.Chart.Region

/-!
# Numbering

The nodes of a region are those that its statement draws, in the order of the program text, and
their ids count up from where the region starts.

* `numberFrom` — drawn nodes with ids that count up.
* `Stmt.listing` — the kinds and labels of the nodes that a statement draws.

Results:

* `Stmt.nodes_region`: the nodes of a region are the listing of its statement, numbered.
* `Stmt.exists_node_of_owns`: every id of a region is that of a node.
* `Stmt.region_sorted`: hence nodes with the same id are the same.
-/

namespace FlowSketch

/-! ## Numbering -/

/-- Nodes of these kinds and labels, with ids that count up from `start`. -/
def numberFrom (start : Int) (figures : List (FlowKind × String)) : List FlowNode :=
  figures.mapIdx (fun k figure => ⟨start + k, figure.1, figure.2⟩)

@[simp] theorem length_numberFrom (start : Int) (figures : List (FlowKind × String)) :
    (numberFrom start figures).length = figures.length := by
  simp [numberFrom]

theorem numberFrom_cons (start : Int) (figure : FlowKind × String)
    (figures : List (FlowKind × String)) : numberFrom start (figure :: figures) =
      ⟨start, figure.1, figure.2⟩ :: numberFrom (start + 1) figures := by
  unfold numberFrom
  rw [List.mapIdx_cons]
  congr 1
  · simp
  · apply List.mapIdx_eq_mapIdx_iff.2
    intro k _
    congr 1
    push_cast
    omega

theorem numberFrom_append (start : Int) (figures others : List (FlowKind × String)) :
    numberFrom start (figures ++ others) =
      numberFrom start figures ++ numberFrom (start + figures.length) others := by
  induction figures generalizing start with
  | nil => simp [numberFrom]
  | cons figure figures ih =>
    have hlen : start + 1 + (figures.length : Int) =
        start + ((figure :: figures).length : Nat) := by
      rw [List.length_cons]
      push_cast
      omega
    rw [List.cons_append, numberFrom_cons, ih, numberFrom_cons, hlen, List.cons_append]

theorem getElem?_numberFrom (start : Int) (figures : List (FlowKind × String)) (k : Nat) :
    (numberFrom start figures)[k]? =
      figures[k]?.map (fun figure => ⟨start + k, figure.1, figure.2⟩) :=
  List.getElem?_mapIdx ..

theorem map_id_numberFrom (start : Int) (figures : List (FlowKind × String)) :
    (numberFrom start figures).map (·.id) =
      (List.range figures.length).map (fun k : Nat => start + (k : Int)) := by
  apply List.ext_getElem?
  intro k
  rw [List.getElem?_map, getElem?_numberFrom, List.getElem?_map, Option.map_map]
  by_cases hk : k < figures.length
  · rw [List.getElem?_eq_getElem hk, List.getElem?_range hk]
    rfl
  · rw [List.getElem?_eq_none (by omega), List.getElem?_eq_none (by rw [List.length_range]; omega)]
    rfl

theorem map_figure_numberFrom (start : Int) (figures : List (FlowKind × String)) :
    (numberFrom start figures).map (fun node => (node.kind, node.label)) = figures := by
  apply List.ext_getElem?
  intro k
  rw [List.getElem?_map, getElem?_numberFrom, Option.map_map]
  exact Option.map_id'

/-- The node of an id stands as many places behind the start as the id does. -/
theorem find?_numberFrom (start id : Int) (figures : List (FlowKind × String)) :
    (numberFrom start figures).find? (fun node => node.id == id) =
      if start ≤ id then (numberFrom start figures)[(id - start).toNat]? else none := by
  induction figures generalizing start with
  | nil => simp [numberFrom]
  | cons figure figures ih =>
    rw [numberFrom_cons, List.find?_cons]
    by_cases heq : start = id
    · subst heq
      simp
    · rw [beq_eq_false_iff_ne.2 heq, ih]
      by_cases hle : start ≤ id
      · have hk : (id - start).toNat = (id - (start + 1)).toNat + 1 := by omega
        rw [if_pos hle, if_pos (by omega), hk, List.getElem?_cons_succ]
      · rw [if_neg hle, if_neg (by omega)]

/-! ## The listing of a program -/

namespace Stmt

mutual

/-- The kinds and labels of the nodes that a statement draws, in the order of the program text. -/
def listing : Stmt → List (FlowKind × String)
  | .step action label => [(action.flowKind, label)]
  | .block stmts => listingAll stmts
  | .branch label yes no => (.branch, label) :: (yes.listing ++ no.listing)
  | .loop form label body => (form.flowKind, label) :: body.listing
  | .function label body => (.function, label) :: body.listing

/-- The listings of several statements, one after the other. -/
def listingAll : List Stmt → List (FlowKind × String)
  | [] => []
  | s :: rest => s.listing ++ listingAll rest

end

theorem listingAll_map {α : Type} (f : α → Stmt) (as : List α) :
    listingAll (as.map f) = as.flatMap (fun a => (f a).listing) := by
  induction as with
  | nil => rfl
  | cons a as ih => rw [List.map_cons, listingAll, ih, List.flatMap_cons]

theorem nodes_member (s : Stmt) (i : Int) : (s.member i).nodes = (s.region i).nodes := by
  unfold member
  split_ifs <;> rfl

theorem listingAll_append (stmts rest : List Stmt) :
    listingAll (stmts ++ rest) = listingAll stmts ++ listingAll rest := by
  induction stmts with
  | nil => rfl
  | cons s stmts ih => rw [List.cons_append, listingAll, ih, listingAll, List.append_assoc]

theorem length_listingAll_of {stmts : List Stmt} (hs : ∀ s ∈ stmts, s.listing.length = s.size) :
    (listingAll stmts).length = sizeAll stmts := by
  induction stmts with
  | nil => rfl
  | cons s stmts ih =>
    rw [listingAll, List.length_append, hs s (List.mem_cons_self ..),
      ih (fun t ht => hs t (List.mem_cons_of_mem s ht)), sizeAll]

/-- A statement is listed with as many nodes as it draws. -/
theorem length_listing (s : Stmt) : s.listing.length = s.size := by
  induction s using Stmt.induction with
  | step action label => rfl
  | block stmts ih => rw [listing, length_listingAll_of ih, size]
  | branch label yes no ihy ihn =>
    rw [listing, List.length_cons, List.length_append, ihy, ihn, size]
    omega
  | loop form label body ih =>
    rw [listing, List.length_cons, ih, size]
    omega
  | function label body ih =>
    rw [listing, List.length_cons, ih, size]
    omega

theorem length_listingAll (stmts : List Stmt) : (listingAll stmts).length = sizeAll stmts :=
  length_listingAll_of (fun s _ => s.length_listing)

theorem nodes_regionAll_eq_of {stmts : List Stmt}
    (hs : ∀ s ∈ stmts, ∀ i, (s.region i).nodes = numberFrom i s.listing) (before : Region) :
    (regionAll stmts before).nodes =
      before.nodes ++ numberFrom before.stop (listingAll stmts) := by
  induction stmts generalizing before with
  | nil => simp [regionAll, listingAll, numberFrom]
  | cons s stmts ih =>
    have hnodes := hs s (List.mem_cons_self ..) before.stop
    have hstop : (before.seq (s.member before.stop)).stop = before.stop + s.listing.length := by
      rw [Region.stop_seq (by simp), stop_member, region_stop, length_listing]
    rw [regionAll_cons, ih (fun t ht => hs t (List.mem_cons_of_mem s ht)), hstop, listingAll,
      numberFrom_append, ← hnodes, ← nodes_member, ← List.append_assoc]
    rfl

/-- The nodes of a region are the listing of its statement, numbered. -/
theorem nodes_region (s : Stmt) (i : Int) : (s.region i).nodes = numberFrom i s.listing := by
  induction s using Stmt.induction generalizing i with
  | step action label =>
    rw [listing, numberFrom_cons]
    rfl
  | block stmts ih =>
    rw [region, nodes_regionAll_eq_of ih, listing]
    simp [Region.stop]
  | branch label yes no ihy ihn =>
    rw [listing, numberFrom_cons, numberFrom_append, ← ihy, length_listing, ← ihn, region]
    rfl
  | loop form label body ih =>
    rw [listing, numberFrom_cons, ← ih, region]
    rfl
  | function label body ih =>
    rw [listing, numberFrom_cons, ← ih, region]
    rfl

/-- An id of a region is that of one of its nodes. -/
theorem exists_node_of_owns {s : Stmt} {i id : Int} (h : (s.region i).Owns id) :
    ∃ node ∈ (s.region i).nodes, node.id = id := by
  have hlt := h.lt_stop
  have hle := h.start_le
  rw [region_start] at hle
  rw [region_stop, ← length_listing] at hlt
  have hk : (id - i).toNat < s.listing.length := by omega
  have hnode := getElem?_numberFrom i s.listing (id - i).toNat
  rw [List.getElem?_eq_getElem hk, Option.map_some] at hnode
  rw [nodes_region]
  refine ⟨_, List.mem_of_getElem? hnode, ?_⟩
  show i + ((id - i).toNat : Int) = id
  omega

end Stmt

/-- The nodes are listed by their ids, each id once. -/
def Region.Sorted (r : Region) : Prop := r.nodes.Pairwise (fun m n => m.id < n.id)

/-- The nodes of a region are numbered in the order in which they are made. -/
theorem Stmt.region_sorted (s : Stmt) (start : Int) : (s.region start).Sorted := by
  have hids : ((s.region start).nodes.map FlowNode.id).Pairwise (· < ·) := by
    rw [nodes_region, map_id_numberFrom, List.pairwise_map]
    exact List.pairwise_lt_range.imp (fun hlt => by omega)
  exact List.pairwise_map.1 hids

/-- Nodes with the same id are the same. -/
theorem Region.Sorted.eq_of_id_eq {r : Region} (h : r.Sorted) {m n : FlowNode} (hm : m ∈ r.nodes)
    (hn : n ∈ r.nodes) (hid : m.id = n.id) : m = n := by
  have hnodup : (r.nodes.map FlowNode.id).Nodup := by
    rw [List.Nodup, List.pairwise_map]
    exact h.imp (fun hlt => Int.ne_of_lt hlt)
  exact List.inj_on_of_nodup_map hnodup hm hn hid

end FlowSketch
