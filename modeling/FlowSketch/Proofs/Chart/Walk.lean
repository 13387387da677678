import FlowSketch.Proofs.Chart.WellFormed
import Mathlib.Computability.Language
import Mathlib.Logic.Relation

/-!
# Walks

Walks along the edges of a flowchart, as the sequences of the nodes that they visit.

* `Step`, `Reaches` — an edge, or some edges, lead from one node to another.
* `Walk` — a walk from a node to a node, with the nodes on it.
* `Fragment.executions` — the walks from the entry of a fragment to one of its exits.

Results:

* `Walk.append`: walks are joined by an edge.
* `Walk.escape`: a walk keeps to the edges of a part, or there is a first edge that leaves it.
* `Walk.stay`: a walk cannot leave a part that no edge leaves.
-/

namespace FlowSketch

/-- An edge leads from one node to the other. -/
def Step (edges : List FlowEdge) (source target : Int) : Prop :=
  ∃ e ∈ edges, e.source = source ∧ e.target = target

theorem Step.mono {edges edges' : List FlowEdge} (h : ∀ e ∈ edges, e ∈ edges') {u v : Int}
    (huv : Step edges u v) : Step edges' u v := by
  obtain ⟨e, he, hs, ht⟩ := huv
  exact ⟨e, h e he, hs, ht⟩

/-- Edges lead from one node to the other. -/
def Reaches (edges : List FlowEdge) : Int → Int → Prop := Relation.ReflTransGen (Step edges)

theorem Reaches.mono {edges edges' : List FlowEdge} (h : ∀ e ∈ edges, e ∈ edges') {u v : Int}
    (huv : Reaches edges u v) : Reaches edges' u v :=
  Relation.ReflTransGen.mono (fun _ _ hab => hab.mono h) u v huv

/-- A walk along edges, with the nodes that it visits, both ends included. -/
inductive Walk (edges : List FlowEdge) : Int → List Int → Int → Prop
  | single (u : Int) : Walk edges u [u] u
  | cons {u v t : Int} {w : List Int} : Step edges u v → Walk edges v w t → Walk edges u (u :: w) t

namespace Walk

variable {edges edges' : List FlowEdge} {u v : Int} {w : List Int}

/-- A walk is over at once or goes on with an edge. -/
theorem iff_single_or_cons : Walk edges u w v ↔
    (u = v ∧ w = [u]) ∨ ∃ a w', Step edges u a ∧ w = u :: w' ∧ Walk edges a w' v := by
  constructor
  · intro hw
    cases hw with
    | single => exact .inl ⟨rfl, rfl⟩
    | cons hs hw => exact .inr ⟨_, _, hs, rfl, hw⟩
  · rintro (⟨rfl, rfl⟩ | ⟨a, w', hs, rfl, hw⟩)
    · exact .single u
    · exact .cons hs hw

theorem mono (h : ∀ e ∈ edges, e ∈ edges') (hw : Walk edges u w v) : Walk edges' u w v := by
  induction hw with
  | single u => exact .single u
  | cons hs _ ih => exact .cons (hs.mono h) ih

theorem append {a b : Int} {w' : List Int} (hw : Walk edges u w a) (hab : Step edges a b)
    (hw' : Walk edges b w' v) : Walk edges u (w ++ w') v := by
  induction hw with
  | single a => exact .cons hab hw'
  | cons hs _ ih => exact .cons hs (ih hab)

/-- A walk that starts in a part keeps to the edges of the part, or there is a first edge on it
    that leaves the part. -/
theorem escape {P : Int → Prop} (hin : ∀ e ∈ edges, P e.source → P e.target → e ∈ edges')
    (hw : Walk edges u w v) (hu : P u) :
    (P v ∧ Walk edges' u w v) ∨ ∃ e ∈ edges, P e.source ∧ ¬P e.target ∧ ∃ w₁ w₂, w = w₁ ++ w₂ ∧
      Walk edges' u w₁ e.source ∧ Walk edges e.target w₂ v := by
  induction hw with
  | single u => exact .inl ⟨hu, .single u⟩
  | @cons u a v w hs hw ih =>
    obtain ⟨e, he, rfl, rfl⟩ := hs
    by_cases ha : P e.target
    · have hstep : Step edges' e.source e.target := ⟨e, hin e he hu ha, rfl, rfl⟩
      rcases ih ha with ⟨hv, hw'⟩ | ⟨e', he', hsource, htarget, w₁, w₂, rfl, h₁, h₂⟩
      · exact .inl ⟨hv, .cons hstep hw'⟩
      · exact .inr ⟨e', he', hsource, htarget, e.source :: w₁, w₂, rfl, .cons hstep h₁, h₂⟩
    · exact .inr ⟨e, he, hu, ha, [e.source], w, rfl, .single _, hw⟩

/-- A walk cannot leave a part that no edge leaves. -/
theorem stay {P : Int → Prop} (hin : ∀ e ∈ edges, P e.source → e ∈ edges' ∧ P e.target)
    (hw : Walk edges u w v) (hu : P u) : P v ∧ Walk edges' u w v := by
  rcases hw.escape (fun e he hs _ => (hin e he hs).1) hu with h | ⟨e, he, hs, ht, -⟩
  · exact h
  · exact absurd (hin e he hs).2 ht

end Walk

/-- The walks from the entry of a fragment to one of its exits, as the sequences of the nodes that
    they visit. A fragment without an entry is passed through without a step. -/
def Fragment.executions (edges : List FlowEdge) (part : Fragment) : Language Int :=
  match part.entry with
  | some entry => {w | ∃ x ∈ part.exits, Walk edges entry w x.source}
  | none => 1

end FlowSketch
