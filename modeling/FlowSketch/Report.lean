import FlowSketch.Failure

/-!
# Reports

A computation that may fail reports its outcome together with the events on the way, which stand
whether it fails or not.

* `Event` — what is worth recording, with its `level` and `message`.
* `Report` — events and an outcome; `Report.note` adds an event and `Report.fail` gives up.
* `Report.each` — a computation for every item of a list, up to the first failure.

Results:

* `Report.each_eq_ok_iff`: a list succeeds exactly when each of its items does.
-/

namespace FlowSketch

/-! ## Events -/

/-- How much an event matters. -/
inductive Level where
  | debug
  | warning
  | error
  deriving DecidableEq, Repr

/-- The name of a level in records. -/
def Level.name : Level → String
  | debug => "DEBUG"
  | warning => "WARNING"
  | error => "ERROR"

/-- Something worth recording. -/
inductive Event where
  /-- A tree names a slot that no node has. -/
  | unknownSlot (slot kind : String)
  /-- A tree puts something into a slot that is not the position of a child. -/
  | slotOutOfRange (slot index kind : String)
  | malformedNode (node : Malformed)
  | chartBuilt (nodes edges malformed : Nat)
  | sourceParsed (bytes nodes : Nat)
  | sourceAnalyzed (lines functions : Nat) (names : List String) (loops : Nat) (growth : String)
    (score : Int)
  | chartGenerated (nodes edges : Nat)
  | generationFailed (failure : Failure)
  | analysisFailed (failure : Failure)
  deriving DecidableEq, Repr

namespace Event

/-- How much the event matters. -/
def level : Event → Level
  | unknownSlot .. | slotOutOfRange .. | malformedNode .. => .warning
  | chartBuilt .. | sourceParsed .. | sourceAnalyzed .. | chartGenerated .. => .debug
  | generationFailed .. | analysisFailed .. => .error

/-- The wording of an event. -/
def message : Event → String
  | unknownSlot slot kind => "Ignoring unknown slot '" ++ slot ++ "' on " ++ kind ++ " node"
  | slotOutOfRange slot index kind =>
    "Ignoring out-of-range slot " ++ slot ++ "=" ++ index ++ " on " ++ kind ++ " node"
  | malformedNode node =>
    "Malformed " ++ node.kind.name ++ " node at line " ++ toString node.line ++ ": " ++ node.message
  | chartBuilt nodes edges malformed =>
    "Built flowchart: " ++ toString nodes ++ " nodes, " ++ toString edges ++ " edges, " ++
      toString malformed ++ " malformed nodes"
  | sourceParsed bytes nodes =>
    "Parsed " ++ toString bytes ++ " bytes into " ++ toString nodes ++ " AST nodes"
  | sourceAnalyzed lines functions names loops growth score =>
    let listed := if names.isEmpty then "none" else ", ".intercalate names
    "Analyzed " ++ toString lines ++ " lines: " ++ toString functions ++ " functions (" ++ listed ++
      "), " ++ toString loops ++ " loops, complexity " ++ growth ++ ", score " ++ toString score
  | chartGenerated nodes edges =>
    "Generated flowchart with " ++ toString nodes ++ " nodes and " ++ toString edges ++ " edges"
  | generationFailed failure => "Flowchart generation error: " ++ failure.message
  | analysisFailed failure => "Performance analysis error: " ++ failure.message

/-- The malformed node that an event records. -/
def malformed? : Event → Option Malformed
  | malformedNode node => some node
  | _ => none

end Event

/-! ## Reports -/

/-- The events of a computation and its outcome. -/
structure Report (ε α : Type) where
  events : List Event
  outcome : Except ε α
  deriving Repr

namespace Report

variable {ε α β : Type}

instance : Monad (Report ε) where
  pure a := ⟨[], .ok a⟩
  bind x f :=
    match x.outcome with
    | .error e => ⟨x.events, .error e⟩
    | .ok a => ⟨x.events ++ (f a).events, (f a).outcome⟩

/-- Give up. -/
def fail (e : ε) : Report ε α := ⟨[], .error e⟩

/-- Record an event. -/
def note (event : Event) : Report ε Unit := ⟨[event], .ok ()⟩

/-- An outcome without events. -/
def ofExcept (outcome : Except ε α) : Report ε α := ⟨[], outcome⟩

/-- The same computation with its failures told in other terms. -/
def mapFailure {δ : Type} (f : ε → δ) (x : Report ε α) : Report δ α :=
  ⟨x.events, x.outcome.mapError f⟩

/-- The outcome as a result of its own, so that a failure can be looked at. -/
def settle {δ : Type} (x : Report ε α) : Report δ (Except ε α) := ⟨x.events, .ok x.outcome⟩

/-- The computation for every item, from the first to the last, up to the first failure. -/
def each (f : α → Report ε β) : List α → Report ε (List β)
  | [] => pure []
  | a :: rest => do
    let b ← f a
    let bs ← each f rest
    return b :: bs

@[simp] theorem outcome_pure (a : α) : (pure a : Report ε α).outcome = .ok a := rfl

@[simp] theorem events_pure (a : α) : (pure a : Report ε α).events = [] := rfl

theorem outcome_bind (x : Report ε α) (f : α → Report ε β) :
    (x >>= f).outcome = x.outcome.bind (fun a => (f a).outcome) := by
  cases h : x.outcome <;> simp [bind, h, Except.bind]

theorem outcome_bind_eq_ok_iff {x : Report ε α} {f : α → Report ε β} {b : β} :
    (x >>= f).outcome = .ok b ↔ ∃ a, x.outcome = .ok a ∧ (f a).outcome = .ok b := by
  cases h : x.outcome <;> simp [bind, h]

theorem each_eq_ok_iff {f : α → Report ε β} {as : List α} {bs : List β} :
    (each f as).outcome = .ok bs ↔
      bs.length = as.length ∧ ∀ p ∈ as.zip bs, (f p.1).outcome = .ok p.2 := by
  induction as generalizing bs with
  | nil => cases bs <;> simp [each]
  | cons a as ih =>
    simp only [each, outcome_bind_eq_ok_iff, outcome_pure, Except.ok.injEq]
    constructor
    · rintro ⟨b, hb, cs, hcs, rfl⟩
      have ⟨hlen, hall⟩ := ih.1 hcs
      refine ⟨by simp [hlen], ?_⟩
      simp only [List.zip_cons_cons, List.mem_cons, forall_eq_or_imp]
      exact ⟨hb, hall⟩
    · rintro ⟨hlen, hall⟩
      cases bs with
      | nil => simp at hlen
      | cons b bs =>
        simp only [List.length_cons, Nat.add_right_cancel_iff] at hlen
        simp only [List.zip_cons_cons, List.mem_cons, forall_eq_or_imp] at hall
        exact ⟨b, hall.1, bs, ih.2 ⟨hlen, hall.2⟩, rfl⟩

end Report

end FlowSketch
