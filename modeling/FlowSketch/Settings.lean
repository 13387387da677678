import FlowSketch.Text.Integer

/-!
# Settings

What can be set from the environment, with the values that hold otherwise.

* `Settings` — the settings.
* `Settings.ofEnvironment` — the settings of an environment; an integer that cannot be read is an
  error.
* `Settings.directionOr` — a direction given for one drawing goes before the settings.
-/

namespace FlowSketch

structure Settings where
  /-- The length that labels are cut to in Mermaid text; no limit unless positive. -/
  labelLimit : Int := 60
  /-- The direction in which a flowchart is drawn. -/
  direction : String := "TD"
  /-- How many steps below its root a tree may reach. -/
  depthLimit : Int := 200
  deriving DecidableEq, Repr

namespace Settings

/-- The variable does not hold an integer. -/
structure BadInteger where
  key : String
  deriving DecidableEq, Repr

/-- The integer in a variable of the environment, or the default where the variable is not set. -/
def integerFrom (env : String → Option String) (key : String) (default : Int) :
    Except BadInteger Int :=
  match env key with
  | none => .ok default
  | some text =>
    match Text.readInteger text with
    | some n => .ok n
    | none => .error ⟨key⟩

/-- The variables of the environment that are looked at. -/
def labelLimitKey : String := "CPPFLOW_MAX_LABEL_CHARS"

@[inherit_doc labelLimitKey]
def directionKey : String := "CPPFLOW_MERMAID_DIRECTION"

@[inherit_doc labelLimitKey]
def depthLimitKey : String := "CPPFLOW_MAX_AST_DEPTH"

/-- The settings of an environment. Model of `Settings`. -/
def ofEnvironment (env : String → Option String) : Except BadInteger Settings := do
  let standard : Settings := {}
  let labelLimit ← integerFrom env labelLimitKey standard.labelLimit
  let depthLimit ← integerFrom env depthLimitKey standard.depthLimit
  return { labelLimit, direction := (env directionKey).getD standard.direction, depthLimit }

/-- The direction given, or the one of the settings when none is given or it is empty. -/
def directionOr (settings : Settings) (direction : Option String) : String :=
  (direction.filter (fun d => !d.isEmpty)).getD settings.direction

end Settings

end FlowSketch
