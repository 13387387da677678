import FlowSketch.Text.Integer

/-!
# Command line arguments

The two commands and how they are written. Options may stand in any order, may be shortened as long
as they stay unambiguous, and take their value from behind `=` or from the next argument; options
of one letter may share a dash.

* `Word.classify` — what an argument is, judged by itself.
* `Choices.read` — the choices that the arguments of a command make.
* `Invocation.read` — the command that a whole line asks for.

Arguments are refused as a whole: a request for help met before any mistake is answered, and every
mistake ends with the same status.
-/

namespace FlowSketch.Command

/-- The options of the program and of its commands. -/
inductive Opt where
  | help
  | verbose
  | file
  | out
  | json
  deriving DecidableEq, Repr

namespace Opt

/-- The spellings of an option. -/
def names : Opt → List String
  | help => ["-h", "--help"]
  | verbose => ["--verbose", "-v"]
  | file => ["--file"]
  | out => ["--out"]
  | json => ["--json"]

/-- Options that need a value. -/
def takesValue : Opt → Bool
  | file | out => true
  | _ => false

end Opt

/-- Why there is nothing to run. -/
inductive Stop where
  /-- Help is asked for. -/
  | help
  /-- The arguments are no command. -/
  | misuse
  deriving DecidableEq, Repr

/-! ## Words -/

/-- What is attached to an option in the same argument. -/
inductive Attachment where
  | nothing
  /-- The text behind `=`. -/
  | assigned (text : String)
  /-- The text right behind an option of one letter. -/
  | glued (text : String)
  deriving DecidableEq, Repr

/-- What an argument is. -/
inductive Word where
  /-- A command or a value. -/
  | plain (text : String)
  /-- Two dashes, behind which everything is plain. -/
  | separator
  /-- An option, with what is attached to it. -/
  | option (opt : Opt) (attached : Attachment)
  /-- What looks like an option and is none. -/
  | unknown
  /-- What may be short for several options. -/
  | ambiguous
  deriving DecidableEq, Repr

namespace Word

/-- The spellings of some options, each with its option. -/
def spellings (options : List Opt) : List (String × Opt) :=
  options.flatMap (fun opt => opt.names.map (·, opt))

/-- The parts of an argument around its first `=`. -/
def splitAssignment (text : String) : String × Attachment :=
  let cs := text.toList
  match cs.dropWhile (· ≠ '=') with
  | _ :: value => (String.ofList (cs.takeWhile (· ≠ '=')), .assigned (String.ofList value))
  | [] => (text, .nothing)

/-- A text begins with another. -/
def beginsWith (text start : String) : Bool := start.toList.isPrefixOf text.toList

/-- The options that a shortened spelling may mean. With two dashes it may be cut anywhere; with one
    dash its first letter is an option and the rest is attached. -/
def expansions (options : List Opt) (text : String) : List Word :=
  if beginsWith text "--" then
    let (start, value) := splitAssignment text
    (spellings options).filterMap (fun (spelling, opt) =>
      if beginsWith spelling start then some (option opt value) else none)
  else
    let letter := String.ofList (text.toList.take 2)
    let rest := String.ofList (text.toList.drop 2)
    (spellings options).filterMap (fun (spelling, opt) =>
      if spelling == letter then some (option opt (.glued rest))
      else if beginsWith spelling text then some (option opt .nothing)
      else none)

/-- A negative number: a dash, digits, and perhaps a point with digits behind it. -/
def isNegativeNumber (text : String) : Bool :=
  match text.toList with
  | '-' :: cs =>
    let isDigit (c : Char) : Bool := (Text.digitValue? c).isSome
    match cs.dropWhile isDigit with
    | [] => !cs.isEmpty
    | '.' :: fraction => !fraction.isEmpty && fraction.all isDigit
    | _ => false
  | _ => false

/-- What an argument is where the options are possible. -/
def classify (options : List Opt) (text : String) : Word :=
  if text == "--" then separator
  else if !beginsWith text "-" || text == "-" then plain text
  else
    let known (spelling : String) := (spellings options).lookup spelling
    let (start, value) := splitAssignment text
    match known text, known start with
    | some opt, _ => option opt .nothing
    | none, some opt => option opt value
    | none, none =>
      match expansions options text with
      | _ :: _ :: _ => ambiguous
      | [word] => word
      | [] =>
        if isNegativeNumber text || text.toList.contains ' ' then plain text else unknown

/-- The words of several arguments. -/
def classifyAll (options : List Opt) : List String → List Word
  | [] => []
  | text :: rest =>
    match classify options text with
    | separator => separator :: rest.map plain
    | word => word :: classifyAll options rest

end Word

/-! ## Choices -/

/-- What the options of a command have settled so far. -/
structure Choices where
  verbose : Bool := false
  json : Bool := false
  file : Option String := none
  out : Option String := none
  /-- Whether something stood there that no option or command takes. -/
  surplus : Bool := false
  deriving DecidableEq, Repr

namespace Choices

/-- An option without a value takes effect. -/
def take (c : Choices) : Opt → Except Stop Choices
  | .help => .error .help
  | .verbose => .ok { c with verbose := true }
  | .json => .ok { c with json := true }
  | .file | .out => .error .misuse

/-- An option takes effect with its value. No path holds a null character. -/
def takeValue (c : Choices) (opt : Opt) (value : String) : Except Stop Choices :=
  if value.toList.contains (Char.ofNat 0) then .error .misuse
  else match opt with
    | .file => .ok { c with file := some value }
    | .out => .ok { c with out := some value }
    | _ => .error .misuse

/-- The options of one letter that a text glued to another one adds, and whether the text goes on
    behind them. Neither a dash nor `=` may stand there. -/
def letters (options : List Opt) : List Char → Except Stop (List Opt × Bool)
  | [] => .ok ([], false)
  | letter :: rest =>
    if letter = '-' ∨ letter = '=' then .error .misuse
    else match (Word.spellings options).lookup (String.ofList ['-', letter]) with
      | some opt => do
        let (opts, surplus) ← letters options rest
        return (opt :: opts, surplus)
      | none => .ok ([], true)

/-- An option without a value takes effect, and then the options glued to it. -/
def takeAttached (options : List Opt) (c : Choices) (opt : Opt) :
    Attachment → Except Stop Choices
  | .nothing => c.take opt
  | .assigned _ => .error .misuse
  | .glued text => do
    let (more, surplus) ← letters options text.toList
    let c ← (opt :: more).foldlM take c
    return { c with surplus := c.surplus || surplus }

/-- The choices that the words of a command make. -/
def read (options : List Opt) : List Word → Choices → Except Stop Choices
  | [], c => .ok c
  | .option opt attached :: rest, c =>
    if opt.takesValue then
      match attached with
      | .assigned value | .glued value => do
        let c ← c.takeValue opt value
        read options rest c
      | .nothing =>
        match rest with
        | .plain value :: more => do
          let c ← c.takeValue opt value
          read options more c
        | _ => .error .misuse
    else do
      let c ← c.takeAttached options opt attached
      read options rest c
  | _ :: rest, c => read options rest { c with surplus := true }

end Choices

/-! ## Invocations -/

/-- What the program is asked to do. -/
inductive Task where
  /-- Draw the flowchart of a file, and print it or write it to another file. -/
  | flowchart (file : String) (out : Option String) (json : Bool)
  /-- Print the figures of a file. -/
  | analyze (file : String) (json : Bool)
  deriving DecidableEq, Repr

/-- A task, and whether everything is to be recorded on the way. -/
structure Invocation where
  verbose : Bool
  task : Task
  deriving DecidableEq, Repr

namespace Invocation

/-- The options that may stand before a command. -/
def globalOptions : List Opt := [.help, .verbose]

/-- The options of a command. -/
def optionsOf? : String → Option (List Opt)
  | "flowchart" => some [.help, .file, .out, .json]
  | "analyze" => some [.help, .file, .json]
  | _ => none

/-- The command of that name with its arguments. A command without a file is none, and nor is one
    with anything left over. -/
def readCommand (name : String) (args : List String) (before : Choices) :
    Except Stop Invocation := do
  let some options := optionsOf? name | .error .misuse
  let words := Word.classifyAll options args
  if words.contains .ambiguous then .error .misuse
  let c ← Choices.read options words before
  match c.surplus, c.file with
  | false, some file =>
    return ⟨c.verbose, if name == "analyze" then .analyze file c.json
      else .flowchart file c.out c.json⟩
  | _, _ => .error .misuse

/-- The words up to the name of a command, and that command. -/
def readWords : List (Word × String) → Choices → Except Stop Invocation
  | [], _ => .error .misuse
  | (.plain name, _) :: rest, c => readCommand name (rest.map Prod.snd) c
  | (.unknown, _) :: rest, c => readWords rest { c with surplus := true }
  | (.option opt attached, _) :: rest, c => do
    let c ← c.takeAttached globalOptions opt attached
    readWords rest c
  | _ :: _, _ => .error .misuse

/-- What a whole command line asks for. Model of `build_parser` with its `parse_args`. -/
def read (args : List String) : Except Stop Invocation :=
  let words := Word.classifyAll globalOptions args
  if words.contains .ambiguous then .error .misuse
  else readWords (words.zip args) {}

end Invocation

end FlowSketch.Command
