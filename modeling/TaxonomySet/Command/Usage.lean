import TaxonomySet.Text.Cut
import TaxonomySet.Vocabulary

namespace TaxonomySet.Command

/-- An option of a command. -/
structure Switch where
  name : String
  letter : Option Char := none
  takesValue : Bool := true
  repeats : Bool := false
  /-- Whether the value is a path, which is never empty. -/
  isPath : Bool := false

/-- The words of a command line by their meaning: options in the order given, each with its value,
and operands. -/
structure Words where
  options : List (String × String) := []
  operands : List String := []
deriving DecidableEq, Repr

/-- What a command line asks for. -/
inductive Parsed (α : Type) where
  | help
  | wrong
  | meant (a : α)
deriving DecidableEq, Repr

namespace Parsed

/-- Reads on, unless the line asks for help or is wrong. -/
def bind {α β : Type} (p : Parsed α) (f : α → Parsed β) : Parsed β :=
  match p with
  | help => help
  | wrong => wrong
  | meant a => f a

instance : Monad Parsed where
  pure := meant
  bind := bind

/-- A value that has to be there. -/
def require {α : Type} : Option α → Parsed α
  | some a => meant a
  | none => wrong

end Parsed

namespace Words

/-- Enters an option. Only some may be given more than once, and a path is not empty. -/
def enter (w : Words) (s : Switch) (value : String) : Parsed Words :=
  if (!s.repeats && w.options.any (·.1 == s.name)) || (s.isPath && value.isEmpty) then .wrong
  else .meant { w with options := w.options ++ [(s.name, value)] }

/-- Whether a word looks like an option. A lone dash does not. -/
def looksLikeOption (word : String) : Bool := Text.startsWith "-" word && word != "-"

/-- How an option was written: what it is, and the value attached to it. -/
inductive Written where
  | help
  | wrong
  | option (s : Switch) (value : Option String)

/-- The option that a word writes. -/
def written (switches : List Switch) (word : String) : Written :=
  match word.toList with
  | '-' :: '-' :: rest =>
    let (name, value) := (Text.cut? '=' (String.ofList rest)).elim (String.ofList rest, none)
      fun p => (p.1, some p.2)
    if name = "help" then if value.isNone then .help else .wrong
    else match switches.find? (·.name == name) with
      | some s => .option s value
      | none => .wrong
  | '-' :: c :: rest =>
    if c = 'h' then .help
    else match switches.find? (·.letter == some c) with
      | some s => .option s <| match rest with
        | [] => none
        | '=' :: value => some (String.ofList value)
        | value => some (String.ofList value)
      | none => .wrong
  | _ => .wrong

/-- Enters an operand. All operands are paths, and a command may take a single one. -/
def enterOperand (single : Bool) (w : Words) (operand : String) : Parsed Words :=
  if operand.isEmpty || (single && !w.operands.isEmpty) then .wrong
  else .meant { w with operands := w.operands ++ [operand] }

/-- Reads the words of a command line, of which the first that is wrong or asks for help decides. An option takes its
value from behind an equals sign, from the rest of its own word if it is a single letter, or from the next word, which
must not look like an option. Behind a lone `--` everything is an operand. -/
def scan (switches : List Switch) (single : Bool) (w : Words) : List String → Parsed Words
  | [] => .meant w
  | word :: rest =>
    if word = "--" then rest.foldlM (enterOperand single) w
    else if looksLikeOption word then
      match written switches word with
      | .help => .help
      | .wrong => .wrong
      | .option s value =>
        if !s.takesValue then
          if value.isSome then .wrong
          else (w.enter s "").bind fun w => scan switches single w rest
        else match value with
          | some value => (w.enter s value).bind fun w => scan switches single w rest
          | none =>
            match rest with
            | value :: rest =>
              if looksLikeOption value then .wrong
              else (w.enter s value).bind fun w => scan switches single w rest
            | [] => .wrong
    else (w.enterOperand single word).bind fun w => scan switches single w rest

/-- The value of an option. -/
def value? (w : Words) (name : String) : Option String := w.options.lookup name

/-- Whether an option is given. -/
def has (w : Words) (name : String) : Bool := (w.value? name).isSome

/-- All values of an option. -/
def values (w : Words) (name : String) : List String :=
  (w.options.filter (·.1 == name)).map (·.2)

end Words

/-- Loads a taxonomy set and says how large it is. -/
structure LoadCommand where
  entries : List String
  snapshot : Option String := none
  linkbases : Bool := true
  validate : Bool := false
  strict : Bool := false
deriving DecidableEq, Repr

/-- Shows the hypercubes of a primary item. -/
structure HypercubesCommand where
  source : String
  primary : String
  role : String
deriving DecidableEq, Repr

/-- Shows a label of a concept. -/
structure LabelCommand where
  source : String
  concept : String
  lang : String
  roles : List String
  linkRole : String
deriving DecidableEq, Repr

/-- The commands. -/
inductive Request where
  | load (c : LoadCommand)
  | hypercubes (c : HypercubesCommand)
  | label (c : LabelCommand)
deriving DecidableEq, Repr

namespace Request

/-- The options of `load`. -/
def loadSwitches : List Switch := [
  { name := "snapshot", letter := some 's', isPath := true },
  { name := "no-linkbases", takesValue := false },
  { name := "serial", takesValue := false },
  { name := "validate", takesValue := false },
  { name := "strict", takesValue := false }]

/-- The options of `hypercubes`. -/
def hypercubesSwitches : List Switch := [
  { name := "primary", letter := some 'p' },
  { name := "role", letter := some 'r' }]

/-- The options of `label`. -/
def labelSwitches : List Switch := [
  { name := "concept", letter := some 'c' },
  { name := "lang", letter := some 'l' },
  { name := "label-role", repeats := true },
  { name := "link-role" }]

/-- Reads the words behind `load`. -/
def load? (words : List String) : Parsed Request := do
  let w ← Words.scan loadSwitches false {} words
  if w.operands.isEmpty then .wrong
  return .load {
    entries := w.operands
    snapshot := w.value? "snapshot"
    linkbases := !w.has "no-linkbases"
    validate := w.has "validate"
    strict := w.has "strict" }

/-- Reads the words behind `hypercubes`. -/
def hypercubes? (words : List String) : Parsed Request := do
  let w ← Words.scan hypercubesSwitches true {} words
  let source ← Parsed.require w.operands.head?
  let primary ← Parsed.require (w.value? "primary")
  let role ← Parsed.require (w.value? "role")
  return .hypercubes ⟨source, primary, role⟩

/-- Reads the words behind `label`. -/
def label? (words : List String) : Parsed Request := do
  let w ← Words.scan labelSwitches true {} words
  let source ← Parsed.require w.operands.head?
  let concept ← Parsed.require (w.value? "concept")
  let roles := w.values "label-role"
  return .label {
    source := source
    concept := concept
    lang := (w.value? "lang").getD "en"
    roles := if roles.isEmpty then [Vocabulary.labelRole] else roles
    linkRole := (w.value? "link-role").getD Vocabulary.standardLinkRole }

/-- Reads the words behind `help`: nothing, or the name of a command. -/
def help? : List String → Parsed Request
  | [] => .help
  | [word] => if word ∈ ["load", "hypercubes", "label", "help"] then .help else .wrong
  | _ => .wrong

/-- Reads a command line. -/
def ofWords : List String → Parsed Request
  | "load" :: words => load? words
  | "hypercubes" :: words => hypercubes? words
  | "label" :: words => label? words
  | "help" :: words => help? words
  | "--help" :: _ | "--version" :: _ => .help
  | word :: _ =>
    match word.toList with
    | '-' :: 'h' :: _ | '-' :: 'V' :: _ => .help
    | _ => .wrong
  | [] => .wrong

end Request

end TaxonomySet.Command
