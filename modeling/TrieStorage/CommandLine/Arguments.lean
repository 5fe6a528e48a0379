import TrieStorage.CommandLine.Invocation
import TrieStorage.Text.Decimal

/-!
# Arguments

Arguments are read from left to right on two levels: before the name of the
command and after it.  An option takes its value after an equals sign or from
the next argument, which then must not look like an option; two hyphens end the
options.  No option may be given twice on one level; of the options that both
levels have, the value on the later level counts.  Asking for the version or
for help takes effect where it is read, so only a fault before it matters.
-/

namespace TrieStorage

namespace CommandLine

/-- What a list of arguments asks for. -/
inductive Reading where
  | run (invocation : Invocation)
  | version
  | help
  /-- The arguments make no sense. -/
  | misuse
  deriving DecidableEq, Repr

/-- Why reading stopped before the end. -/
inductive Interruption where
  | version
  | help
  | misuse
  deriving DecidableEq, Repr

/-- An option without a value. -/
inductive Flag where
  | verbose
  | version
  | help
  deriving DecidableEq, Repr

namespace Flag

def named? : String → Option Flag
  | "verbose" => some .verbose
  | "version" => some .version
  | "help" => some .help
  | _ => none

def lettered? : Char → Option Flag
  | 'v' => some .verbose
  | 'V' => some .version
  | 'h' => some .help
  | _ => none

end Flag

/-- An option with a value. -/
inductive OptionName where
  | format
  | dir
  | dataDir
  | config
  | epoch
  | path
  deriving DecidableEq, Repr

/-- How results are printed, by name. -/
def formatNamed? : String → Option OutputFormat
  | "text" => some .text
  | "json" => some .json
  | _ => none

/-- The epoch that a text stands for: an integer with an optional sign, within
the bounds of an epoch. -/
def epoch? (text : String) : Option Epoch := do
  let (negative, digits) := match text.toList with
    | '+' :: rest => (false, rest)
    | '-' :: rest => (true, rest)
    | cs => (false, cs)
  let n ← Decimal.number? digits
  if n ≤ 4294967295 ∧ (negative = false ∨ n = 0) then some n else none

namespace OptionName

/-- How an option is written, after two hyphens. -/
def text : OptionName → String
  | .format => "format"
  | .dir => "dir"
  | .dataDir => "data-dir"
  | .config => "config"
  | .epoch => "epoch"
  | .path => "path"

/-- Whether an option can have a value; a path cannot be empty. -/
def accepts (name : OptionName) (value : String) : Bool :=
  match name with
  | .format => (formatNamed? value).isSome
  | .epoch => (epoch? value).isSome
  | .dir | .dataDir | .config | .path => !value.isEmpty

end OptionName

/-- What may be given on a level. -/
structure Rules where
  options : List OptionName
  operands : Nat
  /-- Whether the version can be asked for. -/
  version : Bool := false
  deriving DecidableEq, Repr

/-- What has been given on a level. -/
structure Level where
  verbose : Bool := false
  values : List (OptionName × String) := []
  operands : List String := []
  deriving DecidableEq, Repr

namespace Level

def value? (l : Level) (name : OptionName) : Option String :=
  (l.values.find? fun v => v.1 = name).map Prod.snd

/-- The level with a value for an option that has none yet. -/
def addValue (l : Level) (name : OptionName) (value : String) : Except Interruption Level :=
  if (l.value? name).isNone && name.accepts value then
    .ok { l with values := l.values ++ [(name, value)] }
  else .error .misuse

/-- The level with one more operand, if there may be more. -/
def addOperand (rules : Rules) (l : Level) (value : String) : Except Interruption Level :=
  if l.operands.length < rules.operands then .ok { l with operands := l.operands ++ [value] }
  else .error .misuse

def addFlag (rules : Rules) (l : Level) : Flag → Except Interruption Level
  | .verbose => if l.verbose then .error .misuse else .ok { l with verbose := true }
  | .version => .error (if rules.version then .version else .misuse)
  | .help => .error .help

/-- The level after a flag given by its letter. -/
def addLetter (rules : Rules) (l : Level) (letter : Char) : Except Interruption Level :=
  match Flag.lettered? letter with
  | some flag => l.addFlag rules flag
  | none => .error .misuse

end Level

/-- How an argument is meant. -/
inductive Shape where
  /-- Two hyphens alone. -/
  | endOfOptions
  /-- A name after two hyphens, and what follows an equals sign. -/
  | long (name : String) (attached : Option String)
  /-- Letters after one hyphen. -/
  | short (letters : List Char)
  | plain
  deriving DecidableEq, Repr

/-- A name, and what follows an equals sign. -/
def splitAttached (cs : List Char) : String × Option String :=
  match cs.dropWhile fun c => c ≠ '=' with
  | [] => (String.ofList cs, none)
  | _ :: value => (String.ofList (cs.takeWhile fun c => c ≠ '='), some (String.ofList value))

/-- The shape of an argument; a hyphen alone is plain. -/
def shapeOf (arg : String) : Shape :=
  match arg.toList with
  | ['-', '-'] => .endOfOptions
  | '-' :: '-' :: rest => .long (splitAttached rest).1 (splitAttached rest).2
  | '-' :: letter :: rest => .short (letter :: rest)
  | _ => .plain

/-- Reads a level up to the first argument at which it ends, which is left. -/
def readLevel (rules : Rules) (ends : String → Bool) :
    List String → Level → Except Interruption (Level × List String)
  | [], l => .ok (l, [])
  | arg :: rest, l =>
    if ends arg then .ok (l, arg :: rest)
    else
      match shapeOf arg with
      | .endOfOptions => do
        let l ← rest.foldlM (fun l value => l.addOperand rules value) l
        return (l, [])
      | .short letters => do
        let l ← letters.foldlM (fun l letter => l.addLetter rules letter) l
        readLevel rules ends rest l
      | .plain => do
        let l ← l.addOperand rules arg
        readLevel rules ends rest l
      | .long name attached =>
        match Flag.named? name, rules.options.find? fun o => o.text = name, attached, rest with
        | some flag, _, none, rest => do
          let l ← l.addFlag rules flag
          readLevel rules ends rest l
        | none, some option, some value, rest => do
          let l ← l.addValue option value
          readLevel rules ends rest l
        | none, some option, none, value :: rest =>
          if shapeOf value = .plain then do
            let l ← l.addValue option value
            readLevel rules ends rest l
          else .error .misuse
        | _, _, _, _ => .error .misuse
  termination_by args => args.length
  decreasing_by all_goals (simp only [List.length_cons]; omega)

/-- The commands by name. -/
inductive CommandName where
  | generations
  | get
  | snapshot
  | config
  deriving DecidableEq, Repr

namespace CommandName

def named? : String → Option CommandName
  | "generations" => some .generations
  | "get" => some .get
  | "snapshot" => some .snapshot
  | "config" => some .config
  | _ => none

/-- What may be given after the name of a command. -/
def rules : CommandName → Rules
  | .generations => { options := [.dir, .format], operands := 0 }
  | .get => { options := [.dataDir, .config, .epoch, .format], operands := 1 }
  | .snapshot => { options := [.dataDir, .config, .epoch, .format], operands := 1 }
  | .config => { options := [.path, .format], operands := 0 }

end CommandName

/-- What may be given before the name of a command. -/
def rootRules : Rules := { options := [.format], operands := 0, version := true }

/-- Whether an argument ends the level before the command. -/
def endsRoot (arg : String) : Bool := (CommandName.named? arg).isSome || arg = "help"

def storageOptions (l : Level) : StorageOptions :=
  { dataDir := (l.value? .dataDir).getD "."
    config := l.value? .config
    epoch := (l.value? .epoch).bind epoch? }

/-- The command with what was given after its name; what it needs has to be
there. -/
def command? (name : CommandName) (l : Level) : Option Command :=
  match name with
  | .generations => (l.value? .dir).map .generations
  | .get => l.operands.head?.map fun key => .get key (storageOptions l)
  | .snapshot => l.operands.head?.map fun root => .snapshot root (storageOptions l)
  | .config => some (.config (l.value? .path))

def invocation (root : Level) (name : CommandName) (l : Level) : Except Interruption Invocation :=
  match command? name l with
  | none => .error .misuse
  | some command =>
    let format := (l.value? .format <|> root.value? .format).bind formatNamed?
    .ok { command, format := format.getD .text, verbose := l.verbose || root.verbose }

/-- What the words after `help` ask for: one more command may be named, `help`
itself included, and nothing may follow it. -/
def helpOn : List String → Interruption
  | [] => .help
  | [word] => if endsRoot word then .help else .misuse
  | _ :: _ :: _ => .misuse

def readArguments (args : List String) : Except Interruption Invocation := do
  let (root, rest) ← readLevel rootRules endsRoot args {}
  match rest with
  | [] => .error .misuse
  | word :: rest =>
    match CommandName.named? word with
    | none => .error (helpOn rest)
    | some name =>
      let (l, _) ← readLevel name.rules (fun _ => false) rest {}
      invocation root name l

def read (args : List String) : Reading :=
  match readArguments args with
  | .ok invocation => .run invocation
  | .error .version => .version
  | .error .help => .help
  | .error .misuse => .misuse

end CommandLine

end TrieStorage
