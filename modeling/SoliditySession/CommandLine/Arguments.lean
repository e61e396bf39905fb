/- Reading the arguments of the program. Options may stand before the command and behind it; a value
is held back until the next argument shows that it is complete. -/
namespace SoliditySession.CommandLine

/-- Options with a value. -/
inductive Setting
  | solc | rpcUrl | signer | config
deriving DecidableEq

namespace Setting

def all : List Setting := [solc, rpcUrl, signer, config]

def word : Setting → String
  | solc => "solc"
  | rpcUrl => "rpc-url"
  | signer => "signer"
  | config => "config"

/-- Whether the value names a file, so that it is not empty. -/
def isPath : Setting → Bool
  | solc | config => true
  | rpcUrl | signer => false

end Setting

inductive Flag
  | noExec | verbose
deriving DecidableEq

inductive Command
  | repl | init | eval | source | help
deriving DecidableEq

namespace Command

def all : List Command := [repl, init, eval, source, help]

def word : Command → String
  | repl => "repl"
  | init => "init"
  | eval => "eval"
  | source => "source"
  | help => "help"

def ofWord? (w : String) : Option Command := all.find? (·.word == w)

def takesLines : Command → Bool
  | eval | source => true
  | _ => false

end Command

/-- What a word that begins with a hyphen means. -/
inductive Switch
  | setting (s : Setting)
  | flag (f : Flag)
  | help
  | version

/-- Switches of several letters; the version is asked for without a command. -/
def Switch.ofWord? (command : Option Command) (w : String) : Option Switch :=
  match Setting.all.find? (·.word == w) with
  | some s => some (.setting s)
  | none =>
    match w with
    | "no-exec" => some (.flag .noExec)
    | "verbose" => some (.flag .verbose)
    | "help" => some .help
    | "version" => if command.isNone then some .version else none
    | _ => none

def Switch.ofLetter? (command : Option Command) : Char → Option Switch
  | 'v' => some (.flag .verbose)
  | 'h' => some .help
  | 'V' => if command.isNone then some .version else none
  | _ => none

inductive Misuse
  | unknown (word : String)
  | surplus (word : String)
  | surplusValue (word : String)
  | missingValue (s : Setting)
  | emptyValue (s : Setting)
  | repeated (word : String)
  | missingLines

def Misuse.message : Misuse → String
  | .unknown word => "unknown argument '" ++ word ++ "'"
  | .surplus word => "unexpected argument '" ++ word ++ "'"
  | .surplusValue word => "unexpected value for '" ++ word ++ "'"
  | .missingValue s => "a value is required for '--" ++ s.word ++ "'"
  | .emptyValue s => "the value for '--" ++ s.word ++ "' must not be empty"
  | .repeated word => "the argument '--" ++ word ++ "' cannot be used multiple times"
  | .missingLines => "no lines were given"

/-- Why the arguments ask for no run. -/
inductive Stop
  | help (about : Option Command)
  | version
  | misuse (m : Misuse)

/-- What has been set, latest first. -/
structure Options where
  values : List (Setting × String) := []
  flags : List Flag := []

namespace Options

def value? (o : Options) (s : Setting) : Option String := o.values.lookup s

def has (o : Options) (f : Flag) : Bool := o.flags.contains f

/-- What is set behind the command comes before what is set in front of it. -/
def within (inner outer : Options) : Options :=
  ⟨inner.values ++ outer.values, inner.flags ++ outer.flags⟩

end Options

inductive Action
  | repl
  | init
  | eval (lines : List String)
  | source (lines : List String)

structure Invocation where
  options : Options
  action : Action

/-- The arguments read so far in front of a command or behind one. -/
structure Level where
  options : Options := {}
  /-- A setting that still waits for its value, or whose value is not yet looked at. -/
  pending : Option (Setting × Option String) := none
  lines : List String := []

namespace Level

/-- Takes over the setting that was held back. -/
def settle (l : Level) : Except Stop Level :=
  match l.pending with
  | none => .ok l
  | some (s, none) => .error (.misuse (.missingValue s))
  | some (s, some v) =>
    if s.isPath && v == "" then .error (.misuse (.emptyValue s))
    else if (l.options.value? s).isSome then .error (.misuse (.repeated s.word))
    else
      .ok { l with pending := none, options := { l.options with values := (s, v) :: l.options.values } }

def setFlag (f : Flag) (word : String) (l : Level) : Except Stop Level :=
  if l.options.has f then .error (.misuse (.repeated word))
  else .ok { l with options := { l.options with flags := f :: l.options.flags } }

/-- Obeys a switch without an attached value. -/
def obey (command : Option Command) (word : String) (l : Level) : Switch → Except Stop Level
  | .setting s => l.settle.map ({ · with pending := some (s, none) })
  | .flag f => do (← l.settle).setFlag f word
  | .help => do
    let _ ← l.settle
    .error (.help command)
  | .version => do
    let _ ← l.settle
    .error .version

/-- Reads what follows two hyphens. -/
def longSwitch (command : Option Command) (cs : List Char) (l : Level) : Except Stop Level :=
  let word := String.ofList (cs.takeWhile (· != '='))
  match Switch.ofWord? command word, cs.dropWhile (· != '=') with
  | none, _ => .error (.misuse (.unknown word))
  | some (.setting s), _ :: v => do
    let l ← l.settle
    settle { l with pending := some (s, some (.ofList v)) }
  | some _, _ :: _ => .error (.misuse (.surplusValue word))
  | some switch, [] => l.obey command word switch

/-- Reads the letters that follow one hyphen. -/
def shortSwitches (command : Option Command) : List Char → Level → Except Stop Level
  | [], l => .ok l
  | c :: cs, l =>
    match Switch.ofLetter? command c with
    | none => .error (.misuse (.unknown ("-" ++ c.toString)))
    | some switch => do shortSwitches command cs (← l.obey command c.toString switch)

/-- Takes a word that is neither a switch nor a value. -/
def takeWord (command : Option Command) (word : String) (l : Level) : Except Stop Level := do
  let l ← l.settle
  match command with
  | none => .error (.misuse (.unknown word))
  | some c =>
    if c.takesLines then .ok { l with lines := l.lines ++ [word] }
    else .error (.misuse (.surplus word))

/-- Reads a word that has no meaning as a command. -/
def read (command : Option Command) (word : String) (l : Level) : Except Stop Level :=
  match word.toList, l.pending with
  | '-' :: '-' :: cs, _ => l.longSwitch command cs
  | '-' :: c :: cs, _ => l.shortSwitches command (c :: cs)
  | _, some (s, none) => .ok { l with pending := some (s, some word) }
  | _, _ => l.takeWord command word

/-- Whether the next word may be a command. -/
def mayTurn (command : Option Command) (l : Level) : Bool :=
  command.isNone && (match l.pending with | some (_, none) => false | _ => true)

/-- Reads words up to a command; what follows two hyphens standing alone is taken as it is. -/
def scan (command : Option Command) :
    List String → Level → Except Stop (Level × Option (Command × List String))
  | [], l => .ok (l, none)
  | word :: words, l =>
    match Command.ofWord? word with
    | some c => if l.mayTurn command then .ok (l, some (c, words)) else next word words l
    | none => next word words l
where
  next (word : String) (words : List String) (l : Level) :
      Except Stop (Level × Option (Command × List String)) :=
    if word == "--" then (words.foldlM (fun (l : Level) w => l.takeWord command w) l).map (·, none)
    else do scan command words (← l.read command word)

end Level

/-- The command that help is asked for. -/
def helpTopic : List String → Stop
  | [] => .help none
  | word :: words =>
    match Command.ofWord? word, words with
    | none, _ => .misuse (.unknown word)
    | some c, [] => .help (some c)
    | some _, more :: _ => .misuse (.unknown more)

def Command.action (c : Command) (lines : List String) : Except Stop Action :=
  match c, lines with
  | .repl, _ => .ok .repl
  | .init, _ => .ok .init
  | .eval, [] | .source, [] => .error (.misuse .missingLines)
  | .eval, lines => .ok (.eval lines)
  | .source, lines => .ok (.source lines)
  | .help, _ => .error (.help none)

/-- Reads what follows a command. -/
def readCommand : Command → List String → Except Stop (Action × Options)
  | .help, words => .error (helpTopic words)
  | c, words => do
    let (l, _) ← Level.scan (some c) words {}
    let l ← l.settle
    return (← c.action l.lines, l.options)

/-- What the arguments ask for; without a command it is the interactive loop. -/
def Invocation.ofArguments (words : List String) : Except Stop Invocation := do
  let (outer, turn) ← Level.scan none words {}
  match turn with
  | none => return ⟨(← outer.settle).options, .repl⟩
  | some (c, words) =>
    let (action, inner) ← readCommand c words
    return ⟨inner.within (← outer.settle).options, action⟩

end SoliditySession.CommandLine
