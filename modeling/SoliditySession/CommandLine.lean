import SoliditySession.CommandLine.Help
import SoliditySession.Config.Project
import SoliditySession.Import
import SoliditySession.Node.Execution
import SoliditySession.Node.Http
import SoliditySession.Prompt.Loop
import SoliditySession.StandardJson.Program
/- A whole run of the program: arguments and configuration, the commands, and what they leave. -/
namespace SoliditySession

/-- What a run finds around it: files, the environment, the input, programs to start and nodes to
ask. -/
structure Machine (σ : Type) where
  files : FileTree
  cwd : String
  home : Option String
  historyVariable : Option String
  style : Style
  input : List UInt8
  program : String → StandardJson.Program σ
  endpoint : String → Node.Endpoint

namespace CommandLine
variable {σ : Type}

/-- What a run leaves. -/
structure Result (σ : Type) where
  output : List Output
  code : Nat
  files : FileTree
  state : σ
  requests : List Node.Request

/-- Options come before the configuration. -/
def Options.override (o : Options) (c : Config) : Config :=
  { c with
    compiler := { c.compiler with program := (o.value? .solc).getD c.compiler.program }
    node := { c.node with
      url := (o.value? .rpcUrl).getD c.node.url
      signer := (o.value? .signer).orElse fun _ => c.node.signer } }

def project (m : Machine σ) (o : Options) : Except ConfigFault Project :=
  let found := match o.value? .config with
    | some path => Project.ofFile m.files m.cwd path
    | none => Project.find m.files m.cwd m.home
  found.map fun p => { p with config := o.override p.config }

def toolchain (m : Machine σ) (p : Project) : Toolchain σ :=
  let c := p.config.compiler
  let roots : Import.SearchRoots := ⟨p.importRoots⟩
  { compiler := StandardJson.compiler (m.program c.program) ⟨c.optimize, c.evmVersion⟩
      (roots.resolver m.files m.cwd) (roots.bound m.files)
    interpreter := .solidity
    options := { pragma := c.pragma } }

/-- No receipt is waited for if there is no time. -/
def nodeOptions (c : NodeConfig) : Node.Options :=
  ⟨c.signer, c.gas, if c.timeout == 0 then some 0 else none⟩

def executor (c : NodeConfig) : Executor Node.Conversation :=
  ⟨fun artifact entryPoint conversation =>
    let (result, conversation) := Node.execute (nodeOptions c) artifact entryPoint conversation
    (result.mapError (·.message), conversation)⟩

def services (m : Machine σ) (o : Options) (p : Project) : Services σ Node.Conversation :=
  ⟨toolchain m p, if o.has .noExec then none else some (executor p.config.node)⟩

section
variable (m : Machine σ)

def failure (style : Style) (message : String) : Output :=
  .errLine (style.red "error:" ++ " " ++ message)

/-- A run that ends before anything was compiled. -/
def Result.early (output : Output) (code : Nat) (s : σ) : Result σ :=
  ⟨[output], code, m.files, s, []⟩

def Result.ofShell (output : List Output) (code : Nat) (sh : Shell σ Node.Conversation) :
    Result σ :=
  ⟨output, code, m.files, sh.compilerState, sh.executorState.log⟩

def repl (o : Options) (p : Project) (sh : Shell σ Node.Conversation) : Result σ :=
  let c := p.config
  let (version, warning) := match StandardJson.version (m.program c.compiler.program) with
    | .ok v => (some v, [])
    | .error e => (none, [Output.errLine (m.style.yellow "Warning:" ++ " " ++ e.message)])
  let (output, sh) := Prompt.run m.style (services m o p) version
    (Prompt.historyPath m.home m.historyVariable c.historyPath) m.files m.cwd m.input sh
  .ofShell m (warning ++ output) 0 sh

/-- Shows the outcome of the line that failed, or else of the last one. -/
def eval (o : Options) (p : Project) (lines : List String) (sh : Shell σ Node.Conversation) :
    Result σ :=
  let (outcome, sh) := sh.evalAll (services m o p) lines none
  .ofShell m ((outcome.map m.style.outcome).getD []) (if outcome.any (·.isFailure) then 1 else 0) sh

/-- Shows the source of the last trial for all lines together. -/
def source (p : Project) (lines : List String) (sh : Shell σ Node.Conversation) : Result σ :=
  let (r, compilerState) := (toolchain m p).compileAll lines sh.compilerState
  let sh := { sh with compilerState }
  let verdict := r.verdict
  let text := Output.out verdict.unit.source
  match verdict.error with
  | none => .ofShell m [text] 0 sh
  | some d => .ofShell m [text, .errLine (m.style.red (Text.trimEnd d.rendered))] 1 sh

/-- Writes a configuration file that states the defaults, unless there is one. -/
def init (s : σ) : Result σ :=
  let name := Config.fileName
  if m.files.isPresent m.cwd name then
    .early m (failure m.style (name ++ " already exists, not overwriting")) 1 s
  else
    let created := Output.line (m.style.statusLabel "Created" ++ " " ++ name)
    let files := m.files.write (Path.join m.cwd name) (Text.toBytes Config.template)
    ⟨[created], 0, files, s, []⟩

def obey (i : Invocation) (s : σ) : Result σ :=
  match i.action, project m i.options with
  | .init, _ => init m s
  | _, .error e => .early m (failure m.style e.message) 1 s
  | action, .ok p =>
    let sh := Shell.new s (m.endpoint p.config.node.url).conversation
    match action with
    | .eval lines => eval m i.options p lines sh
    | .source lines => source m p lines sh
    | _ => repl m i.options p sh

def run (arguments : List String) (s : σ) : Result σ :=
  match Invocation.ofArguments arguments with
  | .ok i => obey m i s
  | .error (.help topic) => .early m (.out (helpText topic)) 0 s
  | .error .version => .early m (.out versionText) 0 s
  | .error (.misuse e) => .early m (.errLine ("error: " ++ e.message)) 2 s

end
end CommandLine
end SoliditySession
