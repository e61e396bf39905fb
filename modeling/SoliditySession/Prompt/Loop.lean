import SoliditySession.FileTree
import SoliditySession.Prompt.Command
import SoliditySession.Prompt.Line
import SoliditySession.Solidity.Lexical
import SoliditySession.Terminal
/- The interactive loop: lines are gathered until their brackets are closed, then evaluated. Where
the history of lines is kept, and opening it. -/
namespace SoliditySession.Prompt

/-- A configured path may be absolute, below the home directory by `~/`, or relative to it. -/
def resolveHistoryPath (home configured : Option String) : Option String :=
  match configured.map Text.trim with
  | none | some "" => home.map fun h => Path.join (Path.join h ".solrepl") "history"
  | some path =>
    match path.toList with
    | '~' :: '/' :: r => home.map (Path.join · (.ofList r))
    | _ => if Path.isAbsolute path then some path else home.map (Path.join · path)

/-- The environment's path comes before the configured one. -/
def historyPath (home fromEnvironment configured : Option String) : Option String :=
  resolveHistoryPath home (fromEnvironment.orElse fun _ => configured)

def historyWarning (style : Style) (text path reason : String) : Output :=
  .errLine (style.yellow "Warning:" ++ " failed to " ++ text ++ " " ++ path ++ ": " ++ reason)

/-- Reading an existing history. -/
def loadHistory (style : Style) (files : FileTree) (cwd path : String) : List Output :=
  if files.isPresent cwd path then
    match files.read cwd path with
    | .ok _ => []
    | .error e => [historyWarning style "load history from" path e.message]
  else []

/-- Closing a history to which nothing was added: only its directory is made. -/
def closeHistory (style : Style) (files : FileTree) (cwd path : String) : List Output :=
  match Path.parent? path with
  | none => []
  | some directory =>
    match files.makeDirectory cwd directory with
    | .ok _ => []
    | .error e => [historyWarning style "create history directory" directory e.message]

/-- What a line leads to, given the lines gathered before it. -/
inductive Turn
  /-- Nothing to do but to keep what is gathered. -/
  | gather (gathered : String)
  | command (c : Command)
  | unknownCommand
  | evaluate (text : String)
deriving DecidableEq

/-- What a statement's line leads to: more lines while brackets are open. -/
def Turn.ofStatement (gathered line : String) : Turn :=
  let text := if gathered == "" then line else gathered ++ "\n" ++ line
  if Solidity.needsMore text then .gather text else .evaluate (Text.trim text)

def Turn.of (gathered line : String) : Turn :=
  if Text.trim line == "" then .gather (if gathered == "" then "" else gathered ++ "\n")
  else if gathered == "" then
    match Entry.of line with
    | .command c => .command c
    | .unknown => .unknownCommand
    | .statement => .ofStatement gathered line
  else .ofStatement gathered line

/-- The texts that are evaluated for some lines. -/
def evaluated (gathered : String) : List String → List String
  | [] => []
  | line :: lines =>
    match Turn.of gathered line with
    | .gather g => evaluated g lines
    | .command .exit => []
    | .command _ | .unknownCommand => evaluated gathered lines
    | .evaluate text => text :: evaluated "" lines

section
variable {σ τ : Type}

def help (style : Style) : List Output :=
  Command.all.map fun c => .line (style.cyan (padRight 12 c.word) ++ c.purpose)

def obey (style : Style) (c : Command) (sh : Shell σ τ) : List Output × Shell σ τ :=
  match c with
  | .exit => ([], sh)
  | .help => (help style, sh)
  | .session => ((style.listing sh.session).map .line, sh)
  | .source => ([.line (sh.lastSource.getD (style.gray "Nothing compiled yet."))], sh)
  | .pop =>
    match sh.pop with
    | (some x, sh) => ([.line (style.gray "Dropped" ++ " " ++ x.text)], sh)
    | (none, sh) => ([.line (style.gray "Session is empty.")], sh)
  | .reset => ([.line (style.gray "Session cleared.")], sh.reset)

def prompt (gathered : String) : Output := .out (if gathered == "" then "> " else "... ")

def unreadableInput : String :=
  "Io(Error \x7b kind: InvalidData, message: \"stream did not contain valid UTF-8\" \x7d)"

/-- Answers lines until the input ends, the loop is left, or a line is no text. -/
def converse (style : Style) (services : Services σ τ) (gathered : String) :
    List (Option String) → Shell σ τ → List Output × Shell σ τ
  | [], sh => ([prompt gathered], sh)
  | none :: _, sh =>
    ([prompt gathered, .errLine (style.red "Error:" ++ " " ++ unreadableInput)], sh)
  | some line :: lines, sh =>
    match Turn.of gathered line with
    | .gather g =>
      let (os, sh) := converse style services g lines sh
      (prompt gathered :: os, sh)
    | .unknownCommand =>
      let (os, sh) := converse style services gathered lines sh
      (prompt gathered :: .errLine (style.red "Invalid REPL keyword") :: os, sh)
    | .command .exit => ([prompt gathered], sh)
    | .command c =>
      let (answer, sh) := obey style c sh
      let (os, sh) := converse style services gathered lines sh
      (prompt gathered :: answer ++ os, sh)
    | .evaluate text =>
      let (outcome, sh) := sh.eval services text
      let (os, sh) := converse style services "" lines sh
      (prompt gathered :: style.outcome outcome ++ os, sh)

def banner (style : Style) (version : Option String) : List Output :=
  [.line (style.bold (match version with
      | some v => "Welcome to Solidity v" ++ v ++ "!"
      | none => "Welcome to Solidity!")),
    .line (style.gray "Type \".help\" for more information.")]

/-- A whole run of the loop over an input. -/
def run (style : Style) (services : Services σ τ) (version history : Option String)
    (files : FileTree) (cwd : String) (input : List UInt8) (sh : Shell σ τ) :
    List Output × Shell σ τ :=
  let opened := (history.map (loadHistory style files cwd)).getD []
  let closed := (history.map (closeHistory style files cwd)).getD []
  let (os, sh) := converse style services "" (inputLines input) sh
  (banner style version ++ opened ++ os ++ closed, sh)

end

end SoliditySession.Prompt
