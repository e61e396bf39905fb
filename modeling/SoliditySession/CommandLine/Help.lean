import SoliditySession.CommandLine.Arguments
import SoliditySession.Terminal
/- What the program says about its own use. -/
namespace SoliditySession.CommandLine

def programName : String := "solrepl"

def versionText : String := programName ++ " 0.3.0\n"

def Setting.row : Setting → String × String
  | .solc => ("    --solc <SOLC>", "Path to the solc binary")
  | .rpcUrl =>
    ("    --rpc-url <RPC_URL>", "JSON-RPC endpoint of the node that runs compiled statements")
  | .signer =>
    ("    --signer <SIGNER>", "Account that deploys and calls (default: the node's first account)")
  | .config =>
    ("    --config <CONFIG>", "Config file to use instead of searching for solrepl.toml")

def Flag.row : Flag → String × String
  | .noExec => ("    --no-exec", "Compile only; never contact a node")
  | .verbose => ("-v, --verbose", "Log debug output to stderr")

def Command.purpose : Command → String
  | .repl => "Start an interactive REPL (default)"
  | .init => "Create a solrepl.toml config file in the current directory"
  | .eval => "Evaluate lines as one session and print the last value"
  | .source => "Print the synthesized source for lines"
  | .help => "Print this message or the help of the given subcommand(s)"

/-- A titled list with its second column aligned. -/
def listed (title : String) (rows : List (String × String)) : String :=
  let width := (rows.map (·.1.length)).foldl max 0
  "\n" ++ title ++ ":\n" ++
    String.join (rows.map fun r => "  " ++ padRight width r.1 ++ "  " ++ r.2 ++ "\n")

def optionRows : List (String × String) :=
  Setting.all.map (·.row) ++ [Flag.noExec.row, Flag.verbose.row, ("-h, --help", "Print help")]

def usage (purpose arguments : String) : String :=
  purpose ++ "\n\nUsage: " ++ programName ++ " " ++ arguments ++ "\n"

def helpText : Option Command → String
  | none =>
    usage "Evaluate Solidity one statement at a time" "[OPTIONS] [COMMAND]" ++
      listed "Commands" (Command.all.map fun c => (c.word, c.purpose)) ++
      listed "Options" (optionRows ++ [("-V, --version", "Print version")])
  | some .help =>
    usage Command.help.purpose "help [COMMAND]..." ++
      listed "Arguments" [("[COMMAND]...", "Print help for the subcommand(s)")]
  | some c =>
    if c.takesLines then
      usage c.purpose (c.word ++ " [OPTIONS] <LINES>...") ++ listed "Arguments" [("<LINES>...", "")] ++
        listed "Options" optionRows
    else usage c.purpose (c.word ++ " [OPTIONS]") ++ listed "Options" optionRows

end SoliditySession.CommandLine
