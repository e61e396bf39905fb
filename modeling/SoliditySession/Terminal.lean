import SoliditySession.Shell
import SoliditySession.Text.Basic
/- What is written to a terminal, and its colors. -/
namespace SoliditySession

inductive Output
  | out (text : String)
  | err (text : String)
deriving DecidableEq

namespace Output

def line (text : String) : Output := .out (text ++ "\n")

def errLine (text : String) : Output := .err (text ++ "\n")

def stdout (os : List Output) : String :=
  String.join (os.map fun | .out t => t | .err _ => "")

def stderr (os : List Output) : String :=
  String.join (os.map fun | .err t => t | .out _ => "")

end Output

/-- Whether escape codes for colors are written. -/
structure Style where
  colored : Bool

namespace Style

def paint (s : Style) (code text : String) : String :=
  if s.colored then "\x1b[" ++ code ++ "m" ++ text ++ "\x1b[0m" else text

def red (s : Style) : String → String := s.paint "31"

def yellow (s : Style) : String → String := s.paint "33"

def cyan (s : Style) : String → String := s.paint "36"

def bold (s : Style) : String → String := s.paint "1"

def gray (s : Style) : String → String := s.paint "90"

end Style

def padRight (width : Nat) (text : String) : String :=
  text ++ String.ofList (List.replicate (width - text.length) ' ')

def padLeft (width : Nat) (text : String) : String :=
  String.ofList (List.replicate (width - text.length) ' ') ++ text

namespace Style

/-- A label in a column of twelve. -/
def statusLabel (s : Style) (label : String) : String := s.paint "1;32" (padLeft 12 label)

def outcome (s : Style) : Outcome → List Output
  | .value v => [.line v.display]
  | .noValue => []
  | .compiled (some t) => [.line (s.gray ("compiled, returns " ++ t))]
  | .compiled none => [.line (s.gray "compiled")]
  | .compileFailed d => [.errLine (s.red (Text.trimEnd d.rendered))]
  | .execFailed text => [.errLine (s.red "Error:" ++ " " ++ text)]

/-- A row for each statement: its role and its text. -/
def listing (s : Style) (session : Session) : List String :=
  session.statements.map fun x =>
    s.gray (padRight Role.labelWidth x.role.label) ++ " " ++ x.text

end Style
end SoliditySession
