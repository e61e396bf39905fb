import SoliditySession.Config
import SoliditySession.FileTree
/- Finding the configuration. A file of the project is looked for in the working directory and the
directories above it, then one for all projects below the home directory. -/
namespace SoliditySession

inductive ConfigFault
  | unreadable (path : String) (fault : FileFault)
  | malformed (path : String)

def ConfigFault.message : ConfigFault → String
  | .unreadable path fault => "cannot read '" ++ path ++ "': " ++ fault.message
  | .malformed path => "invalid toml in '" ++ path ++ "': not a configuration"

namespace Config

def fileName : String := "solrepl.toml"

def ofFile (files : FileTree) (cwd path : String) : Except ConfigFault Config :=
  match files.read cwd path with
  | .error e => .error (.unreadable path e)
  | .ok text =>
    match parse? text with
    | some c => .ok c
    | none => .error (.malformed path)

/-- The file for all projects. -/
def homePath (home : String) : String :=
  Path.join (Path.join (Path.join home ".config") "solrepl") fileName

end Config

/-- A configuration and the directory that its relative paths are seen from. -/
structure Project where
  directory : String
  config : Config

namespace Project

/-- The directory that holds a file. -/
def directoryOf (path : String) : String :=
  match Path.parent? path with
  | none | some "" => "."
  | some d => d

def ofFile (files : FileTree) (cwd path : String) : Except ConfigFault Project :=
  (Config.ofFile files cwd path).map fun config => ⟨directoryOf path, config⟩

/-- A file of the project makes its directory the project's; otherwise that is the working one. -/
def find (files : FileTree) (cwd : String) (home : Option String) :
    Except ConfigFault Project :=
  let candidates := (Path.ancestors cwd).map (Path.join · Config.fileName)
  match candidates.find? (files.isFile cwd), (home.map Config.homePath).filter (files.isFile cwd) with
  | some path, _ => ofFile files cwd path
  | none, some path => (Config.ofFile files cwd path).map (⟨cwd, ·⟩)
  | none, none => .ok ⟨cwd, {}⟩

def importRoots (p : Project) : List String := p.config.importRoots p.directory

end Project
end SoliditySession
