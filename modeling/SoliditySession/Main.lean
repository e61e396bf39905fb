import SoliditySession.CommandLine
/- The program: it gathers what a run finds around it, and does what the run leaves. No other program
is started and no node is asked from here, so every compile reports that there is no compiler. -/
namespace SoliditySession

/-- Reads what a directory's entry names; a directory that cannot be read is empty. -/
partial def readTree (entry : IO.FS.DirEntry) : IO FileTree := do
  if ← entry.path.isDir then
    match ← entry.path.readDir.toBaseIO with
    | .ok found =>
      return .directory (← found.toList.mapM fun e => return (e.fileName, ← readTree e))
    | .error _ => return .directory []
  else
    match ← (IO.FS.readBinFile entry.path).toBaseIO with
    | .ok bytes => return .file (.ok bytes.toList)
    | .error e => return .file (.error (.other (toString e)))

/-- A file if it can be read. -/
def readFile (path : String) (files : FileTree) : IO FileTree := do
  match ← (IO.FS.readBinFile path).toBaseIO with
  | .ok bytes => return files.write path bytes.toList
  | .error _ => return files

def absentCompiler (path : String) : StandardJson.Program Unit where
  path
  compile _ s := (.error (.notStarted FileFault.missing.message), s)
  version := .error (.notStarted FileFault.missing.message)

partial def readAll (input : IO.FS.Stream) (read : List UInt8) : IO (List UInt8) := do
  let bytes ← input.read 65536
  if bytes.isEmpty then return read else readAll input (read ++ bytes.toList)

def emit : Output → IO Unit
  | .out t => do (← IO.getStdout).putStr t
  | .err t => do (← IO.getStderr).putStr t

/-- Writes the configuration file that a run has created. -/
def saveConfig (before after : FileTree) (cwd : String) : IO Unit := do
  unless before.isPresent cwd Config.fileName do
    match after.read cwd Config.fileName with
    | .ok text => IO.FS.writeFile (Path.join cwd Config.fileName) text
    | .error _ => pure ()

def runProgram (arguments : List String) : IO UInt32 := do
  let cwd := (← IO.currentDir).toString
  let home ← IO.getEnv "HOME"
  let tree ← readTree ⟨← IO.currentDir, ""⟩
  let root := FileTree.put tree (FileTree.plainNames cwd) (.directory [])
  let candidates := (Path.ancestors cwd).map (Path.join · Config.fileName) ++
    (home.map Config.homePath).toList
  let files ← candidates.foldlM (fun files path => readFile path files) root
  let machine : Machine Unit :=
    { files, cwd, home
      historyVariable := ← IO.getEnv "SOLREPL_HISTORY_PATH"
      style := ⟨(← IO.getEnv "NO_COLOR").isNone⟩
      input := ← readAll (← IO.getStdin) []
      program := absentCompiler
      endpoint := fun _ => .silent }
  let result := CommandLine.run machine arguments ()
  result.output.forM emit
  saveConfig files result.files cwd
  return result.code.toUInt32

end SoliditySession

def main (arguments : List String) : IO UInt32 := SoliditySession.runProgram arguments
