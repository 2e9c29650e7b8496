import Phrasebook.Command

/-!
The program: it reads the working directory, runs a command on it and writes what has changed. What
lies outside the working directory is not read and must not be changed.
-/
namespace Phrasebook

/-- Reads a directory entry with everything below it. Links are left out. -/
partial def readEntry (e : IO.FS.DirEntry) : IO (List (String × FileNode)) := do
  match (← e.path.symlinkMetadata).type with
  | .dir =>
    let entries ← (← e.path.readDir).toList.mapM readEntry
    return [(e.fileName, .dir (Text.sortKeys entries.flatten))]
  | .file => return [(e.fileName, .file (.ofBytes (← IO.FS.readBinFile e.path)))]
  | _ => return []

def readWorkingTree : IO FileTree := do
  let dir ← IO.currentDir
  let entries ← (← dir.readDir).toList.mapM readEntry
  let cwd := (Path.segments dir.toString).filter Path.isStep
  return .ofNode (.dir (Text.sortKeys entries.flatten)) cwd

def writeFile (path : String) (content : Content) : IO Unit := do
  if let some dir := Path.parent path then
    if dir != "" then IO.FS.createDirAll dir
  IO.FS.writeBinFile path content.toBytes

/-- Runs a command line and gives its exit code. -/
def runMain (args : List String) : IO UInt32 := do
  match Command.read args with
  | .error fault =>
    if fault.code == 0 then IO.println fault.message else IO.eprintln fault.message
    return UInt32.ofNat fault.code
  | .ok command =>
    let tree ← readWorkingTree
    let result := command.run tree
    IO.eprint result.stderr
    let changes := result.tree.changesSince tree
    if changes.length < (result.tree.root.changesSince tree.root).length then
      IO.eprintln (errorLine "the run writes outside the working directory")
      return UInt32.ofNat ExitStatus.error.code
    for (path, content) in changes do
      writeFile path content
    IO.print result.stdout
    return UInt32.ofNat result.exit.code

end Phrasebook

def main (args : List String) : IO UInt32 := Phrasebook.runMain args
