import Tangent.Cli.Command

/-! The program: reads the files a command line names, runs it, and writes what it changed. -/

namespace Tangent.Cli

/-- The files that a request reads. -/
def Request.reads : Request → List String
  | .help => []
  | .perform _ o => [o.configPath, o.programPath].filter (fun path => !path.isEmpty)

/-- The files that a request may write. -/
def Request.writes : Request → List String
  | .help => []
  | .perform _ o => [o.outPath, o.metricsPath].filter (fun path => !path.isEmpty)

/-- The directories on the way to a path, which are taken to be there. -/
def noteDirectories (disk : Disk) (path : String) : Disk :=
  match (path.splitOn "/").dropLast with
  | [] => disk
  | names => disk.insert ("/".intercalate names ++ "/") []

/-- Reads files, as far as they can be read. -/
def loadFiles (disk : Disk) : List String → IO Disk
  | [] => return disk
  | path :: rest => do
    let disk := noteDirectories disk path
    let found ← (IO.FS.readBinFile path).toBaseIO
    match found, disk.resolve path with
    | .ok bytes, .ok place => loadFiles (disk.insert (Disk.nameOf place) bytes.toList) rest
    | _, _ => loadFiles disk rest

/-- Writes the files that are not what they were. -/
def storeFiles (before after : Disk) (paths : List String) : IO Unit :=
  paths.forM fun path => do
    match after.resolve path with
    | .error _ => return ()
    | .ok place =>
      match after.find? (Disk.nameOf place) with
      | some bytes =>
        if before.find? (Disk.nameOf place) != some bytes then
          IO.FS.writeBinFile path ⟨bytes.toArray⟩
      | none => return ()

/-- What is said about a command line that stopped. -/
def stopText : Halt CommandError → String
  | .error cause => cause.message
  | .fault (.panic text) => text
  | .fault .access => "access outside memory"

end Tangent.Cli

open Tangent Tangent.Cli in
/-- Runs a command line on the files of the working directory. -/
def main (arguments : List String) : IO UInt32 := do
  let request := (request arguments).toOption.getD .help
  let disk ← loadFiles .empty (request.reads ++ request.writes)
  let (ended, world) := execute disk arguments
  IO.print world.out
  world.log.forM (fun line => IO.eprintln line)
  storeFiles disk world.disk request.writes
  match ended with
  | .ok () => return 0
  | .error halt =>
    IO.eprintln ("error: " ++ stopText halt)
    return 1
