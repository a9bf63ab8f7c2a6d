import OverrideElision.Command

/-! # The program

Reads what stands at the paths of the command line, runs, and prints. -/

namespace OverrideElision

/-- Why the system refused to read. -/
def refusal : IO.Error → Files.ReadError
  | .noFileOrDirectory .. => .missing
  | .inappropriateType .. => .notDirectory
  | .permissionDenied .. => .refused 13 "Permission denied"
  | _ => .refused 5 "Input/output error"

/-- What stands at a path, with all scripts below it. -/
partial def snapshot (path : String) : IO Files.Entry := do
  let place := System.mkFilePath [path]
  if ← place.isDir then
    let mut entries := #[]
    for found in ← place.readDir do
      let name := found.fileName
      if Files.isScriptName name || (← found.path.isDir) then
        entries := entries.push (name, ← snapshot (Files.join path name))
    return .directory entries.toList
  else
    match ← (IO.FS.readBinFile place).toBaseIO with
    | .ok bytes => return .file (.ok bytes)
    | .error refused => return .file (.error (refusal refused))

/-- What stands at a path of the command line. -/
def locate (path : String) : IO (Files.Located Files.Entry) := do
  if path.toList.contains '\x00' then return (path, .error .nullByte)
  else return (path, .ok (← snapshot path))

end OverrideElision

open OverrideElision in
/-- Runs over the paths of the command line, with the log that the environment asks for. -/
def main (args : List String) : IO UInt32 := do
  let start ← IO.monoMsNow
  let level ← IO.getEnv "SUPER_METHODS_LOG"
  let result := Command.run level (← args.mapM locate)
  result.warnings.forM fun warning => IO.eprintln warning
  let milliseconds := (← IO.monoMsNow) - start
  result.log.forM fun event => IO.eprintln (event.line milliseconds)
  IO.print result.output
  match result.failure with
  | none => return 0
  | some failure =>
    IO.eprintln failure.message
    return 1
