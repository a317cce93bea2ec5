import WireSchema.CommandLine

/-! The program: reads the files that a request needs, and writes what comes of it. -/
namespace WireSchema
namespace CommandLine

/-- The code of a failure comes with either sign. -/
def readFault : IO.Error → ReadFault
  | .noFileOrDirectory .. => .notFound
  | .inappropriateType _ code _ =>
    if code = 20 ∨ code = -20 then .notDirectory else .isDirectory
  | e => .other (toString e)

def readFile (path : String) : IO (Except ReadFault ByteArray) := do
  if path = "" then return .error .notFound
  try return .ok (← IO.FS.readBinFile path)
  catch e => return .error (readFault e)

/-- What an attempt to read shows of a path: a file that may not be read is still one. -/
def showsFile : Except ReadFault ByteArray → Bool
  | .ok _ | .error (.other _) => true
  | .error _ => false

/-- The files at some paths; there are no others. -/
def readFiles (paths : List String) : IO Files := do
  let attempts ← paths.mapM fun path => do return (path, ← readFile path)
  let attempt (path : String) := (attempts.lookup path).getD (.error .notFound)
  return { isFile := showsFile ∘ attempt, read := attempt }

end CommandLine
end WireSchema

open WireSchema CommandLine in
def main (args : List String) : IO UInt32 := do
  let request := Request.ofArguments? args
  let files ← readFiles (match request with
    | some (.run i) => i.paths
    | _ => [])
  let outcome := respond files (← IO.getEnv "RUST_LOG") request
  (← IO.getStderr).putStr outcome.err
  (← IO.getStdout).putStr outcome.out
  return outcome.exit.toUInt32
