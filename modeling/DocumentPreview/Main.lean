import DocumentPreview.Simulation.Database
import DocumentPreview.Startup

namespace DocumentPreview

namespace Environment

def lookedAt : List String :=
  Startup.levelName :: Config.Field.all.map fun f => f.name.map Char.toUpper

def ofProcess : IO Environment := do
  let mut bindings := #[]
  for key in lookedAt do
    if let some value ← IO.getEnv key then
      bindings := bindings.push (key, value)
  return .ofList bindings.toList

end Environment

end DocumentPreview

open DocumentPreview

def main : IO UInt32 := do
  let env ← Environment.ofProcess
  let (migrations, _) := (Simulation.DatabaseServer.new []).migrate Instant.epoch
  let (outcome, log) := Startup.interrupted env migrations
  for line in Startup.shownLog env log do
    IO.println line
  match outcome with
  | .ok () => return 0
  | .error e =>
    IO.eprintln ("Error: " ++ e.message)
    return 1
