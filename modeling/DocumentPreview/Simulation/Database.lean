import DocumentPreview.Database.Address
import DocumentPreview.Database.Migration
import DocumentPreview.Database.Tables
import DocumentPreview.Text.Blank
import DocumentPreview.Text.Split

namespace DocumentPreview.Simulation

inductive TableEffect where
  | putJob (row : JobRow)
  | deleteJob (id : Uuid)
  | putFile (row : FileRow)
  deriving DecidableEq, Repr

structure Interception where
  start : String
  effects : List TableEffect
  error : Option String
  deriving DecidableEq, Repr

structure DatabaseServer where
  tables : Tables
  interceptions : List Interception
  isOpen : Bool
  supply : Nat
  deriving Repr

namespace DatabaseServer

def new (interceptions : List Interception) : DatabaseServer :=
  ⟨.empty, interceptions, true, 0⟩

def applyEffect (t : Tables) : TableEffect → Tables
  | .putJob row => t.putJob row
  | .deleteJob id => (t.deleteJob id).2
  | .putFile row => t.putFile row

def intercept (d : DatabaseServer) (s : Statement) : Option String × DatabaseServer :=
  match d.interceptions with
  | [] => (none, d)
  | i :: rest =>
    if (Text.after? i.start.toList (Text.trimStart s.text.toList)).isSome then
      (i.error,
        { d with tables := i.effects.foldl applyEffect d.tables, interceptions := rest })
    else (none, d)

def execute (d : DatabaseServer) (clock : Instant) (s : Statement) :
    Except DatabaseError s.Rows × DatabaseServer :=
  if !d.isOpen then (.error .poolClosed, d)
  else
    match d.intercept s with
    | (some message, d) => (.error (.server message), d)
    | (none, d) =>
      match d.tables.execute clock s with
      | .ok (rows, tables) => (.ok rows, { d with tables := tables })
      | .error v => (.error (.server v.message), d)

def answer (clock : Instant) : (c : DatabaseCall) → DatabaseServer → c.Reply × DatabaseServer
  | .freshId, d => (Uuid.numbered (d.supply + 1), { d with supply := d.supply + 1 })
  | .execute s, d => d.execute clock s

def run {α : Type} (d : DatabaseServer) (clock : Instant) (p : DatabaseProgram α) :
    Option α × DatabaseServer :=
  Program.run (answer clock) p d

def migrate (d : DatabaseServer) (clock : Instant) : Except DatabaseError Unit × DatabaseServer :=
  let (r, d) := d.run clock Migration.run
  (r.getD (.ok ()), d)

def prepare (d : DatabaseServer) (clock : Instant) (address : String) :
    Except DatabaseError DatabaseServer := do
  DatabaseAddress.connect address
  let (r, d) := d.migrate clock
  r
  return d

end DatabaseServer

end DocumentPreview.Simulation
