namespace DocumentPreview

structure Environment where
  bindings : List (String × String)
  deriving DecidableEq, Repr

namespace Environment

def empty : Environment :=
  ⟨[]⟩

def set (e : Environment) (name value : String) : Environment :=
  if e.bindings.any (·.1 = name) then
    ⟨e.bindings.map fun v => if v.1 = name then (name, value) else v⟩
  else ⟨e.bindings ++ [(name, value)]⟩

def ofList (vs : List (String × String)) : Environment :=
  vs.foldl (fun e v => e.set v.1 v.2) empty

def get? (e : Environment) (name : String) : Option String :=
  e.bindings.lookup name

end Environment

end DocumentPreview
