import DocumentPreview.Text.Utf8

namespace DocumentPreview

structure JsonNumber where
  negative : Bool
  whole : Nat
  fraction : List Nat
  exponent : Option Int
  deriving DecidableEq, Repr

def JsonNumber.ofInt (i : Int) : JsonNumber :=
  ⟨i < 0, i.natAbs, [], none⟩

def JsonNumber.integer? (n : JsonNumber) : Option Int :=
  if n.fraction.isEmpty && n.exponent.isNone then
    if n.negative then (if n.whole = 0 then none else some (-(n.whole : Int)))
    else some n.whole
  else none

inductive Json where
  | null
  | bool (b : Bool)
  | number (n : JsonNumber)
  | string (s : Option String)
  | array (items : List Json)
  | object (members : List (Option String × Json))
  deriving Repr, Inhabited

namespace Json

def text (s : String) : Json :=
  .string (some s)

def int (i : Int) : Json :=
  .number (.ofInt i)

def ofOption {α : Type} (f : α → Json) : Option α → Json
  | none => .null
  | some a => f a

def record (members : List (String × Json)) : Json :=
  .object (members.map fun m => (some m.1, m.2))

def isNull : Json → Bool
  | .null => true
  | _ => false

def text? : Json → Option String
  | .string s => s
  | _ => none

def bool? : Json → Option Bool
  | .bool b => some b
  | _ => none

def int? : Json → Option Int
  | .number n => n.integer?
  | _ => none

def intBetween? (low high : Int) (j : Json) : Option Int :=
  j.int?.bind fun i => if low ≤ i ∧ i ≤ high then some i else none

def int32? (j : Json) : Option Int32 :=
  (j.intBetween? (-0x8000_0000) 0x7FFF_FFFF).map Int32.ofInt

def int64? (j : Json) : Option Int64 :=
  (j.intBetween? (-0x8000_0000_0000_0000) 0x7FFF_FFFF_FFFF_FFFF).map Int64.ofInt

def optional? {α : Type} (f : Json → Option α) : Option Json → Option (Option α)
  | none => some none
  | some .null => some none
  | some j => (f j).map some

def required? {α : Type} (f : Json → Option α) (j : Option Json) : Option α :=
  j.bind f

def valuesOf (name : String) (members : List (Option String × Json)) : List Json :=
  (members.filter fun m => m.1 = some name).map (·.2)

def fields? (names : List String) : Json → Option (List (Option Json))
  | .array items => if items.length = names.length then some (items.map some) else none
  | .object members =>
    if members.all (·.1.isSome) && names.all (fun n => (valuesOf n members).length ≤ 1) then
      some (names.map fun n => (valuesOf n members).head?)
    else none
  | _ => none

def member? (name : String) : Json → Option Json
  | .object members => (valuesOf name members).getLast?
  | _ => none

end Json

end DocumentPreview
