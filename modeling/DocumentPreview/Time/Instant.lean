import DocumentPreview.Time.Calendar
import DocumentPreview.Time.Span

namespace DocumentPreview

structure Instant where
  nanos : Int
  least_le : -8334601228800 * 1_000_000_000 ≤ nanos := by omega
  lt_end : nanos < 8210266876800 * 1_000_000_000 := by omega
  deriving DecidableEq, Repr

namespace Instant

def ofNanos? (n : Int) : Option Instant :=
  if h : -8334601228800 * 1_000_000_000 ≤ n ∧ n < 8210266876800 * 1_000_000_000 then some ⟨n, h.1, h.2⟩ else none

def least : Instant :=
  { nanos := -8334601228800 * 1_000_000_000 }

def epoch : Instant :=
  { nanos := 0 }

instance : Inhabited Instant :=
  ⟨epoch⟩

instance : LE Instant :=
  ⟨fun a b => a.nanos ≤ b.nanos⟩

instance : LT Instant :=
  ⟨fun a b => a.nanos < b.nanos⟩

instance (a b : Instant) : Decidable (a ≤ b) :=
  inferInstanceAs (Decidable (a.nanos ≤ b.nanos))

instance (a b : Instant) : Decidable (a < b) :=
  inferInstanceAs (Decidable (a.nanos < b.nanos))

theorem le_antisymm {a b : Instant} (h : a ≤ b) (h' : b ≤ a) : a = b := by
  cases a
  cases b
  congr
  exact Int.le_antisymm h h'

theorem le_trans {a b c : Instant} (h : a ≤ b) (h' : b ≤ c) : a ≤ c :=
  Int.le_trans h h'

def shift? (t : Instant) (nanos : Int) : Option Instant :=
  ofNanos? (t.nanos + nanos)

def unixSeconds (t : Instant) : Int :=
  t.nanos / 1_000_000_000

def ofUnixSeconds? (s : Int) : Option Instant :=
  ofNanos? (s * 1_000_000_000)

def floorToMicros (t : Instant) : Instant :=
  { nanos := t.nanos / 1000 * 1000
    least_le := by have := t.least_le; omega
    lt_end := by have := t.lt_end; omega }

def cutToMicros (t : Instant) : Instant :=
  if h : t.nanos < 946684800 * 1_000_000_000 then
    { nanos := -(-t.nanos / 1000 * 1000)
      least_le := by have := t.least_le; omega
      lt_end := by omega }
  else t.floorToMicros

end Instant

end DocumentPreview
