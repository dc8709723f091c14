import DocumentPreview.Time.Instant

namespace DocumentPreview

structure ReplayGuard where
  consumed : List (String × Instant)
  deriving DecidableEq, Repr

namespace ReplayGuard

def empty : ReplayGuard :=
  ⟨[]⟩

def contains (g : ReplayGuard) (nonce : String) : Bool :=
  g.consumed.any (·.1 = nonce)

def consume (g : ReplayGuard) (nonce : String) (expiry : Instant) : Bool × ReplayGuard :=
  if g.contains nonce then (false, g) else (true, ⟨(nonce, expiry) :: g.consumed⟩)

def purge (g : ReplayGuard) (now : Instant) : Nat × ReplayGuard :=
  let kept := g.consumed.filter fun n => now ≤ n.2
  (g.consumed.length - kept.length, ⟨kept⟩)

def size (g : ReplayGuard) : Nat :=
  g.consumed.length

end ReplayGuard

end DocumentPreview
