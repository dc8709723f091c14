namespace DocumentPreview

structure Signature where
  Call : Type
  Reply : Call → Type

inductive Program (S : Signature) (α : Type) where
  | done (a : α)
  | abort
  | call (c : S.Call) (next : S.Reply c → Program S α)

namespace Program

def bind {S : Signature} {α β : Type} : Program S α → (α → Program S β) → Program S β
  | done a, f => f a
  | abort, _ => abort
  | call c next, f => call c fun r => bind (next r) f

def map {S : Signature} {α β : Type} (f : α → β) (p : Program S α) : Program S β :=
  p.bind fun a => done (f a)

def run {S : Signature} {σ α : Type} (answer : (c : S.Call) → σ → S.Reply c × σ) :
    Program S α → σ → Option α × σ
  | done a, s => (some a, s)
  | abort, s => (none, s)
  | call c next, s => run answer (next (answer c s).1) (answer c s).2

theorem run_bind {S : Signature} {σ α β : Type} (answer : (c : S.Call) → σ → S.Reply c × σ)
    (p : Program S α) (f : α → Program S β) (s : σ) :
    run answer (p.bind f) s =
      match run answer p s with
      | (some a, s') => run answer (f a) s'
      | (none, s') => (none, s') := by
  induction p generalizing s with
  | done a => rfl
  | abort => rfl
  | call c next ih => simp only [bind, run, ih]

end Program

end DocumentPreview
