import DocumentPreview.Program

namespace DocumentPreview.Program

variable {S : Signature} {σ α : Type}

def Every (P : S.Call → Prop) : Program S α → Prop
  | done _ => True
  | abort => True
  | call c next => P c ∧ ∀ r, Every P (next r)

def Obeys (ok : σ → S.Call → Prop) (next : σ → (c : S.Call) → S.Reply c → σ) :
    σ → Program S α → Prop
  | _, done _ => True
  | _, abort => True
  | q, call c rest => ok q c ∧ ∀ r, Obeys ok next (next q c r) (rest r)

def Concludes (ok : σ → S.Call → Prop) (next : σ → (c : S.Call) → S.Reply c → σ)
    (post : σ → Option α → Prop) : σ → Program S α → Prop
  | q, done a => post q (some a)
  | q, abort => post q none
  | q, call c rest => ok q c ∧ ∀ r, Concludes ok next post (next q c r) (rest r)

theorem obeys_of_every {ok : σ → S.Call → Prop} {next : σ → (c : S.Call) → S.Reply c → σ}
    {p : Program S α} (h : p.Every fun c => ∀ q, ok q c) (q : σ) : p.Obeys ok next q := by
  induction p generalizing q with
  | done a => trivial
  | abort => trivial
  | call c rest ih => exact ⟨h.1 q, fun r => ih r (h.2 r) _⟩

theorem Obeys.concludes {ok : σ → S.Call → Prop} {next : σ → (c : S.Call) → S.Reply c → σ}
    {post : σ → Option α → Prop} {p : Program S α} {q : σ} (h : p.Obeys ok next q)
    (hpost : ∀ q a, post q a) : p.Concludes ok next post q := by
  induction p generalizing q with
  | done a => exact hpost q (some a)
  | abort => exact hpost q none
  | call c rest ih => exact ⟨h.1, fun r => ih r (h.2 r)⟩

theorem Every.imp {P Q : S.Call → Prop} (hPQ : ∀ c, P c → Q c) {p : Program S α}
    (h : p.Every P) : p.Every Q := by
  induction p with
  | done a => trivial
  | abort => trivial
  | call c rest ih => exact ⟨hPQ c h.1, fun r => ih r (h.2 r)⟩

end DocumentPreview.Program
