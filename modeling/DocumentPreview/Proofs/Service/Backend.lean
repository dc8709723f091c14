import DocumentPreview.Proofs.Access.Visit

namespace DocumentPreview

namespace ObjectStore

def answer (s : ObjectStore) : (c : DocumentCall) → c.Reply → c.Reply × ObjectStore
  | .download key, _ => (s.download key, s)
  | .upload key bytes contentType, _ => (.ok (), s.upload key bytes contentType)
  | .find _, r | .convert .., r => (r, s)

variable {s : ObjectStore} {key other contentType : String} {bytes : Bytes}

theorem get?_upload_self : (s.upload key bytes contentType).get? key = some ⟨bytes, contentType⟩ := by
  simp [get?, upload]

theorem get?_upload_of_ne (h : other ≠ key) :
    (s.upload key bytes contentType).get? other = s.get? other := by
  simp only [get?, upload, List.lookup_cons, beq_eq_false_iff_ne.mpr h]
  induction s.objects with
  | nil => rfl
  | cons p ps ih =>
    by_cases hp : p.1 = key
    · rw [List.filter_cons_of_neg (by simpa using hp), ih, List.lookup_cons,
        beq_eq_false_iff_ne.mpr (hp ▸ h)]
    · rw [List.filter_cons_of_pos (by simpa using hp), List.lookup_cons, List.lookup_cons, ih]

end ObjectStore

structure Backend where
  shared : Shared
  objects : ObjectStore
  guard : ReplayGuard

namespace Backend

def store (s : Backend) : MemoryStore :=
  s.shared.store

def answer (s : Backend) (o : Outside) : (c : ServiceCall) → c.Reply × Backend
  | .documents c =>
    let (r, objects) := s.objects.answer c (o.reply (.documents c))
    (r, { s with objects := objects })
  | .within deadline c =>
    match o.reply (.within deadline c) with
    | none => (none, s)
    | some r =>
      let (r, objects) := s.objects.answer c r
      (some r, { s with objects := objects })
  | .consume nonce expiry =>
    let (r, guard) := s.guard.answer o (.consume nonce expiry)
    (r, { s with guard := guard })
  | .purge now =>
    let (r, guard) := s.guard.answer o (.purge now)
    (r, { s with guard := guard })
  | c =>
    let (r, shared) := s.shared.answer o c
    (r, { s with shared := shared })

variable {s : Backend} {o : Outside}

theorem shared_answer (c : ServiceCall) : (s.answer o c).2.shared = (s.shared.answer o c).2 := by
  cases c with
  | within deadline c =>
    simp only [answer]
    split <;> rfl
  | _ => rfl

theorem guard_answer (c : ServiceCall) : (s.answer o c).2.guard = (s.guard.answer o c).2 := by
  cases c with
  | within deadline c =>
    simp only [answer]
    split <;> rfl
  | _ => rfl

def run {α : Type} (s : Backend) (o : Outside) (p : ServiceProgram α) : Option α × Backend :=
  Program.run (fun c s => s.answer o c) p s

theorem run_bind {α β : Type} (p : ServiceProgram α) (f : α → ServiceProgram β) :
    s.run o (p.bind f) =
      match s.run o p with
      | (some a, t) => t.run o (f a)
      | (none, t) => (none, t) := by
  have h := Program.run_bind (fun (c : ServiceCall) (s : Backend) => s.answer o c) p f s
  refine h.trans ?_
  rw [show p.run (fun (c : ServiceCall) (s : Backend) => s.answer o c) s = s.run o p from rfl]
  rcases s.run o p with ⟨_ | a, t⟩ <;> rfl

end Backend

end DocumentPreview
