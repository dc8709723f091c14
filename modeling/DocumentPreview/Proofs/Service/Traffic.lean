import DocumentPreview.Proofs.Service.Backend
import DocumentPreview.Proofs.Service.Interleaving

namespace DocumentPreview

inductive Errand where
  | background (a : Activity)
  | issue (fileId : Uuid)
  | visit (v : Visit)

namespace Errand

def Outcome : Errand → Type
  | background a => a.Outcome
  | issue _ => Except PreviewError MintedToken
  | visit v => v.Outcome

def program (issuer : TokenIssuer) : (e : Errand) → ServiceProgram e.Outcome
  | background a => a.program
  | issue fileId => Previews.issueToken issuer fileId
  | visit v => v.program issuer

end Errand

def Reserved (key : String) : Prop :=
  "previews/".toList <+: key.toList

instance (key : String) : Decidable (Reserved key) :=
  inferInstanceAs (Decidable ("previews/".toList <+: key.toList))

theorem reserved_artifactKey (fileId : Uuid) : Reserved (artifactKey fileId) := by
  rw [Reserved, artifactKey, String.append_assoc, String.toList_append]
  exact List.prefix_append _ _

structure Runner where
  errand : Errand
  rest : ServiceProgram errand.Outcome

structure Traffic where
  backend : Backend
  runners : List Runner
  past : List Event

namespace Traffic

inductive Move where
  | start (e : Errand)
  | resume (i : Nat) (o : Outside)
  | reorder (rows : List Job)
  | deposit (key : String) (bytes : Bytes) (contentType : String)

def opening (queue : JobQueue) (clock : Instant) (objects : ObjectStore) : Traffic :=
  ⟨⟨⟨.empty, queue, clock⟩, objects, .empty⟩, [], []⟩

def store (s : Traffic) : MemoryStore :=
  s.backend.store

def answered (s : Traffic) (i : Nat) (o : Outside) (e : Errand) (c : ServiceCall)
    (next : c.Reply → ServiceProgram e.Outcome) : Traffic where
  backend := (s.backend.answer o c).2
  runners := s.runners.set i ⟨e, next (s.backend.answer o c).1⟩
  past := s.past ++ [⟨i, c, (s.backend.answer o c).1⟩]

def reordered (s : Traffic) (rows : List Job) : Traffic :=
  { s with backend := { s.backend with shared := { s.backend.shared with store := ⟨rows⟩ } } }

def deposited (s : Traffic) (key : String) (bytes : Bytes) (contentType : String) : Traffic :=
  { s with
    backend := { s.backend with objects := s.backend.objects.upload key bytes contentType } }

def step (issuer : TokenIssuer) (s : Traffic) : Move → Traffic
  | .start e => { s with runners := s.runners ++ [⟨e, e.program issuer⟩] }
  | .resume i o =>
    match s.runners[i]? with
    | some ⟨e, .call c next⟩ => if s.store.Unused o.freshId then s.answered i o e c next else s
    | _ => s
  | .reorder rows => if rows.Perm s.store.rows then s.reordered rows else s
  | .deposit key bytes contentType =>
    if Reserved key then s else s.deposited key bytes contentType

def run (issuer : TokenIssuer) (s : Traffic) (ms : List Move) : Traffic :=
  ms.foldl (step issuer) s

inductive Leads (issuer : TokenIssuer) (s : Traffic) : Traffic → Prop
  | stay : Leads issuer s s
  | start (e : Errand) :
      Leads issuer s { s with runners := s.runners ++ [⟨e, e.program issuer⟩] }
  | answered {i : Nat} {e : Errand} {c : ServiceCall} {next : c.Reply → ServiceProgram e.Outcome}
      (o : Outside) : s.runners[i]? = some ⟨e, .call c next⟩ → s.store.Unused o.freshId →
        Leads issuer s (s.answered i o e c next)
  | reordered {rows : List Job} : s.store.rows.Perm rows → Leads issuer s (s.reordered rows)
  | deposited {key : String} (bytes : Bytes) (contentType : String) : ¬ Reserved key →
      Leads issuer s (s.deposited key bytes contentType)

variable {issuer : TokenIssuer} {s t : Traffic}

theorem step_leads (issuer : TokenIssuer) (s : Traffic) (m : Move) :
    s.Leads issuer (s.step issuer m) := by
  cases m with
  | start e => exact .start e
  | resume i o =>
    simp only [step]
    split
    · split
      · exact .answered o ‹_› ‹_›
      · exact .stay
    · exact .stay
  | reorder rows =>
    simp only [step]
    split
    · exact .reordered (List.Perm.symm ‹_›)
    · exact .stay
  | deposit key bytes contentType =>
    simp only [step]
    split
    · exact .stay
    · exact .deposited bytes contentType ‹_›

theorem run_invariant {P : Traffic → Prop} (h0 : P s) (hs : ∀ s t, P s → s.Leads issuer t → P t)
    (ms : List Move) : P (s.run issuer ms) := by
  induction ms generalizing s with
  | nil => exact h0
  | cons m ms ih => exact ih (hs s _ h0 (s.step_leads issuer m))

theorem runner_answered {i : Nat} {r : Runner} (h : s.runners[i]? = some r) (o : Outside)
    (e : Errand) (c : ServiceCall) (next : c.Reply → ServiceProgram e.Outcome) :
    (s.answered i o e c next).runners[i]? = some ⟨e, next (s.backend.answer o c).1⟩ :=
  List.getElem?_set_self (List.getElem?_eq_some_iff.mp h).1

theorem runner_answered_of_ne {i k : Nat} (h : i ≠ k) (o : Outside) (e : Errand) (c : ServiceCall)
    (next : c.Reply → ServiceProgram e.Outcome) :
    (s.answered i o e c next).runners[k]? = s.runners[k]? :=
  List.getElem?_set_ne h

def errand? (s : Traffic) (i : Nat) : Option Errand :=
  s.runners[i]?.map (·.errand)

theorem errand?_leads (hl : s.Leads issuer t) {i : Nat} {e : Errand} (h : s.errand? i = some e) :
    t.errand? i = some e := by
  obtain ⟨r, hr, rfl⟩ := Option.map_eq_some_iff.mp h
  have hi : i < s.runners.length := (List.getElem?_eq_some_iff.mp hr).1
  cases hl with
  | stay | reordered | deposited => exact h
  | start => rw [errand?, List.getElem?_append_left hi, hr]; rfl
  | @answered k e c next o hk =>
    by_cases hik : k = i
    · subst hik
      obtain rfl := Option.some.inj (hr.symm.trans hk)
      rw [errand?, runner_answered hk]
      rfl
    · rw [errand?, runner_answered_of_ne hik, hr]
      rfl

end Traffic

end DocumentPreview
