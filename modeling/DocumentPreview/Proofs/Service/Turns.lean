import DocumentPreview.Proofs.Service.Beats

namespace DocumentPreview

inductive Turn where
  | perform (a : Activity) (os : List Outside)
  | deliver (w : Worker) (os : List Outside)
  | reorder (rows : List Job)

namespace Turn

def resumes (i : Nat) (os : List Outside) : List Beat :=
  os.map fun o => .move (.resume i o)

def beats (i : Nat) : Turn → List Beat
  | perform a os => .move (.start a) :: resumes i os
  | deliver w os => .deliver w :: resumes i os
  | reorder rows => [.move (.reorder rows)]

def Performs : Turn → Activity → Prop
  | perform b _, a => a = b
  | deliver w _, a => ∃ id, a = .work w id
  | reorder _, _ => False

end Turn

namespace System

def turn (s : System) (t : Turn) : System :=
  s.play (t.beats s.strands.length)

def turns (s : System) (ts : List Turn) : System :=
  ts.foldl turn s

end System

def slowAnswers (n seconds freshId : Nat) : List Outside :=
  List.replicate n (.slow ((Instant.ofUnixSeconds? seconds).getD .epoch) (.ofNat freshId))

abbrev CallRule : Type :=
  Shared → List Event → ServiceCall → Prop

namespace Program

variable {α : Type}

def Respects (ok : CallRule) (post : Option α → Shared → Prop) (i : Nat) :
    ServiceProgram α → Shared → List Event → Prop
  | done a, s, _ => post (some a) s
  | abort, s, _ => post none s
  | call c next, s, past => ok s past c ∧ ∀ o, s.store.Unused o.freshId →
    Respects ok post i (next (s.answer o c).1) (s.answer o c).2
      (past ++ [⟨i, c, (s.answer o c).1⟩])

variable {ok ok' : CallRule} {post post' : Option α → Shared → Prop} {i : Nat}
  {p : ServiceProgram α} {s : Shared} {past : List Event}

theorem Respects.imp (h : p.Respects ok post i s past) (hok : ∀ s past c, ok s past c → ok' s past c)
    (hpost : ∀ r s, post r s → post' r s) : p.Respects ok' post' i s past := by
  induction p generalizing s past with
  | done a => exact hpost _ _ h
  | abort => exact hpost _ _ h
  | call c next ih => exact ⟨hok _ _ _ h.1, fun o hu => ih _ (h.2 o hu)⟩

theorem Respects.of_any_reply {c : ServiceCall} {next : c.Reply → ServiceProgram α}
    (hc : ok s past c)
    (h : ∀ o, s.store.Unused o.freshId → ∀ r, (next r).Respects ok post i (s.answer o c).2
      (past ++ [⟨i, c, r⟩])) : (call c next).Respects ok post i s past :=
  ⟨hc, fun o hu => h o hu _⟩

theorem respects_of_every (h : p.Every fun (c : ServiceCall) => ∀ s past, ok s past c)
    (hpost : ∀ r s, post r s) : p.Respects ok post i s past := by
  induction p generalizing s past with
  | done a => exact hpost _ _
  | abort => exact hpost _ _
  | call c next ih => exact ⟨h.1 _ _, fun o _ => ih _ (h.2 _)⟩

end Program

structure CallRule.Keeps (ok : CallRule) (Inv : Shared → List Event → Prop) : Prop where
  answer : ∀ {s : Shared} {past : List Event} {c : ServiceCall} {o : Outside} (i : Nat),
    Inv s past → ok s past c → s.store.Unused o.freshId →
      Inv (s.answer o c).2 (past ++ [⟨i, c, (s.answer o c).1⟩])
  queue : ∀ {s : Shared} {past : List Event} (queue : JobQueue),
    Inv s past → Inv { s with queue } past
  reorder : ∀ {s : Shared} {past : List Event} {rows : List Job},
    s.store.rows.Perm rows → Inv s past → Inv { s with store := ⟨rows⟩ } past

namespace System

variable {s : System} {ok : CallRule} {Inv : Shared → List Event → Prop} {a : Activity}

def Underway (ok : CallRule) (post : Option a.Outcome → Shared → Prop)
    (Inv : Shared → List Event → Prop) (earlier : List Strand) (s : System) : Prop :=
  ∃ p, s.strands = earlier ++ [⟨a, p⟩] ∧
    p.Respects ok post earlier.length s.shared s.past ∧ Inv s.shared s.past

variable {post : Option a.Outcome → Shared → Prop} {earlier : List Strand}

theorem Underway.step (h : s.Underway ok post Inv earlier) (keeps : ok.Keeps Inv) (o : Outside) :
    (s.step (.resume earlier.length o)).Underway ok post Inv earlier := by
  obtain ⟨p, hs, hp, hi⟩ := h
  have last : s.strands[earlier.length]? = some ⟨a, p⟩ := by simp [hs]
  cases p with
  | done r =>
    simp only [System.step, last]
    exact ⟨_, hs, hp, hi⟩
  | abort =>
    simp only [System.step, last]
    exact ⟨_, hs, hp, hi⟩
  | call c next =>
    simp only [System.step, last]
    split
    · refine ⟨_, ?_, hp.2 o ‹_›, keeps.answer _ hi hp.1 ‹_›⟩
      simp [answered, hs]
    · exact ⟨_, hs, hp, hi⟩

theorem Underway.resumes (h : s.Underway ok post Inv earlier) (keeps : ok.Keeps Inv)
    (os : List Outside) :
    (s.play (Turn.resumes earlier.length os)).Underway ok post Inv earlier := by
  induction os generalizing s with
  | nil => exact h
  | cons o os ih => exact ih (h.step keeps o)

theorem turn_perform (keeps : ok.Keeps Inv) (hi : Inv s.shared s.past)
    (ha : a.program.Respects ok post s.strands.length s.shared s.past) (os : List Outside) :
    (s.turn (.perform a os)).Underway ok post Inv s.strands :=
  Underway.resumes (s := s.step (.start a)) ⟨a.program, rfl, ha, hi⟩ keeps os

theorem resumes_absent {i : Nat} (h : s.strands[i]? = none) (os : List Outside) :
    s.play (Turn.resumes i os) = s := by
  induction os with
  | nil => rfl
  | cons o os ih =>
    have stays : s.step (.resume i o) = s := by simp only [step, h]
    show (s.step (.resume i o)).play _ = s
    rw [stays]
    exact ih

theorem turn_invariant (keeps : ok.Keeps Inv) (hi : Inv s.shared s.past) {t : Turn}
    (ht : ∀ a, t.Performs a → ∀ i s past, Inv s past →
      a.program.Respects ok (fun _ _ => True) i s past) :
    Inv (s.turn t).shared (s.turn t).past := by
  cases t with
  | perform a os =>
    obtain ⟨_, -, -, hi⟩ := turn_perform keeps hi (ht a rfl _ _ _ hi) os
    exact hi
  | deliver w os =>
    simp only [turn, Turn.beats, play, List.foldl_cons, beat, deliver]
    split
    · rename_i id queue _
      have hq := keeps.queue queue hi
      obtain ⟨_, -, -, hi⟩ := turn_perform (s := s.withQueue queue) keeps hq
        (ht _ ⟨id, rfl⟩ _ _ _ hq) os
      exact hi
    -- With nothing in the queue the worker has no strand that could be resumed.
    · rw [← play, resumes_absent (by simp)]
      exact hi
  | reorder rows =>
    simp only [turn, Turn.beats, play, List.foldl_cons, List.foldl_nil, beat, step]
    split
    · exact keeps.reorder (List.Perm.symm ‹_›) hi
    · exact hi

theorem turns_invariant (keeps : ok.Keeps Inv) (hi : Inv s.shared s.past) {ts : List Turn}
    (ht : ∀ t ∈ ts, ∀ a, t.Performs a → ∀ i s past, Inv s past →
      a.program.Respects ok (fun _ _ => True) i s past) :
    Inv (s.turns ts).shared (s.turns ts).past := by
  induction ts generalizing s with
  | nil => exact hi
  | cons t ts ih =>
    have here := turn_invariant keeps hi (ht t (.head _))
    exact ih here fun t ht' => ht t (.tail _ ht')

end System

end DocumentPreview
