import DocumentPreview.Proofs.Service.Backend

namespace DocumentPreview

inductive UserRequest where
  | enqueue (maxAttempts : Int32) (fileId : Uuid) (requestedBy : Option String)
  | retry (fileId : Uuid)
  | status (fileId : Uuid)
  | issueToken (fileId : Uuid)
  | openPreview (fileId : Uuid) (token : String)

namespace UserRequest

def Refusal : UserRequest → Type
  | enqueue .. | retry _ | status _ | issueToken _ => PreviewError
  | openPreview .. => AccessDenied

def Answer : UserRequest → Type
  | enqueue .. | retry _ => EnqueueOutcome
  | status _ => Option Job
  | issueToken _ => MintedToken
  | openPreview .. => StoredObject

def program (issuer : TokenIssuer) :
    (r : UserRequest) → ServiceProgram (Except r.Refusal r.Answer)
  | enqueue maxAttempts fileId requestedBy => Previews.enqueue maxAttempts fileId requestedBy
  | retry fileId => Previews.retry fileId
  | status fileId => Previews.status fileId
  | issueToken fileId => Previews.issueToken issuer fileId
  | openPreview fileId token => Previews.openPreview issuer fileId token

def Misses : (r : UserRequest) → r.Refusal → Prop
  | openPreview .., .artifact _ => True
  | _, _ => False

def Consults : UserRequest → Prop
  | status _ | issueToken _ | openPreview .. => True
  | enqueue .. | retry _ => False

end UserRequest

def ServiceCall.Looks : ServiceCall → Prop
  | .store (.get _) | .store (.latest _) | .store (.pending _) | .store .counts | .store .ping => True
  | .documents (.find _) | .documents (.download _) | .documents (.convert ..) => True
  | .clock | .freshId | .queueLoad | .probeReplay | .count _ | .timeAttempt | .metricsPage => True
  | _ => False

namespace Backend

variable {α : Type} {s t u : Backend} {issuer : TokenIssuer} {fileId : Uuid} {token : String}

structure Kept (s t : Backend) : Prop where
  store : t.store = s.store
  queue : t.shared.queue = s.shared.queue
  objects : t.objects = s.objects

structure Same (s t : Backend) : Prop extends Kept s t where
  guard : t.guard = s.guard

theorem Kept.trans (h : Kept s t) (h' : Kept t u) : Kept s u where
  store := h'.store.trans h.store
  queue := h'.queue.trans h.queue
  objects := h'.objects.trans h.objects

theorem Same.rfl : Same s s :=
  ⟨⟨Eq.refl _, Eq.refl _, Eq.refl _⟩, Eq.refl _⟩

theorem Same.trans (h : Same s t) (h' : Same t u) : Same s u where
  toKept := h.toKept.trans h'.toKept
  guard := h'.guard.trans h.guard

theorem answer_looks {o : Outside} {c : ServiceCall} (h : c.Looks) : Same s (s.answer o c).2 := by
  cases c with
  | store op =>
    cases op with
    | get | latest | pending | counts | ping => exact ⟨⟨rfl, rfl, rfl⟩, rfl⟩
    | _ => exact h.elim
  | documents c =>
    cases c with
    | upload => exact h.elim
    | _ => exact Same.rfl
  | clock => exact ⟨⟨rfl, rfl, rfl⟩, rfl⟩
  | within | consume | purge | offer => exact h.elim
  | freshId | queueLoad | probeReplay | count | timeAttempt | metricsPage => exact Same.rfl

def attend (s : Backend) (o : ServiceCall → Outside) (p : ServiceProgram α) : Option α × Backend :=
  p.run (fun c s => s.answer (o c) c) s

variable {o : ServiceCall → Outside}

theorem same_attend {p : ServiceProgram α} (h : p.Every ServiceCall.Looks) :
    Same s (s.attend o p).2 := by
  induction p generalizing s with
  | done a => exact Same.rfl
  | abort => exact Same.rfl
  | call c next ih => exact (answer_looks h.1).trans (ih _ (h.2 _))

theorem same_of_attend {p : ServiceProgram α} {r : Option α} (h : p.Every ServiceCall.Looks)
    (hr : s.attend o p = (r, t)) : Same s t := by
  have same := same_attend (s := s) (o := o) h
  rwa [hr] at same

theorem every_refuseRetry (j : Job) : (Previews.refuseRetry j).Every ServiceCall.Looks := by
  refine ⟨trivial, fun r => ?_⟩
  rcases r with e | _ | job <;> trivial

theorem every_status (fileId : Uuid) : (Previews.status fileId).Every ServiceCall.Looks := by
  refine ⟨trivial, fun r => ?_⟩
  rcases r with e | j <;> trivial

theorem every_mint (issuer : TokenIssuer) (fileId : Uuid) :
    (Previews.mint issuer fileId).Every ServiceCall.Looks := by
  refine ⟨trivial, fun now => ?_⟩
  dsimp only
  split
  · trivial
  · refine ⟨trivial, fun nonce => ?_⟩
    dsimp only
    split
    · exact ⟨trivial, fun _ => trivial⟩
    · trivial

theorem every_issueToken (issuer : TokenIssuer) (fileId : Uuid) :
    (Previews.issueToken issuer fileId).Every ServiceCall.Looks := by
  refine ⟨trivial, fun r => ?_⟩
  rcases r with e | j
  · trivial
  · dsimp only
    split
    · exact every_mint issuer fileId
    · trivial

theorem every_fetch (fileId : Uuid) : (Previews.fetch fileId).Every ServiceCall.Looks := by
  refine ⟨trivial, fun r => ?_⟩
  rcases r with e | bytes <;> trivial

theorem answer_store {o : Outside} (op : StoreOp) {r : op.Result} {m : MemoryStore}
    (h : s.store.run o.time o.freshId op = (r, m)) : s.answer o (.store op) =
      (.ok r, { s with shared := { s.shared with store := m, clock := o.time } }) := by
  simp only [answer, Shared.answer_store_eq op h]

theorem attend_offer (s : Backend) (o : ServiceCall → Outside) (j : Job) (created : Bool) :
    ∃ out, (s.attend o (Previews.offer j created)).1 = some (.ok out) := by
  simp only [attend, Previews.offer, Program.run]
  cases (s.answer (o (.offer j.id)) (.offer j.id)).1 <;> exact ⟨_, rfl⟩

theorem attend_create (s : Backend) (o : ServiceCall → Outside) (maxAttempts : Int32)
    (fileId : Uuid) (requestedBy : Option String) :
    ∃ out, (s.attend o (Previews.create maxAttempts fileId requestedBy)).1 = some (.ok out) := by
  let create := StoreOp.create fileId requestedBy maxAttempts
  let o' := o (.store create)
  simp only [attend, Previews.create, Program.run]
  rcases s.store.create_cases o'.time o'.freshId fileId requestedBy maxAttempts with
    ⟨j, -, he⟩ | ⟨-, he⟩
  · rw [answer_store create he]
    exact ⟨_, rfl⟩
  · rw [answer_store create he]
    exact attend_offer _ o _ true

theorem same_of_enqueue {maxAttempts : Int32} {requestedBy : Option String} {e : PreviewError}
    (h : s.attend o (Previews.enqueue maxAttempts fileId requestedBy) = (some (.error e), t)) :
    Same s t := by
  let find := ServiceCall.documents (.find fileId)
  have looked : Same s (s.answer (o find) find).2 := answer_looks trivial
  simp only [attend, Previews.enqueue, Program.run] at h
  generalize s.answer (o find) find = a at h looked
  obtain ⟨r, u⟩ := a
  rcases r with e' | _ | file
  · cases h
    exact looked
  · cases h
    exact looked
  · obtain ⟨out, granted⟩ := attend_create u o maxAttempts fileId requestedBy
    cases granted.symm.trans (congrArg Prod.fst h)

theorem same_of_reset {j : Job} {e : PreviewError}
    (h : s.attend o (Previews.reset j) = (some (.error e), t)) : Same s t := by
  simp only [attend, Previews.reset, Program.run] at h
  rcases s.store.reset_cases (o (.store (.reset j.id))).time j.id with
    ⟨-, he⟩ | ⟨k, -, -, -, he⟩
  · rw [answer_store (.reset j.id) he] at h
    exact Same.trans ⟨⟨rfl, rfl, rfl⟩, rfl⟩ (same_of_attend (every_refuseRetry j) h)
  · rw [answer_store (.reset j.id) he] at h
    obtain ⟨out, granted⟩ := attend_offer _ o (k.restarted _) false
    cases granted.symm.trans (congrArg Prod.fst h)

theorem same_of_retry {e : PreviewError}
    (h : s.attend o (Previews.retry fileId) = (some (.error e), t)) : Same s t := by
  let latest := ServiceCall.store (.latest fileId)
  have looked : Same s (s.answer (o latest) latest).2 := answer_looks trivial
  simp only [attend, Previews.retry, Program.run] at h
  generalize s.answer (o latest) latest = a at h looked
  obtain ⟨r, u⟩ := a
  rcases r with e' | _ | j
  · cases h
    exact looked
  · cases h
    exact looked
  · by_cases hf : j.status = .failed
    · simp only [hf, if_true] at h
      exact looked.trans (same_of_reset h)
    · simp only [hf, if_false] at h
      cases h
      exact looked

theorem attend_fetch (s : Backend) (o : ServiceCall → Outside) (fileId : Uuid) :
    (s.attend o (Previews.fetch fileId)).1 = some
      (match s.objects.get? (artifactKey fileId) with
        | some object => .ok ⟨object.bytes, previewContentType⟩
        | none => .error (.artifact (.notFound (artifactKey fileId)))) := by
  simp only [attend, Previews.fetch, Program.run, answer, ObjectStore.answer, ObjectStore.download,
    ObjectStore.find]
  cases s.objects.get? (artifactKey fileId) <;> rfl

inductive Visited (issuer : TokenIssuer) (fileId : Uuid) (token : String) (now : Instant)
    (s : Backend) : Option (Except AccessDenied StoredObject) → Backend → Prop
  | invalid {e : TokenError} {t : Backend} : Same s t →
      Visited issuer fileId token now s (some (.error (.token e))) t
  | mismatched {t : Backend} : Same s t →
      Visited issuer fileId token now s (some (.error .fileMismatch)) t
  | replayed {t : Backend} : Same s t →
      Visited issuer fileId token now s (some (.error .replayed)) t
  | redeemed {claims : TokenClaims} {t : Backend} : issuer.Grants fileId token now claims →
      ¬ s.guard.contains claims.nonce → Kept s t →
      t.guard.consumed = (claims.nonce, claims.expiry) :: s.guard.consumed →
      Visited issuer fileId token now s
        (some (match s.objects.get? (artifactKey fileId) with
          | some object => .ok ⟨object.bytes, previewContentType⟩
          | none => .error (.artifact (.notFound (artifactKey fileId))))) t

theorem visited_redeem {claims : TokenClaims} {now : Instant} (h : Same s t)
    (hg : issuer.Grants fileId token now claims) :
    Visited issuer fileId token now s (t.attend o (Previews.redeem fileId claims)).1
      (t.attend o (Previews.redeem fileId claims)).2 := by
  simp only [attend, Previews.redeem, Program.run, answer, ReplayGuard.answer, ReplayGuard.consume]
  by_cases used : t.guard.contains claims.nonce
  · simp only [used, if_true]
    exact .replayed h
  · let u : Backend := { t with guard := ⟨(claims.nonce, claims.expiry) :: t.guard.consumed⟩ }
    have fetched := attend_fetch u o fileId
    have same := same_attend (s := u) (o := o) (every_fetch fileId)
    have kept : Kept s u := ⟨h.store, h.queue, h.objects⟩
    have guard : u.guard.consumed = (claims.nonce, claims.expiry) :: s.guard.consumed := by
      simp only [u, h.guard]
    rw [show u.objects = s.objects from h.objects] at fetched
    simp only [used]
    change Visited issuer fileId token now s (u.attend o (Previews.fetch fileId)).1
      (u.attend o (Previews.fetch fileId)).2
    rw [fetched]
    exact .redeemed hg (h.guard ▸ used) (kept.trans same.toKept) (same.guard ▸ guard)

theorem visited_openPreview (issuer : TokenIssuer) (fileId : Uuid) (token : String) (s : Backend)
    (o : ServiceCall → Outside) :
    Visited issuer fileId token (o .clock).time s
      (s.attend o (Previews.openPreview issuer fileId token)).1
      (s.attend o (Previews.openPreview issuer fileId token)).2 := by
  have looked : Same s (s.answer (o .clock) .clock).2 := answer_looks trivial
  have read : (s.answer (o .clock) .clock).1 = (o .clock).time := rfl
  simp only [attend, Previews.openPreview, Program.run, read]
  cases hv : issuer.validate token (o .clock).time with
  | error e => exact .invalid looked
  | ok claims =>
    by_cases hf : claims.fileId = fileId
    · simp only [hf, if_true]
      exact visited_redeem looked ⟨hv, hf⟩
    · simp only [hf, if_false]
      exact .mismatched looked

theorem Visited.kept {now : Instant} {r : Option (Except AccessDenied StoredObject)}
    (h : Visited issuer fileId token now s r t) : Kept s t := by
  cases h with
  | invalid same | mismatched same | replayed same => exact same.toKept
  | redeemed _ _ kept => exact kept

structure Refused (issuer : TokenIssuer) (now : Instant) (s t : Backend) (r : UserRequest)
    (e : r.Refusal) : Prop extends Kept s t where
  spared : ¬ r.Misses e → t.guard = s.guard
  spent : r.Misses e → ∃ fileId token claims, r = .openPreview fileId token ∧
    issuer.Grants fileId token now claims ∧ ¬ s.guard.contains claims.nonce ∧
    s.objects.get? (artifactKey fileId) = none ∧
    t.guard.consumed = (claims.nonce, claims.expiry) :: s.guard.consumed

theorem Refused.of_same {now : Instant} {r : UserRequest} {e : r.Refusal} (h : Same s t)
    (hm : ¬ r.Misses e) : Refused issuer now s t r e where
  toKept := h.toKept
  spared := fun _ => h.guard
  spent := fun missing => absurd missing hm

theorem Visited.refused {now : Instant} {e : AccessDenied}
    (h : Visited issuer fileId token now s (some (.error e)) t) :
    Refused issuer now s t (.openPreview fileId token) e := by
  generalize hr : some (Except.error e) = r at h
  cases h with
  | invalid same | mismatched same | replayed same =>
    cases hr
    exact .of_same same id
  | redeemed granted fresh kept spent =>
    cases ho : s.objects.get? (artifactKey fileId) with
    | some object =>
      rw [ho] at hr
      cases hr
    | none =>
      rw [ho] at hr
      cases hr
      exact ⟨kept, fun found => absurd trivial found,
        fun _ => ⟨fileId, token, _, rfl, granted, fresh, ho, spent⟩⟩

end Backend

theorem refusal_leaves_no_trace (issuer : TokenIssuer) (r : UserRequest)
    (o : ServiceCall → Outside) (s : Backend) :
    (∀ e t, s.attend o (r.program issuer) = (some (.error e), t) →
      s.Refused issuer (o .clock).time t r e) ∧
    (r.Consults → s.Kept (s.attend o (r.program issuer)).2) := by
  constructor
  · intro e t h
    cases r with
    | enqueue => exact .of_same (Backend.same_of_enqueue h) id
    | retry => exact .of_same (Backend.same_of_retry h) id
    | status fileId => exact .of_same (Backend.same_of_attend (Backend.every_status fileId) h) id
    | issueToken fileId =>
      exact .of_same (Backend.same_of_attend (Backend.every_issueToken issuer fileId) h) id
    | openPreview fileId token =>
      have visited := Backend.visited_openPreview issuer fileId token s o
      have opened : s.attend o (Previews.openPreview issuer fileId token) =
        (some (.error e), t) := h
      rw [opened] at visited
      exact visited.refused
  · intro consults
    cases r with
    | enqueue | retry => exact consults.elim
    | status fileId => exact (Backend.same_attend (Backend.every_status fileId)).toKept
    | issueToken fileId => exact (Backend.same_attend (Backend.every_issueToken issuer fileId)).toKept
    | openPreview fileId token => exact (Backend.visited_openPreview issuer fileId token s o).kept

def unrendered : Backend :=
  ⟨⟨.empty, ⟨1, [], []⟩, .epoch⟩, .empty, .empty⟩

theorem refusal_leaves_no_trace_unrendered :
    ∃ (m : MintedToken) (t : Backend), m.claims.fileId = .ofNat 9 ∧
      unrendered.attend (fun _ => .reading .epoch)
          (UserRequest.program .zeroKey (.openPreview (.ofNat 9) m.token)) =
        (some (.error (.artifact (.notFound (artifactKey (.ofNat 9))))), t) ∧
      t.guard.consumed = [(m.claims.nonce, m.claims.expiry)] ∧ t.objects = .empty := by
  obtain ⟨m, hm, ends⟩ := TokenIssuer.mint?_zeroKey_epoch (.ofNat 9) (.ofNat 1)
  have file := (TokenIssuer.claims_of_mint? hm).1
  have early : Instant.epoch < m.claims.expiry := ends ▸ by decide
  obtain ⟨good, -⟩ : TokenIssuer.zeroKey.Grants (.ofNat 9) m.token .epoch m.claims :=
    (TokenIssuer.grants_minted_iff hm).mpr ⟨rfl, early, file⟩
  obtain ⟨t, refused⟩ : ∃ t, unrendered.attend (fun _ => .reading .epoch)
      (UserRequest.program .zeroKey (.openPreview (.ofNat 9) m.token)) =
        (some (.error (.artifact (.notFound (artifactKey (.ofNat 9))))), t) := by
    have read : (unrendered.answer (.reading .epoch) .clock).1 = Instant.epoch := rfl
    simp only [Backend.attend, UserRequest.program, Previews.openPreview, Program.run, read, good,
      file, if_true]
    exact ⟨_, rfl⟩
  have traces := (refusal_leaves_no_trace .zeroKey _ _ unrendered).1 _ t refused
  obtain ⟨f, token, claims, ⟨⟩, granted, -, -, spent⟩ := traces.spent trivial
  obtain rfl := ((TokenIssuer.grants_minted_iff hm).mp granted).1
  exact ⟨m, t, file, refused, spent, traces.objects⟩

end DocumentPreview
