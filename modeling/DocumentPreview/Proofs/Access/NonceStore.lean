import DocumentPreview.Proofs.Access.SingleUse
import DocumentPreview.Proofs.Text.Numerals

namespace DocumentPreview

def Instant.Before (t : Instant) (second : Int) : Prop :=
  t.nanos < second * 1_000_000_000

namespace Redis

def setCommand (key : String) (second : Int) : List String :=
  ["SET", key, "1", "NX", "EXAT", String.ofList (Text.integer second)]

def lastSecond : Int :=
  9_223_372_036_854_775

structure Server where
  State : Type
  start : State
  Holds : State → Instant → String → Prop
  execute : State → Instant → List String → Reply × State
  not_holds_start : ∀ t key, ¬ Holds start t key
  refuses : ∀ {s : State} {now : Instant} {key : String} {second : Int},
    1 ≤ second → second ≤ lastSecond → Holds s now key →
      (execute s now (setCommand key second)).1 = .absent ∧
      ∀ t other, now ≤ t →
        (Holds (execute s now (setCommand key second)).2 t other ↔ Holds s t other)
  sets : ∀ {s : State} {now : Instant} {key : String} {second : Int},
    1 ≤ second → second ≤ lastSecond → ¬ Holds s now key →
      (execute s now (setCommand key second)).1 = .value ∧
      (∀ t, now ≤ t → t.Before second → Holds (execute s now (setCommand key second)).2 t key) ∧
      ∀ t other, now ≤ t → other ≠ key →
        (Holds (execute s now (setCommand key second)).2 t other ↔ Holds s t other)

structure KeyTable where
  keys : List (String × Nat)

namespace KeyTable

instance (t : Instant) (second : Int) : Decidable (t.Before second) :=
  inferInstanceAs (Decidable (t.nanos < _))

def Holds (table : KeyTable) (t : Instant) (key : String) : Prop :=
  ∃ k ∈ table.keys, k.1 = key ∧ t.Before k.2

instance (table : KeyTable) (t : Instant) (key : String) : Decidable (table.Holds t key) :=
  inferInstanceAs (Decidable (∃ k ∈ table.keys, k.1 = key ∧ t.Before k.2))

def execute (table : KeyTable) (now : Instant) : List String → Reply × KeyTable
  | ["SET", key, "1", "NX", "EXAT", text] =>
    match Text.natural? text.toList with
    | none => (.error "ERR" (some "value is not an integer or out of range"), table)
    | some second =>
      if second = 0 ∨ lastSecond < second then (.error "ERR" (some "invalid expire time"), table)
      else if table.Holds now key then (.absent, table)
      else (.value, ⟨(key, second) :: table.keys⟩)
  | _ => (.error "ERR" (some "unknown command"), table)

theorem execute_setCommand {table : KeyTable} {now : Instant} {key : String} {second : Int}
    (h1 : 1 ≤ second) (h2 : second ≤ lastSecond) :
    table.execute now (setCommand key second) =
      if table.Holds now key then (.absent, table)
      else (.value, ⟨(key, second.toNat) :: table.keys⟩) := by
  have text : Text.integer second = Text.decimal second.toNat := by
    rw [Text.integer, if_neg (by omega)]
    congr 1
    omega
  have allowed : ¬ (second.toNat = 0 ∨ lastSecond < (second.toNat : Int)) := by omega
  rw [setCommand, execute, String.toList_ofList, text, Text.natural?_decimal]
  exact if_neg allowed

def server : Server where
  State := KeyTable
  start := ⟨[]⟩
  Holds := Holds
  execute := execute
  not_holds_start := by simp [Holds]
  refuses {table now key second} h1 h2 held := by
    rw [execute_setCommand h1 h2, if_pos held]
    exact ⟨rfl, fun _ _ _ => Iff.rfl⟩
  sets {table now key second} h1 h2 free := by
    have exact_second : ((second.toNat : Nat) : Int) = second := Int.toNat_of_nonneg (by omega)
    rw [execute_setCommand h1 h2, if_neg free]
    refine ⟨rfl, fun t _ ht => ⟨_, .head _, rfl, by rwa [exact_second]⟩, fun t other _ hne => ?_⟩
    simp [Holds, Ne.symm hne]

end KeyTable

theorem one_le_forgetAt (expiry : Instant) : 1 ≤ forgetAt expiry := by
  rw [forgetAt]
  omega

theorem forgetAt_le_lastSecond (expiry : Instant) : forgetAt expiry ≤ lastSecond := by
  have late := expiry.lt_end
  rw [forgetAt, lastSecond, Instant.unixSeconds]
  omega

theorem before_forgetAt {t expiry : Instant} (h : t ≤ expiry) : t.Before (forgetAt expiry) := by
  have early : t.nanos ≤ expiry.nanos := h
  rw [Instant.Before, forgetAt, Instant.unixSeconds]
  omega

end Redis

structure NonceStore where
  State : Type
  consume : State → Instant → String → Instant → Except Redis.Error Bool × State
  purge : State → Instant → Except Redis.Error Nat × State

abbrev ReplayGuard.nonceStore : NonceStore where
  State := ReplayGuard
  consume g _ nonce expiry := (.ok (g.consume nonce expiry).1, (g.consume nonce expiry).2)
  purge g now := (.ok (g.purge now).1, (g.purge now).2)

abbrev Redis.Server.nonceStore (server : Redis.Server) : NonceStore where
  State := server.State
  consume s now nonce expiry :=
    (Redis.consumed (server.execute s now (Redis.consumeCommand nonce expiry)).1,
      (server.execute s now (Redis.consumeCommand nonce expiry)).2)
  purge s _ := (.ok Redis.purged, s)

namespace NonceStore

variable {store : NonceStore} {s : store.State} {issuer : TokenIssuer} {fileId : Uuid}
  {claims : TokenClaims} {token : String} {o : Outside}

def answer (store : NonceStore) (o : Outside) :
    (c : ServiceCall) → store.State → c.Reply × store.State
  | .clock, s => (o.time, s)
  | .consume nonce expiry, s => store.consume s o.time nonce expiry
  | .purge now, s => store.purge s now
  | c, s => (o.reply c, s)

theorem answer_clock : store.answer o .clock s = (o.time, s) :=
  rfl

theorem answer_consume {nonce : String} {expiry : Instant} :
    store.answer o (.consume nonce expiry) s = store.consume s o.time nonce expiry :=
  rfl

theorem answer_documents {c : DocumentCall} :
    store.answer o (.documents c) s = (o.reply (.documents c), s) :=
  rfl

theorem answer_guard (o : Outside) (c : ServiceCall) (g : ReplayGuard) :
    ReplayGuard.nonceStore.answer o c g = g.answer o c := by
  cases c <;> rfl

theorem pay_eq_run (v : Visit) (g : ReplayGuard) :
    v.pay issuer o g = (v.program issuer).run (ReplayGuard.nonceStore.answer o) g := by
  have same : ReplayGuard.nonceStore.answer o = fun c g => g.answer o c :=
    funext fun c => funext fun g => answer_guard o c g
  rw [same]
  rfl

def outcomes (store : NonceStore) (issuer : TokenIssuer) :
    store.State → Visits → List (Option (Except AccessDenied StoredObject))
  | _, [] => []
  | s, (o, .present fileId token) :: vs =>
    ((Previews.openPreview issuer fileId token).run (store.answer o) s).1 ::
      outcomes store issuer ((Previews.openPreview issuer fileId token).run (store.answer o) s).2 vs
  | s, (o, .purge) :: vs => outcomes store issuer (purgeNonces.run (store.answer o) s).2 vs

def redeemed (o : Outside) (fileId : Uuid) :
    Except Redis.Error Bool → Except AccessDenied StoredObject
  | .ok true =>
    match o.reply (.documents (.download (artifactKey fileId))) with
    | .ok bytes => .ok ⟨bytes, previewContentType⟩
    | .error e => .error (.artifact e)
  | .ok false => .error .replayed
  | .error e => .error (.replayStore e)

theorem run_redeem (s : store.State) (o : Outside) (fileId : Uuid) (claims : TokenClaims) :
    (Previews.redeem fileId claims).run (store.answer o) s =
      (some (redeemed o fileId (store.consume s o.time claims.nonce claims.expiry).1),
        (store.consume s o.time claims.nonce claims.expiry).2) := by
  simp only [Previews.redeem, Program.run, answer_consume]
  rcases (store.consume s o.time claims.nonce claims.expiry).1 with e | _ | _
  · rfl
  · rfl
  · cases h : o.reply (.documents (.download (artifactKey fileId))) <;>
      simp [Previews.fetch, Program.run, answer_documents, redeemed, h]

theorem run_openPreview (s : store.State) (issuer : TokenIssuer) (fileId : Uuid) (token : String)
    (o : Outside) :
    (Previews.openPreview issuer fileId token).run (store.answer o) s =
      match issuer.validate token o.time with
      | .error e => (some (.error (.token e)), s)
      | .ok claims =>
        if claims.fileId = fileId then
          (some (redeemed o fileId (store.consume s o.time claims.nonce claims.expiry).1),
            (store.consume s o.time claims.nonce claims.expiry).2)
        else (some (.error .fileMismatch), s) := by
  simp only [Previews.openPreview, Program.run, answer_clock]
  cases issuer.validate token o.time with
  | error e => rfl
  | ok claims =>
    by_cases hf : claims.fileId = fileId
    · simp only [hf, if_true]
      exact run_redeem ..
    · simp only [hf, if_false]
      rfl

theorem openPreview_related {a b : NonceStore} {sa : a.State} {sb : b.State}
    {R : a.State → b.State → Prop} (unused : R sa sb)
    (used : ∀ claims, issuer.Grants fileId token o.time claims →
      (a.consume sa o.time claims.nonce claims.expiry).1 =
          (b.consume sb o.time claims.nonce claims.expiry).1 ∧
        R (a.consume sa o.time claims.nonce claims.expiry).2
          (b.consume sb o.time claims.nonce claims.expiry).2) :
    let p := Previews.openPreview issuer fileId token
    (p.run (a.answer o) sa).1 = (p.run (b.answer o) sb).1 ∧
      R (p.run (a.answer o) sa).2 (p.run (b.answer o) sb).2 := by
  simp only [run_openPreview]
  cases hvalid : issuer.validate token o.time with
  | error e => exact ⟨rfl, unused⟩
  | ok claims =>
    by_cases hf : claims.fileId = fileId
    · obtain ⟨same, related⟩ := used claims ⟨hvalid, hf⟩
      simp only [hf, if_true, same]
      exact ⟨trivial, related⟩
    · simp only [hf, if_false]
      exact ⟨trivial, unused⟩

end NonceStore

end DocumentPreview
