import DocumentPreview.Http.Pages
import DocumentPreview.Proofs.Service.Backend
import Mathlib.Data.Set.Subsingleton

namespace DocumentPreview

namespace Form

def values (query name : String) : List String :=
  ((pairs (query.toList.takeWhile (· ≠ '#'))).filter (·.1 = name)).map (·.2)

theorem single?_eq_some_iff {name value : String} {ps : List (String × String)} :
    single? name ps = some value ↔ (ps.filter (·.1 = name)).map (·.2) = [value] := by
  rw [single?]
  split
  · rename_i p hp
    simp [hp]
  · rename_i hp
    refine iff_of_false (fun h => nomatch h) fun h => ?_
    obtain ⟨p, hp', -⟩ := List.map_eq_singleton_iff.mp h
    exact hp p hp'

end Form

namespace PreviewQuery

structure Asks (query : String) (fileId : Uuid) (token : String) : Prop where
  oneFile : ∃ text, Form.values query "file_id" = [text] ∧ Uuid.ofString? text = some fileId
  oneToken : Form.values query "token" = [token]
  nonempty : 1 ≤ Utf8.size token.toList
  size_le : Utf8.size token.toList ≤ 1024

variable {query token : String} {fileId : Uuid} {q : PreviewQuery}

theorem ofString?_eq_some_iff : ofString? query = some q ↔
    (∃ text, Form.values query "file_id" = [text] ∧ Uuid.ofString? text = some q.fileId) ∧
      Form.values query "token" = [q.token] := by
  simp only [ofString?, Option.bind_eq_bind, Option.bind_eq_some_iff, Form.single?_eq_some_iff]
  constructor
  · rintro ⟨text, htext, token, htoken, fileId, hid, hq⟩
    obtain rfl := Option.some.inj hq
    exact ⟨⟨text, htext, hid⟩, htoken⟩
  · rintro ⟨⟨text, htext, hid⟩, htoken⟩
    exact ⟨text, htext, q.token, htoken, q.fileId, hid, rfl⟩

theorem violation?_eq_none_iff : q.violation? = none ↔
    1 ≤ Utf8.size q.token.toList ∧ Utf8.size q.token.toList ≤ 1024 := by
  rw [violation?, maxTokenBytes]
  by_cases short : Utf8.size q.token.toList < 1
  · exact iff_of_false (by simp [short]) (by omega)
  by_cases long : 1024 < Utf8.size q.token.toList
  · exact iff_of_false (by simp [short, long]) (by omega)
  · exact iff_of_true (by simp [short, long]) (by omega)

theorem asks_iff :
    Asks query q.fileId q.token ↔ ofString? query = some q ∧ q.violation? = none := by
  rw [ofString?_eq_some_iff, violation?_eq_none_iff]
  constructor
  · rintro ⟨file, token, nonempty, size_le⟩
    exact ⟨⟨file, token⟩, nonempty, size_le⟩
  · rintro ⟨⟨file, token⟩, nonempty, size_le⟩
    exact ⟨file, token, nonempty, size_le⟩

end PreviewQuery

namespace Backend

variable {issuer : TokenIssuer} {fileId : Uuid} {token : String} {o : Outside} {s : Backend}
  {claims : TokenClaims}

def fetched (s : Backend) (fileId : Uuid) : Except AccessDenied StoredObject :=
  match s.objects.get? (artifactKey fileId) with
  | some object => .ok ⟨object.bytes, previewContentType⟩
  | none => .error (.artifact (.notFound (artifactKey fileId)))

theorem run_fetch (s : Backend) (o : Outside) (fileId : Uuid) :
    s.run o (Previews.fetch fileId) = (some (s.fetched fileId), s) := by
  cases h : s.objects.get? (artifactKey fileId) <;>
    simp [run, Previews.fetch, Program.run, answer, ObjectStore.answer, ObjectStore.download,
      ObjectStore.find, h, Except.map, fetched]

theorem run_redeem_used (h : s.guard.contains claims.nonce) :
    s.run o (Previews.redeem fileId claims) = (some (.error .replayed), s) := by
  simp only [run, Previews.redeem, Program.run, answer, ReplayGuard.answer, ReplayGuard.consume, h,
    if_true]

theorem run_redeem_fresh (h : ¬ s.guard.contains claims.nonce) :
    s.run o (Previews.redeem fileId claims) =
      (some (s.fetched fileId),
        { s with guard := ⟨(claims.nonce, claims.expiry) :: s.guard.consumed⟩ }) := by
  have fresh : s.guard.consume claims.nonce claims.expiry =
      (true, ⟨(claims.nonce, claims.expiry) :: s.guard.consumed⟩) := if_neg h
  refine Eq.trans ?_ (run_fetch { s with guard := ⟨_ :: s.guard.consumed⟩ } o fileId)
  simp only [run, Previews.redeem, Program.run, answer, ReplayGuard.answer, fresh]

theorem run_openPreview (issuer : TokenIssuer) (fileId : Uuid) (token : String) (o : Outside)
    (s : Backend) :
    ∃ t : Backend, t.guard = s.guard ∧ t.objects = s.objects ∧
      s.run o (Previews.openPreview issuer fileId token) =
        match issuer.validate token o.time with
        | .error e => (some (.error (.token e)), t)
        | .ok claims =>
          if claims.fileId = fileId then t.run o (Previews.redeem fileId claims)
          else (some (.error .fileMismatch), t) := by
  refine ⟨(s.answer o .clock).2, rfl, rfl, ?_⟩
  change (s.answer o .clock).2.run o (match issuer.validate token o.time with
    | .error e => .done (.error (.token e))
    | .ok claims =>
      if claims.fileId = fileId then Previews.redeem fileId claims
      else .done (.error .fileMismatch)) = _
  cases issuer.validate token o.time with
  | error e => rfl
  | ok claims => by_cases h : claims.fileId = fileId <;> simp only [h, if_true, if_false]; rfl

theorem run_openPreview_fresh (h : issuer.Grants fileId token o.time claims)
    (hf : ¬ s.guard.contains claims.nonce) :
    ∃ t, s.run o (Previews.openPreview issuer fileId token) = (some (s.fetched fileId), t) ∧
      t.guard.consumed = (claims.nonce, claims.expiry) :: s.guard.consumed := by
  obtain ⟨hv, hfile⟩ := h
  obtain ⟨t, hg, ho, hrun⟩ := run_openPreview issuer fileId token o s
  simp only [hv, hfile, if_true] at hrun
  rw [run_redeem_fresh (hg ▸ hf), hg, fetched, ho] at hrun
  exact ⟨_, hrun, rfl⟩

theorem run_openPreview_refused
    (h : ∀ claims, issuer.Grants fileId token o.time claims → s.guard.contains claims.nonce) :
    ∃ e t, s.run o (Previews.openPreview issuer fileId token) = (some (.error e), t) ∧
      t.guard = s.guard := by
  obtain ⟨t, hg, -, hrun⟩ := run_openPreview issuer fileId token o s
  cases hv : issuer.validate token o.time with
  | error e =>
    rw [hv] at hrun
    exact ⟨_, t, hrun, hg⟩
  | ok claims =>
    by_cases hfile : claims.fileId = fileId
    · simp only [hv, hfile, if_true] at hrun
      rw [run_redeem_used (hg ▸ h claims ⟨hv, hfile⟩)] at hrun
      exact ⟨_, t, hrun, hg⟩
    · simp only [hv, hfile, if_false] at hrun
      exact ⟨_, t, hrun, hg⟩

end Backend

namespace Http.Site

def Entitled (site : Site) (g : ReplayGuard) (now : Instant) (query : String) (fileId : Uuid)
    (claims : TokenClaims) : Prop :=
  ∃ token, PreviewQuery.Asks query fileId token ∧ site.issuer.Grants fileId token now claims ∧
    ¬ g.contains claims.nonce

def previewed (site : Site) (query : String) (o : Outside) (s : Backend) :
    Option Response × Backend :=
  s.run o (site.preview query)

def refusals : Set Response :=
  {response | ∃ site query o s, (previewed site query o s).1 = some response ∧
    response.status ≠ 200}

variable {site : Site} {query token : String} {o : Outside} {s : Backend} {fileId : Uuid}
  {claims : TokenClaims}

theorem run_deny (reason : DenialReason) (s : Backend) :
    ∃ t, s.run o (deny reason) = (some unauthorized, t) ∧
      t.guard = s.guard :=
  ⟨_, rfl, rfl⟩

theorem previewed_of_asks (h : PreviewQuery.Asks query fileId token) :
    site.previewed query o s = s.run o ((Previews.openPreview site.issuer fileId token).bind fun
      | .ok object => .done (served object)
      | .error e => deny e.reason) := by
  obtain ⟨hq, hv⟩ := (PreviewQuery.asks_iff (q := ⟨fileId, token⟩)).mp h
  simp only [previewed, preview, hq, hv]
  rfl

theorem previewed_of_not_asks (h : ∀ fileId token, ¬ PreviewQuery.Asks query fileId token) :
    site.previewed query o s = s.run o (deny .badRequest) := by
  rw [previewed, preview]
  cases hq : PreviewQuery.ofString? query with
  | none => rfl
  | some q =>
    have hv : q.violation?.isSome := by
      rw [Option.isSome_iff_ne_none]
      exact fun hv => h _ _ (PreviewQuery.asks_iff.mpr ⟨hq, hv⟩)
    simp only [hv, if_true]

theorem previewed_of_entitled (h : site.Entitled s.guard o.time query fileId claims) :
    ∃ t, site.previewed query o s =
        (some (match s.objects.get? (artifactKey fileId) with
          | some object => served ⟨object.bytes, previewContentType⟩
          | none => unauthorized), t) ∧
      t.guard.consumed = (claims.nonce, claims.expiry) :: s.guard.consumed := by
  obtain ⟨token, hasks, hgrants, hfresh⟩ := h
  obtain ⟨t, hrun, hguard⟩ := Backend.run_openPreview_fresh hgrants hfresh
  rw [previewed_of_asks hasks, Backend.run_bind, hrun, Backend.fetched]
  cases s.objects.get? (artifactKey fileId) with
  | some object => exact ⟨t, rfl, hguard⟩
  | none => exact ⟨t, rfl, hguard⟩

theorem previewed_of_not_entitled
    (h : ∀ fileId claims, ¬ site.Entitled s.guard o.time query fileId claims) :
    ∃ t, site.previewed query o s = (some unauthorized, t) ∧ t.guard = s.guard := by
  by_cases hasks : ∃ fileId token, PreviewQuery.Asks query fileId token
  · obtain ⟨fileId, token, hasks⟩ := hasks
    have taken : ∀ claims, site.issuer.Grants fileId token o.time claims →
        s.guard.contains claims.nonce := fun claims hgrants =>
      not_not.mp fun hfresh => h fileId claims ⟨token, hasks, hgrants, hfresh⟩
    obtain ⟨e, t, hrun, hguard⟩ := Backend.run_openPreview_refused taken
    rw [previewed_of_asks hasks, Backend.run_bind, hrun]
    exact ⟨t, rfl, hguard⟩
  · rw [previewed_of_not_asks fun fileId token ha => hasks ⟨fileId, token, ha⟩]
    exact run_deny .badRequest s

theorem Entitled.unique {g : ReplayGuard} {now : Instant} {f : Uuid} {c : TokenClaims}
    (h : site.Entitled g now query fileId claims) (h' : site.Entitled g now query f c) :
    fileId = f ∧ claims = c := by
  obtain ⟨t, ht, hg, -⟩ := h
  obtain ⟨u, hu, hg', -⟩ := h'
  have one := (PreviewQuery.asks_iff (q := ⟨fileId, t⟩)).mp ht
  have other := (PreviewQuery.asks_iff (q := ⟨f, u⟩)).mp hu
  obtain ⟨rfl, rfl⟩ := PreviewQuery.mk.inj (Option.some.inj (one.1.symm.trans other.1))
  exact ⟨rfl, Except.ok.inj (hg.1.symm.trans hg'.1)⟩

inductive Answers (site : Site) (query : String) (now : Instant) (s : Backend) :
    Response → ReplayGuard → Prop
  | served {fileId : Uuid} {claims : TokenClaims} {object : StoredObject} {g : ReplayGuard} :
      site.Entitled s.guard now query fileId claims →
      s.objects.get? (artifactKey fileId) = some object →
      g.consumed = (claims.nonce, claims.expiry) :: s.guard.consumed →
        Answers site query now s (served ⟨object.bytes, previewContentType⟩) g
  | missing {fileId : Uuid} {claims : TokenClaims} {g : ReplayGuard} :
      site.Entitled s.guard now query fileId claims →
      s.objects.get? (artifactKey fileId) = none →
      g.consumed = (claims.nonce, claims.expiry) :: s.guard.consumed →
        Answers site query now s unauthorized g
  | refused : (∀ fileId claims, ¬ site.Entitled s.guard now query fileId claims) →
      Answers site query now s unauthorized s.guard

theorem previewed_answers (site : Site) (query : String) (o : Outside) (s : Backend) :
    ∃ response t, site.previewed query o s = (some response, t) ∧
      site.Answers query o.time s response t.guard := by
  by_cases he : ∃ fileId claims, site.Entitled s.guard o.time query fileId claims
  · obtain ⟨fileId, claims, he⟩ := he
    obtain ⟨t, hrun, hguard⟩ := previewed_of_entitled he
    refine ⟨_, t, hrun, ?_⟩
    cases hobject : s.objects.get? (artifactKey fileId) with
    | some object => exact .served he hobject hguard
    | none => exact .missing he hobject hguard
  · have he : ∀ fileId claims, ¬ site.Entitled s.guard o.time query fileId claims :=
      fun fileId claims h => he ⟨fileId, claims, h⟩
    obtain ⟨t, hrun, hguard⟩ := previewed_of_not_entitled he
    exact ⟨_, t, hrun, hguard ▸ .refused he⟩

namespace Answers

variable {now : Instant} {response : Response} {g : ReplayGuard}

theorem served_iff (h : site.Answers query now s response g) (bytes : Bytes) :
    (response.status = 200 ∧ response.body = bytes) ↔ ∃ fileId claims object,
      site.Entitled s.guard now query fileId claims ∧
        s.objects.get? (artifactKey fileId) = some object ∧ object.bytes = bytes := by
  cases h with
  | served he hobject =>
    constructor
    · rintro ⟨-, hbytes⟩
      exact ⟨_, _, _, he, hobject, hbytes⟩
    · rintro ⟨_, _, object, he', hobject', hbytes⟩
      obtain ⟨rfl, -⟩ := he.unique he'
      obtain rfl := Option.some.inj (hobject.symm.trans hobject')
      exact ⟨rfl, hbytes⟩
  | missing he hobject =>
    refine iff_of_false (fun h => nomatch h.1) ?_
    rintro ⟨_, _, object, he', hobject', -⟩
    obtain ⟨rfl, -⟩ := he.unique he'
    exact nomatch hobject.symm.trans hobject'
  | refused hn =>
    refine iff_of_false (fun h => nomatch h.1) ?_
    rintro ⟨fileId, claims, -, he, -⟩
    exact hn fileId claims he

theorem status_or_unauthorized (h : site.Answers query now s response g) :
    response.status = 200 ∨ response = unauthorized := by
  cases h with
  | served => exact .inl rfl
  | missing => exact .inr rfl
  | refused => exact .inr rfl

theorem consumed (h : site.Answers query now s response g)
    (he : site.Entitled s.guard now query fileId claims) :
    g.consumed = (claims.nonce, claims.expiry) :: s.guard.consumed := by
  cases h with
  | served he' _ hg | missing he' _ hg =>
    obtain ⟨-, rfl⟩ := he.unique he'
    exact hg
  | refused hn => exact absurd he (hn _ _)

theorem kept (h : site.Answers query now s response g)
    (hn : ∀ fileId claims, ¬ site.Entitled s.guard now query fileId claims) : g = s.guard := by
  cases h with
  | served he | missing he => exact absurd he (hn _ _)
  | refused => rfl

end Answers

theorem eq_unauthorized_of_mem_refusals {response : Response} (h : response ∈ refusals) :
    response = unauthorized := by
  obtain ⟨site, query, o, s, hresponse, hstatus⟩ := h
  obtain ⟨r, t, hrun, answers⟩ := previewed_answers site query o s
  rw [hrun] at hresponse
  obtain rfl := Option.some.inj hresponse
  exact answers.status_or_unauthorized.resolve_left hstatus

theorem preview_served_iff_entitled :
    (∀ (site : Site) (query : String) (o : Outside) (s : Backend),
      ∃ response t, site.previewed query o s = (some response, t) ∧
        (∀ bytes, (response.status = 200 ∧ response.body = bytes) ↔ ∃ fileId claims object,
          site.Entitled s.guard o.time query fileId claims ∧
            s.objects.get? (artifactKey fileId) = some object ∧ object.bytes = bytes) ∧
        (response.status = 200 ∨ response = unauthorized) ∧
        (∀ fileId claims, site.Entitled s.guard o.time query fileId claims →
          t.guard.consumed = (claims.nonce, claims.expiry) :: s.guard.consumed) ∧
        ((∀ fileId claims, ¬ site.Entitled s.guard o.time query fileId claims) →
          t.guard = s.guard)) ∧
    refusals.Subsingleton := by
  refine ⟨fun site query o s => ?_, fun r hr r' hr' => ?_⟩
  · obtain ⟨response, t, hrun, answers⟩ := previewed_answers site query o s
    exact ⟨response, t, hrun, answers.served_iff, answers.status_or_unauthorized,
      fun _ _ => answers.consumed, answers.kept⟩
  · rw [eq_unauthorized_of_mem_refusals hr, eq_unauthorized_of_mem_refusals hr']

end Http.Site

end DocumentPreview
