import DocumentPreview.Http.Router
import DocumentPreview.Proofs.Access.Proxy
import DocumentPreview.Proofs.Text.Form
import DocumentPreview.Proofs.Token.Size
import Mathlib.Data.List.TakeWhile

namespace DocumentPreview

variable {issuer : TokenIssuer} {fileId nonce : Uuid} {now : Instant} {m : MintedToken}

namespace Backend

def Ready (s : Backend) (now : Instant) (fileId : Uuid) : Prop :=
  (s.store.latest? fileId).map (·.status) = some .completed ∧
    (now.shift? TokenIssuer.lifetime.nanos).isSome

instance (s : Backend) (now : Instant) (fileId : Uuid) : Decidable (s.Ready now fileId) :=
  inferInstanceAs (Decidable (_ ∧ _))

theorem run_mint (issuer : TokenIssuer) (fileId : Uuid) (s : Backend) (o : Outside) :
    ∃ t, s.run o (Previews.mint issuer fileId) =
      ((issuer.mint? fileId (o.reply .freshId) o.time).map .ok, t) := by
  simp only [run, Previews.mint, Program.run, answer, Shared.answer, TokenIssuer.mint?]
  cases o.time.shift? TokenIssuer.lifetime.nanos with
  | none => exact ⟨_, rfl⟩
  | some ends => exact ⟨_, rfl⟩

theorem run_issueToken (issuer : TokenIssuer) (fileId : Uuid) (s : Backend) (o : Outside) :
    ∃ t, s.run o (Previews.issueToken issuer fileId) =
      (if (s.store.latest? fileId).map (·.status) = some .completed then
        (issuer.mint? fileId (o.reply .freshId) o.time).map .ok
      else some (.error (.notReady ((s.store.latest? fileId).map (·.status)))), t) := by
  change ∃ t, run _ o (if (s.store.latest? fileId).map (·.status) = some .completed then
    Previews.mint issuer fileId else .done (.error (.notReady _))) = _
  split
  · exact run_mint issuer fileId _ o
  · exact ⟨_, rfl⟩

end Backend

namespace Http

open Site

variable {site : Site} {issuer : TokenIssuer} {fileId nonce : Uuid} {now : Instant}
  {m : MintedToken} {token : String} {o : Outside} {s : Backend}

theorem Site.statusOf_ne_ok (e : PreviewError) : statusOf e ≠ 200 := by
  cases e <;> simp [statusOf]

theorem Site.run_token (site : Site) (fileId : Uuid) (o : Outside) (s : Backend) :
    (s.Ready o.time fileId ∧ ∃ m t,
      site.issuer.mint? fileId (o.reply .freshId) o.time = some m ∧
        s.run o (site.token fileId) = (some (tokenPage fileId m), t)) ∨
    (¬ s.Ready o.time fileId ∧ ∃ r t, s.run o (site.token fileId) = (r, t) ∧
      ∀ response, r = some response → response.status ≠ 200) := by
  obtain ⟨t, hrun⟩ := Backend.run_issueToken site.issuer fileId s o
  rw [token, Program.map, Backend.run_bind, hrun]
  by_cases completed : (s.store.latest? fileId).map (·.status) = some .completed
  · rw [if_pos completed]
    cases hm : site.issuer.mint? fileId (o.reply .freshId) o.time with
    | none =>
      refine .inr ⟨fun ready => ?_, none, t, rfl, nofun⟩
      exact Option.isSome_iff_ne_none.mp ready.2 (Option.map_eq_none_iff.mp hm)
    | some m =>
      obtain ⟨ends, hends, -⟩ := Option.map_eq_some_iff.mp hm
      exact .inl ⟨⟨completed, Option.isSome_of_eq_some hends⟩, m, t, rfl, rfl⟩
  · rw [if_neg completed]
    refine .inr ⟨fun ready => completed ready.1, _, t, rfl, ?_⟩
    rintro response ⟨⟩
    exact statusOf_ne_ok (.notReady ((s.store.latest? fileId).map (·.status)))

def linkFields (fileId : Uuid) (token : String) : List (List Char × List Char) :=
  [("file_id".toList, fileId.hyphenated), ("token".toList, token.toList)]

theorem toList_link (fileId : Uuid) (token : String) : (link fileId token).toList =
    previewPath.toList ++ '?' :: Form.written (linkFields fileId token) := by
  simp [link, linkFields, Form.written, Uuid.text]

theorem plain_hyphenated (u : Uuid) : Form.Plain u.hyphenated := by
  have digits : ∀ d < 16, Text.digitChar d ∉ ['&', '+', '%', '#'] := by decide
  intro c hc
  rcases Uuid.mem_hyphenated hc with rfl | ⟨d, hd, rfl⟩
  · decide
  · exact digits d hd

theorem plain_token (h : issuer.mint? fileId nonce now = some m) : Form.Plain m.token.toList := by
  have symbols : ∀ n < 64, Base64.urlSafe.symbol n ∉ ['&', '+', '%', '#'] := by decide +kernel
  intro c hc
  rcases TokenIssuer.mem_token h hc with rfl | ⟨n, hn, rfl⟩
  · decide
  · exact symbols n hn

theorem plainField_linkFields (fileId : Uuid) (h : Form.Plain token.toList) :
    ∀ f ∈ linkFields fileId token, Form.PlainField f := by
  have file : Form.Plain "file_id".toList ∧ '=' ∉ "file_id".toList := by decide
  have token : Form.Plain "token".toList ∧ '=' ∉ "token".toList := by decide
  refine List.forall_mem_cons.mpr ⟨⟨file.1, plain_hyphenated fileId, file.2⟩, ?_⟩
  exact List.forall_mem_singleton.mpr ⟨token.1, h, token.2⟩

theorem target_followed {r : Request} (hr : r.target = link fileId token)
    (h : Form.Plain token.toList) :
    r.path = previewPath.toList ∧
      r.query = String.ofList (Form.written (linkFields fileId token)) := by
  have path : ∀ c ∈ previewPath.toList, c ≠ '#' ∧ c ≠ '?' := by simp [previewPath]
  have whole : r.withoutFragment = r.target.toList := by
    refine List.takeWhile_eq_self_iff.mpr fun c hc => decide_eq_true ?_
    rw [hr, toList_link, List.mem_append, List.mem_cons] at hc
    rcases hc with hc | rfl | hc
    · exact (path c hc).1
    · decide
    · rintro rfl
      exact Form.hash_not_mem_written (plainField_linkFields fileId h) hc
  have front : ∀ c ∈ previewPath.toList, decide (c ≠ '?') := fun c hc => decide_eq_true (path c hc).2
  rw [Request.path, Request.query, whole, hr, toList_link, List.takeWhile_append_of_pos front,
    List.dropWhile_append_of_pos front]
  exact ⟨List.append_nil _, rfl⟩

theorem ofString?_written (fileId : Uuid) (h : Form.Plain token.toList) :
    PreviewQuery.ofString? (String.ofList (Form.written (linkFields fileId token))) =
      some ⟨fileId, token⟩ := by
  have fields := plainField_linkFields fileId h
  have whole : (Form.written (linkFields fileId token)).takeWhile (· ≠ '#') =
      Form.written (linkFields fileId token) := by
    refine List.takeWhile_eq_self_iff.mpr fun c hc => decide_eq_true ?_
    rintro rfl
    exact Form.hash_not_mem_written fields hc
  have pairs : Form.pairs (Form.written (linkFields fileId token)) =
      [("file_id", fileId.text), ("token", token)] := by
    rw [Form.pairs_written fields]
    simp [linkFields, Uuid.text]
  rw [PreviewQuery.ofString?_eq_some_iff]
  simp only [Form.values, String.toList_ofList, whole, pairs]
  exact ⟨⟨fileId.text, rfl, fileId.ofString?_text⟩, rfl⟩

theorem json_tokenPage (fileId : Uuid) (m : MintedToken) :
    Json.ofBytes? (tokenPage fileId m).body = some (.record
      [("token", .text m.token), ("expires_at", m.claims.expiry.toJson),
       ("url", .text (link fileId m.token))]) := by
  refine Json.ofBytes?_toBytes (.object fun field hfield => ?_)
  simp only [List.map_cons, List.map_nil, List.mem_cons, List.not_mem_nil, or_false] at hfield
  rcases hfield with rfl | rfl | rfl
  · exact .string _
  · exact .string _
  · exact .string _

theorem violation?_minted (h : issuer.mint? fileId nonce now = some m) :
    (⟨fileId, m.token⟩ : PreviewQuery).violation? = none := by
  obtain ⟨short, long⟩ := TokenIssuer.length_token_le h
  rw [PreviewQuery.violation?_eq_none_iff, TokenIssuer.size_token h]
  exact ⟨short, Nat.le_trans long (by decide)⟩

theorem issued_link_opens (site : Site) (fileId : Uuid) (o : Outside) (s : Backend) :
    ((∃ response t, s.run o (site.token fileId) = (some response, t) ∧ response.status = 200) ↔
      s.Ready o.time fileId) ∧
    ∀ response t, s.run o (site.token fileId) = (some response, t) → response.status = 200 →
      ∃ m : MintedToken, site.issuer.mint? fileId (o.reply .freshId) o.time = some m ∧
        Json.ofBytes? response.body = some (.record
          [("token", .text m.token), ("expires_at", m.claims.expiry.toJson),
           ("url", .text (link fileId m.token))]) ∧
        (∀ r : Request, r.target = link fileId m.token →
          Route.ofPath? r.path = some .preview ∧
          PreviewQuery.ofString? r.query = some ⟨fileId, m.token⟩ ∧
          (⟨fileId, m.token⟩ : PreviewQuery).violation? = none) ∧
        ∀ now, (∃ claims, site.issuer.Grants fileId m.token now claims) ↔ now < m.claims.expiry := by
  rcases site.run_token fileId o s with ⟨ready, m, t, hm, hrun⟩ | ⟨unready, r, t, hrun, refused⟩
  · refine ⟨iff_of_true ⟨_, t, hrun, rfl⟩ ready, fun response u hrun' _ => ?_⟩
    obtain ⟨⟨⟩, -⟩ := Prod.mk.inj (hrun.symm.trans hrun')
    refine ⟨m, hm, json_tokenPage fileId m, fun r hr => ?_, fun now => ?_⟩
    · obtain ⟨path, query⟩ := target_followed hr (plain_token hm)
      rw [path, query, ofString?_written fileId (plain_token hm)]
      exact ⟨by decide, rfl, violation?_minted hm⟩
    · simp only [TokenIssuer.grants_minted_iff hm, (TokenIssuer.claims_of_mint? hm).1]
      simp
  · have never : ∀ response t, s.run o (site.token fileId) = (some response, t) →
        response.status ≠ 200 := fun response u hrun' =>
      refused response (Prod.mk.inj (hrun.symm.trans hrun')).1
    refine ⟨iff_of_false ?_ unready, fun response u hrun' ok => absurd ok (never response u hrun')⟩
    rintro ⟨response, u, hrun', ok⟩
    exact never response u hrun' ok

def siteOfZeroKey : Site :=
  ⟨.zeroKey, 3, 5, true⟩

def completedOnce : Backend :=
  let job := (Job.fresh (.ofNat 1) (.ofNat 9) none 3 .epoch).finished .epoch .epoch
  ⟨⟨⟨[job]⟩, ⟨1, [], []⟩, .epoch⟩, ⟨[]⟩, ⟨[]⟩⟩

theorem issued_link_opens_completedOnce :
    ∃ (response : Response) (t : Backend) (m : MintedToken),
      completedOnce.run (.slow .epoch (.ofNat 2)) (siteOfZeroKey.token (.ofNat 9)) =
        (some response, t) ∧ response.status = 200 ∧
      PreviewQuery.ofString? (Request.query ⟨"GET", link (.ofNat 9) m.token, []⟩) =
        some ⟨.ofNat 9, m.token⟩ ∧
      (∃ claims, TokenIssuer.zeroKey.Grants (.ofNat 9) m.token (.ofSecond 899) claims) ∧
      ¬ ∃ claims, TokenIssuer.zeroKey.Grants (.ofNat 9) m.token (.ofSecond 900) claims := by
  obtain ⟨succeeds, opens⟩ :=
    issued_link_opens siteOfZeroKey (.ofNat 9) (.slow .epoch (.ofNat 2)) completedOnce
  obtain ⟨response, t, hrun, ok⟩ := succeeds.mpr (by decide)
  obtain ⟨m, hm, -, followed, grants⟩ := opens response t hrun ok
  have ends : m.claims.expiry.nanos = (Instant.ofSecond 900).nanos := TokenIssuer.expiry_of_mint? hm
  have early : (Instant.ofSecond 899).nanos < m.claims.expiry.nanos := ends ▸ by decide
  exact ⟨response, t, m, hrun, ok, (followed _ rfl).2.1, (grants _).mpr early,
    (grants _).not.mpr (Int.not_lt.mpr (Int.le_of_eq ends))⟩

end Http

end DocumentPreview
