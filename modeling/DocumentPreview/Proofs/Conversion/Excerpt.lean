import DocumentPreview.Conversion
import DocumentPreview.Proofs.Text.Truncation

namespace DocumentPreview.Conversion

structure IsExcerpt (text kept : String) : Prop where
  initial : kept.toList <+: text.toList
  boundary : Text.AtBoundary text kept.utf8ByteSize
  shortened : Text.shorten? 512 text = some kept
  whole : text.utf8ByteSize ≤ 512 → kept = text
  bounds : 512 < text.utf8ByteSize → 509 ≤ kept.utf8ByteSize ∧ kept.utf8ByteSize ≤ 512
  longest : ∀ other : String, other.toList <+: text.toList → other.utf8ByteSize ≤ 512 →
    other.toList <+: kept.toList

theorem isExcerpt_excerpt (text : String) : IsExcerpt text (excerpt text) := by
  have taken : (excerpt text).toList = Utf8.cut 512 text.toList := Text.toList_shorten 512 text
  constructor
  case initial => exact taken ▸ Utf8.cut_isPrefix 512 text.toList
  case boundary =>
    rw [← Utf8.size_toList, taken]
    exact Text.atBoundary_iff.mpr ⟨_, Utf8.cut_isPrefix 512 _, rfl⟩
  case shortened => exact (Option.some_get (Text.isSome_shorten? 512 text)).symm
  case whole =>
    intro small
    rw [← Utf8.size_toList] at small
    exact String.toList_inj.mp (taken.trans (Utf8.cut_of_size_le small))
  case bounds =>
    intro large
    rw [← Utf8.size_toList] at large
    have room := Utf8.lt_size_cut large
    have within := Utf8.size_cut_le 512 text.toList
    rw [← Utf8.size_toList, taken]
    omega
  case longest =>
    intro other initial fits
    rw [← Utf8.size_toList] at fits
    exact taken ▸ Utf8.isPrefix_cut initial fits

theorem result_eq_ok_iff {reply : Reply} {bytes : Bytes} :
    result reply = .ok bytes ↔
      (200 ≤ reply.status ∧ reply.status < 300) ∧ reply.body = bytes ∧ bytes ≠ [] := by
  unfold result
  split
  case isTrue accepted =>
    rw [and_iff_right accepted]
    split
    case isTrue empty =>
      rw [List.isEmpty_iff.mp empty]
      exact iff_of_false nofun fun ⟨he, hn⟩ => hn he.symm
    case isFalse full =>
      have full : reply.body ≠ [] := fun he => full (List.isEmpty_iff.mpr he)
      exact ⟨fun h => Except.ok.inj h ▸ ⟨rfl, full⟩, fun ⟨he, _⟩ => congrArg Except.ok he⟩
  case isFalse refused => exact iff_of_false nofun fun h => refused h.1

theorem result_ne_http (reply : Reply) (cause : String) :
    result reply ≠ .error (.http cause) := by
  unfold result
  split
  · split <;> nofun
  · nofun

theorem convert_eq_ok_iff {sent : Except String Response} {bytes : Bytes} :
    convert sent = .ok bytes ↔
      ∃ status, sent = .ok ⟨status, .ok bytes⟩ ∧ (200 ≤ status ∧ status < 300) ∧ bytes ≠ [] := by
  rcases sent with cause | ⟨status, cause | body⟩
  · simp [convert]
  · have empty : result ⟨status, []⟩ ≠ .ok bytes := fun h =>
      have ⟨_, he, hn⟩ := result_eq_ok_iff.mp h
      hn he.symm
    simp only [convert, Response.result]
    split <;> simp [empty]
  · rw [convert, Response.result, result_eq_ok_iff]
    constructor
    · rintro ⟨accepted, rfl, full⟩
      exact ⟨status, rfl, accepted, full⟩
    · rintro ⟨_, ⟨⟩, accepted, full⟩
      exact ⟨accepted, rfl, full⟩

theorem convert_eq_http_iff {sent : Except String Response} {cause : String} :
    convert sent = .error (.http cause) ↔
      sent = .error cause ∨
        ∃ status, sent = .ok ⟨status, .error cause⟩ ∧ 200 ≤ status ∧ status < 300 := by
  rcases sent with other | ⟨status, other | body⟩
  · simp [convert]
  · simp only [convert, Response.result]
    split
    · simp_all
    · simp_all [result_ne_http]
  · simp [convert, Response.result, result_ne_http]

theorem failed_conversion_keeps_longest_excerpt (reply : Reply)
    (failed : ¬ (200 ≤ reply.status ∧ reply.status < 300)) :
    result reply = .error (.status reply.status (excerpt reply.text)) ∧
      IsExcerpt reply.text (excerpt reply.text) := by
  refine ⟨?_, isExcerpt_excerpt reply.text⟩
  rw [result, if_neg failed]

def illFormedReply : Reply :=
  ⟨500, 0x61 :: List.replicate 171 0xFF⟩

theorem failed_conversion_keeps_longest_excerpt_illFormed :
    ¬ (200 ≤ illFormedReply.status ∧ illFormedReply.status < 300) ∧
      illFormedReply.body.length = 172 ∧ illFormedReply.text.utf8ByteSize = 514 ∧
      result illFormedReply = .error (.status 500 (excerpt illFormedReply.text)) ∧
      IsExcerpt illFormedReply.text (excerpt illFormedReply.text) ∧
      (excerpt illFormedReply.text).utf8ByteSize = 511 := by
  have failed : ¬ (200 ≤ illFormedReply.status ∧ illFormedReply.status < 300) := by decide
  have size : Utf8.size (Utf8.decodeLossy illFormedReply.body) = 514 := by decide +kernel
  have sizeOfCut : Utf8.size (Utf8.cut 512 (Utf8.decodeLossy illFormedReply.body)) = 511 := by
    decide +kernel
  obtain ⟨told, kept⟩ := failed_conversion_keeps_longest_excerpt illFormedReply failed
  refine ⟨failed, rfl, ?_, told, kept, ?_⟩
  · rw [← Utf8.size_toList, Reply.text, String.toList_ofList, size]
  · rw [← Utf8.size_toList, excerpt, Text.toList_shorten, Reply.text, String.toList_ofList,
      maxErrorBody, sizeOfCut]

end DocumentPreview.Conversion
