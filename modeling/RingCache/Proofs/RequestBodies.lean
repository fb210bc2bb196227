import RingCache.Http.Gateway
import RingCache.Proofs.ReadDocuments
import RingCache.Proofs.ValueCodec

/-!
Bodies of requests. The content type of a request says what kind of value its body is; one that is
missing, or is not readable as text, says that the body is any octets. A body that is well formed for
its kind is kept in its own form: texts and octets as they came, documents as their compact text, in
order.
-/

namespace RingCache.Http.Gateway

def Begins (mark : String) (header : Option Bytes) : Prop :=
  ∃ octets, header = some octets ∧
    (∀ octet ∈ octets, (0x20 ≤ octet ∧ octet ≤ 0x7E) ∨ octet = 9) ∧ Bytes.ofString mark <+: octets

inductive Announces (header : Option Bytes) : ContentType → String → Prop where
  | text (begins : Begins "text/" header) : Announces header .text "text/plain"
  | document (begins : Begins "application/json" header) :
      Announces header .structured "application/json"
  | other (plain : ¬ Begins "text/" header) (free : ¬ Begins "application/json" header) :
      Announces header .binary "application/octet-stream"

def letter (octet : UInt8) : Char := Char.ofNat octet.toNat

theorem letter_injective {octet other : UInt8} (same : letter octet = letter other) :
    octet = other := by
  have small (octet : UInt8) : (letter octet).toNat = octet.toNat := by
    have := octet.toNat_lt
    exact Utf8.toNat_ofNat (.inl (by omega))
  exact UInt8.toNat_inj.mp (by rw [← small, same, small])

theorem headerText_eq_some_iff (octets : Bytes) (text : String) : headerText octets = some text ↔
    (∀ octet ∈ octets, (0x20 ≤ octet ∧ octet ≤ 0x7E) ∨ octet = 9) ∧
      text = String.ofList (octets.map letter) := by
  rw [headerText]
  split
  · next readable =>
      simp only [List.all_eq_true, Bool.or_eq_true, Bool.and_eq_true, decide_eq_true_eq] at readable
      rw [Option.some.injEq, eq_comm]
      exact (and_iff_right readable).symm
  · next unreadable =>
      simp only [List.all_eq_true, Bool.or_eq_true, Bool.and_eq_true, decide_eq_true_eq] at unreadable
      exact iff_of_false nofun fun told => unreadable told.1

/-- A mark of single octets is at the front of a header where it is at the front of its text. -/
theorem begins_iff (mark : String) (plain : mark.toList = (Bytes.ofString mark).map letter)
    (header : Option Bytes) : Begins mark header ↔
      ∃ text, header.bind headerText = some text ∧ text.startsWith mark = true := by
  have front (octets : Bytes) : Bytes.ofString mark <+: octets ↔
      mark.toList <+: octets.map letter := by
    rw [plain]
    refine ⟨fun inside => inside.map letter, fun inside => ?_⟩
    obtain ⟨taken, first, same⟩ := List.prefix_map_iff.mp inside
    rwa [List.map_injective_iff.mpr (fun _ _ => letter_injective) same]
  cases header with
  | none => simp [Begins]
  | some octets =>
      simp only [Begins, Option.some.injEq, exists_eq_left', Option.bind_some,
        headerText_eq_some_iff, front]
      constructor
      · rintro ⟨readable, first⟩
        exact ⟨_, ⟨readable, rfl⟩, by rwa [String.startsWith_string_iff, String.toList_ofList]⟩
      · rintro ⟨_, ⟨readable, rfl⟩, first⟩
        rw [String.startsWith_string_iff, String.toList_ofList] at first
        exact ⟨readable, first⟩

theorem announces_announced (header : Option Bytes) :
    Announces header (announced header) (announced header).mime := by
  have text := begins_iff "text/" (by decide +kernel) header
  have document := begins_iff "application/json" (by decide +kernel) header
  rw [announced]
  cases told : header.bind headerText with
  | none =>
      rw [told] at text document
      exact .other (fun begins => by simpa using text.mp begins)
        fun begins => by simpa using document.mp begins
  | some content =>
      rw [told] at text document
      simp only [Option.some.injEq, exists_eq_left'] at text document
      dsimp only
      split
      · next first => exact .text (text.mpr first)
      · next plain =>
          split
          · next first => exact .document (document.mpr first)
          · next free =>
              exact .other (fun begins => plain (text.mp begins))
                fun begins => free (document.mp begins)

def WellFormed : ContentType → Bytes → Prop
  | .text, body => ∃ content, Bytes.ofString content = body
  | .binary, _ => True
  | .structured, body => ∃ document, Json.parse body = .ok document

def kept : ContentType → Bytes → Bytes
  | .structured, body => match Json.parse body with
    | .ok document => Bytes.ofString document.text
    | .error _ => body
  | _, body => body

def Integral (type : ContentType) (body : Bytes) : Prop :=
  type = .structured → ∀ document, Json.parse body = .ok document → document.Integral

theorem wellFormed_iff (type : ContentType) (body : Bytes) :
    WellFormed type body ↔ ∃ value, CacheValue.decode type body = .ok value := by
  cases type with
  | text =>
      simp only [WellFormed, CacheValue.decode]
      constructor
      · rintro ⟨content, rfl⟩
        exact ⟨.text content, by rw [Utf8.decode_ofString]⟩
      · rintro ⟨value, decoded⟩
        cases read : Utf8.decode body with
        | error fault =>
            rw [read] at decoded
            cases decoded
        | ok content => exact ⟨content, Utf8.decode_sound read⟩
  | binary => exact iff_of_true trivial ⟨_, rfl⟩
  | structured =>
      simp only [WellFormed, CacheValue.decode]
      cases Json.parse body with
      | error fault => simp
      | ok document => simp

/-- A document is kept as its text, which is read as the same document. -/
theorem kept_document {body : Bytes} {document : Json} (read : Json.parse body = .ok document)
    (integral : document.Integral) :
    kept .structured body = Bytes.ofString document.text ∧ document.Exact ∧
      Json.parse (kept .structured body) = .ok document := by
  obtain ⟨exact, shallow, -⟩ := Json.parse_integral read integral
  obtain ⟨got, same, again⟩ := exact.representable.parse.1 (Nat.lt_succ_of_le shallow)
  have form : kept .structured body = Bytes.ofString document.text := by simp only [kept, read]
  rw [form, again, same exact]
  exact ⟨rfl, exact, rfl⟩

/-- A value that a body was decoded to is kept as the body, and no longer than the body. -/
theorem decode_kept {type : ContentType} {body : Bytes} {value : CacheValue}
    (decoded : CacheValue.decode type body = .ok value) (integral : Integral type body) :
    value.contentType = type ∧ value.encode = kept type body ∧ value.Exact ∧
      (kept type body).length ≤ body.length := by
  cases type with
  | text =>
      simp only [CacheValue.decode] at decoded
      split at decoded
      · next content read =>
          cases decoded
          exact ⟨rfl, Utf8.decode_sound read, .text content, Nat.le_refl _⟩
      · cases decoded
  | binary =>
      cases decoded
      exact ⟨rfl, rfl, .binary body, Nat.le_refl _⟩
  | structured =>
      simp only [CacheValue.decode] at decoded
      split at decoded
      · next document read =>
          cases decoded
          obtain ⟨exact, shallow, short⟩ := Json.parse_integral read (integral rfl document read)
          rw [(kept_document read (integral rfl document read)).1]
          exact ⟨rfl, rfl, .structured document exact shallow, short⟩
      · cases decoded

/-- The kept form is kept as it is. -/
theorem kept_again {type : ContentType} {body : Bytes} (wellFormed : WellFormed type body)
    (integral : Integral type body) :
    WellFormed type (kept type body) ∧ Integral type (kept type body) ∧
      kept type (kept type body) = kept type body := by
  cases type with
  | text => exact ⟨wellFormed, integral, rfl⟩
  | binary => exact ⟨wellFormed, integral, rfl⟩
  | structured =>
      obtain ⟨document, read⟩ := wellFormed
      obtain ⟨form, -, again⟩ := kept_document read (integral rfl document read)
      have settled := (kept_document again (integral rfl document read)).1.trans form.symm
      refine ⟨⟨document, again⟩, fun _ other reread => ?_, settled⟩
      rw [Except.ok.inj (reread.symm.trans again)]
      exact integral rfl document read

/-- The kept form of texts and octets is what came, that of a document stands for the document. -/
theorem kept_form {type : ContentType} {body : Bytes} (wellFormed : WellFormed type body)
    (integral : Integral type body) :
    (type ≠ .structured → kept type body = body) ∧
      (type = .structured → ∃ document, Json.parse body = .ok document ∧ document.Exact ∧
        kept type body = Bytes.ofString document.text ∧
        Json.parse (kept type body) = .ok document) := by
  cases type with
  | text => exact ⟨fun _ => rfl, nofun⟩
  | binary => exact ⟨fun _ => rfl, nofun⟩
  | structured =>
      obtain ⟨document, read⟩ := wellFormed
      obtain ⟨form, exact, again⟩ := kept_document read (integral rfl document read)
      exact ⟨fun other => absurd rfl other, fun _ => ⟨document, read, exact, form, again⟩⟩

end RingCache.Http.Gateway
