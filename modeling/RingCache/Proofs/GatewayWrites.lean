import RingCache.Proofs.EntryTargets
import RingCache.Proofs.RequestBodies
import RingCache.Proofs.WrittenValues

/-!
Writes and reads through the gateway, over entries in process. A body that is well formed for the
kind of value that its content type announces is kept in its own form: texts and octets as they
came, documents as their compact text, in order. The limit of a policy holds for that form. A read
gets it back with the type of its kind, and a write that was turned down leaves no trace.
-/

namespace RingCache

def Policy.Fits (policy : Policy) (size : Nat) : Prop := policy.maxSize = 0 ∨ size ≤ policy.maxSize

theorem Policy.checkSize_fits {policy : Policy} {size : Nat} (fits : policy.Fits size) :
    policy.checkSize size = .ok () := by
  rw [checkSize, if_neg]
  rintro ⟨limited, large⟩
  rcases fits with unlimited | small
  · exact Nat.ne_of_gt limited unlimited
  · exact Nat.not_lt.mpr small large

theorem Policy.checkSize_large {policy : Policy} {size : Nat} (large : ¬ policy.Fits size) :
    policy.checkSize size = .error (.valueTooLarge size policy.maxSize) := by
  obtain ⟨limited, beyond⟩ := not_or.mp large
  rw [checkSize, if_pos ⟨Nat.pos_of_ne_zero limited, Nat.lt_of_not_le beyond⟩]

namespace Http

/-- A target without the marks behind which paths end is a path. -/
theorem pathOf_whole (target : String) (question : '?' ∉ target.toList)
    (hash : '#' ∉ target.toList) : pathOf target = target.toList := by
  have inside : ∀ c ∈ target.toList, (c ≠ '?' && c ≠ '#') = true := by
    intro c member
    have notQuestion : c ≠ '?' := fun same => question (same ▸ member)
    have notHash : c ≠ '#' := fun same => hash (same ▸ member)
    simp [notQuestion, notHash]
  have whole := @List.takeWhile_append_of_pos _ _ _ [] inside
  rwa [List.append_nil, List.takeWhile_nil, List.append_nil] at whole

namespace Gateway

def Names (target key : String) : Prop :=
  ∃ raw, parameter? cachePath (pathOf target) = some raw ∧
    readParameter parameterName raw = .ok key

section Targets

variable {target key : String} (names : Names target key) {σ : Type} (provider : Provider σ)
  (now : Time.Instant) (contentType : Option Bytes) (body : Bytes) (cache : Cache σ)

include names

theorem handle_entry (request : Request) (same : request.target = target) :
    ∃ raw, readParameter parameterName raw = .ok key ∧
      handle provider now request cache = entry provider now raw request cache := by
  obtain ⟨raw, segment, read⟩ := names
  have all : pathOf target ≠ cachePath.toList := by
    intro whole
    rw [whole] at segment
    cases segment
  have metrics : pathOf target ≠ metricsPath.toList := by
    intro whole
    rw [whole] at segment
    cases segment
  refine ⟨raw, read, ?_⟩
  rw [handle, same, segment]
  simp only [if_neg all, if_neg metrics]

theorem handle_get : handle provider now ⟨"GET", target, contentType, body⟩ cache =
    getEntry provider now key cache := by
  obtain ⟨raw, read, handled⟩ := handle_entry names provider now cache
    ⟨"GET", target, contentType, body⟩ rfl
  rw [handled, entry, read]
  rfl

theorem handle_put : handle provider now ⟨"PUT", target, contentType, body⟩ cache =
    putEntry provider now key ⟨"PUT", target, contentType, body⟩ cache := by
  obtain ⟨raw, read, handled⟩ := handle_entry names provider now cache
    ⟨"PUT", target, contentType, body⟩ rfl
  rw [handled, entry, read]
  rfl

end Targets

/-- Every key has a target: its text behind the path of all entries, with all marks escaped. -/
theorem names_encoded {key : String} (named : key ≠ "") :
    Names (cachePath ++ "/" ++ Net.percentEncode Net.segmentEscapes key) key := by
  have spares (mark : Char) (ends : mark = '/' ∨ mark = '?' ∨ mark = '#') :
      mark ∉ (Net.percentEncode Net.segmentEscapes key).toList := by
    rw [Net.percentEncode, String.toList_ofList]
    apply Net.percentEncodeChars_spares
    · rcases ends with rfl | rfl | rfl <;> rfl
    · rcases ends with rfl | rfl | rfl <;> decide
    · rcases ends with rfl | rfl | rfl <;> decide
  have read := Net.percentDecode_percentEncode Net.segmentEscapes rfl key
  have full : Net.percentEncode Net.segmentEscapes key ≠ "" := by
    intro empty
    rw [empty] at read
    exact named (Bytes.ofString_inj (read.symm.trans (by decide +kernel)))
  have whole : (cachePath ++ "/" ++ Net.percentEncode Net.segmentEscapes key).toList =
      cachePath.toList ++ '/' :: (Net.percentEncode Net.segmentEscapes key).toList := by
    simp
  have fixed (mark : Char) (ends : mark = '?' ∨ mark = '#') :
      mark ∉ cachePath.toList ++ '/' :: (Net.percentEncode Net.segmentEscapes key).toList := by
    rw [List.mem_append, List.mem_cons, not_or, not_or]
    refine ⟨?_, ?_, spares mark (.inr ends)⟩ <;> rcases ends with rfl | rfl <;> decide
  refine ⟨Net.percentEncode Net.segmentEscapes key, ?_, ?_⟩
  · rw [pathOf_whole, whole]
    · exact parameter?_segment cachePath _ full (spares '/' (.inl rfl))
    · exact whole ▸ fixed '?' (.inl rfl)
    · exact whole ▸ fixed '#' (.inr rfl)
  · rw [readParameter, read, Utf8.decode_ofString]

section Writes

variable {cache : Cache Storage} {memory : Memory} (inProcess : cache.storage = .memory memory)
  {target key : String} (names : Names target key) (valid : validateKey key = .ok ())
  {header : Option Bytes} {body : Bytes} (now : Time.Instant)

include names

theorem put_malformed (small : body.length ≤ bodyLimit)
    (malformed : ¬ WellFormed (announced header) body) :
    ∃ message, handle Storage.provider now ⟨"PUT", target, header, body⟩ cache =
      (.ofError 400 message, cache) := by
  rw [handle_put names, putEntry, if_neg (Nat.not_lt.mpr small)]
  cases decoded : requestValue header body with
  | error error => exact ⟨error.message, rfl⟩
  | ok value => exact absurd ((wellFormed_iff _ _).mpr ⟨value, decoded⟩) malformed

include valid

theorem put_large (small : body.length ≤ bodyLimit) (integral : Integral (announced header) body)
    (wellFormed : WellFormed (announced header) body)
    (large : ¬ cache.policy.Fits (kept (announced header) body).length) :
    handle Storage.provider now ⟨"PUT", target, header, body⟩ cache =
      (failed (.valueTooLarge (kept (announced header) body).length cache.policy.maxSize),
        cache) := by
  obtain ⟨value, decoded⟩ := (wellFormed_iff _ _).mp wellFormed
  obtain ⟨-, encoded, -, -⟩ := decode_kept decoded integral
  have read : requestValue header body = .ok value := decoded
  rw [handle_put names, putEntry, if_neg (Nat.not_lt.mpr small), read]
  simp only [Cache.set, Cache.setFor, valid, encoded, Policy.checkSize_large large]
  rfl

include inProcess

theorem put_accepted (small : body.length ≤ bodyLimit) (integral : Integral (announced header) body)
    (wellFormed : WellFormed (announced header) body)
    (fits : cache.policy.Fits (kept (announced header) body).length) :
    handle Storage.provider now ⟨"PUT", target, header, body⟩ cache =
      (.plain 204, { cache with
        metrics := cache.metrics.wrote now (.ofNat (kept (announced header) body).length)
        storage := .memory (memory.store key (cache.policy.entryOf now cache.policy.lifetime
          (announced header) (kept (announced header) body))) }) := by
  obtain ⟨value, decoded⟩ := (wellFormed_iff _ _).mp wellFormed
  obtain ⟨type, encoded, -, -⟩ := decode_kept decoded integral
  have read : requestValue header body = .ok value := decoded
  rw [handle_put names, putEntry, if_neg (Nat.not_lt.mpr small), read]
  simp only [Cache.set, Cache.setFor, valid, encoded, type, Policy.checkSize_fits fits, inProcess]
  rfl

end Writes

section Reads

variable {cache : Cache Storage} {memory : Memory} (inProcess : cache.storage = .memory memory)
  {target key : String} (names : Names target key) (valid : validateKey key = .ok ())
  (now : Time.Instant) (contentType : Option Bytes) (octets : Bytes)

include inProcess names valid

/-- A stored entry is read with the type of its kind. -/
theorem get_stored {type : ContentType} {body : Bytes} (wellFormed : WellFormed type body)
    (integral : Integral type body) (made : Time.Instant) (lifetime : Time.Span)
    (held : memory.entries.get? key =
      some (cache.policy.entryOf made lifetime type (kept type body)))
    (fresh : (made.laterOrLatest lifetime).before now = false) :
    (handle Storage.provider now ⟨"GET", target, contentType, octets⟩ cache).1 =
      .ofBytes 200 type.mime (kept type body) := by
  obtain ⟨still, again, form⟩ := kept_again wellFormed integral
  obtain ⟨value, decoded⟩ := (wellFormed_iff _ _).mp still
  obtain ⟨kind, encoded, -, -⟩ := decode_kept decoded again
  have live : (cache.policy.entryOf made lifetime type (kept type body)).expiredAt now = false := fresh
  have hit : (memory.retrieve now key).1 =
      .hit (cache.policy.entryOf made lifetime type (kept type body)) := by
    rw [Memory.retrieve_found, held]
    simp only [live, Bool.false_eq_true, if_false]
  have found : (Storage.provider.retrieve now key cache.storage).1 =
      .ok (.hit (cache.policy.entryOf made lifetime type (kept type body))) := by
    rw [inProcess]
    exact congrArg Except.ok hit
  have read := Cache.get_hit Storage.provider now cache valid found
  rw [CacheValue.ofEntry_entryOf, decoded] at read
  rw [handle_get names, getEntry]
  simp only [read, Except.map]
  rw [kind, encoded, form]

/-- A read leaves the policy, and entries in process. -/
theorem get_leaves :
    let read := handle Storage.provider now ⟨"GET", target, contentType, octets⟩ cache
    read.2.policy = cache.policy ∧ ∃ memory, read.2.storage = .memory memory := by
  have same : (getEntry Storage.provider now key cache).2 =
      (cache.get Storage.provider now key).2 := by
    simp only [getEntry]
    split <;> rfl
  rw [handle_get names]
  dsimp only
  rw [same]
  simp only [Cache.get, valid, inProcess]
  exact ⟨trivial, _, rfl⟩

end Reads

/-- Up to the last instant of a lifetime, every read of the target gets the response. -/
def Serves (target : String) (expiry : Time.Instant) (response : Response)
    (cache : Cache Storage) : Prop :=
  ∀ now contentType body, expiry.before now = false →
    (handle Storage.provider now ⟨"GET", target, contentType, body⟩ cache).1 = response

section PutThenGet

variable {cache : Cache Storage} {memory : Memory} (inProcess : cache.storage = .memory memory)
  {target key : String} (names : Names target key) (valid : validateKey key = .ok ())
  {header : Option Bytes} {body : Bytes} (now : Time.Instant)

include inProcess names valid

theorem put_serves (small : body.length ≤ bodyLimit) (integral : Integral (announced header) body)
    (wellFormed : WellFormed (announced header) body)
    (fits : cache.policy.Fits (kept (announced header) body).length) :
    let put := handle Storage.provider now ⟨"PUT", target, header, body⟩ cache
    put.1 = .plain 204 ∧ put.2.policy = cache.policy ∧ (∃ memory, put.2.storage = .memory memory) ∧
      Serves target (now.laterOrLatest cache.policy.lifetime)
        (.ofBytes 200 (announced header).mime (kept (announced header) body)) put.2 := by
  rw [put_accepted inProcess names valid now small integral wellFormed fits]
  refine ⟨rfl, rfl, ⟨_, rfl⟩, fun later contentType octets alive => ?_⟩
  exact get_stored rfl names valid later contentType octets wellFormed integral now
    cache.policy.lifetime ((Table.get?_insert memory.entries key key _).trans (if_pos rfl)) alive

/-- What is kept of a body is written as itself. -/
theorem put_again {type : ContentType} (small : body.length ≤ bodyLimit)
    (wellFormed : WellFormed type body) (integral : Integral type body)
    (same : announced header = type) (fits : cache.policy.Fits (kept type body).length) :
    let put := handle Storage.provider now ⟨"PUT", target, header, kept type body⟩ cache
    put.1.status = 204 ∧ Serves target (now.laterOrLatest cache.policy.lifetime)
      (.ofBytes 200 type.mime (kept type body)) put.2 := by
  subst same
  obtain ⟨value, decoded⟩ := (wellFormed_iff _ _).mp wellFormed
  have short := (decode_kept decoded integral).2.2.2.trans small
  obtain ⟨still, integral', form⟩ := kept_again wellFormed integral
  rw [← form] at fits
  obtain ⟨answer, -, -, serves⟩ := put_serves inProcess names valid now short integral' still fits
  rw [form] at serves
  exact ⟨congrArg Response.status answer, serves⟩

/-- A write is accepted exactly if the body is well formed for the kind that its header announces and
its kept form fits. Then reads get that form until it expires: what came, or the text of the document
that came, in order; and the form is written again as itself. Any other write is turned down and
changes nothing. -/
theorem put_then_get (small : body.length ≤ bodyLimit)
    (integral : Integral (announced header) body) :
    let type := announced header
    let put := handle Storage.provider now ⟨"PUT", target, header, body⟩ cache
    Announces header type type.mime ∧
      (put.1.status = 204 ↔ WellFormed type body ∧ cache.policy.Fits (kept type body).length) ∧
      (put.1.status = 204 →
        Serves target (now.laterOrLatest cache.policy.lifetime)
            (.ofBytes 200 type.mime (kept type body)) put.2 ∧
          (type ≠ .structured → kept type body = body) ∧
          (type = .structured → ∃ document, Json.parse body = .ok document ∧ document.Exact ∧
            kept type body = Bytes.ofString document.text ∧
            Json.parse (kept type body) = .ok document) ∧
          ∀ later again announcing, announced announcing = type →
            (now.laterOrLatest cache.policy.lifetime).before later = false →
            let read := handle Storage.provider later ⟨"GET", target, none, []⟩ put.2
            let rewritten := handle Storage.provider again
              ⟨"PUT", target, announcing, read.1.body⟩ read.2
            rewritten.1.status = 204 ∧
              Serves target (again.laterOrLatest cache.policy.lifetime) read.1 rewritten.2) ∧
      (put.1.status ≠ 204 →
        (put.1.status = 400 ∧ ¬ WellFormed type body ∨
          put.1.status = 413 ∧ ¬ cache.policy.Fits (kept type body).length) ∧
        put.2 = cache) := by
  intro type put
  have refused (status : Nat) (code : put.1.status = status) (other : status ≠ 204) :
      put.1.status ≠ 204 := code.trans_ne other
  refine ⟨announces_announced header, ?_⟩
  by_cases wellFormed : WellFormed type body
  · by_cases fits : cache.policy.Fits (kept type body).length
    · obtain ⟨answer, policy, ⟨memory', storage⟩, serves⟩ :=
        put_serves inProcess names valid now small integral wellFormed fits
      have accepted : put.1.status = 204 := congrArg Response.status answer
      obtain ⟨plain, document⟩ := kept_form wellFormed integral
      refine ⟨iff_of_true accepted ⟨wellFormed, fits⟩, fun _ => ?_, absurd accepted⟩
      refine ⟨serves, plain, document, fun later again announcing same alive => ?_⟩
      intro read rewritten
      have shown : read.1 = .ofBytes 200 type.mime (kept type body) := serves later none [] alive
      obtain ⟨unchanged, memory'', stored⟩ := get_leaves storage names valid later none []
      have limit : read.2.policy = cache.policy := unchanged.trans policy
      have renewed :=
        put_again stored names valid again small wellFormed integral same (limit ▸ fits)
      have octets : read.1.body = kept type body := congrArg Response.body shown
      rw [limit, ← shown, ← octets] at renewed
      exact renewed
    · have answer : put = (failed _, cache) :=
        put_large names valid now small integral wellFormed fits
      have code : put.1.status = 413 := congrArg (·.1.status) answer
      have other := refused 413 code (by decide)
      refine ⟨iff_of_false other fun both => fits both.2, fun same => absurd same other,
        fun _ => ⟨.inr ⟨code, fits⟩, congrArg Prod.snd answer⟩⟩
  · obtain ⟨message, answer⟩ : ∃ message, put = (.ofError 400 message, cache) :=
      put_malformed names now small wellFormed
    have code : put.1.status = 400 := congrArg (·.1.status) answer
    have other := refused 400 code (by decide)
    refine ⟨iff_of_false other fun both => wellFormed both.1, fun same => absurd same other,
      fun _ => ⟨.inl ⟨code, wellFormed⟩, congrArg Prod.snd answer⟩⟩

end PutThenGet

-- Bodies of at most 15 octets, with and without a header. The document is within the limit in its
-- kept form only.
def limited : Cache Storage :=
  .fresh ⟨0, 0⟩ ⟨.ofSeconds 60, 15, true, 4, Gzip.codec⟩ (.memory .empty)

theorem put_then_get_limited :
    let put := fun header body =>
      handle Storage.provider ⟨1, 0⟩ ⟨"PUT", "/cache/k", header, body⟩ limited
    let read := fun header body =>
      (handle Storage.provider ⟨61, 0⟩ ⟨"GET", "/cache/k", none, []⟩ (put header body).2).1
    let header := fun content => some (Bytes.ofString content)
    let document := Bytes.ofString "\x7b\"b\":1, \"a\":[2]\x7d"
    document.length = 16 ∧ (put (header "application/json") document).1.status = 204 ∧
      read (header "application/json") document =
        .ofBytes 200 "application/json" (Bytes.ofString "\x7b\"a\":[2],\"b\":1\x7d") ∧
      read (header "text/html") (Bytes.ofString "é") = .ofBytes 200 "text/plain" [195, 169] ∧
      read (header "image/png") [255] = .ofBytes 200 "application/octet-stream" [255] ∧
      read none [255] = .ofBytes 200 "application/octet-stream" [255] := by
  intro put read header document
  have target : cachePath ++ "/" ++ Net.percentEncode Net.segmentEscapes "k" = "/cache/k" := by
    decide +kernel
  have names : Names "/cache/k" "k" := target ▸ names_encoded (by decide)
  have inProcess : limited.storage = .memory .empty := rfl
  -- What is no document is kept as it is.
  have plain (header : Option Bytes) (body : Bytes) (type : ContentType)
      (announces : announced header = type) (free : type ≠ .structured)
      (wellFormed : WellFormed type body) (short : body.length ≤ 15) :
      read header body = .ofBytes 200 type.mime body := by
    subst announces
    have integral : Integral (announced header) body := fun same => absurd same free
    have same : kept (announced header) body = body := (kept_form wellFormed integral).1 free
    obtain ⟨-, accepted, serves, -⟩ := put_then_get inProcess names rfl ⟨1, 0⟩
      (Nat.le_trans short (by decide)) integral
    rw [same] at accepted serves
    exact (serves (accepted.mpr ⟨wellFormed, .inr short⟩)).1 ⟨61, 0⟩ none [] (by decide)
  have octets : document =
      [123, 34, 98, 34, 58, 49, 44, 32, 34, 97, 34, 58, 91, 50, 93, 125] := by decide +kernel
  have type : announced (header "application/json") = .structured := by decide +kernel
  have parsed : Json.parse document = .ok (.object [("a", .array [.int 2]), ("b", .int 1)]) := by
    rw [octets]
    rfl
  have integral : Integral (announced (header "application/json")) document := by
    intro _ found again
    rw [← Except.ok.inj (parsed.symm.trans again)]
    have number (value : Int) (low : -2 ^ 63 ≤ value) (high : value < 2 ^ 64) :
        Json.Integral (.int value) := .int value low high
    refine .object _ trivial ?_
    simp only [List.forall_mem_cons]
    refine ⟨.array _ ?_, number 1 (by decide) (by decide), List.forall_mem_nil _⟩
    exact List.forall_mem_singleton.mpr (number 2 (by decide) (by decide))
  have form : kept .structured document = Bytes.ofString "\x7b\"a\":[2],\"b\":1\x7d" := by
    have text : (Json.object [("a", .array [.int 2]), ("b", .int 1)]).text =
        "\x7b\"a\":[2],\"b\":1\x7d" := by decide +kernel
    simp only [kept, parsed, text]
  have small : document.length ≤ bodyLimit := by
    rw [octets]
    decide
  obtain ⟨-, accepted, serves, -⟩ := put_then_get inProcess names rfl ⟨1, 0⟩ small integral
  rw [type, form] at accepted serves
  have written : (put (header "application/json") document).1.status = 204 :=
    accepted.mpr ⟨⟨_, parsed⟩, .inr (by decide +kernel)⟩
  have accent : Bytes.ofString "é" = [195, 169] := by decide +kernel
  refine ⟨by rw [octets]; rfl, written, (serves written).1 ⟨61, 0⟩ none [] (by decide), ?_, ?_, ?_⟩
  · exact accent ▸ plain (header "text/html") (Bytes.ofString "é") .text (by decide +kernel)
      (by decide) ⟨"é", rfl⟩ (by decide +kernel)
  · exact plain (header "image/png") [255] .binary (by decide +kernel) (by decide) trivial
      (by decide)
  · exact plain none [255] .binary rfl (by decide) trivial (by decide)

end Gateway

end Http

end RingCache
