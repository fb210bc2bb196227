import RingCache.Proofs.ValueCodec
import RingCache.Proofs.WrittenValues

/-!
Which writes can be read. A write takes documents of any depth, and a read none in which more than
127 arrays and objects are open at a time: a value that is written is read back as a value of its
type just if it is not such a document, and the reads of such a document fail until it expires.
-/

namespace RingCache

/-- Values that there are: their documents hold integers of 64 bits and finite doubles, and list
each key once, in order. -/
inductive CacheValue.Representable : CacheValue → Prop where
  | text (content : String) : Representable (.text content)
  | binary (octets : Bytes) : Representable (.binary octets)
  | structured (document : Json) (formed : document.Representable) :
      Representable (.structured document)

/-- A document in which more arrays and objects are open than the reader opens. -/
def CacheValue.Deep : CacheValue → Prop
  | .structured document => 127 < document.depth
  | _ => False

theorem CacheValue.Representable.decoded {value : CacheValue} (held : value.Representable) :
    (¬ value.Deep → ∃ got, decode value.contentType value.encode = .ok got ∧
      got.contentType = value.contentType) ∧
    (value.Deep → ∃ place, decode value.contentType value.encode =
      .error (.codec (.json ⟨.tooDeep, place⟩))) := by
  cases held with
  | text content => exact ⟨fun _ => ⟨_, (Exact.text content).decode_encode, rfl⟩, False.elim⟩
  | binary octets => exact ⟨fun _ => ⟨_, (Exact.binary octets).decode_encode, rfl⟩, False.elim⟩
  | structured document formed =>
      constructor
      · intro shallow
        obtain ⟨got, -, parsed⟩ := formed.parse.1 (Nat.lt_succ_of_le (Nat.le_of_not_lt shallow))
        exact ⟨.structured got, by simp only [contentType, encode, decode, parsed], rfl⟩
      · intro deep
        obtain ⟨place, refused⟩ := formed.parse.2 deep
        exact ⟨place, by simp only [contentType, encode, decode, refused]⟩

namespace Cache

variable {key : String}

/-- A read right after a write decodes the octets that were written, up to the instant at which they
expire. -/
theorem get_setFor_at (cache : Cache Storage) (ready : cache.storage.Ready)
    (now later : Time.Instant) (sound : now.Exact) (lifetime : Time.Span)
    (value : CacheValue)
    (small : (cache.policy.entryOf now lifetime value.contentType value.encode).payload.length <
      2 ^ 64)
    (written : (cache.setFor Storage.provider now lifetime key value).1 = .ok ()) :
    ((cache.setFor Storage.provider now lifetime key value).2.get Storage.provider later key).1 =
      if (now.laterOrLatest lifetime).before later then .ok none
      else (CacheValue.decode value.contentType value.encode).map some := by
  obtain ⟨valid, stored, storage⟩ := setFor_done Storage.provider now cache lifetime value written
  have whole :=
    cache.policy.entryOf_exact lifetime value.contentType value.encode sound small
  have opened := CacheValue.ofEntry_entryOf cache.policy now lifetime value.contentType value.encode
  have expires : (cache.policy.entryOf now lifetime value.contentType value.encode).expiredAt later =
      (now.laterOrLatest lifetime).before later := rfl
  generalize cache.policy.entryOf now lifetime value.contentType value.encode = entry at *
  have safe := ready.stored key entry stored
  rw [← storage] at safe
  have found := safe.retrieved whole later
  rw [expires] at found
  cases lapsed : (now.laterOrLatest lifetime).before later with
  | true =>
      rw [lapsed] at found
      exact get_expired Storage.provider later _ valid found
  | false =>
      rw [lapsed] at found
      rw [get_hit Storage.provider later _ valid found, setFor_policy now cache lifetime value, opened]
      rfl

theorem get_setFor (cache : Cache Storage) (ready : cache.storage.Ready) (now later : Time.Instant)
    (sound : now.Exact) (lifetime : Time.Span) (value : CacheValue)
    (small : (cache.policy.entryOf now lifetime value.contentType value.encode).payload.length <
      2 ^ 64)
    (written : (cache.setFor Storage.provider now lifetime key value).1 = .ok ())
    (alive : (now.laterOrLatest lifetime).before later = false) :
    ((cache.setFor Storage.provider now lifetime key value).2.get Storage.provider later key).1 =
      (CacheValue.decode value.contentType value.encode).map some := by
  rw [get_setFor_at cache ready now later sound lifetime value small written, alive]
  rfl

/-- What was written is read as a value of its type before it expires, unless it is a document that
is nested too deep; then the read fails. -/
theorem readable_iff_shallow (cache : Cache Storage) (ready : cache.storage.Ready)
    (now later : Time.Instant) (sound : now.Exact) (lifetime : Time.Span)
    (value : CacheValue) (held : value.Representable)
    (small : (cache.policy.entryOf now lifetime value.contentType value.encode).payload.length <
      2 ^ 64)
    (written : (cache.setFor Storage.provider now lifetime key value).1 = .ok ())
    (alive : (now.laterOrLatest lifetime).before later = false) :
    let read := (cache.setFor Storage.provider now lifetime key value).2.get
      Storage.provider later key
    ((∃ got, read.1 = .ok (some got) ∧ got.contentType = value.contentType) ↔ ¬ value.Deep) ∧
      (value.Deep → ∃ place, read.1 = .error (.codec (.json ⟨.tooDeep, place⟩))) := by
  intro read
  have decodes : read.1 = _ :=
    get_setFor cache ready now later sound lifetime value small written alive
  obtain ⟨shallow, deep⟩ := held.decoded
  have fails (tooDeep : value.Deep) :
      ∃ place, read.1 = .error (.codec (.json ⟨.tooDeep, place⟩)) := by
    obtain ⟨place, refused⟩ := deep tooDeep
    exact ⟨place, by rw [decodes, refused]; rfl⟩
  refine ⟨⟨?_, ?_⟩, fails⟩
  · rintro ⟨got, done, -⟩ tooDeep
    obtain ⟨place, failed⟩ := fails tooDeep
    rw [done] at failed
    cases failed
  · intro notDeep
    obtain ⟨got, decoded, type⟩ := shallow notDeep
    exact ⟨got, by rw [decodes, decoded]; rfl, type⟩

def nested : Nat → Json
  | 0 => .array []
  | inner + 1 => .array [nested inner]

theorem nested_representable (inner : Nat) : (nested inner).Representable := by
  induction inner with
  | zero => exact .array [] nofun
  | succ inner ih => exact .array _ (List.forall_mem_singleton.mpr ih)

theorem depth_nested (inner : Nat) : (nested inner).depth = inner + 1 := by
  induction inner with
  | zero => rfl
  | succ inner ih => simp [nested, Json.depth, Json.depthItems, ih]

def plain : Cache Storage := .fresh ⟨0, 0⟩ ⟨.ofSeconds 60, 0, false, 0, Gzip.codec⟩ (.memory .empty)

theorem plain_ready : plain.storage.Ready := .memory .empty .nil

theorem readable_iff_shallow_nested :
    let written := plain.setFor Storage.provider ⟨1, 0⟩ (.ofSeconds 5) "k" (.structured (nested 1))
    written.1 = .ok () ∧
      ∃ got, (written.2.get Storage.provider ⟨6, 0⟩ "k").1 = .ok (some got) ∧
        got.contentType = .structured := by
  intro written
  have done : written.1 = .ok () := rfl
  have read := readable_iff_shallow plain plain_ready ⟨1, 0⟩ ⟨6, 0⟩ (by decide) (.ofSeconds 5)
    (.structured (nested 1)) (.structured _ (nested_representable 1)) (by decide +kernel) done rfl
  refine ⟨done, read.1.mpr ?_⟩
  rw [CacheValue.Deep, depth_nested]
  decide

theorem deep_write_unreadable :
    let written :=
      plain.setFor Storage.provider ⟨1, 0⟩ (.ofSeconds 5) "k" (.structured (nested 127))
    written.1 = .ok () ∧
      ∃ place, (written.2.get Storage.provider ⟨2, 0⟩ "k").1 =
        .error (.codec (.json ⟨.tooDeep, place⟩)) := by
  intro written
  have done : written.1 = .ok () := rfl
  have decodes := get_setFor plain plain_ready ⟨1, 0⟩ ⟨2, 0⟩ (by decide) (.ofSeconds 5)
    (.structured (nested 127)) (by decide +kernel) done rfl
  have held := CacheValue.Representable.structured _ (nested_representable 127)
  obtain ⟨place, refused⟩ := held.decoded.2 (by rw [CacheValue.Deep, depth_nested]; decide)
  exact ⟨done, place, by rw [decodes, refused]; rfl⟩

end Cache

end RingCache
