import RingCache.Proofs.NodeAnswers

/-!
The gate of a cache. A call is refused for its key or its value exactly when the key is empty or
too long or the value too large, and a call that is refused leaves nothing behind, in any provider
and at any node. So no call reaches a node with an empty key, which would stand for all keys there,
unless all keys are to be deleted.
-/

namespace RingCache

def Journal.calls (journal : Journal) : Nat :=
  journal.stores + journal.retrieves + journal.deletes + journal.clears

theorem Operation.run_journaled {σ : Type} (operation : Operation) (provider : Provider σ)
    (now : Time.Instant) (state : Journal × σ) :
    (operation.run provider.journaled now state).2.1.calls = state.1.calls + 1 := by
  cases operation <;>
    simp only [Operation.run, Provider.journaled, Prod.map_snd, id, Journal.calls] <;> omega

/-- Only a clearing calls nodes by the empty key, to delete all keys. -/
theorem Operation.makes_key (operation : Operation) (keyed : operation.Keyed) (call : Cluster.Call)
    (makes : operation.Makes call) (empty : call.key? = some "") :
    operation = .clear ∧ call = .delete "" := by
  cases operation with
  | store key entry =>
      obtain rfl : call = .set key := makes
      exact absurd (Option.some.inj empty) keyed
  | retrieve key =>
      obtain rfl : call = .get key := makes
      exact absurd (Option.some.inj empty) keyed
  | delete key =>
      obtain rfl : call = .delete key := makes
      exact absurd (Option.some.inj empty) keyed
  | clear => exact ⟨rfl, makes⟩

namespace Cache

namespace Request

def errorOf {α : Type} : Except CacheError α → Option CacheError
  | .error error => some error
  | .ok _ => none

def unmade? : Request → Option CacheError
  | .setKeyed _ members => errorOf (CacheValue.ofKeyed members)
  | _ => none

def key? : Request → Option String
  | .get key => some key
  | .getAs _ key => some key
  | .set key _ => some key
  | .setFor _ key _ => some key
  | .setKeyed key _ => some key
  | .delete key => some key
  | .clear => none

def value? : Request → Option CacheValue
  | .set _ value => some value
  | .setFor _ _ value => some value
  | .setKeyed _ members => (CacheValue.ofKeyed members).toOption
  | _ => none

/-- A call is refused with an error: its value cannot be made, or else the key is empty, or longer than
256 octets, or it is neither but the value is larger than the policy allows, if the policy sets a
limit. -/
inductive Refused (policy : Policy) (request : Request) : CacheError → Prop where
  | unmade (error : CacheError) (failed : request.unmade? = some error) :
      Refused policy request error
  | empty (made : request.unmade? = none) (named : request.key? = some "") :
      Refused policy request .emptyKey
  | long (made : request.unmade? = none) (key : String) (named : request.key? = some key)
      (length : 256 < key.utf8ByteSize) :
      Refused policy request (.keyTooLong key.utf8ByteSize 256)
  | large (made : request.unmade? = none) (key : String) (named : request.key? = some key)
      (filled : key ≠ "") (short : key.utf8ByteSize ≤ 256) (value : CacheValue)
      (written : request.value? = some value) (limited : 0 < policy.maxSize)
      (length : policy.maxSize < value.encode.length) :
      Refused policy request (.valueTooLarge value.encode.length policy.maxSize)

theorem validateKey_cases (key : String) :
    (key = "" ∧ validateKey key = .error .emptyKey) ∨
      (256 < key.utf8ByteSize ∧ validateKey key = .error (.keyTooLong key.utf8ByteSize 256)) ∨
      (key ≠ "" ∧ key.utf8ByteSize ≤ 256 ∧ validateKey key = .ok ()) := by
  by_cases empty : key = ""
  · exact .inl ⟨empty, by simp [validateKey, empty]⟩
  · by_cases long : 256 < key.utf8ByteSize
    · exact .inr (.inl ⟨long, by simp [validateKey, empty, maxKeyLength, long]⟩)
    · exact .inr (.inr ⟨empty, Nat.not_lt.mp long, by simp [validateKey, empty, maxKeyLength, long]⟩)

theorem checkSize_cases (policy : Policy) (size : Nat) :
    (0 < policy.maxSize ∧ policy.maxSize < size ∧
        policy.checkSize size = .error (.valueTooLarge size policy.maxSize)) ∨
      (¬ (0 < policy.maxSize ∧ policy.maxSize < size) ∧ policy.checkSize size = .ok ()) := by
  by_cases large : 0 < policy.maxSize ∧ policy.maxSize < size
  · exact .inl ⟨large.1, large.2, if_pos large⟩
  · exact .inr ⟨large, if_neg large⟩

def check (policy : Policy) (request : Request) : Except CacheError Unit :=
  match request.unmade? with
  | some error => .error error
  | none => match request.key? with
    | none => .ok ()
    | some key => match validateKey key with
      | .error error => .error error
      | .ok () => match request.value? with
        | none => .ok ()
        | some value => policy.checkSize value.encode.length

theorem check_error_iff (request : Request) (policy : Policy) (error : CacheError) :
    request.check policy = .error error ↔ request.Refused policy error := by
  constructor
  · intro refused
    rw [check] at refused
    split at refused
    · next failed =>
        cases refused
        exact .unmade _ failed
    · next made =>
        split at refused
        · cases refused
        · next key named =>
            rcases validateKey_cases key with ⟨rfl, invalid⟩ | ⟨long, invalid⟩ | ⟨filled, short, valid⟩
            · rw [invalid] at refused
              cases refused
              exact .empty made named
            · rw [invalid] at refused
              cases refused
              exact .long made key named long
            · rw [valid] at refused
              dsimp only at refused
              split at refused
              · cases refused
              · next value written =>
                  rcases checkSize_cases policy value.encode.length with
                    ⟨limited, large, tooLarge⟩ | ⟨_, fits⟩
                  · rw [tooLarge] at refused
                    cases refused
                    exact .large made key named filled short value written limited large
                  · rw [fits] at refused
                    cases refused
  · rintro (⟨_, failed⟩ | ⟨made, named⟩ | ⟨made, key, named, long⟩ |
      ⟨made, key, named, filled, short, value, written, limited, large⟩)
    · simp only [check, failed]
    · rw [check, made, named]
      rfl
    · rcases validateKey_cases key with ⟨rfl, _⟩ | ⟨_, invalid⟩ | ⟨_, short, _⟩
      · exact absurd long (by decide)
      · simp only [check, made, named, invalid]
      · omega
    · rcases validateKey_cases key with ⟨empty, _⟩ | ⟨long, _⟩ | ⟨_, _, valid⟩
      · exact absurd empty filled
      · omega
      · simp only [check, made, named, valid, written, Policy.checkSize,
          if_pos (And.intro limited large)]

variable {σ : Type} (provider : Provider σ) (now : Time.Instant) (cache : Cache σ)

def error? : Request → Cache σ → Option CacheError
  | .get key, cache => errorOf (cache.get provider now key).1
  | .getAs schema key, cache => errorOf (cache.getAs provider now schema key).1
  | .set key value, cache => errorOf (cache.set provider now key value).1
  | .setFor lifetime key value, cache => errorOf (cache.setFor provider now lifetime key value).1
  | .setKeyed key members, cache => errorOf (cache.setKeyed provider now key members).1
  | .delete key, cache => errorOf (cache.delete provider now key).1
  | .clear, cache => errorOf (cache.clear provider now).1

/-- Members that make a document are written like the document. -/
theorem setKeyed_made (key : String) {members : List (Json × Json)} {value : CacheValue}
    (made : CacheValue.ofKeyed members = .ok value) :
    cache.setKeyed provider now key members = cache.set provider now key value ∧
      ∀ policy, check policy (.setKeyed key members) = check policy (.set key value) ∧
        operation policy now (.setKeyed key members) = operation policy now (.set key value) := by
  refine ⟨by simp only [Cache.setKeyed, made], fun policy => ⟨?_, by simp only [operation, made]⟩⟩
  simp only [check, unmade?, errorOf, key?, value?, made, Except.toOption]

theorem check_keyed (policy : Policy) (request : Request) (key : String)
    (made : request.unmade? = none) (named : request.key? = some key)
    (unwritten : request.value? = none) : request.check policy = validateKey key := by
  simp only [check, made, named, unwritten]
  cases validateKey key <;> rfl

theorem setFor_refused (lifetime : Time.Span) (key : String) (value : CacheValue)
    (error : CacheError) (failed : check cache.policy (.setFor lifetime key value) = .error error) :
    cache.setFor provider now lifetime key value = (.error error, cache) := by
  simp only [check, unmade?, key?, value?] at failed
  cases valid : validateKey key with
  | error invalid =>
      rw [valid] at failed
      cases failed
      simp only [Cache.setFor, valid]
  | ok =>
      rw [valid] at failed
      simp only at failed
      simp only [Cache.setFor, valid, failed]

/-- A call that does not pass is answered with what was wrong, and that is all. -/
theorem check_failed (request : Request) (error : CacheError)
    (failed : request.check cache.policy = .error error) :
    request.error? provider now cache = some error ∧ request.after provider now cache = cache := by
  have invalid (key : String) (made : request.unmade? = none) (named : request.key? = some key)
      (unwritten : request.value? = none) : validateKey key = .error error :=
    (check_keyed cache.policy request key made named unwritten).symm.trans failed
  cases request with
  | get key =>
      simp only [error?, errorOf, after, Cache.get, invalid key rfl rfl rfl, and_self]
  | getAs schema key =>
      simp only [error?, errorOf, after, Cache.getAs, Cache.get, invalid key rfl rfl rfl,
        and_self]
  | set key value =>
      have refused := setFor_refused provider now cache cache.policy.lifetime key value error failed
      simp only [error?, errorOf, after, Cache.set, refused, and_self]
  | setFor lifetime key value =>
      have refused := setFor_refused provider now cache lifetime key value error failed
      simp only [error?, errorOf, after, refused, and_self]
  | setKeyed key members =>
      cases made : CacheValue.ofKeyed members with
      | error unmade =>
          simp only [check, unmade?, errorOf, made, Except.error.injEq] at failed
          simp only [error?, errorOf, after, Cache.setKeyed, made, failed, and_self]
      | ok value =>
          obtain ⟨same, alike⟩ := setKeyed_made provider now cache key made
          rw [(alike cache.policy).1] at failed
          have refused :=
            setFor_refused provider now cache cache.policy.lifetime key value error failed
          simp only [error?, errorOf, after, same, Cache.set, refused, and_self]
  | delete key =>
      simp only [error?, errorOf, after, Cache.delete, invalid key rfl rfl rfl, and_self]
  | clear => cases failed

/-- A call that passes asks the provider for one operation. -/
theorem check_passed (policy : Policy) (request : Request)
    (passed : request.check policy = .ok ()) :
    ∃ operation, request.operation policy now = some operation := by
  have made : request.unmade? = none := by
    cases unmade : request.unmade? with
    | none => rfl
    | some error =>
        simp only [check, unmade] at passed
        cases passed
  have keyed (key : String) (named : request.key? = some key) : validateKey key = .ok () := by
    simp only [check, made, named] at passed
    cases valid : validateKey key with
    | ok => rfl
    | error error =>
        rw [valid] at passed
        cases passed
  have sized (key : String) (value : CacheValue) (named : request.key? = some key)
      (written : request.value? = some value) :
      policy.checkSize value.encode.length = .ok () := by
    simpa only [check, made, named, written, keyed key named] using passed
  cases request with
  | get key => exact ⟨.retrieve key, by simp only [operation, ifValid, keyed key rfl]⟩
  | getAs schema key => exact ⟨.retrieve key, by simp only [operation, ifValid, keyed key rfl]⟩
  | set key value =>
      refine ⟨.store key (policy.entryOf now policy.lifetime value.contentType value.encode), ?_⟩
      simp only [operation, writing, sized key value rfl rfl, ifValid, keyed key rfl]
  | setFor lifetime key value =>
      refine ⟨.store key (policy.entryOf now lifetime value.contentType value.encode), ?_⟩
      simp only [operation, writing, sized key value rfl rfl, ifValid, keyed key rfl]
  | setKeyed key members =>
      simp only [unmade?] at made
      cases converted : CacheValue.ofKeyed members with
      | error error =>
          rw [converted] at made
          cases made
      | ok value =>
          have written : value? (.setKeyed key members) = some value := by
            simp only [value?, converted, Except.toOption]
          refine ⟨.store key (policy.entryOf now policy.lifetime value.contentType value.encode), ?_⟩
          simp only [operation, converted, writing, sized key value rfl written, ifValid,
            keyed key rfl]
  | delete key => exact ⟨.delete key, by simp only [operation, ifValid, keyed key rfl]⟩
  | clear => exact ⟨.clear, rfl⟩

theorem ofEntry_unrefused (codec : Codec) (entry : Entry) :
    Unrefused (CacheValue.ofEntry codec entry) := by
  have decoded (contentType : ContentType) (octets : Bytes) :
      Unrefused (CacheValue.decode contentType octets) := by
    cases contentType with
    | text =>
        rw [CacheValue.decode]
        split
        · exact .ok _
        · exact .error rfl
    | binary => exact .ok _
    | structured =>
        rw [CacheValue.decode]
        split
        · exact .ok _
        · exact .error rfl
  rw [CacheValue.ofEntry]
  cases opened : entry.content codec with
  | ok octets => exact decoded _ octets
  | error error =>
      refine .error ?_
      rw [Entry.content] at opened
      split at opened
      · split at opened
        · cases opened
        · cases opened
          rfl
      · cases opened

theorem readAs_unrefused (schema : Json.Schema) (value : CacheValue) :
    Unrefused (value.readAs schema) := by
  simp only [CacheValue.readAs]
  split
  · exact .ok _
  · exact .error rfl

/-- Where a read fails with a refusal, its provider did. -/
theorem get_refusal (key : String) (valid : validateKey key = .ok ()) (error : CacheError)
    (refusal : error.isValidation = true) (failed : (cache.get provider now key).1 = .error error) :
    (provider.retrieve now key cache.storage).1 = .error error := by
  simp only [Cache.get, valid] at failed
  cases found : (provider.retrieve now key cache.storage).1 with
  | error other =>
      rw [found] at failed
      simp only [account, Except.error.injEq] at failed
      rw [failed]
  | ok lookup =>
      rw [found] at failed
      cases lookup with
      | miss => cases failed
      | expired => cases failed
      | hit entry =>
          simp only [account] at failed
          split at failed
          · cases failed
          · next other opened =>
              cases failed
              rw [ofEntry_unrefused _ entry error opened] at refusal
              cases refusal

theorem errorOf_some {α : Type} {result : Except CacheError α} {error : CacheError}
    (failed : errorOf result = some error) : result = .error error := by
  cases result with
  | ok => cases failed
  | error other => rw [Option.some.inj failed]

theorem ifValid_passed {key : String} {operation asked : Operation}
    (made : ifValid key operation = some asked) :
    validateKey key = .ok () ∧ operation = asked := by
  rw [ifValid] at made
  split at made
  · next valid => exact ⟨valid, Option.some.inj made⟩
  · cases made

theorem setFor_refusal (lifetime : Time.Span) (key : String) (value : CacheValue)
    (operation : Operation)
    (asked : writing cache.policy now lifetime key value = some operation) (error : CacheError)
    (failed : (cache.setFor provider now lifetime key value).1 = .error error) :
    (operation.run provider now cache.storage).1.error? = some error := by
  rw [writing] at asked
  split at asked
  · next fits =>
      obtain ⟨valid, rfl⟩ := ifValid_passed asked
      simp only [Cache.setFor, valid, fits] at failed
      split at failed
      · next other stored =>
          cases failed
          exact congrArg (fun result => (Answer.done result).error?) stored
      · cases failed
  · cases asked

/-- Where a call that passes answers with a refusal, its provider did. -/
theorem refusal_origin (request : Request) (error : CacheError)
    (refusal : error.isValidation = true)
    (answered : request.error? provider now cache = some error)
    (operation : Operation) (asked : request.operation cache.policy now = some operation) :
    (operation.run provider now cache.storage).1.error? = some error := by
  have retrieved (key : String) (valid : validateKey key = .ok ())
      (failed : (cache.get provider now key).1 = .error error) :
      ((Operation.retrieve key).run provider now cache.storage).1.error? = some error :=
    congrArg (fun result => (Answer.found result).error?)
      (get_refusal provider now cache key valid error refusal failed)
  cases request with
  | get key =>
      obtain ⟨valid, rfl⟩ := ifValid_passed asked
      exact retrieved key valid (errorOf_some answered)
  | getAs schema key =>
      obtain ⟨valid, rfl⟩ := ifValid_passed asked
      have failed := errorOf_some answered
      simp only [Cache.getAs] at failed
      split at failed
      · next other got =>
          cases failed
          exact retrieved key valid got
      · cases failed
      · next value got =>
          cases read : value.readAs schema with
          | ok => rw [read] at failed; cases failed
          | error other =>
              rw [read] at failed
              cases failed
              rw [readAs_unrefused schema value error read] at refusal
              cases refusal
  | set key value =>
      exact setFor_refusal provider now cache cache.policy.lifetime key value operation asked error
        (errorOf_some answered)
  | setFor lifetime key value =>
      exact setFor_refusal provider now cache lifetime key value operation asked error
        (errorOf_some answered)
  | setKeyed key members =>
      simp only [Request.operation] at asked
      split at asked
      · next value made =>
          simp only [error?, (setKeyed_made provider now cache key made).1] at answered
          exact setFor_refusal provider now cache cache.policy.lifetime key value operation asked
            error (errorOf_some answered)
      · cases asked
  | delete key =>
      obtain ⟨valid, rfl⟩ := ifValid_passed asked
      have failed := errorOf_some answered
      simp only [Cache.delete, valid] at failed
      split at failed
      · next other deleted =>
          cases failed
          exact congrArg (fun result => (Answer.done result).error?) deleted
      · cases failed
  | clear =>
      obtain rfl := Option.some.inj asked
      have failed := errorOf_some answered
      simp only [Cache.clear] at failed
      split at failed
      · next other cleared =>
          cases failed
          exact congrArg (fun result => (Answer.done result).error?) cleared
      · cases failed

end Request

/-- Something that happens to a cache, after others have changed its stores and its cluster. -/
structure Happening where
  now : Time.Instant
  stores : Cluster.Fleet → Cluster.Fleet
  cluster : Cluster.Coordinator → Cluster.Coordinator
  event : Event

namespace Happening

def disturbed (happening : Happening) : Storage → Storage
  | .memory state => .memory state
  | .remote state => .remote { state with fleet := happening.stores state.fleet }
  | .distributed state => .distributed
      { state with
        coordinator := happening.cluster state.coordinator
        fleet := happening.stores state.fleet }

def before (happening : Happening) (cache : Cache Storage) : Cache Storage :=
  { cache with storage := happening.disturbed cache.storage }

def after (happening : Happening) (cache : Cache Storage) : Cache Storage :=
  happening.event.after happening.now (happening.before cache)

theorem before_keyed (happening : Happening) (cache : Cache Storage) (keyed : cache.storage.Keyed) :
    (happening.before cache).storage.Keyed := by
  have pending : (happening.disturbed cache.storage).pending = cache.storage.pending := by
    cases cache.storage <;> rfl
  rw [Storage.Keyed, before, pending]
  exact keyed

end Happening

/-- A call at a node that may come from an event: it names a key, unless it is the deletion of all
keys and the event is a clearing. -/
def Event.May (event : Event) (call : Cluster.Call) : Prop :=
  call.key? = some "" → event = .request .clear ∧ call = .delete ""

theorem Request.operation_clear (policy : Policy) (now : Time.Instant) (request : Request)
    (asked : request.operation policy now = some .clear) : request = .clear := by
  cases request with
  | clear => rfl
  | get key => cases (Request.ifValid_passed asked).2
  | getAs schema key => cases (Request.ifValid_passed asked).2
  | set key value => cases (Request.writing_some now asked).2
  | setFor lifetime key value => cases (Request.writing_some now asked).2
  | setKeyed key members =>
      simp only [Request.operation] at asked
      split at asked
      · cases (Request.writing_some now asked).2
      · cases asked
  | delete key => cases (Request.ifValid_passed asked).2

/-- What one event calls, and that the purges it leaves are about keys. -/
theorem Event.after_made (event : Event) (now : Time.Instant) (cache : Cache Storage)
    (keyed : cache.storage.Keyed) :
    cache.storage.fleet.Made event.May (event.after now cache).storage.fleet ∧
      (event.after now cache).storage.Keyed := by
  cases event with
  | request call =>
      rw [Event.after, call.after_storage Storage.provider now cache]
      cases asked : call.operation cache.policy now with
      | none => exact ⟨.refl _, keyed⟩
      | some operation =>
          have named := (Request.operation_spares now _ call operation asked).1
          refine ⟨(Storage.run_made operation now cache.storage).mono fun made makes empty => ?_,
            Storage.run_keyed operation named now cache.storage keyed⟩
          obtain ⟨rfl, same⟩ := Operation.makes_key operation named made makes empty
          rw [Request.operation_clear cache.policy now call asked]
          exact ⟨rfl, same⟩
  | purge place =>
      obtain ⟨made, left⟩ := cache.storage.purge_made now place
      refine ⟨made.mono ?_, fun purge among => ?_⟩
      · rintro call ⟨purge, among, makes⟩ empty
        -- A purge calls by its own key, and that is not empty.
        have named := keyed purge among
        cases purge <;> cases makes <;> exact absurd (Option.some.inj empty) named
      · obtain ⟨old, earlier, same⟩ := left purge among
        rw [same]
        exact keyed old earlier
  | sweep =>
      obtain ⟨fleet, pending⟩ := cache.storage.sweep_made now
      rw [Event.after]
      dsimp only
      rw [fleet, Storage.Keyed, pending]
      exact ⟨.refl _, keyed⟩

theorem happenings_keyed (course : List Happening) (cache : Cache Storage)
    (keyed : cache.storage.Keyed) :
    (course.foldl (fun cache happening => happening.after cache) cache).storage.Keyed := by
  induction course generalizing cache with
  | nil => exact keyed
  | cons happening rest ih =>
      exact ih _ (happening.event.after_made happening.now _ (happening.before_keyed cache keyed)).2

/-- At any provider a refused call is answered with the refusal and changes nothing, not even the
journal, and any other call is one call of the provider. With the three storages the refusals are
the only answers of their kind. In any course of events, among whatever others do to the stores and
to the cluster, no event calls a node by the empty key but a clearing, which deletes all keys. -/
theorem gate_exact {σ : Type} (provider : Provider σ) (now : Time.Instant) (request : Request)
    (anywhere : Cache (Journal × σ)) (cache : Cache Storage)
    (honest : ∀ name, (cache.storage.fleet.peer name).Honest) (start : Cache Storage)
    (keyed : start.storage.Keyed) (course : List Happening) (happening : Happening) :
    (∀ error, request.Refused anywhere.policy error →
        request.error? provider.journaled now anywhere = some error ∧
          request.after provider.journaled now anywhere = anywhere) ∧
      ((∀ error, ¬ request.Refused anywhere.policy error) →
        (request.after provider.journaled now anywhere).storage.1.calls =
          anywhere.storage.1.calls + 1) ∧
      (∀ error, error.isValidation = true →
        (request.error? Storage.provider now cache = some error ↔
          request.Refused cache.policy error)) ∧
      (∀ error, request.Refused cache.policy error →
        request.after Storage.provider now cache = cache) ∧
      let reached := course.foldl (fun cache happening => happening.after cache) start
      (happening.before reached).storage.fleet.Made happening.event.May
        (happening.after reached).storage.fleet := by
  refine ⟨fun error refused => ?_, fun accepted => ?_, fun error refusal => ⟨fun answered => ?_,
    fun refused => ?_⟩, fun error refused => ?_, ?_⟩
  · exact request.check_failed provider.journaled now anywhere error
      ((request.check_error_iff anywhere.policy error).mpr refused)
  · cases checked : request.check anywhere.policy with
    | error error => exact absurd ((request.check_error_iff _ error).mp checked) (accepted error)
    | ok =>
        obtain ⟨operation, asked⟩ := Request.check_passed now anywhere.policy request checked
        rw [request.after_storage provider.journaled now anywhere, asked]
        exact operation.run_journaled provider now anywhere.storage
  · cases checked : request.check cache.policy with
    | error other =>
        have refused := (request.check_failed Storage.provider now cache other checked).1
        rw [answered] at refused
        rw [Option.some.inj refused]
        exact (request.check_error_iff cache.policy other).mp checked
    | ok =>
        obtain ⟨operation, asked⟩ := Request.check_passed now cache.policy request checked
        have origin := Request.refusal_origin Storage.provider now cache request error refusal
          answered operation asked
        rw [Storage.run_unrefused operation now cache.storage honest error origin] at refusal
        cases refusal
  · exact (request.check_failed Storage.provider now cache error
      ((request.check_error_iff cache.policy error).mpr refused)).1
  · exact (request.check_failed Storage.provider now cache error
      ((request.check_error_iff cache.policy error).mpr refused)).2
  · have pending := happenings_keyed course start keyed
    exact (happening.event.after_made happening.now _ (happening.before_keyed _ pending)).1

-- An empty key at a journal, and the purge of a key at a node.
def remote : Cache Storage :=
  .fresh ⟨0, 0⟩ ⟨.ofSeconds 60, 1, false, 0, Gzip.codec⟩ (.remote ⟨"r", .empty, []⟩)

def alone (now : Time.Instant) (event : Event) : Happening := ⟨now, id, id, event⟩

def expiring : List Happening :=
  [alone ⟨1, 0⟩ (.request (.setFor .zero "k" (.text "x"))), alone ⟨2, 0⟩ (.request (.get "k"))]

theorem gate_exact_purge :
    let journal : Cache (Journal × Memory) := .fresh ⟨0, 0⟩ remote.policy (.empty, .empty)
    let reached := expiring.foldl (fun cache happening => happening.after cache) remote
    (Request.set "" (.text "x")).error? Memory.provider.journaled ⟨1, 0⟩ journal = some .emptyKey ∧
      (Request.set "k" (.text "xy")).after Storage.provider ⟨1, 0⟩ remote = remote ∧
      reached.storage.pending.length = 1 ∧
      ((alone ⟨3, 0⟩ (.purge 0)).before reached).storage.fleet.Made (Event.purge 0).May
        ((alone ⟨3, 0⟩ (.purge 0)).after reached).storage.fleet := by
  intro journal reached
  have serves : Cluster.Conduct.serves.Honest := by rintro _ ⟨⟩
  have honest (name : String) : (remote.storage.fleet.peer name).Honest := ⟨serves, serves, serves⟩
  have idle : remote.storage.Keyed := fun purge among => absurd among List.not_mem_nil
  have empty := gate_exact Memory.provider ⟨1, 0⟩ (.set "" (.text "x")) journal remote honest remote
    idle expiring (alone ⟨3, 0⟩ (.purge 0))
  have large := gate_exact Memory.provider ⟨1, 0⟩ (.set "k" (.text "xy")) journal remote honest
    remote idle [] (alone ⟨3, 0⟩ (.purge 0))
  have refused : (Request.set "k" (.text "xy")).Refused remote.policy
      (.valueTooLarge (CacheValue.text "xy").encode.length remote.policy.maxSize) :=
    .large rfl "k" rfl (by decide) (by decide) (.text "xy") rfl (by decide) (by decide +kernel)
  exact ⟨(empty.1 _ (.empty rfl rfl)).1, large.2.2.2.1 _ refused, by decide +kernel, empty.2.2.2.2⟩

end Cache

end RingCache
