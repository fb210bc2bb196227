import RingCache.Proofs.DateText
import RingCache.Proofs.Utf8Text
import RingCache.Provider.Purge

/-!
The binary form of entries. What is written for an entry is read back as that entry, whatever octets
follow it, as long as the texts of its dates are read back as the dates; and nothing that is cut
short is read at all. Each field has a writer and a reader; the reader takes exactly what its writer
wrote, and readers in a row take what their writers wrote in a row.
-/

namespace RingCache

/-- The entries that there are: the length of the payload has 64 bits. -/
structure Entry.Representable (entry : Entry) : Prop where
  payload : entry.payload.length < 2 ^ 64
  created : entry.metadata.created.Representable
  expires : entry.metadata.expires.Representable

structure Entry.Exact (entry : Entry) : Prop where
  payload : entry.payload.length < 2 ^ 64
  created : entry.metadata.created.Exact
  expires : entry.metadata.expires.Exact

/-- The entry that an envelope tells: dates are told by their texts. -/
def Entry.told (entry : Entry) : Entry :=
  { entry with metadata :=
      { entry.metadata with
        created := entry.metadata.created.told
        expires := entry.metadata.expires.told } }

theorem Entry.Exact.told_eq {entry : Entry} (exact : entry.Exact) : entry.told = entry := by
  rw [Entry.told, exact.created.told_eq, exact.expires.told_eq]

theorem Entry.Exact.representable {entry : Entry} (exact : entry.Exact) : entry.Representable :=
  ⟨exact.payload, exact.created.representable, exact.expires.representable⟩

theorem Entry.Representable.told_exact {entry : Entry} (held : entry.Representable) :
    entry.told.Exact :=
  ⟨held.payload, held.created.told_exact, held.expires.told_exact⟩

theorem Entry.Representable.told_eq_iff {entry : Entry} (held : entry.Representable) :
    entry.told = entry ↔ entry.metadata.created.Exact ∧ entry.metadata.expires.Exact := by
  refine ⟨fun same => ?_, fun dates => Entry.Exact.told_eq ⟨held.payload, dates.1, dates.2⟩⟩
  have exact := held.told_exact
  rw [same] at exact
  exact ⟨exact.created, exact.expires⟩

namespace Envelope

theorem ok_bind {ε α β : Type} (value : α) (next : α → Except ε β) :
    (Except.ok value >>= next) = next value := rfl

def Fault.IsMissing (fault : Fault) : Prop := fault = .endOfInput ∨ fault = .shortText

/-- A reader takes these octets and no others: it answers by what follows them, and a beginning of
them is not enough. -/
structure Takes {α : Type} (read : Bytes → Except Fault α) (octets : Bytes) (answer : Bytes → α) :
    Prop where
  whole : ∀ rest, read (octets ++ rest) = .ok (answer rest)
  cut : ∀ front, front <+: octets → front ≠ octets →
    ∃ fault, fault.IsMissing ∧ read front = .error fault

variable {α β : Type}

theorem Takes.pure (answer : Bytes → α) : Takes (fun rest => .ok (answer rest)) [] answer where
  whole _ := rfl
  cut _ start proper := absurd (List.prefix_nil.mp start) proper

/-- A beginning of two pieces in a row ends inside the first piece or inside the second. -/
theorem prefix_append_cases {front first second : Bytes} (start : front <+: first ++ second)
    (proper : front ≠ first ++ second) :
    (front <+: first ∧ front ≠ first) ∨
      ∃ part, front = first ++ part ∧ part <+: second ∧ part ≠ second := by
  rcases List.prefix_or_prefix_of_prefix start (List.prefix_append first second) with inside | beyond
  · by_cases all : front = first
    · subst all
      refine .inr ⟨[], (List.append_nil front).symm, List.nil_prefix, ?_⟩
      intro empty
      exact proper (by rw [← empty, List.append_nil])
    · exact .inl ⟨inside, all⟩
  · obtain ⟨part, rfl⟩ := beyond
    refine .inr ⟨part, rfl, (List.prefix_append_right_inj first).mp start, ?_⟩
    intro same
    exact proper (by rw [same])

theorem Takes.bind {read : Bytes → Except Fault (α × Bytes)} {next : α × Bytes → Except Fault β}
    {first second : Bytes} {value : α} {answer : Bytes → β} (early : Takes read first (value, ·))
    (late : Takes (fun rest => next (value, rest)) second answer) :
    Takes (fun octets => read octets >>= next) (first ++ second) answer where
  whole rest := by rw [List.append_assoc, early.whole, ok_bind, late.whole]
  cut front start proper := by
    rcases prefix_append_cases start proper with ⟨inside, short⟩ | ⟨part, rfl, inside, short⟩
    · obtain ⟨fault, missing, failed⟩ := early.cut front inside short
      exact ⟨fault, missing, by rw [failed]; rfl⟩
    · rw [early.whole, ok_bind]
      exact late.cut part inside short

theorem split?_append (front rest : Bytes) :
    split? front.length (front ++ rest) = some (front, rest) := by
  simp [split?]

theorem split?_short (count : Nat) (octets : Bytes) (short : octets.length < count) :
    split? count octets = none := by
  rw [split?, List.take_of_length_le (Nat.le_of_lt short)]
  exact if_neg (Nat.ne_of_lt short)

theorem prefix_shorter {front octets : Bytes} (start : front <+: octets) (proper : front ≠ octets) :
    front.length < octets.length :=
  Nat.lt_of_le_of_ne start.length_le fun same => proper (start.eq_of_length same)

def counted (fault : Fault) (next : Bytes → Bytes → Except Fault α) (count : Nat) (input : Bytes) :
    Except Fault α :=
  match split? count input with
  | none => .error fault
  | some (octets, rest) => next octets rest

theorem counted_takes (fault : Fault) (missing : fault.IsMissing) (octets : Bytes)
    (next : Bytes → Bytes → Except Fault α) (answer : Bytes → α)
    (read : ∀ rest, next octets rest = .ok (answer rest)) :
    Takes (counted fault next octets.length) octets answer where
  whole rest := by
    rw [counted, split?_append]
    exact read rest
  cut front start proper := by
    refine ⟨fault, missing, ?_⟩
    rw [counted, split?_short _ _ (prefix_shorter start proper)]

theorem number_eq : number = counted .endOfInput fun octets rest =>
    .ok (Bytes.ofLittleEndian octets, rest) := by
  funext width input
  rw [number, counted]
  cases split? width input <;> rfl

theorem number_takes (width n : Nat) (fits : n < Nat.pow 256 width) :
    Takes (number width) (Bytes.littleEndian width n) (n, ·) := by
  have takes := counted_takes .endOfInput (.inl rfl) (Bytes.littleEndian width n)
    (fun octets rest => .ok (Bytes.ofLittleEndian octets, rest)) (n, ·) fun rest => by
      rw [Bytes.ofLittleEndian_littleEndian width n, Nat.mod_eq_of_lt fits]
  rwa [Bytes.length_littleEndian, ← number_eq] at takes

theorem length_takes (octets : Bytes) (fits : octets.length < 2 ^ 64) :
    Takes (number 8) (Bytes.littleEndian 8 octets.length) (octets.length, ·) :=
  number_takes 8 octets.length fits

theorem payload_eq (input : Bytes) : payload input =
    (number 8 input >>= fun found =>
      counted .endOfInput (fun octets rest => .ok (octets, rest)) found.1 found.2) := by
  rw [payload]
  congr 1
  funext ⟨length, rest⟩
  simp only [counted]
  cases split? length rest <;> rfl

theorem payload_takes (octets : Bytes) (fits : octets.length < 2 ^ 64) :
    Takes payload (lengthPrefixed octets) (octets, ·) := by
  rw [funext payload_eq]
  exact (length_takes octets fits).bind (counted_takes _ (.inl rfl) octets _ _ fun _ => rfl)

def dateOf (octets rest : Bytes) : Except Fault (Time.Instant × Bytes) :=
  match Utf8.decode octets with
  | .error fault => .error (.text fault)
  | .ok text => match Time.Rfc3339.read text with
    | .error fault => .error (.date fault)
    | .ok instant => .ok (instant, rest)

theorem date_eq (input : Bytes) : date input =
    (number 8 input >>= fun found => counted .shortText dateOf found.1 found.2) := rfl

theorem date_takes (instant : Time.Instant) (sound : instant.Exact) :
    Takes date (encodeDate instant) (instant, ·) := by
  have short : (Bytes.ofString (Time.Rfc3339.text instant)).length < 2 ^ 64 := by
    have octets := Bytes.ofString_length_le (Time.Rfc3339.text instant)
    have chars := Time.Rfc3339.chars_short instant sound
    rw [Time.Rfc3339.text, String.toList_ofList] at octets
    rw [Time.Rfc3339.text]
    omega
  rw [funext date_eq]
  refine (length_takes _ short).bind (counted_takes _ (.inr rfl) _ dateOf _ fun rest => ?_)
  simp only [dateOf, Utf8.decode_ofString, Time.Rfc3339.read_text instant sound]

theorem flag_takes (set : Bool) : Takes flag [if set then 1 else 0] (set, ·) where
  whole rest := by cases set <;> rfl
  cut front start proper := by
    have empty : front = [] := by
      have shorter := prefix_shorter start proper
      exact List.eq_nil_of_length_eq_zero (Nat.lt_one_iff.mp shorter)
    exact ⟨.endOfInput, .inl rfl, by rw [empty]; rfl⟩

theorem contentType_takes (kind : ContentType) :
    Takes contentType (Bytes.littleEndian 4 (contentIndex kind)) (kind, ·) := by
  have fits : contentIndex kind < 256 ^ 4 := by cases kind <;> decide
  rw [← List.append_nil (Bytes.littleEndian 4 _)]
  refine (number_takes 4 (contentIndex kind) fits).bind ?_
  cases kind <;> exact Takes.pure _

theorem decode_takes (entry : Entry) (sound : entry.Exact) :
    Takes decode (encode entry) fun _ => entry := by
  have size := number_takes 8 entry.metadata.size.toNat entry.metadata.size.toNat_lt
  have row : encode entry = lengthPrefixed entry.payload ++ (encodeDate entry.metadata.created ++
      (encodeDate entry.metadata.expires ++ (Bytes.littleEndian 8 entry.metadata.size.toNat ++
        ([if entry.metadata.compressed then 1 else 0] ++
          (Bytes.littleEndian 4 (contentIndex entry.metadata.contentType) ++ []))))) := by
    simp only [encode, List.append_assoc, List.append_nil]
  rw [row]
  refine (payload_takes entry.payload sound.payload).bind ?_
  refine (date_takes entry.metadata.created sound.created).bind ?_
  refine (date_takes entry.metadata.expires sound.expires).bind ?_
  refine size.bind ?_
  refine (flag_takes entry.metadata.compressed).bind ?_
  refine (contentType_takes entry.metadata.contentType).bind ?_
  simp only [UInt64.ofNat_toNat]
  exact Takes.pure fun _ => entry

/-- What is written for an entry is what is written for the one that it tells. -/
theorem encode_told (entry : Entry) (held : entry.Representable) :
    encode entry.told = encode entry := by
  have created : encodeDate entry.told.metadata.created = encodeDate entry.metadata.created :=
    congrArg (lengthPrefixed ∘ Bytes.ofString) (Time.Rfc3339.text_told _ held.created)
  have expires : encodeDate entry.told.metadata.expires = encodeDate entry.metadata.expires :=
    congrArg (lengthPrefixed ∘ Bytes.ofString) (Time.Rfc3339.text_told _ held.expires)
  rw [encode, created, expires]
  rfl

/-- An envelope is read as the entry it was made from, and what follows it does not matter. -/
theorem decode_encode_append (entry : Entry) (rest : Bytes) (sound : entry.Exact) :
    decode (encode entry ++ rest) = .ok entry :=
  (decode_takes entry sound).whole rest

theorem decode_encode (entry : Entry) (sound : entry.Exact) :
    decode (encode entry) = .ok entry := by
  have read := decode_encode_append entry [] sound
  rwa [List.append_nil] at read

/-- Where two envelopes begin alike, they are one envelope, and what they tell is one entry. -/
theorem encode_append_inj (left right : Entry) (behind after : Bytes)
    (held : left.Representable) (other : right.Representable)
    (same : encode left ++ behind = encode right ++ after) :
    left.told = right.told ∧ behind = after := by
  rw [← encode_told left held, ← encode_told right other] at same
  have read := decode_encode_append left.told behind held.told_exact
  rw [same, decode_encode_append right.told after other.told_exact] at read
  have told := Except.ok.inj read
  rw [told] at same
  exact ⟨told.symm, List.append_cancel_left same⟩

/-- Envelopes delimit themselves: what is behind one is passed over, and a part of one is missing octets
and is no envelope. They tell the entries that they were made from, but for a leap second inside a
minute, which is told as the second after it. -/
theorem encode_delimits_itself (entry : Entry) (held : entry.Representable) :
    (∀ behind, decode (encode entry ++ behind) = .ok entry.told) ∧
      ((∀ behind, decode (encode entry ++ behind) = .ok entry) ↔
        entry.metadata.created.Exact ∧ entry.metadata.expires.Exact) ∧
      ∀ front, front <+: encode entry → front ≠ encode entry →
        ∃ fault, fault.IsMissing ∧ decode front = .error fault ∧
          ∀ now, lookup now (some front) = .error (.codec (.envelope fault)) := by
  have takes := decode_takes entry.told held.told_exact
  rw [encode_told entry held] at takes
  refine ⟨takes.whole, ?_, ?_⟩
  · rw [← held.told_eq_iff]
    constructor
    · exact fun read => Except.ok.inj ((takes.whole []).symm.trans (read []))
    · exact fun same behind => (takes.whole behind).trans (congrArg Except.ok same)
  · intro front start proper
    obtain ⟨fault, missing, failed⟩ := takes.cut front start proper
    refine ⟨fault, missing, failed, ?_⟩
    intro now
    simp only [lookup, failed]

-- A leap second, and the greatest of dates.
def leapEntry : Entry :=
  ⟨[0, 255], ⟨⟨1483228799, 1500000000⟩, .latest, 18446744073709551615, true, .structured⟩⟩

theorem encode_delimits_itself_leap :
    leapEntry.Representable ∧ decode (encode leapEntry ++ [7]) = .ok leapEntry ∧
      ∃ fault, decode ((encode leapEntry).take 20) = .error fault := by
  have held : leapEntry.Representable :=
    ⟨by decide, ⟨by decide, by decide, by decide⟩, ⟨by decide, by decide, by decide⟩⟩
  obtain ⟨-, exact, cut⟩ := encode_delimits_itself leapEntry held
  have proper : (encode leapEntry).take 20 ≠ encode leapEntry := by
    intro same
    have long : 24 ≤ (encode leapEntry).length := by
      simp only [encode, encodeDate, lengthPrefixed, List.length_append, Bytes.length_littleEndian]
      omega
    rw [← same, List.length_take] at long
    omega
  obtain ⟨fault, _, failed, _⟩ := cut _ (List.take_prefix 20 _) proper
  exact ⟨held, exact.mpr ⟨by decide, by decide⟩ [7], fault, failed⟩

-- An entry that was made in a leap second inside a minute.
def oddEntry : Entry := ⟨[1], ⟨⟨30, 1500000000⟩, .latest, 1, false, .binary⟩⟩

theorem oddEntry_representable : oddEntry.Representable :=
  ⟨by decide, ⟨by decide, by decide, by decide⟩, ⟨by decide, by decide, by decide⟩⟩

theorem odd_entry_told :
    oddEntry.Representable ∧ decode (encode oddEntry) ≠ .ok oddEntry ∧
      decode (encode oddEntry) =
        .ok ⟨[1], ⟨⟨31, 500000000⟩, .latest, 1, false, .binary⟩⟩ := by
  have told := decode_encode oddEntry.told oddEntry_representable.told_exact
  rw [encode_told oddEntry oddEntry_representable] at told
  refine ⟨oddEntry_representable, fun same => ?_, told⟩
  rw [told] at same
  exact absurd (Except.ok.inj same) (by decide)

end Envelope

end RingCache
