import RingCache.Proofs.JsonValues

/-!
Documents as texts. A document that can be a value is read back from its own text, doubles aside, as
long as its arrays and objects are not nested too deep for the reader; if they are, the reader stops
at its limit.
-/

namespace RingCache.Json

def comma (first : Bool) : List Char := if first then [] else [',']

def listed (first : Bool) : List Json → List Char
  | [] => [']']
  | item :: rest => comma first ++ (print item ++ listed false rest)

def listedMembers (first : Bool) : List (String × Json) → List Char
  | [] => ['\x7d']
  | (key, value) :: rest =>
      comma first ++ (quoted key ++ ':' :: (print value ++ listedMembers false rest))

theorem printItems_listed (items : List Json) : printItems items = listed true items := by
  induction items with
  | nil => rfl
  | cons item rest ih =>
      cases rest with
      | nil => rfl
      | cons next rest => simp [printItems, ih, listed, comma]

theorem printMembers_listed (members : List (String × Json)) :
    printMembers members = listedMembers true members := by
  induction members with
  | nil => rfl
  | cons member rest ih =>
      cases rest with
      | nil => simp [printMembers, listedMembers, comma]
      | cons next rest => simp [printMembers, ih, listedMembers, comma]

theorem readSeparator_end (close : UInt8) (early unclosed missing : Problem) (first : Bool)
    (dark : isSpace close = false) (rest : Bytes) (p : Position) :
    readSeparator close early unclosed missing first ⟨close :: rest, p⟩ =
      .ok (false, ⟨rest, p.past close⟩) := by
  simp [readSeparator, skipBlank_begins dark, Cursor.next]

/-- Where an element begins, behind its comma if it has one, there is one more. -/
theorem readSeparator_more (close : UInt8) (early unclosed missing : Problem) (first : Bool)
    (other : close ≠ 44) (octet : UInt8) (dark : isSpace octet = false) (inside : octet ≠ close)
    (rest : Bytes) (p : Position) :
    ∃ q, readSeparator close early unclosed missing first
        ⟨Bytes.ofChars (comma first) ++ octet :: rest, p⟩ = .ok (true, ⟨octet :: rest, q⟩) := by
  cases first with
  | true =>
      refine ⟨p, ?_⟩
      simp [readSeparator, comma, skipBlank_begins dark, inside]
  | false =>
      have octets : Bytes.ofChars (comma false) = [44] := by decide
      have blank : isSpace 44 = false := rfl
      refine ⟨p.past 44, ?_⟩
      simp [readSeparator, octets, skipBlank_begins dark, skipBlank_begins blank, Cursor.next,
        inside, other.symm]

theorem listed_pos (first : Bool) (items : List Json) (each : ∀ item ∈ items, Representable item) :
    0 < (listed first items).length := by
  cases items with
  | nil => exact Nat.one_pos
  | cons item items =>
      have := (each item (List.mem_cons_self ..)).length_pos
      simp only [listed, List.length_append]
      omega

theorem listedMembers_pos (first : Bool) (members : List (String × Json)) :
    0 < (listedMembers first members).length := by
  cases members with
  | nil => exact Nat.one_pos
  | cons member members => simp [listedMembers, quoted]

theorem follows_letter (c : Char) (chars : List Char) (rest : Bytes)
    (stop : c = ',' ∨ c = ']' ∨ c = '\x7d') : Follows (Bytes.ofChars (c :: chars) ++ rest) := by
  have octets : Bytes.ofChars (c :: chars) ++ rest =
      UInt8.ofNat c.toNat :: (Bytes.ofChars chars ++ rest) :=
    ofChars_letter c chars rest (by rcases stop with rfl | rfl | rfl <;> decide)
  rw [octets]
  rintro octet ⟨⟩
  rcases stop with rfl | rfl | rfl <;> decide

/-- The rest of an array follows an item. -/
theorem follows_listed (items : List Json) (rest : Bytes) :
    Follows (Bytes.ofChars (listed false items) ++ rest) := by
  cases items with
  | nil => exact follows_letter _ _ _ (.inr (.inl rfl))
  | cons item items => exact follows_letter _ _ _ (.inl rfl)

/-- The rest of an object follows a member. -/
theorem follows_listedMembers (members : List (String × Json)) (rest : Bytes) :
    Follows (Bytes.ofChars (listedMembers false members) ++ rest) := by
  cases members with
  | nil => exact follows_letter _ _ _ (.inr (.inr rfl))
  | cons member members => exact follows_letter _ _ _ (.inl rfl)

/-- An element is read with the reader's own limit, and the rest behind it. -/
theorem readItems_item {item got : Json} (reads : ReadsAs item got) (formed : Representable item)
    (rest : List Json) (fuel limit : Nat) (seen : List Json) (p : Position) (tail : Bytes)
    (enough : 2 * item.print.length ≤ fuel) (positive : 1 ≤ limit) :
    (item.depth < limit → ∃ q,
      readItems (fuel + 1) limit seen
          ⟨Bytes.ofChars (listed seen.isEmpty (item :: rest)) ++ tail, p⟩ =
        readItems fuel limit (got :: seen) ⟨Bytes.ofChars (listed false rest) ++ tail, q⟩) ∧
    (limit ≤ item.depth → ∃ place,
      readItems (fuel + 1) limit seen
          ⟨Bytes.ofChars (listed seen.isEmpty (item :: rest)) ++ tail, p⟩ =
        .error ⟨.tooDeep, place⟩) := by
  obtain ⟨octet, others, shape, dark, inside⟩ := formed.begins
  obtain ⟨p', more⟩ := readSeparator_more 93 .trailingComma .endInList .expectedListEnd seen.isEmpty
    (by decide) octet dark inside (others ++ (Bytes.ofChars (listed false rest) ++ tail)) p
  rw [← List.cons_append, ← shape] at more
  have step : readItems (fuel + 1) limit seen
      ⟨Bytes.ofChars (listed seen.isEmpty (item :: rest)) ++ tail, p⟩ =
      (readValue fuel limit
        ⟨Bytes.ofChars item.print ++ (Bytes.ofChars (listed false rest) ++ tail), p'⟩).bind
          fun read => readItems fuel limit (read.1 :: seen) read.2 := by
    rw [listed, Bytes.ofChars_append, Bytes.ofChars_append, List.append_assoc, List.append_assoc,
      readItems, moreItems, more]
    rfl
  obtain ⟨shallow, deep⟩ := reads fuel limit p' _ enough positive (follows_listed rest tail)
  rw [step]
  constructor
  · intro reaches
    obtain ⟨q, read⟩ := shallow reaches
    exact ⟨q, by rw [read]; rfl⟩
  · intro refuses
    obtain ⟨place, refused⟩ := deep refuses
    exact ⟨place, by rw [refused]; rfl⟩

theorem insert_last (key : String) (value : Json) (seen : List (String × Json))
    (before : ∀ member ∈ seen, member.1 < key) :
    insert key value seen = seen ++ [(key, value)] := by
  induction seen with
  | nil => rfl
  | cons member seen ih =>
      obtain ⟨less, others⟩ := List.forall_mem_cons.mp before
      have different : key ≠ member.1 := fun same => String.lt_irrefl key (same ▸ less)
      rw [insert, if_neg (String.lt_asymm less), if_neg different, ih others, List.cons_append]

theorem member_octets (first : Bool) (key : String) (value : Json) (rest : List (String × Json))
    (tail : Bytes) : Bytes.ofChars (listedMembers first ((key, value) :: rest)) ++ tail =
      Bytes.ofChars (comma first) ++ 34 ::
        (Bytes.ofChars (key.toList.flatMap escapeChar) ++ 34 :: 58 ::
          (Bytes.ofChars value.print ++ (Bytes.ofChars (listedMembers false rest) ++ tail))) := by
  have quote (chars : List Char) : Bytes.ofChars ('"' :: chars) = 34 :: Bytes.ofChars chars :=
    Bytes.ofChars_ascii '"' chars (by decide)
  have colon (chars : List Char) : Bytes.ofChars (':' :: chars) = 58 :: Bytes.ofChars chars :=
    Bytes.ofChars_ascii ':' chars (by decide)
  simp [listedMembers, quoted, Bytes.ofChars_append, quote, colon]

theorem readMembers_member {value got : Json} (reads : ReadsAs value got) (key : String)
    (rest : List (String × Json)) (fuel limit : Nat) (first : Bool) (seen : List (String × Json))
    (before : ∀ member ∈ seen, member.1 < key) (p : Position) (tail : Bytes)
    (enough : 2 * value.print.length ≤ fuel) (positive : 1 ≤ limit) :
    (value.depth < limit → ∃ q,
      readMembers (fuel + 1) limit first seen
          ⟨Bytes.ofChars (listedMembers first ((key, value) :: rest)) ++ tail, p⟩ =
        readMembers fuel limit false (seen ++ [(key, got)])
          ⟨Bytes.ofChars (listedMembers false rest) ++ tail, q⟩) ∧
    (limit ≤ value.depth → ∃ place,
      readMembers (fuel + 1) limit first seen
          ⟨Bytes.ofChars (listedMembers first ((key, value) :: rest)) ++ tail, p⟩ =
        .error ⟨.tooDeep, place⟩) := by
  obtain ⟨p₁, more⟩ := readSeparator_more 125 .trailingComma .endInObject .expectedObjectEnd first
    (by decide) 34 rfl (by decide) (Bytes.ofChars (key.toList.flatMap escapeChar) ++ 34 :: 58 ::
      (Bytes.ofChars value.print ++ (Bytes.ofChars (listedMembers false rest) ++ tail))) p
  obtain ⟨p₂, name⟩ := readString_quoted (p₁.past 34)
    (58 :: (Bytes.ofChars value.print ++ (Bytes.ofChars (listedMembers false rest) ++ tail))) key
  have step : readMembers (fuel + 1) limit first seen
      ⟨Bytes.ofChars (listedMembers first ((key, value) :: rest)) ++ tail, p⟩ =
      (readValue fuel limit ⟨Bytes.ofChars value.print ++
        (Bytes.ofChars (listedMembers false rest) ++ tail), p₂.past 58⟩).bind
          fun read => readMembers fuel limit false (insert key read.1 seen) read.2 := by
    rw [member_octets, readMembers, moreMembers, more]
    simp only [bind, Except.bind, pure, Except.pure, Cursor.next, name, readColon,
      @skipBlank_begins 58 rfl, Bool.not_true, Bool.false_eq_true, if_false]
  obtain ⟨shallow, deep⟩ := reads fuel limit (p₂.past 58) _ enough positive
    (follows_listedMembers rest tail)
  rw [step]
  constructor
  · intro reaches
    obtain ⟨q, read⟩ := shallow reaches
    exact ⟨q, by rw [read, ← insert_last key got seen before]; rfl⟩
  · intro refuses
    obtain ⟨place, refused⟩ := deep refuses
    exact ⟨place, by rw [refused]; rfl⟩

theorem readItems_listed {items gots : List Json} (each : ∀ item ∈ items, Representable item)
    (pairs : List.Forall₂ ReadsAs items gots) (fuel limit : Nat) (seen : List Json) (p : Position)
    (tail : Bytes) (enough : 2 * (listed seen.isEmpty items).length ≤ fuel) (positive : 1 ≤ limit) :
    (depthItems items < limit → ∃ q,
      readItems fuel limit seen ⟨Bytes.ofChars (listed seen.isEmpty items) ++ tail, p⟩ =
        .ok (.array (seen.reverse ++ gots), ⟨tail, q⟩)) ∧
    (limit ≤ depthItems items → ∃ place,
      readItems fuel limit seen ⟨Bytes.ofChars (listed seen.isEmpty items) ++ tail, p⟩ =
        .error ⟨.tooDeep, place⟩) := by
  induction pairs generalizing fuel seen p with
  | nil =>
      have close : Bytes.ofChars (listed seen.isEmpty []) = [93] := by
        rw [listed]
        decide
      obtain ⟨fuel, rfl⟩ : ∃ n, fuel = n + 1 :=
        ⟨fuel - 1, by simp only [listed, List.length_singleton] at enough; omega⟩
      refine ⟨fun _ => ⟨p.past 93, ?_⟩, fun refuses => by rw [depthItems] at refuses; omega⟩
      rw [close, List.cons_append, readItems, moreItems, readSeparator_end 93 _ _ _ _ rfl]
      simp [bind, Except.bind, pure, Except.pure]
  | @cons item got items gots reads pairs ih =>
      obtain ⟨formed, others⟩ := List.forall_mem_cons.mp each
      have item_pos := formed.length_pos
      have rest_pos := listed_pos false items others
      simp only [listed, List.length_append] at enough
      obtain ⟨fuel, rfl⟩ : ∃ n, fuel = n + 1 := ⟨fuel - 1, by omega⟩
      obtain ⟨shallow, deep⟩ := readItems_item reads formed items fuel limit seen p tail (by omega)
        positive
      rw [depthItems]
      rcases Nat.lt_or_ge item.depth limit with below | above
      · obtain ⟨q, read⟩ := shallow below
        obtain ⟨done, refused⟩ := ih others fuel (got :: seen) q (by simpa using (by omega))
        rw [read]
        constructor
        · intro inside
          obtain ⟨q, all⟩ := done (by omega)
          exact ⟨q, by simpa using all⟩
        · intro outside
          exact refused (by omega)
      · exact ⟨fun inside => by omega, fun _ => deep above⟩

def MemberReadsAs (member got : String × Json) : Prop := member.1 = got.1 ∧ ReadsAs member.2 got.2

theorem readMembers_listed {members gots : List (String × Json)}
    (ascending : members.Pairwise (·.1 < ·.1)) (pairs : List.Forall₂ MemberReadsAs members gots)
    (fuel limit : Nat) (first : Bool) (seen : List (String × Json))
    (before : ∀ earlier ∈ seen, ∀ member ∈ members, earlier.1 < member.1) (p : Position)
    (tail : Bytes) (enough : 2 * (listedMembers first members).length ≤ fuel)
    (positive : 1 ≤ limit) :
    (depthMembers members < limit → ∃ q,
      readMembers fuel limit first seen
          ⟨Bytes.ofChars (listedMembers first members) ++ tail, p⟩ =
        .ok (.object (seen ++ gots), ⟨tail, q⟩)) ∧
    (limit ≤ depthMembers members → ∃ place,
      readMembers fuel limit first seen
          ⟨Bytes.ofChars (listedMembers first members) ++ tail, p⟩ =
        .error ⟨.tooDeep, place⟩) := by
  induction pairs generalizing fuel first seen p with
  | nil =>
      have close : Bytes.ofChars (listedMembers first []) = [125] := by
        rw [listedMembers]
        decide
      obtain ⟨fuel, rfl⟩ : ∃ n, fuel = n + 1 :=
        ⟨fuel - 1, by simp only [listedMembers, List.length_singleton] at enough; omega⟩
      refine ⟨fun _ => ⟨p.past 125, ?_⟩, fun refuses => by rw [depthMembers] at refuses; omega⟩
      rw [close, List.cons_append, readMembers, moreMembers, readSeparator_end 125 _ _ _ _ rfl]
      simp [bind, Except.bind, pure, Except.pure]
  | @cons member got members gots reads pairs ih =>
      obtain ⟨key, value⟩ := member
      obtain ⟨name, got⟩ := got
      obtain ⟨rfl, reads⟩ : key = name ∧ ReadsAs value got := reads
      obtain ⟨smallest, ascending⟩ := List.pairwise_cons.mp ascending
      have rest_pos := listedMembers_pos false members
      simp only [listedMembers, quoted, List.length_append, List.length_cons] at enough
      obtain ⟨fuel, rfl⟩ : ∃ n, fuel = n + 1 := ⟨fuel - 1, by omega⟩
      obtain ⟨shallow, deep⟩ := readMembers_member reads key members fuel limit first seen
        (fun earlier member => before earlier member _ (List.mem_cons_self ..)) p tail (by omega)
        positive
      rw [depthMembers]
      rcases Nat.lt_or_ge value.depth limit with below | above
      · obtain ⟨q, read⟩ := shallow below
        -- The reader inserts by key, so members that come in order stay where they come.
        have next : ∀ earlier ∈ seen ++ [(key, got)], ∀ member ∈ members, earlier.1 < member.1 := by
          intro earlier among member later
          rcases List.mem_append.mp among with old | last
          · exact before earlier old member (List.mem_cons_of_mem _ later)
          · rw [List.mem_singleton.mp last]
            exact smallest member later
        obtain ⟨done, refused⟩ := ih ascending fuel false (seen ++ [(key, got)]) next q (by omega)
        rw [read]
        constructor
        · intro inside
          obtain ⟨q, all⟩ := done (by omega)
          exact ⟨q, by simpa using all⟩
        · intro outside
          exact refused (by omega)
      · exact ⟨fun inside => by omega, fun _ => deep above⟩

/-- An array or an object: the bracket takes one level, and its elements are read with the
others. -/
theorem readsAs_nested {document got : Json} {c : Char} {elements : List Char} {inner : Nat}
    (shape : document.print = c :: elements) (deeper : document.depth = inner + 1)
    (bracket : c = '[' ∨ c = '\x7b')
    (reads : ∀ (fuel limit : Nat) (p : Position) (rest : Bytes), 2 * elements.length ≤ fuel →
      1 ≤ limit →
      (inner < limit → ∃ q, (if c = '[' then
          readItems fuel limit [] ⟨Bytes.ofChars elements ++ rest, p⟩
        else readMembers fuel limit true [] ⟨Bytes.ofChars elements ++ rest, p⟩) =
          .ok (got, ⟨rest, q⟩)) ∧
      (limit ≤ inner → ∃ place, (if c = '[' then
          readItems fuel limit [] ⟨Bytes.ofChars elements ++ rest, p⟩
        else readMembers fuel limit true [] ⟨Bytes.ofChars elements ++ rest, p⟩) =
          .error ⟨.tooDeep, place⟩)) : ReadsAs document got := by
  intro fuel limit p rest enough positive follows
  rw [shape, List.length_cons] at enough
  obtain ⟨fuel, rfl⟩ : ∃ n, fuel = n + 1 := ⟨fuel - 1, by omega⟩
  have begun : readValue (fuel + 1) limit ⟨Bytes.ofChars document.print ++ rest, p⟩ =
      if limit ≤ 1 then .error ⟨.tooDeep, some (p.past (UInt8.ofNat c.toNat))⟩
      else if c = '[' then readItems fuel (limit - 1) []
        ⟨Bytes.ofChars elements ++ rest, p.past (UInt8.ofNat c.toNat)⟩
      else readMembers fuel (limit - 1) true []
        ⟨Bytes.ofChars elements ++ rest, p.past (UInt8.ofNat c.toNat)⟩ := by
    rw [shape]
    rcases bracket with rfl | rfl
    · rw [ofChars_letter '[' _ rest (by decide), readValue,
        @skipBlank_begins (UInt8.ofNat '['.toNat) rfl]
      rfl
    · rw [ofChars_letter '\x7b' _ rest (by decide), readValue,
        @skipBlank_begins (UInt8.ofNat '\x7b'.toNat) rfl]
      rfl
  rw [begun, deeper]
  -- The bracket takes a level of its own, whatever its elements take.
  by_cases last : limit ≤ 1
  · rw [if_pos last]
    exact ⟨fun inside => by omega, fun _ => ⟨_, rfl⟩⟩
  · obtain ⟨done, refused⟩ := reads fuel (limit - 1) (p.past (UInt8.ofNat c.toNat)) rest (by omega)
      (by omega)
    rw [if_neg last]
    exact ⟨fun inside => done (by omega), fun outside => refused (by omega)⟩

/-- Whatever can be a value is read as a value, and as itself if it holds no double. -/
theorem Representable.readsAs {document : Json} (formed : Representable document) :
    ∃ got, (Exact document → got = document) ∧ ReadsAs document got := by
  induction formed with
  | null => exact ⟨_, fun _ => rfl, readsAs_null⟩
  | bool value => exact ⟨_, fun _ => rfl, readsAs_bool value⟩
  | int value low high => exact ⟨_, fun _ => rfl, readsAs_int value low high⟩
  | float value held =>
      obtain ⟨got, reads⟩ := readsAs_float value held
      refine ⟨_, fun exact => ?_, reads⟩
      cases exact with
      | float _ none => exact none.elim
  | string value => exact ⟨_, fun _ => rfl, readsAs_string value⟩
  | array items each ih =>
      choose! got same reads using ih
      have pairs : List.Forall₂ ReadsAs items (items.map got) :=
        List.forall₂_map_right_iff.mpr (List.forall₂_same.mpr reads)
      refine ⟨.array (items.map got), fun exact => ?_, ?_⟩
      · cases exact with
        | array _ exact =>
            -- Elements without doubles are read as themselves.
            have back : items.map got = items :=
              (List.map_congr_left (g := id) fun item member =>
                same item member (exact item member)).trans
                (List.map_id _)
            rw [back]
      · exact readsAs_nested (by rw [print, printItems_listed]; rfl) rfl (.inl rfl)
          fun fuel limit p rest => readItems_listed each pairs fuel limit [] p rest
  | object members keys each ih =>
      choose! got same reads using ih
      have pairs : List.Forall₂ MemberReadsAs members
          (members.map fun member => (member.1, got member)) :=
        List.forall₂_map_right_iff.mpr (List.forall₂_same.mpr fun member among =>
          ⟨rfl, reads member among⟩)
      refine ⟨.object (members.map fun member => (member.1, got member)), fun exact => ?_, ?_⟩
      · cases exact with
        | object _ _ exact =>
            have back : (members.map fun member => (member.1, got member)) = members :=
              (List.map_congr_left (g := id) fun member among => by
                rw [same member among (exact member among), id]).trans (List.map_id _)
            rw [back]
      · exact readsAs_nested (by rw [print, printMembers_listed]) rfl (.inr rfl)
          fun fuel limit p rest => readMembers_listed (List.pairwise_map.mp keys) pairs fuel limit
            true [] (by simp) p rest

theorem length_ofChars (chars : List Char) : chars.length ≤ (Bytes.ofChars chars).length := by
  induction chars with
  | nil => exact Nat.le_refl 0
  | cons c chars ih =>
      have := c.utf8Size_pos
      rw [Bytes.ofChars_cons, List.length_append, String.length_utf8EncodeChar, List.length_cons]
      omega

/-- The text of a value is a document just if its arrays and objects are not nested too deep. -/
theorem Representable.parse {document : Json} (formed : Representable document) :
    (document.depth < depthLimit → ∃ got, (Exact document → got = document) ∧
      Json.parse (Bytes.ofString document.text) = .ok got) ∧
    (depthLimit ≤ document.depth → ∃ place,
      Json.parse (Bytes.ofString document.text) = .error ⟨.tooDeep, place⟩) := by
  obtain ⟨got, same, reads⟩ := formed.readsAs
  have octets : Bytes.ofString document.text = Bytes.ofChars document.print :=
    Bytes.ofString_ofList _
  have enough : 2 * document.print.length ≤ fuelFor (Bytes.ofChars document.print) := by
    have := length_ofChars document.print
    rw [fuelFor]
    omega
  obtain ⟨shallow, deep⟩ := reads _ depthLimit .start [] enough (by decide) (by rintro _ ⟨⟩)
  rw [List.append_nil] at shallow deep
  rw [octets]
  constructor
  · intro inside
    obtain ⟨q, read⟩ := shallow inside
    refine ⟨got, same, ?_⟩
    rw [Json.parse, Cursor.ofBytes, read]
    rfl
  · intro outside
    obtain ⟨place, refused⟩ := deep outside
    refine ⟨place, ?_⟩
    rw [Json.parse, Cursor.ofBytes, refused]
    rfl

end RingCache.Json
