import RingCache.Proofs.MemberOrder
import RingCache.Proofs.ReadTokens

/-!
What a JSON text is read as. Every text that is accepted gives a document that a value may have: its
integers are those of 64 bits, the members of its objects are in order, and no more arrays and
objects are open at a time than the reader opens. Written again without its doubles, the document is
no longer than the text.
-/

namespace RingCache.Json

/-- A comma is taken in front of every element but the first, the closing mark behind the last. -/
theorem readSeparator_takes {close : UInt8} {early unclosed missing : Problem} {first more : Bool}
    {c after : Cursor}
    (read : readSeparator close early unclosed missing first c = .ok (more, after)) :
    after.rest.length + 1 ≤ c.rest.length + (more && first).toNat := by
  have blank := c.skipBlank_le
  simp only [readSeparator] at read
  split at read
  · cases read
  · next octet rest ahead =>
      have next := c.skipBlank.next_lt ahead
      split at read
      · cases read
        exact (Nat.le_of_eq next).trans blank
      · split at read
        · next isFirst =>
            cases read
            rw [isFirst]
            exact Nat.succ_le_succ blank
        · split at read
          · have later := c.skipBlank.next.skipBlank_le
            split at read
            · cases read
            · split at read
              · cases read
              · cases read
                omega
          · cases read

theorem moreMembers_takes {first more : Bool} {c after : Cursor}
    (read : moreMembers first c = .ok (more, after)) :
    after.rest.length + 1 ≤ c.rest.length + (more && first).toNat ∧
      (more = true → after.next.rest.length + 1 = after.rest.length) := by
  obtain ⟨⟨goes, behind⟩, separator, read⟩ := bind_ok read
  have taken := readSeparator_takes separator
  cases goes with
  | false =>
      cases read
      exact ⟨taken, nofun⟩
  | true =>
      simp only [Bool.not_true, Bool.false_eq_true, if_false] at read
      split at read
      · next rest ahead =>
          cases read
          exact ⟨taken, fun _ => after.next_lt ahead⟩
      · cases read

theorem readColon_takes {c after : Cursor} (read : readColon c = .ok after) :
    after.rest.length + 1 ≤ c.rest.length := by
  simp only [readColon] at read
  split at read
  · cases read
  · next rest ahead =>
      cases read
      exact (Nat.le_of_eq (c.skipBlank.next_lt ahead)).trans c.skipBlank_le
  · cases read

theorem weightItems_sum (items : List Json) :
    weightItems items = (items.map fun item => item.weight + 1).sum := by
  induction items with
  | nil => rfl
  | cons item rest ih => rw [weightItems, List.map_cons, List.sum_cons, ih]

theorem weightItems_reverse (items : List Json) :
    weightItems items.reverse = weightItems items := by
  rw [weightItems_sum, weightItems_sum, List.map_reverse, List.sum_reverse]

def weightMember (key : String) (value : Json) : Nat :=
  (Bytes.ofChars (quoted key)).length + 1 + value.weight + 1

/-- A member takes the place of another, or it comes in addition. -/
theorem weightMembers_insert (key : String) (value : Json) (members : List (String × Json)) :
    weightMembers (insert key value members) ≤ weightMembers members + weightMember key value := by
  induction members with
  | nil => simp [insert, weightMembers, weightMember]
  | cons first rest ih =>
      rw [insert]
      split
      · simp only [weightMembers, weightMember]
        omega
      · split
        · simp only [weightMembers, weightMember]
          omega
        · simp only [weightMembers]
          omega

structure DocumentRead (depth : Nat) (document : Json) : Prop where
  legible : Legible document
  shallow : document.depth < depth

theorem DocumentRead.flat {depth : Nat} {document : Json} (legible : Legible document)
    (flat : document.depth = 0) (deep : 0 < depth) : DocumentRead depth document :=
  ⟨legible, flat ▸ deep⟩

theorem DocumentRead.array {depth : Nat} {items : List Json}
    (each : ∀ item ∈ items, DocumentRead depth item) (deep : 0 < depth) :
    DocumentRead (depth + 1) (.array items) := by
  refine ⟨.array items fun item member => (each item member).legible, ?_⟩
  have shallow : depthItems items ≤ depth - 1 :=
    (depthItems_le items _).mpr fun item member => Nat.le_sub_one_of_lt (each item member).shallow
  rw [Json.depth]
  omega

theorem DocumentRead.object {depth : Nat} {members : List (String × Json)}
    (keys : Ascending (members.map (·.1))) (each : ∀ member ∈ members, DocumentRead depth member.2)
    (deep : 0 < depth) : DocumentRead (depth + 1) (.object members) := by
  refine ⟨.object members keys fun member among => (each member among).legible, ?_⟩
  have shallow : depthMembers members ≤ depth - 1 :=
    (depthMembers_le members _).mpr fun member among =>
      Nat.le_sub_one_of_lt (each member among).shallow
  rw [Json.depth]
  omega

def ReadsValue (fuel depth : Nat) : Prop :=
  ∀ c document after, readValue fuel depth c = .ok (document, after) →
    DocumentRead depth document ∧ document.weight + after.rest.length ≤ c.rest.length

/-- The rest of an array, behind the items that were seen. -/
theorem readItems_reads {fuel depth : Nat} (values : ∀ less < fuel, ReadsValue less depth)
    {seen : List Json} {c after : Cursor} {document : Json}
    (earlier : ∀ item ∈ seen, DocumentRead depth item)
    (read : readItems fuel depth seen c = .ok (document, after)) :
    ∃ items, document = .array items ∧ (∀ item ∈ items, DocumentRead depth item) ∧
      weightItems items + 1 + after.rest.length ≤
        weightItems seen + c.rest.length + seen.isEmpty.toNat ∧
      after.rest.length + 1 ≤ c.rest.length := by
  induction fuel generalizing seen c with
  | zero => cases read
  | succ fuel ih =>
      rw [readItems] at read
      obtain ⟨⟨more, behind⟩, separator, read⟩ := bind_ok read
      have taken := readSeparator_takes separator
      cases more with
      | false =>
          cases read
          refine ⟨seen.reverse, rfl, fun item member => earlier item (List.mem_reverse.mp member),
            ?_, taken⟩
          rw [weightItems_reverse]
          simp only [Bool.false_and, Bool.toNat_false] at taken
          omega
      | true =>
          simp only [Bool.not_true, Bool.false_eq_true, if_false] at read
          obtain ⟨⟨item, further⟩, valued, read⟩ := bind_ok read
          dsimp only at read
          obtain ⟨here, room⟩ := values fuel (Nat.lt_succ_self fuel) _ _ _ valued
          obtain ⟨items, rfl, each, whole, closed⟩ := ih
            (fun less below => values less (Nat.lt_succ_of_lt below))
            (List.forall_mem_cons.mpr ⟨here, earlier⟩) read
          have first := Bool.toNat_le seen.isEmpty
          simp only [weightItems, List.isEmpty_cons, Bool.toNat_false, Bool.true_and] at whole taken
          exact ⟨items, rfl, each, by omega, by omega⟩

/-- The rest of an object, behind the members that were seen. -/
theorem readMembers_reads {fuel depth : Nat} (values : ∀ less < fuel, ReadsValue less depth)
    {first : Bool} {seen : List (String × Json)} {c after : Cursor} {document : Json}
    (keys : Ascending (seen.map (·.1))) (earlier : ∀ member ∈ seen, DocumentRead depth member.2)
    (read : readMembers fuel depth first seen c = .ok (document, after)) :
    ∃ members, document = .object members ∧ Ascending (members.map (·.1)) ∧
      (∀ member ∈ members, DocumentRead depth member.2) ∧
      weightMembers members + 1 + after.rest.length ≤
        weightMembers seen + c.rest.length + first.toNat ∧
      after.rest.length + 1 ≤ c.rest.length := by
  induction fuel generalizing first seen c with
  | zero => cases read
  | succ fuel ih =>
      rw [readMembers] at read
      obtain ⟨⟨more, behind⟩, separator, read⟩ := bind_ok read
      obtain ⟨taken, quote⟩ := moreMembers_takes separator
      cases more with
      | false =>
          cases read
          refine ⟨seen, rfl, keys, earlier, ?_, taken⟩
          simp only [Bool.false_and, Bool.toNat_false] at taken
          omega
      | true =>
          simp only [Bool.not_true, Bool.false_eq_true, if_false] at read
          obtain ⟨⟨key, named⟩, keyed, read⟩ := bind_ok read
          obtain ⟨ahead, colon, read⟩ := bind_ok read
          obtain ⟨⟨value, further⟩, valued, read⟩ := bind_ok read
          dsimp only at colon read
          have keyRoom := readString_takes keyed
          have colonRoom := readColon_takes colon
          obtain ⟨here, room⟩ := values fuel (Nat.lt_succ_self fuel) _ _ _ valued
          have each : ∀ member ∈ insert key value seen, DocumentRead depth member.2 := by
            intro member among
            rcases mem_insert key value seen member among with rfl | old
            · exact here
            · exact earlier member old
          have added := weightMembers_insert key value seen
          obtain ⟨members, rfl, sorted, all, whole, closed⟩ := ih
            (fun less below => values less (Nat.lt_succ_of_lt below))
            (insert_ascending key value seen keys) each read
          have begun := quote rfl
          have once := Bool.toNat_le first
          simp only [weightMember, Bool.toNat_false, Bool.true_and] at added whole taken
          exact ⟨members, rfl, sorted, all, by omega, by omega⟩

/-- A word stands for a document that is written as the word. -/
theorem readWord_reads {word : Bytes} {c behind after : Cursor} {document found : Json}
    {depth : Nat} (read : (readWord word c).map (fun c => (document, c)) = .ok (found, after))
    (legible : Legible document) (flat : document.depth = 0) (deep : 0 < depth)
    (length : document.weight = word.length + 1) (room : c.rest.length + 1 ≤ behind.rest.length) :
    DocumentRead depth found ∧ found.weight + after.rest.length ≤ behind.rest.length := by
  obtain ⟨ahead, word, same⟩ := map_ok read
  cases same
  have taken := readWord_takes _ _ _ word
  exact ⟨.flat legible flat deep, by omega⟩

theorem readValue_reads (fuel depth : Nat) (deep : 0 < depth) : ReadsValue fuel depth := by
  induction fuel using Nat.strong_induction_on generalizing depth with
  | h fuel ih =>
      intro c document after read
      cases fuel with
      | zero => cases read
      | succ fuel =>
          have blank := c.skipBlank_le
          have below (deeper : 0 < depth - 1) : ∀ less < fuel, ReadsValue less (depth - 1) :=
            fun less small => ih less (Nat.lt_succ_of_lt small) (depth - 1) deeper
          rw [readValue] at read
          dsimp only at read
          split at read
          · cases read
          · next octet rest ahead =>
              have next := c.skipBlank.next_lt ahead
              have room : c.skipBlank.next.rest.length + 1 ≤ c.rest.length := next ▸ blank
              split_ifs at read with quote bracket flat brace flat
              · obtain ⟨⟨text, behind⟩, string, same⟩ := map_ok read
                cases same
                have taken := readString_takes string
                refine ⟨.flat (.string text) rfl deep, ?_⟩
                change (Bytes.ofChars (quoted text)).length + behind.rest.length ≤ _
                omega
              · have deeper : 0 < depth - 1 := by omega
                have unread : ∀ item ∈ ([] : List Json), DocumentRead (depth - 1) item :=
                  List.forall_mem_nil _
                obtain ⟨items, rfl, each, whole, closed⟩ := readItems_reads (below deeper) unread read
                have shown := DocumentRead.array each deeper
                rw [Nat.sub_add_cancel deep] at shown
                simp only [weightItems, List.isEmpty_nil, Bool.toNat_true] at whole
                refine ⟨shown, ?_⟩
                rw [weight]
                omega
              · have deeper : 0 < depth - 1 := by omega
                have unread : ∀ member ∈ ([] : List (String × Json)),
                    DocumentRead (depth - 1) member.2 := List.forall_mem_nil _
                have sorted : Ascending (([] : List (String × Json)).map (·.1)) := .nil
                obtain ⟨members, rfl, keys, each, whole, closed⟩ :=
                  readMembers_reads (below deeper) sorted unread read
                have shown := DocumentRead.object keys each deeper
                rw [Nat.sub_add_cancel deep] at shown
                simp only [weightMembers, Bool.toNat_true] at whole
                refine ⟨shown, ?_⟩
                rw [weight]
                omega
              · have number := readNumber_reads read
                have taken := number.weight
                rw [Bool.toNat_true] at taken
                exact ⟨.flat number.legible number.flat deep, taken.trans room⟩
              · have number := readNumber_reads read
                exact ⟨.flat number.legible number.flat deep, number.weight.trans blank⟩
              · exact readWord_reads read .null rfl deep rfl room
              · exact readWord_reads read (.bool true) rfl deep rfl room
              · exact readWord_reads read (.bool false) rfl deep rfl room

/-- Every text that is accepted gives a document that a value may have, no deeper than the reader
opens and no longer than the text. -/
theorem parse_reads {octets : Bytes} {document : Json} (read : parse octets = .ok document) :
    Legible document ∧ document.depth ≤ 127 ∧ document.weight ≤ octets.length := by
  obtain ⟨⟨found, behind⟩, valued, read⟩ := bind_ok read
  obtain ⟨done, -, read⟩ := bind_ok read
  cases read
  obtain ⟨shown, room⟩ := readValue_reads _ depthLimit (by decide) _ _ _ valued
  exact ⟨shown.legible, Nat.le_of_lt_succ shown.shallow, (Nat.le_add_right _ _).trans room⟩

def Integral (document : Json) : Prop := Formed (fun _ => False) (fun _ => True) document

theorem Legible.exact {document : Json} (legible : Legible document)
    (integral : Integral document) : Exact document := by
  induction legible with
  | null => exact .null
  | bool value => exact .bool value
  | int value low high => exact .int value low high
  | float value _ =>
      cases integral with
      | float _ none => cases none
  | string value => exact .string value
  | array items _ ih =>
      cases integral with
      | array _ each => exact .array items fun item member => ih item member (each item member)
  | object members keys _ ih =>
      cases integral with
      | object _ _ each =>
          exact .object members keys fun member among => ih member among (each member among)

theorem length_ofChars_ascii (c : Char) (chars : List Char) (ascii : c.toNat < 128) :
    (Bytes.ofChars (c :: chars)).length = (Bytes.ofChars chars).length + 1 := by
  rw [Bytes.ofChars_ascii c chars ascii, List.length_cons]

theorem length_comma (first : Bool) :
    (Bytes.ofChars (comma first)).length = (!first).toNat := by
  cases first <;> rfl

theorem length_listed (first : Bool) (items : List Json)
    (each : ∀ item ∈ items, (Bytes.ofChars item.print).length = item.weight) :
    (Bytes.ofChars (listed first items)).length = max 1 (weightItems items + (!first).toNat) := by
  induction items generalizing first with
  | nil => cases first <;> rfl
  | cons item rest ih =>
      obtain ⟨here, others⟩ := List.forall_mem_cons.mp each
      have later := ih false others
      rw [Bool.not_false, Bool.toNat_true] at later
      rw [listed, Bytes.ofChars_append, Bytes.ofChars_append, List.length_append,
        List.length_append, length_comma, here, later, weightItems]
      omega

theorem length_listedMembers (first : Bool) (members : List (String × Json))
    (each : ∀ member ∈ members, (Bytes.ofChars member.2.print).length = member.2.weight) :
    (Bytes.ofChars (listedMembers first members)).length =
      max 1 (weightMembers members + (!first).toNat) := by
  induction members generalizing first with
  | nil => cases first <;> rfl
  | cons member rest ih =>
      obtain ⟨key, value⟩ := member
      obtain ⟨here, others⟩ := List.forall_mem_cons.mp each
      have later := ih false others
      dsimp only at here
      rw [Bool.not_false, Bool.toNat_true] at later
      rw [listedMembers, Bytes.ofChars_append, Bytes.ofChars_append, List.length_append,
        List.length_append, length_ofChars_ascii ':' _ (by decide), Bytes.ofChars_append,
        List.length_append, length_comma, here, later, weightMembers]
      omega

/-- A document without doubles is written in the octets that it weighs. -/
theorem Integral.length_text {document : Json} (integral : Integral document) :
    (Bytes.ofString document.text).length = document.weight := by
  rw [text, Bytes.ofString_ofList]
  induction integral with
  | float _ none => cases none
  | array items _ ih =>
      rw [print, length_ofChars_ascii _ _ (by decide), printItems_listed,
        length_listed true items ih, weight, Nat.add_comm]
      rfl
  | object members _ _ ih =>
      rw [print, length_ofChars_ascii _ _ (by decide), printMembers_listed,
        length_listedMembers true members ih, weight, Nat.add_comm]
      rfl
  | _ => rfl

/-- A document without doubles that was read is in order, and is written in no more octets than it
was read from. -/
theorem parse_integral {octets : Bytes} {document : Json} (read : parse octets = .ok document)
    (integral : document.Integral) :
    document.Exact ∧ document.depth ≤ 127 ∧
      (Bytes.ofString document.text).length ≤ octets.length := by
  obtain ⟨legible, shallow, light⟩ := parse_reads read
  exact ⟨legible.exact integral, shallow, integral.length_text ▸ light⟩

end RingCache.Json
