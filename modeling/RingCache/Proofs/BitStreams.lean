import RingCache.Deflate.Huffman

/-!
Bits and octets. A source is the list of the bits that are still to be read, and a sink the list of
the bits that were pushed; a finished sink has these bits, and fewer than eight more, up to the next
octet. Readers in a row read words in a row.
-/

namespace RingCache.Deflate

theorem lowBits_length (width n : Nat) : (lowBits width n).length = width := by
  rw [lowBits, List.length_map, List.length_range]

theorem lowBits_succ (width n : Nat) :
    lowBits (width + 1) n = n.testBit 0 :: lowBits width (n / 2) := by
  rw [lowBits, List.range_succ_eq_map, List.map_cons, List.map_map, lowBits]
  congr 2
  funext place
  exact Nat.testBit_succ n place

theorem lowBits_push (width n : Nat) (bit : Bool) (small : n < Nat.pow 2 width) :
    lowBits (width + 1) (n + bit.toNat * Nat.pow 2 width) = lowBits width n ++ [bit] := by
  have bits := Nat.testBit_two_pow_mul_add bit.toNat small
  rw [Nat.mul_comm, Nat.add_comm] at bits
  rw [lowBits, List.range_succ, List.map_append, lowBits]
  congr 1
  · apply List.map_congr_left
    intro place inside
    exact (bits place).trans (if_pos (List.mem_range.mp inside))
  · have last := bits width
    rw [if_neg (Nat.lt_irrefl width), Nat.sub_self] at last
    cases bit <;> exact congrArg (fun found => [found]) last

def octetBits (octet : UInt8) : List Bool := lowBits 8 octet.toNat

theorem octetBits_ofNat (n : Nat) (small : n < 256) : octetBits (UInt8.ofNat n) = lowBits 8 n := by
  rw [octetBits, UInt8.toNat_ofNat', Nat.mod_eq_of_lt (show n < 2 ^ 8 from small)]

theorem octetBits_inj {left right : UInt8} (same : octetBits left = octetBits right) :
    left = right := by
  apply UInt8.toNat_inj.mp
  apply Nat.eq_of_testBit_eq
  intro place
  by_cases inside : place < 8
  · have bit := congrArg (fun bits => bits[place]?) same
    simpa [octetBits, lowBits, inside] using bit
  · have far : 2 ^ 8 ≤ 2 ^ place := Nat.pow_le_pow_right (by decide) (Nat.not_lt.mp inside)
    rw [Nat.testBit_lt_two_pow (Nat.lt_of_lt_of_le left.toNat_lt far),
      Nat.testBit_lt_two_pow (Nat.lt_of_lt_of_le right.toNat_lt far)]

theorem flatMap_octetBits_length (octets : Bytes) :
    (octets.flatMap octetBits).length = 8 * octets.length := by
  induction octets with
  | nil => rfl
  | cons octet rest ih =>
      rw [List.flatMap_cons, List.length_append, ih, octetBits, lowBits_length, List.length_cons]
      omega

theorem flatMap_octetBits_inj {left right : Bytes}
    (same : left.flatMap octetBits = right.flatMap octetBits) : left = right := by
  induction left generalizing right with
  | nil =>
      have lengths := congrArg List.length same
      rw [flatMap_octetBits_length, flatMap_octetBits_length, List.length_nil] at lengths
      exact (List.eq_nil_of_length_eq_zero (by omega)).symm
  | cons octet rest ih =>
      cases right with
      | nil =>
          have lengths := congrArg List.length same
          rw [flatMap_octetBits_length, flatMap_octetBits_length, List.length_cons] at lengths
          simp at lengths
      | cons other more =>
          obtain ⟨first, others⟩ := List.append_inj same (by simp [octetBits, lowBits_length])
          rw [octetBits_inj first, ih others]

namespace BitSource

def Sound (source : BitSource) : Prop := source.used < 8

def unread (source : BitSource) : List Bool := (source.octets.flatMap octetBits).drop source.used

theorem unread_length (source : BitSource) :
    source.unread.length = 8 * source.octets.length - source.used := by
  rw [unread, List.length_drop, flatMap_octetBits_length]

theorem ofBytes_sound (octets : Bytes) : (ofBytes octets).Sound := Nat.zero_lt_succ 7

theorem ofBytes_unread (octets : Bytes) : (ofBytes octets).unread = octets.flatMap octetBits := rfl

theorem next_unread (source : BitSource) (sound : source.Sound) (bit : Bool) (rest : List Bool)
    (ahead : source.unread = bit :: rest) :
    ∃ after, source.next = some (bit, after) ∧ after.Sound ∧ after.unread = rest := by
  obtain ⟨octets, used⟩ := source
  rw [Sound] at sound
  cases octets with
  | nil => simp [unread] at ahead
  | cons octet more =>
      have long : used < (octetBits octet).length := by rwa [octetBits, lowBits_length]
      have here : (octetBits octet)[used] = octet.toNat.testBit used := by simp [octetBits, lowBits]
      rw [unread, List.flatMap_cons, List.drop_append_of_le_length (Nat.le_of_lt long),
        List.drop_eq_getElem_cons long, here, List.cons_append, List.cons.injEq] at ahead
      obtain ⟨rfl, rfl⟩ := ahead
      refine ⟨_, rfl, ?_⟩
      by_cases last : used ≥ 7
      · have all : (octetBits octet).drop (used + 1) = [] :=
          List.drop_of_length_le (by rw [octetBits, lowBits_length]; omega)
        rw [if_pos last, all]
        exact ⟨ofBytes_sound more, rfl⟩
      · rw [if_neg last]
        refine ⟨Nat.succ_lt_succ (Nat.not_le.mp last), ?_⟩
        rw [unread, List.flatMap_cons, List.drop_append_of_le_length long]

/-- What is left after the bits up to the next octet. -/
theorem aligned_unread (source : BitSource) (sound : source.Sound) (padding : List Bool)
    (tail : Bytes) (short : padding.length < 8)
    (ahead : source.unread = padding ++ tail.flatMap octetBits) : source.aligned = tail := by
  obtain ⟨octets, used⟩ := source
  rw [Sound] at sound
  have lengths := congrArg List.length ahead
  rw [unread_length, List.length_append, flatMap_octetBits_length] at lengths
  dsimp only at lengths sound
  by_cases fresh : used = 0
  · subst fresh
    have unpadded : padding = [] := List.eq_nil_of_length_eq_zero (by omega)
    rw [unpadded, List.nil_append, unread, List.drop_zero] at ahead
    exact flatMap_octetBits_inj ahead
  · rw [aligned, if_neg fresh]
    cases octets with
    | nil =>
        rw [List.length_nil] at lengths
        exact (List.eq_nil_of_length_eq_zero (by omega)).symm
    | cons octet more =>
        rw [List.length_cons] at lengths
        have long : used ≤ (octetBits octet).length := by rw [octetBits, lowBits_length]; omega
        rw [unread, List.flatMap_cons, List.drop_append_of_le_length long] at ahead
        obtain ⟨_, same⟩ := List.append_inj ahead (by
          rw [List.length_drop, octetBits, lowBits_length]
          omega)
        exact flatMap_octetBits_inj same

end BitSource

/-- A reader reads this word as a value, and nothing behind it. -/
def Reads {ε α : Type} (read : BitSource → Except ε (α × BitSource)) (word : List Bool)
    (value : α) : Prop :=
  ∀ source rest, source.Sound → source.unread = word ++ rest →
    ∃ after, read source = .ok (value, after) ∧ after.Sound ∧ after.unread = rest

theorem Reads.pure {ε α : Type} (value : α) :
    Reads (ε := ε) (fun source => .ok (value, source)) [] value :=
  fun source _ sound ahead => ⟨source, rfl, sound, ahead⟩

theorem Reads.bind {ε α β : Type} {read : BitSource → Except ε (α × BitSource)}
    {next : α × BitSource → Except ε (β × BitSource)} {first second : List Bool} {value : α}
    {result : β} (early : Reads read first value)
    (late : Reads (fun source => next (value, source)) second result) :
    Reads (fun source => read source >>= next) (first ++ second) result := by
  intro source rest sound ahead
  rw [List.append_assoc] at ahead
  obtain ⟨between, found, kept, behind⟩ := early source _ sound ahead
  dsimp only
  rw [found]
  exact late between rest kept behind

theorem number_reads (width n : Nat) (source : BitSource) (rest : List Bool) (sound : source.Sound)
    (ahead : source.unread = lowBits width n ++ rest) :
    ∃ after, source.number width = some (n % Nat.pow 2 width, after) ∧ after.Sound ∧
      after.unread = rest := by
  induction width generalizing n source with
  | zero =>
      have nothing : n % Nat.pow 2 0 = 0 := Nat.mod_one n
      exact ⟨source, by rw [BitSource.number, nothing], sound, ahead⟩
  | succ width ih =>
      rw [lowBits_succ, List.cons_append] at ahead
      obtain ⟨between, bit, kept, behind⟩ := source.next_unread sound _ _ ahead
      obtain ⟨after, high, still, left⟩ := ih (n / 2) between kept behind
      refine ⟨after, ?_, still, left⟩
      have whole : (n.testBit 0).toNat + 2 * (n / 2 % Nat.pow 2 width) =
          n % Nat.pow 2 (width + 1) := by
        change _ + 2 * (n / 2 % 2 ^ width) = n % 2 ^ (width + 1)
        rw [Nat.pow_succ', Nat.mod_mul, Nat.toNat_testBit, Nat.pow_zero, Nat.div_one]
      simp only [BitSource.number, bit, high, Option.bind_eq_bind, Option.bind_some, whole]
      rfl

namespace BitSink

structure Sound (sink : BitSink) : Prop where
  used : sink.used < 8
  filling : sink.filling < Nat.pow 2 sink.used

def bits (sink : BitSink) : List Bool :=
  sink.octets.reverse.flatMap octetBits ++ lowBits sink.used sink.filling

theorem empty_sound : empty.Sound := ⟨by decide, by decide⟩

theorem push_bits (sink : BitSink) (sound : sink.Sound) (bit : Bool) :
    (sink.push bit).Sound ∧ (sink.push bit).bits = sink.bits ++ [bit] := by
  obtain ⟨octets, filling, used⟩ := sink
  obtain ⟨inside, small⟩ := sound
  dsimp only at inside small
  have grown : filling + bit.toNat * Nat.pow 2 used < Nat.pow 2 (used + 1) :=
    calc filling + bit.toNat * Nat.pow 2 used
      _ < Nat.pow 2 used + 1 * Nat.pow 2 used :=
          Nat.add_lt_add_of_lt_of_le small (Nat.mul_le_mul_right _ bit.toNat_le)
      _ = Nat.pow 2 (used + 1) := by
          rw [Nat.one_mul, ← Nat.mul_two]
          rfl
  have pushed := lowBits_push used filling bit small
  by_cases last : used ≥ 7
  · have seven : used = 7 := by omega
    subst seven
    have octet := octetBits_ofNat _ grown
    rw [pushed] at octet
    simp only [push, if_pos last]
    refine ⟨⟨Nat.zero_lt_succ 7, Nat.one_pos⟩, ?_⟩
    simp only [bits, List.reverse_cons, List.flatMap_append, List.flatMap_singleton, octet,
      List.append_assoc]
    rfl
  · simp only [push, if_neg last]
    refine ⟨⟨by dsimp only; omega, grown⟩, ?_⟩
    rw [bits, bits, pushed, List.append_assoc]

theorem pushAll_bits (sink : BitSink) (sound : sink.Sound) (word : List Bool) :
    (sink.pushAll word).Sound ∧ (sink.pushAll word).bits = sink.bits ++ word := by
  induction word generalizing sink with
  | nil => exact ⟨sound, (List.append_nil _).symm⟩
  | cons bit word ih =>
      obtain ⟨kept, pushed⟩ := sink.push_bits sound bit
      obtain ⟨still, all⟩ := ih (sink.push bit) kept
      refine ⟨still, all.trans ?_⟩
      rw [pushed, List.append_assoc, List.singleton_append]

theorem finish_bits (sink : BitSink) (sound : sink.Sound) :
    ∃ padding, padding.length < 8 ∧ sink.finish.flatMap octetBits = sink.bits ++ padding := by
  obtain ⟨octets, filling, used⟩ := sink
  obtain ⟨inside, small⟩ := sound
  dsimp only at inside small
  by_cases whole : used = 0
  · refine ⟨[], by decide, ?_⟩
    simp [finish, bits, whole, lowBits]
  · refine ⟨(lowBits 8 filling).drop used, by rw [List.length_drop, lowBits_length]; omega, ?_⟩
    have fits : filling < 2 ^ 8 :=
      Nat.lt_of_lt_of_le small (Nat.pow_le_pow_right (by decide) (Nat.le_of_lt inside))
    have front : lowBits used filling = (lowBits 8 filling).take used := by
      rw [lowBits, lowBits, ← List.map_take, List.take_range, Nat.min_eq_left (Nat.le_of_lt inside)]
    rw [bits, front, List.append_assoc, List.take_append_drop, finish, if_neg whole,
      List.reverse_cons, List.flatMap_append, List.flatMap_singleton, octetBits_ofNat filling fits]

end BitSink

namespace CodeTree

def leads (symbol : Nat) : CodeTree → List Bool → Bool
  | .leaf found, [] => found == symbol
  | .node zero one, bit :: word => if bit then one.leads symbol word else zero.leads symbol word
  | _, _ => false

theorem decode_reads (tree : CodeTree) (symbol : Nat) (word : List Bool)
    (led : tree.leads symbol word = true) : Reads tree.decode word symbol := by
  induction tree generalizing word with
  | empty => simp [leads] at led
  | leaf found =>
      cases word with
      | nil =>
          rw [leads, beq_iff_eq] at led
          subst led
          exact Reads.pure found
      | cons => simp [leads] at led
  | node zero one zeroReads oneReads =>
      cases word with
      | nil => simp [leads] at led
      | cons bit word =>
          intro source rest sound ahead
          obtain ⟨between, found, kept, behind⟩ := source.next_unread sound bit _ ahead
          cases bit with
          | true =>
              simp only [decode, found]
              exact oneReads word led between rest kept behind
          | false =>
              simp only [decode, found]
              exact zeroReads word led between rest kept behind

end CodeTree

theorem fixedTree_leads : ∀ symbol < 288, fixedTree.leads symbol (fixedWord symbol) = true := by
  decide +kernel

theorem fixedDistanceTree_leads :
    ∀ symbol < 32, fixedDistanceTree.leads symbol (fixedDistanceWord symbol) = true := by
  decide +kernel

end RingCache.Deflate
