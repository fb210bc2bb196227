import RingCache.Gzip
import RingCache.Proofs.BitStreams
import RingCache.Proofs.DataTokens

/-!
Compressed data decompress to the data. A stream is the words of its tokens in a row, each of which is
read as its token; the range of a length or of a distance is found from its symbol, because every
number up to the greatest is in the range of some symbol.
-/

namespace RingCache.Deflate

/-- Each base is within or next to the range before it, and the last range reaches the limit: no
number from the first base on is left out. -/
def Chained (limit : Nat) : Nat × Nat → List (Nat × Nat) → Prop
  | range, [] => limit < range.1 + Nat.pow 2 range.2
  | range, next :: rest => next.1 ≤ range.1 + Nat.pow 2 range.2 ∧ Chained limit next rest

instance decidableChained (limit : Nat) :
    (range : Nat × Nat) → (rest : List (Nat × Nat)) → Decidable (Chained limit range rest)
  | range, [] => inferInstanceAs (Decidable (limit < range.1 + Nat.pow 2 range.2))
  | range, next :: rest =>
      have := decidableChained limit next rest
      inferInstanceAs (Decidable (next.1 ≤ range.1 + Nat.pow 2 range.2 ∧ Chained limit next rest))

structure InRange (ranges : List (Nat × Nat)) (n : Nat) (found : Nat × Nat × Nat) : Prop where
  range : ranges[found.1]? = some found.2
  above : found.2.1 ≤ n
  below : n - found.2.1 < Nat.pow 2 found.2.2

theorem inRange_foldl (ranges rest : List (Nat × Nat)) (limit n start : Nat)
    (range : Nat × Nat) (found : Nat × Nat × Nat) (suffix : ranges.drop start = rest)
    (chained : Chained limit range rest) (high : n ≤ limit)
    (held : ranges[found.1]? = some found.2) (above : found.2.1 ≤ n)
    (below : n < found.2.1 + Nat.pow 2 found.2.2 ∨ found.2 = range) :
    InRange ranges n ((rest.zipIdx start).foldl
      (fun found ((base, extra), place) => if base ≤ n then (place, base, extra) else found)
      found) := by
  induction rest generalizing start range found with
  | nil =>
      refine ⟨held, above, ?_⟩
      rcases below with inside | same
      · exact Nat.sub_lt_left_of_lt_add above inside
      · rw [Chained, ← same] at chained
        exact Nat.sub_lt_left_of_lt_add above (Nat.lt_of_le_of_lt high chained)
  | cons next rest ih =>
      obtain ⟨near, chained⟩ := chained
      have behind : ranges.drop (start + 1) = rest := by
        rw [← List.drop_drop, suffix, List.drop_one, List.tail_cons]
      rw [List.zipIdx_cons, List.foldl_cons]
      dsimp only
      by_cases reached : next.1 ≤ n
      · rw [if_pos reached]
        apply ih (start + 1) next (start, next.1, next.2) behind chained _ reached (.inr rfl)
        have here := congrArg (fun list => list[0]?) suffix
        simpa using here
      · rw [if_neg reached]
        refine ih (start + 1) next found behind chained held above (.inl ?_)
        -- The number is before the next base, and so in the range that it is not past.
        rcases below with inside | same
        · exact inside
        · rw [same]
          omega

theorem rangeOf_inRange (first : Nat × Nat) (rest : List (Nat × Nat)) (limit n : Nat)
    (chained : Chained limit first rest) (low : first.1 ≤ n) (high : n ≤ limit) :
    InRange (first :: rest) n (rangeOf (first :: rest) n) := by
  rw [rangeOf, List.zipIdx_cons, List.foldl_cons]
  dsimp only
  rw [if_pos low]
  exact inRange_foldl (first :: rest) rest limit n 1 first (0, first.1, first.2) rfl chained high rfl
    low (.inr rfl)

theorem lengthRanges_inRange (length : Nat) (low : leastCopy ≤ length)
    (high : length ≤ greatestCopy) : InRange lengthRanges length (rangeOf lengthRanges length) :=
  rangeOf_inRange (3, 0) _ greatestCopy length (by decide) low high

theorem distanceRanges_inRange (distance : Nat) (low : 1 ≤ distance)
    (high : distance ≤ greatestDistance) :
    InRange distanceRanges distance (rangeOf distanceRanges distance) :=
  rangeOf_inRange (1, 0) _ greatestDistance distance (by decide) low high

theorem bits_reads (width n : Nat) (small : n < Nat.pow 2 width) :
    Reads (bits width) (lowBits width n) n := by
  intro source rest sound ahead
  obtain ⟨after, found, kept, behind⟩ := number_reads width n source rest sound ahead
  rw [Nat.mod_eq_of_lt small] at found
  exact ⟨after, by rw [bits, found], kept, behind⟩

theorem inRange_reads (ranges : List (Nat × Nat)) (n : Nat) (found : Nat × Nat × Nat)
    (inside : InRange ranges n found) :
    Reads (inRange ranges found.1) (lowBits found.2.2 (n - found.2.1)) n := by
  intro source rest sound ahead
  obtain ⟨after, offset, kept, behind⟩ := bits_reads _ _ inside.below source rest sound ahead
  refine ⟨after, ?_, kept, behind⟩
  simp only [inRange, inside.range, offset]
  rw [← Nat.add_sub_of_le inside.above]
  simp [bind, Except.bind, pure, Except.pure]

theorem fixedWord_reads (symbol : Nat) (inside : symbol < 288) :
    Reads fixedTree.decode (fixedWord symbol) symbol :=
  CodeTree.decode_reads _ _ _ (fixedTree_leads symbol inside)

theorem fixedDistanceWord_reads (symbol : Nat) (inside : symbol < 32) :
    Reads fixedDistanceTree.decode (fixedDistanceWord symbol) symbol :=
  CodeTree.decode_reads _ _ _ (fixedDistanceTree_leads symbol inside)

theorem readSymbols_tokens (tokens : List Token) (sound : ∀ token ∈ tokens, token.Sound)
    (out : Array UInt8) (fuel : Nat) (enough : tokens.length < fuel) :
    Reads (readSymbols fixedTree fixedDistanceTree fuel out)
      (tokens.flatMap tokenBits ++ fixedWord endOfBlock) (tokens.foldl expandToken out) := by
  induction tokens generalizing out fuel with
  | nil =>
      obtain ⟨fuel, rfl⟩ := Nat.exists_eq_succ_of_ne_zero (Nat.ne_of_gt enough)
      have last : compare endOfBlock endOfBlock = .eq := Nat.compare_eq_eq.mpr rfl
      rw [List.flatMap_nil, List.nil_append, ← List.append_nil (fixedWord endOfBlock)]
      refine (fixedWord_reads endOfBlock (by decide)).bind ?_
      simp only [last]
      exact Reads.pure out
  | cons token tokens ih =>
      obtain ⟨fuel, rfl⟩ := Nat.exists_eq_succ_of_ne_zero (Nat.ne_of_gt (Nat.zero_lt_of_lt enough))
      rw [List.forall_mem_cons] at sound
      have more : tokens.length < fuel := Nat.lt_of_succ_lt_succ enough
      rw [List.flatMap_cons, List.append_assoc]
      cases token with
      | literal octet =>
          have small : compare octet.toNat endOfBlock = .lt :=
            Nat.compare_eq_lt.mpr octet.toNat_lt
          refine (fixedWord_reads octet.toNat (Nat.lt_trans octet.toNat_lt (by decide))).bind ?_
          simp only [small, UInt8.ofNat_toNat]
          exact ih sound.2 (out.push octet) fuel more
      | copy length distance =>
          obtain ⟨low, high, near, far⟩ := sound.1
          have lengthIn := lengthRanges_inRange length low high
          have distanceIn := distanceRanges_inRange distance near far
          have lengthPlace : (rangeOf lengthRanges length).1 < 29 :=
            (List.getElem?_eq_some_iff.mp lengthIn.range).1
          have distancePlace : (rangeOf distanceRanges distance).1 < 30 :=
            (List.getElem?_eq_some_iff.mp distanceIn.range).1
          have inside : firstLengthSymbol + (rangeOf lengthRanges length).1 < 288 := by
            simp only [firstLengthSymbol]
            omega
          have beyond : compare (firstLengthSymbol + (rangeOf lengthRanges length).1) endOfBlock =
              .gt := by
            apply Nat.compare_eq_gt.mpr
            simp only [firstLengthSymbol, endOfBlock]
            omega
          simp only [tokenBits, List.append_assoc]
          refine (fixedWord_reads _ inside).bind ?_
          simp only [beyond, Nat.add_sub_cancel_left]
          refine (inRange_reads _ _ _ lengthIn).bind ?_
          dsimp only
          refine (fixedDistanceWord_reads _ (Nat.lt_trans distancePlace (by decide))).bind ?_
          refine (inRange_reads _ _ _ distanceIn).bind ?_
          exact ih sound.2 (copyBack distance length out) fuel more

theorem fixedWord_nonempty (symbol : Nat) : 0 < (fixedWord symbol).length := by
  simp only [fixedWord, highBits]
  split
  · simp [lowBits_length]
  · split
    · simp [lowBits_length]
    · split <;> simp [lowBits_length]

theorem tokenBits_length (tokens : List Token) :
    tokens.length ≤ (tokens.flatMap tokenBits).length := by
  induction tokens with
  | nil => exact Nat.le_refl 0
  | cons token tokens ih =>
      have positive : 0 < (tokenBits token).length := by
        cases token with
        | literal octet => exact fixedWord_nonempty octet.toNat
        | copy length distance =>
            have symbol := fixedWord_nonempty (firstLengthSymbol + (rangeOf lengthRanges length).1)
            simp only [tokenBits, List.length_append]
            omega
      rw [List.flatMap_cons, List.length_append, List.length_cons]
      omega

theorem pushTokens_bits (tokens : List Token) (sink : BitSink) (sound : sink.Sound) :
    let pushed := tokens.foldl (fun sink token => sink.pushAll (tokenBits token)) sink
    pushed.Sound ∧ pushed.bits = sink.bits ++ tokens.flatMap tokenBits := by
  induction tokens generalizing sink with
  | nil => exact ⟨sound, (List.append_nil _).symm⟩
  | cons token tokens ih =>
      obtain ⟨kept, pushed⟩ := sink.pushAll_bits sound (tokenBits token)
      obtain ⟨still, all⟩ := ih _ kept
      refine ⟨still, all.trans ?_⟩
      rw [pushed, List.append_assoc, List.flatMap_cons]

theorem compress_bits (data : Bytes) : ∃ padding, padding.length < 8 ∧
    (compress data).flatMap octetBits = fixedHeader ++
      ((tokens data).flatMap tokenBits ++ (fixedWord endOfBlock ++ padding)) := by
  obtain ⟨first, header⟩ := BitSink.empty.pushAll_bits BitSink.empty_sound fixedHeader
  obtain ⟨second, body⟩ := pushTokens_bits (tokens data) _ first
  obtain ⟨third, whole⟩ := BitSink.pushAll_bits _ second (fixedWord endOfBlock)
  obtain ⟨padding, short, finished⟩ := BitSink.finish_bits _ third
  refine ⟨padding, short, finished.trans ?_⟩
  rw [whole, body, header]
  simp [BitSink.bits, BitSink.empty, lowBits]

/-- A stream is read as the data it was made from, and what follows it is left. -/
theorem decompress_compress (data tail : Bytes) :
    decompress (compress data ++ tail) = .ok (data.toArray, tail) := by
  obtain ⟨padding, short, stream⟩ := compress_bits data
  obtain ⟨expanded, sound⟩ := expand_tokens data
  have ahead : (BitSource.ofBytes (compress data ++ tail)).unread = lowBits 1 1 ++ (lowBits 2 1 ++
      ((tokens data).flatMap tokenBits ++ fixedWord endOfBlock ++
        (padding ++ tail.flatMap octetBits))) := by
    rw [BitSource.ofBytes_unread, List.flatMap_append, stream]
    simp only [List.append_assoc]
    rfl
  have good := BitSource.ofBytes_sound (compress data ++ tail)
  rw [decompress]
  generalize BitSource.ofBytes (compress data ++ tail) = source at ahead good
  obtain ⟨first, last, good, ahead⟩ := bits_reads 1 1 (by decide) source _ good ahead
  obtain ⟨second, kind, good, ahead⟩ := bits_reads 2 1 (by decide) first _ good ahead
  have enough : (tokens data).length < second.bound + 1 := by
    have least := tokenBits_length (tokens data)
    have most := congrArg List.length ahead
    rw [BitSource.unread_length, List.length_append, List.length_append] at most
    rw [BitSource.bound]
    omega
  obtain ⟨after, read, good, ahead⟩ :=
    readSymbols_tokens (tokens data) sound #[] _ enough second _ good ahead
  have block : readBlocks (source.bound + 1) #[] source = .ok (data.toArray, after) := by
    rw [expand] at expanded
    simp only [readBlocks, last, kind, read, expanded, bind, Except.bind, if_true]
  have left := after.aligned_unread good padding tail short ahead
  simp only [block, left, bind, Except.bind, pure, Except.pure]

end RingCache.Deflate

namespace RingCache.Gzip

theorem readHeader_header (rest : Bytes) : readHeader (header ++ rest) = .ok rest := rfl

theorem checkTrailer_trailer (data : Bytes) : checkTrailer data (trailer data) = .ok () := by
  have sum := Bytes.ofLittleEndian_littleEndian 4 (checksum data).toNat
  have size := Bytes.ofLittleEndian_littleEndian 4 data.length
  have word : (checksum data).toNat < Nat.pow 256 4 := (checksum data).toNat_lt
  rw [Nat.mod_eq_of_lt word] at sum
  have modulus : Nat.pow 2 32 = Nat.pow 256 4 := rfl
  simp only [Bytes.littleEndian] at sum size
  simp only [trailer, Bytes.littleEndian, List.cons_append, List.nil_append, checkTrailer, sum, size,
    modulus, and_self, if_true]

/-- What was compressed is decompressed again. -/
theorem decompress_compress (data : Bytes) : decompress (compress data) = .ok data := by
  have stream := Deflate.decompress_compress data (trailer data)
  simp only [decompress, compress, List.append_assoc, readHeader_header, stream,
    checkTrailer_trailer, bind, Except.bind, pure, Except.pure]

end RingCache.Gzip
