import RingCache.Deflate.Token

/-!
Splitting data into tokens and expanding them. A proposed place counts only as far as the octets
there agree with those that follow, so the tokens expand to the data whatever places were recorded.
-/

namespace RingCache.Deflate

def Token.Sound : Token → Prop
  | .literal _ => True
  | .copy length distance => leastCopy ≤ length ∧ length ≤ greatestCopy ∧
      1 ≤ distance ∧ distance ≤ greatestDistance

variable (data : Array UInt8)

theorem extract_push (here : Nat) (inside : here < data.size) :
    (data.extract 0 here).push (data.getD here 0) = data.extract 0 (here + 1) := by
  rw [Array.getD_eq_getD_getElem?, Array.getElem?_eq_getElem inside, Option.getD_some,
    Array.push_extract_getElem inside, Nat.zero_min]

theorem octetBack_extract (here distance : Nat) (back : 1 ≤ distance) (within : distance ≤ here)
    (inside : here ≤ data.size) :
    octetBack distance (data.extract 0 here) = data.getD (here - distance) 0 := by
  have size : (data.extract 0 here).size = here := by
    rw [Array.size_extract, Nat.min_eq_left inside, Nat.sub_zero]
  have early : here - distance < min here data.size - 0 := by omega
  rw [octetBack, size, if_pos within, Array.getD_eq_getD_getElem?, Array.getElem?_extract,
    if_pos early, Nat.zero_add, Array.getD_eq_getD_getElem?]

theorem agreement_agrees (here there limit : Nat) :
    agreement data here there limit ≤ limit ∧
      ∀ step < agreement data here there limit, here + step < data.size ∧
        data.getD (here + step) 0 = data.getD (there + step) 0 := by
  induction limit generalizing here there with
  | zero => exact ⟨Nat.le_refl 0, nofun⟩
  | succ limit ih =>
      rw [agreement]
      split
      · next agrees =>
          obtain ⟨most, later⟩ := ih (here + 1) (there + 1)
          refine ⟨by omega, ?_⟩
          intro step early
          cases step with
          | zero => exact agrees
          | succ step =>
              have next := later step (by omega)
              rwa [Nat.succ_add_eq_add_succ, Nat.succ_add_eq_add_succ] at next
      · exact ⟨Nat.zero_le _, nofun⟩

/-- A copy of octets that agree gives the octets that follow. -/
theorem copyBack_extract (distance length here : Nat) (back : 1 ≤ distance)
    (within : distance ≤ here) (agrees : ∀ step < length, here + step < data.size ∧
      data.getD (here + step) 0 = data.getD (here - distance + step) 0) :
    copyBack distance length (data.extract 0 here) = data.extract 0 (here + length) := by
  induction length generalizing here with
  | zero => rfl
  | succ length ih =>
      obtain ⟨inside, same⟩ := agrees 0 (Nat.zero_lt_succ length)
      rw [Nat.add_zero] at inside
      rw [Nat.add_zero, Nat.add_zero] at same
      rw [copyBack, octetBack_extract data here distance back within (Nat.le_of_lt inside), ← same,
        extract_push data here inside, ih (here + 1) (Nat.le_succ_of_le within), Nat.add_assoc,
        Nat.add_comm 1]
      intro step early
      have next := agrees (step + 1) (Nat.succ_lt_succ early)
      have shifted : here + 1 - distance + step = here - distance + (step + 1) := by omega
      rwa [shifted, Nat.add_assoc here 1, Nat.add_comm 1]

theorem copyAt_copies (places : Places) (here length distance : Nat)
    (found : copyAt data places here = some (length, distance)) :
    (Token.copy length distance).Sound ∧ here + length ≤ data.size ∧
      copyBack distance length (data.extract 0 here) = data.extract 0 (here + length) := by
  unfold copyAt at found
  split at found
  · contradiction
  · next there _ =>
      dsimp only at found
      split at found
      · next placed =>
          obtain ⟨most, agrees⟩ := agreement_agrees data here there greatestCopy
          split at found
          · next long =>
              cases found
              have three : 3 ≤ agreement data here there greatestCopy := long
              obtain ⟨last, _⟩ := agrees (agreement data here there greatestCopy - 1) (by omega)
              refine ⟨⟨long, most, by omega, placed.2⟩, by omega, ?_⟩
              apply copyBack_extract data _ _ here (by omega) (by omega)
              have back : here - (here - there) = there := by omega
              rw [back]
              exact agrees
          · contradiction
      · contradiction

theorem expand_reverse_cons (token : Token) (taken : List Token) :
    expand (token :: taken).reverse = expandToken (expand taken.reverse) token := by
  rw [List.reverse_cons, expand, List.foldl_append]
  rfl

/-- The tokens that are taken expand to the data before this place. -/
theorem tokensFrom_expand (places : Places) (here : Nat) (taken : List Token) (fuel : Nat)
    (inside : here ≤ data.size) (enough : data.size ≤ here + fuel)
    (expanded : expand taken.reverse = data.extract 0 here) (sound : ∀ token ∈ taken, token.Sound) :
    expand (tokensFrom data places here taken fuel) = data ∧
      ∀ token ∈ tokensFrom data places here taken fuel, token.Sound := by
  have done : ∀ (here : Nat) (taken : List Token), here ≤ data.size → data.size ≤ here →
      expand taken.reverse = data.extract 0 here → (∀ token ∈ taken, token.Sound) →
        expand taken.reverse = data ∧ ∀ token ∈ taken.reverse, token.Sound := by
    intro here taken inside last expanded sound
    rw [expanded, Nat.le_antisymm inside last, Array.extract_size]
    exact ⟨rfl, fun token member => sound token (List.mem_reverse.mp member)⟩
  induction fuel generalizing places here taken with
  | zero => exact done here taken inside enough expanded sound
  | succ fuel ih =>
      rw [tokensFrom]
      by_cases more : here < data.size
      · rw [if_pos more]
        cases found : copyAt data places here with
        | none =>
            apply ih _ (here + 1) _ more (by omega)
            · rw [expand_reverse_cons, expanded]
              exact extract_push data here more
            · exact List.forall_mem_cons.mpr ⟨trivial, sound⟩
        | some copy =>
            obtain ⟨length, distance⟩ := copy
            obtain ⟨fits, within, copied⟩ := copyAt_copies data places here length distance found
            have long : 3 ≤ length := fits.1
            apply ih _ (here + length) _ within (by omega)
            · rw [expand_reverse_cons, expanded]
              exact copied
            · exact List.forall_mem_cons.mpr ⟨fits, sound⟩
      · rw [if_neg more]
        exact done here taken inside (Nat.not_lt.mp more) expanded sound

/-- The tokens of data expand to the data, and a stream can carry all of them. -/
theorem expand_tokens (data : Bytes) :
    expand (tokens data) = data.toArray ∧ ∀ token ∈ tokens data, token.Sound :=
  tokensFrom_expand data.toArray ∅ 0 [] data.toArray.size (Nat.zero_le _) (by omega)
    (by simp [expand]) nofun

end RingCache.Deflate
