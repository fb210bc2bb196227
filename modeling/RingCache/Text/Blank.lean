namespace RingCache.Text

/-- The 25 characters of the property White_Space. -/
def isBlank (c : Char) : Bool :=
  let n := c.toNat
  (9 ≤ n && n ≤ 13) || n = 0x20 || n = 0x85 || n = 0xA0 || n = 0x1680 ||
    (0x2000 ≤ n && n ≤ 0x200A) || n = 0x2028 || n = 0x2029 || n = 0x202F || n = 0x205F ||
    n = 0x3000

def trimChars (chars : List Char) : List Char :=
  ((chars.dropWhile isBlank).reverse.dropWhile isBlank).reverse

def trim (text : String) : String := String.ofList (trimChars text.toList)

theorem head_trimChars_not_blank (chars : List Char) (c : Char) (rest : List Char)
    (shape : trimChars chars = c :: rest) : isBlank c = false := by
  have last : ∀ l : List Char, ∀ d ds, l.reverse = d :: ds → l.getLast? = some d := by
    intro l d ds h
    simp [← List.head?_reverse, h]
  have keep : ∀ l : List Char, (l.dropWhile isBlank).getLast? = none ∨
      (l.dropWhile isBlank).getLast? = l.getLast? := by
    intro l
    induction l with
    | nil => exact .inl rfl
    | cons x xs ih =>
        by_cases blank : isBlank x
        · rcases xs with _ | ⟨y, ys⟩
          · exact .inl (by simp [List.dropWhile, blank])
          · simpa [List.dropWhile, blank, List.getLast?_cons_cons] using ih
        · exact .inr (by simp [List.dropWhile, blank])
  have front := last _ _ _ shape
  rcases keep (chars.dropWhile isBlank).reverse with empty | same
  · simp [empty] at front
  · rw [front] at same
    rw [List.getLast?_reverse] at same
    have := List.head?_dropWhile_not isBlank chars
    rw [← same] at this
    simpa using this

end RingCache.Text
