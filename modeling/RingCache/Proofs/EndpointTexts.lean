import Mathlib.Data.List.Infix
import Mathlib.Data.List.TakeWhile
import RingCache.Cache.Strategy

/-!
Placements in texts. An id in front of an equals sign and an endpoint behind it are read with any
blanks around them, and what is read has no blanks at its ends. But the parts are looked at before
their blanks are taken off, so one of nothing but blanks passes for a part that is there: a text with
such a part, and no other text that shows something, places a node without an id or an endpoint.
-/

namespace RingCache

namespace Text

def Trimmed (chars : List Char) : Prop :=
  (∀ c ∈ chars.head?, isBlank c = false) ∧ ∀ c ∈ chars.getLast?, isBlank c = false

instance (chars : List Char) : Decidable (Trimmed chars) :=
  @instDecidableAnd _ _ (Option.decidableForallMem _) (Option.decidableForallMem _)

def Blank (chars : List Char) : Prop := ∀ c ∈ chars, isBlank c = true

instance (chars : List Char) : Decidable (Blank chars) := List.decidableBAll _ chars

theorem blank_append_iff {front back : List Char} :
    Blank (front ++ back) ↔ Blank front ∧ Blank back := List.forall_mem_append

theorem head?_dropWhile_blank (chars : List Char) :
    ∀ c ∈ (chars.dropWhile isBlank).head?, isBlank c = false := by
  intro c first
  have stops := List.head?_dropWhile_not isBlank chars
  rw [Option.mem_def.mp first] at stops
  exact stops

theorem dropWhile_blanks {front rest : List Char} (blank : Blank front)
    (stops : ∀ c ∈ rest.head?, isBlank c = false) : (front ++ rest).dropWhile isBlank = rest := by
  rw [List.dropWhile_append_of_pos blank]
  cases rest with
  | nil => rfl
  | cons c rest => exact List.dropWhile_cons_of_neg (by rw [stops c rfl]; decide)

theorem trimChars_trimmed (chars : List Char) : Trimmed (trimChars chars) := by
  constructor
  · intro c first
    obtain ⟨rest, shape⟩ := List.head?_eq_some_iff.mp first
    exact head_trimChars_not_blank chars c rest shape
  · rw [trimChars, List.getLast?_reverse]
    exact head?_dropWhile_blank _

theorem trimChars_eq_nil_iff (chars : List Char) :
    trimChars chars = [] ↔ Blank chars := by
  rw [trimChars, List.reverse_eq_nil_iff, List.dropWhile_eq_nil_iff]
  simp only [List.mem_reverse]
  constructor
  · intro behind c member
    rw [← List.takeWhile_append_dropWhile (p := isBlank) (l := chars), List.mem_append] at member
    rcases member with front | back
    · exact List.mem_takeWhile_imp front
    · exact behind c back
  · intro blank c member
    exact blank c ((List.dropWhile_sublist isBlank).subset member)

/-- Blanks around a text without blanks at its ends are taken off again. -/
theorem trimChars_padded {front chars back : List Char} (trimmed : Trimmed chars)
    (shown : chars ≠ []) (blank : Blank (front ++ back)) :
    trimChars (front ++ chars ++ back) = chars := by
  rw [blank_append_iff] at blank
  have first : ∀ c ∈ (chars ++ back).head?, isBlank c = false := by
    rw [List.head?_append_of_ne_nil chars shown]
    exact trimmed.1
  have last : ∀ c ∈ chars.reverse.head?, isBlank c = false := by
    rw [List.head?_reverse]
    exact trimmed.2
  have behind : Blank back.reverse := fun c member => blank.2 c (List.mem_reverse.mp member)
  rw [trimChars, List.append_assoc, dropWhile_blanks blank.1 first, List.reverse_append,
    dropWhile_blanks behind last, List.reverse_reverse]

end Text

namespace Net.Url

theorem hasScheme_iff (chars : List Char) :
    hasScheme chars = true ↔ [':', '/', '/'] <:+: chars := by
  induction chars using hasScheme.induct with
  | case1 rest => simpa [hasScheme] using List.infix_append [] [':', '/', '/'] rest
  | case2 c rest other ih =>
      have here : ¬ [':', '/', '/'] <+: c :: rest := by
        rintro ⟨behind, shape⟩
        injection shape with colon slashes
        exact other behind colon.symm slashes.symm
      rw [hasScheme, ih, List.infix_cons_iff, or_iff_right here]
      exact other
  | case3 => simp [hasScheme]

/-- A word is found no earlier than its first character. -/
theorem infix_behind {first : Char} {word front rest : List Char} (apart : first ∉ front) :
    first :: word <:+: front ++ rest ↔ first :: word <:+: rest := by
  induction front with
  | nil => rfl
  | cons c front ih =>
      rw [List.mem_cons, not_or] at apart
      have here : ¬ first :: word <+: c :: (front ++ rest) :=
        fun starts => apart.1 (List.cons_prefix_cons.mp starts).1
      rw [List.cons_append, List.infix_cons_iff, or_iff_right here, ih apart.2]

theorem hasScheme_padded {front chars back : List Char} (blank : Text.Blank (front ++ back)) :
    hasScheme (front ++ chars ++ back) = hasScheme chars := by
  have colon : ':' ∉ front := fun member =>
    absurd (blank ':' (List.mem_append_left _ member)) (by decide)
  have slash : '/' ∉ back.reverse := fun member =>
    absurd (blank '/' (List.mem_append_right _ (List.mem_reverse.mp member))) (by decide)
  rw [Bool.eq_iff_iff, hasScheme_iff, hasScheme_iff, List.append_assoc, infix_behind colon,
    ← List.reverse_infix, List.reverse_append, ← @List.reverse_infix _ _ chars]
  exact infix_behind slash

end Net.Url

namespace Placement

/-- At the first equals sign of a text there is something on both sides and no scheme in front: the
sign is taken for the mark between an id and an endpoint. -/
structure Divides (text : String) (front behind : List Char) : Prop where
  shape : text.toList = front ++ '=' :: behind
  first : '=' ∉ front
  before : front ≠ []
  after : behind ≠ []
  unschemed : ¬ [':', '/', '/'] <:+: front

variable {text : String} {front behind : List Char}

/-- How a text comes apart at its first equals sign. -/
theorem splits (shape : text.toList = front ++ '=' :: behind) (first : '=' ∉ front) :
    text.toList.takeWhile (· ≠ '=') = front ∧ text.toList.drop (front.length + 1) = behind := by
  have other : ∀ c ∈ front, decide (c ≠ '=') = true := by
    intro c member
    simpa using fun same : c = '=' => first (same ▸ member)
  constructor
  · rw [shape, List.takeWhile_append_of_pos other, List.takeWhile_cons_of_neg (by decide),
      List.append_nil]
  · rw [shape, ← List.drop_drop, List.drop_left]
    rfl

theorem divides_iff (shape : text.toList = front ++ '=' :: behind) (first : '=' ∉ front) :
    Divides text front behind ↔ (front.length < text.toList.length && !front.isEmpty &&
      !Net.Url.hasScheme front && !behind.isEmpty) = true := by
  have inside : front.length < text.toList.length := by
    rw [shape, List.length_append, List.length_cons]
    omega
  simp only [Bool.and_eq_true, Bool.not_eq_true', decide_eq_true_eq, ← Bool.not_eq_true,
    List.isEmpty_iff, Net.Url.hasScheme_iff]
  constructor
  · intro divides
    exact ⟨⟨⟨inside, divides.before⟩, divides.unschemed⟩, divides.after⟩
  · rintro ⟨⟨⟨_, before⟩, unschemed⟩, after⟩
    exact ⟨shape, first, before, after, unschemed⟩

theorem Divides.unique {other rest : List Char} (divides : Divides text front behind)
    (again : Divides text other rest) : front = other ∧ behind = rest := by
  obtain ⟨rfl, dropped⟩ := splits divides.shape divides.first
  obtain ⟨rfl, droppedAgain⟩ := splits again.shape again.first
  exact ⟨rfl, dropped.symm.trans droppedAgain⟩

theorem ofText_divided (divides : Divides text front behind) : ofText text =
    ⟨⟨String.ofList (Text.trimChars front)⟩, String.ofList (Text.trimChars behind)⟩ := by
  obtain ⟨taken, dropped⟩ := splits divides.shape divides.first
  simp only [ofText, taken, dropped]
  exact if_pos ((divides_iff divides.shape divides.first).mp divides)

theorem ofText_undivided (undivided : ∀ front behind, ¬ Divides text front behind) :
    ofText text = ⟨⟨Text.trim text⟩, Text.trim text⟩ := by
  by_cases marked : '=' ∈ text.toList
  · obtain ⟨front, behind, shape, first⟩ := List.eq_append_cons_of_mem marked
    obtain ⟨taken, dropped⟩ := splits shape first
    simp only [ofText, taken, dropped]
    exact if_neg (mt (divides_iff shape first).mpr (undivided front behind))
  · have taken : text.toList.takeWhile (· ≠ '=') = text.toList :=
      List.takeWhile_eq_self_iff.mpr fun c member => by
        simpa using fun same : c = '=' => marked (same ▸ member)
    simp only [ofText, taken, Nat.lt_irrefl, decide_false, Bool.false_and]
    rfl

/-- A text is read as two parts or as a whole. -/
theorem ofText_cases (text : String) :
    (∃ front behind, Divides text front behind ∧ ofText text =
      ⟨⟨String.ofList (Text.trimChars front)⟩, String.ofList (Text.trimChars behind)⟩) ∨
    (∀ front behind, ¬ Divides text front behind) ∧
      ofText text = ⟨⟨Text.trim text⟩, Text.trim text⟩ := by
  by_cases divided : ∃ front behind, Divides text front behind
  · obtain ⟨front, behind, divides⟩ := divided
    exact .inl ⟨front, behind, divides, ofText_divided divides⟩
  · simp only [not_exists] at divided
    exact .inr ⟨divided, ofText_undivided divided⟩

theorem parts_trimmed (text : String) : Text.Trimmed (ofText text).id.name.toList ∧
    Text.Trimmed (ofText text).endpoint.toList := by
  rcases ofText_cases text with ⟨front, behind, _, read⟩ | ⟨_, read⟩
  · rw [read, String.toList_ofList, String.toList_ofList]
    exact ⟨Text.trimChars_trimmed front, Text.trimChars_trimmed behind⟩
  · rw [read, Text.trim, String.toList_ofList]
    exact ⟨Text.trimChars_trimmed _, Text.trimChars_trimmed _⟩

/-- One of the two parts is there, but shows nothing. -/
def HidesPart (text : String) : Prop :=
  ∃ front behind, Divides text front behind ∧ (Text.Blank front ∨ Text.Blank behind)

theorem parts_shown_iff (text : String) :
    ((ofText text).id.name ≠ "" ∧ (ofText text).endpoint ≠ "") ↔
      (∃ c ∈ text.toList, Text.isBlank c = false) ∧ ¬ HidesPart text := by
  have shown (chars : List Char) :
      String.ofList (Text.trimChars chars) ≠ "" ↔ ∃ c ∈ chars, Text.isBlank c = false := by
    rw [ne_eq, String.ofList_eq_empty_iff, Text.trimChars_eq_nil_iff]
    simp [Text.Blank]
  rcases ofText_cases text with ⟨front, behind, divides, read⟩ | ⟨undivided, read⟩
  · rw [read]
    have hides : HidesPart text ↔ Text.Blank front ∨ Text.Blank behind := by
      constructor
      · rintro ⟨other, rest, again, hidden⟩
        obtain ⟨rfl, rfl⟩ := divides.unique again
        exact hidden
      · exact fun hidden => ⟨front, behind, divides, hidden⟩
    rw [shown, shown, hides, not_or]
    simp only [Text.Blank, not_forall, Bool.not_eq_true, exists_prop]
    constructor
    · rintro ⟨⟨c, member, visible⟩, other⟩
      refine ⟨⟨c, ?_, visible⟩, ⟨c, member, visible⟩, other⟩
      rw [divides.shape]
      exact List.mem_append_left _ member
    · exact And.right
  · have whole : ¬ HidesPart text :=
      fun ⟨front, behind, divides, _⟩ => undivided front behind divides
    rw [read, Text.trim, shown, and_self, and_iff_left whole]

/-- An id and an endpoint with an equals sign between them are read, whatever blanks stand around
each. -/
theorem ofText_joined {id endpoint before behind ahead after : String}
    (idTrimmed : Text.Trimmed id.toList) (idShown : id ≠ "") (unmarked : '=' ∉ id.toList)
    (unschemed : ¬ [':', '/', '/'] <:+: id.toList)
    (endpointTrimmed : Text.Trimmed endpoint.toList) (endpointShown : endpoint ≠ "")
    (blank : ∀ pad ∈ [before, behind, ahead, after], Text.Blank pad.toList) :
    ofText (before ++ id ++ behind ++ "=" ++ ahead ++ endpoint ++ after) = ⟨⟨id⟩, endpoint⟩ := by
  simp only [List.forall_mem_cons] at blank
  obtain ⟨blankBefore, blankBehind, blankAhead, blankAfter, _⟩ := blank
  have aroundId := Text.blank_append_iff.mpr ⟨blankBefore, blankBehind⟩
  have aroundEndpoint := Text.blank_append_iff.mpr ⟨blankAhead, blankAfter⟩
  have idChars : id.toList ≠ [] := mt String.toList_eq_nil_iff.mp idShown
  have endpointChars : endpoint.toList ≠ [] := mt String.toList_eq_nil_iff.mp endpointShown
  have divides : Divides (before ++ id ++ behind ++ "=" ++ ahead ++ endpoint ++ after)
      (before.toList ++ id.toList ++ behind.toList)
      (ahead.toList ++ endpoint.toList ++ after.toList) := by
    constructor
    case shape => simp
    case first =>
      have among : '=' ∉ before.toList ++ behind.toList := fun member =>
        absurd (aroundId '=' member) (by decide)
      simp only [List.mem_append, not_or] at among ⊢
      exact ⟨⟨among.1, unmarked⟩, among.2⟩
    case before => simp [idChars]
    case after => simp [endpointChars]
    case unschemed =>
      rwa [← Net.Url.hasScheme_iff, Net.Url.hasScheme_padded aroundId, Net.Url.hasScheme_iff]
  rw [ofText_divided divides, Text.trimChars_padded idTrimmed idChars aroundId,
    Text.trimChars_padded endpointTrimmed endpointChars aroundEndpoint, String.ofList_toList,
    String.ofList_toList]

/-- What is read never has blanks at its ends, and both parts show something just where the text
does and hides no part. Ids and endpoints that are joined are read as they are, with any blanks
around them. -/
theorem ofText_parts (text : String) :
    Text.Trimmed (ofText text).id.name.toList ∧ Text.Trimmed (ofText text).endpoint.toList ∧
      (((ofText text).id.name ≠ "" ∧ (ofText text).endpoint ≠ "") ↔
        (∃ c ∈ text.toList, Text.isBlank c = false) ∧ ¬ HidesPart text) ∧
      ∀ id endpoint before behind ahead after : String,
        Text.Trimmed id.toList → id ≠ "" → '=' ∉ id.toList → ¬ [':', '/', '/'] <:+: id.toList →
        Text.Trimmed endpoint.toList → endpoint ≠ "" →
        (∀ pad ∈ [before, behind, ahead, after], Text.Blank pad.toList) →
        text = before ++ id ++ behind ++ "=" ++ ahead ++ endpoint ++ after →
          ofText text = ⟨⟨id⟩, endpoint⟩ := by
  obtain ⟨idEnds, endpointEnds⟩ := parts_trimmed text
  refine ⟨idEnds, endpointEnds, parts_shown_iff text, ?_⟩
  intro id endpoint before behind ahead after idTrimmed idShown unmarked unschemed endpointTrimmed
    endpointShown blank joined
  rw [joined]
  exact ofText_joined idTrimmed idShown unmarked unschemed endpointTrimmed endpointShown blank

theorem ofText_parts_query :
    let id := "a:/b"
    let endpoint := "http://h/?x=y"
    Text.Trimmed id.toList ∧ id ≠ "" ∧ '=' ∉ id.toList ∧ ¬ [':', '/', '/'] <:+: id.toList ∧
      Text.Trimmed endpoint.toList ∧ endpoint ≠ "" ∧
      (∀ pad ∈ ["\t", " ", "", "\u3000"], Text.Blank pad.toList) ∧
      ofText "\ta:/b =http://h/?x=y\u3000" = ⟨⟨id⟩, endpoint⟩ := by
  intro id endpoint
  have idTrimmed : Text.Trimmed id.toList := by decide
  have unmarked : '=' ∉ id.toList := by decide
  have unschemed : ¬ [':', '/', '/'] <:+: id.toList := by decide
  have endpointTrimmed : Text.Trimmed endpoint.toList := by decide
  have blank : ∀ pad ∈ ["\t", " ", "", "\u3000"], Text.Blank pad.toList := by decide
  exact ⟨idTrimmed, by decide, unmarked, unschemed, endpointTrimmed, by decide, blank,
    (ofText_parts "\ta:/b =http://h/?x=y\u3000").2.2.2 id endpoint "\t" " " "" "\u3000" idTrimmed
      (by decide) unmarked unschemed endpointTrimmed (by decide) blank rfl⟩

/-- A blank in front of the equals sign is taken for an id, and an empty one is read. -/
theorem blank_names_node :
    let text := " =127.0.0.1:7001"
    (∃ c ∈ text.toList, Text.isBlank c = false) ∧ HidesPart text ∧
      ofText text = ⟨⟨""⟩, "127.0.0.1:7001"⟩ := by
  intro text
  have divides : Divides text [' '] "127.0.0.1:7001".toList :=
    ⟨by decide, by decide, by decide, by decide, by decide⟩
  exact ⟨⟨'1', by decide, by decide⟩, ⟨_, _, divides, .inl (by decide)⟩, by decide⟩

-- Without anything in front of the sign, or behind it, the text is an endpoint as a whole.
example : ofText "=b" = ⟨⟨"=b"⟩, "=b"⟩ ∧ ofText "a=" = ⟨⟨"a="⟩, "a="⟩ ∧
    ofText "http://h/?x=y" = ⟨⟨"http://h/?x=y"⟩, "http://h/?x=y"⟩ := by decide

end Placement

end RingCache
