import RingCache.Http.Client
import RingCache.Proofs.PercentText

/-!
Where the requests of a client arrive. A key becomes the last segment of a path, less its tabs and
line ends, and the service reads the segment as the text that was escaped. Two keys have no segment:
their requests go to the path of all entries. And where nothing, a dot or two dots are left of
another key, the path is none that the service has.
-/

namespace RingCache

namespace Net.Url

/-- What is left of a segment when it is pushed onto a path. -/
def sent (segment : String) : String := String.ofList (segment.toList.filter (!isDropped ·))

theorem sent_plain (segment : String) (plain : ∀ c ∈ segment.toList, isDropped c = false) :
    sent segment = segment := by
  have whole : segment.toList.filter (!isDropped ·) = segment.toList :=
    List.filter_eq_self.mpr fun c member => by rw [plain c member]; rfl
  rw [sent, whole, String.ofList_toList]

def escapes (special : Bool) : Char → Bool :=
  if special then specialSegmentEscapes else segmentEscapes

theorem escapeSegment_eq (special : Bool) (segment : String) :
    escapeSegment special segment = percentEncode (escapes special) (sent segment) := by
  cases special <;> rfl

theorem percentDecode_escapeSegment (special : Bool) (segment : String) :
    percentDecode (Bytes.ofString (escapeSegment special segment)) =
      Bytes.ofString (sent segment) := by
  rw [escapeSegment_eq]
  exact percentDecode_percentEncode _ (by cases special <;> rfl) _

/-- What ends a segment or a path is escaped. -/
theorem escapeSegment_spares (special : Bool) (segment : String) (mark : Char)
    (ends : mark = '/' ∨ mark = '?' ∨ mark = '#') :
    mark ∉ (escapeSegment special segment).toList := by
  rw [escapeSegment_eq, percentEncode, String.toList_ofList]
  apply percentEncodeChars_spares
  · rcases ends with rfl | rfl | rfl <;> cases special <;> rfl
  · rcases ends with rfl | rfl | rfl <;> decide
  · rcases ends with rfl | rfl | rfl <;> decide

theorem escapeSegment_eq_empty (special : Bool) (segment : String) :
    escapeSegment special segment = "" ↔ sent segment = "" := by
  constructor
  · intro empty
    have read := percentDecode_escapeSegment special segment
    rw [empty] at read
    exact Bytes.ofString_inj (read.symm.trans (by decide +kernel))
  · intro nothing
    rw [escapeSegment_eq, nothing]
    rfl

theorem toLower_eq {c d : Char} (lower : c.toLower = d) :
    c = d ∨ 65 ≤ c.toNat ∧ c.toNat ≤ 90 ∧ d.toNat = c.toNat + 32 := by
  subst lower
  unfold Char.toLower
  split
  · next upper =>
      have low : 65 ≤ c.toNat := upper.1
      have high : c.toNat ≤ 90 := upper.2
      refine .inr ⟨low, high, ?_⟩
      have sum := UInt32.toNat_add c.val 32
      rw [Nat.mod_eq_of_lt (by change c.toNat + 32 < 2 ^ 32; omega)] at sum
      exact sum
  · exact .inl rfl

/-- Nothing but itself is a mark or a digit in lower case. -/
theorem toLower_mark {c d : Char} (lower : c.toLower = d) (mark : d.toNat < 97) : c = d := by
  rcases toLower_eq lower with same | ⟨low, high, value⟩
  · exact same
  · omega

theorem toLower_e {c : Char} (lower : c.toLower = 'e') : c = 'e' ∨ c = 'E' := by
  rcases toLower_eq lower with same | ⟨low, high, value⟩
  · exact .inl same
  · refine .inr (Char.ext (UInt32.toNat_inj.mp ?_))
    change 101 = c.toNat + 32 at value
    change c.toNat = 69
    omega

/-- The spellings of a text that is `.`, `%2e`, or one of them behind the other. -/
def dotSpellings : List (List Char) := [['.'], ['%', '2', 'e'], ['%', '2', 'E']]

theorem lower_dot {chars rest : List Char} (lower : chars.map Char.toLower = '.' :: rest) :
    ∃ dot ∈ dotSpellings, ∃ behind, chars = dot ++ behind ∧ behind.map Char.toLower = rest := by
  obtain ⟨a, behind, rfl, isDot, same⟩ := List.map_eq_cons_iff.mp lower
  rw [toLower_mark isDot (by decide)]
  exact ⟨['.'], by decide, behind, rfl, same⟩

theorem lower_escape {chars rest : List Char}
    (lower : chars.map Char.toLower = '%' :: '2' :: 'e' :: rest) :
    ∃ dot ∈ dotSpellings, ∃ behind, chars = dot ++ behind ∧ behind.map Char.toLower = rest := by
  obtain ⟨a, chars, rfl, percent, lower⟩ := List.map_eq_cons_iff.mp lower
  obtain ⟨b, chars, rfl, two, lower⟩ := List.map_eq_cons_iff.mp lower
  obtain ⟨c, behind, rfl, last, same⟩ := List.map_eq_cons_iff.mp lower
  rw [toLower_mark percent (by decide), toLower_mark two (by decide)]
  rcases toLower_e last with rfl | rfl
  · exact ⟨['%', '2', 'e'], by decide, behind, rfl, same⟩
  · exact ⟨['%', '2', 'E'], by decide, behind, rfl, same⟩

theorem toList_of_toLower {text lower : String} (same : text.toLower = lower) :
    text.toList.map Char.toLower = lower.toList := by
  rw [← same]
  exact String.toList_map.symm

theorem decode_dots : ∀ first ∈ dotSpellings, ∀ second ∈ [] :: dotSpellings,
    percentDecode (Bytes.ofString (String.ofList (first ++ second))) =
      Bytes.ofString (if second = [] then "." else "..") := by
  decide +kernel

-- A segment stands for dots only if it is a spelling of them.
theorem decode_singleDot {segment : String} (dot : isSingleDot segment = true) :
    percentDecode (Bytes.ofString segment) = Bytes.ofString "." := by
  have spelled : ∃ dot ∈ dotSpellings, segment.toList = dot := by
    simp only [isSingleDot, Bool.or_eq_true, decide_eq_true_eq] at dot
    rcases dot with rfl | lower
    · exact ⟨['.'], by decide, rfl⟩
    · obtain ⟨dot, among, behind, same, nothing⟩ := lower_escape (toList_of_toLower lower)
      rw [List.map_eq_nil_iff.mp nothing, List.append_nil] at same
      exact ⟨dot, among, same⟩
  obtain ⟨dot, among, same⟩ := spelled
  have read := decode_dots dot among [] (by decide)
  rw [List.append_nil, ← same, String.ofList_toList] at read
  exact read

theorem decode_doubleDot {segment : String} (dots : isDoubleDot segment = true) :
    percentDecode (Bytes.ofString segment) = Bytes.ofString ".." := by
  have spelled : ∃ first ∈ dotSpellings, ∃ second ∈ dotSpellings,
      segment.toList = first ++ second := by
    have front : ∃ first ∈ dotSpellings, ∃ behind, segment.toList = first ++ behind ∧
        (behind.map Char.toLower = ['.'] ∨ behind.map Char.toLower = ['%', '2', 'e']) := by
      simp only [isDoubleDot, List.contains_iff_mem, List.mem_cons, List.not_mem_nil,
        or_false] at dots
      rcases dots with lower | lower | lower | lower
      · obtain ⟨dot, among, behind, same, rest⟩ := lower_dot (toList_of_toLower lower)
        exact ⟨dot, among, behind, same, .inl rest⟩
      · obtain ⟨dot, among, behind, same, rest⟩ := lower_dot (toList_of_toLower lower)
        exact ⟨dot, among, behind, same, .inr rest⟩
      · obtain ⟨dot, among, behind, same, rest⟩ := lower_escape (toList_of_toLower lower)
        exact ⟨dot, among, behind, same, .inl rest⟩
      · obtain ⟨dot, among, behind, same, rest⟩ := lower_escape (toList_of_toLower lower)
        exact ⟨dot, among, behind, same, .inr rest⟩
    obtain ⟨first, among, behind, same, back⟩ := front
    have second : ∃ second ∈ dotSpellings, behind = second := by
      rcases back with dot | escape
      · obtain ⟨second, there, last, whole, nothing⟩ := lower_dot dot
        rw [List.map_eq_nil_iff.mp nothing, List.append_nil] at whole
        exact ⟨second, there, whole⟩
      · obtain ⟨second, there, last, whole, nothing⟩ := lower_escape escape
        rw [List.map_eq_nil_iff.mp nothing, List.append_nil] at whole
        exact ⟨second, there, whole⟩
    obtain ⟨second, there, rfl⟩ := second
    exact ⟨first, among, behind, there, same⟩
  obtain ⟨first, among, second, there, same⟩ := spelled
  have read := decode_dots first among second (List.mem_cons_of_mem _ there)
  have more : second ≠ [] := by
    rintro rfl
    revert there
    decide
  rw [← same, String.ofList_toList, if_neg more] at read
  exact read

theorem isSingleDot_escapeSegment (special : Bool) (segment : String) :
    isSingleDot (escapeSegment special segment) = true ↔ sent segment = "." := by
  constructor
  · intro dot
    have read := percentDecode_escapeSegment special segment
    exact Bytes.ofString_inj (read.symm.trans (decode_singleDot dot))
  · intro dot
    rw [escapeSegment_eq, dot]
    cases special <;> decide +kernel

theorem isDoubleDot_escapeSegment (special : Bool) (segment : String) :
    isDoubleDot (escapeSegment special segment) = true ↔ sent segment = ".." := by
  constructor
  · intro dots
    have read := percentDecode_escapeSegment special segment
    exact Bytes.ofString_inj (read.symm.trans (decode_doubleDot dots))
  · intro dots
    rw [escapeSegment_eq, dots]
    cases special <;> decide +kernel

theorem pushSegment_some (special : Bool) (path : List String) (segment : String)
    (filled : path ≠ [""]) :
    pushSegment special path segment =
      if segment = "." ∨ segment = ".." then path
      else if sent segment = ".." then path.dropLast ++ [""]
      else if sent segment = "." then path ++ [""]
      else path ++ [escapeSegment special segment] := by
  simp only [pushSegment, if_neg filled, pathStep, isSingleDot_escapeSegment,
    isDoubleDot_escapeSegment, if_true]

theorem mem_pushSegment (special : Bool) (path : List String) (segment other : String)
    (filled : path ≠ [""]) (member : other ∈ pushSegment special path segment) :
    other ∈ path ∨ other = "" ∨ other = escapeSegment special segment := by
  rw [pushSegment_some special path segment filled] at member
  split at member
  · exact .inl member
  · split at member
    · exact (List.mem_append.mp member).imp (List.dropLast_subset _ ·)
        fun last => .inl (List.mem_singleton.mp last)
    · split at member
      · exact (List.mem_append.mp member).imp_right fun last => .inl (List.mem_singleton.mp last)
      · exact (List.mem_append.mp member).imp_right fun last => .inr (List.mem_singleton.mp last)

theorem toList_pathText (path : List String) :
    (pathText (.segments path)).toList = path.flatMap fun segment => '/' :: segment.toList := by
  simp only [pathText, String.toList_join, List.flatMap_map, String.toList_append]
  rfl

end Net.Url

namespace Http

open Net.Url (sent escapeSegment)

/-- A path without the marks behind which paths end is the path of its target. -/
theorem Client.pathOf_target (url : Net.Url) (path : List String)
    (segments : url.path = .segments path)
    (spared : ∀ segment ∈ path, '?' ∉ segment.toList ∧ '#' ∉ segment.toList) :
    pathOf (target url) = path.flatMap fun segment => '/' :: segment.toList := by
  have inside : ∀ c ∈ path.flatMap (fun segment => '/' :: segment.toList),
      (c ≠ '?' && c ≠ '#') = true := by
    intro c member
    obtain ⟨segment, among, here⟩ := List.mem_flatMap.mp member
    rcases List.mem_cons.mp here with rfl | here
    · rfl
    · have apart := spared segment among
      have question : c ≠ '?' := fun same => apart.1 (same ▸ here)
      have hash : c ≠ '#' := fun same => apart.2 (same ▸ here)
      simp [question, hash]
  rw [pathOf, target, segments, String.toList_append, Net.Url.toList_pathText,
    List.takeWhile_append_of_pos inside]
  cases url.query with
  | none => simp
  | some query => simp

structure Client.Direct (client : Client) : Prop where
  sendable : isSendable client.base = true
  root : ∃ path, client.base.path = .segments path ∧ Net.Url.popEmpty path = [""]
  attempts : 0 < client.attempts

theorem Client.new_direct {endpoint : String} {timeout : Time.Span} {attempts : Nat}
    {client : Client} (made : new endpoint timeout attempts = .ok client)
    (sendable : isSendable client.base = true)
    (root : ∃ path, client.base.path = .segments path ∧ Net.Url.popEmpty path = [""]) :
    client.Direct := by
  refine ⟨sendable, root, ?_⟩
  unfold new at made
  split at made
  · cases made
  · split at made
    · cases made
      exact Nat.lt_of_lt_of_le Nat.one_pos (Nat.le_max_right _ _)
    · cases made

def rootClient : Client :=
  ⟨⟨"http", some "[::1]", some 7, .segments [""], none, none⟩, "http://[::1]:7", ⟨1, 0⟩, 1⟩

theorem rootClient_direct : rootClient.Direct := by
  have made : Client.new "http://[::1]:7" ⟨1, 0⟩ 0 = .ok rootClient := rfl
  exact Client.new_direct made (by decide) ⟨[""], rfl, by decide⟩

def Client.entrySegments : Option String → List String
  | none => ["internal", "entry"]
  | some key => Net.Url.pushSegment true ["internal", "entry"] key

namespace Client.Direct

variable {client : Client} (direct : client.Direct)

include direct

theorem special : Net.Url.isSpecial client.base.scheme = true := by
  have sendable := direct.sendable
  simp only [isSendable, Bool.or_eq_true, decide_eq_true_eq] at sendable
  rcases sendable with scheme | scheme <;> rw [scheme] <;> decide

theorem entryUrl_sendable (key : Option String) : isSendable (client.entryUrl key) = true := by
  obtain ⟨path, root, _⟩ := direct.root
  rw [← direct.sendable, entryUrl, url, Net.Url.extend, root]
  rfl

theorem entryUrl_path (key : Option String) :
    (client.entryUrl key).path = .segments (entrySegments key) := by
  obtain ⟨path, root, popped⟩ := direct.root
  have fixed : ((Net.Url.splitOnChar '/' NodeService.entryPath.toList).map String.ofList).filter
      (· ≠ "") = ["internal", "entry"] := by decide
  have front : ["internal", "entry"].foldl (Net.Url.pushSegment true) [""] =
      ["internal", "entry"] := by decide +kernel
  rw [entryUrl, url, fixed, Net.Url.extend, root, direct.special]
  simp only [popped, List.foldl_append, front]
  cases key <;> rfl

end Client.Direct

theorem parameter?_segment (front raw : String) (filled : raw ≠ "") (one : '/' ∉ raw.toList) :
    parameter? front (front.toList ++ '/' :: raw.toList) = some raw := by
  have split : front.toList ++ '/' :: raw.toList = (front.toList ++ ['/']) ++ raw.toList := by simp
  have full : raw.toList.isEmpty = false := by
    rw [List.isEmpty_eq_false_iff]
    exact fun empty => filled (String.toList_eq_nil_iff.mp empty)
  have single : raw.toList.contains '/' = false := by simpa using one
  rw [parameter?, split]
  simp only [List.isPrefixOf_iff_prefix.mpr (List.prefix_append ..), List.drop_left, full, single,
    if_true, Bool.or_self, Bool.false_eq_true, if_false, String.ofList_toList]

namespace NodeService

variable (id : NodeId) {request : Request} (table : Table Bytes)

theorem handle_everything (path : pathOf request.target = entryPath.toList) :
    handle id request table =
      if request.method = "DELETE" then (.plain 204, .empty)
      else (.methodNotAllowed "DELETE", table) := by
  rw [handle, path, if_pos rfl]

theorem handle_nothing (path : pathOf request.target = "/internal/entry/".toList ∨
    pathOf request.target = "/internal/".toList) :
    handle id request table = (.plain 404, table) := by
  rcases path with path | path <;> rw [handle, path] <;> rfl

theorem handle_entry (raw : String) (filled : raw ≠ "") (one : '/' ∉ raw.toList)
    (path : pathOf request.target = entryPath.toList ++ '/' :: raw.toList) :
    handle id request table = entry raw request table := by
  have all : entryPath.toList ++ '/' :: raw.toList ≠ entryPath.toList := by simp
  have health : entryPath.toList ++ '/' :: raw.toList ≠ healthPath.toList := by
    intro same
    have second := congrArg (fun path : List Char => path[1]?) same
    revert second
    simp [entryPath, healthPath]
  rw [handle, path, parameter?_segment entryPath raw filled one]
  simp only [if_neg all, if_neg health]

end NodeService

inductive Arrival where
  | everything
  | nothing
  | entry (key : String)
  deriving DecidableEq

def arrival (key : String) : Arrival :=
  if key = "." ∨ key = ".." then .everything
  else if sent key = "" ∨ sent key = "." ∨ sent key = ".." then .nothing
  else .entry (sent key)

theorem arrival_plain (key : String) (keyed : key ≠ "") (dot : key ≠ ".") (dots : key ≠ "..")
    (plain : ∀ c ∈ key.toList, Net.Url.isDropped c = false) : arrival key = .entry key := by
  simp [arrival, Net.Url.sent_plain key plain, keyed, dot, dots]

theorem readParameter_escapeSegment (special : Bool) (key : String) :
    readParameter NodeService.parameterName (escapeSegment special key) = .ok (sent key) := by
  rw [readParameter, Net.Url.percentDecode_escapeSegment, Utf8.decode_ofString]

namespace Client

variable {client : Client} (direct : client.Direct)

include direct

theorem Direct.pathOf_entryUrl (key : Option String) :
    pathOf (target (client.entryUrl key)) =
      (entrySegments key).flatMap fun segment => '/' :: segment.toList := by
  refine pathOf_target _ _ (direct.entryUrl_path key) fun segment member => ?_
  have fixed : ∀ segment ∈ ["internal", "entry", ""],
      '?' ∉ segment.toList ∧ '#' ∉ segment.toList := by decide
  cases key with
  | none => exact fixed segment (List.mem_append_left [""] member)
  | some key =>
      have escaped := Net.Url.escapeSegment_spares true key
      rcases Net.Url.mem_pushSegment true ["internal", "entry"] key segment (by decide) member with
        front | rfl | rfl
      · exact fixed segment (List.mem_append_left [""] front)
      · exact fixed "" (by decide)
      · exact ⟨escaped '?' (by decide), escaped '#' (by decide)⟩

/-- What the service does with a request about a key. -/
theorem Direct.handle_entryUrl (id : NodeId) (key method : String) (contentType : Option Bytes)
    (body : Bytes) (table : Table Bytes) :
    let request : Request := ⟨method, target (client.entryUrl (some key)), contentType, body⟩
    NodeService.handle id request table =
      match arrival key with
      | .everything =>
          if method = "DELETE" then (.plain 204, .empty)
          else (.methodNotAllowed "DELETE", table)
      | .nothing => (.plain 404, table)
      | .entry _ => NodeService.entry (escapeSegment true key) request table := by
  have path := direct.pathOf_entryUrl (some key)
  rw [entrySegments, Net.Url.pushSegment_some _ _ _ (by decide)] at path
  by_cases dots : key = "." ∨ key = ".."
  · rw [if_pos dots] at path
    rw [arrival, if_pos dots]
    exact NodeService.handle_everything id table path
  · rw [if_neg dots] at path
    rw [arrival, if_neg dots]
    by_cases up : sent key = ".."
    · rw [if_pos up] at path
      rw [if_pos (.inr (.inr up))]
      exact NodeService.handle_nothing id table (.inr path)
    · rw [if_neg up] at path
      by_cases here : sent key = "."
      · rw [if_pos here] at path
        rw [if_pos (.inr (.inl here))]
        exact NodeService.handle_nothing id table (.inl path)
      · rw [if_neg here] at path
        by_cases empty : sent key = ""
        · rw [(Net.Url.escapeSegment_eq_empty true key).mpr empty] at path
          rw [if_pos (.inl empty)]
          exact NodeService.handle_nothing id table (.inl path)
        · rw [if_neg (by simp [empty, here, up])]
          refine NodeService.handle_entry id table _ ?_ ?_ ?_
          · exact fun blank => empty ((Net.Url.escapeSegment_eq_empty true key).mp blank)
          · exact Net.Url.escapeSegment_spares true key '/' (.inl rfl)
          · rw [path, List.flatMap_append, List.flatMap_singleton]
            rfl

end Client

end Http

end RingCache
