import Mathlib.Data.List.Basic
import RingCache.Command.Arguments

/-!
Command lines as lists of items: flags with their values, and single tokens of no meaning. Reading
takes one item after the other, so it finds each flag where it stands as a flag, and nowhere else. The
last value of a flag counts, and each value of a peer. A flag without its value at the end, and a
question for help where an item could begin, show the usage.
-/

namespace RingCache.Command

inductive Item where
  /-- A flag and the token behind it, which for a bind address has to be one. -/
  | flagged (flag : Flag) (value : String)
      (valid : flag = .bind → (Net.SocketAddress.read value).isSome = true)
  | passed (token : String)
      (plain : token ∉ ["--bind", "--config", "--node-id", "--peer", "--help", "-h"])

namespace Item

def tokens : Item → List String
  | .flagged flag value _ => [flag.text, value]
  | .passed token _ => [token]

def value? (flag : Flag) : Item → Option String
  | .flagged other value _ => if other = flag then some value else none
  | .passed _ _ => none

def values (flag : Flag) (items : List Item) : List String := items.filterMap (value? flag)

def arguments (items : List Item) : Arguments where
  bind := (values .bind items).getLast?.bind Net.SocketAddress.read
  config := (values .config items).getLast?
  nodeId := (values .nodeId items).getLast?
  peers := values .peer items

theorem arguments_passed (items : List Item) (token : String)
    (plain : token ∉ ["--bind", "--config", "--node-id", "--peer", "--help", "-h"]) :
    arguments (items ++ [.passed token plain]) = arguments items := by
  simp [arguments, values, value?]

theorem arguments_flagged (items : List Item) (flag : Flag) (value : String)
    (valid : flag = .bind → (Net.SocketAddress.read value).isSome = true) :
    (arguments items).give flag value = .ok (arguments (items ++ [.flagged flag value valid])) := by
  cases flag with
  | bind =>
      obtain ⟨address, reads⟩ := Option.isSome_iff_exists.mp (valid rfl)
      simp [Arguments.give, arguments, values, value?, reads]
  | config | nodeId | peer => simp [Arguments.give, arguments, values, value?]

end Item

theorem Flag.of?_text (flag : Flag) : Flag.of? flag.text = some flag := by
  cases flag <;> decide

theorem Flag.text_unasked (flag : Flag) : isHelp flag.text = false := by
  cases flag <;> decide

namespace Arguments

variable (arguments : Arguments) (rest : List String)

theorem readFrom_help {token : String} (asks : isHelp token = true) :
    arguments.readFrom (token :: rest) = .error .usage := by
  cases rest with
  | nil => simp [readFrom, asks]
  | cons next rest => simp [readFrom, asks]

theorem readFrom_alone (flag : Flag) : arguments.readFrom [flag.text] = .error .usage := by
  simp [readFrom, flag.of?_text]

theorem readFrom_passed {token : String}
    (plain : token ∉ ["--bind", "--config", "--node-id", "--peer", "--help", "-h"]) :
    arguments.readFrom (token :: rest) = arguments.readFrom rest := by
  simp only [List.mem_cons, List.not_mem_nil, or_false, not_or] at plain
  obtain ⟨bind, config, nodeId, peer, long, short⟩ := plain
  have unasked : isHelp token = false := by simp [isHelp, long, short]
  have unknown : Flag.of? token = none := by
    simp [Flag.of?, Flag.all, Flag.text, Ne.symm bind, Ne.symm config, Ne.symm nodeId, Ne.symm peer]
  cases rest with
  | nil => simp [readFrom, unasked, unknown]
  | cons next rest => simp [readFrom, unasked, unknown]

theorem readFrom_flagged {next : Arguments} (flag : Flag) (value : String)
    (given : arguments.give flag value = .ok next) :
    arguments.readFrom (flag.text :: value :: rest) = next.readFrom rest := by
  simp [readFrom, flag.text_unasked, flag.of?_text, given]

theorem readFrom_item (items : List Item) (item : Item) :
    (Item.arguments items).readFrom (item.tokens ++ rest) =
      (Item.arguments (items ++ [item])).readFrom rest := by
  cases item with
  | flagged flag value valid =>
      exact readFrom_flagged _ rest flag value (Item.arguments_flagged items flag value valid)
  | passed token plain =>
      rw [Item.arguments_passed]
      exact readFrom_passed _ rest plain

theorem readFrom_items (earlier items : List Item) :
    (Item.arguments earlier).readFrom (items.flatMap Item.tokens ++ rest) =
      (Item.arguments (earlier ++ items)).readFrom rest := by
  induction items generalizing earlier with
  | nil => simp
  | cons item items ih =>
      rw [List.flatMap_cons, List.append_assoc, readFrom_item, ih, List.append_assoc,
        List.singleton_append]

theorem read_append (items : List Item) :
    read (items.flatMap Item.tokens ++ rest) = (Item.arguments items).readFrom rest :=
  readFrom_items rest [] items

/-- A command line of items is read as what they ask for; with a flag alone at the end, or with a
question for help and anything behind it, it shows the usage. -/
theorem read_items (items : List Item) :
    read (items.flatMap Item.tokens) = .ok (Item.arguments items) ∧
      (∀ flag : Flag, read (items.flatMap Item.tokens ++ [flag.text]) = .error .usage) ∧
      ∀ rest, read (items.flatMap Item.tokens ++ "--help" :: rest) = .error .usage ∧
        read (items.flatMap Item.tokens ++ "-h" :: rest) = .error .usage := by
  refine ⟨?_, ?_, ?_⟩
  · have whole := read_append [] items
    rwa [List.append_nil] at whole
  · intro flag
    rw [read_append]
    exact readFrom_alone _ flag
  · intro rest
    rw [read_append, read_append]
    exact ⟨readFrom_help _ rest rfl, readFrom_help _ rest rfl⟩

-- Values that look like flags, a token between, and a second address.
example : read ["--peer", "--bind", "x", "--bind", "[::1]:1", "--config", "-h", "--bind",
      "127.0.0.1:7000", "--peer", "b"] =
    .ok ⟨some (.v4 ⟨[127, 0, 0, 1]⟩ 7000), some "-h", none, ["--bind", "b"]⟩ := by decide

end Arguments

end RingCache.Command
