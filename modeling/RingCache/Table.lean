/-!
Finite maps from texts. The view of a table is `get?`; the keys of the entries are distinct in every
table that the operations build.
-/

namespace RingCache

structure Table (α : Type) where
  entries : List (String × α)
  deriving Repr, Inhabited

namespace Table

variable {α : Type}

def empty : Table α := ⟨[]⟩

def get? (table : Table α) (key : String) : Option α :=
  (table.entries.find? fun entry => entry.1 == key).map (·.2)

def contains (table : Table α) (key : String) : Bool := (table.get? key).isSome

def erase (table : Table α) (key : String) : Table α :=
  ⟨table.entries.filter fun entry => entry.1 != key⟩

def insert (table : Table α) (key : String) (value : α) : Table α :=
  ⟨(key, value) :: (table.erase key).entries⟩

def filter (keep : α → Bool) (table : Table α) : Table α :=
  ⟨table.entries.filter fun entry => keep entry.2⟩

def eraseIf (test : α → Bool) (table : Table α) (key : String) : Table α :=
  match table.get? key with
  | some value => if test value then table.erase key else table
  | none => table

def size (table : Table α) : Nat := table.entries.length

def isEmpty (table : Table α) : Bool := table.entries.isEmpty

def keys (table : Table α) : List String := table.entries.map (·.1)

@[simp] theorem get?_empty (key : String) : (empty : Table α).get? key = none := rfl

theorem eq_empty_iff (table : Table α) : table = .empty ↔ ∀ key, table.get? key = none := by
  constructor
  · rintro rfl key
    rfl
  · intro nothing
    obtain ⟨entries⟩ := table
    cases entries with
    | nil => rfl
    | cons first rest => simpa [get?] using nothing first.1

theorem get?_erase (table : Table α) (key other : String) :
    (table.erase key).get? other = if other = key then none else table.get? other := by
  obtain ⟨entries⟩ := table
  induction entries with
  | nil => simp [get?, erase]
  | cons entry rest ih =>
      simp only [get?, erase, List.filter_cons, List.find?_cons] at ih ⊢
      by_cases same : entry.1 = key <;> by_cases hit : entry.1 = other <;> grind

theorem get?_insert (table : Table α) (key other : String) (value : α) :
    (table.insert key value).get? other = if other = key then some value else table.get? other := by
  have erased := get?_erase table key other
  simp only [get?, insert, List.find?_cons] at erased ⊢
  by_cases same : key = other
  · simp [same]
  · rw [beq_false_of_ne same, erased, if_neg (Ne.symm same), if_neg (Ne.symm same)]

theorem get?_eraseIf (table : Table α) (test : α → Bool) (key other : String) :
    (table.eraseIf test key).get? other =
      if other = key then (table.get? key).filter fun value => !test value
      else table.get? other := by
  unfold eraseIf
  cases held : table.get? key with
  | none =>
      by_cases same : other = key
      · simp [same, held]
      · simp [same]
  | some value =>
      by_cases same : other = key <;> cases passes : test value <;>
        simp [same, passes, held, get?_erase, Option.filter]

def Distinct (table : Table α) : Prop := table.keys.Nodup

theorem empty_distinct : (empty : Table α).Distinct := List.nodup_nil

theorem filtered_distinct {table : Table α} (distinct : table.Distinct)
    (keep : String × α → Bool) : Distinct ⟨table.entries.filter keep⟩ :=
  distinct.sublist (List.filter_sublist.map _)

theorem erase_distinct {table : Table α} (distinct : table.Distinct) (key : String) :
    (table.erase key).Distinct := filtered_distinct distinct _

theorem filter_distinct {table : Table α} (distinct : table.Distinct) (keep : α → Bool) :
    (table.filter keep).Distinct := filtered_distinct distinct _

theorem eraseIf_distinct {table : Table α} (distinct : table.Distinct) (test : α → Bool)
    (key : String) : (table.eraseIf test key).Distinct := by
  unfold eraseIf
  split
  · split
    · exact erase_distinct distinct key
    · exact distinct
  · exact distinct

theorem insert_distinct {table : Table α} (distinct : table.Distinct) (key : String)
    (value : α) : (table.insert key value).Distinct := by
  refine List.nodup_cons.mpr ⟨?_, erase_distinct distinct key⟩
  simp [erase]

theorem get?_filter {table : Table α} (distinct : table.Distinct) (keep : α → Bool)
    (key : String) : (table.filter keep).get? key = (table.get? key).filter keep := by
  obtain ⟨entries⟩ := table
  induction entries with
  | nil => rfl
  | cons entry rest ih =>
      obtain ⟨fresh, distinctRest⟩ := List.nodup_cons.mp distinct
      have tail := ih distinctRest
      simp only [get?, filter, List.filter_cons, List.find?_cons] at tail ⊢
      by_cases hit : entry.1 = key
      · -- The key is nowhere else, so an entry that is dropped leaves nothing behind.
        have absent : (rest.filter fun other => keep other.2).find? (·.1 == key) = none := by
          rw [List.find?_eq_none]
          intro other member same
          have named : other.1 = entry.1 := (beq_iff_eq.mp same).trans hit.symm
          exact fresh (List.mem_map.mpr ⟨other, (List.mem_filter.mp member).1, named⟩)
        cases passes : keep entry.2 <;> simp [hit, passes, absent, Option.filter]
      · cases passes : keep entry.2 <;> simpa [hit, passes, beq_false_of_ne hit] using tail

end Table

end RingCache
