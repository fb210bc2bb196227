import RingCache.Proofs.JsonDocuments

/-!
The order of members. An object takes its members in any order and keeps them by key, so documents
that differ in the order of members only are one value.
-/

namespace RingCache.Json

theorem mem_insert (key : String) (value : Json) (members : List (String × Json)) :
    ∀ member ∈ insert key value members, member = (key, value) ∨ member ∈ members := by
  induction members with
  | nil => simp [insert]
  | cons first rest ih =>
      rw [insert]
      split
      · simp
      · split
        · simp; tauto
        · intro member among
          rcases List.mem_cons.mp among with rfl | later
          · exact .inr (List.mem_cons_self ..)
          · exact (ih member later).imp_right (List.mem_cons_of_mem _)

theorem insert_ascending (key : String) (value : Json) (members : List (String × Json))
    (ascending : Ascending (members.map (·.1))) :
    Ascending ((insert key value members).map (·.1)) := by
  rw [Ascending, List.pairwise_map] at ascending ⊢
  induction members with
  | nil => simp [insert]
  | cons first rest ih =>
      obtain ⟨least, others⟩ := List.pairwise_cons.mp ascending
      rw [insert]
      split
      · next less =>
          refine List.pairwise_cons.mpr ⟨fun member among => ?_, ascending⟩
          rcases List.mem_cons.mp among with rfl | later
          · exact less
          · exact String.lt_trans less (least member later)
      · next less =>
          split
          · next same => exact List.pairwise_cons.mpr ⟨same ▸ least, others⟩
          · next different =>
              refine List.pairwise_cons.mpr ⟨fun member among => ?_, ih others⟩
              rcases mem_insert key value rest member among with rfl | later
              · exact Std.lt_of_le_of_ne (String.not_lt.mp less) (Ne.symm different)
              · exact least member later

theorem insert_perm (key : String) (value : Json) (members : List (String × Json))
    (fresh : key ∉ members.map (·.1)) :
    (insert key value members).Perm ((key, value) :: members) := by
  induction members with
  | nil => exact .refl _
  | cons first rest ih =>
      rw [List.map_cons, List.mem_cons, not_or] at fresh
      rw [insert]
      split
      · exact .refl _
      · rw [if_neg fresh.1]
        exact ((ih fresh.2).cons first).trans (.swap _ _ _)

def placed (members others : List (String × Json)) : List (String × Json) :=
  members.foldl (fun sorted (key, value) => insert key value sorted) others

theorem placed_ascending (members others : List (String × Json))
    (ascending : Ascending (others.map (·.1))) :
    Ascending ((placed members others).map (·.1)) := by
  induction members generalizing others with
  | nil => exact ascending
  | cons member rest ih => exact ih _ (insert_ascending member.1 member.2 others ascending)

theorem mem_placed (members others : List (String × Json)) :
    ∀ member ∈ placed members others, member ∈ members ∨ member ∈ others := by
  induction members generalizing others with
  | nil => exact fun _ among => .inr among
  | cons first rest ih =>
      intro member among
      rcases ih _ member among with later | earlier
      · exact .inl (List.mem_cons_of_mem _ later)
      · rcases mem_insert first.1 first.2 others member earlier with rfl | other
        · exact .inl (List.mem_cons_self ..)
        · exact .inr other

theorem placed_perm (members others : List (String × Json))
    (distinct : ((members ++ others).map (·.1)).Nodup) :
    (placed members others).Perm (members ++ others) := by
  induction members generalizing others with
  | nil => exact .refl _
  | cons first rest ih =>
      rw [List.cons_append, List.map_cons, List.nodup_cons, List.map_append, List.mem_append,
        not_or] at distinct
      have one := insert_perm first.1 first.2 others distinct.1.2
      have moved : (rest ++ insert first.1 first.2 others).Perm ((first :: rest) ++ others) :=
        (one.append_left rest).trans List.perm_middle
      refine (ih _ ?_).trans moved
      rw [(moved.map (·.1)).nodup_iff, List.cons_append, List.map_cons, List.nodup_cons,
        List.map_append, List.mem_append, not_or]
      exact distinct

/-- Two lists of the same members are the same in order. -/
theorem placed_congr {left right : List (String × Json)} (same : left.Perm right)
    (distinct : (left.map (·.1)).Nodup) : placed left [] = placed right [] := by
  have ascending (members : List (String × Json)) := placed_ascending members [] .nil
  have perm (members : List (String × Json)) (distinct : (members.map (·.1)).Nodup) :
      (placed members []).Perm members := by
    simpa using placed_perm members [] (by simpa using distinct)
  -- Both lists are strictly ascending, and one is a permutation of the other.
  refine @List.Perm.eq_of_pairwise _ (·.1 < ·.1) _ _ ?_ (List.pairwise_map.mp (ascending left))
    (List.pairwise_map.mp (ascending right)) ?_
  · exact fun a b _ _ less greater => absurd greater (String.lt_asymm less)
  · exact ((perm left distinct).trans same).trans
      (perm right ((same.map (·.1)).nodup_iff.mp distinct)).symm

mutual

def sorted : Json → Json
  | .array items => .array (sortedItems items)
  | .object members => ofMembers (sortedMembers members)
  | other => other

def sortedItems : List Json → List Json
  | [] => []
  | item :: rest => sorted item :: sortedItems rest

def sortedMembers : List (String × Json) → List (String × Json)
  | [] => []
  | (key, value) :: rest => (key, sorted value) :: sortedMembers rest

end

theorem sortedItems_map (items : List Json) : sortedItems items = items.map sorted := by
  induction items with
  | nil => rfl
  | cons item rest ih => rw [sortedItems, ih, List.map_cons]

theorem sortedMembers_map (members : List (String × Json)) :
    sortedMembers members = members.map fun (key, value) => (key, sorted value) := by
  induction members with
  | nil => rfl
  | cons member rest ih => rw [sortedMembers, ih, List.map_cons]

theorem sortedMembers_keys (members : List (String × Json)) :
    (sortedMembers members).map (·.1) = members.map (·.1) := by
  rw [sortedMembers_map, List.map_map]
  rfl

/-- Documents that are one but for the order in which objects list their members. -/
inductive Reordered : Json → Json → Prop where
  | refl (document : Json) : Reordered document document
  | trans {first second third : Json} (left : Reordered first second)
      (right : Reordered second third) : Reordered first third
  | item (before after : List Json) {left right : Json} (same : Reordered left right) :
      Reordered (.array (before ++ left :: after)) (.array (before ++ right :: after))
  | member (before after : List (String × Json)) (key : String) {left right : Json}
      (same : Reordered left right) :
      Reordered (.object (before ++ (key, left) :: after))
        (.object (before ++ (key, right) :: after))
  | permuted {left right : List (String × Json)} (same : left.Perm right)
      (distinct : (left.map (·.1)).Nodup) : Reordered (.object left) (.object right)

theorem Reordered.symm {left right : Json} (same : Reordered left right) :
    Reordered right left := by
  induction same with
  | refl document => exact .refl document
  | trans _ _ left right => exact right.trans left
  | item before after _ same => exact .item before after same
  | member before after key _ same => exact .member before after key same
  | permuted same distinct =>
      exact .permuted same.symm ((same.map (·.1)).nodup_iff.mp distinct)

theorem Reordered.sorted_eq {left right : Json} (same : Reordered left right) :
    left.sorted = right.sorted := by
  induction same with
  | refl document => rfl
  | trans _ _ left right => exact left.trans right
  | item before after _ same => simp [sorted, sortedItems_map, same]
  | member before after key _ same => simp [sorted, sortedMembers_map, same]
  | @permuted left right same distinct =>
      have values : (sortedMembers left).Perm (sortedMembers right) := by
        rw [sortedMembers_map, sortedMembers_map]
        exact same.map _
      exact congrArg Json.object (placed_congr values (by rwa [sortedMembers_keys]))

theorem Reordered.items (before items : List Json)
    (each : ∀ item ∈ items, Reordered item item.sorted) :
    Reordered (.array (before ++ items)) (.array (before ++ items.map sorted)) := by
  induction items generalizing before with
  | nil => exact .refl _
  | cons item rest ih =>
      obtain ⟨first, others⟩ := List.forall_mem_cons.mp each
      have tail := ih (before ++ [item.sorted]) others
      rw [List.append_assoc, List.append_assoc] at tail
      exact .trans (.item before rest first) tail

theorem Reordered.members (before members : List (String × Json))
    (each : ∀ member ∈ members, Reordered member.2 member.2.sorted) :
    Reordered (.object (before ++ members)) (.object (before ++ sortedMembers members)) := by
  induction members generalizing before with
  | nil => exact .refl _
  | cons member rest ih =>
      obtain ⟨first, others⟩ := List.forall_mem_cons.mp each
      have tail := ih (before ++ [(member.1, member.2.sorted)]) others
      rw [List.append_assoc, List.append_assoc] at tail
      exact .trans (.member before rest member.1 first) tail

/-- A document is its value, once the members are put in order. -/
theorem Formed.reordered {double : Binary64 → Prop} {document : Json}
    (formed : Formed double List.Nodup document) : Reordered document document.sorted := by
  induction formed with
  | null | bool | int | float | string => exact .refl _
  | array items _ each =>
      rw [sorted, sortedItems_map]
      exact .items [] items each
  | object members keys _ each =>
      -- Each value first, where its member stands, and then the members by their keys.
      rw [← sortedMembers_keys] at keys
      have perm := placed_perm (sortedMembers members) [] (by rwa [List.append_nil])
      rw [List.append_nil] at perm
      exact .trans (.members [] members each) (.permuted perm.symm keys)

theorem depthItems_le (items : List Json) (most : Nat) :
    depthItems items ≤ most ↔ ∀ item ∈ items, item.depth ≤ most := by
  induction items with
  | nil => simp [depthItems]
  | cons item rest ih => rw [depthItems, Nat.max_le, ih, List.forall_mem_cons]

theorem depthMembers_le (members : List (String × Json)) (most : Nat) :
    depthMembers members ≤ most ↔ ∀ member ∈ members, member.2.depth ≤ most := by
  induction members with
  | nil => simp [depthMembers]
  | cons member rest ih => rw [depthMembers, Nat.max_le, ih, List.forall_mem_cons]

/-- The members of an object of values are the values of its members. -/
theorem mem_ofMembers {members : List (String × Json)} {member : String × Json}
    (among : member ∈ placed (sortedMembers members) []) :
    ∃ original ∈ members, member.2 = original.2.sorted := by
  rcases mem_placed _ _ member among with listed | none
  · rw [sortedMembers_map] at listed
    obtain ⟨original, there, rfl⟩ := List.mem_map.mp listed
    exact ⟨original, there, rfl⟩
  · cases none

theorem Formed.sorted {double : Binary64 → Prop} {keyed : List String → Prop} {document : Json}
    (formed : Formed double keyed document) : Formed double Ascending document.sorted := by
  induction formed with
  | null => exact .null
  | bool value => exact .bool value
  | int value low high => exact .int value low high
  | float value held => exact .float value held
  | string value => exact .string value
  | array items _ each =>
      rw [Json.sorted, sortedItems_map]
      exact .array _ (List.forall_mem_map.mpr each)
  | object members _ _ each =>
      refine .object _ (placed_ascending _ [] .nil) fun member among => ?_
      obtain ⟨original, there, same⟩ := mem_ofMembers among
      exact same ▸ each original there

theorem Formed.depth_sorted {double : Binary64 → Prop} {keyed : List String → Prop}
    {document : Json} (formed : Formed double keyed document) :
    document.sorted.depth ≤ document.depth := by
  induction formed with
  | null | bool | int | float | string => exact Nat.le_refl _
  | array items _ each =>
      have bound := (depthItems_le items _).mp (Nat.le_refl _)
      rw [Json.sorted, sortedItems_map, depth, depth, Nat.add_le_add_iff_right, depthItems_le,
        List.forall_mem_map]
      exact fun item among => (each item among).trans (bound item among)
  | object members _ _ each =>
      have bound := (depthMembers_le members _).mp (Nat.le_refl _)
      refine Nat.add_le_add_right ((depthMembers_le _ _).mpr fun member among => ?_) 1
      obtain ⟨original, there, same⟩ := mem_ofMembers among
      rw [same]
      exact (each original there).trans (bound original there)

end RingCache.Json
