import Mathlib.Data.List.Induction
import Assets.Dictionary
import Assets.Proofs.Order.SortByKey

/-!
# What a dictionary holds

A dictionary is a map, and its list of entries is no more than the map: `eq_of_find?_eq` says that
two dictionaries in ascending order with the same look-ups are one list.  All dictionaries that
come about by `insert` and `ofList` are in that order, so an equation between them is shown name
by name, with a look-up law for each operation (`find?_insert`, `find?_union`,
`find?_ofList_append`, `find?_ofList_of_forall`).

The look-up laws need no order: what `insert` puts ahead of an entry hides it.
-/

namespace Assets.Dictionary

variable {α : Type}

/-- The order that every dictionary is in. -/
def Ascending (entries : Dictionary α) : Prop := entries.Pairwise fun a b => a.1 < b.1

/-- The entries of both dictionaries; where both have one, it is that of `second`. -/
def union (first second : Dictionary α) : Dictionary α :=
  second.foldr (fun entry entries => insert entry.1 entry.2 entries) first

/-! ## Looking up -/

theorem find?_nil (name : String) : find? ([] : Dictionary α) name = none := rfl

theorem find?_cons (entry : String × α) (entries : Dictionary α) (name : String) :
    find? (entry :: entries) name =
      if name = entry.1 then some entry.2 else entries.find? name := by
  by_cases hname : name = entry.1
  · rw [if_pos hname, find?, List.lookup_cons, beq_iff_eq.mpr hname]
  · rw [if_neg hname, find?, List.lookup_cons, beq_eq_false_iff_ne.mpr hname]
    rfl

theorem find?_insert (name : String) (value : α) (entries : Dictionary α) (other : String) :
    (insert name value entries).find? other =
      if other = name then some value else entries.find? other := by
  induction entries with
  | nil => rw [insert, find?_cons]
  | cons entry entries ih =>
      rw [insert]
      split
      · rw [find?_cons]
      split
      · rename_i hname
        rw [find?_cons, find?_cons, ← hname]
        split <;> rfl
      · rename_i hname
        rw [find?_cons, find?_cons, ih]
        by_cases hother : other = entry.1
        · rw [if_pos hother, if_pos hother, if_neg fun heq => hname (heq.symm.trans hother)]
        · rw [if_neg hother, if_neg hother]

theorem find?_union (first second : Dictionary α) (name : String) :
    (first.union second).find? name = (second.find? name).or (first.find? name) := by
  induction second with
  | nil => rfl
  | cons entry second ih =>
      rw [union, List.foldr_cons, ← union, find?_insert, find?_cons, ih]
      split <;> rfl

theorem ofList_concat (entries : List (String × α)) (entry : String × α) :
    ofList (entries ++ [entry]) = insert entry.1 entry.2 (ofList entries) := by
  rw [ofList, List.foldl_append]
  rfl

theorem find?_ofList_append (first second : List (String × α)) (name : String) :
    (ofList (first ++ second)).find? name =
      ((ofList second).find? name).or ((ofList first).find? name) := by
  induction second using List.reverseRecOn with
  | nil => rw [List.append_nil]; rfl
  | append_singleton second entry ih =>
      rw [← List.append_assoc, ofList_concat, ofList_concat, find?_insert, find?_insert, ih]
      split <;> rfl

/-- Entries whose values are a function of their names. -/
theorem find?_ofList_of_forall {entries : List (String × α)} {f : String → α}
    (h : ∀ entry ∈ entries, entry.2 = f entry.1) (name : String) :
    (ofList entries).find? name =
      if name ∈ entries.map Prod.fst then some (f name) else none := by
  induction entries using List.reverseRecOn with
  | nil => rfl
  | append_singleton entries entry ih =>
      have hlast : entry.2 = f entry.1 := h entry (by simp)
      rw [ofList_concat, find?_insert, ih fun other hother => h other (by simp [hother])]
      have hmem : name ∈ (entries ++ [entry]).map Prod.fst ↔
          name = entry.1 ∨ name ∈ entries.map Prod.fst := by
        simp [or_comm]
      simp only [hmem]
      by_cases hname : name = entry.1
      · rw [if_pos hname, if_pos (.inl hname), hlast, hname]
      · simp only [hname, if_false, false_or]

/-! ## The order of the entries -/

theorem exists_of_mem_insert {name : String} {value : α} {entries : Dictionary α}
    {entry : String × α} (h : entry ∈ insert name value entries) :
    entry = (name, value) ∨ entry ∈ entries := by
  induction entries with
  | nil => exact .inl (List.mem_singleton.mp h)
  | cons head entries ih =>
      rw [insert] at h
      split at h
      · exact List.mem_cons.mp h
      split at h
      · exact (List.mem_cons.mp h).imp_right (List.mem_cons_of_mem _)
      · rcases List.mem_cons.mp h with rfl | hmem
        · exact .inr List.mem_cons_self
        · exact (ih hmem).imp_right (List.mem_cons_of_mem _)

theorem mem_of_mem_ofList {entries : List (String × α)} {entry : String × α}
    (h : entry ∈ ofList entries) : entry ∈ entries := by
  induction entries using List.reverseRecOn with
  | nil => exact h
  | append_singleton entries last ih =>
      rw [ofList_concat] at h
      rcases exists_of_mem_insert h with rfl | hmem
      · exact List.mem_append_right _ List.mem_cons_self
      · exact List.mem_append_left _ (ih hmem)

theorem Ascending.insert {entries : Dictionary α} (h : entries.Ascending) (name : String)
    (value : α) : (insert name value entries).Ascending := by
  induction entries with
  | nil => exact List.pairwise_singleton _ _
  | cons entry entries ih =>
      obtain ⟨hhead, htail⟩ := List.pairwise_cons.mp h
      rw [Dictionary.insert]
      split
      · rename_i hlt
        refine List.pairwise_cons.mpr ⟨fun other hother => ?_, h⟩
        rcases List.mem_cons.mp hother with rfl | hmem
        · exact hlt
        · exact String.lt_trans hlt (hhead other hmem)
      split
      · rename_i hname
        exact List.pairwise_cons.mpr ⟨fun other hother => hname ▸ hhead other hother, htail⟩
      · rename_i hnot hname
        have hlt : entry.1 < name :=
          (Std.lt_trichotomy name entry.1).resolve_left hnot |>.resolve_left hname
        refine List.pairwise_cons.mpr ⟨fun other hother => ?_, ih htail⟩
        rcases exists_of_mem_insert hother with rfl | hmem
        · exact hlt
        · exact hhead other hmem

theorem ascending_ofList (entries : List (String × α)) : (ofList entries).Ascending := by
  induction entries using List.reverseRecOn with
  | nil => exact .nil
  | append_singleton entries entry ih =>
      rw [ofList_concat]
      exact ih.insert _ _

theorem Ascending.union {first : Dictionary α} (h : first.Ascending) (second : Dictionary α) :
    (first.union second).Ascending := by
  induction second with
  | nil => exact h
  | cons entry second ih => exact ih.insert _ _

theorem Ascending.mem_iff {entries : Dictionary α} (h : entries.Ascending) {name : String}
    {value : α} : (name, value) ∈ entries ↔ entries.find? name = some value := by
  induction entries with
  | nil => simp [find?_nil]
  | cons entry entries ih =>
      obtain ⟨hhead, htail⟩ := List.pairwise_cons.mp h
      rw [find?_cons, List.mem_cons, ih htail]
      by_cases hname : name = entry.1
      · rw [if_pos hname, Option.some.injEq]
        refine ⟨fun hentry => ?_, fun hvalue => .inl (Prod.ext hname hvalue.symm)⟩
        rcases hentry with rfl | hfound
        · rfl
        · -- the name stands at the head, so no later entry has it
          have hlt := hhead _ ((ih htail).mpr hfound)
          exact absurd (hname ▸ hlt) (String.lt_irrefl _)
      · rw [if_neg hname]
        exact or_iff_right fun heq => hname (congrArg Prod.fst heq)

theorem insert_of_forall_lt {entries : Dictionary α} {name : String} (value : α)
    (h : ∀ entry ∈ entries, entry.1 < name) :
    insert name value entries = entries ++ [(name, value)] := by
  induction entries with
  | nil => rfl
  | cons entry entries ih =>
      have hlt : entry.1 < name := h entry List.mem_cons_self
      have hne : name ≠ entry.1 := fun heq => String.lt_irrefl name (heq ▸ hlt)
      rw [insert, if_neg (String.lt_asymm hlt), if_neg hne,
        ih fun other hother => h other (List.mem_cons_of_mem _ hother)]
      rfl

/-- Entries that are in order already are collected as they are. -/
theorem Ascending.ofList_eq {entries : List (String × α)} (h : Ascending entries) :
    ofList entries = entries := by
  induction entries using List.reverseRecOn with
  | nil => rfl
  | append_singleton entries entry ih =>
      obtain ⟨hentries, -, hlast⟩ := List.pairwise_append.mp h
      rw [ofList_concat, ih hentries]
      exact insert_of_forall_lt _ fun other hother => hlast other hother entry List.mem_cons_self

/-- An entry for each look-up that finds something, and nothing else. -/
theorem eq_of_find?_eq {first second : Dictionary α} (hfirst : first.Ascending)
    (hsecond : second.Ascending) (h : ∀ name, first.find? name = second.find? name) :
    first = second := by
  refine Order.eq_of_mem_iff_of_ascending Prod.fst hfirst hsecond fun entry => ?_
  rw [hfirst.mem_iff, hsecond.mem_iff, h]

theorem ofList_append (first second : List (String × α)) :
    ofList (first ++ second) = (ofList first).union (ofList second) :=
  eq_of_find?_eq (ascending_ofList _) ((ascending_ofList first).union _) fun name => by
    rw [find?_ofList_append, find?_union]

end Assets.Dictionary
