import Mathlib.Data.List.Nodup

/-!
# Stable sorting by a key

Runs are sorted by the time they take, moments by the time they happen, files by their name.  In
each case different entries may have one key, and then the order they had before is kept.  The
statement from which these uses follow is `filter_sortByKey`: a part of a list that is in order
already comes out of the sort as it went in.

If no two entries have one key, the sort forgets the order they had before (`sortByKey_eq_of_perm`),
and its result is known from the entries alone (`sortByKey_eq_of_ascending`).
-/

namespace Assets.Order

variable {α κ : Type} [LE κ] [DecidableLE κ] [Std.IsLinearPreorder κ]

theorem decide_key_trans (key : α → κ) (a b c : α) (hab : decide (key a ≤ key b) = true)
    (hbc : decide (key b ≤ key c) = true) : decide (key a ≤ key c) = true := by
  simp only [decide_eq_true_eq] at hab hbc ⊢
  exact Std.IsPreorder.le_trans _ _ _ hab hbc

theorem decide_key_total (key : α → κ) (a b : α) :
    (decide (key a ≤ key b) || decide (key b ≤ key a)) = true := by
  simpa using Std.IsLinearPreorder.le_total (key a) (key b)

theorem pairwise_sortByKey (key : α → κ) (l : List α) :
    (l.mergeSort fun a b => key a ≤ key b).Pairwise fun a b => key a ≤ key b := by
  simpa using List.pairwise_mergeSort (decide_key_trans key) (decide_key_total key) l

/-- A part of a list that is in order already keeps its order. -/
theorem filter_sortByKey (key : α → κ) {p : α → Bool} {l : List α}
    (h : (l.filter p).Pairwise fun a b => key a ≤ key b) :
    (l.mergeSort fun a b => key a ≤ key b).filter p = l.filter p := by
  have hsub : (l.filter p).Sublist (l.mergeSort fun a b => key a ≤ key b) :=
    List.sublist_mergeSort (decide_key_trans key) (decide_key_total key) (by simpa using h)
      List.filter_sublist
  have hfiltered := hsub.filter p
  rw [List.filter_filter] at hfiltered
  simp only [Bool.and_self] at hfiltered
  have hlength := ((List.mergeSort_perm l fun a b => decide (key a ≤ key b)).filter p).length_eq
  exact (hfiltered.eq_of_length hlength.symm).symm

/-- Whatever held between earlier and later entries still holds between those of one key. -/
theorem pairwise_sortByKey_of_pairwise (key : α → κ) {R : α → α → Prop} {l : List α}
    (h : l.Pairwise R) :
    (l.mergeSort fun a b => key a ≤ key b).Pairwise fun a b =>
      key a ≤ key b ∧ (key b ≤ key a → R a b) := by
  rw [List.pairwise_iff_forall_sublist] at h ⊢
  intro a b hab
  have hle := List.pairwise_iff_forall_sublist.mp (pairwise_sortByKey key l) hab
  refine ⟨hle, fun hge => ?_⟩
  -- the entries that have the key of `a`
  let tied : α → Bool := fun c => decide (key c ≤ key a ∧ key a ≤ key c)
  have htied : (l.filter tied).Pairwise fun c d => key c ≤ key d := by
    refine List.Pairwise.imp_of_mem ?_ (List.pairwise_iff_forall_sublist.mpr fun _ => trivial)
    intro c d hc hd _
    have hca : key c ≤ key a := (of_decide_eq_true (List.mem_filter.mp hc).2).1
    have had : key a ≤ key d := (of_decide_eq_true (List.mem_filter.mp hd).2).2
    exact Std.IsPreorder.le_trans _ _ _ hca had
  have hpair : [a, b].filter tied = [a, b] := by simp [tied, hle, hge]
  have hsub := hab.filter tied
  rw [hpair, filter_sortByKey key htied] at hsub
  exact h (hsub.trans List.filter_sublist)

/-- Entries with different keys come out in one order, whatever order they had before. -/
theorem sortByKey_eq_of_perm {κ : Type} [LE κ] [DecidableLE κ] [Std.IsLinearOrder κ] (key : α → κ)
    {l m : List α} (h : l.Perm m) (hkeys : (l.map key).Nodup) :
    (l.mergeSort fun a b => key a ≤ key b) = m.mergeSort fun a b => key a ≤ key b := by
  have hperm := (List.mergeSort_perm l fun a b => decide (key a ≤ key b)).trans
    (h.trans (List.mergeSort_perm m fun a b => decide (key a ≤ key b)).symm)
  refine hperm.eq_of_pairwise ?_ (pairwise_sortByKey key l) (pairwise_sortByKey key m)
  intro a b ha hb hab hba
  have hmem : b ∈ l := h.mem_iff.mpr (List.mem_mergeSort.mp hb)
  exact List.inj_on_of_nodup_map hkeys (List.mem_mergeSort.mp ha) hmem
    (Std.IsPartialOrder.le_antisymm _ _ hab hba)

/-! ## Strictly ascending lists -/

section Ascending

variable {κ : Type} [LT κ] [LE κ] [Std.LawfulOrderLT κ] (key : α → κ) {l m : List α}

theorem nodup_map_of_ascending (h : l.Pairwise fun a b => key a < key b) : (l.map key).Nodup := by
  refine List.pairwise_map.mpr (h.imp fun hlt hsame => ?_)
  rw [hsame] at hlt
  exact Std.lt_irrefl hlt

variable [Std.IsLinearOrder κ]

/-- What is in a strictly ascending list determines it. -/
theorem eq_of_perm_of_ascending (h : l.Perm m) (hl : l.Pairwise fun a b => key a < key b)
    (hm : m.Pairwise fun a b => key a < key b) : l = m :=
  h.eq_of_pairwise (fun _ _ _ _ hab hba => absurd (Std.lt_trans hab hba) Std.lt_irrefl) hl hm

theorem eq_of_mem_iff_of_ascending (hl : l.Pairwise fun a b => key a < key b)
    (hm : m.Pairwise fun a b => key a < key b) (h : ∀ a, a ∈ l ↔ a ∈ m) : l = m := by
  refine eq_of_perm_of_ascending key ?_ hl hm
  rw [List.perm_ext_iff_of_nodup (nodup_map_of_ascending key hl).of_map
    (nodup_map_of_ascending key hm).of_map]
  exact h

/-- Whatever order the entries of a strictly ascending list had before, it is what the sort makes of
them. -/
theorem sortByKey_eq_of_ascending [DecidableLE κ] (h : l.Perm m)
    (hm : m.Pairwise fun a b => key a < key b) :
    (l.mergeSort fun a b => key a ≤ key b) = m := by
  rw [sortByKey_eq_of_perm key h ((h.map key).nodup_iff.mpr (nodup_map_of_ascending key hm))]
  exact List.mergeSort_of_pairwise (hm.imp fun hlt => decide_eq_true (Std.le_of_lt hlt))

end Ascending

end Assets.Order
