import Assets.Disk.Operations
import Assets.Tree.Read

/-!
# The parts of a path

What a path leads to depends on its parts alone, and the operations on the text of a path are
operations on the list of its parts.

* `split_pathOf`, `pathOf_split`: cutting a path at its slashes and joining the parts again are
  inverse to each other.
* `split_join`: the parts of `root.join relative` are those of the two paths, without the empty
  part behind the last slash of `root` (`leading`).
* `prefix_of_mem_ancestry`: the parts of an ancestor are a beginning of the parts of the path.
  Ancestors are cut off by offset, so this rests on `mem_mark`, which says that the offsets of the
  components are ends of parts.
-/

namespace Assets.Path

open Assets.Tree

/-! ## Cutting and joining -/

theorem split_eq_splitOn (path : Path) : path.split = path.splitOn slash := by
  induction path with
  | nil => rfl
  | cons b rest ih =>
      rw [List.splitOn_cons_eq_if_modifyHead, ← ih, split]
      by_cases hb : b = slash
      · simp [hb]
      · have hne : split rest ≠ [] := ih ▸ List.splitOn_ne_nil slash rest
        obtain ⟨name, names, hsplit⟩ := List.exists_cons_of_ne_nil hne
        simp [hb, hsplit]

theorem split_ne_nil (path : Path) : path.split ≠ [] := by
  rw [split_eq_splitOn]
  exact List.splitOn_ne_nil slash path

theorem pathOf_eq_intercalate (names : Location) : pathOf names = [slash].intercalate names := by
  fun_induction pathOf names with
  | case1 => rfl
  | case2 name => simp
  | case3 name names hne ih =>
      obtain ⟨second, rest, rfl⟩ := List.exists_cons_of_ne_nil (by simpa using hne)
      rw [List.intercalate_cons_cons, ih]
      simp

theorem pathOf_cons (name : Name) {names : Location} (h : names ≠ []) :
    pathOf (name :: names) = name ++ slash :: pathOf names := by
  obtain ⟨second, rest, rfl⟩ := List.exists_cons_of_ne_nil h
  rfl

theorem pathOf_append {front back : Location} (hfront : front ≠ []) (hback : back ≠ []) :
    pathOf (front ++ back) = pathOf front ++ slash :: pathOf back := by
  induction front with
  | nil => exact absurd rfl hfront
  | cons name front ih =>
      by_cases hnil : front = []
      · subst hnil
        exact pathOf_cons name hback
      · rw [List.cons_append, pathOf_cons name (by simp [hnil]), ih hnil, pathOf_cons name hnil]
        simp

theorem pathOf_split (path : Path) : pathOf path.split = path := by
  rw [pathOf_eq_intercalate, split_eq_splitOn, List.intercalate_splitOn]

theorem split_pathOf {names : Location} (hne : names ≠ [])
    (hslash : ∀ name ∈ names, slash ∉ name) : (pathOf names).split = names := by
  rw [pathOf_eq_intercalate, split_eq_splitOn, List.splitOn_intercalate slash hslash hne]

theorem split_append (front back : Path) :
    (front ++ slash :: back).split = front.split ++ back.split := by
  simp only [split_eq_splitOn, List.splitOn_append_cons_self]

theorem slash_notMem_of_mem_split {path : Path} {part : Name} (h : part ∈ path.split) :
    slash ∉ part := by
  induction path generalizing part with
  | nil =>
      rw [show split [] = [[]] from rfl, List.mem_singleton] at h
      simp [h]
  | cons b rest ih =>
      obtain ⟨name, names, hsplit⟩ := List.exists_cons_of_ne_nil (split_ne_nil rest)
      rw [hsplit] at ih
      by_cases hb : b = slash
      · rw [split, if_pos hb, hsplit, List.mem_cons] at h
        rcases h with rfl | h
        · simp
        · exact ih h
      · rw [split, if_neg hb, hsplit] at h
        rcases List.mem_cons.mp h with rfl | h
        · simpa [Ne.symm hb] using ih (List.mem_cons_self ..)
        · exact ih (List.mem_cons_of_mem _ h)

/-! ## Joined paths -/

/-- The parts of a path without the empty one behind its last slash. -/
def leading (root : Path) : List Name :=
  if root.isEmpty || root.endsInSlash then root.split.dropLast else root.split

theorem exists_of_endsInSlash {root : Path} (h : root.endsInSlash = true) :
    ∃ front, root = front ++ [slash] := by
  rw [endsInSlash, beq_iff_eq] at h
  exact List.getLast?_eq_some_iff.mp h

/-- The parts of a path are its leading ones and perhaps an empty one. -/
theorem split_eq_leading (root : Path) :
    root.split = root.leading ∨ root.split = root.leading ++ [[]] := by
  unfold leading
  split
  · rename_i h
    rw [Bool.or_eq_true, List.isEmpty_iff] at h
    right
    rcases h with rfl | h
    · rfl
    · obtain ⟨front, rfl⟩ := exists_of_endsInSlash h
      rw [split_append, show split [] = [[]] from rfl, List.dropLast_concat]
  · exact .inl rfl

theorem leading_prefix_split (root : Path) : root.leading <+: root.split := by
  rcases split_eq_leading root with h | h
  · exact h ▸ List.prefix_rfl
  · exact h ▸ List.prefix_append ..

theorem split_join (root : Path) {relative : Path} (h : relative.isAbsolute = false) :
    (root.join relative).split = root.leading ++ relative.split := by
  unfold join leading
  rw [h, Bool.false_or]
  by_cases hempty : root.isEmpty = true
  · rw [List.isEmpty_iff] at hempty
    subst hempty
    rfl
  rw [Bool.not_eq_true] at hempty
  rw [hempty, Bool.false_or, if_neg (by simp)]
  split
  · rename_i hslash
    obtain ⟨front, rfl⟩ := exists_of_endsInSlash hslash
    rw [List.append_assoc, List.singleton_append, split_append, split_append,
      show split [] = [[]] from rfl, List.dropLast_concat]
  · exact split_append root relative

theorem isAbsolute_join (root : Path) {relative : Path} (h : relative.isAbsolute = false) :
    (root.join relative).isAbsolute = root.isAbsolute := by
  unfold join
  rw [h, Bool.false_or]
  cases root with
  | nil => simpa [isAbsolute] using h
  | cons b rest =>
      rw [if_neg (by simp)]
      split <;> simp [isAbsolute]

/-- A beginning of a path is absolute if the path is. -/
theorem isAbsolute_of_prefix {path other : Path} (h : path <+: other) (hne : path ≠ []) :
    path.isAbsolute = other.isAbsolute := by
  obtain ⟨rest, rfl⟩ := h
  obtain ⟨b, path, rfl⟩ := List.exists_cons_of_ne_nil hne
  rfl

/-! ## Ancestors -/

/-- A component ends where one of the parts ends. -/
theorem mem_mark {offset stop : Nat} {parts : List Name} {component : Component}
    (h : (component, stop) ∈ mark offset parts) :
    ∃ before part after, parts = before ++ part :: after ∧
      stop = offset + (pathOf (before ++ [part])).length := by
  induction parts generalizing offset with
  | nil => simp [mark] at h
  | cons part parts ih =>
      -- the component is that of `part`, or one of those behind it
      have hcases : stop = offset + part.length ∨
          (component, stop) ∈ mark (offset + part.length + 1) parts := by
        unfold mark at h
        grind
      rcases hcases with rfl | hrest
      · exact ⟨[], part, parts, rfl, rfl⟩
      · obtain ⟨before, last, after, rfl, rfl⟩ := ih hrest
        refine ⟨part :: before, last, after, rfl, ?_⟩
        rw [List.cons_append, pathOf_cons part (by simp)]
        simp only [List.length_append, List.length_cons]
        omega

theorem take_pathOf (before after : Location) (part : Name) :
    (pathOf (before ++ part :: after)).take (pathOf (before ++ [part])).length =
      pathOf (before ++ [part]) := by
  by_cases hafter : after = []
  · subst hafter
    exact List.take_length
  · rw [List.append_cons before part after, pathOf_append (by simp) hafter, List.take_left]

theorem parent?_cases {path parent : Path} (h : path.parent? = some parent) :
    parent = [] ∨ parent = [slash] ∨ parent <+: path ∧ parent.split <+: path.split := by
  unfold parent? at h
  split at h
  · cases h
  · cases h
  · cases h
    exact .inl rfl
  · rename_i last component stop rest hlast hmarked
    cases h
    have hmem : (component, stop) ∈ path.marked := by
      rw [← List.mem_reverse, hmarked]
      simp
    rw [marked, List.mem_append] at hmem
    rcases hmem with hmem | hmem
    · right; left
      split at hmem
      · rename_i habsolute
        rw [List.mem_singleton, Prod.mk.injEq] at hmem
        rw [isAbsolute, beq_iff_eq] at habsolute
        obtain ⟨rest, rfl⟩ := List.head?_eq_some_iff.mp habsolute
        rw [hmem.2]
        rfl
      · simp at hmem
    · right; right
      refine ⟨List.take_prefix .., ?_⟩
      obtain ⟨before, part, after, hsplit, rfl⟩ := mem_mark hmem
      have hslash : ∀ name ∈ before ++ [part], slash ∉ name := by
        intro name hname
        have hmem : name ∈ path.split := by
          rw [hsplit, List.append_cons]
          exact List.mem_append_left _ hname
        exact slash_notMem_of_mem_split hmem
      have htake : path.take (0 + (pathOf (before ++ [part])).length) =
          pathOf (before ++ [part]) := by
        calc path.take (0 + (pathOf (before ++ [part])).length)
            = (pathOf (before ++ part :: after)).take (pathOf (before ++ [part])).length := by
              rw [← hsplit, pathOf_split, Nat.zero_add]
          _ = pathOf (before ++ [part]) := take_pathOf before after part
      rw [htake, split_pathOf (by simp) hslash, hsplit]
      exact ⟨after, by simp⟩

end Assets.Path

namespace Assets.Disk

open Assets.Path

theorem ancestry_nil (fuel : Nat) : ancestry fuel [] = [] := by
  cases fuel <;> rfl

theorem ancestry_slash (fuel : Nat) : ancestry fuel [slash] = [] := by
  cases fuel <;> rfl

/-- An ancestor is a beginning of the path, and its parts are a beginning of the parts. -/
theorem prefix_of_mem_ancestry {fuel : Nat} {path ancestor : Path}
    (h : ancestor ∈ ancestry fuel path) :
    ancestor ≠ [] ∧ ancestor <+: path ∧ ancestor.split <+: path.split := by
  induction fuel generalizing path with
  | zero => simp [ancestry] at h
  | succ fuel ih =>
      unfold ancestry at h
      split at h
      · simp at h
      · rename_i parent hparent
        split at h
        · simp at h
        · rename_i hne
          rcases List.mem_cons.mp h with rfl | h
          · exact ⟨by simpa using hne, List.prefix_rfl, List.prefix_rfl⟩
          · rcases parent?_cases hparent with rfl | rfl | ⟨hbegins, hsplit⟩
            · rw [ancestry_nil] at h
              simp at h
            · rw [ancestry_slash] at h
              simp at h
            · obtain ⟨hne, hpath, hparts⟩ := ih h
              exact ⟨hne, hpath.trans hbegins, hparts.trans hsplit⟩

end Assets.Disk
