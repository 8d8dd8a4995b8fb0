import Assets.Proofs.Path.Clean

/-!
# Names that lead out of a directory

Whether a name is accepted is decided on the cleaned path, by looking for a component that is no
name.  What the name itself must be like is a law about counts: it is no absolute path, and none of
its beginnings goes up more often than down (`StaysDown`).

The two meet at the stack of components.  Each part of the path changes the height of the stack as
it changes the count, and a `..` is pushed on the stack exactly where the count would fall below
zero (`parent_notMem_foldl_cancelPart_iff`).  There it stays.
-/

namespace Assets

open Assets.Path

namespace Path

/-! ## Counting -/

/-- No beginning of a path goes up more often than its names, and the depth at which the path
starts, allow for. -/
def StaysDown (depth : Nat) (parts : List Name) : Prop :=
  ∀ front, front <+: parts → front.count [dot, dot] ≤ front.countP (IsName ·) + depth

theorem forall_prefix_cons_iff {α : Type} {P : List α → Prop} {a : α} {list : List α} :
    (∀ front, front <+: a :: list → P front) ↔ P [] ∧ ∀ front, front <+: list → P (a :: front) := by
  constructor
  · intro h
    exact ⟨h [] List.nil_prefix, fun front hfront => h _ ((List.prefix_cons_inj a).mpr hfront)⟩
  · rintro ⟨hnil, hcons⟩ front hfront
    obtain rfl | ⟨rest, rfl, hrest⟩ := List.prefix_cons_iff.mp hfront
    · exact hnil
    · exact hcons rest hrest

section StaysDown

variable {depth : Nat} {part : Name} {parts names : List Name}

theorem staysDown_nil : StaysDown depth [] := by
  intro front hfront
  rw [List.prefix_nil.mp hfront]
  exact Nat.zero_le _

/-- The first part counts for all beginnings but the empty one, which goes nowhere. -/
theorem staysDown_cons_iff :
    StaysDown depth (part :: parts) ↔
      ∀ front, front <+: parts →
        (part :: front).count [dot, dot] ≤ (part :: front).countP (IsName ·) + depth := by
  rw [StaysDown, forall_prefix_cons_iff]
  exact and_iff_right (Nat.zero_le _)

theorem not_isName_of_stays (h : part = [] ∨ part = [dot]) : ¬IsName part := by
  rintro ⟨hnil, hdot, -, -⟩
  exact h.elim hnil hdot

theorem not_isName_dots : ¬IsName [dot, dot] := fun h => h.ne_dots rfl

theorem staysDown_stay_iff (h : part = [] ∨ part = [dot]) :
    StaysDown depth (part :: parts) ↔ StaysDown depth parts := by
  have hdots : part ≠ [dot, dot] := by rcases h with rfl | rfl <;> simp
  rw [staysDown_cons_iff]
  simp [StaysDown, List.count_cons_of_ne hdots, not_isName_of_stays h]

theorem staysDown_up_iff :
    StaysDown (depth + 1) ([dot, dot] :: parts) ↔ StaysDown depth parts := by
  rw [staysDown_cons_iff]
  simp [StaysDown, not_isName_dots, ← Nat.add_assoc]

/-- The first beginning that counts is `..` alone. -/
theorem not_staysDown_zero_up : ¬StaysDown 0 ([dot, dot] :: parts) := by
  rw [staysDown_cons_iff]
  intro h
  simpa [not_isName_dots] using h [] List.nil_prefix

theorem staysDown_name_iff (h : IsName part) :
    StaysDown depth (part :: parts) ↔ StaysDown (depth + 1) parts := by
  rw [staysDown_cons_iff]
  refine forall_congr' fun front => imp_congr_right fun _ => ?_
  have hcount : (part :: front).countP (IsName ·) = front.countP (IsName ·) + 1 :=
    List.countP_cons_of_pos (decide_eq_true h)
  rw [List.count_cons_of_ne h.ne_dots, hcount]
  omega

theorem StaysDown.of_isName (h : ∀ name ∈ names, IsName name) : StaysDown depth names := by
  intro front hfront
  have hdots : [dot, dot] ∉ front := fun hmem => not_isName_dots (h _ (hfront.subset hmem))
  rw [List.count_eq_zero.mpr hdots]
  exact Nat.zero_le _

/-- From a stack of names no `..` is left over exactly if the parts stay down from its height. -/
theorem parent_notMem_foldl_cancelPart_iff (hparts : ∀ part ∈ parts, slash ∉ part) :
    .parent ∉ parts.foldl cancelPart (names.map .name).reverse ↔
      StaysDown names.length parts := by
  induction parts generalizing names with
  | nil => exact iff_of_true (by simp) staysDown_nil
  | cons part parts ih =>
      rw [List.forall_mem_cons] at hparts
      rw [List.foldl_cons, cancelPart]
      by_cases hstays : part = [] ∨ part = [dot]
      · rw [if_pos hstays, staysDown_stay_iff hstays, ih hparts.2]
      by_cases hdots : part = [dot, dot]
      · subst hdots
        rw [if_neg hstays, if_pos rfl]
        rcases List.eq_nil_or_concat names with rfl | ⟨names, last, rfl⟩
        · -- nothing is there that could be cancelled
          refine iff_of_false (not_not_intro ?_) not_staysDown_zero_up
          exact parent_mem_foldl_cancelPart (by simp [cancel])
        · have hpop : cancel ((names.concat last).map .name).reverse .parent =
              (names.map .name).reverse := by simp [cancel]
          rw [hpop, List.length_concat, staysDown_up_iff, ih hparts.2]
      · have hname : IsName part :=
          ⟨fun h => hstays (.inl h), fun h => hstays (.inr h), hdots, hparts.1⟩
        have hpush : .name part :: (names.map Component.name).reverse =
            ((names ++ [part]).map .name).reverse := by simp
        rw [if_neg hstays, if_neg hdots, staysDown_name_iff hname, hpush, ih hparts.2,
          List.length_append, List.length_singleton]

end StaysDown

theorem staysDown_split_iff (path : Path) :
    StaysDown 0 path.split ↔ .parent ∉ path.split.foldl cancelPart [] :=
  (@parent_notMem_foldl_cancelPart_iff path.split [] fun _ => slash_notMem_of_mem_split).symm

/-! ## Paths that stay below -/

theorem eq_current_or_name_of_mem_mark {offset : Nat} {parts : List Name}
    (hdots : [dot, dot] ∉ parts) {component : Component}
    (h : component ∈ (mark offset parts).map Prod.fst) :
    component = .current ∨ ∃ name, component = .name name := by
  induction parts generalizing offset with
  | nil => simp [mark] at h
  | cons part parts ih =>
      rw [List.mem_cons, not_or] at hdots
      rw [mark] at h
      have hrest := @ih (offset + part.length + 1) hdots.2
      grind

/-- A path stays below if it is relative and has no `..` among its parts. -/
theorem staysBelow_iff {path : Path} :
    path.staysBelow = true ↔ path.isAbsolute = false ∧ [dot, dot] ∉ path.split := by
  constructor
  · intro h
    constructor
    · refine Bool.eq_false_iff.mpr fun habsolute => ?_
      rw [not_staysBelow_of_isAbsolute habsolute] at h
      cases h
    · intro hdots
      rw [not_staysBelow_of_parent hdots] at h
      cases h
  · rintro ⟨habsolute, hdots⟩
    rw [staysBelow, components, marked, habsolute, if_neg (by simp), List.nil_append,
      List.all_eq_true]
    intro component hcomponent
    obtain rfl | ⟨name, rfl⟩ := eq_current_or_name_of_mem_mark hdots hcomponent <;> rfl

/-- A path that is spelled by names stays below wherever it is seen from. -/
theorem staysBelow_spell {names : Location} (h : ∀ name ∈ names, IsName name) :
    (spell names).staysBelow = true := by
  rw [staysBelow_iff, split_spell h]
  refine ⟨isAbsolute_spell h, ?_⟩
  split
  · simp
  · exact fun hdots => (h _ hdots).ne_dots rfl

theorem staysBelow_clean_iff {path : Path} :
    path.clean.staysBelow = true ↔ path.isAbsolute = false ∧ StaysDown 0 path.split := by
  rw [staysDown_split_iff]
  constructor
  · intro h
    obtain ⟨habsolute, -⟩ := clean_eq_spell h
    refine ⟨habsolute, fun hparent => ?_⟩
    rw [not_staysBelow_clean habsolute hparent] at h
    cases h
  · rintro ⟨habsolute, hparent⟩
    rw [clean_of_notMem_parent habsolute hparent]
    exact staysBelow_spell (isName_of_mem_foldl_pass (fun _ => slash_notMem_of_mem_split) (by simp))

end Path

/-! ## Accepted names -/

namespace Tree

theorem destination?_eq_some_iff {root path : Path} {name : String} :
    destination? root name = some path ↔
      ((ofString name).isAbsolute = false ∧ StaysDown 0 (ofString name).split) ∧
        path = root.join (spell (reduced name)) := by
  rw [← staysBelow_clean_iff]
  constructor
  · intro h
    refine ⟨?_, destination?_eq_some h⟩
    unfold destination? at h
    dsimp only at h
    split at h
    · assumption
    · cases h
  · rintro ⟨hbelow, rfl⟩
    unfold destination?
    dsimp only
    rw [if_pos hbelow, (clean_eq_spell hbelow).2]
    rfl

/-- **Accepted names.**  Below whatever directory, a name is accepted if and only if it does not
start with a slash and no beginning of its parts has more `..` than names; empty parts and dots
count as neither.  Its destination is then the directory followed by names alone.  They are those
that are left when each `..` has cancelled the last name before it that was still there; if none is
left, a dot stands for them. -/
theorem accepted_iff (root : Path) (name : String) :
    ((destination? root name).isSome ↔
      (ofString name).isAbsolute = false ∧
        ∀ front, front <+: (ofString name).split →
          front.count [dot, dot] ≤ front.countP (IsName ·)) ∧
    ∀ path, destination? root name = some path →
      path = root.join (if reduced name = [] then [dot] else pathOf (reduced name)) ∧
        ∀ part ∈ reduced name, IsName part := by
  constructor
  · rw [Option.isSome_iff_exists]
    constructor
    · rintro ⟨path, hpath⟩
      exact (destination?_eq_some_iff.mp hpath).1
    · exact fun haccepted => ⟨_, destination?_eq_some_iff.mpr ⟨haccepted, rfl⟩⟩
  · intro path hpath
    exact ⟨(destination?_eq_some_iff.mp hpath).2, fun _ => isName_of_mem_reduced⟩

/-- The first name goes up and stays below, nothing is left of the second one, and the third one
comes back too late. -/
theorem accepted_iff_dotted :
    destination? (ofString "out") "a/../b//./c" = some (ofString "out/b/c") ∧
    (∀ front, front <+: (ofString "a/../b//./c").split →
      front.count [dot, dot] ≤ front.countP (IsName ·)) ∧
    ofString "out/b/c" = (ofString "out").join (pathOf (reduced "a/../b//./c")) ∧
    destination? (ofString "out") "a/.." = some (ofString "out/.") ∧
    ofString "out/." = (ofString "out").join [dot] ∧
    destination? (ofString "out") "a/../../out/b" = none := by
  have hdown : destination? (ofString "out") "a/../b//./c" = some (ofString "out/b/c") := by decide
  have hnothing : destination? (ofString "out") "a/.." = some (ofString "out/.") := by decide
  have hnames : reduced "a/../b//./c" ≠ [] := by decide
  have hnone : reduced "a/.." = [] := by decide
  obtain ⟨hiff, hpath⟩ := accepted_iff (ofString "out") "a/../b//./c"
  have hjoined := (hpath _ hdown).1
  rw [if_neg hnames] at hjoined
  have hdot := ((accepted_iff (ofString "out") "a/..").2 _ hnothing).1
  rw [if_pos hnone] at hdot
  refine ⟨hdown, (hiff.mp (by rw [hdown]; rfl)).2, hjoined, hnothing, hdot, ?_⟩
  -- `a/../..` is a beginning with two `..` and one name
  rw [← Option.not_isSome_iff_eq_none, (accepted_iff _ _).1]
  rintro ⟨-, hcounts⟩
  exact absurd (hcounts [ofString "a", [dot, dot], [dot, dot]] (by decide)) (by decide)

end Tree

end Assets
