import Assets.Proofs.Path.Parts
import Assets.Proofs.Text.Bytes
import Assets.Tree.Write

/-!
# Cleaned paths

Cleaning a path lets each `..` cancel the name before it.  `reduce` is that rule on the parts of a
path, `cleanName` on the name of a file.  A file whose name does not lead out of the directory
`root` has the destination

```text
root.join (spell (reduced name))
```

(`destination?_eq_some`).  The code works on components and on texts, so two passes have to be
related to `reduce`: the stack of components (`foldl_cancelPart`), and the components that the
text of the cleaned path has when it is read once more (`not_staysBelow_of_parent`).
-/

namespace Assets.Path

/-! ## The rule -/

section Reduce

variable {α : Type} [DecidableEq α]

/-- Goes on from the parts that lead somewhere to the next part.  An empty part and a dot lead
nowhere else, two dots lead back. -/
def pass (dot : α) (passed : List (List α)) (part : List α) : List (List α) :=
  if part = [] ∨ part = [dot] then passed
  else if part = [dot, dot] then passed.dropLast
  else passed ++ [part]

/-- What is left of the parts of a path when each `..` has cancelled the part before it. -/
def reduce (dot : α) (parts : List (List α)) : List (List α) := parts.foldl (pass dot) []

end Reduce

/-- The names that the path of a file leads through. -/
def reduced (name : String) : Location := reduce dot (ofString name).split

end Path

open Assets.Path

/-- The name of a file, cleaned: without empty parts and dots, and with each `..` and the part that
it cancels left out. -/
def cleanName (name : String) : String :=
  String.ofList (['/'].intercalate (reduce '.' (name.toList.splitOn '/')))

namespace Path

open Assets.Tree

/-- A name that an entry of a directory can have. -/
structure IsName (name : Name) : Prop where
  ne_nil : name ≠ []
  ne_dot : name ≠ [dot]
  ne_dots : name ≠ [dot, dot]
  slash_notMem : slash ∉ name

instance (name : Name) : Decidable (IsName name) :=
  decidable_of_iff (name ≠ [] ∧ name ≠ [dot] ∧ name ≠ [dot, dot] ∧ slash ∉ name)
    ⟨fun ⟨hnil, hdot, hdots, hslash⟩ => ⟨hnil, hdot, hdots, hslash⟩,
      fun ⟨hnil, hdot, hdots, hslash⟩ => ⟨hnil, hdot, hdots, hslash⟩⟩

theorem isName_of_mem_foldl_pass {passed parts : List Name}
    (hparts : ∀ part ∈ parts, slash ∉ part) (hpassed : ∀ name ∈ passed, IsName name) :
    ∀ name ∈ parts.foldl (pass dot) passed, IsName name := by
  induction parts generalizing passed with
  | nil => exact hpassed
  | cons part parts ih =>
      rw [List.forall_mem_cons] at hparts
      refine ih hparts.2 ?_
      unfold pass
      split
      · exact hpassed
      · rename_i hstays
        rw [not_or] at hstays
        split
        · exact fun name hname => hpassed name ((List.dropLast_sublist _).subset hname)
        · rename_i hdots
          rw [List.forall_mem_append, List.forall_mem_singleton]
          exact ⟨hpassed, hstays.1, hstays.2, hdots, hparts.1⟩

theorem isName_of_mem_reduced {name : String} {part : Name} (h : part ∈ reduced name) :
    IsName part :=
  isName_of_mem_foldl_pass (fun _ => slash_notMem_of_mem_split) (by simp) part h

/-- Names are what they lead through. -/
theorem foldl_pass_of_isName {passed names : List Name} (h : ∀ name ∈ names, IsName name) :
    names.foldl (pass dot) passed = passed ++ names := by
  induction names generalizing passed with
  | nil => simp
  | cons name names ih =>
      rw [List.forall_mem_cons] at h
      obtain ⟨hname, hnames⟩ := h
      rw [List.foldl_cons, ih hnames, pass, if_neg (by simp [hname.ne_nil, hname.ne_dot]),
        if_neg hname.ne_dots, List.append_assoc, List.singleton_append]

/-! ## The stack of components -/

/-- What one part of a path does to cleaned components. -/
def cancelPart (done : List Component) (part : Name) : List Component :=
  if part = [] ∨ part = [dot] then done
  else if part = [dot, dot] then cancel done .parent
  else .name part :: done

theorem foldl_cancel_mark (offset : Nat) (parts : List Name) (done : List Component) :
    ((mark offset parts).map Prod.fst).foldl cancel done = parts.foldl cancelPart done := by
  induction parts generalizing offset done with
  | nil => rfl
  | cons part parts ih =>
      rw [List.foldl_cons, mark, cancelPart]
      by_cases hnil : part = []
      · simp [hnil, ih]
      by_cases hdot : part = [dot]
      · -- a dot at the start of a path is a component, but one that changes nothing
        by_cases hoffset : offset = 0 <;> simp [hdot, hoffset, cancel, ih]
      by_cases hdots : part = [dot, dot] <;> simp [hnil, hdot, hdots, cancel, ih]

theorem cleanComponents_eq (path : Path) :
    path.cleanComponents = (path.split.foldl cancelPart
      (if path.isAbsolute then [.root] else [])).reverse := by
  unfold cleanComponents components marked
  split
  · simp [foldl_cancel_mark, cancel]
  · simp [foldl_cancel_mark]

/-- The root stays at the bottom of the stack. -/
theorem exists_foldl_cancelPart_root (parts : List Name) (done : List Component) :
    ∃ done', parts.foldl cancelPart (done ++ [.root]) = done' ++ [.root] := by
  induction parts generalizing done with
  | nil => exact ⟨done, rfl⟩
  | cons part parts ih =>
      have hstep : ∃ done', cancelPart (done ++ [.root]) part = done' ++ [.root] := by
        unfold cancelPart
        split
        · exact ⟨done, rfl⟩
        split
        · cases done with
          | nil => exact ⟨[], rfl⟩
          | cons last done =>
              cases last with
              | root => exact ⟨.root :: done, rfl⟩
              | current => exact ⟨.parent :: .current :: done, rfl⟩
              | parent => exact ⟨.parent :: .parent :: done, rfl⟩
              | name => exact ⟨done, rfl⟩
        · exact ⟨.name part :: done, rfl⟩
      obtain ⟨done', hdone⟩ := hstep
      rw [List.foldl_cons, hdone]
      exact ih done'

/-- A `..` without a name before it stays on the stack. -/
theorem parent_mem_foldl_cancelPart {parts : List Name} {done : List Component}
    (h : .parent ∈ done) : .parent ∈ parts.foldl cancelPart done := by
  induction parts generalizing done with
  | nil => exact h
  | cons part parts ih =>
      refine ih ?_
      unfold cancelPart
      split
      · exact h
      split
      · cases done with
        | nil => simp at h
        | cons last done => cases last <;> simp_all [cancel]
      · exact List.mem_cons_of_mem _ h

/-- The components on a stack without root are names and perhaps some `..`. -/
theorem mem_foldl_cancelPart {parts : List Name} {done : List Component}
    (hparts : ∀ part ∈ parts, slash ∉ part)
    (hdone : ∀ c ∈ done, c = .parent ∨ ∃ name, c = .name name ∧ IsName name) :
    ∀ c ∈ parts.foldl cancelPart done, c = .parent ∨ ∃ name, c = .name name ∧ IsName name := by
  induction parts generalizing done with
  | nil => exact hdone
  | cons part parts ih =>
      rw [List.forall_mem_cons] at hparts
      refine ih hparts.2 ?_
      unfold cancelPart
      split
      · exact hdone
      rename_i hstays
      rw [not_or] at hstays
      split
      · cases done with
        | nil => simp [cancel]
        | cons last done => cases last <;> simp_all [cancel]
      · rename_i hdots
        rw [List.forall_mem_cons]
        exact ⟨.inr ⟨part, rfl, hstays.1, hstays.2, hdots, hparts.1⟩, hdone⟩

/-- As long as no `..` is left on the stack, it holds the names that `reduce` keeps. -/
theorem foldl_cancelPart {parts names : List Name}
    (h : .parent ∉ parts.foldl cancelPart (names.map .name).reverse) :
    parts.foldl cancelPart (names.map .name).reverse =
      ((parts.foldl (pass dot) names).map .name).reverse := by
  induction parts generalizing names with
  | nil => rfl
  | cons part parts ih =>
      rw [List.foldl_cons] at h
      rw [List.foldl_cons, List.foldl_cons]
      by_cases hstays : part = [] ∨ part = [dot]
      · rw [cancelPart, if_pos hstays] at h ⊢
        rw [ih h, pass, if_pos hstays]
      by_cases hdots : part = [dot, dot]
      · rw [cancelPart, if_neg hstays, if_pos hdots] at h ⊢
        rw [pass, if_neg hstays, if_pos hdots]
        rcases List.eq_nil_or_concat names with rfl | ⟨names, last, rfl⟩
        · exact absurd (parent_mem_foldl_cancelPart (by simp [cancel])) h
        · simp only [List.concat_eq_append, List.map_append, List.reverse_append, List.map_cons,
            List.map_nil, List.reverse_singleton, List.singleton_append, cancel,
            List.dropLast_concat] at h ⊢
          exact ih h
      · have hpush : cancelPart (names.map .name).reverse part =
            ((names ++ [part]).map .name).reverse := by
          simp [cancelPart, hstays, hdots]
        rw [hpush] at h ⊢
        rw [ih h, pass, if_neg hstays, if_neg hdots]

/-! ## Joining names -/

theorem isAbsolute_append {name : Name} (hne : name ≠ []) (hslash : slash ∉ name) (rest : Path) :
    isAbsolute (name ++ rest) = false := by
  obtain ⟨b, name, rfl⟩ := List.exists_cons_of_ne_nil hne
  simp only [List.mem_cons, not_or] at hslash
  simpa [isAbsolute] using Ne.symm hslash.1

theorem isAbsolute_pathOf {names : Location} (hne : ∀ name ∈ names, name ≠ [])
    (hslash : ∀ name ∈ names, slash ∉ name) : isAbsolute (pathOf names) = false := by
  cases names with
  | nil => rfl
  | cons name names =>
      rw [List.forall_mem_cons] at hne hslash
      by_cases hnil : names = []
      · subst hnil
        change isAbsolute name = false
        simpa using isAbsolute_append hne.1 hslash.1 []
      · rw [pathOf_cons name hnil]
        exact isAbsolute_append hne.1 hslash.1 _

theorem endsInSlash_append {name : Name} (hne : name ≠ []) (hslash : slash ∉ name) (base : Path) :
    endsInSlash (base ++ name) = false := by
  rw [endsInSlash, List.getLast?_append, List.getLast?_eq_some_getLast hne, Option.some_or,
    beq_eq_false_iff_ne]
  intro hlast
  exact hslash (Option.some.inj hlast ▸ List.getLast_mem hne)

/-- Joining a name and then a path is joining the path behind the name. -/
theorem join_join {name : Name} (hne : name ≠ []) (hslash : slash ∉ name) (base : Path)
    {relative : Path} (hrelative : relative.isAbsolute = false) :
    (base.join name).join relative = base.join (name ++ slash :: relative) := by
  have habsolute : isAbsolute name = false := by simpa using isAbsolute_append hne hslash []
  have hend (front : Path) := endsInSlash_append hne hslash front
  have hself : endsInSlash name = false := by simpa using hend []
  unfold join
  rw [habsolute, isAbsolute_append hne hslash, hrelative]
  by_cases hempty : base.isEmpty = true
  · simp [hempty, hne, hself]
  rw [Bool.not_eq_true] at hempty
  have hbehind : endsInSlash (base ++ slash :: name) = false := by
    simpa using hend (base ++ [slash])
  by_cases hbase : base.endsInSlash = true
  · simp [hempty, hbase, hend, hne]
  · simp [hempty, hbase, hbehind]

theorem joinAll_eq_join {names : Location} (hnames : names ≠ [])
    (hne : ∀ name ∈ names, name ≠ []) (hslash : ∀ name ∈ names, slash ∉ name) (base : Path) :
    joinAll base names = base.join (pathOf names) := by
  induction names generalizing base with
  | nil => exact absurd rfl hnames
  | cons name names ih =>
      by_cases hnil : names = []
      · subst hnil
        rfl
      · rw [List.forall_mem_cons] at hne hslash
        calc joinAll base (name :: names)
            = (base.join name).join (pathOf names) := ih hnil hne.2 hslash.2 (base.join name)
          _ = base.join (name ++ slash :: pathOf names) :=
            join_join hne.1 hslash.1 base (isAbsolute_pathOf hne.2 hslash.2)
          _ = base.join (pathOf (name :: names)) := by rw [pathOf_cons name hnil]

theorem isAbsolute_foldl_join {base : Path} (h : base.isAbsolute = true) (texts : List Path) :
    (texts.foldl join base).isAbsolute = true := by
  induction texts generalizing base with
  | nil => exact h
  | cons text texts ih =>
      refine ih ?_
      unfold join
      by_cases htext : text.isAbsolute = true
      · simp [htext]
      · have hne : base ≠ [] := by
          rintro rfl
          simp [isAbsolute] at h
        obtain ⟨b, rest, rfl⟩ := List.exists_cons_of_ne_nil hne
        simp only [htext, Bool.false_or, List.isEmpty_cons, Bool.false_eq_true, if_false]
        split <;> simpa [isAbsolute] using h

/-! ## The text of a cleaned path -/

/-- The path that leads below a directory through some names; a dot if there are none. -/
def spell (names : Location) : Path := if names = [] then [dot] else pathOf names

theorem parent_mem_mark {offset : Nat} {parts : List Name} (h : [dot, dot] ∈ parts) :
    .parent ∈ (mark offset parts).map Prod.fst := by
  induction parts generalizing offset with
  | nil => simp at h
  | cons part parts ih =>
      rw [mark]
      by_cases hdots : part = [dot, dot]
      · simp [hdots]
      · have hrest : .parent ∈ (mark (offset + part.length + 1) parts).map Prod.fst :=
          ih ((List.mem_cons.mp h).resolve_left (Ne.symm hdots))
        grind

/-- A path whose text has a `..` among its parts, or starts with a slash, leads elsewhere. -/
theorem not_staysBelow_of_parent {path : Path} (h : [dot, dot] ∈ path.split) :
    path.staysBelow = false := by
  have hmem : .parent ∈ path.components := by
    rw [components, marked, List.map_append]
    exact List.mem_append_right _ (parent_mem_mark h)
  rw [staysBelow, List.all_eq_false]
  exact ⟨.parent, hmem, by simp⟩

theorem not_staysBelow_of_isAbsolute {path : Path} (h : path.isAbsolute = true) :
    path.staysBelow = false := by
  have hmem : .root ∈ path.components := by simp [components, marked, h]
  rw [staysBelow, List.all_eq_false]
  exact ⟨.root, hmem, by simp⟩

theorem clean_of_ne_nil {path : Path} (h : path.cleanComponents ≠ []) :
    path.clean = (path.cleanComponents.map Component.text).foldl join [] := by
  unfold clean
  split
  · exact absurd (by assumption) h
  · rfl

/-- The root is the first component of a cleaned path, and makes its text absolute. -/
theorem isAbsolute_clean {path : Path} (h : path.isAbsolute = true) :
    path.clean.isAbsolute = true := by
  have hcomponents := cleanComponents_eq path
  obtain ⟨done, hdone⟩ := exists_foldl_cancelPart_root path.split []
  rw [h, if_pos rfl, show [Component.root] = [] ++ [.root] from rfl, hdone,
    List.reverse_append] at hcomponents
  rw [clean_of_ne_nil (by simp [hcomponents]), hcomponents]
  have hroot : isAbsolute [slash] = true := rfl
  exact isAbsolute_foldl_join hroot _

section Relative

variable {path : Path} (habsolute : path.isAbsolute = false)

include habsolute

theorem cleanComponents_of_relative :
    path.cleanComponents = (path.split.foldl cancelPart []).reverse := by
  rw [cleanComponents_eq, habsolute, if_neg (by simp)]

/-- The texts of the components are the parts of the cleaned path. -/
theorem clean_eq_pathOf (hne : path.cleanComponents ≠ []) :
    path.clean = pathOf (path.cleanComponents.map Component.text) ∧
      path.clean.split = path.cleanComponents.map Component.text := by
  have hmem : ∀ c ∈ path.split.foldl cancelPart [],
      c = .parent ∨ ∃ name, c = .name name ∧ IsName name :=
    mem_foldl_cancelPart (fun _ => slash_notMem_of_mem_split) (by simp)
  have htexts : ∀ text ∈ path.cleanComponents.map Component.text, text ≠ [] ∧ slash ∉ text := by
    intro text htext
    obtain ⟨component, hcomponent, rfl⟩ := List.mem_map.mp htext
    rw [cleanComponents_of_relative habsolute, List.mem_reverse] at hcomponent
    rcases hmem component hcomponent with rfl | ⟨name, rfl, hname⟩
    · exact ⟨by simp [Component.text], by decide⟩
    · exact ⟨hname.ne_nil, hname.slash_notMem⟩
  have hclean : path.clean = pathOf (path.cleanComponents.map Component.text) := by
    rw [clean_of_ne_nil hne]
    exact (joinAll_eq_join (by simpa using hne) (fun text htext => (htexts text htext).1)
      (fun text htext => (htexts text htext).2) []).trans (by simp [join])
  refine ⟨hclean, ?_⟩
  rw [hclean, split_pathOf (by simpa using hne) fun text htext => (htexts text htext).2]

/-- A path without a `..` that is left over is spelled by the names that are left. -/
theorem clean_of_notMem_parent (h : .parent ∉ path.split.foldl cancelPart []) :
    path.clean = spell (reduce dot path.split) := by
  have hcomponents := cleanComponents_of_relative habsolute
  have hstack : path.split.foldl cancelPart [] =
      ((reduce dot path.split).map .name).reverse := @foldl_cancelPart path.split [] h
  rw [hstack, List.reverse_reverse] at hcomponents
  unfold spell
  split
  · rename_i hnil
    have hnil' : path.cleanComponents = [] := by simpa [hcomponents] using hnil
    simp [clean, hnil']
  · rename_i hne
    rw [(clean_eq_pathOf habsolute (by simpa [hcomponents] using hne)).1, hcomponents,
      List.map_map]
    exact congrArg pathOf (List.map_id _)

/-- A `..` that is left over is part of the cleaned path. -/
theorem not_staysBelow_clean (h : .parent ∈ path.split.foldl cancelPart []) :
    path.clean.staysBelow = false := by
  rw [← List.mem_reverse, ← cleanComponents_of_relative habsolute] at h
  refine not_staysBelow_of_parent ?_
  rw [(clean_eq_pathOf habsolute (List.ne_nil_of_mem h)).2]
  exact List.mem_map_of_mem h

end Relative

/-- A cleaned path that stays below is relative, and is spelled by the names that are left. -/
theorem clean_eq_spell {path : Path} (h : path.clean.staysBelow = true) :
    path.isAbsolute = false ∧ path.clean = spell (reduce dot path.split) := by
  cases habsolute : path.isAbsolute with
  | true =>
      rw [not_staysBelow_of_isAbsolute (isAbsolute_clean habsolute)] at h
      cases h
  | false =>
      refine ⟨rfl, clean_of_notMem_parent habsolute fun hparent => ?_⟩
      rw [not_staysBelow_clean habsolute hparent] at h
      cases h

theorem isAbsolute_spell {names : Location} (h : ∀ name ∈ names, IsName name) :
    (spell names).isAbsolute = false := by
  unfold spell
  split
  · rfl
  · exact isAbsolute_pathOf (fun name hname => (h name hname).ne_nil)
      (fun name hname => (h name hname).slash_notMem)

theorem split_spell {names : Location} (h : ∀ name ∈ names, IsName name) :
    (spell names).split = if names = [] then [[dot]] else names := by
  unfold spell
  split
  · rfl
  · exact split_pathOf (by assumption) fun name hname => (h name hname).slash_notMem

/-! ## Names of files as texts -/

theorem foldl_pass_map {α β : Type} [DecidableEq α] [DecidableEq β] {f : List α → List β}
    (hf : Function.Injective f) {dot : α} {dot' : β} (hnil : f [] = []) (hdot : f [dot] = [dot'])
    (hdots : f [dot, dot] = [dot', dot']) (parts passed : List (List α)) :
    (parts.map f).foldl (pass dot') (passed.map f) = (parts.foldl (pass dot) passed).map f := by
  induction parts generalizing passed with
  | nil => rfl
  | cons part parts ih =>
      have hstep : pass dot' (passed.map f) (f part) = (pass dot passed part).map f := by
        have hstays : (f part = [] ∨ f part = [dot']) ↔ part = [] ∨ part = [dot] := by
          rw [← hf.eq_iff, hnil, ← hf.eq_iff, hdot]
        have hback : f part = [dot', dot'] ↔ part = [dot, dot] := by rw [← hf.eq_iff, hdots]
        simp only [pass, hstays, hback]
        split
        · rfl
        split
        · exact List.map_dropLast.symm
        · simp
      rw [List.map_cons, List.foldl_cons, hstep, ih, List.foldl_cons]

/-- The parts of a name are texts of their own. -/
theorem split_ofString (name : String) :
    (ofString name).split =
      (name.toList.splitOn '/').map (·.flatMap String.utf8EncodeChar) := by
  have hslash : UInt8.ofNat '/'.toNat = slash := rfl
  rw [split_eq_splitOn, ofString, Text.bytes_eq_flatMap, ← hslash,
    Text.splitOn_flatMap_utf8EncodeChar (by decide)]

/-- The cleaned name of a file, as a path, leads through the names that the file's name leads
through. -/
theorem ofString_cleanName (name : String) : ofString (cleanName name) = pathOf (reduced name) := by
  have hreduced : reduced name =
      (reduce '.' (name.toList.splitOn '/')).map (·.flatMap String.utf8EncodeChar) := by
    rw [reduced, split_ofString]
    exact foldl_pass_map (fun _ _ => Text.flatMap_utf8EncodeChar_inj.mp) rfl rfl rfl _ []
  rw [hreduced, ofString, cleanName, Text.bytes_ofList, pathOf_eq_intercalate]
  generalize reduce '.' (name.toList.splitOn '/') = parts
  induction parts with
  | nil => rfl
  | cons part parts ih =>
      cases parts with
      | nil => simp
      | cons second parts =>
          simp only [List.map_cons, List.intercalate_cons_cons, List.flatMap_append] at ih ⊢
          rw [ih]
          rfl

/-- A name of a file that is the path of some names leads through these. -/
theorem reduced_of_isName {name : String} {names : Location}
    (hnames : ∀ part ∈ names, IsName part) (h : ofString name = pathOf names) :
    reduced name = names := by
  rw [reduced, h]
  by_cases hnil : names = []
  · subst hnil
    rfl
  · rw [split_pathOf hnil fun part hpart => (hnames part hpart).slash_notMem]
    exact foldl_pass_of_isName hnames

/-- Such a name is clean. -/
theorem cleanName_of_isName {name : String} {names : Location}
    (hnames : ∀ part ∈ names, IsName part) (h : ofString name = pathOf names) :
    cleanName name = name := by
  rw [← Text.bytes_inj]
  exact (ofString_cleanName name).trans (reduced_of_isName hnames h ▸ h.symm)

end Path

/-! ## Destinations -/

namespace Tree

theorem destination?_eq_some {root path : Path} {name : String}
    (h : destination? root name = some path) : path = root.join (spell (reduced name)) := by
  unfold destination? at h
  dsimp only at h
  split at h
  · rename_i hbelow
    cases h
    rw [(clean_eq_spell hbelow).2]
    rfl
  · cases h

/-- The parts of a destination are those of the directory and behind them the names that the
file's name leads through. -/
theorem split_destination {root path : Path} {name : String}
    (h : destination? root name = some path) :
    path.split = root.leading ++ if reduced name = [] then [[dot]] else reduced name := by
  have hnames : ∀ part ∈ reduced name, IsName part := fun _ => isName_of_mem_reduced
  rw [destination?_eq_some h, split_join root (isAbsolute_spell hnames), split_spell hnames]

theorem isAbsolute_destination {root path : Path} {name : String}
    (h : destination? root name = some path) : path.isAbsolute = root.isAbsolute := by
  rw [destination?_eq_some h]
  exact isAbsolute_join root (isAbsolute_spell fun _ => isName_of_mem_reduced)

/-- Files have one destination if their names lead through the same names. -/
theorem destination?_eq_iff {root path path' : Path} {name name' : String}
    (h : destination? root name = some path) (h' : destination? root name' = some path') :
    path = path' ↔ reduced name = reduced name' := by
  constructor
  · rintro rfl
    have hsplit := (split_destination h).symm.trans (split_destination h')
    have htail := List.append_cancel_left hsplit
    -- a dot is no name, so both are empty or neither is
    have hdot (other : String) : reduced other ≠ [[dot]] := by
      intro hother
      have hmem : [dot] ∈ reduced other := by simp [hother]
      exact (isName_of_mem_reduced hmem).ne_dot rfl
    split at htail
    · rename_i hnil
      split at htail
      · rename_i hnil'
        rw [hnil, hnil']
      · exact absurd htail.symm (hdot name')
    · split at htail
      · exact absurd htail (hdot name)
      · exact htail
  · intro hreduced
    rw [destination?_eq_some h, destination?_eq_some h', hreduced]

end Tree

end Assets
