import Assets.Proofs.Dictionary.Union
import Assets.Proofs.Esm.Specifiers

/-!
# Pinning a package

Two sets of options may differ in the version of one package only.  Here it is shown how far that
goes: a specifier is looked up under its package, which is the specifier itself or the part of it
in front of a slash, so that no specifier of another package is pointed elsewhere.

* `resolve_eq_iff`: the target of a bare specifier changes exactly if the package is its own and the
  version of the package changes.
* `pin_stays_in_package`: two rewritten scripts have the same gaps, keywords and quotes, and differ
  only in targets of specifiers of the package.
-/

namespace Assets.Esm

/-- The name of a package, or the name with a slash and anything behind it. -/
def OfPackage (package specifier : List Char) : Prop :=
  specifier = package ∨ package ++ ['/'] <+: specifier

instance (package specifier : List Char) : Decidable (OfPackage package specifier) :=
  inferInstanceAs (Decidable (_ ∨ _))

/-- Options for one network that pin all packages but one alike. -/
structure Options.AgreeBut (package : String) (options other : Options) : Prop where
  cdn : other.cdn = options.cdn
  pins : ∀ name, name ≠ package → other.dependencies.find? name = options.dependencies.find? name

theorem IsPackage.ofPackage {specifier package path : List Char}
    (h : IsPackage specifier package path) : OfPackage package specifier := by
  have happend := h.append
  cases path with
  | nil => exact .inl (by rw [← happend, List.append_nil])
  | cons slash path =>
      obtain rfl : slash = '/' := h.head? slash rfl
      exact .inr ⟨path, by rw [← happend, List.append_assoc, List.singleton_append]⟩

theorem pin_eq_iff {options other : Options} {package : List Char} :
    other.pin package = options.pin package ↔
      other.dependencies.find? (String.ofList package) =
        options.dependencies.find? (String.ofList package) := by
  unfold Options.pin
  cases other.dependencies.find? (String.ofList package) <;>
    cases options.dependencies.find? (String.ofList package) <;> simp [String.toList_inj]

section

variable {package : String} {options other : Options} (hagree : options.AgreeBut package other)

include hagree

theorem Options.AgreeBut.base_eq : other.base = options.base := by
  rw [Options.base, Options.base, hagree.cdn]

theorem Options.AgreeBut.url_eq_iff (specifier : List Char) :
    other.url specifier = options.url specifier ↔
      other.pin (splitPackage specifier).1 = options.pin (splitPackage specifier).1 := by
  rw [Options.url, Options.url, hagree.base_eq]
  dsimp only
  rw [List.append_cancel_right_eq, List.append_cancel_left_eq]

/-- Exactly the specifiers of a package go with its version. -/
theorem Options.AgreeBut.resolve_eq_iff (specifier : List Char) :
    other.resolve specifier = options.resolve specifier ↔
      (isBare specifier = true → String.ofList (splitPackage specifier).1 = package →
        other.dependencies.find? package = options.dependencies.find? package) := by
  cases hbare : isBare specifier with
  | false => simp [Options.resolve, hbare]
  | true =>
      rw [Options.resolve, Options.resolve, if_pos hbare, if_pos hbare, hagree.url_eq_iff,
        pin_eq_iff]
      constructor
      · rintro h - rfl
        exact h
      · intro h
        by_cases hname : String.ofList (splitPackage specifier).1 = package
        · rw [hname]
          exact h rfl hname
        · exact hagree.pins _ hname

theorem Options.AgreeBut.of_resolve_ne {specifier : List Char}
    (h : other.resolve specifier ≠ options.resolve specifier) :
    isBare specifier = true ∧ OfPackage package.toList specifier := by
  simp only [ne_eq, hagree.resolve_eq_iff, Classical.not_imp] at h
  obtain ⟨hbare, rfl, -⟩ := h
  rw [String.toList_ofList]
  exact ⟨hbare, (isPackage_splitPackage specifier).ofPackage⟩

end

theorem exchange_congr {target other : List Char → List Char} {sites : List (List Char × Site)}
    (h : ∀ found ∈ sites, target found.2.specifier = other found.2.specifier) (last : List Char) :
    exchange target sites last = exchange other sites last := by
  induction sites with
  | nil => rfl
  | cons found sites ih =>
      obtain ⟨hfound, hsites⟩ := List.forall_mem_cons.mp h
      rw [exchange_cons, exchange_cons, hfound, ih hsites]

/-- **A pin stays in its package.**  Let two options pin all packages alike but one.  A script is
cut in one way, and rewriting it with either of them keeps its gaps, keywords and quotes.  Only bare
specifiers that are the name of the package, or start with the name and a slash, can have two
targets; if the script has none of them, rewriting does the same in both cases. -/
theorem pin_stays_in_package {package : String} {options other : Options}
    (hagree : options.AgreeBut package other) (file : File) :
    ∃ sites last, Cut none file.content.toList sites last ∧
      (∀ otherSites otherLast, Cut none file.content.toList otherSites otherLast →
        otherSites = sites ∧ otherLast = last) ∧
      (∀ given ∈ [options, other], (transformer given file).outcome =
        .value (if ∃ found ∈ sites, isBare found.2.specifier = true then
          some ⟨file.name, String.ofList (exchange given.resolve sites last)⟩ else none)) ∧
      (∀ found ∈ sites,
        other.resolve found.2.specifier ≠ options.resolve found.2.specifier →
          isBare found.2.specifier = true ∧ OfPackage package.toList found.2.specifier) ∧
      ((∀ found ∈ sites, isBare found.2.specifier = true →
          ¬OfPackage package.toList found.2.specifier) →
        transformer other file = transformer options file) := by
  obtain ⟨sites, last, hcut⟩ := exists_cut none file.content.toList
  refine ⟨sites, last, hcut, fun _ _ hother => hcut.unique hother,
    fun given _ => outcome_of_cut given hcut, fun found _ => hagree.of_resolve_ne, fun hnone => ?_⟩
  have hsame : ∀ found ∈ sites,
      other.resolve found.2.specifier = options.resolve found.2.specifier := by
    intro found hfound
    by_contra hne
    obtain ⟨hbare, hpackage⟩ := hagree.of_resolve_ne hne
    exact hnone found hfound hbare hpackage
  rw [transformer, transformer, rewrite?_of_cut other hcut, rewrite?_of_cut options hcut,
    exchange_congr hsame]

/-- Packages whose names start like that of the pinned one, and a path. -/
theorem pin_stays_in_package_vue :
    let options : Options := ⟨"https://esm.sh", [("@vue/shared", "3.4.0"), ("vue", "3.4.21")]⟩
    let other : Options := ⟨"https://esm.sh", [("@vue/shared", "3.4.0")]⟩
    let file : File :=
      ⟨"a.js", "import'vue-router'; import\"@vue/shared\"; export * from './vue/x'"⟩
    let importing : File := ⟨"b.js", "import 'vue/dist/x.js'"⟩
    options.AgreeBut "vue" other ∧ transformer other file = transformer options file ∧
      transformer other importing ≠ transformer options importing := by
  intro options other file importing
  have hagree : options.AgreeBut "vue" other := by
    refine ⟨rfl, fun name hname => ?_⟩
    rw [Dictionary.find?_cons, Dictionary.find?_cons, Dictionary.find?_cons, if_neg hname]
  refine ⟨hagree, ?_, by decide +kernel⟩
  obtain ⟨sites, last, -, hunique, -, -, hsame⟩ := pin_stays_in_package hagree file
  refine hsame ?_
  obtain ⟨rfl, -⟩ := hunique _ _ (cut_gather_pieces none file.content.toList)
  decide +kernel

end Assets.Esm
