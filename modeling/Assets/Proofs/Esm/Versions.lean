import Assets.Proofs.Esm.Specifiers
import Assets.Proofs.Text.Bytes

/-!
# Where the version goes

A specifier is cut into its package and a path, and the URL of a bare specifier is put together from
the parts, with a version between them if the package is pinned.  Since nothing is lost between the
parts, this is the URL that the specifier has without pins, with the version put in.

* `IsPackage.cutAtNth_eq`, `IsPackage.cutAtNth_bytes`: the cut is in front of the first slash or the
  second one, whichever is counted, characters or bytes.  A slash is a byte of its own and no part
  of another character.
* `Options.resolve_eq_putIn`: the pin stands right behind the package, and taking it out again gives
  the URL without pins (`takeOut_putIn`).
* `pin_put_in_behind_package` has both.
-/

namespace Assets.Esm

/-! ## Cutting at a separator -/

/-- A list cut in front of a separator.  The separators are counted from zero; if there is none of
this number, all of the list is in the first part. -/
def cutAtNth {α : Type} [BEq α] (separator : α) (n : Nat) (xs : List α) : List α × List α :=
  match (xs.idxsOf separator)[n]? with
  | some place => xs.splitAt place
  | none => (xs, [])

section

variable {α : Type} [DecidableEq α] {separator : α} {n : Nat}

theorem cutAtNth_of_count_le {xs : List α} (h : xs.count separator ≤ n) :
    cutAtNth separator n xs = (xs, []) := by
  have hnone : (xs.idxsOf separator)[n]? = none := by
    rw [List.getElem?_eq_none_iff, List.length_idxsOf]
    exact h
  rw [cutAtNth, hnone]

theorem cutAtNth_append (front back : List α) :
    cutAtNth separator (front.count separator) (front ++ separator :: back) =
      (front, separator :: back) := by
  have hplace : ((front ++ separator :: back).idxsOf separator)[front.count separator]? =
      some front.length := by
    -- those of `front` are counted first, so that this one has their number
    rw [List.idxsOf_append, List.getElem?_append_right (by simp), List.length_idxsOf,
      Nat.sub_self]
    simp
  rw [cutAtNth, hplace]
  simp

/-- A list is cut here if this is in front of a separator and the count is right. -/
theorem cutAtNth_eq {front back : List α} (hback : ∀ x ∈ back.head?, x = separator)
    (hnil : back = [] → front.count separator ≤ n)
    (hcons : back ≠ [] → front.count separator = n) :
    cutAtNth separator n (front ++ back) = (front, back) := by
  cases back with
  | nil =>
      rw [List.append_nil]
      exact cutAtNth_of_count_le (hnil rfl)
  | cons x back =>
      obtain rfl : x = separator := hback x rfl
      rw [← hcons (List.cons_ne_nil _ _)]
      exact cutAtNth_append front back

end

section

variable {specifier package path : List Char} (h : IsPackage specifier package path)

include h

/-- The package and the path are determined by where the slashes are. -/
theorem IsPackage.cutAtNth_eq :
    cutAtNth '/' (partCount specifier - 1) specifier = (package, path) := by
  have hcut : cutAtNth '/' (partCount specifier - 1) (package ++ path) = (package, path) :=
    Esm.cutAtNth_eq h.head? (fun hnil => Nat.le_sub_one_of_lt (h.count_of_nil hnil))
      (fun hne => Nat.eq_sub_of_add_eq (h.count_of_ne_nil hne))
  rwa [h.append] at hcut

/-- No slash is inside of another character, so that bytes are cut at the same place. -/
theorem IsPackage.cutAtNth_bytes :
    cutAtNth (UInt8.ofNat '/'.toNat) (partCount specifier - 1)
        (Text.bytes (String.ofList specifier)) =
      (Text.bytes (String.ofList package), Text.bytes (String.ofList path)) := by
  have hslash : '/'.toNat < 128 := by decide
  have hcount := Text.count_flatMap_utf8EncodeChar hslash package
  simp only [Text.bytes_ofList]
  rw [← h.append, List.flatMap_append, h.append]
  cases hpath : path with
  | nil =>
      refine Esm.cutAtNth_eq (by simp) (fun _ => ?_) (fun hne => (hne rfl).elim)
      rw [hcount]
      exact Nat.le_sub_one_of_lt (h.count_of_nil hpath)
  | cons slash rest =>
      obtain rfl : slash = '/' := h.head? slash (by rw [hpath]; rfl)
      -- the slash is one byte, so that the bytes of the path start with a separator, too
      rw [List.flatMap_cons, Text.utf8EncodeChar_of_ascii hslash, List.singleton_append]
      refine Esm.cutAtNth_eq (by simp) (fun hnil => by cases hnil) (fun _ => ?_)
      rw [hcount]
      exact Nat.eq_sub_of_add_eq (h.count_of_ne_nil (by simp [hpath]))

end

/-- Names with empty parts, or with one part where there should be two. -/
example : splitPackage "@/x".toList = ("@/x".toList, []) ∧
    splitPackage "@/x/".toList = ("@/x".toList, ['/']) ∧
    splitPackage "a//b".toList = (['a'], "//b".toList) := by decide

/-! ## Putting the version in -/

/-- A text with another one put in at a place. -/
def putIn (place : Nat) (extra text : List Char) : List Char :=
  text.take place ++ extra ++ text.drop place

/-- A text without so many characters from a place on. -/
def takeOut (place count : Nat) (text : List Char) : List Char :=
  text.take place ++ text.drop (place + count)

theorem putIn_append (front back extra : List Char) :
    putIn front.length extra (front ++ back) = front ++ extra ++ back := by
  rw [putIn, List.take_left, List.drop_left]

theorem putIn_nil (place : Nat) (text : List Char) : putIn place [] text = text := by
  rw [putIn, List.append_nil, List.take_append_drop]

theorem takeOut_putIn {place : Nat} {text : List Char} (h : place ≤ text.length)
    (extra : List Char) : takeOut place extra.length (putIn place extra text) = text := by
  have hplace : (text.take place).length = place := List.length_take_of_le h
  have hput : putIn place extra text = text.take place ++ extra ++ text.drop place := rfl
  have htake : (putIn place extra text).take place = text.take place := by
    rw [hput, List.append_assoc, List.take_left' hplace]
  have hdrop : (putIn place extra text).drop (place + extra.length) = text.drop place := by
    rw [hput, List.drop_left' (by rw [List.length_append, hplace])]
  rw [takeOut, htake, hdrop, List.take_append_drop]

/-- The options with no package pinned. -/
def Options.unpinned (options : Options) : Options := { options with dependencies := [] }

section

variable (options : Options) {specifier : List Char} (hbare : isBare specifier = true)

include hbare

theorem Options.resolve_unpinned :
    options.unpinned.resolve specifier = options.base ++ '/' :: specifier := by
  have hnone : options.unpinned.pin (splitPackage specifier).1 = [] := rfl
  rw [resolve, if_pos hbare, url]
  dsimp only
  rw [hnone, List.append_nil, List.append_assoc, List.cons_append, splitPackage_append]
  rfl

/-- Both URLs are made of the same parts, but for the pin. -/
theorem Options.resolve_eq_putIn :
    options.resolve specifier =
      putIn (options.base ++ '/' :: (splitPackage specifier).1).length
        (options.pin (splitPackage specifier).1) (options.unpinned.resolve specifier) := by
  have hparts : options.unpinned.resolve specifier =
      options.base ++ '/' :: (splitPackage specifier).1 ++ (splitPackage specifier).2 := by
    rw [options.resolve_unpinned hbare, List.append_assoc, List.cons_append, splitPackage_append]
  rw [hparts, putIn_append, resolve, if_pos hbare, url]

theorem Options.length_package_le_resolve_unpinned :
    (options.base ++ '/' :: (splitPackage specifier).1).length ≤
      (options.unpinned.resolve specifier).length := by
  have hsplit := congrArg List.length (splitPackage_append specifier)
  rw [options.resolve_unpinned hbare]
  simp only [List.length_append, List.length_cons] at hsplit ⊢
  omega

end

/-- **The version goes behind the package.**  A specifier is the package and the path together.  It
is cut in front of its first slash, or of the second one if it starts with `@`, by characters as by
bytes; if there is no such slash, all of it is the package.  The URL of a bare specifier is the one
that it has without pins, which is the base, a slash and the specifier, and if the package is
pinned, `@` and the version are put in right behind the package: taking them out again gives the URL
without pins. -/
theorem pin_put_in_behind_package (options : Options) (specifier : List Char) :
    ∃ package path, splitPackage specifier = (package, path) ∧
      package ++ path = specifier ∧ (path = [] ∨ path.head? = some '/') ∧
      cutAtNth '/' (partCount specifier - 1) specifier = (package, path) ∧
      cutAtNth (UInt8.ofNat '/'.toNat) (partCount specifier - 1)
          (Text.bytes (String.ofList specifier)) =
        (Text.bytes (String.ofList package), Text.bytes (String.ofList path)) ∧
      (isBare specifier = true →
        IsTrimmed options.cdn.toList options.base ∧
        options.unpinned.resolve specifier = options.base ++ '/' :: specifier ∧
        (options.dependencies.find? (String.ofList package) = none →
          options.resolve specifier = options.unpinned.resolve specifier) ∧
        ∀ version, options.dependencies.find? (String.ofList package) = some version →
          options.resolve specifier =
              putIn (options.base ++ '/' :: package).length ('@' :: version.toList)
                (options.unpinned.resolve specifier) ∧
            takeOut (options.base ++ '/' :: package).length ('@' :: version.toList).length
                (options.resolve specifier) = options.unpinned.resolve specifier) := by
  have hpackage := isPackage_splitPackage specifier
  have hpath : (splitPackage specifier).2 = [] ∨ (splitPackage specifier).2.head? = some '/' := by
    cases hhead : (splitPackage specifier).2.head? with
    | none => exact .inl (List.head?_eq_none_iff.mp hhead)
    | some slash => exact .inr (congrArg some (hpackage.head? slash hhead))
  refine ⟨(splitPackage specifier).1, (splitPackage specifier).2, rfl, hpackage.append, hpath,
    hpackage.cutAtNth_eq, hpackage.cutAtNth_bytes, fun hbare =>
      ⟨isTrimmed_base options, options.resolve_unpinned hbare, fun hnone => ?_,
        fun version hversion => ?_⟩⟩
  · rw [options.resolve_eq_putIn hbare, Options.pin, hnone]
    exact putIn_nil _ _
  · have hput := options.resolve_eq_putIn hbare
    rw [Options.pin, hversion] at hput
    refine ⟨hput, ?_⟩
    rw [hput]
    exact takeOut_putIn (options.length_package_le_resolve_unpinned hbare) _

/-- A pinned package of two parts, an empty part behind it, and slashes at the end of the base. -/
theorem pin_put_in_behind_package_scoped :
    let options : Options := ⟨"https://cdn.example//", [("@π/ß", "3.4")]⟩
    let specifier := "@π/ß//x".toList
    isBare specifier = true ∧ splitPackage specifier = ("@π/ß".toList, "//x".toList) ∧
      options.resolve specifier = "https://cdn.example/@π/ß@3.4//x".toList ∧
      options.unpinned.resolve specifier = "https://cdn.example/@π/ß//x".toList ∧
      takeOut 24 4 (options.resolve specifier) = options.unpinned.resolve specifier := by
  intro options specifier
  have hbare : isBare specifier = true := by decide
  have hsplit : splitPackage specifier = ("@π/ß".toList, "//x".toList) := by decide
  obtain ⟨package, path, hparts, -, -, -, -, hurl⟩ := pin_put_in_behind_package options specifier
  obtain ⟨rfl, rfl⟩ := Prod.mk.inj (hsplit.symm.trans hparts)
  obtain ⟨-, hunpinned, -, hpinned⟩ := hurl hbare
  obtain ⟨hput, htaken⟩ := hpinned "3.4" (by decide)
  have hplace : (options.base ++ '/' :: "@π/ß".toList).length = 24 := by decide
  rw [hplace] at htaken
  refine ⟨hbare, hsplit, hput.trans ?_, hunpinned.trans ?_, htaken⟩
  · rw [hunpinned]
    decide
  · decide

end Assets.Esm
