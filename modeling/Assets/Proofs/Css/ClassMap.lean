import Assets.Proofs.Css.Scoping
import Assets.Proofs.Dictionary.Union

/-!
# The exported classes

A scoped sheet goes out with a dictionary of its classes, and the page looks its class names up
there.  The two must agree: a name that is missing in one of them is a class without a style, or
a style that nothing can use.

* `scope_append`: scoping knows no state across a brace.  Sheets that are joined behind a brace can
  be scoped one by one; the dictionary of the whole is the union of theirs.
* `scope_classes`: the keys of the dictionary are the class names that have a suffix in the sheet.
  `Marks` relates a sheet, what scoping made of it, and these names.  By `Marks.unique` the two
  texts leave no choice of the names, because a suffix starts with a character of names and no class
  name is followed by one.
-/

namespace Assets.Css

variable {mark suffix : List Char}

/-! ## Sheets joined at a brace -/

/-- A sheet that another one can follow: it is empty, or ends in a brace. -/
abbrev EndsAtBrace (sheet : List Char) : Prop := ∀ c ∈ sheet.getLast?, IsBrace c

/-- Induction along the braces of a sheet that ends in one. -/
@[elab_as_elim]
theorem EndsAtBrace.induction {motive : List Char → Prop} {sheet : List Char}
    (h : EndsAtBrace sheet) (nil : motive [])
    (brace : ∀ text brace rest, BraceFree text → IsBrace brace → motive rest →
      motive (text ++ brace :: rest)) : motive sheet := by
  induction sheet using sheet_induction with
  | last text htext =>
      cases hlast : text.getLast? with
      | none => rwa [List.getLast?_eq_none_iff.mp hlast]
      | some c => exact absurd (h c hlast) (htext c (List.mem_of_getLast? hlast))
  | brace text c rest htext hc ih =>
      refine brace text c rest htext hc (ih fun last hlast => h last ?_)
      rw [List.getLast?_append, List.getLast?_cons, Option.mem_def.mp hlast]
      rfl

theorem scopeSheet_join {front : List Char} (h : EndsAtBrace front) (rest suffix : List Char) :
    scopeSheet suffix (front ++ rest) = scopeSheet suffix front ++ scopeSheet suffix rest := by
  refine h.induction rfl fun text brace front htext hbrace ih => ?_
  rw [List.append_assoc, List.cons_append, scopeSheet_append htext hbrace,
    scopeSheet_append htext hbrace, ih, List.append_assoc]

theorem classNames_join {front : List Char} (h : EndsAtBrace front) (rest : List Char) :
    classNames (front ++ rest) = classNames front ++ classNames rest := by
  refine h.induction rfl fun text brace front htext hbrace ih => ?_
  rw [List.append_assoc, List.cons_append, classNames_append htext hbrace,
    classNames_append htext hbrace, ih, List.append_assoc]

/-! ## The dictionary of a sheet -/

/-- The scoped name of a class of the sheet of a file. -/
def scopedName (source name : String) : String := name ++ "_" ++ String.ofList (suffixFor source)

theorem toList_scopedName (source name : String) :
    (scopedName source name).toList = name.toList ++ '_' :: suffixFor source := by
  simp [scopedName]

theorem toList_sheet_scope (sheet source : String) :
    (scope sheet source).sheet.toList = scopeSheet (suffixFor source) sheet.toList :=
  String.toList_ofList

theorem ascending_classes (sheet source : String) : (scope sheet source).classes.Ascending :=
  Dictionary.ascending_ofList _

/-- The class names of a sheet, each with its scoped name. -/
theorem find?_classes (sheet source key : String) :
    (scope sheet source).classes.find? key =
      if key.toList ∈ classNames sheet.toList then some (scopedName source key) else none := by
  let entries := (classNames sheet.toList).map fun name =>
    (String.ofList name, String.ofList (name ++ '_' :: suffixFor source))
  have hvalue : ∀ entry ∈ entries, entry.2 = scopedName source entry.1 := by
    intro entry hentry
    obtain ⟨name, -, rfl⟩ := List.mem_map.mp hentry
    rw [← String.toList_inj, toList_scopedName, String.toList_ofList, String.toList_ofList]
  have hkey : key ∈ entries.map Prod.fst ↔ key.toList ∈ classNames sheet.toList := by
    rw [List.map_map, List.mem_map]
    refine ⟨?_, fun hmem => ⟨key.toList, hmem, String.ofList_toList⟩⟩
    rintro ⟨name, hname, rfl⟩
    rwa [Function.comp_apply, String.toList_ofList]
  have hfind := Dictionary.find?_ofList_of_forall hvalue key
  simp only [hkey] at hfind
  exact hfind

/-- The classes of a scoped sheet are its class names with their scoped names. -/
theorem mem_classes_iff {sheet source key value : String} :
    (key, value) ∈ (scope sheet source).classes ↔
      key.toList ∈ classNames sheet.toList ∧ value = scopedName source key := by
  rw [(ascending_classes sheet source).mem_iff, find?_classes]
  split
  · rename_i hkey
    rw [Option.some.injEq]
    exact ⟨fun hvalue => ⟨hkey, hvalue.symm⟩, fun h => h.2.symm⟩
  · rename_i hkey
    exact ⟨fun hfound => (nomatch hfound), fun h => absurd h.1 hkey⟩

theorem mem_keys_classes_iff {sheet source key : String} :
    key ∈ (scope sheet source).classes.keys ↔ key.toList ∈ classNames sheet.toList := by
  refine ⟨fun hkey => ?_, fun hname => ?_⟩
  · obtain ⟨⟨key, value⟩, hentry, rfl⟩ := List.mem_map.mp hkey
    exact (mem_classes_iff.mp hentry).1
  · exact List.mem_map.mpr ⟨_, mem_classes_iff.mpr ⟨hname, rfl⟩, rfl⟩

/-- Behind a brace nothing of a sheet is left over: a sheet and another one behind it are scoped as
one by scoping each, and the dictionary of the whole holds the classes of both.  A class that both
have goes by one scoped name. -/
theorem scope_append (front rest source : String) (h : EndsAtBrace front.toList) :
    (scope (front ++ rest) source).sheet =
        (scope front source).sheet ++ (scope rest source).sheet ∧
      (scope (front ++ rest) source).classes =
        (scope front source).classes.union (scope rest source).classes ∧
      ∀ key value value', (key, value) ∈ (scope front source).classes →
        (key, value') ∈ (scope rest source).classes → value = value' := by
  refine ⟨?_, ?_, ?_⟩
  · rw [← String.toList_inj, String.toList_append, toList_sheet_scope, toList_sheet_scope,
      toList_sheet_scope, String.toList_append, scopeSheet_join h]
  · rw [scope, String.toList_append, classNames_join h, List.map_append, Dictionary.ofList_append]
    rfl
  · intro key value value' hfront hrest
    rw [(mem_classes_iff.mp hfront).2, (mem_classes_iff.mp hrest).2]

/-- The block of the last brace may still be open. -/
theorem scope_append_open :
    '\x7b' ∈ ".a \x7b".toList.getLast? ∧ (∀ c ∈ ".a \x7b".toList.getLast?, IsBrace c) ∧
      (scope (".a \x7b" ++ "\x7d .b .a \x7b\x7d") "m").sheet =
        (scope ".a \x7b" "m").sheet ++ (scope "\x7d .b .a \x7b\x7d" "m").sheet := by
  have hends : EndsAtBrace ".a \x7b".toList := fun c hc => .inl (Option.some.inj hc).symm
  exact ⟨rfl, hends, (scope_append _ _ "m" hends).1⟩

/-! ## The marked names -/

/-- A text with a mark behind some of its class names.  A class name stands behind a dot and goes on
as far as it can; `names` are those with a mark, in the order of their places. -/
inductive Marks (mark : List Char) :
    (text result : List Char) → (names : List (List Char)) → Prop where
  | done : Marks mark [] [] []
  | keep {c text result names} (hrest : Marks mark text result names) :
      Marks mark (c :: text) (c :: result) names
  | name {name text result names} (hname : IsClassName name) (hends : EndsName text)
      (hrest : Marks mark text result names) :
      Marks mark ('.' :: (name ++ text)) ('.' :: (name ++ mark ++ result)) (name :: names)

namespace Marks

variable {text result : List Char} {names : List (List Char)}

theorem append (front : List Char) (h : Marks mark text result names) :
    Marks mark (front ++ text) (front ++ result) names := by
  induction front with
  | nil => exact h
  | cons c front ih => exact .keep ih

theorem same (text : List Char) : Marks mark text text [] := by
  induction text with
  | nil => exact .done
  | cons c text ih => exact .keep ih

/-- Characters of names are no dots, so no mark stands among them. -/
theorem exists_of_append {front : List Char} (hfront : ∀ c ∈ front, isNameChar c = true)
    (h : Marks mark (front ++ text) result names) :
    ∃ back, result = front ++ back ∧ Marks mark text back names := by
  induction front generalizing result with
  | nil => exact ⟨result, rfl, h⟩
  | cons c front ih =>
      obtain ⟨hc, hfront⟩ := List.forall_mem_cons.mp hfront
      generalize hwhole : c :: front ++ text = whole at h
      cases h with
      | done => cases hwhole
      | keep hrest =>
          obtain ⟨rfl, rfl⟩ := List.cons.inj hwhole
          obtain ⟨back, rfl, hback⟩ := ih hfront hrest
          exact ⟨back, rfl, hback⟩
      | name =>
          obtain ⟨rfl, -⟩ := List.cons.inj hwhole
          exact absurd hc (by decide)

/-- Where no name goes on, nothing starts like a mark that is made of characters of names. -/
theorem ne_mark_append {start : Char} (hstart : isNameChar start = true) (hends : EndsName text)
    {result : List Char} (h : Marks (start :: mark) text result names) (back : List Char) :
    result ≠ start :: mark ++ back := by
  intro heq
  cases h with
  | done => cases heq
  | @keep c text result names hrest =>
      obtain ⟨rfl, -⟩ := List.cons.inj heq
      exact absurd (hends c rfl) (by rw [hstart]; decide)
  | name =>
      obtain ⟨rfl, -⟩ := List.cons.inj heq
      exact absurd hstart (by decide)

end Marks

/-- What a text has become tells at which names the marks are. -/
theorem Marks.unique {start : Char} (hstart : isNameChar start = true)
    {text result : List Char} {names names' : List (List Char)}
    (h : Marks (start :: mark) text result names) (h' : Marks (start :: mark) text result names') :
    names = names' := by
  induction h generalizing names' with
  | done =>
      cases h'
      rfl
  | @keep c text result names hrest ih =>
      generalize hwhole : c :: text = whole at h'
      generalize hmade : c :: result = made at h'
      cases h' with
      | done => cases hwhole
      | keep hrest' =>
          obtain ⟨-, rfl⟩ := List.cons.inj hwhole
          obtain ⟨-, rfl⟩ := List.cons.inj hmade
          exact ih hrest'
      | @name name text' result' names' hname hends hrest' =>
          -- the dot is kept here, so the name is kept, and then there is no mark behind it
          obtain ⟨rfl, rfl⟩ := List.cons.inj hwhole
          obtain ⟨-, rfl⟩ := List.cons.inj hmade
          obtain ⟨back, hback, hmarks⟩ := exists_of_append hname.forall_isNameChar hrest
          rw [List.append_assoc] at hback
          exact absurd (List.append_cancel_left hback).symm (ne_mark_append hstart hends hmarks _)
  | @name name text result names hname hends hrest ih =>
      generalize hwhole : '.' :: (name ++ text) = whole at h'
      generalize hmade : '.' :: (name ++ start :: mark ++ result) = made at h'
      cases h' with
      | done => cases hwhole
      | keep hrest' =>
          obtain ⟨-, rfl⟩ := List.cons.inj hwhole
          obtain ⟨-, rfl⟩ := List.cons.inj hmade
          obtain ⟨back, hback, hmarks⟩ := exists_of_append hname.forall_isNameChar hrest'
          rw [List.append_assoc] at hback
          exact absurd (List.append_cancel_left hback).symm (ne_mark_append hstart hends hmarks _)
      | @name name' text' result' names' hname' hends' hrest' =>
          obtain ⟨rfl, rfl⟩ := eq_of_append_eq hname.forall_isNameChar hends
            hname'.forall_isNameChar hends' (List.cons.inj hwhole).2
          obtain rfl := List.append_cancel_left (List.cons.inj hmade).2
          rw [ih hrest']

/-! ## Scoping marks -/

/-- The suffixes of tokens are marks behind the class names among them. -/
theorem marks_tokens (list : List Token) {text result : List Char} {names : List (List Char)}
    (hnames : ∀ front name back, list = front ++ .className name :: back →
      IsClassName name ∧ EndsName (back.flatMap Token.source ++ text))
    (h : Marks ('_' :: suffix) text result names) :
    Marks ('_' :: suffix) (list.flatMap Token.source ++ text)
      (list.flatMap (Token.withSuffix suffix) ++ result)
      (list.filterMap Token.name? ++ names) := by
  induction list with
  | nil => exact h
  | cons token list ih =>
      have hrest := ih fun front name back heq =>
        hnames (token :: front) name back (by rw [heq]; rfl)
      rw [List.flatMap_cons, List.flatMap_cons, List.append_assoc, List.append_assoc]
      cases token with
      | className name =>
          obtain ⟨hname, hends⟩ := hnames [] name list rfl
          simpa [Token.source, Token.withSuffix, Token.name?] using Marks.name hname hends hrest
      | other other => exact hrest.append other

/-- Scoping marks the class names of a sheet. -/
theorem marks_scopeSheet (suffix sheet : List Char) :
    Marks ('_' :: suffix) sheet (scopeSheet suffix sheet) (classNames sheet) := by
  induction sheet using sheet_induction with
  | last text htext =>
      rw [scopeSheet_of_braceFree htext, classNames_of_braceFree htext]
      exact .same text
  | brace text brace rest htext hbrace ih =>
      rw [scopeSheet_append htext hbrace, classNames_append htext hbrace]
      by_cases hopens : (Stretch.mk text (some brace)).OpensRule
      case neg =>
        rw [Stretch.withSuffix_of_not_opensRule hopens, Stretch.selectorTokens, if_neg hopens,
          List.append_assoc]
        exact .append text (.keep ih)
      obtain rfl : brace = '\x7b' := Option.some.inj hopens.1
      have hlist := marks_tokens (tokens (selectorList text)) (fun front name back heq =>
        (of_tokens_eq_append heq).imp_right fun hends => hends.append_brace rest) (.keep ih)
      rw [flatMap_source_tokens] at hlist
      have hwhole := hlist.append (statements text)
      rw [← List.append_assoc, statements_append_selectorList] at hwhole
      simpa [Stretch.withSuffix_of_opensRule hopens, Stretch.selectorTokens, hopens] using hwhole

/-! ## Names of two sheets -/

/-- A scoped name ends in the suffix, so sheets with different suffixes share none. -/
theorem scopedName_ne {source source' : String} (h : suffixFor source ≠ suffixFor source')
    (name name' : String) : scopedName source name ≠ scopedName source' name' := by
  intro heq
  have htexts := congrArg String.toList heq
  rw [toList_scopedName, toList_scopedName] at htexts
  have hlength : ('_' :: suffixFor source).length = ('_' :: suffixFor source').length := by
    rw [List.length_cons, List.length_cons, length_suffixFor, length_suffixFor]
  exact h (List.cons.inj (List.append_inj_right' htexts hlength)).2

theorem scopedName_inj {source name name' : String} :
    scopedName source name = scopedName source name' ↔ name = name' := by
  rw [← String.toList_inj, toList_scopedName, toList_scopedName, List.append_cancel_right_eq,
    String.toList_inj]

/-- The classes of a scoped sheet are the names that have the suffix in it, each once and with its
scoped name.  No other name has that scoped name, and no class of a sheet with another suffix. -/
theorem scope_classes (sheet source : String) :
    ∃ names : List (List Char),
      (∀ others, Marks ('_' :: (digest source).toList.take 8) sheet.toList
        (scope sheet source).sheet.toList others ↔ others = names) ∧
      (scope sheet source).classes.keys.Nodup ∧
      (∀ key, key ∈ (scope sheet source).classes.keys ↔ key.toList ∈ names) ∧
      (∀ key value, (key, value) ∈ (scope sheet source).classes →
        value = key ++ "_" ++ String.ofList ((digest source).toList.take 8)) ∧
      (∀ key key' value, (key, value) ∈ (scope sheet source).classes →
        (key', value) ∈ (scope sheet source).classes → key = key') ∧
      ∀ sheet' source' : String,
        (digest source).toList.take 8 ≠ (digest source').toList.take 8 →
        ∀ key value key' value', (key, value) ∈ (scope sheet source).classes →
          (key', value') ∈ (scope sheet' source').classes → value ≠ value' := by
  have hmarks := marks_scopeSheet (suffixFor source) sheet.toList
  rw [← toList_sheet_scope] at hmarks
  refine ⟨classNames sheet.toList, ?_, ?_, fun _ => mem_keys_classes_iff, ?_, ?_, ?_⟩
  · intro others
    refine ⟨fun hothers => hothers.unique rfl hmarks, ?_⟩
    rintro rfl
    exact hmarks
  · refine List.pairwise_map.mpr ((ascending_classes sheet source).imp fun {a b} hlt heq => ?_)
    rw [heq] at hlt
    exact String.lt_irrefl b.1 hlt
  · intro key value hentry
    exact (mem_classes_iff.mp hentry).2
  · intro key key' value hentry hentry'
    have heq := (mem_classes_iff.mp hentry).2.symm.trans (mem_classes_iff.mp hentry').2
    exact scopedName_inj.mp heq
  · intro sheet' source' hsuffix key value key' value' hentry hentry'
    rw [(mem_classes_iff.mp hentry).2, (mem_classes_iff.mp hentry').2]
    exact scopedName_ne hsuffix key key'

end Assets.Css
