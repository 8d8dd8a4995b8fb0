import Assets.Css.Module
import Assets.Proofs.Css.ClassMap
import Assets.Proofs.Json.ControlFree
import Assets.Proofs.Json.RoundTrip
import Assets.Proofs.Text.Bytes

/-!
# Sheets inside their modules

The module of a sheet is a fixed text with three gaps, and what fills them is made of texts that
nobody has looked at: the sheet, the name of its file, the names of its classes.

* The gaps are filled with written documents.  These hold no line break, so the module has the lines
  that the fixed text has (`moduleText_eq_joinLines`, `splitOn_joinLines`).
* A document in a gap ends where its text ends, whatever the fixed text goes on with, and it is read
  back as it was (`Json.Encloses`).
* `sheet_stays_in_module`: both together.
-/

namespace Assets.Css

/-! ## Lines -/

/-- The text of some lines, each with a line break behind it. -/
def joinLines (lines : List (List Char)) : List Char := lines.flatMap (· ++ ['\n'])

theorem count_joinLines {lines : List (List Char)} (h : ∀ line ∈ lines, '\n' ∉ line) :
    (joinLines lines).count '\n' = lines.length := by
  induction lines with
  | nil => rfl
  | cons line lines ih =>
      have hline : line.count '\n' = 0 := List.count_eq_zero.mpr (h line List.mem_cons_self)
      have hlines := ih fun other hother => h other (List.mem_cons_of_mem _ hother)
      rw [joinLines, List.flatMap_cons, ← joinLines, List.count_append, List.count_append, hline,
        hlines, List.length_cons, List.count_singleton_self]
      omega

/-- Behind the last line break there is nothing. -/
theorem splitOn_joinLines {lines : List (List Char)} (h : ∀ line ∈ lines, '\n' ∉ line) :
    (joinLines lines).splitOn '\n' = lines ++ [[]] := by
  induction lines with
  | nil => rfl
  | cons line lines ih =>
      have hlines := ih fun other hother => h other (List.mem_cons_of_mem _ hother)
      rw [joinLines, List.flatMap_cons, ← joinLines, List.append_assoc, List.singleton_append,
        Text.splitOn_append_of_notMem (h line List.mem_cons_self),
        List.splitOn_cons_eq_if_modifyHead, if_pos (by simp), hlines]
      simp

/-! ## The lines of a module -/

/-- The lines of the module of a sheet. -/
def moduleLines (css source result : List Char) : List (List Char) :=
  ["const css = ".toList ++ css ++ ";".toList,
   "if (typeof document !== \"undefined\") \x7b".toList,
   "\tconst style = document.createElement(\"style\");".toList,
   "\tstyle.setAttribute(\"data-bundle-id\", ".toList ++ source ++ ");".toList,
   "\tstyle.textContent = css;".toList,
   "\tdocument.head.appendChild(style);".toList,
   "\x7d".toList,
   "export default ".toList ++ result ++ ";".toList]

theorem moduleText_eq_joinLines (css source result : List Char) :
    moduleText css source result = joinLines (moduleLines css source result) := by
  have hline (line : String) : (line ++ "\n").toList = line.toList ++ ['\n'] :=
    String.toList_append
  show "const css = ".toList ++ css ++ (";" ++ "\n").toList ++
    ("if (typeof document !== \"undefined\") \x7b" ++ "\n").toList ++
    ("\tconst style = document.createElement(\"style\");" ++ "\n").toList ++
    "\tstyle.setAttribute(\"data-bundle-id\", ".toList ++ source ++ (");" ++ "\n").toList ++
    ("\tstyle.textContent = css;" ++ "\n").toList ++
    ("\tdocument.head.appendChild(style);" ++ "\n").toList ++
    ("\x7d" ++ "\n").toList ++
    "export default ".toList ++ result ++ (";" ++ "\n").toList = _
  simp only [joinLines, moduleLines, hline, List.flatMap_cons, List.flatMap_nil, List.append_assoc,
    List.append_nil]

/-- Texts without line breaks leave the lines of a module as they are. -/
theorem notMem_moduleLines {css source result : List Char} (hcss : '\n' ∉ css)
    (hsource : '\n' ∉ source) (hresult : '\n' ∉ result) :
    ∀ line ∈ moduleLines css source result, '\n' ∉ line := by
  simp [moduleLines, hcss, hsource, hresult]

theorem newline_notMem_literal (s : List Char) : '\n' ∉ Json.literal s :=
  (Json.controlFree_literal s).notMem (by decide)

/-! ## What the module holds -/

/-- The name of a sheet is that of its module without the suffix of scripts. -/
theorem name_eq_sourceName (name : String) :
    name = sourceName name ++ ".js" ∨ hasSuffix ".js" name = false ∧ name = sourceName name := by
  unfold sourceName dropSuffix? hasSuffix
  cases h : ".js".toList.isSuffixOf name.toList with
  | false => exact .inr ⟨rfl, rfl⟩
  | true =>
      obtain ⟨front, hfront⟩ := List.isSuffixOf_iff_suffix.mp h
      left
      rw [if_pos rfl, Option.getD_some, ← hfront, List.length_append, Nat.add_sub_cancel,
        List.take_left', ← String.toList_inj, String.toList_append, String.toList_ofList, hfront]
      rfl

/-- The sheet that the module of a file puts into the document. -/
def moduleSheet (file : File) : String :=
  if hasSuffix ".module.css" (sourceName file.name) then
    (scope file.content (sourceName file.name)).sheet
  else file.content

/-- What the module of a file exports: its classes if they are scoped, else the sheet itself. -/
def moduleResult (file : File) : List Char :=
  if hasSuffix ".module.css" (sourceName file.name) then
    (classDocument (scope file.content (sourceName file.name)).classes).write
  else "css".toList

theorem toModule_eq (file : File) :
    toModule file = ⟨file.name, String.ofList (moduleText (Json.literal (moduleSheet file).toList)
      (Json.literal (sourceName file.name).toList) (moduleResult file))⟩ := by
  by_cases h : hasSuffix ".module.css" (sourceName file.name) = true
  · simp only [toModule, moduleSheet, moduleResult, h, if_true]
  · simp only [toModule, moduleSheet, moduleResult, h, if_false, Bool.false_eq_true]

theorem newline_notMem_moduleResult (file : File) : '\n' ∉ moduleResult file := by
  unfold moduleResult
  split
  · exact (Json.controlFree_write _).notMem (by decide)
  · decide

/-- **A sheet cannot break out of its module.**  Whatever a sheet and its name hold, the module has
its eight lines.  The literals in them are closed where they seem to be, and they stand for the
sheet, the name and the classes. -/
theorem sheet_stays_in_module (file : File) :
    ∃ module css source result, (transformer file).outcome = .value (some module) ∧
      module.name = file.name ∧
      module.content.toList.count '\n' = 8 ∧
      module.content.toList.splitOn '\n' = moduleLines css source result ++ [[]] ∧
      Json.Encloses css (.text (if hasSuffix ".module.css" (sourceName file.name) then
        (scope file.content (sourceName file.name)).sheet else file.content)) ∧
      Json.Encloses source (.text (sourceName file.name)) ∧
      (file.name = sourceName file.name ++ ".js" ∨
        hasSuffix ".js" file.name = false ∧ file.name = sourceName file.name) ∧
      if hasSuffix ".module.css" (sourceName file.name) then
        Json.Encloses result (classDocument (scope file.content (sourceName file.name)).classes)
      else result = "css".toList := by
  have hlines := notMem_moduleLines (newline_notMem_literal (moduleSheet file).toList)
    (newline_notMem_literal (sourceName file.name).toList) (newline_notMem_moduleResult file)
  refine ⟨toModule file, Json.literal (moduleSheet file).toList,
    Json.literal (sourceName file.name).toList, moduleResult file, rfl, by rw [toModule_eq],
    ?_, ?_, Json.encloses_literal _, Json.encloses_literal _, name_eq_sourceName _, ?_⟩
  · rw [toModule_eq, String.toList_ofList, moduleText_eq_joinLines, count_joinLines hlines]
    rfl
  · rw [toModule_eq, String.toList_ofList, moduleText_eq_joinLines, splitOn_joinLines hlines]
  · unfold moduleResult
    split
    · exact Json.encloses_texts (ascending_classes _ _)
    · rfl

end Assets.Css
