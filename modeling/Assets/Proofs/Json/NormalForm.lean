import Assets.Json.Module
import Assets.Proofs.Json.ControlFree
import Assets.Proofs.Json.Reading

/-!
# The normal form of documents

A document whose numbers are integers within 64 bits is regular (`regular_of_parse`), and a regular
document comes back from its written form (`parse_write`).  So the written form is a normal form: it
is a text for the same document, it is its own module text, and different documents have different
ones (`write_inj`).

* `document_normal_form`: the module of a document, and when two documents have the same module.
* `document_normal_form_mixed`: a document that is not in normal form.
-/

namespace Assets.Json

/-- An accepted file becomes the module of its document. -/
theorem transformer_of_parse {text : String} {document : Value} (h : parse text = .ok document)
    (name : String) :
    (transformer ⟨name, text⟩).outcome =
      .value (some ⟨name, String.ofList (moduleText document)⟩) := by
  rw [transformer, toModule, h]
  rfl

/-- Documents that are read back have different written forms. -/
theorem write_inj {first second : Value} (hfirst : Regular maxDepth first)
    (hsecond : Regular maxDepth second) : first.write = second.write ↔ first = second := by
  refine ⟨fun heq => ?_, congrArg Value.write⟩
  have hread := parse_write hfirst
  rw [heq, parse_write hsecond] at hread
  exact (Except.ok.inj hread).symm

theorem moduleText_inj {first second : Value} (hfirst : Regular maxDepth first)
    (hsecond : Regular maxDepth second) :
    moduleText first = moduleText second ↔ first = second := by
  rw [← write_inj hfirst hsecond]
  unfold moduleText
  constructor
  · intro heq
    exact List.append_cancel_left (List.append_cancel_right heq)
  · intro heq
    rw [heq]

/-- **Documents have a normal form.**  A module exports a text without blanks and control characters
that stands for the document of the file and has the same module again.  So files of documents have
the same module if and only if their documents are equal. -/
theorem document_normal_form (file : File) (document : Value)
    (haccepted : parse file.content = .ok document) (hnumbers : IntegersOnly file.content.toList) :
    Regular maxDepth document ∧ ∃ text : List Char,
      (transformer file).outcome = .value (some ⟨file.name,
        String.ofList ("export default ".toList ++ text ++ ";\n".toList)⟩) ∧
      Compact text ∧ ControlFree text ∧ parse (String.ofList text) = .ok document ∧
      (transformer ⟨file.name, String.ofList text⟩).outcome = (transformer file).outcome ∧
      ∀ other otherDocument, parse other = .ok otherDocument → IntegersOnly other.toList →
        ((transformer ⟨file.name, other⟩).outcome = (transformer file).outcome ↔
          otherDocument = document) := by
  have hregular := regular_of_parse haccepted hnumbers
  have hmodule := transformer_of_parse haccepted file.name
  have hback := parse_write hregular
  have hcompact : Compact document.write := by
    rw [← List.append_nil document.write]
    exact compact_write hregular endsNumber_nil (by simp [Compact, lexemes])
  refine ⟨hregular, document.write, hmodule, hcompact, controlFree_write document, hback, ?_, ?_⟩
  · rw [transformer_of_parse hback]
    exact hmodule.symm
  · intro other otherDocument hother hintegers
    rw [transformer_of_parse hother, hmodule]
    rw [Outcome.value.injEq, Option.some.injEq, File.mk.injEq, String.ofList_inj,
      moduleText_inj (regular_of_parse hother hintegers) hregular]
    exact and_iff_right rfl

/-- Blanks, escapes, a pair of surrogates, a name given twice, and the bounds of 64 bits. -/
theorem document_normal_form_mixed :
    let file : File := ⟨"x.json", "\x7b \"b\": 1, \"a\\n\": \"\\ud83d\\ude00\",\n\"b\": " ++
      "[18446744073709551615, -9223372036854775808 ] \x7d"⟩
    let text : String := "\x7b\"a\\n\":\"😀\",\"b\":[18446744073709551615,-9223372036854775808]\x7d"
    ∃ document, parse file.content = .ok document ∧ IntegersOnly file.content.toList ∧
      Regular maxDepth document ∧ (transformer file).outcome = .value (some ⟨"x.json",
        String.ofList ("export default ".toList ++ text.toList ++ ";\n".toList)⟩) ∧
      Compact text.toList ∧ ControlFree text.toList ∧ parse text = .ok document ∧
      (transformer ⟨"x.json", text⟩).outcome = (transformer file).outcome := by
  intro file text
  have hread : (match parse file.content with
      | .ok document => decide (document.write = text.toList)
      | .error _ => false) = true := by
    decide +kernel
  have hlexemes : lexemes file.content.toList =
      [.mark '\x7b', .mark ' ', .mark ':', .mark ' ', .number "1".toList, .mark ',', .mark ' ',
        .mark ':', .mark ' ', .mark ',', .mark '\n', .mark ':', .mark ' ', .mark '[',
        .number "18446744073709551615".toList, .mark ',', .mark ' ',
        .number "-9223372036854775808".toList, .mark ' ', .mark ']', .mark ' ', .mark '\x7d'] := by
    decide +kernel
  have hnumbers : IntegersOnly file.content.toList := by
    intro number hnumber
    rw [hlexemes] at hnumber
    have hcases : number = "1".toList ∨ number = "18446744073709551615".toList ∨
        number = "-9223372036854775808".toList := by
      simpa only [List.mem_cons, reduceCtorEq, Lexeme.number.injEq, false_or, List.not_mem_nil,
        or_false] using hnumber
    rcases hcases with rfl | rfl | rfl
    · exact ⟨1, ⟨by decide, by decide⟩, by decide +kernel⟩
    · exact ⟨18446744073709551615, ⟨by decide, by decide⟩, by decide +kernel⟩
    · exact ⟨-9223372036854775808, ⟨by decide, by decide⟩, by decide +kernel⟩
  split at hread
  case h_2 => cases hread
  case h_1 document hparse =>
    have hwrite : document.write = text.toList := of_decide_eq_true hread
    obtain ⟨hregular, written, hmodule, hcompact, hcontrol, hback, hsame, -⟩ :=
      document_normal_form file document hparse hnumbers
    have hwritten : written = text.toList := by
      rw [transformer_of_parse hparse, Outcome.value.injEq, Option.some.injEq,
        File.mk.injEq] at hmodule
      have htext : moduleText document = _ := String.ofList_inj.mp hmodule.2
      rw [← hwrite]
      exact (List.append_cancel_left (List.append_cancel_right htext)).symm
    rw [hwritten, String.ofList_toList] at hback
    rw [hwritten, String.ofList_toList] at hsame
    rw [hwritten] at hmodule hcompact hcontrol
    exact ⟨document, hparse, hnumbers, hregular, hmodule, hcompact, hcontrol, hback, hsame⟩

end Assets.Json
