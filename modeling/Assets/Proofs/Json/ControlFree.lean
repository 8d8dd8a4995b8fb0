import Assets.Json.Printer

/-!
# Written documents hold no control characters

Whatever texts a document holds, its written form is free of control characters: inside strings they
are escaped, and everything outside of strings is made of letters, digits and punctuation.  In
particular a written document holds no NUL and no line break.

The main statement is `controlFree_write`; it follows the writer, with one lemma for each kind of
text that the writer puts together: numbers (`controlFree_renderFloat`, `controlFree_render`),
string literals (`controlFree_literal`), and then lists and objects by induction on the document.
-/

namespace Assets.Json

/-- No character of a text comes before the space. -/
def ControlFree (cs : List Char) : Prop := ∀ c ∈ cs, 0x20 ≤ c.toNat

@[simp] theorem controlFree_nil : ControlFree [] := by simp [ControlFree]

@[simp] theorem controlFree_cons {c : Char} {cs : List Char} :
    ControlFree (c :: cs) ↔ 0x20 ≤ c.toNat ∧ ControlFree cs := List.forall_mem_cons

@[simp] theorem controlFree_append {cs ds : List Char} :
    ControlFree (cs ++ ds) ↔ ControlFree cs ∧ ControlFree ds := List.forall_mem_append

theorem ControlFree.mono {cs ds : List Char} (h : ControlFree cs) (hsub : ds ⊆ cs) :
    ControlFree ds := fun c hc => h c (hsub hc)

theorem ControlFree.notMem {cs : List Char} (h : ControlFree cs) {c : Char} (hc : c.toNat < 0x20) :
    c ∉ cs := fun hmem => absurd (h c hmem) (Nat.not_le.mpr hc)

/-! ## Numbers -/

theorem controlFree_toDigits (n : Nat) : ControlFree (Nat.toDigits 10 n) := by
  intro c hc
  have hdigit := Nat.isDigit_of_mem_toDigits (by decide) (by decide) hc
  have hle : '0'.toNat ≤ c.toNat := (Char.isDigit_iff_toNat.mp hdigit).1
  exact Nat.le_trans (by decide) hle

theorem controlFree_positional {digits : List Char} (h : ControlFree digits) (point : Int) :
    ControlFree (FloatFormat.positional digits point) := by
  have hzeros (n : Nat) : ControlFree (List.replicate n '0') := by
    intro c hc
    rw [List.eq_of_mem_replicate hc]
    decide
  have htake := h.mono (List.take_subset point.toNat digits)
  have hdrop := h.mono (List.drop_subset point.toNat digits)
  unfold FloatFormat.positional
  dsimp only
  split
  · simp [hzeros, h]
  · split <;> simp [hzeros, h, htake, hdrop]

theorem controlFree_scientific {digits : List Char} (h : ControlFree digits) (point : Int) :
    ControlFree (FloatFormat.scientific digits point) := by
  have htake := h.mono (List.take_subset 1 digits)
  have hfraction := h.mono (List.drop_subset 1 digits)
  have hexponent := controlFree_toDigits (point - 1).natAbs
  have hsign : 0x20 ≤ (if point - 1 < 0 then '-' else '+').toNat := by split <;> decide
  unfold FloatFormat.scientific
  dsimp only
  split <;> simp_all

theorem controlFree_renderFloat (format : FloatFormat) (negative : Bool) (x : Binary64) :
    ControlFree (format.render negative x).toList := by
  have hdigits := controlFree_toDigits x.shortest.digits
  simp only [FloatFormat.render, Nat.toString_eq_repr, Nat.toList_repr, String.toList_ofList,
    controlFree_append]
  refine ⟨by cases negative <;> simp, ?_⟩
  split
  · simp
  · split
    · exact controlFree_positional hdigits _
    · exact controlFree_scientific hdigits _

theorem controlFree_render (n : Number) : ControlFree n.render.toList := by
  cases n with
  | integer n =>
      rw [Number.render, Int.toString_eq_repr, Int.repr_eq_if]
      split <;> simp [controlFree_toDigits]
  | float negative magnitude => exact controlFree_renderFloat floatFormat negative magnitude

/-! ## String literals -/

theorem controlFree_hexDigits (width n : Nat) : ControlFree (Text.hexDigits width n) := by
  have hdigit : ∀ d < 16,
      0x20 ≤ (if d < 10 then Char.ofNat (48 + d) else Char.ofNat (87 + d)).toNat := by
    decide
  induction width generalizing n with
  | zero => simp [Text.hexDigits]
  | succ width ih => simp [Text.hexDigits, Text.hexDigit, ih, hdigit _ (Nat.mod_lt n (by decide))]

theorem controlFree_escapeChar (c : Char) : ControlFree (escapeChar c) := by
  unfold escapeChar
  repeat' split
  -- every escape is made of visible characters, and what is not escaped starts at the space
  all_goals simp_all [controlFree_hexDigits]

theorem controlFree_literal (s : List Char) : ControlFree (literal s) := by
  have hbody : ControlFree (s.flatMap escapeChar) := by
    intro c hc
    obtain ⟨d, -, hd⟩ := List.mem_flatMap.mp hc
    exact controlFree_escapeChar d c hd
  simp [literal, hbody]

/-! ## Documents -/

-- The recursion is that of the writer: a list or an object adds brackets, commas and colons to what
-- its items are written as.
mutual

theorem controlFree_write : (value : Value) → ControlFree value.write
  | .null => by simp [Value.write]
  | .boolean true => by simp [Value.write]
  | .boolean false => by simp [Value.write]
  | .number n => by simp [Value.write, controlFree_render]
  | .text s => by simp [Value.write, controlFree_literal]
  | .array items => by simp [Value.write, controlFree_writeItems items]
  | .object members => by simp [Value.write, controlFree_writeMembers members]

theorem controlFree_writeItems : (items : List Value) → ControlFree (Value.writeItems items)
  | [] => by simp [Value.writeItems]
  | [item] => by simp [Value.writeItems, controlFree_write item]
  | item :: next :: items => by
      simp [Value.writeItems, controlFree_write item, controlFree_writeItems (next :: items)]

theorem controlFree_writeMembers :
    (members : List (String × Value)) → ControlFree (Value.writeMembers members)
  | [] => by simp [Value.writeMembers]
  | [(name, value)] => by
      simp [Value.writeMembers, controlFree_literal, controlFree_write value]
  | (name, value) :: next :: members => by
      simp [Value.writeMembers, controlFree_literal, controlFree_write value,
        controlFree_writeMembers (next :: members)]

end

end Assets.Json
