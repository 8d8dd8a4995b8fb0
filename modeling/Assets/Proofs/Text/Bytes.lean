import Assets.Text.Bytes

/-!
# Text and its bytes

Text and its bytes determine each other (`ofBytes?_eq_some_iff`, `bytes_injective`).  A byte below
0x80 stands for a character of its own and is no part of another one (`mem_utf8EncodeChar_iff`), so
that a text can be cut at such a character before or after it is turned into bytes
(`splitOn_flatMap_utf8EncodeChar`).
-/

namespace Assets.Text

theorem bytes_eq_flatMap (s : String) : bytes s = s.toList.flatMap String.utf8EncodeChar := by
  have hbytes : s.toByteArray = s.toList.utf8Encode := by
    rw [← String.toByteArray_ofList, String.ofList_toList]
  simp [bytes, String.toUTF8, hbytes, List.utf8Encode]

theorem bytes_ofList (cs : List Char) :
    bytes (String.ofList cs) = cs.flatMap String.utf8EncodeChar := by
  rw [bytes_eq_flatMap, String.toList_ofList]

theorem ofBytes?_bytes (s : String) : ofBytes? (bytes s) = some s := by
  have harray : (⟨(bytes s).toArray⟩ : ByteArray) = s.toByteArray := by
    simp [bytes, String.toUTF8]
  unfold ofBytes? String.fromUTF8?
  rw [harray, dif_pos s.isValidUTF8]
  rfl

theorem ofBytes?_eq_some_iff {bs : List UInt8} {s : String} :
    ofBytes? bs = some s ↔ bs = bytes s := by
  constructor
  · intro h
    unfold ofBytes? String.fromUTF8? at h
    split at h
    · cases h
      simp [bytes, String.toUTF8, String.fromUTF8]
    · cases h
  · rintro rfl
    exact ofBytes?_bytes s

theorem bytes_inj {s t : String} : bytes s = bytes t ↔ s = t := by
  refine ⟨fun h => ?_, congrArg bytes⟩
  have hs := ofBytes?_bytes s
  rw [h, ofBytes?_bytes] at hs
  exact (Option.some.inj hs).symm

theorem flatMap_utf8EncodeChar_inj {cs ds : List Char} :
    cs.flatMap String.utf8EncodeChar = ds.flatMap String.utf8EncodeChar ↔ cs = ds := by
  rw [← bytes_ofList, ← bytes_ofList, bytes_inj, String.ofList_inj]

/-! ## ASCII characters -/

theorem utf8EncodeChar_of_ascii {c : Char} (hc : c.toNat < 128) :
    String.utf8EncodeChar c = [UInt8.ofNat c.toNat] :=
  if_pos (by simp only [Char.toNat] at hc; omega)

theorem le_of_mem_utf8EncodeChar {c : Char} (hc : 128 ≤ c.toNat) {b : UInt8}
    (hb : b ∈ String.utf8EncodeChar c) : 128 ≤ b.toNat := by
  unfold String.utf8EncodeChar at hb
  simp only [Char.toNat] at hc
  dsimp only at hb
  rw [if_neg (by omega)] at hb
  split at hb
  · simp only [List.mem_cons, List.not_mem_nil, or_false] at hb
    rcases hb with rfl | rfl <;> simp only [UInt8.toNat_ofNat'] <;> omega
  split at hb
  · simp only [List.mem_cons, List.not_mem_nil, or_false] at hb
    rcases hb with rfl | rfl | rfl <;> simp only [UInt8.toNat_ofNat'] <;> omega
  · simp only [List.mem_cons, List.not_mem_nil, or_false] at hb
    rcases hb with rfl | rfl | rfl | rfl <;> simp only [UInt8.toNat_ofNat'] <;> omega

/-- A byte below 0x80 occurs in one character only. -/
theorem mem_utf8EncodeChar_iff {c d : Char} (hd : d.toNat < 128) :
    UInt8.ofNat d.toNat ∈ String.utf8EncodeChar c ↔ c = d := by
  have hbyte : (UInt8.ofNat d.toNat).toNat = d.toNat := by
    rw [UInt8.toNat_ofNat']
    omega
  constructor
  · intro h
    rcases Nat.lt_or_ge c.toNat 128 with hc | hc
    · rw [utf8EncodeChar_of_ascii hc, List.mem_singleton, ← UInt8.toNat_inj, hbyte,
        UInt8.toNat_ofNat', Nat.mod_eq_of_lt (by omega)] at h
      exact Char.toNat_inj.mp h.symm
    · have hle := le_of_mem_utf8EncodeChar hc h
      omega
  · rintro rfl
    simp [utf8EncodeChar_of_ascii hd]

/-- An ASCII character is as often in a text as its byte is among the bytes of the text. -/
theorem count_flatMap_utf8EncodeChar {d : Char} (hd : d.toNat < 128) (cs : List Char) :
    (cs.flatMap String.utf8EncodeChar).count (UInt8.ofNat d.toNat) = cs.count d := by
  induction cs with
  | nil => rfl
  | cons c cs ih =>
      rw [List.flatMap_cons, List.count_append, ih]
      by_cases hc : c = d
      · subst hc
        rw [utf8EncodeChar_of_ascii hd, List.count_singleton_self, List.count_cons_self,
          Nat.add_comm]
      · rw [List.count_eq_zero_of_not_mem (by rwa [mem_utf8EncodeChar_iff hd]), Nat.zero_add,
          List.count_cons_of_ne hc]

/-! ## Cutting texts -/

theorem splitOn_append_of_notMem {α : Type} [DecidableEq α] {a : α} {front : List α}
    (h : a ∉ front) (back : List α) :
    (front ++ back).splitOn a = (back.splitOn a).modifyHead (front ++ ·) := by
  induction front with
  | nil =>
      simp only [List.nil_append]
      cases back.splitOn a <;> rfl
  | cons b front ih =>
      simp only [List.mem_cons, not_or] at h
      rw [List.cons_append, List.splitOn_cons_eq_if_modifyHead, ih h.2,
        if_neg (by simpa using Ne.symm h.1), List.modifyHead_modifyHead]
      rfl

theorem splitOn_flatMap_utf8EncodeChar {d : Char} (hd : d.toNat < 128) (cs : List Char) :
    (cs.flatMap String.utf8EncodeChar).splitOn (UInt8.ofNat d.toNat) =
      (cs.splitOn d).map (·.flatMap String.utf8EncodeChar) := by
  induction cs with
  | nil => rfl
  | cons c cs ih =>
      rw [List.flatMap_cons, List.splitOn_cons_eq_if_modifyHead]
      by_cases hc : c = d
      · subst hc
        rw [utf8EncodeChar_of_ascii hd, List.singleton_append, List.splitOn_cons_eq_if_modifyHead,
          if_pos (by simp), if_pos (by simp), ih]
        rfl
      · rw [splitOn_append_of_notMem (by rwa [mem_utf8EncodeChar_iff hd]), ih,
          if_neg (by simpa using hc)]
        cases cs.splitOn d <;> rfl

end Assets.Text
