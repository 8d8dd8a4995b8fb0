/-!
# Class names in selector lists

A selector list is cut into class names and all other text.  Quoted strings and `url(...)` are cut
out whole, so that a dot inside them starts no class name.  A string that is not closed, or in
which a backslash stands before a line break, is no string; then its quote is text like any other.
-/

namespace Assets.Css

/-- A piece of a selector list. -/
inductive Token where
  /-- A dot and the class name after it; the dot is not part of the name. -/
  | className (name : List Char)
  | other (text : List Char)
  deriving DecidableEq, Repr

def isNameStart (c : Char) : Bool := c.isAlpha || c == '_'

def isNameChar (c : Char) : Bool := c.isAlphanum || c == '_' || c == '-'

/-- A class name, after its dot: it may start with one hyphen, and goes on as far as it can. -/
def readName? : List Char → Option (List Char × List Char)
  | [] => none
  | c :: rest =>
    if c = '-' then
      match rest with
      | d :: tail =>
        if isNameStart d then
          some (c :: d :: tail.takeWhile isNameChar, tail.dropWhile isNameChar)
        else none
      | [] => none
    else if isNameStart c then some (c :: rest.takeWhile isNameChar, rest.dropWhile isNameChar)
    else none

/-- The rest of a quoted string, through its closing quote.  A backslash takes the next character
with it. -/
def closeString? (quote : Char) : List Char → Option (List Char × List Char)
  | [] => none
  | c :: rest =>
    if c = quote then some ([c], rest)
    else if c = '\\' then
      match rest with
      | [] => none
      | d :: tail =>
        if d = '\n' then none
        else (closeString? quote tail).map fun (body, left) => (c :: d :: body, left)
    else (closeString? quote rest).map fun (body, left) => (c :: body, left)

/-- The rest of a `url(...)`, through its closing parenthesis. -/
def closeUrl? (cs : List Char) : Option (List Char × List Char) :=
  match cs.dropWhile (· ≠ ')') with
  | [] => none
  | c :: rest => some (cs.takeWhile (· ≠ ')') ++ [c], rest)

/-- The string, `url(...)` or class name at the start of a text, if there is one. -/
def readToken? : List Char → Option (Token × List Char)
  | '"' :: rest => (closeString? '"' rest).map fun (body, left) => (.other ('"' :: body), left)
  | '\'' :: rest => (closeString? '\'' rest).map fun (body, left) => (.other ('\'' :: body), left)
  | 'u' :: 'r' :: 'l' :: '(' :: rest =>
    (closeUrl? rest).map fun (body, left) => (.other ("url(".toList ++ body), left)
  | '.' :: rest => (readName? rest).map fun (name, left) => (.className name, left)
  | _ => none

theorem readName?_length {cs name left : List Char} (h : readName? cs = some (name, left)) :
    left.length < cs.length := by
  unfold readName? at h
  split at h
  · simp at h
  · have hdrop : ∀ l : List Char, (l.dropWhile isNameChar).length ≤ l.length :=
      fun l => (List.dropWhile_sublist isNameChar).length_le
    split at h
    · split at h
      · rename_i tail
        split at h <;> simp at h
        rw [← h.2]; have := hdrop tail; simp only [List.length_cons]; omega
      · simp at h
    · rename_i tail _
      split at h <;> simp at h
      rw [← h.2]; have := hdrop tail; simp only [List.length_cons]; omega

theorem closeString?_length {quote : Char} {cs body left : List Char}
    (h : closeString? quote cs = some (body, left)) : left.length < cs.length := by
  fun_induction closeString? quote cs generalizing body left with
  | case1 => simp at h
  | case2 => simp at h; rw [← h.2]; simp
  | case3 => simp at h
  | case4 => simp at h
  | case5 _ _ _ _ ih =>
    simp only [Option.map_eq_some_iff, Prod.mk.injEq] at h
    obtain ⟨⟨b, l⟩, hclose, _, rfl⟩ := h
    have := ih hclose; simp only [List.length_cons]; omega
  | case6 _ _ _ _ ih =>
    simp only [Option.map_eq_some_iff, Prod.mk.injEq] at h
    obtain ⟨⟨b, l⟩, hclose, _, rfl⟩ := h
    have := ih hclose; simp only [List.length_cons]; omega

theorem closeUrl?_length {cs body left : List Char} (h : closeUrl? cs = some (body, left)) :
    left.length < cs.length := by
  unfold closeUrl? at h
  split at h
  · simp at h
  · rename_i c rest hdrop
    simp at h
    have := (List.dropWhile_sublist (l := cs) (· ≠ ')')).length_le
    rw [hdrop] at this
    rw [← h.2]; simp only [List.length_cons] at this; omega

theorem readToken?_length {cs left : List Char} {token : Token}
    (h : readToken? cs = some (token, left)) : left.length < cs.length := by
  unfold readToken? at h
  split at h
  all_goals first
    | simp at h; done
    | skip
  all_goals
    simp only [Option.map_eq_some_iff, Prod.mk.injEq] at h
    obtain ⟨⟨b, l⟩, hread, _, rfl⟩ := h
  · have := closeString?_length hread; simp only [List.length_cons]; omega
  · have := closeString?_length hread; simp only [List.length_cons]; omega
  · have := closeUrl?_length hread; simp only [List.length_cons]; omega
  · have := readName?_length hread; simp only [List.length_cons]; omega

/-- Cuts a selector list into class names and other text, from the left. -/
def tokens : List Char → List Token
  | [] => []
  | c :: rest =>
    match _hread : readToken? (c :: rest) with
    | some (token, left) => token :: tokens left
    | none => .other [c] :: tokens rest
termination_by cs => cs.length
decreasing_by
  · exact readToken?_length _hread
  · simp

namespace Token

def source : Token → List Char
  | className name => '.' :: name
  | other text => text

def withSuffix (suffix : List Char) : Token → List Char
  | className name => '.' :: name ++ '_' :: suffix
  | other text => text

def name? : Token → Option (List Char)
  | className name => some name
  | other _ => none

end Token

end Assets.Css
