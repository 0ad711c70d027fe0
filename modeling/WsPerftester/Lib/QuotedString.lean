import Mathlib.Data.List.Basic

/-! # Quoted strings

The values of a parameter list: a token, or a text between two double quotes in which a backslash
in front of a double quote takes away its meaning. Readers differ in what they do with a backslash
in front of another character: the grammar of HTTP drops it, a reader that only knows the escaped
quote keeps it (`kept`). A value is read back from between two quotes exactly when there is nothing
to escape in it and it does not take the closing quote for an escaped one (`unquote_append`,
`ReadFrom.plain`). -/

namespace QuotedString

/-- The double quote. -/
abbrev quote : Char := '\x22'

/-- The backslash. -/
abbrev escape : Char := '\x5c'

/-- The characters of a token. -/
def isTokenChar (c : Char) : Bool := c.isAlphanum || "!#$%&'*+-.^_`|~".toList.contains c

/-- What has been read, with one more character in front of the value. -/
def push (c : Char) (read : Option (List Char × List Char)) : Option (List Char × List Char) :=
  read.map fun (value, rest) => (c :: value, rest)

/-- Read behind the opening quote: the value and what follows the closing quote. -/
def unquote (kept : Bool) : List Char → Option (List Char × List Char)
  | [] => none
  | '\x22' :: cs => some ([], cs)
  | '\x5c' :: '\x22' :: cs => push quote (unquote kept cs)
  | '\x5c' :: c :: cs =>
        if kept then push escape (unquote kept (c :: cs)) else push c (unquote kept cs)
  | c :: cs => push c (unquote kept cs)

/-- Nothing in the value has to be escaped. -/
def Plain (kept : Bool) (value : List Char) : Prop :=
  quote ∉ value ∧ (kept = true ∨ escape ∉ value)

instance (kept : Bool) (value : List Char) : Decidable (Plain kept value) :=
  inferInstanceAs (Decidable (_ ∧ _))

/-- A value that a reader takes from a text: a token, possibly the empty one, or what it reads
behind one of the quotes. -/
def ReadFrom (kept : Bool) (text value : List Char) : Prop :=
  (∀ c ∈ value, isTokenChar c = true) ∨
    ∃ before cs rest, text = before ++ quote :: cs ∧ unquote kept cs = some (value, rest)

/-! ## Reading one character -/

variable {kept : Bool} {c : Char} {cs text value rest : List Char}

@[simp] theorem push_eq_some {read : Option (List Char × List Char)} :
    push c read = some (value, rest) ↔
      ∃ value', read = some (value', rest) ∧ c :: value' = value := by
  simp [push, Option.map_eq_some_iff]

/-- An ordinary character is part of the value. -/
theorem unquote_cons (hquote : c ≠ quote) (hescape : c ≠ escape) :
    unquote kept (c :: cs) = push c (unquote kept cs) := by
  rw [unquote] <;> simp_all

/-- A reader that only knows the escaped quote takes any other backslash as it is. -/
theorem unquote_escape (hquote : c ≠ quote) :
    unquote true (escape :: c :: cs) = push escape (unquote true (c :: cs)) := by
  rw [unquote] <;> simp_all

theorem plain_cons :
    Plain kept (c :: value) ↔ (c ≠ quote ∧ (kept = true ∨ c ≠ escape)) ∧ Plain kept value := by
  simp only [Plain, List.mem_cons, not_or]
  grind

/-! ## What is read -/

/-- A value takes no more characters than it was read from. -/
theorem unquote_length (h : unquote kept cs = some (value, rest)) :
    value.length + rest.length < cs.length := by
  fun_induction unquote kept cs generalizing value with
  | case1 => cases h
  | case2 cs => cases h; simp
  | case3 cs ih | case4 c cs _ hkept ih | case5 c cs _ hkept ih | case6 c cs _ _ _ ih =>
      obtain ⟨value', hread, rfl⟩ := push_eq_some.mp h
      have hlength := ih hread
      simp only [List.length_cons] at hlength ⊢
      omega

/-- A backslash at the end of the text leaves nothing to read. -/
theorem ne_escape (hescape : ∀ d ds, c = escape → cs = d :: ds → False)
    (h : unquote kept cs = some (value, rest)) : c ≠ escape := by
  intro hc
  cases cs with
  | nil => cases h
  | cons d ds => exact hescape d ds hc rfl

/-- If a value takes all the characters it was read from, nothing in it was escaped. -/
theorem plain_of_length (h : unquote kept cs = some (value, rest))
    (hlength : cs.length ≤ value.length + rest.length + 1) : Plain kept value := by
  fun_induction unquote kept cs generalizing value with
  | case1 => cases h
  | case2 cs => cases h; simp [Plain]
  | case3 cs ih =>
      -- two characters were read for one
      obtain ⟨value', hread, rfl⟩ := push_eq_some.mp h
      have := unquote_length hread
      simp only [List.length_cons] at hlength
      omega
  | case4 c cs hc hkept ih =>
      obtain ⟨value', hread, rfl⟩ := push_eq_some.mp h
      refine plain_cons.mpr ⟨⟨by decide, .inl hkept⟩, ih hread ?_⟩
      simp only [List.length_cons] at hlength ⊢
      omega
  | case5 c cs hc hkept ih =>
      obtain ⟨value', hread, rfl⟩ := push_eq_some.mp h
      have := unquote_length hread
      simp only [List.length_cons] at hlength
      omega
  | case6 c cs hquote hpair hescape ih =>
      obtain ⟨value', hread, rfl⟩ := push_eq_some.mp h
      refine plain_cons.mpr ⟨⟨hquote, .inr (ne_escape hescape hread)⟩, ih hread ?_⟩
      simp only [List.length_cons] at hlength
      omega

/-- A value that is read from something other than a quote is not empty. -/
theorem ne_nil_of_read (hquote : c ≠ quote) (h : unquote kept (c :: cs) = some (value, rest)) :
    value ≠ [] := by
  rintro rfl
  rw [unquote.eq_def] at h
  split at h
  case h_1 hnil => cases hnil
  case h_2 cs' hcons => exact hquote (List.cons.inj hcons).1
  case h_4 => split at h <;> simp at h
  all_goals simp at h

/-- One more character in front of a value. -/
theorem getLast_cons (hcons : c ≠ escape ∨ value ≠ []) (h : value.getLast? ≠ some escape) :
    (c :: value).getLast? ≠ some escape := by
  cases value with
  | nil => simpa using hcons
  | cons d ds => rwa [List.getLast?_cons_cons]

/-- The last character of a value is not a backslash: it would have escaped the closing quote. -/
theorem unquote_getLast (hkept : kept = true) (h : unquote kept cs = some (value, rest)) :
    value.getLast? ≠ some escape := by
  fun_induction unquote kept cs generalizing value with
  | case1 => cases h
  | case2 cs => cases h; simp
  | case3 cs ih =>
      obtain ⟨value', hread, rfl⟩ := push_eq_some.mp h
      exact getLast_cons (.inl (by decide)) (ih hread)
  | case4 c cs hc _ ih =>
      obtain ⟨value', hread, rfl⟩ := push_eq_some.mp h
      -- the backslash stays, but what it precedes is not the closing quote
      exact getLast_cons (.inr (ne_nil_of_read hc hread)) (ih hread)
  | case5 c cs hc hdropped ih => exact absurd hkept hdropped
  | case6 c cs hquote hpair hescape ih =>
      obtain ⟨value', hread, rfl⟩ := push_eq_some.mp h
      exact getLast_cons (.inl (ne_escape hescape hread)) (ih hread)

/-- A token needs no quotes: nothing in it has to be escaped. -/
theorem plain_of_token (h : ∀ c ∈ value, isTokenChar c = true) : Plain kept value :=
  ⟨fun hquote => absurd (h quote hquote) (by decide),
    .inr fun hescape => absurd (h escape hescape) (by decide)⟩

/-! ## Reading back what was put between quotes -/

/-- A plain value is read back from between two quotes, unless a backslash at its end escapes the
closing one. -/
theorem unquote_append (hplain : Plain kept value)
    (hlast : kept = true → value.getLast? ≠ some escape) (rest : List Char) :
    unquote kept (value ++ quote :: rest) = some (value, rest) := by
  induction value with
  | nil => rfl
  | cons c value ih =>
      obtain ⟨⟨hquote, hescape⟩, hvalue⟩ := plain_cons.mp hplain
      by_cases hc : c = escape
      · -- the reader keeps the backslash, and it is not the last character
        subst hc
        obtain rfl : kept = true := by simpa using hescape
        cases value with
        | nil => exact absurd rfl (hlast rfl)
        | cons d ds =>
          have hread := ih hvalue fun _ => by simpa using hlast rfl
          rw [List.cons_append] at hread
          rw [List.cons_append, List.cons_append, unquote_escape (plain_cons.mp hvalue).1.1, hread]
          rfl
      · have hread := ih hvalue fun hkept hvalueLast => hlast hkept (by
          rw [List.getLast?_cons, hvalueLast]; rfl)
        rw [List.cons_append, unquote_cons hquote hc, hread]
        rfl

/-- A value that a reader takes from a text does not end with a backslash. -/
theorem ReadFrom.getLast (h : ReadFrom true text value) : value.getLast? ≠ some escape := by
  rcases h with htoken | ⟨before, cs, rest, -, hread⟩
  · intro hlast
    exact absurd (htoken escape (List.mem_of_getLast? hlast)) (by decide)
  · exact unquote_getLast rfl hread

/-- A value that a reader takes from the text that has it between two quotes is plain: it was not
read from any other place, since there are not enough characters behind the other quotes. -/
theorem ReadFrom.plain {before : List Char} (hbefore : quote ∉ before)
    (h : ReadFrom kept (before ++ quote :: (value ++ [quote])) value) : Plain kept value := by
  rcases h with htoken | ⟨before', cs, rest, htext, hread⟩
  · exact plain_of_token htoken
  -- the first quote of the text is the opening one
  have hlength : before.length ≤ before'.length := by
    rcases List.append_eq_append_iff.mp htext with ⟨between, rfl, -⟩ | ⟨between, rfl, hbetween⟩
    · simp
    · cases between with
      | nil => simp
      | cons d ds =>
        obtain ⟨rfl, -⟩ := List.cons.inj hbetween
        exact absurd (by simp) hbefore
  have htotal := congrArg List.length htext
  simp only [List.length_append, List.length_cons, List.length_nil] at htotal
  exact plain_of_length hread (by omega)

end QuotedString
