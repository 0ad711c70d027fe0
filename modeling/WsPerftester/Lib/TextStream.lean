import Mathlib.Data.List.Basic

/-! # Formatted input from a character stream

`operator>>` of the C++ streams for words, for integers and for truth values, in the C locale: white
space is skipped, the longest matching text is taken, and a stream that has failed stays failed and
assigns nothing (`none`). A number that does not fit is clamped, and text without digits yields
zero; both fail the stream. The round-trip rules say that what has been printed is read back when
nothing that could belong to it follows. -/

namespace TextStream

/-- White space of the C locale. -/
def isSpace (c : Char) : Bool := c = ' ' || (9 ≤ c.toNat && c.toNat ≤ 13)

/-- A text that is read back as one word: it is not empty and has no white space. -/
def isWord (w : String) : Bool := w != "" && w.toList.all fun c => !isSpace c

/-- What `isWord` tests. -/
theorem isWord_iff {w : String} :
    isWord w = true ↔ w.toList ≠ [] ∧ ∀ c ∈ w.toList, isSpace c = false := by
  simp [isWord]

/-- The characters left in a stream and whether an extraction has failed. -/
structure InStream where
  chars : List Char
  fail : Bool := false
  deriving DecidableEq, Repr

namespace InStream

/-- The characters behind the leading white space, if there are any. -/
def skipSpace (s : InStream) : List Char := s.chars.dropWhile isSpace

/-- Extract a word. -/
def getWord (s : InStream) : Option String × InStream :=
  if s.fail then (none, s)
  else if s.skipSpace = [] then (none, { chars := [], fail := true })
  else
    (some (String.ofList (s.skipSpace.takeWhile fun c => !isSpace c)),
      { chars := s.skipSpace.dropWhile fun c => !isSpace c })

/-- The optional sign of a number. -/
def splitSign : List Char → Bool × List Char
  | '-' :: cs => (true, cs)
  | '+' :: cs => (false, cs)
  | cs => (false, cs)

/-- Extract a decimal integer between `lo` and `hi`. -/
def getInt (lo hi : Int) (s : InStream) : Option Int × InStream :=
  if s.fail then (none, s)
  else if s.skipSpace = [] then (none, { chars := [], fail := true })
  else
    let (negative, cs) := splitSign s.skipSpace
    let digits := cs.takeWhile Char.isDigit
    let rest := cs.dropWhile Char.isDigit
    if digits = [] then (some 0, { chars := rest, fail := true })
    else
      let magnitude : Int := Nat.ofDigitChars 10 digits 0
      let value := if negative then -magnitude else magnitude
      if value < lo then (some lo, { chars := rest, fail := true })
      else if hi < value then (some hi, { chars := rest, fail := true })
      else (some value, { chars := rest })

/-- Extract a truth value: the number `0` or `1`, read as an integer between `lo` and `hi`. Any
other number counts as true and fails the stream. -/
def getBool (lo hi : Int) (s : InStream) : Option Bool × InStream :=
  match s.getInt lo hi with
  | (none, rest) => (none, rest)
  | (some value, rest) =>
      (some (value != 0), { rest with fail := rest.fail || (value != 0 && value != 1) })

end InStream

/-! ## Round trips -/

open InStream

/-- A digit is neither white space nor a sign. -/
theorem digit_ne {c : Char} (h : c.isDigit = true) : isSpace c = false ∧ c ≠ '-' ∧ c ≠ '+' := by
  have hrange : 48 ≤ c.toNat ∧ c.toNat ≤ 57 := by
    simp only [Char.isDigit, Bool.and_eq_true, decide_eq_true_eq] at h
    exact ⟨h.1, h.2⟩
  refine ⟨?_, ?_, ?_⟩
  · have hspace : c ≠ ' ' := by
      rintro rfl
      simp at hrange
    simp only [isSpace, hspace, decide_false, Bool.false_or, Bool.and_eq_false_iff,
      decide_eq_false_iff_not]
    omega
  · rintro rfl
    simp at hrange
  · rintro rfl
    simp at hrange

/-- The part of a list in front of the first element that fails a test. -/
theorem takeWhile_append_stop {α : Type} {p : α → Bool} {xs ys : List α}
    (hxs : ∀ x ∈ xs, p x = true) (hys : ∀ y ∈ ys.head?, p y = false) :
    (xs ++ ys).takeWhile p = xs ∧ (xs ++ ys).dropWhile p = ys := by
  rw [List.takeWhile_append_of_pos hxs, List.dropWhile_append_of_pos hxs]
  cases ys with
  | nil => simp
  | cons y ys =>
      have hy : ¬ p y = true := by simp [hys y rfl]
      rw [List.takeWhile_cons_of_neg hy, List.dropWhile_cons_of_neg hy, List.append_nil]
      exact ⟨rfl, rfl⟩

/-- A space is white space. -/
theorem isSpace_space : isSpace ' ' = true := rfl

/-- White space is skipped up to the first other character. -/
theorem skipSpace_append {blanks cs : List Char} {c : Char}
    (hblanks : ∀ b ∈ blanks, isSpace b = true) (hc : isSpace c = false) :
    skipSpace { chars := blanks ++ c :: cs } = c :: cs :=
  (takeWhile_append_stop hblanks fun b hb => by cases hb; exact hc).2

/-- **Words round-trip.** A word is read back when white space or nothing follows. -/
theorem getWord_text {blanks w rest : List Char} (hblanks : ∀ b ∈ blanks, isSpace b = true)
    (hne : w ≠ []) (hw : ∀ c ∈ w, isSpace c = false) (hrest : ∀ c ∈ rest.head?, isSpace c = true) :
    getWord { chars := blanks ++ (w ++ rest) } = (some (String.ofList w), { chars := rest }) := by
  obtain ⟨c, cs, rfl⟩ := List.exists_cons_of_ne_nil hne
  have hskip : skipSpace { chars := blanks ++ (c :: cs ++ rest) } = c :: cs ++ rest :=
    skipSpace_append hblanks (hw c List.mem_cons_self)
  obtain ⟨htake, hdrop⟩ := @takeWhile_append_stop _ (fun c => !isSpace c) (c :: cs) rest
    (fun x hx => by simp [hw x hx]) (fun x hx => by simp [hrest x hx])
  rw [getWord, if_neg (by simp), hskip, if_neg (by simp), htake, hdrop]

/-- A word at the front of a line is read back. -/
theorem getWord_append {w rest : List Char} (hne : w ≠ [])
    (hw : ∀ c ∈ w, isSpace c = false) :
    getWord { chars := w ++ ' ' :: rest } = (some (String.ofList w), { chars := ' ' :: rest }) :=
  @getWord_text [] w (' ' :: rest) (by simp) hne hw (by simp [isSpace_space])

/-! ## Numbers -/

/-- The digits of a number are digits. -/
theorem isDigit_toDigits {n : Nat} {c : Char} (hc : c ∈ Nat.toDigits 10 n) : c.isDigit = true :=
  Nat.isDigit_of_mem_toDigits (by omega) (by omega) hc

/-- A number has a first digit. -/
theorem exists_cons_toDigits (n : Nat) : ∃ c cs, Nat.toDigits 10 n = c :: cs :=
  List.exists_cons_of_ne_nil Nat.toDigits_ne_nil

/-- The decimal text of an integer. -/
theorem toList_toString (z : Int) :
    (toString z).toList = (if z < 0 then ['-'] else []) ++ Nat.toDigits 10 z.natAbs := by
  rw [Int.toString_eq_repr, Int.repr_eq_if]
  by_cases hz : 0 ≤ z
  · rw [if_pos hz, if_neg (by omega), Nat.toList_repr, show z.toNat = z.natAbs by omega]
    rfl
  · rw [if_neg hz, if_pos (by omega), String.toList_append, Nat.toList_repr,
      show (-z).toNat = z.natAbs by omega]
    rfl

/-- The text of an integer starts with its sign or with a digit. -/
theorem exists_cons_toString (z : Int) :
    ∃ c cs, (toString z).toList = c :: cs ∧ isSpace c = false := by
  rw [toList_toString]
  by_cases hz : z < 0
  · rw [if_pos hz]
    exact ⟨'-', _, rfl, rfl⟩
  · rw [if_neg hz, List.nil_append]
    obtain ⟨c, cs, hcons⟩ := exists_cons_toDigits z.natAbs
    exact ⟨c, cs, hcons, (digit_ne (isDigit_toDigits (hcons ▸ List.mem_cons_self))).1⟩

/-- A text that starts with a digit has no sign. -/
theorem splitSign_of_isDigit {c : Char} {cs : List Char} (hc : c.isDigit = true) :
    splitSign (c :: cs) = (false, c :: cs) := by
  obtain ⟨-, hminus, hplus⟩ := digit_ne hc
  unfold splitSign
  split
  · next h => exact absurd (List.cons.inj h).1 hminus
  · next h => exact absurd (List.cons.inj h).1 hplus
  · rfl

/-- The sign of the text of an integer is split off. -/
theorem splitSign_toString (z : Int) (rest : List Char) :
    splitSign ((toString z).toList ++ rest) =
      (decide (z < 0), Nat.toDigits 10 z.natAbs ++ rest) := by
  rw [toList_toString]
  by_cases hz : z < 0
  · rw [if_pos hz, decide_eq_true hz]
    rfl
  · rw [if_neg hz, decide_eq_false hz, List.nil_append]
    obtain ⟨c, cs, hcons⟩ := exists_cons_toDigits z.natAbs
    rw [hcons]
    exact splitSign_of_isDigit (isDigit_toDigits (hcons ▸ List.mem_cons_self))

/-- **What becomes of a printed integer.** When no digit follows, it is read back if it is in range,
and clamped otherwise. -/
theorem getInt_toString {lo hi z : Int} {blanks rest : List Char}
    (hblanks : ∀ b ∈ blanks, isSpace b = true) (hrest : ∀ c ∈ rest.head?, c.isDigit = false) :
    getInt lo hi { chars := blanks ++ ((toString z).toList ++ rest) } =
      if z < lo then (some lo, { chars := rest, fail := true })
      else if hi < z then (some hi, { chars := rest, fail := true })
      else (some z, { chars := rest }) := by
  obtain ⟨c, cs, hcons, hc⟩ := exists_cons_toString z
  have hskip : skipSpace { chars := blanks ++ ((toString z).toList ++ rest) } =
      (toString z).toList ++ rest := by
    rw [hcons, List.cons_append]
    exact skipSpace_append hblanks hc
  obtain ⟨htake, hdrop⟩ := @takeWhile_append_stop _ Char.isDigit (Nat.toDigits 10 z.natAbs) rest
    (fun d hd => isDigit_toDigits hd) hrest
  have hvalue : (if decide (z < 0) = true then -((z.natAbs : Nat) : Int) else (z.natAbs : Nat)) =
      z := by
    by_cases hz : z < 0
    · rw [if_pos (decide_eq_true hz)]
      omega
    · rw [if_neg (by simpa using hz)]
      omega
  have hne : (toString z).toList ++ rest ≠ [] := by
    rw [hcons]
    exact List.cons_ne_nil _ _
  rw [getInt, if_neg (by simp), hskip, if_neg hne, splitSign_toString]
  simp only [htake, hdrop, Nat.toDigits_ne_nil, if_false, Nat.ofDigitChars_ten_toDigits, hvalue]

/-- **Numbers round-trip.** A number in range, printed between two spaces, is read back. -/
theorem getInt_toDigits {lo hi : Int} {n : Nat} {rest : List Char} (hlo : lo ≤ n) (hhi : n ≤ hi) :
    getInt lo hi { chars := ' ' :: (Nat.toDigits 10 n ++ ' ' :: rest) } =
      (some (n : Int), { chars := ' ' :: rest }) := by
  have htext : (toString (n : Int)).toList = Nat.toDigits 10 n := Nat.toList_repr
  have hread := @getInt_toString lo hi n [' '] (' ' :: rest) (by simp [isSpace_space])
    fun c hc => by cases hc; rfl
  rw [htext, if_neg (by omega), if_neg (by omega)] at hread
  exact hread

/-- An integer in range that is all there is in the stream is read back. -/
theorem getInt_self {lo hi z : Int} (hlo : lo ≤ z) (hhi : z ≤ hi) :
    getInt lo hi { chars := (toString z).toList } = (some z, { chars := [] }) := by
  have hread := @getInt_toString lo hi z [] [] (fun b hb => by cases hb) fun c hc => by cases hc
  rw [if_neg (by omega), if_neg (by omega), List.append_nil] at hread
  exact hread

/-- Different integers have different texts. -/
theorem toString_inj {z w : Int} (h : toString z = toString w) : z = w := by
  have hz := @getInt_self (min z w) (max z w) z (Int.min_le_left z w) (Int.le_max_left z w)
  have hw := @getInt_self (min z w) (max z w) w (Int.min_le_right z w) (Int.le_max_right z w)
  -- one stream cannot be read as two numbers
  rw [h, hw] at hz
  exact (Option.some.inj (Prod.mk.inj hz).1).symm

/-- A word that is all there is in the stream is read back. -/
theorem getWord_self {w : String} (hw : isWord w = true) :
    getWord { chars := w.toList } = (some w, { chars := [] }) := by
  obtain ⟨hne, hword⟩ := isWord_iff.mp hw
  have hread := @getWord_text [] w.toList [] (fun b hb => by cases hb) hne hword
    fun c hc => by cases hc
  rw [List.append_nil, String.ofList_toList] at hread
  exact hread

end TextStream
