/-
`Json/Token.lean` -- the tokens of JSON text.

Splitting checks the form of every token and nothing else: a number keeps its digits and a string
its `\u` escapes, whatever they stand for. Whether a number fits and whether the escapes pair up is
asked later, and only of the values that are used.
-/
import Statechart.Json.Number

set_option autoImplicit false

namespace Statechart.Json

/-- A piece of a string as written: a character, or a 16-bit unit given by a `\u` escape. -/
inductive Piece where
  | char (c : Char)
  | unit (value : Nat)

/-- A token. -/
inductive Token where
  /-- One of the six structural characters. -/
  | mark (c : Char)
  | null
  | bool (value : Bool)
  | number (literal : Number.Literal)
  | quoted (pieces : List Piece)

namespace Token

/-! ## 1. Strings -/

/-- The value of a hexadecimal digit. -/
def hexDigit? (c : Char) : Option Nat :=
  if '0' ≤ c ∧ c ≤ '9' then some (c.toNat - 48)
  else if 'a' ≤ c ∧ c ≤ 'f' then some (c.toNat - 87)
  else if 'A' ≤ c ∧ c ≤ 'F' then some (c.toNat - 55)
  else none

/-- The unit that four hexadecimal digits spell. -/
def unit? (a b c d : Char) : Option Nat := do
  return (((← hexDigit? a) * 16 + (← hexDigit? b)) * 16 + (← hexDigit? c)) * 16 + (← hexDigit? d)

/-- The character that a backslash and one character stand for. -/
def unescape? (c : Char) : Option Char :=
  if c = '"' ∨ c = '\\' ∨ c = '/' then some c
  else if c = 'b' then some '\x08'
  else if c = 'f' then some '\x0c'
  else if c = 'n' then some '\n'
  else if c = 'r' then some '\r'
  else if c = 't' then some '\t'
  else none

/-- The pieces of a string from behind its opening quotation mark, and the text behind it. -/
def pieces? : List Char → Option (List Piece × List Char)
  | [] => none
  | '"' :: rest => some ([], rest)
  | '\\' :: 'u' :: a :: b :: c :: d :: rest =>
      match unit? a b c d, pieces? rest with
      | some value, some (pieces, after) => some (.unit value :: pieces, after)
      | _, _ => none
  | '\\' :: c :: rest =>
      match unescape? c, pieces? rest with
      | some plain, some (pieces, after) => some (.char plain :: pieces, after)
      | _, _ => none
  | c :: rest =>
      if c = '\\' ∨ c.toNat < 0x20 then none
      else (pieces? rest).map fun (pieces, after) => (.char c :: pieces, after)

/-- A string takes at least its closing quotation mark. -/
theorem length_lt_of_pieces? {text : List Char} {pieces : List Piece} {after : List Char}
    (h : pieces? text = some (pieces, after)) : after.length < text.length := by
  fun_induction pieces? text generalizing pieces after with
  | case1 => simp at h
  | case2 rest =>
      simp only [Option.some.injEq, Prod.mk.injEq] at h
      simp [← h.2]
  | case3 a b c d rest value pieces' after' hrest hunit ih =>
      simp only [Option.some.injEq, Prod.mk.injEq] at h
      have := ih hrest
      simp only [List.length_cons, ← h.2]
      omega
  | case4 => simp at h
  | case5 c rest _ plain pieces' after' hrest hplain ih =>
      simp only [Option.some.injEq, Prod.mk.injEq] at h
      have := ih hrest
      simp only [List.length_cons, ← h.2]
      omega
  | case6 => simp at h
  | case7 => simp at h
  | case8 c rest _ _ _ _ ih =>
      simp only [Option.map_eq_some_iff, Prod.exists, Prod.mk.injEq] at h
      obtain ⟨pieces', after', hrest, -, rfl⟩ := h
      have := ih hrest
      simp only [List.length_cons]
      omega

/-! ## 2. Numbers -/

/-- The longest run of decimal digits, as values, and the text behind it. -/
def digits : List Char → List Nat × List Char
  | [] => ([], [])
  | c :: rest =>
      if c.isDigit then ((c.toNat - 48) :: (digits rest).1, (digits rest).2)
      else ([], c :: rest)

theorem length_le_of_digits {text after : List Char} {found : List Nat}
    (h : digits text = (found, after)) : after.length ≤ text.length := by
  induction text generalizing found after with
  | nil =>
      simp only [digits, Prod.mk.injEq] at h
      simp [← h.2]
  | cons c rest ih =>
      simp only [digits] at h
      split at h
      · simp only [Prod.mk.injEq] at h
        have := ih (Prod.ext rfl h.2 : digits rest = ((digits rest).1, after))
        simp only [List.length_cons]
        omega
      · simp only [Prod.mk.injEq] at h
        simp [← h.2]

/-- A run with a digit in it takes at least that digit. -/
theorem length_lt_of_digits {text after : List Char} {d : Nat} {found : List Nat}
    (h : digits text = (d :: found, after)) : after.length < text.length := by
  cases text with
  | nil => simp [digits] at h
  | cons c rest =>
      simp only [digits] at h
      split at h
      · simp only [Prod.mk.injEq] at h
        have := length_le_of_digits (Prod.ext rfl h.2 : digits rest = ((digits rest).1, after))
        simp only [List.length_cons]
        omega
      · simp at h

/-- The fraction behind a whole number, if a point stands there: at least one digit. -/
def fraction? : List Char → Option (Option (List Nat) × List Char)
  | '.' :: rest =>
      match digits rest with
      | ([], _) => none
      | (found, after) => some (some found, after)
  | text => some (none, text)

/-- Whether a minus stands here, and the text behind the sign, if there is one. -/
def signed : List Char → Bool × List Char
  | '-' :: rest => (true, rest)
  | '+' :: rest => (false, rest)
  | text => (false, text)

theorem length_signed (text : List Char) : (signed text).2.length ≤ text.length := by
  fun_cases signed text <;> simp

/-- The exponent behind a number, if there is one: a sign if any, and at least one digit. -/
def exponent? : List Char → Option (Option (Bool × List Nat) × List Char)
  | [] => some (none, [])
  | c :: rest =>
      if c = 'e' ∨ c = 'E' then
        match digits (signed rest).2 with
        | ([], _) => none
        | (found, after) => some (some ((signed rest).1, found), after)
      else some (none, c :: rest)

theorem length_le_of_fraction? {text after : List Char} {found : Option (List Nat)}
    (h : fraction? text = some (found, after)) : after.length ≤ text.length := by
  unfold fraction? at h
  split at h
  · split at h
    · simp at h
    · rename_i hd
      simp only [Option.some.injEq, Prod.mk.injEq] at h
      have := length_le_of_digits hd
      simp only [List.length_cons, ← h.2]
      omega
  · simp only [Option.some.injEq, Prod.mk.injEq] at h
    simp [← h.2]

theorem length_le_of_exponent? {text after : List Char} {found : Option (Bool × List Nat)}
    (h : exponent? text = some (found, after)) : after.length ≤ text.length := by
  unfold exponent? at h
  split at h
  · simp only [Option.some.injEq, Prod.mk.injEq] at h
    simp [← h.2]
  · split at h
    · split at h
      · simp at h
      · rename_i hd
        simp only [Option.some.injEq, Prod.mk.injEq] at h
        have := Nat.le_trans (length_le_of_digits hd) (length_signed _)
        simp only [← h.2, List.length_cons]
        omega
    · simp only [Option.some.injEq, Prod.mk.injEq] at h
      simp [← h.2]

/-- A number without its sign: no digit before another but a leading zero stands alone. -/
def unsigned? (negative : Bool) (text : List Char) : Option (Number.Literal × List Char) :=
  match digits text with
  | ([], _) => none
  | (0 :: _ :: _, _) => none
  | (whole, rest) => do
      let (fraction, rest) ← fraction? rest
      let (exponent, rest) ← exponent? rest
      return (⟨negative, whole, fraction, exponent⟩, rest)

theorem length_lt_of_unsigned? {negative : Bool} {text after : List Char}
    {literal : Number.Literal} (h : unsigned? negative text = some (literal, after)) :
    after.length < text.length := by
  unfold unsigned? at h
  split at h
  · simp at h
  · simp at h
  · rename_i whole rest hne _ hd
    obtain ⟨d, more, rfl⟩ : ∃ d more, whole = d :: more := by
      cases whole with
      | nil => simp_all
      | cons d more => exact ⟨d, more, rfl⟩
    simp only [Option.bind_eq_bind, Option.bind_eq_some_iff, Prod.exists, Option.pure_def,
      Option.some.injEq, Prod.mk.injEq] at h
    obtain ⟨fraction, afterFraction, hf, exponent, afterExponent, he, -, rfl⟩ := h
    have := length_lt_of_digits hd
    have := length_le_of_fraction? hf
    have := length_le_of_exponent? he
    omega

/-- A number literal. -/
def literal? : List Char → Option (Number.Literal × List Char)
  | '-' :: rest => unsigned? true rest
  | text => unsigned? false text

/-! ## 3. Splitting text -/

/-- The token at the head of a text that does not start with a blank. -/
def next? : List Char → Option (Token × List Char)
  | [] => none
  | '"' :: rest => (pieces? rest).map fun (pieces, after) => (.quoted pieces, after)
  | 'n' :: 'u' :: 'l' :: 'l' :: rest => some (.null, rest)
  | 't' :: 'r' :: 'u' :: 'e' :: rest => some (.bool true, rest)
  | 'f' :: 'a' :: 'l' :: 's' :: 'e' :: rest => some (.bool false, rest)
  | c :: rest =>
      if ['\x7b', '\x7d', '[', ']', ':', ','].contains c then some (.mark c, rest)
      else (literal? (c :: rest)).map fun (literal, after) => (.number literal, after)

/-- The four characters that may stand between tokens. -/
def isBlank (c : Char) : Bool := c = ' ' || c = '\n' || c = '\r' || c = '\t'

theorem length_lt_of_literal? {text after : List Char} {literal : Number.Literal}
    (h : literal? text = some (literal, after)) : after.length < text.length := by
  unfold literal? at h
  split at h
  · have := length_lt_of_unsigned? h
    simp only [List.length_cons]
    omega
  · exact length_lt_of_unsigned? h

/-- Every token takes at least one character. -/
theorem length_lt_of_next? {text after : List Char} {token : Token}
    (h : next? text = some (token, after)) : after.length < text.length := by
  unfold next? at h
  split at h
  · simp at h
  · simp only [Option.map_eq_some_iff, Prod.exists, Prod.mk.injEq] at h
    obtain ⟨pieces, after', hp, -, rfl⟩ := h
    have := length_lt_of_pieces? hp
    simp only [List.length_cons]
    omega
  iterate 3
    · simp only [Option.some.injEq, Prod.mk.injEq] at h
      simp only [← h.2, List.length_cons]
      omega
  · split at h
    · simp only [Option.some.injEq, Prod.mk.injEq] at h
      simp [← h.2]
    · simp only [Option.map_eq_some_iff, Prod.exists, Prod.mk.injEq] at h
      obtain ⟨literal, after', hl, -, rfl⟩ := h
      exact length_lt_of_literal? hl

/-- All tokens of a text. -/
def split? (text : List Char) : Option (List Token) :=
  match text with
  | [] => some []
  | c :: rest =>
      if isBlank c then split? rest
      else
        match _h : next? (c :: rest) with
        | none => none
        | some (token, after) => (split? after).map (token :: ·)
termination_by text.length
decreasing_by
  · simp
  · exact length_lt_of_next? _h

end Token

end Statechart.Json
