import Mathlib.Data.List.DropRight
import Mathlib.Data.List.Infix
import Orbot.Foundation.Disk

/-!
# Strings of the Java library

The string functions that path building and parsing use: `String.trim`, `contains`, `lastIndexOf`,
`split`, the lines of a reader, the decimal text of an `int` and its parsing, and the text of a
`java.util.UUID`.
-/

namespace Orbot.Foundation

/-! ## Searching and cutting -/

/-- `String.lastIndexOf` of a character, `none` for `-1`. -/
def lastIndexOf (c : Char) : List Char → Option ℕ
  | [] => none
  | x :: rest =>
      match lastIndexOf c rest with
      | some index => some (index + 1)
      | none => if x = c then some 0 else none

/-- `String.trim`: drop the characters up to the space at both ends. -/
def trim (text : String) : String :=
  String.ofList ((text.toList.dropWhile (· ≤ ' ')).rdropWhile (· ≤ ' '))

/-- The tokens of a `StringTokenizer` with one delimiter: the parts that are not empty. -/
def tokens (delimiter : Char) (text : String) : List String :=
  ((text.toList.splitOn delimiter).filter fun part ↦ part ≠ []).map String.ofList

/-- The components of a path text; repeated and trailing separators do not count. -/
def components (text : String) : List String := tokens '/' text

/-- `String.split` at a character: trailing empty parts do not count. -/
def split (c : Char) (text : String) : List String :=
  if c ∈ text.toList then
    ((text.toList.splitOn c).rdropWhile (· = [])).map String.ofList
  else [text]

/-- The line terminators of `java.util.regex`, which a dot does not match. -/
def isLineTerminator (c : Char) : Bool :=
  c ∈ ['\n', '\r', '\u0085', '\u2028', '\u2029']

/-- `String.contains`. -/
def contains (text part : String) : Bool :=
  text.toList.tails.any fun rest ↦ part.toList.isPrefixOf rest

theorem contains_eq_true {text part : String} :
    contains text part = true ↔ part.toList <:+: text.toList := by
  rw [contains, List.any_eq_true, List.infix_iff_prefix_suffix]
  simp only [List.mem_tails, List.isPrefixOf_iff_prefix, and_comm]

/-- The lower-case letter that a character equals without regard to case, for comparisons with
ASCII letters; the long s and the Kelvin sign count. -/
def foldCase (c : Char) : Char :=
  if c = '\u017f' then 's' else if c = '\u212a' then 'k' else c.toLower

/-- `String.equalsIgnoreCase` with an ASCII text. -/
def equalsIgnoreCase (text other : String) : Bool :=
  text.toList.map foldCase = other.toList.map foldCase

/-- The lines of a `BufferedReader`, which a line feed, a carriage return or both end; `current` is
what has been read of the current line. -/
def bufferedLines (current : List Char) : List Char → List (List Char)
  | [] => if current = [] then [] else [current]
  | '\r' :: '\n' :: rest => current :: bufferedLines [] rest
  | '\r' :: rest => current :: bufferedLines [] rest
  | '\n' :: rest => current :: bufferedLines [] rest
  | c :: rest => bufferedLines (current ++ [c]) rest

/-- The lines have all characters of the text but those that end a line. -/
theorem flatten_bufferedLines (current text : List Char) :
    (bufferedLines current text).flatten =
      current ++ text.filter fun c ↦ c ≠ '\n' ∧ c ≠ '\r' := by
  fun_induction bufferedLines current text with
  | case1 => rfl
  | case2 current hne => simp
  | case3 current rest ih => simp [ih]
  | case4 current rest _ ih => simp [ih]
  | case5 current rest ih => simp [ih]
  | case6 current c rest _ hreturn hlineFeed ih =>
    rw [ih, List.filter_cons_of_pos (by simpa using ⟨hlineFeed, hreturn⟩), List.append_assoc]
    rfl

theorem lineFeed_not_mem_bufferedLines {current text line : List Char} (hcurrent : '\n' ∉ current)
    (h : line ∈ bufferedLines current text) : '\n' ∉ line := by
  intro hlineFeed
  have hmem := List.mem_flatten_of_mem h hlineFeed
  rw [flatten_bufferedLines, List.mem_append] at hmem
  rcases hmem with hold | hnew
  · exact hcurrent hold
  · simp at hnew

theorem lastIndexOf_eq_none {c : Char} {text : List Char} :
    lastIndexOf c text = none ↔ c ∉ text := by
  induction text with
  | nil => simp [lastIndexOf]
  | cons x rest ih =>
    rw [lastIndexOf, List.mem_cons, not_or, ← ih]
    cases lastIndexOf c rest with
    | none =>
      by_cases hx : x = c
      · simp [hx]
      · simp [hx, Ne.symm hx]
    | some index => simp

/-- What precedes the last separator is found again. -/
theorem lastIndexOf_append {c : Char} {suffix : List Char} (h : c ∉ suffix) (stem : List Char) :
    lastIndexOf c (stem ++ c :: suffix) = some stem.length := by
  induction stem with
  | nil => simp [lastIndexOf, lastIndexOf_eq_none.mpr h]
  | cons x rest ih => simp [lastIndexOf, ih]

/-- A nonempty name without a separator is a single component. -/
theorem components_of_name {name : String} (hne : name ≠ "") (hslash : '/' ∉ name.toList) :
    components name = [name] := by
  have hsplit : name.toList.splitOn '/' = [name.toList] :=
    List.splitOnP_eq_singleton (fun x hx ↦ by
      simp only [beq_eq_false_iff_ne]
      rintro rfl
      exact hslash hx)
  have hlist : name.toList ≠ [] := fun h ↦ hne (String.toList_inj.mp h)
  simp [components, tokens, hsplit, hlist]

/-- The first token of a text, up to a delimiter or the end. -/
theorem tokens_of_first {c : Char} {token rest : List Char} (hne : token ≠ []) (hmem : c ∉ token)
    (hrest : ∀ x ∈ rest.head?, x = c) :
    ∃ more, tokens c (String.ofList (token ++ rest)) = String.ofList token :: more := by
  unfold tokens
  rw [String.toList_ofList]
  cases rest with
  | nil =>
    refine ⟨[], ?_⟩
    rw [List.append_nil, List.splitOn_eq_singleton hmem]
    simp [hne]
  | cons x rest =>
    obtain rfl : x = c := hrest x rfl
    rw [List.splitOn_append_cons_self_of_not_mem hmem, List.filter_cons_of_pos (by simpa using hne),
      List.map_cons]
    exact ⟨_, rfl⟩

/-- `trim` cuts at the ends. -/
theorem trim_isInfix (text : String) : (trim text).toList <:+: text.toList := by
  rw [trim, String.toList_ofList]
  have hright := List.rdropWhile_prefix (· ≤ ' ') (text.toList.dropWhile (· ≤ ' '))
  have hleft := List.dropWhile_suffix (l := text.toList) (· ≤ ' ')
  exact hright.isInfix.trans hleft.isInfix

/-- The parts of a text are found in it, the first one at its beginning, and have no separator. -/
theorem splitOn_parts (c : Char) (text : List Char) :
    ∃ first others, text.splitOn c = first :: others ∧ (first <+: text ∧ c ∉ first) ∧
      ∀ part ∈ others, part <:+: text ∧ c ∉ part := by
  induction text with
  | nil => exact ⟨[], [], rfl, by simp, by simp⟩
  | cons x rest ih =>
    obtain ⟨first, others, hsplit, ⟨hfirst, hmem⟩, hothers⟩ := ih
    rw [List.splitOn_eq_splitOnP] at hsplit ⊢
    rw [List.splitOnP_cons_eq_if_modifyHead, hsplit]
    have hlater (part : List Char) (hpart : part ∈ others) : part <:+: x :: rest ∧ c ∉ part :=
      ⟨(hothers part hpart).1.trans (List.suffix_cons x rest).isInfix, (hothers part hpart).2⟩
    by_cases hx : x = c
    · refine ⟨[], first :: others, by simp [hx], by simp, fun part hpart ↦ ?_⟩
      rcases List.mem_cons.mp hpart with rfl | hpart
      · exact ⟨hfirst.isInfix.trans (List.suffix_cons x rest).isInfix, hmem⟩
      · exact hlater part hpart
    · refine ⟨x :: first, others, by simp [hx], ⟨?_, ?_⟩, hlater⟩
      · exact List.cons_prefix_cons.mpr ⟨rfl, hfirst⟩
      · exact fun hc ↦ (List.mem_cons.mp hc).elim (fun h ↦ hx h.symm) hmem

theorem infix_of_mem_splitOn {c : Char} {text part : List Char} (h : part ∈ text.splitOn c) :
    part <:+: text ∧ c ∉ part := by
  obtain ⟨first, others, hsplit, ⟨hfirst, hmem⟩, hothers⟩ := splitOn_parts c text
  rw [hsplit] at h
  rcases List.mem_cons.mp h with rfl | hpart
  · exact ⟨hfirst.isInfix, hmem⟩
  · exact hothers part hpart

/-- A part of a text is found in it and has no separator. -/
theorem infix_of_mem_split {c : Char} {text part : String} (h : part ∈ split c text) :
    part.toList <:+: text.toList ∧ c ∉ part.toList := by
  unfold split at h
  split at h
  · obtain ⟨chars, hchars, rfl⟩ := List.mem_map.mp h
    rw [String.toList_ofList]
    exact infix_of_mem_splitOn ((List.rdropWhile_prefix _ _).subset hchars)
  · next hnone =>
    rw [List.mem_singleton.mp h]
    exact ⟨List.infix_refl _, hnone⟩

/-- A text that does not begin with the separator has a part. -/
theorem split_ne_nil {c : Char} {text : String} (h : text.toList.head? ≠ some c) :
    split c text ≠ [] := by
  unfold split
  split
  · next hmem =>
    cases htext : text.toList with
    | nil => simp [htext] at hmem
    | cons x rest =>
      rw [htext] at h
      have hx : x ≠ c := fun hx ↦ h (by rw [hx]; rfl)
      obtain ⟨first, others, hsplit, -⟩ := splitOn_parts c rest
      rw [List.splitOn_eq_splitOnP] at hsplit ⊢
      rw [List.splitOnP_cons_eq_if_modifyHead, hsplit, if_neg (by simpa using hx)]
      intro hnil
      have hempty := List.rdropWhile_eq_nil_iff.mp (List.map_eq_nil_iff.mp hnil) (x :: first)
      simp at hempty
  · simp

/-- A text with one separator before its end has two parts. -/
theorem split_pair {c : Char} {first second : List Char} (hfirst : c ∉ first)
    (hsecond : c ∉ second) (hne : second ≠ []) :
    split c (String.ofList (first ++ c :: second)) =
      [String.ofList first, String.ofList second] := by
  unfold split
  rw [String.toList_ofList, if_pos (by simp), List.splitOn_append_cons_self_of_not_mem hfirst,
    List.splitOn_eq_singleton hsecond]
  have hlast : List.rdropWhile (· = []) [first, second] = [first, second] := by
    rw [List.rdropWhile_eq_self_iff]
    simpa using hne
  simp [hlast]

/-! ## Decimal texts -/

/-- The decimal text of an `int`. -/
def decimal (n : Int32) : String := toString n.toInt

/-- The digits of a decimal text. -/
theorem toList_decimal (n : Int32) :
    (decimal n).toList = if 0 ≤ n.toInt then Nat.toDigits 10 n.toInt.toNat
      else '-' :: Nat.toDigits 10 (-n.toInt).toNat := by
  rw [decimal, Int.toString_eq_repr, Int.repr_eq_if]
  split <;> simp

/-- The value of decimal digits. -/
def parseDigits (digits : List Char) : Option ℕ :=
  if digits ≠ [] ∧ digits.all Char.isDigit then some (Nat.ofDigitChars 10 digits 0) else none

theorem parseDigits_toDigits (n : ℕ) : parseDigits (Nat.toDigits 10 n) = some n := by
  have hdigits : (Nat.toDigits 10 n).all Char.isDigit := List.all_eq_true.mpr fun c hc ↦
    Nat.isDigit_of_mem_toDigits (by decide) (by decide) hc
  rw [parseDigits, if_pos ⟨Nat.toDigits_ne_nil, hdigits⟩, Nat.ofDigitChars_ten_toDigits]

/-- The `int` of a value in its range. -/
def intOfRange (value : ℤ) : Option Int32 :=
  if Int32.minValue.toInt ≤ value ∧ value ≤ Int32.maxValue.toInt then some (Int32.ofInt value)
  else none

theorem intOfRange_toInt (n : Int32) : intOfRange n.toInt = some n := by
  rw [intOfRange, if_pos ⟨n.minValue_le_toInt, n.toInt_le⟩, Int32.ofInt_toInt]

/-- The zeros of the decimal digits of all scripts that a single `char` can hold. -/
def digitZeros : List ℕ :=
  [0x30, 0x660, 0x6f0, 0x7c0, 0x966, 0x9e6, 0xa66, 0xae6, 0xb66, 0xbe6, 0xc66, 0xce6, 0xd66, 0xde6,
    0xe50, 0xed0, 0xf20, 0x1040, 0x1090, 0x17e0, 0x1810, 0x1946, 0x19d0, 0x1a80, 0x1a90, 0x1b50,
    0x1bb0, 0x1c40, 0x1c50, 0xa620, 0xa8d0, 0xa900, 0xa9d0, 0xa9f0, 0xaa50, 0xabf0, 0xff10]

/-- `Character.digit` of a `char` for the radix 10. -/
def digit (c : Char) : Option ℕ :=
  (digitZeros.find? fun first ↦ first ≤ c.toNat ∧ c.toNat < first + 10).map fun first ↦
    c.toNat - first

theorem digit_of_isDigit {c : Char} (h : c.isDigit = true) : digit c = some (c.toNat - 48) := by
  obtain ⟨hge, hle⟩ := Char.isDigit_iff_toNat.mp h
  have hge' : 48 ≤ c.toNat := hge
  have hle' : c.toNat ≤ 57 := hle
  have hfirst : decide (0x30 ≤ c.toNat ∧ c.toNat < 0x30 + 10) = true := by
    rw [decide_eq_true_eq]
    omega
  have hfind : digitZeros.find? (fun first ↦ first ≤ c.toNat ∧ c.toNat < first + 10) = some 0x30 :=
    List.find?_cons_of_pos hfirst
  rw [digit, hfind, Option.map_some]

/-- The characters before the second row of digits are digits only where ASCII has them. -/
theorem digit_eq_none {c : Char} (h : c.toNat < 0x660) (hc : c.isDigit = false) :
    digit c = none := by
  rw [digit, Option.map_eq_none_iff, List.find?_eq_none]
  intro first hfirst
  rw [decide_eq_true_eq]
  rintro ⟨hge, hlt⟩
  have hrows : ∀ first ∈ digitZeros, first = 0x30 ∨ 0x660 ≤ first := by decide
  rcases hrows first hfirst with rfl | hlater
  · have hdigit : c.isDigit = true := Char.isDigit_iff_toNat.mpr ⟨hge, Nat.lt_succ_iff.mp hlt⟩
    rw [hc] at hdigit
    cases hdigit
  · omega

/-- The value of a text of digits in the sense of `digit`. -/
def digitsValue (digits : List Char) : Option ℕ :=
  if digits = [] then none
  else digits.foldlM (fun value c ↦ (digit c).map fun d ↦ 10 * value + d) 0

theorem foldlM_digit {digits : List Char} (h : ∀ c ∈ digits, c.isDigit = true) (value : ℕ) :
    digits.foldlM (fun value c ↦ (digit c).map fun d ↦ 10 * value + d) value =
      some (Nat.ofDigitChars 10 digits value) := by
  induction digits generalizing value with
  | nil => rfl
  | cons c rest ih =>
    rw [List.foldlM_cons, digit_of_isDigit (h c List.mem_cons_self), Option.map_some,
      Option.bind_eq_bind, Option.bind_some,
      ih fun other hother ↦ h other (List.mem_cons_of_mem _ hother)]
    rfl

theorem digitsValue_toDigits (n : ℕ) : digitsValue (Nat.toDigits 10 n) = some n := by
  rw [digitsValue, if_neg Nat.toDigits_ne_nil, foldlM_digit fun c hc ↦
    Nat.isDigit_of_mem_toDigits (by decide) (by decide) hc, Nat.ofDigitChars_ten_toDigits]

/-- All characters of a text with a value are digits. -/
theorem isSome_digit_of_digitsValue {digits : List Char} {n : ℕ} (h : digitsValue digits = some n) :
    digits ≠ [] ∧ ∀ c ∈ digits, (digit c).isSome := by
  unfold digitsValue at h
  split at h
  · cases h
  · next hne =>
    refine ⟨hne, ?_⟩
    generalize 0 = value at h
    clear hne
    induction digits generalizing value with
    | nil => simp
    | cons c rest ih =>
      rw [List.foldlM_cons, Option.bind_eq_bind, Option.bind_eq_some_iff] at h
      obtain ⟨next, hnext, hrest⟩ := h
      obtain ⟨d, hd, -⟩ := Option.map_eq_some_iff.mp hnext
      rw [List.forall_mem_cons]
      exact ⟨by simp [hd], ih next hrest⟩

/-- `Integer.parseInt`; `none` for a `NumberFormatException`. -/
def parseInt (text : String) : Option Int32 :=
  match text.toList with
  | '-' :: digits => (digitsValue digits).bind fun value ↦ intOfRange (-value)
  | '+' :: digits => (digitsValue digits).bind fun value ↦ intOfRange value
  | digits => (digitsValue digits).bind fun value ↦ intOfRange value

theorem parseInt_decimal (n : Int32) : parseInt (decimal n) = some n := by
  have hsigns {c : Char} (hc : c.isDigit = false) {m : ℕ} {rest : List Char} :
      Nat.toDigits 10 m ≠ c :: rest := by
    intro hdigits
    have hdigit := Nat.isDigit_of_mem_toDigits (b := 10) (n := m) (c := c) (by decide) (by decide)
      (by simp [hdigits])
    simp [hc] at hdigit
  rw [parseInt, toList_decimal]
  split_ifs with hsign
  · split
    · next digits hdigits => exact absurd hdigits (hsigns (by decide))
    · next digits hdigits => exact absurd hdigits (hsigns (by decide))
    · rw [digitsValue_toDigits, Option.bind_some, Int.toNat_of_nonneg hsign, intOfRange_toInt]
  · simp only [digitsValue_toDigits, Option.bind_some]
    rw [Int.toNat_of_nonneg (by omega), Int.neg_neg, intOfRange_toInt]

theorem toString_nat_injective {m n : ℕ} (h : toString m = toString n) : m = n := by
  have hdigits := congrArg (Nat.ofDigitChars 10 · 0) (congrArg String.toList h)
  simpa using hdigits

theorem toString_int_injective {m n : ℤ} (h : toString m = toString n) : m = n := by
  have hsign {a b : ℕ} : a.repr ≠ "-" ++ b.repr := by
    intro hrepr
    have hmem : '-' ∈ Nat.toDigits 10 a := by
      rw [← Nat.toList_repr, hrepr]
      simp
    exact absurd (Nat.isDigit_of_mem_toDigits (b := 10) (by decide) (by decide) hmem) (by decide)
  rw [Int.toString_eq_repr, Int.toString_eq_repr, Int.repr_eq_if, Int.repr_eq_if] at h
  split at h <;> split at h
  · have := toString_nat_injective h
    omega
  · exact absurd h hsign
  · exact absurd h.symm hsign
  · have := toString_nat_injective (String.append_right_inj _ |>.mp h)
    omega

theorem decimal_injective : Function.Injective decimal := fun _ _ h ↦
  Int32.toInt_inj.mp (toString_int_injective h)

/-- A decimal text consists of digits after an optional sign. -/
theorem isDigit_or_sign_of_mem_decimal {n : Int32} {c : Char} (h : c ∈ (decimal n).toList) :
    c.isDigit ∨ c = '-' := by
  rw [toList_decimal] at h
  split at h
  · exact .inl (Nat.isDigit_of_mem_toDigits (b := 10) (by decide) (by decide) h)
  · rcases List.mem_cons.mp h with rfl | hdigit
    · exact .inr rfl
    · exact .inl (Nat.isDigit_of_mem_toDigits (b := 10) (by decide) (by decide) hdigit)

theorem not_mem_decimal (n : Int32) {c : Char} (hc : c.isDigit = false ∧ c ≠ '-') :
    c ∉ (decimal n).toList := by
  intro hmem
  rcases isDigit_or_sign_of_mem_decimal hmem with hdigit | hsign
  · simp [hc.1] at hdigit
  · exact hc.2 hsign

/-- An `int` has at most eleven characters. -/
theorem length_decimal_le (n : Int32) : (decimal n).toList.length ≤ 11 := by
  have hlow := n.le_toInt
  have hhigh := n.toInt_lt
  rw [String.length_toList, decimal, Int.toString_eq_repr, Int.repr_eq_if]
  split
  · have := (Nat.length_repr_le_iff (n := n.toInt.toNat) (k := 10) (by decide)).mpr (by omega)
    omega
  · have := (Nat.length_repr_le_iff (n := (-n.toInt).toNat) (k := 10) (by decide)).mpr (by omega)
    rw [String.length_append, show "-".length = 1 from rfl]
    omega

/-! ## Universally unique identifiers -/

/-- The positions of the hyphens in the text of a UUID. -/
def hyphenPositions : List ℕ := [8, 13, 18, 23]

/-- The shape of `UUID.toString`: hexadecimal digits in groups of 8, 4, 4, 4 and 12. -/
def IsUuidText (text : List Char) : Prop :=
  text.length = 36 ∧ ∀ entry ∈ text.zipIdx,
    if entry.2 ∈ hyphenPositions then entry.1 = '-'
    else entry.1.isDigit ∨ ('a' ≤ entry.1 ∧ entry.1 ≤ 'f')

instance (text : List Char) : Decidable (IsUuidText text) :=
  inferInstanceAs (Decidable (_ ∧ _))

/-- A `java.util.UUID`, given by its text. -/
structure Uuid where
  text : String
  shape : IsUuidText text.toList

theorem Uuid.length_text (uuid : Uuid) : uuid.text.toList.length = 36 := uuid.shape.1

/-- A character that is no hyphen and no hexadecimal digit does not occur. -/
theorem Uuid.not_mem (uuid : Uuid) {c : Char}
    (hc : ¬ (c = '-' ∨ c.isDigit ∨ ('a' ≤ c ∧ c ≤ 'f'))) : c ∉ uuid.text.toList := by
  intro hmem
  obtain ⟨index, hindex, hchar⟩ := List.mem_iff_getElem.mp hmem
  have hentry := uuid.shape.2 (c, index)
    (List.mem_zipIdx_iff_getElem?.mpr (List.getElem?_eq_some_iff.mpr ⟨hindex, hchar⟩))
  split at hentry
  · exact hc (.inl hentry)
  · exact hc (.inr hentry)

theorem Uuid.slash_not_mem (uuid : Uuid) : '/' ∉ uuid.text.toList := uuid.not_mem (by decide)

end Orbot.Foundation
