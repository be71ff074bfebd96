import Orbot.Foundation.TextParts

/-!
# `URLDecoder`

`URLDecoder.decode` turns a plus sign into a space and reads each run of escapes as the bytes of
some characters; every other character stands for itself. It throws for an escape without two
hexadecimal digits.
-/

namespace Orbot.Foundation

/-- A charset: a run of bytes is read as at most one `char` for each byte. -/
structure Charset where
  toChars : List UInt8 → List Char
  length_le : ∀ bytes, utf16Length (toChars bytes) ≤ bytes.length

/-- `Character.digit` with radix 16, for the digits that an escape may have. -/
def digit16 (c : Char) : Option ℕ :=
  if '0' ≤ c ∧ c ≤ '9' then some (c.toNat - '0'.toNat)
  else if 'a' ≤ c ∧ c ≤ 'f' then some (c.toNat - 'a'.toNat + 10)
  else if 'A' ≤ c ∧ c ≤ 'F' then some (c.toNat - 'A'.toNat + 10)
  else none

/-- The byte of an escape, with none for the exception. -/
def escapedByte (high low : Char) : Option UInt8 :=
  (digit16 high).bind fun h ↦ (digit16 low).map fun l ↦ UInt8.ofNat (16 * h + l)

/-- The decoder after a run of escapes with the given bytes. -/
def decodeRun (charset : Charset) (bytes : List UInt8) : List Char → Option (List Char)
  | [] => some (charset.toChars bytes)
  | '%' :: high :: low :: rest =>
      (escapedByte high low).bind fun byte ↦ decodeRun charset (bytes ++ [byte]) rest
  | '%' :: _ => none
  | '+' :: rest => (decodeRun charset [] rest).map (charset.toChars bytes ++ ' ' :: ·)
  | c :: rest => (decodeRun charset [] rest).map (charset.toChars bytes ++ c :: ·)

/-- `URLDecoder.decode`, with none for the exception. -/
def urlDecode (charset : Charset) (text : String) : Option String :=
  (decodeRun charset [] text.toList).map String.ofList

variable {charset : Charset} {bytes : List UInt8} {c : Char}

theorem decodeRun_plain (hpercent : c ≠ '%') (hplus : c ≠ '+') (rest : List Char) :
    decodeRun charset bytes (c :: rest) =
      (decodeRun charset [] rest).map (charset.toChars bytes ++ c :: ·) := by
  rw [decodeRun]
  · exact fun _ _ _ h ↦ absurd h hpercent
  · exact hpercent
  · exact hplus

/-- A character that is neither plain nor a digit of an escape ends what precedes it. -/
theorem decodeRun_append (hpercent : c ≠ '%') (hplus : c ≠ '+') (hdigit : digit16 c = none)
    (before after : List Char) :
    decodeRun charset bytes (before ++ c :: after) =
      (decodeRun charset bytes before).bind fun first ↦
        (decodeRun charset [] after).map (first ++ c :: ·) := by
  fun_induction decodeRun charset bytes before with
  | case1 bytes => simpa using decodeRun_plain hpercent hplus after
  | case2 bytes high low rest ih =>
    simp only [List.cons_append, decodeRun]
    cases escapedByte high low with
    | none => rfl
    | some byte => exact ih byte
  | case3 bytes rest hrest =>
    -- the escape is short, and the character is no digit of it
    match rest with
    | [] =>
      cases after with
      | nil => rfl
      | cons next after => simp [decodeRun, escapedByte, hdigit]
    | [high] =>
      have hbyte : escapedByte high c = none := by
        rw [escapedByte, hdigit]
        cases digit16 high <;> rfl
      simp [decodeRun, hbyte]
    | high :: low :: rest => exact (hrest high low rest rfl).elim
  | case4 bytes rest ih =>
    rw [List.cons_append, decodeRun, ih]
    cases decodeRun charset [] rest <;> simp [Function.comp_def]
  | case5 bytes x rest hescape hx hspace ih =>
    rw [List.cons_append, decodeRun_plain hx hspace, ih]
    cases decodeRun charset [] rest <;> simp [Function.comp_def]

/-- Decoding makes no text longer. -/
theorem utf16Length_decodeRun_le {text decoded : List Char}
    (h : decodeRun charset bytes text = some decoded) :
    utf16Length decoded ≤ bytes.length + utf16Length text := by
  have hrun := charset.length_le
  fun_induction decodeRun charset bytes text generalizing decoded with
  | case1 bytes =>
    obtain rfl := Option.some_inj.mp h
    exact hrun bytes
  | case2 bytes high low rest ih =>
    obtain ⟨byte, -, hrest⟩ := Option.bind_eq_some_iff.mp h
    have hle := ih byte hrest
    have hpercent := utf16Size_pos '%'
    simp only [utf16Length_cons, List.length_append, List.length_cons, List.length_nil] at hle ⊢
    omega
  | case3 => cases h
  | case4 bytes rest ih =>
    obtain ⟨later, hlater, rfl⟩ := Option.map_eq_some_iff.mp h
    have hle := ih hlater
    have hbytes := hrun bytes
    have hspace : utf16Size ' ' = utf16Size '+' := rfl
    simp only [utf16Length_append, utf16Length_cons, List.length_nil] at hle ⊢
    omega
  | case5 bytes c rest hescape hc hplus ih =>
    obtain ⟨later, hlater, rfl⟩ := Option.map_eq_some_iff.mp h
    have hle := ih hlater
    have hbytes := hrun bytes
    simp only [utf16Length_append, utf16Length_cons, List.length_nil] at hle ⊢
    omega

theorem toChars_nil (charset : Charset) : charset.toChars [] = [] := by
  have hle : utf16Length (charset.toChars []) ≤ 0 := charset.length_le []
  cases hchars : charset.toChars [] with
  | nil => rfl
  | cons c rest =>
    have hpos := utf16Size_pos c
    rw [hchars, utf16Length_cons] at hle
    omega

/-- A text is decoded apart on both sides of `://`. -/
theorem urlDecode_scheme (charset : Charset) (scheme rest : String) :
    urlDecode charset (scheme ++ "://" ++ rest) =
      (urlDecode charset scheme).bind fun first ↦
        (urlDecode charset rest).map (first ++ "://" ++ ·) := by
  have hslash (after : List Char) :
      decodeRun charset [] ('/' :: after) = (decodeRun charset [] after).map ('/' :: ·) := by
    rw [decodeRun_plain (by decide) (by decide), toChars_nil]
    rfl
  have htext : (scheme ++ "://" ++ rest).toList =
      scheme.toList ++ ':' :: '/' :: '/' :: rest.toList := by
    simp
  rw [urlDecode, htext, decodeRun_append (by decide) (by decide) (by decide), hslash, hslash]
  unfold urlDecode
  cases decodeRun charset [] scheme.toList with
  | none => rfl
  | some first =>
    cases decodeRun charset [] rest.toList with
    | none => rfl
    | some later => simp [← String.toList_inj]

theorem utf16Length_urlDecode_le {text decoded : String}
    (h : urlDecode charset text = some decoded) :
    utf16Length decoded.toList ≤ utf16Length text.toList := by
  obtain ⟨chars, hchars, rfl⟩ := Option.map_eq_some_iff.mp h
  have hle := utf16Length_decodeRun_le hchars
  simpa using hle

end Orbot.Foundation
