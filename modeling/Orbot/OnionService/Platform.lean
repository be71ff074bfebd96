import Orbot.OnionService.Columns

/-!
# The platform under the onion services

The default charset, `org.json` and the order of `File.listFiles` belong to the platform. A model
of an onion-service operation takes them as a parameter, and a result that relies on them says what
it relies on. The flat platform at the end reads and writes objects of plain strings and integers
in ASCII, as the libraries do; runs on fixed inputs use it.
-/

namespace Orbot.OnionService

open Orbot.Foundation

/-- A value of a `JSONObject`, with what its coercions to `String` and `int` return. -/
inductive JsonValue where
  | string (text : String)
  | number (text : String) (intValue : Int32)
  | other (text : String)
  deriving DecidableEq

abbrev JsonObject := List (String × JsonValue)

/-- The order in which `File.listFiles` gives the names of a directory: it can be any. -/
structure Listing where
  order : List String → List String
  perm : ∀ names, (order names).Perm names

/-- The order that gives one name before all the others. -/
def Listing.first (name : String) : Listing where
  order names := if name ∈ names then name :: names.erase name else names
  perm names := by
    split
    · next hmem => exact (List.perm_cons_erase hmem).symm
    · exact .refl _

theorem Listing.order_first {name : String} {names : List String} (h : name ∈ names) :
    (first name).order names = name :: names.erase name := if_pos h

structure Platform where
  /-- `Charset.defaultCharset().decode` and the decoding of an `InputStreamReader`. -/
  decode : Bytes → String
  /-- The encoding of a `FileWriter`. -/
  encode : String → Bytes
  /-- The constructor `JSONObject(String)`; `none` for a `JSONException`. -/
  parseObject : String → Option JsonObject
  /-- `JSONObject.toString`. -/
  printObject : JsonObject → String
  /-- The coercion of a string to an `int` by `JSONObject.getInt`, which is not that of
  `Integer.parseInt`: it goes over `Double.parseDouble`. -/
  parseInteger : String → Option Int32
  listing : Listing

/-- The platform with another order of `File.listFiles`. -/
def Platform.withListing (P : Platform) (listing : Listing) : Platform :=
  { P with listing := listing }

/-- `JSONObject.getString`: any value is coerced to its text. -/
def getString (object : JsonObject) (name : String) : Option String :=
  match object.lookup name with
  | some (.string text) | some (.number text _) | some (.other text) => some text
  | none => none

/-- `JSONObject.getInt`: a number, or a string that reads as one. -/
def getInt (P : Platform) (object : JsonObject) (name : String) : Option Int32 :=
  match object.lookup name with
  | some (.number _ intValue) => some intValue
  | some (.string text) => P.parseInteger text
  | _ => none

/-- The libraries read back what they wrote for one object, and the texts of integers. -/
structure Platform.RoundTrips (P : Platform) (object : JsonObject) : Prop where
  decode_encode : P.decode (P.encode (P.printObject object)) = P.printObject object
  parse_print : P.parseObject (P.printObject object) = some object
  parse_decimal : ∀ n : Int32, P.parseInteger (decimal n) = some n

/-! ## Lines of a text -/

/-- The loop of `Utils.readString`: every line, also an unterminated last one, gets a line feed.
The flag says that the current line has characters. -/
def readLines : Bool → List Char → List Char
  | started, [] => if started then ['\n'] else []
  | _, '\r' :: '\n' :: rest => '\n' :: readLines false rest
  | _, '\r' :: rest => '\n' :: readLines false rest
  | _, '\n' :: rest => '\n' :: readLines false rest
  | _, c :: rest => c :: readLines true rest

/-- `Utils.readString`. -/
def readString (P : Platform) (content : Bytes) : String :=
  String.ofList (readLines false (P.decode content).toList)

/-- The address in a hostname file. -/
def trimmedContent (P : Platform) (content : Bytes) : String :=
  trim (readString P content)

/-! ## A flat platform -/

/-- The characters up to the closing quote, and what follows it. -/
def readQuoted : List Char → Option (List Char × List Char)
  | [] => none
  | '"' :: rest => some ([], rest)
  | c :: rest => (readQuoted rest).map fun (text, after) ↦ (c :: text, after)

/-- The decimal digits of an integer with an optional sign. -/
def readInteger : List Char → Option Int32
  | '-' :: digits =>
      if digits ≠ [] ∧ digits.all Char.isDigit then
        some (Int32.ofInt (-(Nat.ofDigitChars 10 digits 0)))
      else none
  | digits =>
      if digits ≠ [] ∧ digits.all Char.isDigit then
        some (Int32.ofInt (Nat.ofDigitChars 10 digits 0))
      else none

/-- The members of a flat object up to the closing brace, at most `fuel` of them. -/
def readMembers : ℕ → List Char → Option JsonObject
  | 0, _ => none
  | fuel + 1, '"' :: text => do
      let (name, afterName) ← readQuoted text
      match afterName with
      | ':' :: '"' :: valueText =>
          let (value, afterValue) ← readQuoted valueText
          let member := (String.ofList name, JsonValue.string (String.ofList value))
          match afterValue with
          | ',' :: more => (readMembers fuel more).map (member :: ·)
          | ['\x7d'] => some [member]
          | _ => none
      | ':' :: valueText =>
          let digits := valueText.takeWhile fun c ↦ c ≠ ',' ∧ c ≠ '\x7d'
          let value ← readInteger digits
          let member := (String.ofList name, JsonValue.number (String.ofList digits) value)
          match valueText.drop digits.length with
          | ',' :: more => (readMembers fuel more).map (member :: ·)
          | ['\x7d'] => some [member]
          | _ => none
      | _ => none
  | _, _ => none

def printValue : JsonValue → String
  | .string text => "\"" ++ text ++ "\""
  | .number text _ | .other text => text

/-- ASCII texts and flat objects of strings without escapes and of integers. -/
def flatPlatform : Platform where
  decode content := String.ofList (content.map fun byte ↦ Char.ofNat byte.toNat)
  encode text := text.toList.map fun c ↦ UInt8.ofNat c.toNat
  parseObject text :=
    match text.toList with
    | '\x7b' :: members => readMembers text.toList.length members
    | _ => none
  printObject object :=
    "\x7b" ++ ",".intercalate (object.map fun (name, value) ↦
      "\"" ++ name ++ "\":" ++ printValue value) ++ "\x7d"
  parseInteger text := readInteger text.toList
  listing := ⟨id, fun _ ↦ .refl _⟩

theorem readInteger_decimal (n : Int32) : readInteger (decimal n).toList = some n := by
  have hdigits (m : ℕ) : Nat.toDigits 10 m ≠ [] ∧ (Nat.toDigits 10 m).all Char.isDigit :=
    ⟨Nat.toDigits_ne_nil, List.all_eq_true.mpr fun c hc ↦
      Nat.isDigit_of_mem_toDigits (by decide) (by decide) hc⟩
  rw [toList_decimal]
  split
  · next hsign =>
    rw [readInteger]
    · rw [if_pos (hdigits _), Nat.ofDigitChars_ten_toDigits, Int.toNat_of_nonneg hsign,
        Int32.ofInt_toInt]
    · rintro rest hrest
      have hminus := (hdigits n.toInt.toNat).2
      rw [hrest] at hminus
      simp at hminus
  · next hsign =>
    rw [readInteger, if_pos (hdigits _), Nat.ofDigitChars_ten_toDigits,
      Int.toNat_of_nonneg (by omega), Int.neg_neg, Int32.ofInt_toInt]

example : flatPlatform.parseObject (flatPlatform.printObject
    [("name", .string "blog"), ("port", .number "8080" 8080)]) =
      some [("name", .string "blog"), ("port", .number "8080" 8080)] := by decide

example : trimmedContent flatPlatform (flatPlatform.encode "abc.onion\r\n") = "abc.onion" := by
  decide

end Orbot.OnionService
