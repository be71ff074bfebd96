import Mathlib.Data.List.Forall2

/-!
# Texts of directives with stored parts

A text of directives, one a line, is put together from fixed parts and from stored parts, whose
content the writer does not control. A reader takes the first word of each line for its keyword.
Where a stored part comes after the keyword of its line, the reader does not see it as long as it
has no line feed, and each line feed in it adds a line.
-/

namespace Orbot.Foundation

/-- A part of a line. -/
inductive Piece where
  | fixed (text : String)
  | stored (text : String)
  deriving DecidableEq

def Piece.chars : Piece → List Char
  | .fixed text | .stored text => text.toList

/-- A line, without its line feed. -/
abbrev Directive := List Piece

def Directive.chars (line : Directive) : List Char := line.flatMap Piece.chars

def Directive.text (line : Directive) : String := String.ofList line.chars

@[simp]
theorem Directive.text_single (piece : Piece) :
    Directive.text [piece] = String.ofList piece.chars := by
  simp [Directive.text, Directive.chars]

@[simp]
theorem Directive.text_pair (first second : Piece) :
    Directive.text [first, second] = String.ofList first.chars ++ String.ofList second.chars := by
  simp [Directive.text, Directive.chars]

/-- The line begins with a text. -/
def Directive.StartsWith (head : String) (line : Directive) : Prop := head.toList <+: line.chars

instance (head : String) (line : Directive) : Decidable (line.StartsWith head) :=
  inferInstanceAs (Decidable (_ <+: _))

theorem Directive.startsWith_fixed (head text : String) (rest : Directive) :
    Directive.StartsWith head (.fixed (head ++ text) :: rest) := by
  rw [Directive.StartsWith, Directive.chars, List.flatMap_cons, Piece.chars, String.toList_append,
    List.append_assoc]
  exact List.prefix_append _ _

/-- Of two texts at the beginning of a line one begins with the other. -/
theorem Directive.StartsWith.ne {head other : String} {line : Directive}
    (h : line.StartsWith head)
    (hne : ¬ head.toList <+: other.toList ∧ ¬ other.toList <+: head.toList) :
    ¬ line.StartsWith other :=
  fun hother ↦ (List.prefix_or_prefix_of_prefix h hother).elim hne.1 hne.2

/-- The characters of the lines, each with its line feed. -/
def directiveChars (lines : List Directive) : List Char :=
  lines.flatMap fun line ↦ line.chars ++ ['\n']

theorem directiveChars_cons (line : Directive) (rest : List Directive) :
    directiveChars (line :: rest) = (line.chars ++ ['\n']) ++ directiveChars rest :=
  List.flatMap_cons

def directivesText (lines : List Directive) : String := String.ofList (directiveChars lines)

/-! ## Reading keywords -/

/-- The blanks within a line. -/
def isBlank (c : Char) : Bool := c = ' ' || c = '\t' || c = '\r' || c = '\x0b' || c = '\x0c'

/-- What a reader has seen: the keywords of the lines that ended, and the keyword of the current
line, which a blank ends. -/
structure LineReader where
  keywords : List (List Char)
  keyword : List Char
  ended : Bool

namespace LineReader

/-- At the beginning of a line. -/
def fresh (keywords : List (List Char)) : LineReader := ⟨keywords, [], false⟩

def step (r : LineReader) (c : Char) : LineReader :=
  if c = '\n' then fresh (r.keywords ++ [r.keyword])
  else if isBlank c then { r with ended := r.ended || r.keyword ≠ [] }
  else if r.ended then r
  else { r with keyword := r.keyword ++ [c] }

def read (r : LineReader) (text : List Char) : LineReader := text.foldl step r

@[simp]
theorem read_nil (r : LineReader) : r.read [] = r := rfl

@[simp]
theorem read_cons (r : LineReader) (c : Char) (text : List Char) :
    r.read (c :: text) = (r.step c).read text := rfl

theorem read_append (r : LineReader) (first second : List Char) :
    r.read (first ++ second) = (r.read first).read second := List.foldl_append

/-- After the keyword a text without a line feed changes nothing. -/
theorem read_of_ended {r : LineReader} (hended : r.ended = true) {text : List Char}
    (htext : '\n' ∉ text) : r.read text = r := by
  induction text with
  | nil => rfl
  | cons c text ih =>
    obtain ⟨hc, hrest⟩ := not_or.mp (mt List.mem_cons.mpr htext)
    have hstep : r.step c = r := by
      obtain ⟨keywords, keyword, ended⟩ := r
      obtain rfl : ended = true := hended
      cases hblank : isBlank c <;> simp [step, Ne.symm hc, hblank]
    rw [read_cons, hstep]
    exact ih hrest

/-- Each line feed ends a line with one keyword. -/
theorem length_keywords_read (r : LineReader) (text : List Char) :
    (r.read text).keywords.length = r.keywords.length + text.count '\n' := by
  induction text generalizing r with
  | nil => simp
  | cons c text ih =>
    rw [read_cons, ih]
    by_cases hc : c = '\n'
    · simp [step, hc, fresh]
      omega
    · have hkeywords : (r.step c).keywords = r.keywords := by
        rw [step, if_neg hc]
        split
        · rfl
        · split <;> rfl
      rw [hkeywords, List.count_cons_of_ne hc]

/-- A word and a blank end the keyword. -/
theorem ended_read {text : List Char} {c : Char} (hc : isBlank c = false) (hline : c ≠ '\n')
    (r : LineReader) : (r.read (text ++ [c, ' '])).ended = true := by
  rw [read_append]
  generalize r.read text = before
  have hword : (before.step c).ended = true ∨ (before.step c).keyword ≠ [] := by
    rw [step, if_neg hline, hc]
    cases hended : before.ended with
    | true => exact .inl (by simpa using hended)
    | false => simp
  change ((before.step c).step ' ').ended = true
  rw [step, if_neg (by decide), if_pos (by decide)]
  rcases hword with hended | hkeyword
  · simp [hended]
  · simp [hkeyword]

end LineReader

/-- The keywords of the lines of a text, each of which ends with a line feed. -/
def leadingKeywords (text : String) : List String :=
  ((LineReader.fresh []).read text.toList).keywords.map String.ofList

def lineCount (text : String) : ℕ := text.toList.count '\n'

theorem length_leadingKeywords (text : String) :
    (leadingKeywords text).length = lineCount text := by
  rw [leadingKeywords, List.length_map, LineReader.length_keywords_read]
  exact Nat.zero_add _

/-! ## Stored parts -/

/-- A stored part that adds no line. -/
def Piece.Clean : Piece → Prop
  | .fixed _ => True
  | .stored text => '\n' ∉ text.toList

instance : ∀ piece : Piece, Decidable piece.Clean
  | .fixed _ => inferInstanceAs (Decidable True)
  | .stored _ => inferInstanceAs (Decidable (_ ∉ _))

def Directive.Clean (line : Directive) : Prop := ∀ piece ∈ line, piece.Clean

@[simp]
theorem Directive.clean_nil : Directive.Clean [] := by simp [Directive.Clean]

@[simp]
theorem Directive.clean_fixed (text : String) (rest : Directive) :
    Directive.Clean (.fixed text :: rest) ↔ rest.Clean := by
  simp [Directive.Clean, Piece.Clean]

@[simp]
theorem Directive.clean_stored (text : String) (rest : Directive) :
    Directive.Clean (.stored text :: rest) ↔ '\n' ∉ text.toList ∧ rest.Clean := by
  simp [Directive.Clean, Piece.Clean]

/-- Equal up to the contents of stored parts. -/
def Piece.SameShape : Piece → Piece → Prop
  | .fixed text, .fixed text' => text = text'
  | .stored _, .stored _ => True
  | .fixed _, .stored _ | .stored _, .fixed _ => False

def Directive.SameShape (line line' : Directive) : Prop := List.Forall₂ Piece.SameShape line line'

/-- For a reader that passes over stored parts, each of them comes after the keyword. -/
def Directive.ProtectedFrom : LineReader → Directive → Prop
  | _, [] => True
  | r, .fixed text :: rest => ProtectedFrom (r.read text.toList) rest
  | r, .stored _ :: rest => r.ended = true ∧ ProtectedFrom r rest

/-- The stored parts come after the keyword of the line. -/
def Directive.Protected (line : Directive) : Prop :=
  ∀ keywords, line.ProtectedFrom (.fresh keywords)

/-- The text ends with a word and a space. -/
def EndsKeyword (text : String) : Prop :=
  match text.toList.reverse with
  | ' ' :: c :: _ => isBlank c = false ∧ c ≠ '\n'
  | _ => False

instance (text : String) : Decidable (EndsKeyword text) := by
  unfold EndsKeyword
  split <;> infer_instance

theorem EndsKeyword.ended_read {text : String} (h : EndsKeyword text) (r : LineReader) :
    (r.read text.toList).ended = true := by
  unfold EndsKeyword at h
  split at h
  · next c rest hreverse =>
    have htext : text.toList = rest.reverse ++ [c, ' '] := by
      simpa using congrArg List.reverse hreverse
    rw [htext]
    exact LineReader.ended_read h.1 h.2 r
  · exact h.elim

theorem EndsKeyword.append {text : String} (h : EndsKeyword text) (before : String) :
    EndsKeyword (before ++ text) := by
  unfold EndsKeyword at h ⊢
  rw [String.toList_append, List.reverse_append]
  split at h
  · next c rest hreverse =>
    rw [hreverse]
    exact h
  · exact h.elim

/-- After the keyword every part is protected if the fixed ones end no line. -/
theorem Directive.protectedFrom_of_ended {line : Directive}
    (h : ∀ text, .fixed text ∈ line → '\n' ∉ text.toList) {r : LineReader}
    (hended : r.ended = true) : line.ProtectedFrom r := by
  induction line with
  | nil => trivial
  | cons piece rest ih =>
    have hrest := ih fun text htext ↦ h text (List.mem_cons_of_mem piece htext)
    cases piece with
    | fixed text =>
      rw [Directive.ProtectedFrom, LineReader.read_of_ended hended (h text List.mem_cons_self)]
      exact hrest
    | stored text => exact ⟨hended, hrest⟩

theorem Directive.protected_of_endsKeyword {head : String} (h : EndsKeyword head)
    {rest : Directive} (hrest : ∀ text, .fixed text ∈ rest → '\n' ∉ text.toList) :
    Directive.Protected (.fixed head :: rest) :=
  fun keywords ↦ Directive.protectedFrom_of_ended hrest (h.ended_read (.fresh keywords))

/-- A line without a stored part. -/
theorem Directive.protected_fixed (text : String) : Directive.Protected [.fixed text] :=
  fun _ ↦ trivial

namespace LineReader

/-- What reads alike from the beginning of a line: the keywords do not matter. -/
theorem read_clean {line : Directive} (hclean : line.Clean) {r : LineReader}
    (hprotected : line.ProtectedFrom r) {line' : Directive} (hclean' : line'.Clean)
    (hshape : line.SameShape line') : r.read line.chars = r.read line'.chars := by
  induction hshape generalizing r with
  | nil => rfl
  | @cons piece piece' rest rest' hpiece hrest ih =>
    obtain ⟨hhere, hlater⟩ := List.forall_mem_cons.mp hclean
    obtain ⟨hhere', hlater'⟩ := List.forall_mem_cons.mp hclean'
    simp only [Directive.chars, List.flatMap_cons, read_append]
    cases piece with
    | fixed text =>
      cases piece' with
      | fixed text' =>
        obtain rfl : text = text' := hpiece
        exact ih hlater hprotected hlater'
      | stored text' => exact hpiece.elim
    | stored text =>
      cases piece' with
      | fixed text' => exact hpiece.elim
      | stored text' =>
        obtain ⟨hended, hprotected⟩ := hprotected
        simp only [Piece.chars, read_of_ended hended hhere, read_of_ended hended hhere']
        exact ih hlater hprotected hlater'

theorem read_lineFeed (r : LineReader) (line : List Char) :
    r.read (line ++ ['\n']) = fresh ((r.read line).keywords ++ [(r.read line).keyword]) := by
  rw [read_append]
  rfl

end LineReader

/-- Lines that are equal up to the contents of stored parts. -/
def SameShape (lines lines' : List Directive) : Prop :=
  List.Forall₂ Directive.SameShape lines lines'

theorem Piece.SameShape.refl : ∀ piece : Piece, piece.SameShape piece
  | .fixed _ => rfl
  | .stored _ => trivial

theorem Directive.SameShape.refl (line : Directive) : line.SameShape line :=
  List.forall₂_same.mpr fun piece _ ↦ .refl piece

theorem SameShape.refl (lines : List Directive) : SameShape lines lines :=
  List.forall₂_same.mpr fun line _ ↦ .refl line

theorem SameShape.append {lines lines' others others' : List Directive}
    (h : SameShape lines lines') (hothers : SameShape others others') :
    SameShape (lines ++ others) (lines' ++ others') :=
  List.rel_append h hothers

/-- The stored parts of clean texts do not show in their keywords. -/
theorem read_directiveChars_clean {lines lines' : List Directive}
    (hclean : ∀ line ∈ lines, line.Clean) (hprotected : ∀ line ∈ lines, line.Protected)
    (hclean' : ∀ line ∈ lines', line.Clean) (hshape : SameShape lines lines')
    (keywords : List (List Char)) :
    (LineReader.fresh keywords).read (directiveChars lines) =
      (LineReader.fresh keywords).read (directiveChars lines') := by
  induction hshape generalizing keywords with
  | nil => rfl
  | @cons line line' rest rest' hline hrest ih =>
    obtain ⟨hhere, hlater⟩ := List.forall_mem_cons.mp hclean
    obtain ⟨hhere', hlater'⟩ := List.forall_mem_cons.mp hclean'
    obtain ⟨hfirst, hothers⟩ := List.forall_mem_cons.mp hprotected
    have hsame := LineReader.read_clean hhere (hfirst keywords) hhere' hline
    have hread (first : Directive) (later : List Directive) :
        (LineReader.fresh keywords).read (directiveChars (first :: later)) =
          ((LineReader.fresh keywords).read (first.chars ++ ['\n'])).read
            (directiveChars later) := by
      rw [directiveChars_cons, LineReader.read_append]
    rw [hread, hread, LineReader.read_lineFeed, LineReader.read_lineFeed, hsame]
    exact ih hlater hothers hlater' _

/-! ## Counting lines -/

/-- The line feeds of the stored parts of a line. -/
def Directive.storedLineFeeds : Directive → ℕ
  | [] => 0
  | .fixed _ :: rest => storedLineFeeds rest
  | .stored text :: rest => text.toList.count '\n' + storedLineFeeds rest

theorem Directive.storedLineFeeds_eq_zero {line : Directive} :
    line.storedLineFeeds = 0 ↔ line.Clean := by
  induction line with
  | nil => simp [storedLineFeeds, Directive.Clean]
  | cons piece rest ih =>
    rw [Directive.Clean, List.forall_mem_cons]
    cases piece with
    | fixed text =>
      rw [storedLineFeeds, ih]
      exact (and_iff_right trivial).symm
    | stored text =>
      rw [storedLineFeeds, Nat.add_eq_zero_iff, List.count_eq_zero]
      exact and_congr Iff.rfl ih

/-- The line feeds of the stored parts of some lines. -/
def totalLineFeeds : List Directive → ℕ
  | [] => 0
  | line :: rest => line.storedLineFeeds + totalLineFeeds rest

theorem totalLineFeeds_eq_zero {lines : List Directive} :
    totalLineFeeds lines = 0 ↔ ∀ line ∈ lines, line.Clean := by
  induction lines with
  | nil => simp [totalLineFeeds]
  | cons line rest ih =>
    rw [totalLineFeeds, Nat.add_eq_zero_iff, ih, Directive.storedLineFeeds_eq_zero,
      List.forall_mem_cons]

theorem Directive.SameShape.count {line line' : Directive} (h : line.SameShape line') :
    line.chars.count '\n' + line'.storedLineFeeds =
      line'.chars.count '\n' + line.storedLineFeeds := by
  induction h with
  | nil => rfl
  | @cons piece piece' rest rest' hpiece hrest ih =>
    simp only [Directive.chars, List.flatMap_cons, List.count_append] at ih ⊢
    cases piece with
    | fixed text =>
      cases piece' with
      | fixed text' =>
        obtain rfl : text = text' := hpiece
        simp only [storedLineFeeds, Piece.chars]
        omega
      | stored text' => exact hpiece.elim
    | stored text =>
      cases piece' with
      | fixed text' => exact hpiece.elim
      | stored text' =>
        simp only [storedLineFeeds, Piece.chars]
        omega

/-- The lines of two texts of one shape differ by the line feeds of their stored parts. -/
theorem SameShape.count {lines lines' : List Directive} (h : SameShape lines lines') :
    (directiveChars lines).count '\n' + totalLineFeeds lines' =
      (directiveChars lines').count '\n' + totalLineFeeds lines := by
  induction h with
  | nil => rfl
  | @cons line line' rest rest' hline hrest ih =>
    have hcount := Directive.SameShape.count hline
    simp only [directiveChars_cons, List.count_append, totalLineFeeds]
    omega

/-- Against a clean text of one shape, a text has the same keywords if and only if it is clean. -/
theorem leadingKeywords_eq_iff {lines lines' : List Directive} (hshape : SameShape lines lines')
    (hprotected : ∀ line ∈ lines, line.Protected) (hclean' : ∀ line ∈ lines', line.Clean) :
    leadingKeywords (directivesText lines) = leadingKeywords (directivesText lines') ↔
      ∀ line ∈ lines, line.Clean := by
  constructor
  · intro hkeywords
    have hlength := congrArg List.length hkeywords
    rw [length_leadingKeywords, length_leadingKeywords] at hlength
    simp only [lineCount, directivesText, String.toList_ofList] at hlength
    have hcount := hshape.count
    have hnone := totalLineFeeds_eq_zero.mpr hclean'
    apply totalLineFeeds_eq_zero.mp
    omega
  · intro hclean
    simp only [leadingKeywords, directivesText, String.toList_ofList]
    rw [read_directiveChars_clean hclean hprotected hclean' hshape]

/-! ## The first keywords -/

namespace LineReader

theorem keywords_step_isPrefix (r : LineReader) (c : Char) :
    r.keywords <+: (r.step c).keywords := by
  unfold step
  split
  · exact List.prefix_append _ _
  · split
    · exact List.prefix_rfl
    · split <;> exact List.prefix_rfl

/-- The keywords of the lines that have ended stay. -/
theorem keywords_read_isPrefix (r : LineReader) (text : List Char) :
    r.keywords <+: (r.read text).keywords := by
  induction text generalizing r with
  | nil => exact List.prefix_rfl
  | cons c text ih => exact (r.keywords_step_isPrefix c).trans (ih (r.step c))

/-- A keyword that has ended is the keyword of its line. -/
theorem keyword_isPrefix_of_ended {r : LineReader} (hended : r.ended = true) {text : List Char}
    (htext : '\n' ∈ text) : r.keywords ++ [r.keyword] <+: (r.read text).keywords := by
  obtain ⟨first, rest, rfl, hfirst⟩ := List.eq_append_cons_of_mem htext
  rw [read_append, read_of_ended hended hfirst, read_cons]
  exact keywords_read_isPrefix (r.step '\n') rest

end LineReader

/-- The keyword of a line, whatever follows it. -/
theorem keyword_isPrefix {line : Directive} {head : String} (hstarts : line.StartsWith head)
    (rest : List Directive) (keywords : List (List Char)) {word : List Char}
    (hhead : (LineReader.fresh keywords).read head.toList = ⟨keywords, word, true⟩) :
    keywords ++ [word] <+:
      ((LineReader.fresh keywords).read (directiveChars (line :: rest))).keywords := by
  obtain ⟨more, hmore⟩ := hstarts
  rw [directiveChars_cons, ← hmore, List.append_assoc, List.append_assoc, LineReader.read_append,
    hhead]
  have hlineFeed : '\n' ∈ more ++ (['\n'] ++ directiveChars rest) := by simp
  exact LineReader.keyword_isPrefix_of_ended (r := ⟨keywords, word, true⟩) rfl hlineFeed

/-- The first two keywords, for a first line that is known. -/
theorem keyword_pair_isPrefix {first : Directive} {head word word' : String}
    (hfirst : (LineReader.fresh []).read (first.chars ++ ['\n']) = LineReader.fresh [word.toList])
    (hhead : (LineReader.fresh [word.toList]).read head.toList =
      ⟨[word.toList], word'.toList, true⟩)
    {second : Directive} (hstarts : second.StartsWith head) (rest : List Directive) :
    [word, word'] <+: leadingKeywords (directivesText (first :: second :: rest)) := by
  have hpart := (keyword_isPrefix hstarts rest [word.toList] hhead).map String.ofList
  rw [List.map_append, List.map_singleton, List.map_singleton, String.ofList_toList,
    String.ofList_toList] at hpart
  rwa [leadingKeywords, directivesText, String.toList_ofList, directiveChars_cons,
    LineReader.read_append, hfirst]

/-- Two texts have as many lines and the same keywords. -/
def SameDirectives (lines lines' : List Directive) : Prop :=
  lineCount (directivesText lines) = lineCount (directivesText lines') ∧
    leadingKeywords (directivesText lines) = leadingKeywords (directivesText lines')

/-- Texts with the same keywords have as many lines. -/
theorem sameDirectives_iff_keywords {lines lines' : List Directive} :
    SameDirectives lines lines' ↔
      leadingKeywords (directivesText lines) = leadingKeywords (directivesText lines') := by
  refine and_iff_right_of_imp fun hkeywords ↦ ?_
  rw [← length_leadingKeywords, hkeywords, length_leadingKeywords]

end Orbot.Foundation
