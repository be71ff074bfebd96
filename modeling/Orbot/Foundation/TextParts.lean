import Mathlib.Algebra.Order.BigOperators.Group.List
import Mathlib.Algebra.Order.Group.Nat
import Orbot.Foundation.JavaString

/-!
# Parts of a text

What `String.split` and `StringTokenizer` make of a text that ends with separators, and of a text
that was put together from parts; what `String.trim` leaves of a text.
-/

namespace Orbot.Foundation

/-! ## Positions in a text -/

/-- `String.indexOf` by the number of characters before the part, with none for -1. -/
def indexOf (text part : String) : Option ℕ :=
  text.toList.tails.findIdx? fun rest ↦ part.toList.isPrefixOf rest

theorem isSome_indexOf (text part : String) : (indexOf text part).isSome = contains text part :=
  List.findIdx?_isSome

theorem indexOf_eq_some {text part : String} {index : ℕ} (h : indexOf text part = some index) :
    text = String.ofList (text.toList.take index) ++ part ++
      String.ofList (text.toList.drop (index + part.toList.length)) := by
  obtain ⟨hlt, hpart, -⟩ := List.findIdx?_eq_some_iff_getElem.mp h
  rw [List.getElem_tails, List.isPrefixOf_iff_prefix] at hpart
  obtain ⟨rest, hrest⟩ := hpart
  have hdrop : text.toList.drop (index + part.toList.length) = rest := by
    rw [← List.drop_drop, ← hrest, List.drop_left]
  rw [← String.toList_inj, hdrop]
  simp [hrest]

/-- The number of `char`s that a character takes in a Java string. -/
def utf16Size (c : Char) : ℕ := if c.toNat < 0x10000 then 1 else 2

def utf16Length : List Char → ℕ
  | [] => 0
  | c :: rest => utf16Size c + utf16Length rest

/-- What is left after the first `char`s. The second half of a pair stands as the replacement
character, as it is written when the text is stored. -/
def utf16Drop (count : ℕ) : List Char → List Char
  | [] => []
  | c :: rest =>
      if count = 0 then c :: rest
      else if count < utf16Size c then '\uFFFD' :: rest
      else utf16Drop (count - utf16Size c) rest

/-- `String.substring` from a position on, counted in `char`s, with none for the exception. -/
def substring (text : String) (beginIndex : ℕ) : Option String :=
  if beginIndex ≤ utf16Length text.toList then
    some (String.ofList (utf16Drop beginIndex text.toList))
  else none

theorem utf16Size_pos (c : Char) : 0 < utf16Size c := by
  unfold utf16Size
  split <;> decide

theorem utf16Size_of_le_space {c : Char} (hc : c ≤ ' ') : utf16Size c = 1 := by
  have hle : c.toNat ≤ 32 := hc
  exact if_pos (by omega)

@[simp] theorem utf16Length_nil : utf16Length [] = 0 := rfl

@[simp] theorem utf16Length_cons (c : Char) (text : List Char) :
    utf16Length (c :: text) = utf16Size c + utf16Length text := rfl

@[simp] theorem utf16Length_append (first last : List Char) :
    utf16Length (first ++ last) = utf16Length first + utf16Length last := by
  induction first with
  | nil => simp
  | cons c rest ih => rw [List.cons_append, utf16Length_cons, utf16Length_cons, ih, add_assoc]

@[simp] theorem utf16Drop_zero (text : List Char) : utf16Drop 0 text = text := by
  cases text <;> rfl

theorem utf16Drop_append {count : ℕ} {first : List Char} (h : utf16Length first ≤ count)
    (last : List Char) :
    utf16Drop count (first ++ last) = utf16Drop (count - utf16Length first) last := by
  induction first generalizing count with
  | nil => rfl
  | cons c rest ih =>
    have hpos := utf16Size_pos c
    rw [utf16Length_cons] at h
    rw [List.cons_append, utf16Drop, if_neg (by omega), if_neg (by omega), ih (by omega),
      utf16Length_cons, Nat.sub_sub]

/-- What is left of a text is an ending of it, or it begins with half of a pair. -/
theorem utf16Drop_cases (count : ℕ) (text : List Char) :
    utf16Drop count text <:+ text ∨
      ∃ c rest, utf16Size c ≠ 1 ∧ c :: rest <:+ text ∧ utf16Drop count text = '\uFFFD' :: rest := by
  induction text generalizing count with
  | nil => exact .inl List.suffix_rfl
  | cons c rest ih =>
    unfold utf16Drop
    split
    · exact .inl List.suffix_rfl
    · split
      · exact .inr ⟨c, rest, by omega, List.suffix_rfl, rfl⟩
      · rcases ih (count - utf16Size c) with hsuffix | ⟨other, later, hsize, hsuffix, hrest⟩
        · exact .inl (hsuffix.trans (List.suffix_cons c rest))
        · exact .inr ⟨other, later, hsize, hsuffix.trans (List.suffix_cons c rest), hrest⟩

/-- A cut and an ending of the same text: one is an ending of the other. -/
theorem suffix_or_suffix_of_substring {text part : String} {beginIndex : ℕ} {ending : List Char}
    (h : substring text beginIndex = some part) (hending : ending <:+ text.toList)
    (hsize : ∀ c ∈ ending, utf16Size c = 1) : ending <:+ part.toList ∨ part.toList <:+ ending := by
  unfold substring at h
  split at h
  · rw [← Option.some_inj.mp h, String.toList_ofList]
    rcases utf16Drop_cases beginIndex text.toList with hsuffix | ⟨c, rest, hpair, hsuffix, hdrop⟩
    · exact List.suffix_or_suffix_of_suffix hending hsuffix
    · -- the ending holds no pair, so it ends after the one that is cut
      rw [hdrop]
      rcases List.suffix_or_suffix_of_suffix hending hsuffix with hshort | hlong
      · rcases List.suffix_cons_iff.mp hshort with hwhole | hrest
        · exact absurd (hsize c (hwhole ▸ List.mem_cons_self)) hpair
        · exact .inl (hrest.trans (List.suffix_cons _ rest))
      · exact absurd (hsize c (hlong.subset List.mem_cons_self)) hpair
  · cases h

/-! ## Parts between separators -/

theorem length_splitOn (c : Char) (text : List Char) :
    (text.splitOn c).length = text.count c + 1 := by
  induction text with
  | nil => rfl
  | cons x rest ih =>
    rw [List.splitOn_cons_eq_if_modifyHead]
    by_cases hx : x = c
    · simp [hx, ih]
    · simp [hx, ih]

theorem flatten_splitOn (c : Char) (text : List Char) :
    (text.splitOn c).flatten = text.filter (· ≠ c) := by
  induction text with
  | nil => rfl
  | cons x rest ih =>
    rw [List.splitOn_cons_eq_if_modifyHead]
    by_cases hx : x = c
    · simp [hx, ih]
    · obtain ⟨first, others, hsplit, -⟩ := splitOn_parts c rest
      rw [hsplit] at ih
      rw [List.filter_cons_of_pos (by simpa using hx), ← ih]
      simp [hx, hsplit]

/-- A part at the end of a text without separators is at the end of its last part. -/
theorem suffix_getLast_splitOn {c : Char} {text ending : List Char} (hmem : c ∉ ending)
    (h : ending <:+ text) : ending <:+ (text.splitOn c).getLast (List.splitOn_ne_nil c text) := by
  obtain ⟨front, rfl⟩ := h
  induction front with
  | nil => simp [List.splitOn_eq_singleton hmem]
  | cons x rest ih =>
    obtain ⟨first, others, hsplit, -⟩ := splitOn_parts c (rest ++ ending)
    have hcons := List.splitOn_cons_eq_if_modifyHead (a := c) x (rest ++ ending)
    simp only [List.cons_append, hsplit] at ih hcons ⊢
    by_cases hx : x = c
    · subst hx
      simpa [hcons] using ih
    · cases others with
      | nil =>
        have hfirst : ending <:+ first := by simpa using ih
        simpa [hcons, hx] using hfirst.trans (List.suffix_cons x first)
      | cons second more => simpa [hcons, hx] using ih

/-- The last part of a text is empty only if the text ends with the separator. -/
theorem getLast_splitOn_ne_nil {c : Char} {text : List Char} (hne : text ≠ [])
    (hlast : text.getLast hne ≠ c) :
    (text.splitOn c).getLast (List.splitOn_ne_nil c text) ≠ [] := by
  have hending : [text.getLast hne] <:+ text :=
    ⟨text.dropLast, List.dropLast_append_getLast hne⟩
  have hlater := suffix_getLast_splitOn (by simpa using hlast.symm) hending
  exact List.ne_nil_of_mem (hlater.subset (List.mem_singleton_self _))

/-- The empty parts at the end of a text are those of the separators that end it. -/
theorem rdropWhile_splitOn (c : Char) (text : List Char) :
    (text.splitOn c).rdropWhile (· = []) =
      if text.rdropWhile (· = c) = [] then [] else (text.rdropWhile (· = c)).splitOn c := by
  induction text using List.reverseRecOn with
  | nil => simp [List.rdropWhile_singleton]
  | append_singleton rest x ih =>
    by_cases hx : x = c
    · rw [hx, List.splitOn_append_cons_self, List.splitOn_nil,
        List.rdropWhile_concat_pos _ _ _ (by simp), List.rdropWhile_concat_pos _ _ _ (by simp), ih]
    · have hne : rest ++ [x] ≠ [] := by simp
      rw [List.rdropWhile_concat_neg _ _ _ (by simpa using hx), if_neg hne,
        List.rdropWhile_eq_self_iff]
      intro hparts
      simpa using getLast_splitOn_ne_nil hne (by simpa using hx)

/-- `String.split` gives the parts of the text without the separators that end it. -/
theorem split_of_rdropWhile {c : Char} {text : String}
    (hne : text.toList.rdropWhile (· = c) ≠ []) :
    split c text = ((text.toList.rdropWhile (· = c)).splitOn c).map String.ofList := by
  unfold split
  split
  · rw [rdropWhile_splitOn, if_neg hne]
  · next hmem =>
    have hself : text.toList.rdropWhile (· = c) = text.toList := by
      rw [List.rdropWhile_eq_self_iff]
      intro htext hlast
      exact hmem (of_decide_eq_true hlast ▸ List.getLast_mem htext)
    rw [hself, List.splitOn_eq_singleton hmem]
    simp

/-- The number of parts counts the separators before those at the end. -/
theorem length_split_eq_iff {c : Char} {text : String} {n : ℕ} :
    (split c text).length = n + 2 ↔ (text.toList.rdropWhile (· = c)).count c = n + 1 := by
  by_cases hne : text.toList.rdropWhile (· = c) = []
  · have hshort : (split c text).length ≤ 1 := by
      unfold split
      split
      · simp [rdropWhile_splitOn, hne]
      · simp
    rw [hne, List.count_nil]
    omega
  · rw [split_of_rdropWhile hne, List.length_map, length_splitOn]
    omega

/-! ## Tokens -/

/-- A token with the delimiter after it is the first one. -/
theorem tokens_append_delimiter {c : Char} {token : String} (hne : token ≠ "")
    (hmem : c ∉ token.toList) (rest : String) :
    tokens c (token ++ String.singleton c ++ rest) = token :: tokens c rest := by
  have hchars : (token ++ String.singleton c ++ rest).toList =
      token.toList ++ c :: rest.toList := by simp
  have hlist : token.toList ≠ [] := fun h ↦ hne (String.toList_inj.mp h)
  rw [tokens, tokens, hchars, List.splitOn_append_cons_self_of_not_mem hmem,
    List.filter_cons_of_pos (by simpa using hlist), List.map_cons, String.ofList_toList]

/-- Tokens that a delimiter ends each are read back. -/
theorem tokens_join {c : Char} {names : List String}
    (h : ∀ name ∈ names, name ≠ "" ∧ c ∉ name.toList) :
    tokens c (String.join (names.map (· ++ String.singleton c))) = names := by
  induction names with
  | nil => rfl
  | cons name rest ih =>
    have hname := h name List.mem_cons_self
    rw [List.map_cons, String.join_cons, tokens_append_delimiter hname.1 hname.2,
      ih fun other hother ↦ h other (List.mem_cons_of_mem _ hother)]

/-- The tokens hold every character but the delimiters. -/
theorem flatMap_tokens (c : Char) (text : String) :
    (tokens c text).flatMap String.toList = text.toList.filter (· ≠ c) := by
  have hchars (part : List Char) : (String.ofList part).toList = part := String.toList_ofList
  simp only [tokens, List.flatMap_map, hchars, List.flatMap_id']
  rw [← flatten_splitOn, List.flatten_filter_ne_nil]

/-! ## Removing a part -/

/-- Copy a text without the occurrences of a part, from left to right; the number counts the
characters that are still skipped. -/
def removeAllFrom (part : List Char) : ℕ → List Char → List Char
  | _, [] => []
  | skipped + 1, _ :: rest => removeAllFrom part skipped rest
  | 0, c :: rest =>
      if part <+: c :: rest then removeAllFrom part (part.length - 1) rest
      else c :: removeAllFrom part 0 rest

/-- `String.replace` of a part that is not empty by the empty text. -/
def removeAll (part text : String) : String :=
  String.ofList (removeAllFrom part.toList 0 text.toList)

theorem removeAllFrom_append (part skipped rest : List Char) :
    removeAllFrom part skipped.length (skipped ++ rest) = removeAllFrom part 0 rest := by
  induction skipped with
  | nil => rfl
  | cons c later ih => simpa [removeAllFrom] using ih

/-- An occurrence at the beginning is skipped. -/
theorem removeAllFrom_part {part : List Char} (hne : part ≠ []) (rest : List Char) :
    removeAllFrom part 0 (part ++ rest) = removeAllFrom part 0 rest := by
  obtain ⟨c, later, rfl⟩ := List.exists_cons_of_ne_nil hne
  have hoccurs : c :: later <+: c :: (later ++ rest) := List.prefix_append (c :: later) rest
  rw [List.cons_append, removeAllFrom, if_pos hoccurs]
  exact removeAllFrom_append _ later rest

/-- Characters at which no occurrence begins are copied. -/
theorem removeAllFrom_copied {part copied rest : List Char}
    (h : ∀ tail, tail <:+ copied → tail ≠ [] → ¬ part <+: tail ++ rest) :
    removeAllFrom part 0 (copied ++ rest) = copied ++ removeAllFrom part 0 rest := by
  induction copied with
  | nil => rfl
  | cons c later ih =>
    have hnone : ¬ part <+: c :: (later ++ rest) :=
      h _ List.suffix_rfl (List.cons_ne_nil c later)
    rw [List.cons_append, removeAllFrom, if_neg hnone,
      ih fun tail htail ↦ h tail (htail.trans (List.suffix_cons c later)), List.cons_append]

/-- Two texts without the delimiter agree when one followed by the delimiter begins the other. -/
theorem append_delimiter_isPrefix {c : Char} {first second rest : List Char} (hfirst : c ∉ first)
    (hsecond : c ∉ second) : first ++ [c] <+: second ++ c :: rest ↔ first = second := by
  induction first generalizing second with
  | nil =>
    cases second with
    | nil => simp
    | cons x later =>
      have hx : c ≠ x := fun h ↦ hsecond (h ▸ List.mem_cons_self)
      simp [List.cons_prefix_cons, hx]
  | cons x later ih =>
    cases second with
    | nil =>
      have hx : x ≠ c := fun h ↦ hfirst (h ▸ List.mem_cons_self)
      simp [List.cons_prefix_cons, hx]
    | cons y more =>
      rw [List.cons_append, List.cons_append, List.cons_prefix_cons,
        ih (fun h ↦ hfirst (List.mem_cons_of_mem _ h)) (fun h ↦ hsecond (List.mem_cons_of_mem _ h)),
        List.cons.injEq]

/-- What precedes the first delimiter and what follows it are determined. -/
theorem append_delimiter_inj {c : Char} {first second rest rest' : List Char} (hfirst : c ∉ first)
    (hsecond : c ∉ second) (h : first ++ c :: rest = second ++ c :: rest') :
    first = second ∧ rest = rest' := by
  have hprefix : first ++ [c] <+: second ++ c :: rest' := ⟨rest, by simpa using h⟩
  obtain rfl := (append_delimiter_isPrefix hfirst hsecond).mp hprefix
  exact ⟨rfl, by simpa using h⟩

/-- What the removal of a token leaves of a name and its delimiter. -/
def cutToken (c : Char) (token name : List Char) : List Char :=
  if token <:+ name then name.take (name.length - token.length) else name ++ [c]

/-- A token with its delimiter is removed at the end of the first name only. -/
theorem removeAllFrom_name {c : Char} {token name : List Char} (htoken : c ∉ token)
    (hname : c ∉ name) (rest : List Char) :
    removeAllFrom (token ++ [c]) 0 (name ++ c :: rest) =
      cutToken c token name ++ removeAllFrom (token ++ [c]) 0 rest := by
  by_cases hsuffix : token <:+ name
  · obtain ⟨front, rfl⟩ := hsuffix
    have hfront : cutToken c token (front ++ token) = front := by
      simp [cutToken]
    have htext : front ++ token ++ c :: rest = front ++ ((token ++ [c]) ++ rest) := by simp
    rw [hfront, htext, removeAllFrom_copied, removeAllFrom_part (by simp)]
    rintro tail ⟨start, rfl⟩ hne hoccurs
    have hmem : c ∉ tail ++ token := fun h ↦ hname (by simpa using .inr (List.mem_append.mp h))
    have hsame : token = tail ++ token := by
      rw [← append_delimiter_isPrefix htoken hmem]
      simpa using hoccurs
    exact hne (List.self_eq_append_left.mp hsame)
  · have htext : name ++ c :: rest = (name ++ [c]) ++ rest := by simp
    rw [cutToken, if_neg hsuffix, htext, removeAllFrom_copied]
    intro tail htail hne hoccurs
    obtain ⟨start, hstart⟩ := htail
    obtain ⟨ending, last, rfl⟩ := (List.eq_nil_or_concat' tail).resolve_left hne
    rw [← List.append_assoc] at hstart
    obtain ⟨rfl, hlast⟩ := List.append_inj' hstart rfl
    rw [List.singleton_inj.mp hlast, List.append_assoc, List.singleton_append,
      append_delimiter_isPrefix htoken fun h ↦ hname (List.mem_append_right start h)] at hoccurs
    exact hsuffix (hoccurs ▸ List.suffix_append start ending)

/-- A token with its delimiter is removed at the end of every name. -/
theorem removeAll_names {c : Char} {token : String} (htoken : c ∉ token.toList)
    {names : List String} (hnames : ∀ name ∈ names, c ∉ name.toList) :
    (removeAll (token ++ String.singleton c)
        (String.join (names.map (· ++ String.singleton c)))).toList =
      names.flatMap fun name ↦ cutToken c token.toList name.toList := by
  have hpart : (token ++ String.singleton c).toList = token.toList ++ [c] := by simp
  rw [removeAll, String.toList_ofList, hpart]
  induction names with
  | nil => rfl
  | cons name rest ih =>
    have hrest := ih fun other hother ↦ hnames other (List.mem_cons_of_mem _ hother)
    have hchars : (String.join ((name :: rest).map (· ++ String.singleton c))).toList =
        name.toList ++ c :: (String.join (rest.map (· ++ String.singleton c))).toList := by
      simp
    rw [hchars, removeAllFrom_name htoken (hnames name List.mem_cons_self), hrest,
      List.flatMap_cons]

/-- A token with its delimiter is removed wherever it is the whole token, when it ends no other. -/
theorem removeAll_join {c : Char} {token : String} (htoken : c ∉ token.toList)
    {names : List String} (hnames : ∀ name ∈ names, c ∉ name.toList ∧
      (token.toList <:+ name.toList → token = name)) :
    removeAll (token ++ String.singleton c) (String.join (names.map (· ++ String.singleton c))) =
      String.join ((names.filter (· ≠ token)).map (· ++ String.singleton c)) := by
  rw [← String.toList_inj, removeAll_names htoken fun name hname ↦ (hnames name hname).1]
  induction names with
  | nil => rfl
  | cons name rest ih =>
    have hrest := ih fun other hother ↦ hnames other (List.mem_cons_of_mem _ hother)
    rw [List.flatMap_cons, hrest]
    by_cases hname : name = token
    · simp [hname, cutToken]
    · have hsuffix : ¬ token.toList <:+ name.toList := fun h ↦
        hname ((hnames name List.mem_cons_self).2 h).symm
      simp [hname, cutToken, hsuffix]

/-- The number of characters that are left of a name. -/
theorem length_filter_cutToken {c : Char} {name : List Char} (hname : c ∉ name)
    (token : List Char) :
    ((cutToken c token name).filter (· ≠ c)).length =
      if token <:+ name then name.length - token.length else name.length := by
  have hself (part : List Char) (hpart : part ⊆ name) : part.filter (· ≠ c) = part := by
    rw [List.filter_eq_self]
    intro x hx
    exact decide_eq_true fun h ↦ hname (hpart (h ▸ hx))
  unfold cutToken
  split
  · rw [hself _ (List.take_subset _ name), List.length_take]
    omega
  · rw [List.filter_append, hself name (List.Subset.refl name)]
    simp

/-- After the removal of a token the other names are the tokens exactly when it ends none of
them: it takes characters from the names that it ends. -/
theorem tokens_removeAll_iff {c : Char} {token : String} (hne : token ≠ "")
    (htoken : c ∉ token.toList) {names : List String}
    (hnames : ∀ name ∈ names, name ≠ "" ∧ c ∉ name.toList) :
    tokens c (removeAll (token ++ String.singleton c)
        (String.join (names.map (· ++ String.singleton c)))) = names.filter (· ≠ token) ↔
      ∀ name ∈ names, token.toList <:+ name.toList → token = name := by
  constructor
  · intro htokens name hname hsuffix
    by_contra hother
    have hchars : (names.filter (· ≠ token)).flatMap String.toList =
        names.flatMap fun name ↦ (cutToken c token.toList name.toList).filter (· ≠ c) := by
      rw [← htokens, flatMap_tokens, removeAll_names htoken fun name hname ↦ (hnames name hname).2,
        List.filter_flatMap]
    have hlength : (names.map fun name ↦ if name ≠ token then name.toList.length else 0).sum =
        (names.map fun name ↦
          ((cutToken c token.toList name.toList).filter (· ≠ c)).length).sum := by
      rw [← List.length_flatMap, ← hchars, List.length_flatMap, List.sum_map_ite]
      simp
    have hpos : 0 < token.toList.length := by
      rw [List.length_pos_iff]
      exact fun h ↦ hne (String.toList_inj.mp h)
    refine hlength.not_gt (List.sum_lt_sum _ _ (fun other hmem ↦ ?_) ⟨name, hname, ?_⟩)
    · rw [length_filter_cutToken (hnames other hmem).2]
      by_cases hsame : other = token
      · simp [hsame]
      · rw [if_pos hsame]
        split <;> omega
    · have hle := hsuffix.length_le
      rw [length_filter_cutToken (hnames name hname).2, if_pos hsuffix, if_pos (Ne.symm hother)]
      omega
  · intro hsuffix
    rw [removeAll_join htoken fun name hname ↦ ⟨(hnames name hname).2, hsuffix name hname⟩]
    exact tokens_join fun name hname ↦ hnames name (List.mem_filter.mp hname).1

/-! ## Blanks at the ends -/

/-- Neither end of the text is blank. -/
structure Trimmed (text : List Char) : Prop where
  first : ∀ c ∈ text.head?, ¬ c ≤ ' '
  last : ∀ c ∈ text.getLast?, ¬ c ≤ ' '

theorem Trimmed.dropWhile {text : List Char} (h : Trimmed text) :
    text.dropWhile (· ≤ ' ') = text := by
  cases text with
  | nil => rfl
  | cons c rest => exact List.dropWhile_cons_of_neg (by simpa using h.first c rfl)

theorem Trimmed.rdropWhile {text : List Char} (h : Trimmed text) :
    text.rdropWhile (· ≤ ' ') = text := by
  rw [List.rdropWhile_eq_self_iff]
  intro hne
  simpa using h.last _ (List.getLast?_eq_some_getLast hne)

theorem trimmed_toList_trim (text : String) : Trimmed (trim text).toList where
  first := by
    intro c hc
    rw [trim, String.toList_ofList] at hc
    have hdropped := List.head?_dropWhile_not (· ≤ ' ') text.toList
    obtain ⟨blanks, hblanks⟩ := List.rdropWhile_prefix (· ≤ ' ') (text.toList.dropWhile (· ≤ ' '))
    rw [← hblanks, List.head?_append, Option.mem_def.mp hc] at hdropped
    simpa using hdropped
  last := by
    intro c hc
    rw [trim, String.toList_ofList] at hc
    obtain ⟨hne, rfl⟩ := List.mem_getLast?_eq_getLast hc
    simpa using List.rdropWhile_last_not (· ≤ ' ') _ hne

theorem trim_of_trimmed {text : String} (h : Trimmed text.toList) : trim text = text := by
  rw [trim, h.dropWhile, h.rdropWhile, String.ofList_toList]

theorem filter_dropWhile {α : Type*} (p : α → Bool) (list : List α) :
    (list.dropWhile p).filter (fun x ↦ !p x) = list.filter fun x ↦ !p x := by
  induction list with
  | nil => rfl
  | cons x rest ih =>
    by_cases hx : p x = true
    · rw [List.dropWhile_cons_of_pos hx, ih, List.filter_cons_of_neg (by simp [hx])]
    · rw [List.dropWhile_cons_of_neg hx]

/-- `trim` drops no visible character. -/
theorem filter_trim (text : String) :
    (trim text).toList.filter (fun c ↦ !decide (c ≤ ' ')) =
      text.toList.filter fun c ↦ !decide (c ≤ ' ') := by
  rw [trim, String.toList_ofList, List.rdropWhile, List.filter_reverse,
    filter_dropWhile (fun c : Char ↦ decide (c ≤ ' ')), ← List.filter_reverse, List.reverse_reverse,
    filter_dropWhile (fun c : Char ↦ decide (c ≤ ' '))]

/-- What stands before the rest of a text is blank exactly when `trim` cuts it off. -/
theorem trim_rest_eq_iff {front rest : List Char} :
    trim (String.ofList rest) = trim (String.ofList (front ++ rest)) ↔ ∀ c ∈ front, c ≤ ' ' := by
  constructor
  · intro htrim
    have hvisible := congrArg (fun text ↦ text.toList.filter fun c ↦ !decide (c ≤ ' ')) htrim
    simp only [filter_trim, String.toList_ofList, List.filter_append, List.self_eq_append_left,
      List.filter_eq_nil_iff] at hvisible
    intro c hc
    simpa using hvisible c hc
  · intro hblank
    have hdrop : (front ++ rest).dropWhile (· ≤ ' ') = rest.dropWhile (· ≤ ' ') :=
      List.dropWhile_append_of_pos fun c hc ↦ decide_eq_true (hblank c hc)
    rw [trim, trim, String.toList_ofList, String.toList_ofList, hdrop]

/-- Visible characters are not counted twice, and the half of a pair counts less than the pair. -/
theorem utf16Length_visible_utf16Drop (count : ℕ) (text : List Char) :
    utf16Length ((utf16Drop count text).filter fun c ↦ !decide (c ≤ ' ')) ≤
        utf16Length (text.filter fun c ↦ !decide (c ≤ ' ')) ∧
      ((∃ c ∈ text.take count, ¬ c ≤ ' ') →
        utf16Length ((utf16Drop count text).filter fun c ↦ !decide (c ≤ ' ')) <
          utf16Length (text.filter fun c ↦ !decide (c ≤ ' '))) := by
  induction text generalizing count with
  | nil => simp [utf16Drop]
  | cons c rest ih =>
    have hpos := utf16Size_pos c
    unfold utf16Drop
    split
    · subst count
      simp
    · rename_i hcount
      split
      · -- a cut through a pair, which is visible
        rename_i hlt
        have hvisible : ¬ c ≤ ' ' := fun hc ↦ by
          rw [utf16Size_of_le_space hc] at hlt
          omega
        have hhalf : utf16Size '\uFFFD' = 1 := rfl
        rw [List.filter_cons_of_pos (by decide),
          List.filter_cons_of_pos (by simpa using hvisible), utf16Length_cons, utf16Length_cons]
        exact ⟨by omega, fun _ ↦ by omega⟩
      · obtain ⟨hle, hlt⟩ := ih (count - utf16Size c)
        by_cases hc : c ≤ ' '
        · rw [List.filter_cons_of_neg (by simpa using hc)]
          refine ⟨hle, fun ⟨other, hmem, hother⟩ ↦ hlt ⟨other, ?_, hother⟩⟩
          obtain ⟨n, rfl⟩ := Nat.exists_eq_succ_of_ne_zero hcount
          rw [utf16Size_of_le_space hc]
          rcases List.mem_cons.mp hmem with rfl | hrest
          · exact absurd hc hother
          · exact hrest
        · rw [List.filter_cons_of_pos (by simpa using hc), utf16Length_cons]
          exact ⟨by omega, fun _ ↦ by omega⟩

theorem utf16Drop_of_blank {count : ℕ} {text : List Char} (h : ∀ c ∈ text.take count, c ≤ ' ') :
    utf16Drop count text = text.drop count := by
  induction text generalizing count with
  | nil => rw [List.drop_nil, utf16Drop]
  | cons c rest ih =>
    cases count with
    | zero => rfl
    | succ n =>
      have hc : utf16Size c = 1 := utf16Size_of_le_space (h c List.mem_cons_self)
      rw [utf16Drop, if_neg n.succ_ne_zero, if_neg (by omega), hc, List.drop_succ_cons]
      exact ih fun other hmem ↦ h other (List.mem_cons_of_mem c hmem)

/-- A cut takes nothing that `trim` would not cut off exactly when it goes through blanks only. -/
theorem trim_utf16Drop_eq_iff {count : ℕ} {text : List Char} :
    trim (String.ofList (utf16Drop count text)) = trim (String.ofList text) ↔
      ∀ c ∈ text.take count, c ≤ ' ' := by
  constructor
  · intro htrim
    have hvisible := congrArg (fun text ↦ text.toList.filter fun c ↦ !decide (c ≤ ' ')) htrim
    simp only [filter_trim, String.toList_ofList] at hvisible
    by_contra hshown
    simp only [not_forall] at hshown
    obtain ⟨c, hc, hshown⟩ := hshown
    have hless := (utf16Length_visible_utf16Drop count text).2 ⟨c, hc, hshown⟩
    rw [hvisible] at hless
    exact absurd hless (lt_irrefl _)
  · intro hblank
    rw [utf16Drop_of_blank hblank]
    conv_rhs => rw [← List.take_append_drop count text]
    exact trim_rest_eq_iff.mpr hblank

/-- A trimmed part at the end of a text stays there. -/
theorem isSuffix_trim {text : String} {ending : List Char} (hne : ending ≠ [])
    (htrimmed : Trimmed ending) (h : ending <:+ text.toList) : ending <:+ (trim text).toList := by
  obtain ⟨front, hfront⟩ := h
  have hdrop : ∃ kept, text.toList.dropWhile (· ≤ ' ') = kept ++ ending := by
    rw [← hfront, List.dropWhile_append, htrimmed.dropWhile]
    split
    · exact ⟨[], rfl⟩
    · exact ⟨_, rfl⟩
  obtain ⟨kept, hkept⟩ := hdrop
  have hlast : (kept ++ ending).rdropWhile (· ≤ ' ') = kept ++ ending := by
    rw [List.rdropWhile_eq_self_iff]
    intro htext
    rw [List.getLast_append_of_ne_nil _ hne]
    simpa using htrimmed.last _ (List.getLast?_eq_some_getLast hne)
  rw [trim, hkept, hlast, String.toList_ofList]
  exact List.suffix_append kept ending

/-- A line feed after a trimmed text is cut off. -/
theorem trim_append_lineFeed {text : String} (hne : text ≠ "") (h : Trimmed text.toList) :
    trim (text ++ "\n") = text := by
  have hfirst : (text ++ "\n").toList.dropWhile (· ≤ ' ') = text.toList ++ ['\n'] := by
    rw [String.toList_append, List.dropWhile_append, h.dropWhile]
    simp [hne]
  rw [trim, hfirst, List.rdropWhile_concat_pos _ _ _ (by decide), h.rdropWhile,
    String.ofList_toList]

/-! ## Texts with a separator between their parts -/

theorem head_isPrefix_intercalate (separator : List Char) {parts : List (List Char)}
    (hne : parts ≠ []) : parts.head hne <+: separator.intercalate parts := by
  match parts with
  | [part] => simp
  | part :: second :: rest =>
    rw [List.intercalate_cons_cons, List.append_assoc]
    exact List.prefix_append part _

theorem getLast_isSuffix_intercalate (separator : List Char) {parts : List (List Char)}
    (hne : parts ≠ []) : parts.getLast hne <:+ separator.intercalate parts := by
  induction parts with
  | nil => exact absurd rfl hne
  | cons part rest ih =>
    cases rest with
    | nil => simp
    | cons second more =>
      rw [List.getLast_cons (List.cons_ne_nil second more), List.intercalate_cons_cons]
      exact (ih _).trans (List.suffix_append _ _)

/-- A text put together from trimmed parts is trimmed. -/
theorem trimmed_intercalate {separator : List Char} {parts : List (List Char)}
    (hparts : ∀ part ∈ parts, part ≠ [] ∧ Trimmed part) :
    Trimmed (separator.intercalate parts) := by
  by_cases hnil : parts = []
  · subst hnil
    exact ⟨by simp, by simp⟩
  obtain ⟨later, hfirst⟩ := head_isPrefix_intercalate separator hnil
  obtain ⟨before, hlast⟩ := getLast_isSuffix_intercalate separator hnil
  obtain ⟨hheadNe, hhead⟩ := hparts _ (List.head_mem hnil)
  obtain ⟨hlastNe, hend⟩ := hparts _ (List.getLast_mem hnil)
  constructor
  · rw [← hfirst, List.head?_append_of_ne_nil _ hheadNe]
    exact hhead.first
  · rw [← hlast, List.getLast?_append_of_ne_nil _ hlastNe]
    exact hend.last

/-- `String.split` gives back the lines that were joined. -/
theorem split_intercalate {c : Char} {parts : List String} (hne : parts ≠ [])
    (hparts : ∀ part ∈ parts, part ≠ "" ∧ c ∉ part.toList) :
    split c (String.ofList ([c].intercalate (parts.map String.toList))) = parts := by
  have hmap : parts.map String.toList ≠ [] := by simpa using hne
  have hchars : ∀ part ∈ parts.map String.toList, part ≠ [] ∧ c ∉ part := by
    intro part hpart
    obtain ⟨text, htext, rfl⟩ := List.mem_map.mp hpart
    exact ⟨by simpa using (hparts text htext).1, (hparts text htext).2⟩
  obtain ⟨before, hlast⟩ := getLast_isSuffix_intercalate [c] hmap
  obtain ⟨hlastNe, hlastMem⟩ := hchars _ (List.getLast_mem hmap)
  have hself : ([c].intercalate (parts.map String.toList)).rdropWhile (· = c) =
      [c].intercalate (parts.map String.toList) := by
    rw [List.rdropWhile_eq_self_iff]
    intro htext
    have hend : ([c].intercalate (parts.map String.toList)).getLast htext ∈
        (parts.map String.toList).getLast hmap := by
      simp only [← hlast, List.getLast_append_of_ne_nil _ hlastNe, List.getLast_mem]
    exact fun hsame ↦ hlastMem (of_decide_eq_true hsame ▸ hend)
  have htextNe : [c].intercalate (parts.map String.toList) ≠ [] := by
    intro hnil
    rw [hnil] at hlast
    exact hlastNe (List.append_eq_nil_iff.mp hlast).2
  rw [split_of_rdropWhile (by rwa [String.toList_ofList, hself]), String.toList_ofList, hself,
    List.splitOn_intercalate c (fun part hpart ↦ (hchars part hpart).2) hmap, List.map_map]
  simp [Function.comp_def]

/-! ## Tokens and parts -/

theorem mem_of_mem_tokens {c : Char} {text token : String} (h : token ∈ tokens c text) :
    token.toList ≠ [] ∧ c ∉ token.toList ∧ token.toList <:+: text.toList := by
  obtain ⟨part, hpart, rfl⟩ := List.mem_map.mp h
  obtain ⟨hmem, hne⟩ := List.mem_filter.mp hpart
  rw [String.toList_ofList]
  exact ⟨of_decide_eq_true hne, (infix_of_mem_splitOn hmem).symm⟩

/-- The first token after a delimiter is the next part exactly when it follows at once. -/
theorem part_eq_token_iff {c : Char} {rest part : List Char} {parts : List (List Char)}
    {token : String} {others : List String} (hparts : rest.splitOn c = part :: parts)
    (htokens : tokens c (String.ofList rest) = token :: others) :
    String.ofList part = token ↔ token.toList <+: rest := by
  obtain ⟨first, more, hsplit, ⟨hfirst, hmem⟩, -⟩ := splitOn_parts c rest
  obtain ⟨rfl, rfl⟩ : part = first ∧ parts = more := by simpa [hparts] using hsplit
  constructor
  · rintro rfl
    simpa using hfirst
  · intro hprefix
    have htoken := mem_of_mem_tokens (htokens ▸ List.mem_cons_self : token ∈ tokens c _)
    cases hpart : part with
    | nil =>
      -- the rest begins with a delimiter, and the token does not
      cases rest with
      | nil => exact absurd (List.prefix_nil.mp hprefix) htoken.1
      | cons x more =>
        have hx : x = c := by
          by_contra hx
          rw [List.splitOn_cons_eq_if_modifyHead] at hparts
          obtain ⟨next, _, hnext, -⟩ := splitOn_parts c more
          simp [hx, hnext, hpart] at hparts
        obtain ⟨y, ys, hy⟩ := List.exists_cons_of_ne_nil htoken.1
        rw [hy, List.cons_prefix_cons] at hprefix
        exact absurd (by simp [hy, hprefix.1, hx]) htoken.2.1
    | cons x xs =>
      unfold tokens at htokens
      rw [String.toList_ofList, hparts, List.filter_cons_of_pos (by simp [hpart])] at htokens
      rw [← hpart]
      exact (List.cons.inj htokens).1

theorem head?_splitOn (c : Char) (text : List Char) :
    (text.splitOn c).head? = some (text.takeWhile (· ≠ c)) := by
  induction text with
  | nil => simp
  | cons x rest ih =>
    rw [List.splitOn_cons_eq_if_modifyHead]
    by_cases hx : x = c
    · simp [hx]
    · rw [if_neg (by simpa using hx), List.head?_modifyHead, ih,
        List.takeWhile_cons_of_pos (by simpa using hx), Option.map_some]

/-- The first part of a text, if there is one, is what precedes the first separator; otherwise
nothing precedes it. -/
theorem head?_split (c : Char) (text : String) :
    (split c text).head?.getD "" = String.ofList (text.toList.takeWhile (· ≠ c)) := by
  have hhead := head?_splitOn c text.toList
  unfold split
  split
  · cases hsplit : text.toList.splitOn c with
    | nil => simp [hsplit] at hhead
    | cons first others =>
      rw [hsplit, List.head?_cons, Option.some_inj] at hhead
      rw [← hhead]
      have hstart := List.rdropWhile_prefix (· = []) (first :: others)
      cases hparts : List.rdropWhile (· = []) (first :: others) with
      | nil =>
        have hblank := List.rdropWhile_eq_nil_iff.mp hparts first List.mem_cons_self
        simp [of_decide_eq_true hblank]
      | cons part parts =>
        rw [hparts, List.cons_prefix_cons] at hstart
        simp [hstart.1]
  · next hnone =>
    rw [List.splitOn_eq_singleton hnone, List.head?_cons, Option.some_inj] at hhead
    rw [← hhead, String.ofList_toList]
    rfl

/-- A text without blank ends is one part, or begins with a token that is a part. -/
theorem split_of_trimmed {text : String} (h : Trimmed text.toList) :
    (split ' ' text = [text] ∧ (tokens ' ' text).length ≤ 1) ∨
      ∃ first second token parts others, split ' ' text = first :: second :: parts ∧
        tokens ' ' text = first :: token :: others ∧
        (second = token ↔ (first ++ " " ++ token).toList <+: text.toList) := by
  by_cases hmem : ' ' ∈ text.toList
  · obtain ⟨first, rest, htext, hfirst⟩ := List.eq_append_cons_of_mem hmem
    have hne : first ≠ [] := by
      rintro rfl
      exact absurd (h.first ' ' (by simp [htext])) (by decide)
    have hrest : rest ≠ [] := by
      rintro rfl
      exact absurd (h.last ' ' (by simp [htext])) (by decide)
    have hlast : rest.getLast hrest ≠ ' ' := by
      intro hblank
      refine absurd (h.last ' ' ?_) (by decide)
      simp [htext, List.getLast?_append, List.getLast?_cons,
        List.getLast?_eq_some_getLast hrest, hblank]
    have hsplit : text.toList.splitOn ' ' = first :: rest.splitOn ' ' := by
      rw [htext, List.splitOn_append_cons_self_of_not_mem hfirst]
    obtain ⟨part, parts, hparts, -⟩ := splitOn_parts ' ' rest
    -- the last part is not empty, so no part is dropped and one is a token
    have hkept := getLast_splitOn_ne_nil hrest hlast
    have htokens : tokens ' ' (String.ofList rest) ≠ [] := by
      rw [tokens, String.toList_ofList]
      apply List.ne_nil_of_mem
      exact List.mem_map_of_mem (List.mem_filter.mpr ⟨List.getLast_mem _, decide_eq_true hkept⟩)
    obtain ⟨token, others, htoken⟩ := List.exists_cons_of_ne_nil htokens
    have hall : (first :: rest.splitOn ' ').rdropWhile (· = []) = first :: rest.splitOn ' ' := by
      rw [List.rdropWhile_eq_self_iff]
      intro hcons
      rw [List.getLast_cons (List.splitOn_ne_nil ' ' rest)]
      simpa using hkept
    refine .inr ⟨String.ofList first, String.ofList part, token, parts.map String.ofList, others,
      ?_, ?_, ?_⟩
    · rw [split, if_pos hmem, hsplit, hall, hparts]
      rfl
    · rw [← htoken, tokens, tokens, hsplit, List.filter_cons_of_pos (by simpa using hne),
        List.map_cons, String.toList_ofList]
    · rw [part_eq_token_iff hparts htoken, htext]
      simp
  · refine .inl ⟨by rw [split, if_neg hmem], ?_⟩
    rw [tokens, List.splitOn_eq_singleton hmem, List.length_map]
    exact List.length_filter_le _ _

end Orbot.Foundation
