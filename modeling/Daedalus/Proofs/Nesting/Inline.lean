import Daedalus.Recovery.Body

/-! # Texts within a line

A text is inline if it has no line end and starts with neither a blank nor a closing brace. Behind the
indentation of a block, an inline text makes a line that stands at this indentation, is not a line of
a deeper block and cannot be taken for the end of an arm. The names of a table are inline where they
are made of words, and so are the numbers and the words of the language. -/

namespace Daedalus

namespace Text

/-! ### Line ends -/

/-- Texts without line ends can be put together. -/
theorem noBreak_append {left right : String} (hleft : '\n' ∉ left.toList)
    (hright : '\n' ∉ right.toList) : '\n' ∉ (left ++ right).toList := by
  simp [hleft, hright]

/-- A choice between texts without line ends has none. -/
theorem noBreak_ite {condition : Prop} [Decidable condition] {left right : String}
    (hleft : '\n' ∉ left.toList) (hright : '\n' ∉ right.toList) :
    '\n' ∉ (if condition then left else right).toList := by
  split
  · exact hleft
  · exact hright

/-- Texts without line ends can be listed between separators. -/
theorem noBreak_intercalate {separator : String} (hseparator : '\n' ∉ separator.toList)
    {texts : List String} (h : ∀ text ∈ texts, '\n' ∉ text.toList) :
    '\n' ∉ (separator.intercalate texts).toList := by
  induction texts with
  | nil => simp
  | cons text texts ih =>
    obtain ⟨htext, htexts⟩ := List.forall_mem_cons.mp h
    by_cases hnil : texts = []
    · rw [hnil, String.intercalate_singleton]
      exact htext
    · rw [String.intercalate_cons_of_ne_nil hnil]
      exact noBreak_append (noBreak_append htext hseparator) (ih htexts)

/-! ### Beginnings -/

/-- Whether a statement may start with a character: it is neither a blank nor a closing brace. -/
def isOpening (c : Char) : Bool := !isBlank c && c != '\x7d'

/-- Whether a text starts with a character that a statement may start with. -/
def isOpened (text : String) : Bool := text.toList.head?.any isOpening

/-- Whether a text stands within a line and, unless it is empty, starts with neither a blank nor a
closing brace. -/
def isInline (text : String) : Bool :=
  !text.toList.contains '\n' && text.toList.head?.all isOpening

/-- A text is inline if it has no line end and its first character is neither a blank nor a closing
brace. -/
theorem isInline_iff {text : String} :
    isInline text = true ↔
      '\n' ∉ text.toList ∧ ∀ c, text.toList.head? = some c → isBlank c = false ∧ c ≠ '\x7d' := by
  rw [isInline, Bool.and_eq_true, Option.all_eq_true]
  simp [isOpening]

/-- The empty text is inline, and a text without line ends is if it is opened. -/
theorem isInline_of_opened {text : String} (hbreak : '\n' ∉ text.toList)
    (h : text = "" ∨ isOpened text = true) : isInline text = true := by
  rcases h with rfl | h
  · rfl
  · rw [isOpened, Option.any_eq_true] at h
    obtain ⟨c, hc, hopening⟩ := h
    simp [isInline, hbreak, hc, hopening]

/-- A text is opened by what it starts with. -/
theorem isOpened_append {left : String} (h : isOpened left = true) (right : String) :
    isOpened (left ++ right) = true := by
  rw [isOpened, Option.any_eq_true] at *
  obtain ⟨c, hc, hopening⟩ := h
  exact ⟨c, by rw [String.toList_append, List.head?_append, hc]; rfl, hopening⟩

/-- A text that consists of characters with which a statement may start is opened, unless it is
empty. -/
theorem isOpened_of_forall {text : String} (hne : text.toList ≠ [])
    (h : ∀ c ∈ text.toList, isOpening c = true) : isOpened text = true := by
  obtain ⟨c, cs, htext⟩ := List.exists_cons_of_ne_nil hne
  rw [isOpened, htext]
  exact h c (htext ▸ List.mem_cons_self)

/-! ### Numbers -/

/-- The digits of a number in a base of at most sixteen are no line ends, and a statement may start
with them. -/
theorem digit_of_mem_toDigits {base n : Nat} (hbase : 1 < base) (hle : base ≤ 16) {c : Char}
    (h : c ∈ Nat.toDigits base n) : c ≠ '\n' ∧ isOpening c = true := by
  have hdigit : ∀ d < 16, Nat.digitChar d ≠ '\n' ∧ isOpening (Nat.digitChar d) = true := by decide
  have hall : ∀ c ∈ Nat.toDigits base n, c ≠ '\n' ∧ isOpening c = true :=
    forall_mem_toDigits hbase (fun d hd => hdigit d (Nat.lt_of_lt_of_le hd hle)) n
  exact hall c h

/-- A number is written in digits. -/
theorem digit_of_mem_toString {n : Nat} {c : Char} (h : c ∈ (toString n).toList) :
    c ≠ '\n' ∧ isOpening c = true := by
  rw [Nat.toString_eq_repr, Nat.toList_repr] at h
  exact digit_of_mem_toDigits (by decide) (by decide) h

/-- There is no line end in a natural number. -/
theorem noBreak_nat (n : Nat) : '\n' ∉ (toString n).toList :=
  fun hbreak => (digit_of_mem_toString hbreak).1 rfl

/-- There is no line end in an integer. -/
theorem noBreak_int (value : Int) : '\n' ∉ (toString value).toList := by
  cases value with
  | ofNat n => exact noBreak_nat n
  | negSucc n =>
    have hsign : '\n' ∉ "-".toList := by decide
    exact noBreak_append hsign (noBreak_nat (n + 1))

/-- An integer starts with a digit or with its sign. -/
theorem isOpened_int (value : Int) : isOpened (toString value) = true := by
  cases value with
  | ofNat n =>
    have hdigits : (toString (Int.ofNat n)).toList = Nat.toDigits 10 n := Nat.toList_repr
    refine isOpened_of_forall (hdigits ▸ Nat.toDigits_ne_nil) fun c hc => ?_
    exact (digit_of_mem_toString (n := n) hc).2
  | negSucc n =>
    have hsign : isOpened "-" = true := by decide
    exact isOpened_append hsign (toString (n + 1))

/-- There is no line end in a hexadecimal number. -/
theorem noBreak_hex (n : Nat) : '\n' ∉ (hex n).toList := by
  rw [hex, String.toList_ofList]
  exact fun hbreak => (digit_of_mem_toDigits (by decide) (by decide) hbreak).1 rfl

/-- There is no line end in a hexadecimal number of eight digits. -/
theorem noBreak_hexWord (n : Nat) : '\n' ∉ (hexWord n).toList := by
  refine noBreak_append ?_ (noBreak_hex n)
  rw [String.toList_ofList]
  exact fun hbreak => absurd (List.eq_of_mem_replicate hbreak) (by decide)

end Text

open Text

/-- A number is written in positional notation with digits and a point. -/
theorem Binary32.noBreak_positional (digits place : Nat) :
    '\n' ∉ (positional digits place).toList := by
  refine noBreak_ite (noBreak_nat _) (noBreak_ite (noBreak_nat _) ?_)
  refine noBreak_append (noBreak_append (noBreak_nat _) (by decide)) ?_
  -- The digits of the fraction are digits of a number.
  rw [String.toList_ofList, List.mem_reverse]
  intro hbreak
  have hmem := List.mem_reverse.mp ((List.dropWhile_sublist _).subset hbreak)
  exact (digit_of_mem_toString (List.mem_of_mem_drop hmem)).1 rfl

/-- The text of a floating-point number has no line end. -/
theorem Binary32.noBreak_text (x : Binary32) : '\n' ∉ x.text.toList := by
  rw [text]
  generalize hsize : ite (x.exponent = 255) "inf" _ = size
  have hbreak : '\n' ∉ size.toList := by
    rw [← hsize]
    exact noBreak_ite (by decide) (noBreak_ite (by decide) (noBreak_positional _ _))
  exact noBreak_ite (by decide) (noBreak_ite (noBreak_append (by decide) hbreak) hbreak)

/-! ### Lines -/

/-- A line is not empty and holds no line end. -/
def IsLine (line : String) : Prop := '\n' ∉ line.toList ∧ line ≠ ""

/-- What is put together around a text without line ends is a line. -/
theorem isLine_around {left text right : String} (hleft : '\n' ∉ left.toList)
    (htext : '\n' ∉ text.toList) (hright : IsLine right) (indent : Nat) :
    IsLine (spaces indent ++ left ++ text ++ right) :=
  ⟨by simp [spaces, List.mem_replicate, hleft, htext, hright.1], by simp [hright.2]⟩

/-- A line is a line at every indentation. -/
theorem isLine_indented {text : String} (htext : IsLine text) (indent : Nat) :
    IsLine (spaces indent ++ text) :=
  ⟨by simp [spaces, List.mem_replicate, htext.1], by simp [htext.2]⟩

/-! ### Names -/

/-- A letter, a digit or an underscore. All characters beyond ASCII but the blanks count as letters.
-/
def isNameChar (c : Char) : Bool :=
  c.isAlphanum || c == '_' || (0x80 ≤ c.toNat && !isBlank c)

/-- A word is made of letters, digits and underscores, at least one. -/
def IsWord (text : String) : Prop := text ≠ "" ∧ ∀ c ∈ text.toList, isNameChar c = true

/-- A name is a word, or consists of several words with dots between them. -/
def IsName (name : String) : Prop :=
  ∃ words : List String, words ≠ [] ∧ (∀ word ∈ words, IsWord word) ∧ name = ".".intercalate words

instance (text : String) : Decidable (IsWord text) :=
  decidable_of_iff (text ≠ "" ∧ text.toList.all isNameChar = true)
    (and_congr_right fun _ => List.all_eq_true)

/-- A statement may start with each character of a word, and none of them is a dot. -/
theorem isOpening_of_isNameChar {c : Char} (h : isNameChar c = true) :
    c ≠ '.' ∧ isOpening c = true := by
  have hblank : isBlank c = false := by
    simp only [isNameChar, Bool.or_eq_true, Bool.and_eq_true, beq_iff_eq] at h
    rcases h with (halphanum | rfl) | ⟨-, hblank⟩
    · have hbounds : 48 ≤ c.toNat ∧ c.toNat < 123 := by
        delta Char.isAlphanum Char.isAlpha Char.isUpper Char.isLower Char.isDigit at halphanum
        simp only [Bool.or_eq_true, Bool.and_eq_true, decide_eq_true_eq, ge_iff_le,
          UInt32.le_iff_toNat_le] at halphanum
        -- An upper letter, a lower one or a digit, by their numbers.
        change ((65 ≤ c.toNat ∧ c.toNat ≤ 90) ∨ (97 ≤ c.toNat ∧ c.toNat ≤ 122)) ∨
          (48 ≤ c.toNat ∧ c.toNat ≤ 57) at halphanum
        omega
      simp [isBlank, blanks, Ranges.has]
      omega
    · decide
    · simpa using hblank
  refine ⟨?_, ?_⟩
  · rintro rfl
    cases h
  · rw [isOpening, hblank, Bool.not_false, Bool.true_and, bne_iff_ne]
    rintro rfl
    cases h

/-- A word has no line end. -/
theorem IsWord.noBreak {text : String} (h : IsWord text) : '\n' ∉ text.toList := by
  intro hbreak
  cases h.2 '\n' hbreak

/-- A statement may start with a word. -/
theorem IsWord.isOpened {text : String} (h : IsWord text) : isOpened text = true :=
  isOpened_of_forall (fun hnil => h.1 (String.toList_eq_nil_iff.mp hnil))
    fun c hc => (isOpening_of_isNameChar (h.2 c hc)).2

/-- A word is not split. -/
theorem IsWord.splitAtDot {text : String} (h : IsWord text) : splitAtDot text = none := by
  have hall : ∀ c ∈ text.toList, (c != '.') = true := fun c hc =>
    bne_iff_ne.mpr (isOpening_of_isNameChar (h.2 c hc)).1
  rw [Daedalus.splitAtDot, ← List.append_nil text.toList, List.dropWhile_append_of_pos hall]
  rfl

/-- A word is a name. -/
theorem IsWord.isName {text : String} (h : IsWord text) : IsName text :=
  ⟨[text], List.cons_ne_nil _ _, List.forall_mem_singleton.mpr h, String.intercalate_singleton.symm⟩

/-- A name has no line end. -/
theorem IsName.noBreak {name : String} (h : IsName name) : '\n' ∉ name.toList := by
  obtain ⟨words, -, hwords, rfl⟩ := h
  exact noBreak_intercalate (by decide) fun word hword => (hwords word hword).noBreak

/-- A name that starts with a word and goes on behind a dot goes on with a name. -/
theorem IsName.cases {name : String} (h : IsName name) :
    IsWord name ∨ ∃ word rest, IsWord word ∧ IsName rest ∧ name = word ++ "." ++ rest := by
  obtain ⟨words, hne, hwords, rfl⟩ := h
  match words, hne with
  | word :: rest, _ =>
    obtain ⟨hword, hrest⟩ := List.forall_mem_cons.mp hwords
    by_cases hnil : rest = []
    · rw [hnil, String.intercalate_singleton]
      exact .inl hword
    · rw [String.intercalate_cons_of_ne_nil hnil]
      exact .inr ⟨word, _, hword, ⟨rest, hnil, hrest, rfl⟩, rfl⟩

/-- A statement may start with a name. -/
theorem IsName.isOpened {name : String} (h : IsName name) : isOpened name = true := by
  rcases h.cases with hword | ⟨word, rest, hword, -, rfl⟩
  · exact hword.isOpened
  · exact isOpened_append (isOpened_append hword.isOpened ".") rest

/-- The local name of a symbol with a name is a name. -/
theorem IsName.localName {sym : Symbol} (h : IsName sym.name) : IsName sym.localName := by
  rw [Symbol.localName]
  rcases h.cases with hword | ⟨word, rest, hword, hrest, hname⟩
  · rw [hword.splitAtDot]
    exact h
  · have hdot : '.' ∉ word.toList := fun hdot =>
      (isOpening_of_isNameChar (hword.2 '.' hdot)).1 rfl
    rw [splitAtDot_eq_some_iff.mpr ⟨hname, hdot⟩]
    exact hrest

/-- The names and the strings that a table stores have no line ends. -/
structure Table.Unbroken (table : Table) : Prop where
  names : ∀ sym ∈ table.symbols.toList, '\n' ∉ sym.name.toList
  strings : ∀ sym ∈ table.symbols.toList, ∀ elements, sym.value = .strings elements →
    ∀ text ∈ elements, '\n' ∉ text.toList

/-- The names of a table are names, and the strings that it stores have no line ends. -/
structure Table.Named (table : Table) : Prop where
  names : ∀ sym ∈ table.symbols.toList, IsName sym.name
  strings : ∀ sym ∈ table.symbols.toList, ∀ elements, sym.value = .strings elements →
    ∀ text ∈ elements, '\n' ∉ text.toList

/-- Names have no line ends. -/
theorem Table.Named.unbroken {table : Table} (h : table.Named) : table.Unbroken where
  names sym hsym := (h.names sym hsym).noBreak
  strings := h.strings

namespace Table.Unbroken

variable {table : Table} (h : table.Unbroken) {sym : Symbol} (hsym : sym ∈ table.symbols.toList)
include h hsym

/-- A local name has no line end. -/
theorem noBreak_localName : '\n' ∉ sym.localName.toList := by
  have hname := h.names sym hsym
  rw [Symbol.localName]
  cases hsplit : splitAtDot sym.name with
  | none => exact hname
  | some parts =>
    obtain ⟨happend, -⟩ := splitAtDot_eq_some_iff.mp hsplit
    intro hbreak
    exact hname (happend ▸ String.toList_append ▸ List.mem_append_right _ hbreak)

/-- A stored string has no line end. -/
theorem noBreak_string {i : Nat} {text : String} (hstring : sym.string? i = some text) :
    '\n' ∉ text.toList := by
  rw [Symbol.string?] at hstring
  split at hstring
  · next elements hvalue =>
    exact h.strings sym hsym elements hvalue text (List.mem_of_getElem? hstring)
  · cases hstring

end Table.Unbroken

end Daedalus
