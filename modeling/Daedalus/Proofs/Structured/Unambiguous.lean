import Std.Data.String.ToInt
import Daedalus.Proofs.Lookups
import Daedalus.Proofs.Structured.Term

/-! # Unambiguous texts

Every operand of an operator stands in parentheses in the text of a term, and the arguments of a call
stand in parentheses between commas. So a text is read from the left without a choice: its first
word, up to a parenthesis or a comma, and whether a parenthesis opens behind the word tell what kind
of term it is, and the text of an operand ends at the parenthesis that closes it.

The main result is `Term.recover_text_inj`: terms over symbols that can be told apart by their names
are recovered with the same text only if they are equal. -/

namespace Daedalus

/-- Different unary operators are written differently. -/
theorem UnaryOp.sign_inj {op op' : UnaryOp} (h : op.sign = op'.sign) : op = op' := by
  cases op <;> cases op' <;> first | rfl | exact absurd h (by decide)

/-- Different binary operators are written differently. -/
theorem BinaryOp.sign_inj {op op' : BinaryOp} (h : op.sign = op'.sign) : op = op' := by
  cases op <;> cases op' <;> first | rfl | exact absurd h (by decide)

namespace Structured

/-! ### Words -/

/-- A character within a word: neither a parenthesis nor a comma. -/
def isWordChar (c : Char) : Bool := c != '(' && c != ')' && c != ','

/-- No word goes on with a text: it is empty or starts with a parenthesis or a comma. -/
def BeyondWord (rest : List Char) : Prop := ∀ c, rest.head? = some c → isWordChar c = false

/-- A text is read in one way as a word and what is beyond it. -/
theorem word_append_inj {word word' rest rest' : List Char}
    (hword : ∀ c ∈ word, isWordChar c = true) (hword' : ∀ c ∈ word', isWordChar c = true)
    (hrest : BeyondWord rest) (hrest' : BeyondWord rest') (h : word ++ rest = word' ++ rest') :
    word = word' ∧ rest = rest' := by
  induction word generalizing word' with
  | nil =>
    cases word' with
    | nil => exact ⟨rfl, h⟩
    | cons c word' =>
      -- One word would go on with a character that is beyond the other one.
      have hout := hrest c (congrArg List.head? h)
      rw [hword' c List.mem_cons_self] at hout
      cases hout
  | cons c word ih =>
    cases word' with
    | nil =>
      have hout := hrest' c (congrArg List.head? h.symm)
      rw [hword c List.mem_cons_self] at hout
      cases hout
    | cons c' word' =>
      obtain ⟨rfl, htail⟩ := List.cons.inj h
      obtain ⟨rfl, hbeyond⟩ := ih (fun c hc => hword c (List.mem_cons_of_mem _ hc))
        (fun c hc => hword' c (List.mem_cons_of_mem _ hc)) htail
      exact ⟨rfl, hbeyond⟩

/-- What follows the text of a term: nothing, a closing parenthesis or a comma. -/
def Ends (rest : List Char) : Prop := ∀ c, rest.head? = some c → c = ')' ∨ c = ','

/-- Nothing may follow a term. -/
theorem ends_nil : Ends [] := fun _ h => nomatch h

/-- A closing parenthesis may follow a term. -/
theorem ends_paren (rest : List Char) : Ends (')' :: rest) := fun _ h => .inl (Option.some.inj h).symm

/-- A comma may follow a term. -/
theorem ends_comma (rest : List Char) : Ends (',' :: rest) := fun _ h => .inr (Option.some.inj h).symm

/-- What follows a term ends the last word in it. -/
theorem Ends.beyondWord {rest : List Char} (h : Ends rest) : BeyondWord rest := by
  intro c hc
  rcases h c hc with rfl | rfl <;> rfl

/-- An opening parenthesis ends a word. -/
theorem beyondWord_opening (rest : List Char) : BeyondWord ('(' :: rest) := by
  intro c hc
  obtain rfl := Option.some.inj hc
  rfl

/-! ### Identifiers and numbers -/

/-- A letter or an underscore. All characters beyond ASCII count as letters. -/
def isLetter (c : Char) : Bool := c.isAlpha || c == '_' || 0x80 ≤ c.toNat

/-- An identifier is a letter or an underscore, followed by letters, digits and underscores. -/
def IsIdentifier (name : String) : Prop :=
  ∃ first rest, name.toList = first :: rest ∧ isLetter first = true ∧
    ∀ c ∈ rest, isLetter c = true ∨ c.isDigit = true

/-- The characters of a class without parentheses and commas belong to words. -/
theorem isWordChar_of {p : Char → Bool} (hopening : p '(' = false) (hclosing : p ')' = false)
    (hcomma : p ',' = false) {c : Char} (h : p c = true) : isWordChar c = true := by
  have hne : ∀ d, p d = false → c ≠ d := fun d hd hcd => by
    rw [hcd, hd] at h
    cases h
  rw [isWordChar, Bool.and_eq_true, Bool.and_eq_true, bne_iff_ne, bne_iff_ne, bne_iff_ne]
  exact ⟨⟨hne '(' hopening, hne ')' hclosing⟩, hne ',' hcomma⟩

/-- Letters stand within words. -/
theorem isWordChar_of_isLetter {c : Char} (h : isLetter c = true) : isWordChar c = true :=
  isWordChar_of rfl rfl rfl h

/-- Digits stand within words. -/
theorem isWordChar_of_isDigit {c : Char} (h : c.isDigit = true) : isWordChar c = true :=
  isWordChar_of rfl rfl rfl h

/-- An identifier is part of one word. -/
theorem IsIdentifier.isWordChar {name : String} (h : IsIdentifier name) :
    ∀ c ∈ name.toList, isWordChar c = true := by
  obtain ⟨first, rest, hname, hfirst, hrest⟩ := h
  rw [hname]
  intro c hc
  rcases List.mem_cons.mp hc with rfl | hc
  · exact isWordChar_of_isLetter hfirst
  · exact (hrest c hc).elim isWordChar_of_isLetter isWordChar_of_isDigit

/-- An identifier starts with a letter or an underscore. -/
theorem IsIdentifier.head {name : String} (h : IsIdentifier name) :
    ∃ c, name.toList.head? = some c ∧ isLetter c = true := by
  obtain ⟨first, rest, hname, hfirst, -⟩ := h
  exact ⟨first, by rw [hname]; rfl, hfirst⟩

/-- The digits of a number are no letters, but belong to its word. -/
theorem forall_mem_toString_nat (n : Nat) :
    ∀ c ∈ (toString n).toList, isWordChar c = true ∧ isLetter c = false := by
  rw [Nat.toString_eq_repr, Nat.toList_repr]
  exact Text.forall_mem_toDigits (by decide) (by decide) n

/-- A negative number is a sign and the number without it. -/
theorem toList_toString_negSucc (n : Nat) :
    (toString (Int.negSucc n)).toList = '-' :: (toString (n + 1)).toList := by
  have htext : toString (Int.negSucc n) = "-" ++ toString (n + 1) := rfl
  rw [htext, String.toList_append]
  rfl

/-- A number is written in digits behind an optional sign. -/
theorem forall_mem_toString_int (i : Int) :
    ∀ c ∈ (toString i).toList, isWordChar c = true ∧ isLetter c = false := by
  cases i with
  | ofNat n => exact forall_mem_toString_nat n
  | negSucc n =>
    rw [toList_toString_negSucc]
    intro c hc
    rcases List.mem_cons.mp hc with rfl | hc
    · decide
    · exact forall_mem_toString_nat (n + 1) c hc

/-- A number is told from a name by its first character. -/
theorem toString_int_head (i : Int) :
    ∃ c, (toString i).toList.head? = some c ∧ isLetter c = false := by
  have hne : (toString i).toList ≠ [] := by
    cases i with
    | ofNat n =>
      have hdigits : (toString (Int.ofNat n)).toList = Nat.toDigits 10 n := Nat.toList_repr
      rw [hdigits]
      exact Nat.toDigits_ne_nil
    | negSucc n =>
      rw [toList_toString_negSucc]
      exact List.cons_ne_nil _ _
  obtain ⟨c, cs, htext⟩ := List.exists_cons_of_ne_nil hne
  refine ⟨c, by rw [htext]; rfl, ?_⟩
  exact (forall_mem_toString_int i c (htext ▸ List.mem_cons_self)).2

/-! ### Operators -/

/-- An operator in front of its operand is a word. -/
theorem isWordChar_unary (op : UnaryOp) : ∀ c ∈ op.sign.toList, isWordChar c = true := by
  have hall : op.sign.toList.all isWordChar = true := by cases op <;> decide
  exact List.all_eq_true.mp hall

/-- An operator between its operands is a word, with the space behind it. -/
theorem isWordChar_binary (op : BinaryOp) : ∀ c ∈ op.sign.toList ++ [' '], isWordChar c = true := by
  have hall : (op.sign.toList ++ [' ']).all isWordChar = true := by cases op <;> decide
  exact List.all_eq_true.mp hall

/-! ### Terms over symbols -/

/-- Symbols that can be told apart by their names, which are identifiers. -/
structure ToldApart (used : List Symbol) : Prop where
  identifier : ∀ sym ∈ used, IsIdentifier sym.name
  distinct : ∀ sym ∈ used, ∀ other ∈ used, sym.name = other.name → sym = other

namespace Term

variable (script : Script) (used : List Symbol)

mutual
/-- The symbols of a term are among the given ones, and it calls functions by the addresses of their
bodies. -/
def Over : Term → Prop
  | .int _ => True
  | .global symbol => ∃ sym ∈ used, script.symbolOf? symbol = some sym
  | .unary _ operand => operand.Over
  | .binary _ left right => left.Over ∧ right.Over
  | .call (.address target) args =>
    (∃ sym ∈ used, script.callableAt? target = some sym) ∧ AllOver args
  | .call (.host _) _ => False
/-- The symbols of each term of a list are among the given ones. -/
def AllOver : List Term → Prop
  | [] => True
  | t :: ts => t.Over ∧ AllOver ts
end

variable {script used} in
/-- A call that is over the symbols calls one of them, with arguments over them. -/
theorem over_call {callee : CallTarget} {args : List Term} (h : (call callee args).Over script used) :
    AllOver script used args ∧ ∃ target, callee = .address target ∧
      ∃ sym ∈ used, script.callableAt? target = some sym := by
  cases callee with
  | address target =>
    rw [Over] at h
    exact ⟨h.2, target, rfl, h.1⟩
  | host symbol =>
    rw [Over] at h
    exact h.elim

/-! ### A text as a word and the rest -/

/-- The word with which the text of a term starts. -/
def word : Term → List Char
  | .int value => (toString value.toInt).toList
  | .global symbol => (((script.symbolOf? symbol).map Symbol.name).getD "").toList
  | .unary op _ => op.sign.toList
  | .binary _ _ _ => []
  | .call callee _ => (callee.name script).toList

/-- The texts of further arguments, each behind a comma. -/
def furtherArgs : List Term → List Char
  | [] => []
  | t :: ts => ',' :: ' ' :: ((t.text script).toList ++ furtherArgs ts)

/-- The texts of arguments. -/
def argsText : List Term → List Char
  | [] => []
  | t :: ts => (t.text script).toList ++ furtherArgs script ts

/-- What is behind the first word in the text of a term, if anything follows. -/
def afterWord (rest : List Char) : Term → List Char
  | .int _ | .global _ => rest
  | .unary _ operand => '(' :: ((operand.text script).toList ++ ')' :: rest)
  | .binary op left right =>
    '(' :: ((left.text script).toList ++ ')' :: ' ' ::
      ((op.sign.toList ++ [' ']) ++ '(' :: ((right.text script).toList ++ ')' :: rest)))
  | .call _ args => '(' :: (argsText script args ++ ')' :: rest)

variable {script used}

/-- Arguments are printed with commas between. -/
theorem toList_intercalate_texts (ts : List Term) :
    (", ".intercalate (texts script ts)).toList = argsText script ts := by
  cases ts with
  | nil => simp [texts, argsText]
  | cons t ts =>
    induction ts generalizing t with
    | nil => simp [texts, argsText, furtherArgs]
    | cons u us ih =>
      have hne : texts script (u :: us) ≠ [] := List.cons_ne_nil _ _
      rw [texts, String.intercalate_cons_of_ne_nil hne, String.toList_append, String.toList_append,
        ih u, argsText, argsText, furtherArgs]
      simp

/-- The text of a term is its first word and what is behind it. -/
theorem toList_text_append (t : Term) (rest : List Char) :
    (t.text script).toList ++ rest = t.word script ++ t.afterWord script rest := by
  cases t with
  | int value => rfl
  | global symbol => rfl
  | unary op operand => simp [text, word, afterWord]
  | binary op left right => simp [text, word, afterWord]
  | call callee args => simp [text, word, afterWord, ← toList_intercalate_texts]

/-- An argument is followed by a comma or by the closing parenthesis. -/
theorem ends_furtherArgs (ts : List Term) (rest : List Char) :
    Ends (furtherArgs script ts ++ ')' :: rest) := by
  cases ts with
  | nil => exact ends_paren rest
  | cons t ts => exact ends_comma _

/-! ### Kinds of terms -/

/-- The kinds of terms. -/
inductive Shape where
  | number
  | variable
  | operator
  | operands
  | call

/-- The kind of a term. -/
def shape : Term → Shape
  | .int _ => .number
  | .global _ => .variable
  | .unary _ _ => .operator
  | .binary _ _ _ => .operands
  | .call _ _ => .call

/-- The kind of term that starts with a word: what the first character of the word is, and whether a
parenthesis opens behind the word. -/
def shapeOf (word rest : List Char) : Shape :=
  match word.head?, decide (rest.head? = some '(') with
  | none, _ => .operands
  | some c, false => if isLetter c then .variable else .number
  | some c, true => if isLetter c then .call else .operator

section ToldApart

variable (hused : ToldApart used)
include hused

/-- The text of a term is a word with what is beyond it. -/
theorem word_spec {t : Term} (h : t.Over script used) {rest : List Char} (hrest : Ends rest) :
    (∀ c ∈ t.word script, isWordChar c = true) ∧ BeyondWord (t.afterWord script rest) := by
  -- Names and numbers have no parentheses, and operators open one behind their sign.
  cases t with
  | int value =>
    exact ⟨fun c hc => (forall_mem_toString_int _ c hc).1, hrest.beyondWord⟩
  | global symbol =>
    obtain ⟨sym, hsym, hfound⟩ := h
    rw [word, hfound]
    exact ⟨(hused.identifier sym hsym).isWordChar, hrest.beyondWord⟩
  | unary op operand => exact ⟨isWordChar_unary op, beyondWord_opening _⟩
  | binary op left right =>
    exact ⟨fun _ hc => absurd hc List.not_mem_nil, beyondWord_opening _⟩
  | call callee args =>
    obtain ⟨-, target, rfl, sym, hsym, hfound⟩ := over_call h
    rw [word, CallTarget.name, CallTarget.callee?, hfound]
    exact ⟨(hused.identifier sym hsym).isWordChar, beyondWord_opening _⟩

/-- The kind of a term shows in its text. -/
theorem shape_eq {t : Term} (h : t.Over script used) {rest : List Char} (hrest : Ends rest) :
    t.shape = shapeOf (t.word script) (t.afterWord script rest) := by
  -- What follows a term opens no parenthesis, so one behind the word belongs to the term.
  have hclosed : rest.head? ≠ some '(' := fun hhead => by
    rcases hrest '(' hhead with h | h <;> cases h
  cases t with
  | int value =>
    obtain ⟨c, hc, hletter⟩ := toString_int_head value.toInt
    rw [shape, shapeOf, word, afterWord, hc]
    simp [hletter, hclosed]
  | global symbol =>
    obtain ⟨sym, hsym, hfound⟩ := h
    obtain ⟨c, hc, hletter⟩ := (hused.identifier sym hsym).head
    simp [shape, shapeOf, word, afterWord, hfound, hc, hletter, hclosed]
  | unary op operand => cases op <;> rfl
  | binary op left right => rfl
  | call callee args =>
    obtain ⟨-, target, rfl, sym, hsym, hfound⟩ := over_call h
    obtain ⟨c, hc, hletter⟩ := (hused.identifier sym hsym).head
    simp [shape, shapeOf, word, CallTarget.name, CallTarget.callee?, afterWord, hfound, hc, hletter]

/-- Terms with the same text are of the same kind, start with the same word and go on with the same
text. -/
theorem word_eq_of_text_append {t u : Term} (ht : t.Over script used) (hu : u.Over script used)
    {rest rest' : List Char} (hrest : Ends rest) (hrest' : Ends rest')
    (h : (t.text script).toList ++ rest = (u.text script).toList ++ rest') :
    t.shape = u.shape ∧ t.word script = u.word script ∧
      t.afterWord script rest = u.afterWord script rest' := by
  rw [toList_text_append, toList_text_append] at h
  obtain ⟨htword, htafter⟩ := word_spec hused ht hrest
  obtain ⟨huword, huafter⟩ := word_spec hused hu hrest'
  obtain ⟨hword, hafter⟩ := word_append_inj htword huword htafter huafter h
  refine ⟨?_, hword, hafter⟩
  rw [shape_eq hused ht hrest, shape_eq hused hu hrest', hword, hafter]

/-- The text of a term starts with no closing parenthesis. -/
theorem text_append_ne_closing {t : Term} (ht : t.Over script used) {rest more : List Char}
    (hrest : Ends rest) : (t.text script).toList ++ rest ≠ ')' :: more := by
  intro h
  rw [toList_text_append, ← List.nil_append (')' :: more)] at h
  obtain ⟨hword, hafter⟩ := word_spec hused ht hrest
  obtain ⟨hnil, hclosing⟩ := word_append_inj hword (fun _ hc => absurd hc List.not_mem_nil) hafter
    (ends_paren more).beyondWord h
  -- Only a term whose text opens a parenthesis starts with no word.
  have hshape := shape_eq hused ht hrest
  rw [hnil] at hshape
  cases t with
  | binary op left right => exact absurd (List.cons.inj hclosing).1 (by decide)
  | _ => cases hshape

end ToldApart

/-! ### The text tells the term -/

mutual
/-- A text that starts with the text of a term does so with one term only. -/
theorem text_append_inj (hused : ToldApart used) : ∀ {t u : Term} {rest rest' : List Char},
    t.Over script used → u.Over script used → Ends rest → Ends rest' →
    (t.text script).toList ++ rest = (u.text script).toList ++ rest' → t = u ∧ rest = rest'
  | .int value, u, rest, rest', ht, hu, hrest, hrest', h => by
    obtain ⟨hshape, hword, hafter⟩ := word_eq_of_text_append hused ht hu hrest hrest' h
    cases u with
    | int value' =>
      have hvalue := Int.repr_inj.mp (String.toList_inj.mp hword)
      exact ⟨congrArg Term.int (Int32.toInt_inj.mp hvalue), hafter⟩
    | _ => cases hshape
  | .global symbol, u, rest, rest', ht, hu, hrest, hrest', h => by
    obtain ⟨hshape, hword, hafter⟩ := word_eq_of_text_append hused ht hu hrest hrest' h
    cases u with
    | global symbol' =>
      obtain ⟨sym, hsym, hfound⟩ := ht
      obtain ⟨sym', hsym', hfound'⟩ := hu
      rw [word, word, hfound, hfound'] at hword
      obtain rfl := hused.distinct sym hsym sym' hsym' (String.toList_inj.mp hword)
      exact ⟨congrArg Term.global (Table.symbolOf?_inj hfound hfound'), hafter⟩
    | _ => cases hshape
  | .unary op operand, u, rest, rest', ht, hu, hrest, hrest', h => by
    obtain ⟨hshape, hword, hafter⟩ := word_eq_of_text_append hused ht hu hrest hrest' h
    cases u with
    | unary op' operand' =>
      obtain rfl := UnaryOp.sign_inj (String.toList_inj.mp hword)
      obtain ⟨rfl, hclosing⟩ := text_append_inj hused (t := operand) (u := operand') ht hu
        (ends_paren rest) (ends_paren rest') (List.cons.inj hafter).2
      exact ⟨rfl, (List.cons.inj hclosing).2⟩
    | _ => cases hshape
  | .binary op left right, u, rest, rest', ht, hu, hrest, hrest', h => by
    obtain ⟨hshape, hword, hafter⟩ := word_eq_of_text_append hused ht hu hrest hrest' h
    cases u with
    | binary op' left' right' =>
      obtain ⟨rfl, hmiddle⟩ := text_append_inj hused ht.1 hu.1 (ends_paren _) (ends_paren _)
        (List.cons.inj hafter).2
      -- Between the operands stands the operator, as a word of its own.
      have hbehind := (List.cons.inj (List.cons.inj hmiddle).2).2
      obtain ⟨hop, hright⟩ := word_append_inj (isWordChar_binary op) (isWordChar_binary op')
        (beyondWord_opening _) (beyondWord_opening _) hbehind
      obtain rfl := BinaryOp.sign_inj (String.toList_inj.mp (List.append_cancel_right hop))
      obtain ⟨rfl, hclosing⟩ := text_append_inj hused ht.2 hu.2 (ends_paren rest)
        (ends_paren rest') (List.cons.inj hright).2
      exact ⟨rfl, (List.cons.inj hclosing).2⟩
    | _ => cases hshape
  | .call callee args, u, rest, rest', ht, hu, hrest, hrest', h => by
    obtain ⟨hshape, hword, hafter⟩ := word_eq_of_text_append hused ht hu hrest hrest' h
    cases u with
    | call callee' args' =>
      obtain ⟨hargs, target, rfl, sym, hsym, hfound⟩ := over_call ht
      obtain ⟨hargs', target', rfl, sym', hsym', hfound'⟩ := over_call hu
      rw [word, word, CallTarget.name, CallTarget.name, CallTarget.callee?, CallTarget.callee?,
        hfound, hfound'] at hword
      obtain rfl := hused.distinct sym hsym sym' hsym' (String.toList_inj.mp hword)
      -- A function has one address, so calls of it go to the same one.
      obtain rfl := (Table.address_of_callableAt? hfound).symm.trans
        (Table.address_of_callableAt? hfound')
      obtain ⟨rfl, hrest⟩ := argsText_append_inj hused hargs hargs' (List.cons.inj hafter).2
      exact ⟨rfl, hrest⟩
    | _ => cases hshape
/-- A text that starts with the texts of arguments, up to the closing parenthesis, does so with these
arguments only. -/
theorem argsText_append_inj (hused : ToldApart used) : ∀ {ts us : List Term}
    {rest rest' : List Char}, AllOver script used ts → AllOver script used us →
    argsText script ts ++ ')' :: rest = argsText script us ++ ')' :: rest' → ts = us ∧ rest = rest'
  | [], [], _, _, _, _, h => ⟨rfl, (List.cons.inj h).2⟩
  | [], u :: us, rest, rest', _, hus, h => by
    rw [argsText, argsText, List.append_assoc] at h
    -- No term starts with the parenthesis that closes the arguments.
    exact absurd h.symm (text_append_ne_closing hused hus.1 (ends_furtherArgs us rest'))
  | t :: ts, [], rest, rest', hts, _, h => by
    rw [argsText, argsText, List.append_assoc] at h
    exact absurd h (text_append_ne_closing hused hts.1 (ends_furtherArgs ts rest))
  | t :: ts, u :: us, rest, rest', hts, hus, h => by
    rw [argsText, argsText, List.append_assoc, List.append_assoc] at h
    obtain ⟨rfl, hfurther⟩ := text_append_inj hused hts.1 hus.1 (ends_furtherArgs ts rest)
      (ends_furtherArgs us rest') h
    obtain ⟨rfl, hrest⟩ := furtherArgs_append_inj hused hts.2 hus.2 hfurther
    exact ⟨rfl, hrest⟩
/-- A text that starts with the texts of further arguments, up to the closing parenthesis, does so
with these arguments only. -/
theorem furtherArgs_append_inj (hused : ToldApart used) : ∀ {ts us : List Term}
    {rest rest' : List Char}, AllOver script used ts → AllOver script used us →
    furtherArgs script ts ++ ')' :: rest = furtherArgs script us ++ ')' :: rest' →
    ts = us ∧ rest = rest'
  | [], [], _, _, _, _, h => ⟨rfl, (List.cons.inj h).2⟩
  | [], _ :: _, _, _, _, _, h => absurd (List.cons.inj h).1 (by decide)
  | _ :: _, [], _, _, _, _, h => absurd (List.cons.inj h).1 (by decide)
  | t :: ts, u :: us, rest, rest', hts, hus, h => by
    have hargs := (List.cons.inj (List.cons.inj h).2).2
    rw [List.append_eq, List.append_eq, List.append_assoc, List.append_assoc] at hargs
    obtain ⟨rfl, hfurther⟩ := text_append_inj hused hts.1 hus.1 (ends_furtherArgs ts rest)
      (ends_furtherArgs us rest') hargs
    obtain ⟨rfl, hrest⟩ := furtherArgs_append_inj hused hts.2 hus.2 hfurther
    exact ⟨rfl, hrest⟩
end

/-- Terms with the same text are equal. -/
theorem text_inj (hused : ToldApart used) {t u : Term} (ht : t.Over script used)
    (hu : u.Over script used) (h : t.text script = u.text script) : t = u := by
  have happend := congrArg (fun text => text.toList ++ []) h
  exact (text_append_inj hused ht hu ends_nil ends_nil happend).1

/-! ### Recovered texts -/

variable {s : Setting}

/-- What is popped off a stack with the frames of a term on top has the text of the term. -/
theorem text_pop_recover {t : Term} (hfits : t.Fits s.script) {room : Nat} (hroom : t.height ≤ room)
    (active : Option UInt32) {frames : List Frame} (hframes : operations frames = t.code)
    (stack : List Frame) :
    (pop (s.recover active room) (frames.reverse ++ stack)).1.text = t.text s.script := by
  have hread : Reads (s.recover active room) t.operands t.root (t.expr s.script) :=
    reads_recover s hfits hroom
  rw [hread.pop stack (hframes.trans t.code_eq), text_expr hfits]

/-- **Recovered texts are unambiguous.** Terms over symbols that can be told apart by their names are
recovered from their frames, with room for their levels and whatever is below them on the stack, with
the same text only if they are equal. -/
theorem recover_text_inj (hused : ToldApart used) {t u : Term} (htfits : t.Fits s.script)
    (hufits : u.Fits s.script) (ht : t.Over s.script used) (hu : u.Over s.script used)
    {room room' : Nat} (htroom : t.height ≤ room) (huroom : u.height ≤ room')
    {active active' : Option UInt32} {frames frames' : List Frame}
    (htframes : operations frames = t.code) (huframes : operations frames' = u.code)
    (stack stack' : List Frame) :
    (pop (s.recover active room) (frames.reverse ++ stack)).1.text =
        (pop (s.recover active' room') (frames'.reverse ++ stack')).1.text ↔ t = u := by
  rw [text_pop_recover htfits htroom active htframes, text_pop_recover hufits huroom active' huframes]
  exact ⟨text_inj hused ht hu, fun h => h ▸ rfl⟩

/-- A function with two parameters and a variable. -/
def signSymbols : List Symbol :=
  [{ name := "F", kind := .func, flags := (Flags.none.add .const).add .returns },
    { name := "F.A", kind := .int, flags := Flags.none.add .member },
    { name := "F.B", kind := .int, flags := Flags.none.add .member },
    { name := "N", kind := .int }]

/-- The body of the function. -/
def signSetting : Setting := ⟨Script.ofParts #[0x3c] signSymbols, { name := "F", kind := .func }, 256⟩

/-- The symbols of a call, as the script numbers them. -/
def signUsed : List Symbol :=
  [{ name := "F", kind := .func, flags := (Flags.none.add .const).add .returns },
    { index := 3, name := "N", kind := .int }]

/-- A call with an argument and the variable. -/
def callWith (arg : Term) : Term := .call (.address 0) [arg, .global 3]

/-- The symbols of the calls can be told apart. -/
theorem toldApart_signUsed : ToldApart signUsed := by
  refine ⟨?_, by decide⟩
  intro sym hsym
  rcases List.mem_cons.mp hsym with rfl | hsym
  · exact ⟨'F', [], rfl, rfl, fun _ hc => nomatch hc⟩
  · obtain rfl := List.mem_singleton.mp hsym
    exact ⟨'N', [], rfl, rfl, fun _ hc => nomatch hc⟩

/-- The variable of the calls. -/
theorem symbolOf?_sign : signSetting.script.symbolOf? 3 = some signUsed[1] := by decide +kernel

/-- The function of the calls. -/
theorem callableAt?_sign : signSetting.script.callableAt? 0 = some signUsed[0] := by decide +kernel

/-- A call fits if its first argument does. -/
theorem callWith_fits {arg : Term} (h : arg.Fits signSetting.script) :
    (callWith arg).Fits signSetting.script := by
  have hcallee : (CallTarget.address 0).Fits signSetting.script true 2 :=
    ⟨signUsed[0], callableAt?_sign, by decide +kernel⟩
  exact ⟨hcallee, h, ⟨signUsed[1], symbolOf?_sign, ⟨rfl, rfl, rfl, rfl⟩⟩, trivial⟩

/-- A call is over the two symbols if its first argument is. -/
theorem callWith_over {arg : Term} (h : arg.Over signSetting.script signUsed) :
    (callWith arg).Over signSetting.script signUsed := by
  rw [callWith, Over]
  exact ⟨⟨signUsed[0], by decide, callableAt?_sign⟩, h, ⟨signUsed[1], by decide, symbolOf?_sign⟩,
    trivial⟩

/-- The call `F(-(5), N)`. -/
def signedCall : Term := callWith (.unary .negate (.int 5))

/-- The call `F(-5, N)`. -/
def negativeCall : Term := callWith (.int (-5))

/-- The sign of a number and the operator are told apart by the parentheses. -/
theorem recover_sign_ne :
    (ToldApart signUsed ∧ signedCall.Fits signSetting.script ∧ negativeCall.Fits signSetting.script ∧
      signedCall.Over signSetting.script signUsed ∧ negativeCall.Over signSetting.script signUsed) ∧
    signedCall.height ≤ 256 ∧ negativeCall.height ≤ 256 ∧
    (pop (signSetting.recover none 256) ((framesAt none 0 signedCall.code).reverse ++ [])).1.text ≠
      (pop (signSetting.recover none 256)
        ((framesAt none 0 negativeCall.code).reverse ++ [])).1.text := by
  have hsigned : signedCall.Fits signSetting.script := callWith_fits trivial
  have hnegative : negativeCall.Fits signSetting.script := callWith_fits trivial
  have hover : signedCall.Over signSetting.script signUsed := callWith_over trivial
  have hover' : negativeCall.Over signSetting.script signUsed := callWith_over trivial
  have hne : signedCall ≠ negativeCall := fun h => nomatch h
  refine ⟨⟨toldApart_signUsed, hsigned, hnegative, hover, hover'⟩, by decide, by decide, ?_⟩
  exact mt (recover_text_inj toldApart_signUsed hsigned hnegative hover hover' (by decide)
    (by decide) (operations_framesAt none 0 _) (operations_framesAt none 0 _) [] []).mp hne

end Term

end Structured

end Daedalus
