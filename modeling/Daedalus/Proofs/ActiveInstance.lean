import Daedalus.Proofs.Parameters
import Daedalus.Proofs.Progress

/-! # When references to fields are resolved

A pushed field is written with the instance that was active when it was pushed, unless the body's
own instance is active. Whether it is, is asked when the expression is recovered. Recovery in two
contexts gives the same expression if both or none of them have the own instance active; otherwise
it gives the bare name of a field in one of them and the qualified name in the other. -/

namespace Daedalus

namespace Setting

variable {s : Setting} {a b active pushedIn : Option UInt32} {sym : Symbol}

/-! ### Recovery in two contexts -/

/-- Contexts that give the same expressions for pushed variables and elements recover the same
expressions. -/
theorem recover_congr
    (hvariable : ∀ pushedIn symbol,
      s.variableExpr a pushedIn symbol = s.variableExpr b pushedIn symbol)
    (helement : ∀ pushedIn symbol element,
      s.elementExpr a pushedIn symbol element = s.elementExpr b pushedIn symbol element)
    (room : Nat) : s.recover a room = s.recover b room := by
  induction room with
  | zero => rfl
  | succ room ih =>
    funext frame stack
    unfold recover
    rw [ih]
    -- Only the operations that push a variable still mention the context.
    cases frame.instr.op with
    | pushVar symbol => exact congrArg (·, stack) (hvariable frame.active symbol)
    | pushInstance symbol => exact congrArg (·, stack) (hvariable frame.active symbol)
    | pushElement symbol element =>
      exact congrArg (·, stack) (helement frame.active symbol element)
    | _ => rfl

/-- A reference depends on the active instance only by whether it is the body's own one, and that
matters for fields only. -/
theorem reference_congr
    (h : s.inOwnInstance a = s.inOwnInstance b ∨ s.script.isField sym = false) :
    s.reference a pushedIn sym = s.reference b pushedIn sym := by
  rcases h with h | h
  · rw [reference, reference, h]
  · rw [reference, reference, h, Bool.false_and, Bool.false_and]

/-- Contexts in which the own instance is active alike recover the same expressions; so do all
contexts if the code can refer to no field. -/
theorem recover_eq (h : s.inOwnInstance a = s.inOwnInstance b ∨
    ∀ symbol sym, s.script.symbolOf? symbol = some sym → s.script.isField sym = false)
    (room : Nat) : s.recover a room = s.recover b room := by
  -- The active instance matters for references to fields only.
  have hreference {symbol : UInt32} {sym : Symbol}
      (hsymbol : s.script.symbolOf? symbol = some sym) (pushedIn : Option UInt32) :
      s.reference a pushedIn sym = s.reference b pushedIn sym := by
    apply reference_congr
    exact h.imp_right fun hfields => hfields symbol sym hsymbol
  apply recover_congr
  · intro pushedIn symbol
    unfold variableExpr
    split
    · rfl
    · next sym hsymbol => rw [hreference hsymbol]
  · intro pushedIn symbol element
    unfold elementExpr
    split
    · rfl
    · next sym hsymbol => rw [hreference hsymbol]

/-! ### One field -/

/-- An operation pushes a field, or one of its elements. A string that the compiler made up is
written as a literal, so pushing all of it counts for no field. -/
inductive PushesField (script : Script) (sym : Symbol) : Operation → Option Nat → Prop where
  | whole {symbol : UInt32} {op : Operation}
    (hop : op = .pushVar symbol ∨ op = .pushInstance symbol)
    (hsymbol : script.symbolOf? symbol = some sym) (hfield : script.isField sym = true)
    (hnamed : (sym.isGenerated && sym.kind == .string) = false) :
    PushesField script sym op (if 1 < sym.count then some 0 else none)
  | element {symbol : UInt32} {element : UInt8} (hsymbol : script.symbolOf? symbol = some sym)
    (hfield : script.isField sym = true) :
    PushesField script sym (.pushElement symbol element) (some element.toNat)

variable {frame : Frame} {stack : List Frame} {element : Option Nat} {room : Nat}

/-- What pushes a field is a push of a field of a class. -/
theorem PushesField.isField {op : Operation} (h : PushesField s.script sym op element) :
    s.script.isField sym = true := by
  cases h with
  | whole hop hsymbol hfield hnamed => exact hfield
  | element hsymbol hfield => exact hfield

/-- A pushed field is recovered as a reference to it. -/
theorem PushesField.recover_eq (h : PushesField s.script sym frame.instr.op element)
    (active : Option UInt32) (room : Nat) (stack : List Frame) :
    (s.recover active (room + 1) frame stack).1 =
      .variable (s.reference active frame.active sym) element := by
  generalize hop : frame.instr.op = op at h
  unfold recover
  rw [hop]
  cases h with
  | whole hvar hsymbol hfield hnamed =>
    -- Both operations push the variable alike.
    have hvariable : ∀ symbol, s.script.symbolOf? symbol = some sym →
        s.variableExpr active frame.active symbol =
          .variable (s.reference active frame.active sym)
            (if 1 < sym.count then some 0 else none) := by
      intro symbol hsymbol
      simp [variableExpr, hsymbol, hnamed]
    rcases hvar with rfl | rfl
    · exact hvariable _ hsymbol
    · exact hvariable _ hsymbol
  | element hsymbol hfield =>
    show s.elementExpr active frame.active _ _ = _
    rw [elementExpr, hsymbol]

/-- References are written alike with an element if and only if they are without it. -/
theorem text_variable_inj {ref ref' : Reference} :
    (Expr.variable ref element).text = (Expr.variable ref' element).text ↔
      ref.text = ref'.text := by
  cases element with
  | none => exact Iff.rfl
  | some i =>
    show ref.text ++ "[" ++ toString i ++ "]" = ref'.text ++ "[" ++ toString i ++ "]" ↔ _
    rw [String.append_left_inj, String.append_left_inj, String.append_left_inj]

/-- A field is written alike in two contexts if and only if the own instance is active in both or
in none of them. -/
theorem text_reference_eq_iff (hfield : s.script.isField sym = true) :
    (s.reference a pushedIn sym).text = (s.reference b pushedIn sym).text ↔
      s.inOwnInstance a = s.inOwnInstance b := by
  have hname (active : Option UInt32) :
      (s.reference active pushedIn sym).text = sym.localName ↔ s.inOwnInstance active = true := by
    simp [s.text_reference_iff, hfield]
  constructor
  · intro htext
    -- Where the own instance is active, the text is the bare name, and nowhere else.
    rw [Bool.eq_iff_iff, ← hname a, ← hname b, htext]
  · intro hown
    rw [reference_congr (.inl hown)]

/-- A field is written with the instance in which it was pushed if and only if the own instance is
not active in the context. -/
theorem text_reference_eq_field_iff (hfield : s.script.isField sym = true)
    {owner : Option String} (howner : (pushedIn.bind s.script.symbolOf?).map s.ownerName = owner) :
    (s.reference active pushedIn sym).text = (Reference.field owner sym).text ↔
      s.inOwnInstance active = false := by
  constructor
  · intro htext
    have hne : (s.reference active pushedIn sym).text ≠ sym.localName :=
      htext ▸ text_field_ne owner sym
    rw [ne_eq, s.text_reference_iff, hfield] at hne
    simpa using hne
  · intro hown
    simp [reference, hfield, hown, howner]

/-! ### Statements -/

/-- No instruction of the statement at `pc` makes the own instance active or inactive: `own` tells
whether it is. -/
def KeepsOwn (s : Setting) (own : Bool) (bound pc : Nat) : Prop :=
  ∀ turn ∈ s.script.cutTurns bound pc, ∀ instr symbol, decode s.script.code turn = .ok instr →
    instr.op = .setInstance symbol → s.inOwnInstance (some symbol) = own

/-- The first instruction of a statement that keeps the own instance active, or inactive, does
so. -/
theorem KeepsOwn.activate {own : Bool} {bound pc : Nat} {instr : Instr}
    (hkeeps : s.KeepsOwn own bound pc) (hdecode : decode s.script.code pc = .ok instr)
    (hactive : s.inOwnInstance active = own) :
    s.inOwnInstance (instr.op.activate active) = own := by
  have hmem := s.script.mem_cutTurns bound pc
  cases hop : instr.op with
  | setInstance symbol => exact hkeeps pc hmem instr symbol hdecode hop
  | _ => exact hactive

/-- All frames of a statement that keeps the own instance active, or inactive, agree on it. -/
theorem inOwnInstance_of_cut {own : Bool} {bound pc : Nat} {c : Cut}
    (hcut : s.script.cut bound active stack pc = .ok c) (hkeeps : s.KeepsOwn own bound pc)
    (hactive : s.inOwnInstance active = own)
    (hstack : ∀ frame ∈ stack, s.inOwnInstance frame.active = own) :
    ∀ frame ∈ c.last :: c.stack, s.inOwnInstance frame.active = own := by
  fun_induction Script.cut s.script bound active stack pc with
  | case1 => cases hcut
  | case2 active stack pc instr hdecode frame hend =>
    cases hcut
    exact List.forall_mem_cons.mpr ⟨hkeeps.activate hdecode hactive, hstack⟩
  | case3 active stack pc instr hdecode frame hend ih =>
    have hframe : s.inOwnInstance frame.active = own := hkeeps.activate hdecode hactive
    -- The turns behind this one are turns of the same statement.
    have hrest : s.KeepsOwn own bound instr.next := by
      intro turn hturn
      apply hkeeps turn
      rw [Script.cutTurns_of_ok hdecode, if_neg hend]
      exact List.mem_cons_of_mem pc hturn
    have hpushed : ∀ f ∈ frame.push stack, s.inOwnInstance f.active = own := by
      rw [Frame.push]
      split
      · exact List.forall_mem_cons.mpr ⟨hframe, hstack⟩
      · exact hstack
    exact ih hcut hrest hframe hpushed

/-! ### Resolution -/

/-- When a reference is resolved as it was pushed. -/
structure Resolution (s : Setting) : Prop where
  /-- Two contexts give the same texts if and only if they agree on whether the own instance is
  active, or the code can refer to no field. -/
  contexts : ∀ a b : Option UInt32,
    (∀ room frame stack,
        (s.recover a room frame stack).1.text = (s.recover b room frame stack).1.text) ↔
      s.inOwnInstance a = s.inOwnInstance b ∨
        ∀ symbol sym, s.script.symbolOf? symbol = some sym → s.script.isField sym = false
  /-- A field is written as in the context of its push if and only if both contexts agree. -/
  pushes : ∀ (sym : Symbol) (element : Option Nat) (frame : Frame),
    PushesField s.script sym frame.instr.op element → ∀ (active : Option UInt32) room stack,
      ((s.recover active (room + 1) frame stack).1.text =
          (s.recover frame.active (room + 1) frame stack).1.text ↔
        s.inOwnInstance active = s.inOwnInstance frame.active)
  /-- A field is qualified with the instance of its push if and only if the own instance is not
  active in the context. -/
  qualified : ∀ (sym : Symbol) (element : Option Nat) (frame : Frame),
    PushesField s.script sym frame.instr.op element → ∀ (active : Option UInt32) room stack,
      ((s.recover active (room + 1) frame stack).1.text =
          (Expr.variable (.field ((frame.active.bind s.script.symbolOf?).map s.ownerName) sym)
            element).text ↔
        s.inOwnInstance active = false)
  /-- A statement that does not change whether the own instance is active is recovered as in the
  context of each of its pushes. -/
  statements : ∀ (bound : Nat) (active : Option UInt32) (pc : Nat) (c : Cut),
    s.script.cut bound active [] pc = .ok c → s.KeepsOwn (s.inOwnInstance active) bound pc →
      ∀ frame ∈ c.last :: c.stack, ∀ room, s.recover c.active room = s.recover frame.active room

/-- If two contexts give the same text for every element of a field, they agree on whether the own
instance is active. -/
theorem inOwnInstance_eq_of_texts {symbol : UInt32}
    (hsymbol : s.script.symbolOf? symbol = some sym) (hfield : s.script.isField sym = true)
    (htexts : ∀ room frame stack,
      (s.recover a room frame stack).1.text = (s.recover b room frame stack).1.text) :
    s.inOwnInstance a = s.inOwnInstance b := by
  let frame : Frame := ⟨⟨0, .pushElement symbol 0⟩, none⟩
  have hpush : PushesField s.script sym frame.instr.op (some 0) := .element hsymbol hfield
  have htext := htexts 1 frame []
  rw [hpush.recover_eq, hpush.recover_eq, text_variable_inj] at htext
  exact (text_reference_eq_iff hfield).mp htext

/-- **References to fields.** A reference is resolved as it was pushed exactly where the context of
the recovery agrees with that of the push on whether the own instance is active. -/
theorem resolution (s : Setting) : s.Resolution where
  contexts a b := by
    constructor
    · -- If the contexts differ, a field would be written in two ways.
      intro htexts
      by_cases hown : s.inOwnInstance a = s.inOwnInstance b
      · exact .inl hown
      · right
        intro symbol sym hsymbol
        rw [← Bool.not_eq_true]
        intro hfield
        exact hown (inOwnInstance_eq_of_texts hsymbol hfield htexts)
    · intro h room frame stack
      rw [Setting.recover_eq h]
  pushes sym element frame hpush active room stack := by
    rw [hpush.recover_eq, hpush.recover_eq, text_variable_inj]
    exact text_reference_eq_iff hpush.isField
  qualified sym element frame hpush active room stack := by
    rw [hpush.recover_eq, text_variable_inj]
    exact text_reference_eq_field_iff hpush.isField rfl
  statements bound active pc c hcut hkeeps frame hframe room := by
    have hagrees := inOwnInstance_of_cut hcut hkeeps rfl (by simp)
    have hlast := hagrees c.last List.mem_cons_self
    apply Setting.recover_eq
    left
    exact hlast.trans (hagrees frame hframe).symm

/-- The body of an instance that reads a field of another one: between the push of the field and
the end of the statement the instance makes itself active again. -/
def heroSetting : Setting where
  script := Script.ofParts
    #[0x50, 3, 0, 0, 0, 0x41, 1, 0, 0, 0, 0x50, 2, 0, 0, 0, 0x41, 4, 0, 0, 0, 0x09, 0x3c]
    [{ name := "C_NPC", kind := .classDef },
      { name := "C_NPC.HP", kind := .int, flags := Flags.none.add .member, parent := some 0 },
      { name := "HERO", kind := .inst, flags := Flags.none.add .const, parent := some 0 },
      { name := "OTHER", kind := .inst, parent := some 0 }, { name := "X", kind := .int }]
  callable :=
    { name := "HERO", kind := .inst, flags := Flags.none.add .const, parent := some 0, index := 2 }
  limit := 256

/-- The field as it is pushed in the body, while the other instance is active. -/
def heroField : Frame := ⟨⟨5, .pushVar 1⟩, some 3⟩

/-- A field of another instance that was pushed before the body's own instance became active is
written without its owner. -/
theorem heroField_bare :
    (heroSetting.script.cut heroSetting.script.code.size heroSetting.callable.initialActive []
      0).toOption =
        some ⟨⟨⟨20, .move .int⟩, some 2⟩, [⟨⟨15, .pushVar 4⟩, some 2⟩, heroField]⟩ ∧
    (heroSetting.recover heroField.active 256 heroField []).1.text = "OTHER.HP" ∧
    (heroSetting.recover (some 2) 256 heroField []).1.text = "HP" ∧
    (heroSetting.script.decompileBody heroSetting.callable 4 256).toOption =
      some "    X = HP;\n" := by
  refine ⟨?_, ?_, ?_, ?_⟩
  · decide +kernel
  · decide +kernel
  · decide +kernel
  · decide +kernel

end Setting

end Daedalus
