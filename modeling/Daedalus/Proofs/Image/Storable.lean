import Daedalus.Image.Record

/-! # Symbols that can be stored

A record holds twelve bits for a count, six for flags, a parent below 2³¹ and text of the code page
without line feeds. It has no place for the fields that the kind of the symbol does not use: those
are zero in every symbol that is read from a record. -/

namespace Daedalus

namespace Text.CodePage

/-- The text can be stored as a line: characters of the code page, without a line feed. -/
def IsLine (text : String) : Prop := ∀ c ∈ text.toList, c ≠ '\n' ∧ ∃ byte, char byte = c

/-- Different bytes stand for different characters. -/
theorem char_injective : Function.Injective char := by
  intro b b' h
  have hbyte := byte?_char b
  rw [h, byte?_char] at hbyte
  exact (Option.some.inj hbyte).symm

/-- A text is decoded byte by byte. -/
@[simp] theorem toList_decode (bytes : List UInt8) : (decode bytes).toList = bytes.map char := by
  rw [decode, String.toList_ofList]

/-- A text that can be stored stands for bytes without a line feed. -/
theorem exists_bytes_of_isLine {text : String} (h : IsLine text) :
    ∃ bytes, 10 ∉ bytes ∧ decode bytes = text := by
  -- Character by character: the byte of a line feed would give a line feed.
  have hchars : ∀ chars : List Char, (∀ c ∈ chars, c ≠ '\n' ∧ ∃ byte, char byte = c) →
      ∃ bytes : List UInt8, 10 ∉ bytes ∧ bytes.map char = chars := by
    intro chars hchars
    induction chars with
    | nil => exact ⟨[], by simp, rfl⟩
    | cons c chars ih =>
      obtain ⟨hfeed, byte, rfl⟩ := hchars c List.mem_cons_self
      obtain ⟨bytes, hbytes, rfl⟩ := ih fun c hc => hchars c (List.mem_cons_of_mem _ hc)
      refine ⟨byte :: bytes, ?_, rfl⟩
      rintro hmem
      rcases List.mem_cons.mp hmem with rfl | hmem
      · exact hfeed rfl
      · exact hbytes hmem
  obtain ⟨bytes, hbytes, hmap⟩ := hchars text.toList h
  exact ⟨bytes, hbytes, by rw [decode, hmap, String.ofList_toList]⟩

/-- Bytes without a line end stand for a line. -/
theorem isLine_decode {bytes : List UInt8} (h : 10 ∉ bytes) : IsLine (decode bytes) := by
  intro c hc
  rw [toList_decode] at hc
  obtain ⟨byte, hbyte, rfl⟩ := List.mem_map.mp hc
  refine ⟨fun hfeed => ?_, byte, rfl⟩
  have hten : byte = 10 := char_injective hfeed
  exact h (hten ▸ hbyte)

/-- The first byte of a text is FF if and only if its first character is U+00FF. -/
theorem head?_decode (bytes : List UInt8) :
    (decode bytes).toList.head? = some '\u00ff' ↔ bytes.head? = some 0xFF := by
  cases bytes with
  | nil => simp
  | cons byte bytes =>
    simp only [toList_decode, List.map_cons, List.head?_cons, Option.some.injEq]
    exact ⟨fun h => char_injective h, fun h => h ▸ rfl⟩

end Text.CodePage

open Text.CodePage

/-! ### Flags -/

namespace Flags

/-- Six flags with the seventh put back are the seven flags. -/
theorem stored_generated (flags : Flags) (h : flags.bits.toNat < 0x80) :
    (if flags.has .generated then (Flags.mk (UInt32.ofNat (flags.bits.toNat % 0x40))).add .generated
      else Flags.mk (UInt32.ofNat (flags.bits.toNat % 0x40))) = flags := by
  have hall : ∀ n : Fin 0x80, (if (Flags.mk (UInt32.ofNat n)).has .generated then
      (Flags.mk (UInt32.ofNat (n.val % 0x40))).add .generated
      else Flags.mk (UInt32.ofNat (n.val % 0x40))) = Flags.mk (UInt32.ofNat n) := by decide
  have := hall ⟨flags.bits.toNat, h⟩
  simpa using this

/-- The member flag is one of the six that are stored. -/
theorem stored_member (flags : Flags) (h : flags.bits.toNat < 0x80) :
    (Flags.mk (UInt32.ofNat (flags.bits.toNat % 0x40))).has .member = flags.has .member := by
  have hall : ∀ n : Fin 0x80, (Flags.mk (UInt32.ofNat (n.val % 0x40))).has .member =
      (Flags.mk (UInt32.ofNat n)).has .member := by decide
  have := hall ⟨flags.bits.toNat, h⟩
  simpa using this

/-- Six stored flags, with the generated flag added or not. -/
theorem six_flags (n : Nat) (h : n < 0x40) :
    (Flags.mk (UInt32.ofNat n)).has .generated = false ∧
      ((Flags.mk (UInt32.ofNat n)).add .generated).has .generated = true ∧
      ((Flags.mk (UInt32.ofNat n)).add .generated).has .member =
        (Flags.mk (UInt32.ofNat n)).has .member ∧
      ((Flags.mk (UInt32.ofNat n)).add .generated).bits.toNat < 0x80 := by
  have hall : ∀ n : Fin 0x40, (Flags.mk (UInt32.ofNat n)).has .generated = false ∧
      ((Flags.mk (UInt32.ofNat n)).add .generated).has .generated = true ∧
      ((Flags.mk (UInt32.ofNat n)).add .generated).has .member =
        (Flags.mk (UInt32.ofNat n)).has .member ∧
      ((Flags.mk (UInt32.ofNat n)).add .generated).bits.toNat < 0x80 := by decide
  exact hall ⟨n, h⟩

end Flags

/-! ### Symbols -/

/-- The literal data is what a record holds for a symbol of a kind: `count` elements of the kind's
type for a variable, and nothing otherwise. -/
def Value.IsFor (kind : Kind) (count : Nat) (value : Value) : Prop :=
  match kind with
  | .float => ∃ elements, value = .floats elements ∧ elements.length = count
  | .int => ∃ elements, value = .ints elements ∧ elements.length = count
  | .string =>
    ∃ elements, value = .strings elements ∧ elements.length = count ∧ ∀ e ∈ elements, IsLine e
  | _ => value = .none

namespace Symbol

/-- The literal data of the symbol is what its record holds; the record of a member holds none. -/
def HoldsElements (sym : Symbol) : Prop :=
  if sym.isMember then sym.value = .none else sym.value.IsFor sym.kind sym.count.toNat

/-- A member holds no elements. -/
theorem holdsElements_of_member {sym : Symbol} (hmember : sym.isMember = true) :
    sym.HoldsElements ↔ sym.value = .none := by
  rw [HoldsElements, if_pos hmember]

/-- A symbol that is no member holds elements of its kind, as many as it counts. -/
theorem holdsElements_of_not_member {sym : Symbol} (hmember : sym.isMember = false) :
    sym.HoldsElements ↔ sym.value.IsFor sym.kind sym.count.toNat := by
  rw [HoldsElements, if_neg (Bool.eq_false_iff.mp hmember)]

/-- A symbol of which a record keeps the fields that stand in front of the payload. -/
structure StorableHead (sym : Symbol) : Prop where
  name : IsLine sym.name
  /-- The names that the compiler makes up are those that start with U+00FF. -/
  generated : sym.isGenerated = true ↔ sym.name.toList.head? = some '\u00ff'
  /-- Six flags, besides the one for names that the compiler makes up. -/
  flags : sym.flags.bits.toNat < 0x80
  count : sym.count.toNat < 0x1000
  memberOffset : sym.memberOffset ≠ 0 → sym.isMember = true
  classSize : sym.classSize ≠ 0 → sym.isMember = false ∧ sym.kind = .classDef
  returnKind : sym.returnKind ≠ .void → sym.isMember = false ∧ sym.kind = .func

/-- A symbol of which a record keeps the fields up to the payload, the payload included. -/
structure StorableBody (sym : Symbol) : Prop extends StorableHead sym where
  value : sym.HoldsElements
  classOffset : sym.classOffset ≠ 0 → sym.isMember = false ∧ sym.kind = .classDef
  address : sym.address ≠ 0 → sym.isMember = false ∧ sym.kind.isCallable = true

/-- A symbol of which a record keeps every field. -/
structure Storable (sym : Symbol) : Prop extends StorableBody sym where
  parent : ∀ parent ∈ sym.parent, parent.toNat < 0x80000000

/-- The symbol with the fields alone that stand in front of the payload of its record. -/
def head (sym : Symbol) : Symbol :=
  { sym with index := 0, address := 0, parent := none, classOffset := 0, value := .none }

/-- The symbol with the fields alone that stand in its record in front of the parent. -/
def body (sym : Symbol) : Symbol := { sym with index := 0, parent := none }

/-- The symbol without a place in a table. -/
def unnumbered (sym : Symbol) : Symbol := { sym with index := 0 }

end Symbol

/-! ### Properties -/

namespace Properties

variable {sym : Symbol}

/-- The properties of a symbol are packed into one number: its count, its kind and its flags. -/
theorem toNat_ofSymbol (h : sym.count.toNat < 0x1000) :
    (ofSymbol sym).word.toNat =
      sym.count.toNat + 0x1000 * (sym.kind.code.toNat + 0x10 * (sym.flags.bits.toNat % 0x40)) := by
  have hkind : sym.kind.code.toNat < 0x10 := by cases sym.kind <;> decide
  rw [ofSymbol, UInt32.toNat_ofNat', Nat.mod_eq_of_lt h]
  omega

/-- The count is unpacked. -/
theorem count_ofSymbol (h : sym.count.toNat < 0x1000) : (ofSymbol sym).count = sym.count := by
  have hword : (ofSymbol sym).word.toNat % 0x1000 = sym.count.toNat := by
    rw [toNat_ofSymbol h]
    omega
  rw [count, hword, UInt32.ofNat_toNat]

/-- The kind is unpacked. -/
theorem kind_ofSymbol (h : sym.count.toNat < 0x1000) : (ofSymbol sym).kind = sym.kind := by
  have hkind : sym.kind.code.toNat < 0x10 := by cases sym.kind <;> decide
  have hword : (ofSymbol sym).word.toNat / 0x1000 % 0x10 = sym.kind.code.toNat := by
    rw [toNat_ofSymbol h]
    omega
  rw [kind, hword, UInt32.ofNat_toNat, Kind.ofCode?_code, Option.getD_some]

/-- The flags are unpacked. -/
theorem flags_ofSymbol (h : sym.count.toNat < 0x1000) :
    (ofSymbol sym).flags = ⟨UInt32.ofNat (sym.flags.bits.toNat % 0x40)⟩ := by
  have hkind : sym.kind.code.toNat < 0x10 := by cases sym.kind <;> decide
  have hword : (ofSymbol sym).word.toNat / 0x10000 % 0x40 = sym.flags.bits.toNat % 0x40 := by
    rw [toNat_ofSymbol h]
    omega
  rw [flags, hword]

/-- A count takes twelve bits. -/
theorem count_lt (properties : Properties) : properties.count.toNat < 0x1000 := by
  rw [count, UInt32.toNat_ofNat']
  omega

end Properties

/-! ### The fields in front of the payload -/

namespace Symbol

variable {sym : Symbol}

/-- The word in front of the properties is the offset of a member. -/
theorem StorableHead.memberOffset_eq (h : sym.StorableHead) :
    (if sym.isMember = true then sym.leadingWord else 0) = sym.memberOffset := by
  split
  · next hmember => rw [leadingWord, if_pos hmember]
  · next hmember => exact (Classical.not_not.mp (mt h.memberOffset hmember)).symm

/-- The word in front of the properties is the size of a class. -/
theorem StorableHead.classSize_eq (h : sym.StorableHead) :
    (if (!sym.isMember) = true ∧ sym.kind = .classDef then sym.leadingWord else 0) =
      sym.classSize := by
  split
  · next hclass =>
    rw [Bool.not_eq_true'] at hclass
    rw [leadingWord, hclass.1, if_neg Bool.false_ne_true, if_pos hclass.2]
  · next hclass =>
    rw [Bool.not_eq_true'] at hclass
    exact (Classical.not_not.mp (mt h.classSize hclass)).symm

/-- The word in front of the properties is the result of a function. -/
theorem StorableHead.returnKind_eq (h : sym.StorableHead) :
    (if (!sym.isMember) = true ∧ sym.kind = .func then (Kind.ofCode? sym.leadingWord).getD .void
      else .void) = sym.returnKind := by
  split
  · next hfunc =>
    rw [Bool.not_eq_true'] at hfunc
    rw [leadingWord, hfunc.1, if_neg Bool.false_ne_true, hfunc.2, if_neg (by decide),
      Kind.ofCode?_code, Option.getD_some]
  · next hfunc =>
    rw [Bool.not_eq_true'] at hfunc
    exact (Classical.not_not.mp (mt h.returnKind hfunc)).symm

/-- The fields in front of the payload describe the head of a symbol that can be stored. -/
theorem StorableHead.ofRecord_eq (h : sym.StorableHead) {bytes : List UInt8}
    (hbytes : Text.CodePage.decode bytes = sym.name) :
    ofRecord bytes sym.leadingWord (Properties.ofSymbol sym) sym.location = sym.head := by
  have hgenerated : bytes.head? = some 0xFF ↔ sym.flags.has .generated = true := by
    rw [← head?_decode, hbytes]
    exact h.generated.symm
  have hmember : (Flags.mk (UInt32.ofNat (sym.flags.bits.toNat % 0x40))).has .member =
      sym.isMember := sym.flags.stored_member h.flags
  have hflags := sym.flags.stored_generated h.flags
  simp only [ofRecord, Properties.count_ofSymbol h.count, Properties.kind_ofSymbol h.count,
    Properties.flags_ofSymbol h.count, hmember, hbytes, hgenerated, hflags, h.memberOffset_eq,
    h.classSize_eq, h.returnKind_eq, head]

/-- What stands in front of the payload does not depend on the fields behind. -/
theorem storableHead_head : sym.head.StorableHead ↔ sym.StorableHead :=
  ⟨fun ⟨name, generated, flags, count, memberOffset, classSize, returnKind⟩ =>
      ⟨name, generated, flags, count, memberOffset, classSize, returnKind⟩,
    fun ⟨name, generated, flags, count, memberOffset, classSize, returnKind⟩ =>
      ⟨name, generated, flags, count, memberOffset, classSize, returnKind⟩⟩

/-- Symbols that agree in front of the payload can be stored up to there alike. -/
theorem StorableHead.of_head_eq {other : Symbol} (h : sym.StorableHead)
    (heq : other.head = sym.head) : other.StorableHead := by
  have hhead : sym.head.StorableHead := storableHead_head.mpr h
  rw [← heq] at hhead
  exact storableHead_head.mp hhead

/-- The position of a symbol does not matter for its record. -/
theorem Storable.withIndex (h : sym.Storable) (i : Nat) : { sym with index := i }.Storable :=
  ⟨⟨h.toStorableHead.of_head_eq rfl, h.value, h.classOffset, h.address⟩, h.parent⟩

/-- The fields that are read in front of a payload can be stored again. -/
theorem storableHead_ofRecord {name : List UInt8} (hname : 10 ∉ name) (word : UInt32)
    (properties : Properties) (location : Location) :
    (ofRecord name word properties location).StorableHead := by
  obtain ⟨hplain, hadded, hmember, hbits⟩ :=
    Flags.six_flags (properties.word.toNat / 0x10000 % 0x40) (by omega)
  have hhead := head?_decode name
  -- The flag for made-up names does not touch the flag for members.
  have hisMember : (ofRecord name word properties location).isMember =
      properties.flags.has .member := by
    simp only [ofRecord, isMember]
    split
    · exact hmember
    · rfl
  constructor
  · exact isLine_decode hname
  · simp only [ofRecord, isGenerated, hhead]
    split
    · next hgenerated => simp [hgenerated, Properties.flags, hadded]
    · next hgenerated => simp [hgenerated, Properties.flags, hplain]
  · simp only [ofRecord]
    split
    · exact hbits
    · rw [Properties.flags, UInt32.toNat_ofNat']
      omega
  · exact properties.count_lt
  -- A word that the kind has no use for is not kept.
  · rw [hisMember]
    exact Decidable.not_imp_comm.mp fun hmember => if_neg hmember
  · rw [hisMember, ← Bool.not_eq_true']
    exact Decidable.not_imp_comm.mp fun hclass => if_neg hclass
  · rw [hisMember, ← Bool.not_eq_true']
    exact Decidable.not_imp_comm.mp fun hfunc => if_neg hfunc

/-! ### Parents -/

/-- A parent that can be stored is the one that its word stands for. -/
theorem parentOfWord_parentWord {parent : Option UInt32}
    (h : ∀ p ∈ parent, p.toNat < 0x80000000) : parentOfWord (parentWord parent) = parent := by
  cases parent with
  | none => rfl
  | some p => rw [parentWord, Option.getD_some, parentOfWord, if_pos (h p rfl)]

/-- The parent that a word stands for can be stored. -/
theorem lt_of_mem_parentOfWord {word p : UInt32} (h : p ∈ parentOfWord word) :
    p.toNat < 0x80000000 := by
  unfold parentOfWord at h
  split at h
  · next hlt => cases h; exact hlt
  · cases h

end Symbol

end Daedalus
