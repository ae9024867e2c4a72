import Daedalus.Image.Image
import Daedalus.Proofs.Image.Storable
import Daedalus.Proofs.Image.Takes
import Daedalus.Proofs.Lookups

/-! # Images and scripts

The scripts that can be read from an image are those whose symbols can be stored and whose lengths
fit a word. Such a script is read back from its own image field by field, whatever the version byte
and the stored order of the symbols: the reader takes the record of each symbol, and the records
stand one behind the other. -/

namespace Daedalus

open Scan

namespace Symbol

/-! ### Records in parts -/

/-- Reads the name of a symbol, if it has one. -/
def scanName : Scan (List UInt8) := do
  let named ← word
  if named = 0 then pure [] else line

/-- Reads the fields in front of the payload. -/
def scanHead : Scan Symbol := do
  let name ← scanName
  let word ← Scan.word
  let properties ← Scan.word
  let location ← scanLocation
  pure (ofRecord name word ⟨properties⟩ location)

/-- Reads the payload, if there is one. -/
def scanBody (sym : Symbol) : Scan Symbol := if sym.isMember then pure sym else sym.scanPayload

/-- A record is read in three parts: the fields in front of the payload, the payload, the parent. -/
theorem scan_eq :
    scan = (do
      let sym ← scanHead
      let sym ← sym.scanBody
      let parent ← Scan.word
      pure { sym with parent := parentOfWord parent }) := by
  -- A choice between scanners is made before what follows them.
  have hname (named : UInt32) {β : Type} (next : List UInt8 → Scan β) :
      ((if named = 0 then pure [] else line) >>= next) =
        if named = 0 then next [] else line >>= next := by
    split <;> simp only [pure_bind]
  have hbody (sym : Symbol) {β : Type} (next : Symbol → Scan β) :
      ((if sym.isMember then pure sym else sym.scanPayload) >>= next) =
        if sym.isMember then next sym else sym.scanPayload >>= next := by
    split <;> simp only [pure_bind]
  simp only [scan, scanHead, scanBody, bind_assoc, pure_bind, hbody]
  simp only [scanName, bind_assoc, hname]

variable {sym : Symbol}

/-! ### The record of a symbol is read back -/

/-- The name of a symbol as it stands in the record. -/
def nameBytes (name : String) : List UInt8 :=
  if name.isEmpty then Word.toBytes 0 else Word.toBytes 1 ++ lineBytes name

/-- The text of some bytes is written as these bytes and a line end. -/
theorem lineBytes_decode (bytes : List UInt8) :
    lineBytes (Text.CodePage.decode bytes) = bytes ++ [10] := by
  have hbytes : (bytes.map Text.CodePage.char).filterMap Text.CodePage.byte? = bytes := by
    have hsome : Text.CodePage.byte? ∘ Text.CodePage.char = some :=
      funext Text.CodePage.byte?_char
    rw [List.filterMap_map, hsome, List.filterMap_some]
  rw [lineBytes, Text.CodePage.toList_decode, hbytes]

/-- A line that was written is read as a line with its text. -/
theorem takes_lineBytes {text : String} (h : Text.CodePage.IsLine text) :
    ∃ bytes, Text.CodePage.decode bytes = text ∧ Takes line (lineBytes text) bytes := by
  obtain ⟨bytes, hbytes, rfl⟩ := Text.CodePage.exists_bytes_of_isLine h
  exact ⟨bytes, rfl, lineBytes_decode bytes ▸ takes_line hbytes⟩

/-- A name that was written is read as a name with its text. -/
theorem takes_nameBytes {name : String} (h : Text.CodePage.IsLine name) :
    ∃ bytes, Text.CodePage.decode bytes = name ∧ Takes scanName (nameBytes name) bytes := by
  by_cases hempty : name.isEmpty
  · -- Nothing stands for a symbol without a name.
    refine ⟨[], (String.isEmpty_iff.mp hempty).symm, ?_⟩
    rw [nameBytes, if_pos hempty, ← List.append_nil (Word.toBytes 0)]
    exact (takes_word 0).bind (takes_pure [])
  · obtain ⟨bytes, hdecode, htakes⟩ := takes_lineBytes h
    refine ⟨bytes, hdecode, ?_⟩
    rw [nameBytes, if_neg hempty]
    exact (takes_word 1).bind htakes

/-- A location that was written is read. -/
theorem takes_locationBytes (location : Location) :
    Takes scanLocation (locationBytes location) location := by
  exact (takes_word _).bind <| (takes_word _).bind <| (takes_word _).bind <| (takes_word _).bind <|
    (takes_word location.charCount).bind_pure _

/-- The head of a symbol that was written is read. -/
theorem takes_head (h : sym.StorableHead) :
    Takes scanHead (nameBytes sym.name ++ (Word.toBytes sym.leadingWord ++
      (Word.toBytes (Properties.ofSymbol sym).word ++ locationBytes sym.location))) sym.head := by
  obtain ⟨bytes, hdecode, hname⟩ := takes_nameBytes h.name
  rw [← h.ofRecord_eq hdecode]
  exact hname.bind <| (takes_word _).bind <| (takes_word _).bind <|
    (takes_locationBytes sym.location).bind_pure _

/-- The payload of a variable is taken element by element. -/
theorem takes_elements {α β : Type} {read : Scan α} {write : β → List UInt8} (back : α → β)
    (xs : List β) (h : ∀ x ∈ xs, ∃ y, back y = x ∧ Takes read (write x) y) :
    ∃ ys : List α, ys.map back = xs ∧ Takes (times read xs.length) (xs.flatMap write) ys := by
  -- First the elements as they were stored, then the text of all of them.
  have hys : ∃ ys : List α, ys.map back = xs ∧
      ∀ y ∈ ys, Takes read (write (back y)) y := by
    induction xs with
    | nil => exact ⟨[], rfl, by simp⟩
    | cons x xs ih =>
      obtain ⟨y, rfl, hy⟩ := h x List.mem_cons_self
      obtain ⟨ys, rfl, hys⟩ := ih fun x hx => h x (List.mem_cons_of_mem _ hx)
      refine ⟨y :: ys, rfl, fun z hz => ?_⟩
      rcases List.mem_cons.mp hz with rfl | hz
      · exact hy
      · exact hys z hz
  obtain ⟨ys, rfl, hys⟩ := hys
  refine ⟨ys, rfl, ?_⟩
  rw [List.length_map, List.flatMap_map]
  exact takes_times hys

/-- A symbol is its head with its value, its class offset and its address. -/
theorem body_eq : sym.body =
    { sym.head with value := sym.value, classOffset := sym.classOffset, address := sym.address } :=
  rfl

/-- What follows the head of a symbol that is no member is read as it was written. -/
theorem takes_payload (h : sym.Storable) (hmember : sym.isMember = false) :
    Takes sym.head.scanPayload sym.payloadBytes sym.body := by
  have hvalue := (holdsElements_of_not_member hmember).mp h.value
  -- A payload holds one thing only, so all the other fields are at their defaults.
  have hclass : sym.kind ≠ .classDef → sym.classOffset = 0 := fun hkind =>
    Classical.not_not.mp (mt h.classOffset fun hc => hkind hc.2)
  have haddress : sym.kind.isCallable = false → sym.address = 0 := fun hkind =>
    Classical.not_not.mp (mt h.address fun ha => Bool.false_ne_true (hkind.symm.trans ha.2))
  rw [body_eq]
  cases hkind : sym.kind with
  | void =>
    rw [hkind] at hvalue hclass haddress
    simp only [scanPayload, payloadBytes, hkind, head]
    rw [hvalue, hclass (by decide), haddress rfl]
    exact takes_pure _
  | float =>
    rw [hkind] at hvalue hclass haddress
    obtain ⟨xs, hxs, hlength⟩ := hvalue
    simp only [scanPayload, payloadBytes, hkind, head, hxs]
    rw [hclass (by decide), haddress rfl, ← hlength]
    obtain ⟨ys, rfl, htakes⟩ := takes_elements Binary32.mk xs
      fun x _ => ⟨x.bits, rfl, takes_word x.bits⟩
    exact htakes.bind_pure _
  | int =>
    rw [hkind] at hvalue hclass haddress
    obtain ⟨xs, hxs, hlength⟩ := hvalue
    simp only [scanPayload, payloadBytes, hkind, head, hxs]
    rw [hclass (by decide), haddress rfl, ← hlength]
    obtain ⟨ys, rfl, htakes⟩ := takes_elements UInt32.toInt32 xs
      fun x _ => ⟨x.toUInt32, rfl, takes_word x.toUInt32⟩
    exact htakes.bind_pure _
  | string =>
    rw [hkind] at hvalue hclass haddress
    obtain ⟨xs, hxs, hlength, hlines⟩ := hvalue
    simp only [scanPayload, payloadBytes, hkind, head, hxs]
    rw [hclass (by decide), haddress rfl, ← hlength]
    obtain ⟨ys, rfl, htakes⟩ := takes_elements Text.CodePage.decode xs
      fun x hx => takes_lineBytes (hlines x hx)
    exact htakes.bind_pure _
  | classDef =>
    rw [hkind] at hvalue haddress
    simp only [scanPayload, payloadBytes, hkind, head]
    rw [hvalue, haddress rfl]
    exact (takes_word sym.classOffset).bind_pure _
  | func | prototype | inst =>
    rw [hkind] at hvalue hclass
    simp only [scanPayload, payloadBytes, hkind, head]
    rw [hvalue, hclass (by decide)]
    exact (takes_word sym.address).bind_pure _

/-- A member has no payload. -/
theorem body_eq_head (h : sym.Storable) (hmember : sym.isMember = true) : sym.body = sym.head := by
  have hvalue := (holdsElements_of_member hmember).mp h.value
  have hnot : ∀ {p : Prop}, ¬(sym.isMember = false ∧ p) := fun hp =>
    Bool.false_ne_true (hp.1.symm.trans hmember)
  rw [body_eq, hvalue, Classical.not_not.mp (mt h.classOffset hnot),
    Classical.not_not.mp (mt h.address hnot)]
  rfl

/-- What follows the head of a symbol is read as it was written; behind the head of a member follows
nothing but its parent. -/
theorem takes_body (h : sym.Storable) :
    Takes sym.head.scanBody (if sym.isMember then [] else sym.payloadBytes) sym.body := by
  have hhead : sym.head.isMember = sym.isMember := rfl
  rw [scanBody, hhead]
  by_cases hmember : sym.isMember = true
  · rw [if_pos hmember, if_pos hmember, body_eq_head h hmember]
    exact takes_pure _
  · rw [if_neg hmember, if_neg hmember]
    exact takes_payload h (Bool.eq_false_iff.mpr hmember)

/-- The record of a symbol that can be stored is read as the symbol. -/
theorem takes_recordBytes (h : sym.Storable) : Takes scan sym.recordBytes sym.unnumbered := by
  have hbytes : sym.recordBytes =
      (nameBytes sym.name ++ (Word.toBytes sym.leadingWord ++
        (Word.toBytes (Properties.ofSymbol sym).word ++ locationBytes sym.location))) ++
      ((if sym.isMember then [] else sym.payloadBytes) ++ Word.toBytes (parentWord sym.parent)) := by
    simp only [recordBytes, nameBytes, List.append_assoc]
  have hparent := (takes_word (parentWord sym.parent)).bind_pure
    fun word => { sym.body with parent := parentOfWord word }
  simp only [parentOfWord_parentWord h.parent] at hparent
  rw [scan_eq, hbytes]
  exact (takes_head h.toStorableHead).bind ((takes_body h).bind hparent)

/-! ### The symbols that are read can be stored -/

/-- The head that is read of a symbol can be stored, and has nothing in the fields that are read
later. -/
theorem exists_of_scanHead {input rest : List UInt8} (h : scanHead input = .ok (sym, rest)) :
    sym.StorableHead ∧ sym.parent = none ∧ sym.value = .none ∧ sym.classOffset = 0 ∧
      sym.address = 0 := by
  obtain ⟨name, _, hname, h⟩ := exists_of_bind h
  obtain ⟨word, _, -, h⟩ := exists_of_bind h
  obtain ⟨properties, _, -, h⟩ := exists_of_bind h
  obtain ⟨location, _, -, h⟩ := exists_of_bind h
  obtain rfl := eq_of_pure h
  refine ⟨storableHead_ofRecord ?_ word ⟨properties⟩ location, rfl, rfl, rfl, rfl⟩
  -- The name is empty, or it was read as a line.
  obtain ⟨named, between, -, hline⟩ := exists_of_bind hname
  split at hline
  · obtain rfl := eq_of_pure hline
    exact List.not_mem_nil
  · exact not_mem_of_line hline

/-- A payload that was read can be stored again. -/
theorem storableBody_of_scanPayload {start : Symbol} {input rest : List UInt8}
    (hstart : start.StorableHead) (hmember : start.isMember = false) (hvalue : start.value = .none)
    (hoffset : start.classOffset = 0) (haddress : start.address = 0)
    (h : start.scanPayload input = .ok (sym, rest)) : sym.StorableBody := by
  -- The fields that a payload does not hold are those of the start.
  have hclass {p : Prop} : start.classOffset ≠ 0 → p := fun hne => absurd hoffset hne
  have hcallable {p : Prop} : start.address ≠ 0 → p := fun hne => absurd haddress hne
  obtain ⟨index, name, kind, flags, count, address, parent, returnKind, memberOffset, classSize,
    classOffset, location, value⟩ := start
  cases kind with
  | void =>
    obtain rfl := eq_of_pure h
    exact ⟨hstart, (holdsElements_of_not_member hmember).mpr hvalue, hclass, hcallable⟩
  | float | int =>
    obtain ⟨words, between, hwords, h⟩ := exists_of_bind h
    obtain rfl := eq_of_pure h
    refine ⟨hstart.of_head_eq rfl, (holdsElements_of_not_member ?_).mpr ?_, hclass, hcallable⟩
    · exact hmember
    · exact ⟨_, rfl, (List.length_map _).trans (exists_of_times hwords).1⟩
  | string =>
    obtain ⟨lines, between, hlines, h⟩ := exists_of_bind h
    obtain rfl := eq_of_pure h
    refine ⟨hstart.of_head_eq rfl, (holdsElements_of_not_member ?_).mpr ?_, hclass, hcallable⟩
    · exact hmember
    · obtain ⟨hlength, hread⟩ := exists_of_times hlines
      refine ⟨_, rfl, (List.length_map _).trans hlength, fun text htext => ?_⟩
      obtain ⟨line, hline, rfl⟩ := List.mem_map.mp htext
      obtain ⟨_, _, hline⟩ := hread line hline
      exact Text.CodePage.isLine_decode (not_mem_of_line hline)
  | classDef =>
    obtain ⟨offset, between, -, h⟩ := exists_of_bind h
    obtain rfl := eq_of_pure h
    exact ⟨hstart.of_head_eq rfl, (holdsElements_of_not_member hmember).mpr hvalue,
      fun _ => ⟨hmember, rfl⟩, hcallable⟩
  | func | prototype | inst =>
    obtain ⟨address, between, -, h⟩ := exists_of_bind h
    obtain rfl := eq_of_pure h
    exact ⟨hstart.of_head_eq rfl, (holdsElements_of_not_member hmember).mpr hvalue, hclass,
      fun _ => ⟨hmember, rfl⟩⟩

/-- A record that was read can be stored again. -/
theorem storable_of_scan {input rest : List UInt8} (h : scan input = .ok (sym, rest)) :
    sym.Storable := by
  rw [scan_eq] at h
  obtain ⟨start, _, hhead, h⟩ := exists_of_bind h
  obtain ⟨body, _, hbody, h⟩ := exists_of_bind h
  obtain ⟨parent, _, -, h⟩ := exists_of_bind h
  obtain rfl := eq_of_pure h
  obtain ⟨hstart, hparent, hvalue, hoffset, haddress⟩ := exists_of_scanHead hhead
  have hstorable : body.StorableBody := by
    unfold scanBody at hbody
    split at hbody
    · next hmember =>
      obtain rfl := eq_of_pure hbody
      exact ⟨hstart, (holdsElements_of_member hmember).mpr hvalue, fun hne => absurd hoffset hne,
        fun hne => absurd haddress hne⟩
    · next hmember =>
      exact storableBody_of_scanPayload hstart (Bool.eq_false_iff.mpr hmember) hvalue hoffset
        haddress hbody
  -- The parent is a field of its own.
  obtain ⟨hstart, hvalue, hoffset, haddress⟩ := hstorable
  have hhead : StorableHead { body with parent := parentOfWord parent } := hstart.of_head_eq rfl
  exact ⟨⟨hhead, hvalue, hoffset, haddress⟩, fun p hp => lt_of_mem_parentOfWord hp⟩

end Symbol

/-! ### Whole images -/

/-- A symbol table of which an image keeps everything: the symbols are numbered by their positions,
and the record of each of them keeps all of its fields. -/
structure StorableTable (symbols : List Symbol) : Prop where
  numbered : ∀ (i : Nat) (h : i < symbols.length), symbols[i].index = i
  storable : ∀ sym ∈ symbols, sym.Storable

namespace Script

/-- Each word takes four bytes. -/
theorem length_flatMap_toBytes (words : List UInt32) :
    (words.flatMap Word.toBytes).length = 4 * words.length := by
  induction words with
  | nil => rfl
  | cons word words ih =>
    rw [List.flatMap_cons, List.length_append, ih, List.length_cons, Nat.mul_succ, Nat.add_comm]
    rfl

/-- The image of symbols that can be stored and of code is read as these symbols and this code,
whatever its version byte and the stored order of the symbols. -/
theorem takes_imageOf {symbols : List Symbol} {code : List UInt8} {order : List UInt32}
    (version : UInt8) (hsymbols : ∀ sym ∈ symbols, sym.Storable)
    (hlength : symbols.length < UInt32.size) (hcode : code.length < UInt32.size)
    (horder : order.length = symbols.length) :
    Takes scanParts (imageOf version order symbols code)
      (symbols.map Symbol.unnumbered, code) := by
  have hcount : (UInt32.ofNat symbols.length).toNat = symbols.length :=
    UInt32.toNat_ofNat_of_lt' hlength
  have hsize : (UInt32.ofNat code.length).toNat = code.length := UInt32.toNat_ofNat_of_lt' hcode
  -- Four bytes for each symbol hold the order.
  have horders : (order.flatMap Word.toBytes).length = 4 * symbols.length := by
    rw [length_flatMap_toBytes, horder]
  -- The position in the table stands in no record.
  have hrecords : Takes (times Symbol.scan symbols.length) (symbols.flatMap Symbol.recordBytes)
      (symbols.map Symbol.unnumbered) := by
    have htakes : ∀ sym ∈ symbols.map Symbol.unnumbered, Takes Symbol.scan sym.recordBytes sym := by
      intro sym hsym
      obtain ⟨sym, hmem, rfl⟩ := List.mem_map.mp hsym
      have htakes := Symbol.takes_recordBytes (hsymbols sym hmem)
      exact htakes
    have htimes := takes_times htakes
    rwa [List.length_map, List.flatMap_map] at htimes
  have himage : imageOf version order symbols code =
      [version] ++ (Word.toBytes (UInt32.ofNat symbols.length) ++ (order.flatMap Word.toBytes ++
        (symbols.flatMap Symbol.recordBytes ++
          (Word.toBytes (UInt32.ofNat code.length) ++ code)))) := by
    simp only [imageOf, List.append_assoc, List.singleton_append]
  rw [himage, scanParts]
  refine (takes_byte version).bind <| (takes_word _).bind ?_
  rw [hcount, ← horders]
  refine (takes_bytes _).bind <| hrecords.bind <| (takes_word _).bind ?_
  rw [hsize]
  exact (takes_bytes code).bind_pure _

/-- Symbols that are numbered by their positions get these numbers back. -/
theorem symbols_ofParts_unnumbered {symbols : List Symbol} (code : Code)
    (hnumbered : ∀ (i : Nat) (h : i < symbols.length), symbols[i].index = i) :
    (ofParts code (symbols.map Symbol.unnumbered)).symbols.toList = symbols := by
  apply List.ext_getElem
  · simp [ofParts, Table.ofList]
  · intro i hi hi'
    have hnumber := hnumbered i hi'
    simp only [ofParts, Table.ofList, Array.getElem_toList, Array.getElem_mapIdx,
      List.getElem_toArray, List.getElem_map, Symbol.unnumbered]
    generalize symbols[i] = sym at hnumber
    subst hnumber
    rfl

/-- A script is determined by its symbols and its code. -/
theorem ext_symbols_code {left right : Script} (hsymbols : left.symbols = right.symbols)
    (hcode : left.code = right.code) : left = right := by
  obtain ⟨table, code⟩ := left
  obtain ⟨table', code'⟩ := right
  obtain rfl : table = table' := Table.ext_symbols hsymbols
  obtain rfl : code = code' := hcode
  rfl

/-- A table that an image keeps is read back from its image, with the code behind it. -/
theorem exists_ofImage_imageOf {symbols : List Symbol} {code : List UInt8} {order : List UInt32}
    (version : UInt8) (htable : StorableTable symbols) (hlength : symbols.length < UInt32.size)
    (hcode : code.length < UInt32.size) (horder : order.length = symbols.length) :
    ∃ script, ofImage (imageOf version order symbols code) = .ok script ∧
      script.symbols.toList = symbols ∧ script.code.toList = code := by
  have htakes := takes_imageOf version htable.storable hlength hcode horder []
  rw [List.append_nil] at htakes
  refine ⟨ofParts code.toArray (symbols.map Symbol.unnumbered), ?_,
    symbols_ofParts_unnumbered _ htable.numbered, rfl⟩
  rw [ofImage, htakes]

/-- What is read from an image is kept by an image. -/
theorem storableTable_of_ofImage {script : Script} {image : List UInt8}
    (h : ofImage image = .ok script) :
    StorableTable script.symbols.toList ∧ script.symbols.size < UInt32.size ∧
      script.code.size < UInt32.size := by
  unfold ofImage at h
  split at h
  · next symbols code rest hparts =>
    cases h
    -- The parts of an image: version, number of symbols, their order, symbols, and the code with
    -- its length.
    obtain ⟨_, _, -, hparts⟩ := exists_of_bind hparts
    obtain ⟨count, _, -, hparts⟩ := exists_of_bind hparts
    obtain ⟨_, _, -, hparts⟩ := exists_of_bind hparts
    obtain ⟨_, _, hsymbols, hparts⟩ := exists_of_bind hparts
    obtain ⟨size, _, -, hparts⟩ := exists_of_bind hparts
    obtain ⟨_, _, hcode, hparts⟩ := exists_of_bind hparts
    cases eq_of_pure hparts
    obtain ⟨hlength, hread⟩ := exists_of_times hsymbols
    refine ⟨⟨fun i hi => ?_, fun sym hsym => ?_⟩, ?_, ?_⟩
    · exact (ofParts code.toArray symbols).numbered i hi
    · -- A symbol of the table is one that was read, with its position put in.
      obtain ⟨i, hi, rfl⟩ := Array.mem_mapIdx.mp (Array.mem_toList_iff.mp hsym)
      obtain ⟨_, _, hscan⟩ := hread symbols[i] (List.getElem_mem hi)
      exact (Symbol.storable_of_scan hscan).withIndex i
    · -- Both numbers were read as words.
      have := count.toNat_lt
      simpa [ofParts, Table.ofList, hlength] using this
    · have := size.toNat_lt
      simpa [ofParts, length_of_bytes hcode] using this
  · cases h

/-- **Scripts and their images.** A symbol table of which an image keeps everything and a code
segment are read back unchanged from their image, with any version byte and any order of the
symbols. Conversely, every script that is read from some image has such a table and lengths that fit
a word, so it is read back from its own image. -/
theorem ofImage_imageOf :
    (∀ (symbols : List Symbol) (code : List UInt8) (version : UInt8) (order : List UInt32),
      StorableTable symbols → symbols.length < UInt32.size → code.length < UInt32.size →
        order.length = symbols.length →
          ∃ script, ofImage (imageOf version order symbols code) = .ok script ∧
            script.symbols.toList = symbols ∧ script.code.toList = code) ∧
    (∀ (image : List UInt8) (script : Script), ofImage image = .ok script →
      (StorableTable script.symbols.toList ∧ script.symbols.size < UInt32.size ∧
        script.code.size < UInt32.size) ∧
      ∀ (version : UInt8) (order : List UInt32), order.length = script.symbols.size →
        ofImage (imageOf version order script.symbols.toList script.code.toList) = .ok script) := by
  refine ⟨fun _ _ version _ htable hlength hcode horder =>
    exists_ofImage_imageOf version htable hlength hcode horder, fun image script h => ?_⟩
  obtain ⟨htable, hlength, hcode⟩ := storableTable_of_ofImage h
  refine ⟨⟨htable, hlength, hcode⟩, fun version order horder => ?_⟩
  obtain ⟨script', hread, hsymbols', hcode'⟩ :=
    exists_ofImage_imageOf version htable hlength hcode horder
  rw [hread, ext_symbols_code (Array.toList_inj.mp hsymbols') (Array.toList_inj.mp hcode')]

/-- A string literal and a function that returns an integer. -/
def storedSymbols : List Symbol :=
  [{ name := "\u00ff10000", kind := .string, flags := (Flags.none.add .const).add .generated,
     value := .strings ["M\u00fctze"] },
    { index := 1, name := "GIVE", kind := .func, flags := (Flags.none.add .const).add .returns,
      address := 0, parent := some 7, returnKind := .int }]

/-- The symbols of the example can be stored. -/
theorem storableTable_storedSymbols : StorableTable storedSymbols := by
  -- Each text is made of bytes without a line feed.
  have hline (bytes : List UInt8) {text : String} (htext : Text.CodePage.decode bytes = text)
      (hfeed : 10 ∉ bytes) : Text.CodePage.IsLine text :=
    htext ▸ Text.CodePage.isLine_decode hfeed
  have hliteral : Text.CodePage.IsLine "\u00ff10000" :=
    hline [0xFF, 0x31, 0x30, 0x30, 0x30, 0x30] (by decide +kernel) (by decide)
  have hvalue : Text.CodePage.IsLine "M\u00fctze" :=
    hline [0x4D, 0xFC, 0x74, 0x7A, 0x65] (by decide +kernel) (by decide)
  have hfunction : Text.CodePage.IsLine "GIVE" :=
    hline [0x47, 0x49, 0x56, 0x45] (by decide +kernel) (by decide)
  constructor
  · decide
  · intro sym hsym
    rcases List.mem_cons.mp hsym with rfl | hsym
    · refine ⟨⟨⟨hliteral, by decide, by decide, by decide, by decide, by decide, by decide⟩, ?_,
        by decide, by decide⟩, ?_⟩
      · exact ⟨_, rfl, rfl, by simpa using hvalue⟩
      · intro parent hparent
        cases hparent
    · obtain rfl := List.mem_singleton.mp hsym
      refine ⟨⟨⟨hfunction, by decide, by decide, by decide, by decide, by decide, by decide⟩, rfl,
        by decide, by decide⟩, ?_⟩
      intro parent hparent
      cases hparent
      decide

/-- A script is read back from its image, also in another order and version. -/
theorem ofImage_imageOf_storedSymbols :
    StorableTable storedSymbols ∧
      ∃ script, ofImage (imageOf 50 [1, 0] storedSymbols [60]) = .ok script ∧
        script.symbols.toList = storedSymbols ∧ script.code.toList = [60] ∧
        ofImage (imageOf 0 [0, 0] script.symbols.toList script.code.toList) = .ok script := by
  refine ⟨storableTable_storedSymbols, ?_⟩
  obtain ⟨script, himage, hsymbols, hcode⟩ := ofImage_imageOf.1 storedSymbols [60] 50 [1, 0]
    storableTable_storedSymbols (by decide) (by decide) (by decide)
  have hsize : [0, 0].length = script.symbols.size :=
    (congrArg List.length hsymbols).symm
  exact ⟨script, himage, hsymbols, hcode, (ofImage_imageOf.2 _ script himage).2 0 [0, 0] hsize⟩

end Script

end Daedalus
