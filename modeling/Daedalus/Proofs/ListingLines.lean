import Daedalus.Proofs.Encoding
import Daedalus.Proofs.Results

/-! # What the lines of a listing show

A line of a listing shows the address of an instruction and its bytes in two columns. They are read
back as hexadecimal digits here, without regard to how the columns are written: the addresses and the
bytes on the lines of a listing are those of the listed instructions.

The main result is `Outline.listing_function`: whatever stands behind a function whose returns but the
last one are inside arms, its listing shows the addresses and the bytes of its instructions, each once
and in the order of the code. -/

namespace Daedalus

open Text

/-! ### Hexadecimal digits -/

/-- The value of a hexadecimal digit in lower case. -/
def hexDigit? (c : Char) : Option Nat :=
  if '0' ≤ c ∧ c ≤ '9' then some (c.toNat - 48)
  else if 'a' ≤ c ∧ c ≤ 'f' then some (c.toNat - 87)
  else none

/-- The number that hexadecimal digits stand for, at least one. -/
def readHex? : List Char → Option Nat
  | [] => none
  | digits => digits.foldlM (fun n c => (16 * n + ·) <$> hexDigit? c) 0

/-- The bytes that pairs of hexadecimal digits stand for. -/
def readBytes? : List Char → Option (List UInt8)
  | [] => some []
  | [_] => none
  | high :: low :: rest => do
    let high ← hexDigit? high
    let low ← hexDigit? low
    let bytes ← readBytes? rest
    pure (UInt8.ofNat (16 * high + low) :: bytes)

/-- Bytes in hexadecimal, each with a blank behind it. -/
def spacedHex (bytes : List UInt8) : List Char :=
  bytes.flatMap fun b => (hexByte b).toList ++ [' ']

/-- A byte is written with two digits. -/
theorem toList_hexByte (b : UInt8) :
    (hexByte b).toList = [Nat.digitChar (b.toNat / 16), Nat.digitChar (b.toNat % 16)] := by
  have hall : ∀ n < 256, (padLeft '0' 2 (hex n)).toList =
      [Nat.digitChar (n / 16), Nat.digitChar (n % 16)] := by
    decide +kernel
  exact hall b.toNat b.toNat_lt

/-- A digit stands for its value. -/
theorem hexDigit?_digitChar {n : Nat} (h : n < 16) : hexDigit? (Nat.digitChar n) = some n := by
  have hall : ∀ n < 16, hexDigit? (Nat.digitChar n) = some n := by decide
  exact hall n h

/-- No digit is a blank. -/
theorem digitChar_ne_blank {n : Nat} (h : n < 16) : Nat.digitChar n ≠ ' ' := by
  have hall : ∀ n < 16, Nat.digitChar n ≠ ' ' := by decide
  exact hall n h

/-- Each byte takes three characters. -/
theorem length_spacedHex (bytes : List UInt8) : (spacedHex bytes).length = 3 * bytes.length := by
  induction bytes with
  | nil => rfl
  | cons b bytes ih =>
    rw [spacedHex, List.flatMap_cons, ← spacedHex, List.length_append, ih, toList_hexByte]
    simp only [List.cons_append, List.nil_append, List.length_cons, List.length_nil]
    omega

/-- The digits of a number are read back one by one. -/
theorem foldlM_toDigits (n : Nat) :
    (Nat.toDigits 16 n).foldlM (fun n c => (16 * n + ·) <$> hexDigit? c) 0 = some n := by
  induction n using Nat.strongRecOn with
  | ind n ih =>
    rw [Nat.toDigits_eq_if (by decide)]
    split
    · next hlt => simp [hexDigit?_digitChar hlt]
    · next hge =>
      -- The last digit stands for the remainder, the others for the quotient.
      have hrest := ih (n / 16) (Nat.div_lt_self (by omega) (by decide))
      have hlast := hexDigit?_digitChar (Nat.mod_lt n (show 0 < 16 by decide))
      rw [List.foldlM_append, hrest]
      simp [hlast, Nat.div_add_mod]

/-- A number in hexadecimal is read back. -/
theorem readHex?_hex (n : Nat) : readHex? (hex n).toList = some n := by
  have hdigits : (hex n).toList = Nat.toDigits 16 n := String.toList_ofList
  obtain ⟨c, cs, hcs⟩ := List.exists_cons_of_ne_nil (Nat.toDigits_ne_nil (n := n) (b := 16))
  rw [hdigits, hcs, readHex?, ← hcs]
  · exact foldlM_toDigits n
  · exact List.cons_ne_nil c cs

/-- Bytes in hexadecimal are read back, blanks apart. -/
theorem readBytes?_filter_spacedHex (bytes : List UInt8) :
    readBytes? ((spacedHex bytes).filter (· != ' ')) = some bytes := by
  induction bytes with
  | nil => rfl
  | cons b bytes ih =>
    have hhigh : b.toNat / 16 < 16 := Nat.div_lt_of_lt_mul b.toNat_lt
    have hlow : b.toNat % 16 < 16 := Nat.mod_lt _ (by decide)
    have hdigits : ((hexByte b).toList ++ [' ']).filter (· != ' ') =
        [Nat.digitChar (b.toNat / 16), Nat.digitChar (b.toNat % 16)] := by
      simp [toList_hexByte, digitChar_ne_blank hhigh, digitChar_ne_blank hlow]
    rw [spacedHex, List.flatMap_cons, ← spacedHex, List.filter_append, hdigits]
    simp only [List.cons_append, List.nil_append, readBytes?, hexDigit?_digitChar hhigh,
      hexDigit?_digitChar hlow, ih, Option.bind_eq_bind, Option.bind_some, Nat.div_add_mod,
      UInt8.ofNat_toNat]
    rfl

/-! ### Columns -/

/-- The address column of a line of a listing: the characters up to the colon. -/
def addressColumn (line : String) : List Char := line.toList.takeWhile (· != ':')

/-- The byte column of a line of a listing: the eighteen characters behind the tabulator. -/
def byteColumn (line : String) : List Char :=
  ((line.toList.dropWhile (· != '\t')).drop 1).take 18

/-- The bytes that the columns of lines show one behind the other, blanks apart. -/
def shownBytes? (lines : List String) : Option (List UInt8) :=
  readBytes? ((lines.flatMap byteColumn).filter (· != ' '))

/-- The address and the bytes that a line of a listing shows in its columns, blanks apart. -/
def shownInstr? (line : String) : Option (Nat × List UInt8) := do
  let address ← readHex? ((addressColumn line).filter (· != ' '))
  let bytes ← readBytes? ((byteColumn line).filter (· != ' '))
  pure (address, bytes)

/-- No instruction is longer than the one with a word and a byte. -/
theorem Operation.size_le (op : Operation) : op.size ≤ 6 := by
  cases op <;> simp [Operation.size, Operation.opcode, Opcode.size, Opcode.operandSize]

namespace Script

variable {script : Script} {pc : Nat}

/-- The bytes of an instruction fit into the column, and blanks fill it up. -/
theorem toList_bytesColumn (script : Script) (instr : Instr) :
    let bytes := (script.code.extract instr.pc instr.next).toList
    (script.bytesColumn instr).toList =
      spacedHex bytes ++ List.replicate (18 - 3 * bytes.length) ' ' := by
  intro bytes
  have hjoin : (String.join (bytes.map fun byte => hexByte byte ++ " ")).toList =
      spacedHex bytes := by
    simp [String.toList_join, List.flatMap_map, spacedHex]
  rw [bytesColumn, padRight, String.toList_append, ← String.length_toList, hjoin, length_spacedHex,
    spaces, String.toList_ofList]

/-- The digits of an address are neither blanks nor tabulators nor colons. -/
theorem digit_of_mem_hex {n : Nat} :
    ∀ c ∈ (hex n).toList, (c != ' ') = true ∧ (c != '\t') = true ∧ (c != ':') = true := by
  have hdigit : ∀ d < 16, (Nat.digitChar d != ' ') = true ∧ (Nat.digitChar d != '\t') = true ∧
      (Nat.digitChar d != ':') = true := by decide
  rw [hex, String.toList_ofList]
  exact forall_mem_toDigits (by decide) hdigit n

/-- The address in front of the colon has no tabulator and no colon. -/
theorem of_mem_address {n : Nat} {c : Char} (h : c ∈ (padLeft ' ' 8 (hex n)).toList) :
    (c != '\t') = true ∧ (c != ':') = true := by
  simp only [padLeft, String.toList_append, String.toList_ofList, List.mem_append,
    List.mem_replicate] at h
  rcases h with ⟨-, rfl⟩ | h
  · decide
  · exact (digit_of_mem_hex c h).2

/-- Blanks apart, the address column of a line holds the address of its instruction. -/
theorem filter_addressColumn (script : Script) (instr : Instr) :
    (addressColumn (script.listingLine instr)).filter (· != ' ') = (hex instr.pc).toList := by
  have hline : (script.listingLine instr).toList = (padLeft ' ' 8 (hex instr.pc)).toList ++ ':' ::
      ("\t" ++ script.bytesColumn instr ++ " " ++ script.annotated instr.op).toList := by
    simp [listingLine]
  rw [addressColumn, hline, List.takeWhile_append_of_pos fun c hc => (of_mem_address hc).2,
    List.takeWhile_cons_of_neg (by decide), List.append_nil, padLeft, String.toList_append,
    String.toList_ofList, List.filter_append, List.filter_replicate, if_neg (by decide),
    List.nil_append, List.filter_eq_self]
  exact fun c hc => (digit_of_mem_hex c hc).1

/-- Blanks apart, the byte column of a line holds the bytes of its instruction. -/
theorem filter_byteColumn (script : Script) (instr : Instr) :
    (byteColumn (script.listingLine instr)).filter (· != ' ') =
      (spacedHex (script.code.extract instr.pc instr.next).toList).filter (· != ' ') := by
  have hcolumn := script.toList_bytesColumn instr
  have hwidth : (script.bytesColumn instr).toList.length = 18 := by
    have hsize := instr.op.size_le
    rw [hcolumn, List.length_append, length_spacedHex, List.length_replicate, Array.length_toList,
      Array.size_extract, Instr.next]
    omega
  -- The line is the address, the column and the operation.
  have haddress : ∀ c ∈ (padLeft ' ' 8 (hex instr.pc)).toList ++ [':'], (c != '\t') = true := by
    intro c hc
    rcases List.mem_append.mp hc with hc | hc
    · exact (of_mem_address hc).1
    · exact List.mem_singleton.mp hc ▸ by decide
  have hline : (script.listingLine instr).toList =
      ((padLeft ' ' 8 (hex instr.pc)).toList ++ [':']) ++ ('\t' ::
        ((script.bytesColumn instr).toList ++ (" " ++ script.annotated instr.op).toList)) := by
    simp [listingLine]
  rw [byteColumn, hline, List.dropWhile_append_of_pos haddress, List.dropWhile_cons_of_neg (by simp),
    List.drop_one, List.tail_cons, List.take_left' hwidth, hcolumn, List.filter_append,
    List.filter_replicate]
  simp

/-- **A line shows its instruction**: its columns hold the address of the instruction and the bytes of
its encoding. -/
theorem shownInstr?_listingLine {instr : Instr} (h : decode script.code instr.pc = .ok instr) :
    shownInstr? (script.listingLine instr) = some (instr.pc, instr.op.encode) := by
  rw [shownInstr?, filter_addressColumn, readHex?_hex, filter_byteColumn, extract_of_decode h,
    readBytes?_filter_spacedHex]
  rfl

/-- **The columns of listed code show the code.** -/
theorem shownBytes?_placed {ops : List Operation} (hplaced : Placed script.code pc ops) :
    shownBytes? ((instrsAt pc ops).map script.listingLine) =
      some (script.code.extract pc (pc + byteSize ops)).toList := by
  have hcolumns : (((instrsAt pc ops).map script.listingLine).flatMap byteColumn).filter
      (· != ' ') = (spacedHex (script.code.extract pc (pc + byteSize ops)).toList).filter
        (· != ' ') := by
    induction ops generalizing pc with
    | nil => simp [instrsAt, spacedHex]
    | cons op ops ih =>
      have hbytes : script.code.extract pc (pc + byteSize (op :: ops)) =
          script.code.extract pc (pc + op.size) ++
            script.code.extract (pc + op.size) (pc + op.size + byteSize ops) := by
        rw [Array.extract_append_extract, Nat.min_eq_left (Nat.le_add_right _ _),
          Nat.max_eq_right (Nat.le_add_right _ _), byteSize_cons, Nat.add_assoc]
      rw [instrsAt, List.map_cons, List.flatMap_cons, List.filter_append, filter_byteColumn,
        ih hplaced.2, hbytes, Array.toList_append, spacedHex, spacedHex, spacedHex,
        List.flatMap_append, List.filter_append]
      rfl
  rw [shownBytes?, hcolumns, readBytes?_filter_spacedHex]

end Script

namespace Outline

/-- **The end of a listing.** The code of a function may have chains of arms in each other, returns
inside arms and dead code behind these; outside arms, its only return is the last operation. Then just
the instructions of the function are listed, whatever stands behind it: the lines below the title show
their addresses and their bytes, those of each instruction once, in the order of the addresses. -/
theorem listing_function {script : Script} {sym : Symbol} {o : Outline} {before after : List UInt8}
    (hexternal : sym.isExternal = false) (hkind : sym.kind.isCallable = true)
    (hreturns : o.returnsInArms = true) (haddress : before.length = sym.address.toNat)
    (hcode : script.code.toList =
      before ++ (encodeAll (o.function sym.address.toNat) ++ after))
    (hsize : sym.address.toNat + byteSize (o.function sym.address.toNat) < UInt32.size) :
    let instrs := instrsAt sym.address.toNat (o.function sym.address.toNat)
    script.listed sym = .ok instrs ∧
      ∃ lines, script.listing sym =
          .ok (unlines ((hexWord sym.address.toNat ++ " <" ++ sym.name ++ ">:") :: lines)) ∧
        lines.map shownInstr? = instrs.map fun instr => some (instr.pc, instr.op.encode) := by
  intro instrs
  -- The function stands in the code, so decoding from its address on gives its instructions.
  have hplaced : Placed script.code sym.address.toNat (o.function sym.address.toNat) := by
    have hstart := placed_of_encodeAll hcode
    rwa [haddress] at hstart
  have hlisted : script.listed sym = .ok instrs := listed_function hreturns hplaced hsize
  refine ⟨hlisted, instrs.map script.listingLine, ?_, ?_⟩
  · rw [Script.listing, if_neg (by simp [hexternal]), if_neg (by simp [hkind]), hlisted]
    refine congrArg Except.ok ?_
    simp [Script.listingTitle, unlines, String.join_cons, String.append_assoc]
  · rw [List.map_map]
    exact List.map_congr_left fun instr hinstr =>
      Script.shownInstr?_listingLine (decode_of_mem_instrsAt hplaced hinstr)

/-- A return that is followed by dead code in an arm, and an arm without a condition that begins
with a chain in which there is another return. -/
def earlyReturns : Outline :=
  .chain
    (.orElse [⟨.pushVar 1, rfl, nofun⟩]
      (.ret (.plain ⟨.pushInt 5, rfl, nofun⟩ .done))
      (.chain (.only [⟨.pushVar 2, rfl, nofun⟩] (.ret .done))
        (.plain ⟨.callExternal 3, rfl, nofun⟩ .done)))
    .done

/-- The function. -/
def earlyCallable : Symbol :=
  { name := "F", kind := .func, flags := Flags.none.add .const, address := 1 }

/-- A script with this function between a return and code that breaks off. -/
def earlyScript : Script :=
  .ofParts (#[0x3c] ++ (encodeAll (earlyReturns.function 1)).toArray ++ #[0x40, 1, 0])
    [earlyCallable, { name := "A", kind := .int }, { name := "B", kind := .int },
      { name := "HOST", kind := .func, flags := Flags.none.add .external }]

/-- The listing of the function. -/
def earlyListing : String := unlines
  ["00000001 <F>:",
    "       1:\t41 01 00 00 00     PUSHV 00000001 ; <A>",
    "       6:\t4c 16 00 00 00     BZ 00000016",
    "       b:\t3c                 RSR",
    "       c:\t40 05 00 00 00     PUSHI 5",
    "      11:\t4b 26 00 00 00     B 00000026",
    "      16:\t41 02 00 00 00     PUSHV 00000002 ; <B>",
    "      1b:\t4c 21 00 00 00     BZ 00000021",
    "      20:\t3c                 RSR",
    "      21:\t3e 03 00 00 00     BE 00000003 ; <HOST>",
    "      26:\t3c                 RSR"]

/-- What the lines of the listing show: addresses and bytes. -/
def earlyShown : List (Nat × List UInt8) :=
  [(0x01, [0x41, 1, 0, 0, 0]), (0x06, [0x4c, 0x16, 0, 0, 0]), (0x0b, [0x3c]),
    (0x0c, [0x40, 5, 0, 0, 0]), (0x11, [0x4b, 0x26, 0, 0, 0]), (0x16, [0x41, 2, 0, 0, 0]),
    (0x1b, [0x4c, 0x21, 0, 0, 0]), (0x20, [0x3c]), (0x21, [0x3e, 3, 0, 0, 0]), (0x26, [0x3c])]

/-- A function that returns early in two arms: its instructions, the text of its listing, and what
the lines of this text show. -/
theorem listed_earlyReturns :
    earlyReturns.returnsInArms = true ∧
      earlyScript.listed earlyCallable = .ok (instrsAt 1 (earlyReturns.function 1)) ∧
      earlyScript.listing earlyCallable = .ok earlyListing ∧
      ∃ lines, earlyListing = unlines ("00000001 <F>:" :: lines) ∧
        lines.map shownInstr? = earlyShown.map some := by
  have hcode : earlyScript.code.toList =
      [0x3c] ++ (encodeAll (earlyReturns.function 1) ++ [0x40, 1, 0]) := by
    decide +kernel
  have hlisting : earlyScript.listing earlyCallable = .ok earlyListing :=
    eq_ok_of_toOption (by decide +kernel)
  have htitle : hexWord earlyCallable.address.toNat ++ " <" ++ earlyCallable.name ++ ">:" =
      "00000001 <F>:" := by decide +kernel
  obtain ⟨hlisted, lines, hlines, hshown⟩ :=
    @listing_function earlyScript earlyCallable earlyReturns [0x3c] [0x40, 1, 0] rfl rfl rfl rfl
      hcode (by decide +kernel)
  rw [htitle] at hlines
  have hinstrs : (instrsAt 1 (earlyReturns.function 1)).map
      (fun instr => some (instr.pc, instr.op.encode)) = earlyShown.map some := by decide +kernel
  refine ⟨rfl, hlisted, hlisting, lines, ?_, hshown.trans hinstrs⟩
  exact Except.ok.inj (hlisting.symm.trans hlines)

end Outline

end Daedalus
