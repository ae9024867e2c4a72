import Daedalus.Proofs.Lookups
import Daedalus.Proofs.Usages

/-! # The callables that enclose usages

The search for usages comes through the code from its start and attributes each usage to the callable
that it has entered last. If all entry points within the code are boundaries of instructions, none of
them is passed over, so this is the callable at the last entry point that is not behind the usage: the
one in whose body the instruction stands. -/

namespace Daedalus

/-! ### Boundaries of instructions -/

/-- Decoding the code from its start, one instruction behind the other, comes to a position. -/
inductive Boundary (code : Code) : Nat → Prop where
  | start : Boundary code 0
  | behind {pc : Nat} {instr : Instr} (h : Boundary code pc) (hdecode : decode code pc = .ok instr) :
    Boundary code instr.next

variable {code : Code} {pc start : Nat} {ops : List Operation} {instr : Instr}

/-- A boundary in code that is filled with operations lies behind the first ones of them. -/
theorem Boundary.exists_append (hfills : Fills code 0 ops) (h : Boundary code pc) :
    ∃ before after, ops = before ++ after ∧ byteSize before = pc := by
  induction h with
  | start => exact ⟨[], ops, rfl, rfl⟩
  | @behind pc instr _ hdecode ih =>
    obtain ⟨before, after, rfl, rfl⟩ := ih
    obtain ⟨-, hafter⟩ := (placed_append code 0 before after).mp hfills.placed
    rw [Nat.zero_add] at hafter
    cases after with
    | nil =>
      -- All operations lie before the boundary, so nothing could be decoded there.
      have hsize := hfills.size
      rw [List.append_nil, Nat.zero_add] at hsize
      have hlt := lt_next_of_decode hdecode
      have hle := next_le_of_decode hdecode
      omega
    | cons op after =>
      obtain rfl := Except.ok.inj (hdecode.symm.trans hafter.1)
      exact ⟨before ++ [op], after, by simp, by simp [Instr.next]⟩

/-- Instructions that stand in the code from a boundary on start at boundaries. -/
theorem Boundary.of_mem_instrsAt (h : Boundary code start) (hplaced : Placed code start ops)
    (hinstr : instr ∈ instrsAt start ops) : Boundary code instr.pc := by
  induction ops generalizing start with
  | nil => cases hinstr
  | cons op ops ih =>
    rcases List.mem_cons.mp hinstr with rfl | hinstr
    · exact h
    · exact ih (h.behind hplaced.1) hplaced.2 hinstr

/-- **In code that is filled with operations, the boundaries are where its instructions start.** -/
theorem boundary_iff (hfills : Fills code 0 ops) (hpc : pc < code.size) :
    Boundary code pc ↔ ∃ instr ∈ instrsAt 0 ops, instr.pc = pc := by
  constructor
  · intro h
    -- A boundary splits the operations. Behind the last one there is one more, the end of the code.
    obtain ⟨before, after, rfl, rfl⟩ := h.exists_append hfills
    cases after with
    | nil =>
      have hsize := hfills.size
      rw [List.append_nil, Nat.zero_add] at hsize
      exact absurd hsize (Nat.ne_of_lt hpc)
    | cons op after =>
      refine ⟨⟨byteSize before, op⟩, ?_, rfl⟩
      rw [instrsAt_append, Nat.zero_add]
      exact List.mem_append_right _ List.mem_cons_self
  · rintro ⟨instr, hinstr, rfl⟩
    exact Boundary.start.of_mem_instrsAt hfills.placed hinstr

namespace Script

variable {script : Script} {sym callable callable' : Symbol} {found : List Usage} {usage : Usage}
  {instrs before after : List Instr} {entry entry' : UInt32}

/-! ### Entry points -/

/-- The lookup by address gives a callable. -/
def IsEntry (script : Script) (address : UInt32) : Prop := (script.callableAt? address).isSome = true

/-- The entry points within the code are boundaries of instructions. -/
def EntersAtBoundaries (script : Script) : Prop :=
  ∀ entry, script.IsEntry entry → entry.toNat < script.code.size → Boundary script.code entry.toNat

/-- A callable starts at the last entry point that is not behind a position. -/
structure LastEntry (script : Script) (pc : Nat) (callable : Symbol) (entry : UInt32) : Prop where
  found : script.callableAt? entry = some callable
  before : entry.toNat ≤ pc
  last : ∀ other, script.IsEntry other → other.toNat ≤ pc → other ≤ entry

/-- A callable that is found at an address starts there. -/
theorem isEntry_of_eq_some (h : script.callableAt? entry = some callable) : script.IsEntry entry := by
  rw [IsEntry, h]
  rfl

/-- There is one last entry point at most. -/
theorem LastEntry.unique (h : script.LastEntry pc callable entry)
    (h' : script.LastEntry pc callable' entry') : callable = callable' := by
  have hle := h'.last entry (isEntry_of_eq_some h.found) h.before
  have hge := h.last entry' (isEntry_of_eq_some h'.found) h'.before
  obtain rfl := UInt32.le_antisymm hle hge
  exact Option.some.inj (h.found.symm.trans h'.found)

/-! ### The way to a usage -/

/-- The callable that starts with an instruction. -/
def enteredBy (script : Script) (instr : Instr) : Option Symbol :=
  script.callableAt? (UInt32.ofNat instr.pc)

/-- The enclosing callable is the one that starts with the instruction, or else the one before. -/
theorem enclosing_eq (within : Option Symbol) (instr : Instr) :
    script.enclosing within instr = (script.enteredBy instr).or within := Option.orElse_eq_or

/-- What is entered last is found first on the way back. -/
theorem foldl_enclosing_eq (instrs : List Instr) (within : Option Symbol) :
    instrs.foldl script.enclosing within =
      (instrs.reverse.findSome? script.enteredBy).or within := by
  induction instrs generalizing within with
  | nil => rfl
  | cons instr instrs ih =>
    rw [List.foldl_cons, ih, enclosing_eq, List.reverse_cons, List.findSome?_append,
      List.findSome?_singleton, Option.or_assoc]

/-- Instructions lead from a position in the code back to its start. -/
structure WayBack (script : Script) (pc : Nat) (way : List Instr) : Prop where
  inside : pc < script.code.size
  /-- No instruction stands behind the position. -/
  before : ∀ instr ∈ way, instr.pc ≤ pc
  /-- The positions go down. -/
  descending : way.Pairwise fun later earlier => earlier.pc < later.pc
  /-- No boundary up to the position is passed over. -/
  passes : ∀ boundary ≤ pc, Boundary script.code boundary → ∃ instr ∈ way, instr.pc = boundary

/-- From an instruction of the code, the instructions up to it lead back. -/
theorem wayBack_of_instrsAt (hfills : Fills script.code 0 ops)
    (hinstrs : instrsAt 0 ops = before ++ instr :: after) :
    script.WayBack instr.pc (before ++ [instr]).reverse := by
  rw [← List.singleton_append, ← List.append_assoc] at hinstrs
  -- Instructions stand in the order of their addresses, so those in front are below.
  have hordered := instrsAt_pairwise 0 ops
  rw [hinstrs, List.pairwise_append] at hordered
  obtain ⟨hway, -, hafter⟩ := hordered
  have hinside : instr.pc < script.code.size := by
    have hmem : instr ∈ instrsAt 0 ops := by simp [hinstrs]
    have hdecode := decode_of_mem_instrsAt hfills.placed hmem
    exact Nat.lt_of_lt_of_le (lt_next_of_decode hdecode) (next_le_of_decode hdecode)
  refine ⟨hinside, fun other hother => ?_, List.pairwise_reverse.mpr hway,
    fun boundary hle hboundary => ?_⟩
  · rw [List.mem_reverse, List.mem_append, List.mem_singleton] at hother
    obtain ⟨-, -, hbefore⟩ := List.pairwise_append.mp hway
    rcases hother with hother | rfl
    · exact Nat.le_of_lt (hbefore other hother instr List.mem_cons_self)
    · exact Nat.le_refl _
  · -- The instruction at a boundary is not one of those behind.
    obtain ⟨other, hother, rfl⟩ :=
      (boundary_iff hfills (Nat.lt_of_le_of_lt hle hinside)).mp hboundary
    rw [hinstrs] at hother
    rcases List.mem_append.mp hother with hother | hother
    · exact ⟨other, List.mem_reverse.mpr hother, rfl⟩
    · exact absurd hle (Nat.not_le.mpr (hafter instr (by simp) other hother))

namespace WayBack

variable {way : List Instr}

/-- A way back passes the entry points up to its position. -/
theorem exists_enters (hway : script.WayBack pc way) (hentries : script.EntersAtBoundaries)
    (hentry : script.IsEntry entry) (hle : entry.toNat ≤ pc) :
    ∃ instr ∈ way, instr.pc = entry.toNat ∧ (script.enteredBy instr).isSome = true := by
  have hboundary := hentries entry hentry (Nat.lt_of_le_of_lt hle hway.inside)
  obtain ⟨instr, hinstr, hpc⟩ := hway.passes entry.toNat hle hboundary
  refine ⟨instr, hinstr, hpc, ?_⟩
  rw [enteredBy, hpc, UInt32.ofNat_toNat]
  exact hentry

/-- What is found first on the way back starts at the last entry point. -/
theorem exists_lastEntry (hway : script.WayBack pc way) (hentries : script.EntersAtBoundaries)
    (hsize : script.code.size < UInt32.size)
    (h : way.findSome? script.enteredBy = some callable) :
    ∃ entry, script.LastEntry pc callable entry := by
  obtain ⟨later, instr, earlier, rfl, hfound, hlater⟩ := List.findSome?_eq_some_iff.mp h
  have hle : instr.pc ≤ pc := hway.before instr (by simp)
  have hpc : (UInt32.ofNat instr.pc).toNat = instr.pc :=
    UInt32.toNat_ofNat_of_lt' (Nat.lt_trans (Nat.lt_of_le_of_lt hle hway.inside) hsize)
  refine ⟨UInt32.ofNat instr.pc, hfound, Nat.le_trans (Nat.le_of_eq hpc) hle,
    fun other hother hbefore => ?_⟩
  obtain ⟨passed, hpassed, hother, henters⟩ := hway.exists_enters hentries hother hbefore
  rw [UInt32.le_iff_toNat_le, hpc, ← hother]
  -- Nothing is entered behind what is found first, so the other one is it or stands before it.
  obtain ⟨-, hdescending, -⟩ := List.pairwise_append.mp hway.descending
  rcases List.mem_append.mp hpassed with hpassed | hpassed
  · rw [hlater passed hpassed] at henters
    cases henters
  · rcases List.mem_cons.mp hpassed with rfl | hpassed
    · exact Nat.le_refl _
    · exact Nat.le_of_lt ((List.pairwise_cons.mp hdescending).1 passed hpassed)

/-- Nothing is found on the way back if all entry points are behind the position. -/
theorem findSome?_eq_none_iff (hway : script.WayBack pc way) (hentries : script.EntersAtBoundaries)
    (hsize : script.code.size < UInt32.size) :
    way.findSome? script.enteredBy = none ↔ ∀ entry, script.IsEntry entry → pc < entry.toNat := by
  constructor
  · intro hnone entry hentry
    refine Nat.not_le.mp fun hle => ?_
    obtain ⟨instr, hinstr, -, henters⟩ := hway.exists_enters hentries hentry hle
    rw [List.findSome?_eq_none_iff.mp hnone instr hinstr] at henters
    cases henters
  · intro hbehind
    refine Option.eq_none_iff_forall_ne_some.mpr fun callable h => ?_
    obtain ⟨entry, hentry⟩ := hway.exists_lastEntry hentries hsize h
    exact Nat.not_lt.mpr hentry.before (hbehind entry (isEntry_of_eq_some hentry.found))

/-- **The callable that is found first on the way back is the one at the last entry point.** -/
theorem findSome?_eq_some_iff (hway : script.WayBack pc way) (hentries : script.EntersAtBoundaries)
    (hsize : script.code.size < UInt32.size) :
    way.findSome? script.enteredBy = some callable ↔
      ∃ entry, script.LastEntry pc callable entry := by
  refine ⟨hway.exists_lastEntry hentries hsize, ?_⟩
  rintro ⟨entry, hentry⟩
  cases hfound : way.findSome? script.enteredBy with
  | none =>
    have hbehind := (hway.findSome?_eq_none_iff hentries hsize).mp hfound entry
      (isEntry_of_eq_some hentry.found)
    exact absurd hentry.before (Nat.not_le.mpr hbehind)
  | some other =>
    obtain ⟨entry', hentry'⟩ := hway.exists_lastEntry hentries hsize hfound
    rw [hentry'.unique hentry]

end WayBack

/-! ### Attribution -/

/-- Usages are attributed to the callables that enclose them. -/
structure Attributed (script : Script) (found : List Usage) : Prop where
  /-- A usage is attributed to the callable at the last entry point that is not behind it. -/
  enclosing : ∀ usage ∈ found, ∀ callable, usage.within = some callable ↔
    ∃ entry, script.LastEntry usage.instr.pc callable entry
  /-- A usage is attributed to no callable if and only if all entry points are behind it. -/
  outside : ∀ usage ∈ found, usage.within = none ↔
    ∀ entry, script.IsEntry entry → usage.instr.pc < entry.toNat
  /-- A usage at an entry point is attributed to the callable that starts there. -/
  atEntry : ∀ usage ∈ found, ∀ entry callable, entry.toNat = usage.instr.pc →
    script.callableAt? entry = some callable → usage.within = some callable

/-- **Usages are attributed to the callables that enclose them**, if the entry points within the code
are boundaries of instructions. -/
theorem usages_attributed (hsize : script.code.size < UInt32.size)
    (hentries : script.EntersAtBoundaries) (h : script.usages sym = .ok found) :
    script.Attributed found := by
  -- What the search remembers is the first entry that one meets on the way back.
  have hwithin (usage : Usage) (husage : usage ∈ found) :
      ∃ way, script.WayBack usage.instr.pc way ∧
        usage.within = way.findSome? script.enteredBy := by
    obtain ⟨ops, before, after, hfills, hinstrs, hwithin⟩ := exists_append_of_mem_usages h husage
    refine ⟨_, wayBack_of_instrsAt hfills hinstrs, ?_⟩
    rw [hwithin, lastEntered, foldl_enclosing_eq, Option.or_none]
  refine ⟨fun usage husage callable => ?_, fun usage husage => ?_,
    fun usage husage entry callable hpc hcallable => ?_⟩
  · obtain ⟨way, hway, hwithin⟩ := hwithin usage husage
    rw [hwithin, hway.findSome?_eq_some_iff hentries hsize]
  · obtain ⟨way, hway, hwithin⟩ := hwithin usage husage
    rw [hwithin, hway.findSome?_eq_none_iff hentries hsize]
  · refine within_of_mem_usages h husage ?_
    rw [← hpc, UInt32.ofNat_toNat, hcallable]

/-- The code of two functions behind some code that belongs to none. -/
def gapOps : List Operation :=
  [.pushVar 2, .ret, .pushVar 2, .call 17, .ret, .pushVar 2, .ret]

/-- A script with this code, whose second function shares its address with an instance. -/
def gapScript : Script :=
  .ofParts (encodeAll gapOps).toArray
    [{ name := "MAIN", kind := .func, flags := Flags.none.add .const, address := 6 },
      { name := "SELF", kind := .inst, address := 17 }, { name := "GOLD", kind := .int },
      { name := "HELPER", kind := .func, flags := Flags.none.add .const, address := 17 }]

/-- Two usages in a script with a gap between its callables, each with the callable in which it is
reported. -/
theorem usages_gapScript :
    gapScript.code.size < UInt32.size ∧ gapScript.EntersAtBoundaries ∧
    ∃ found, gapScript.usages { name := "GOLD", kind := .int, index := 2 } = .ok found ∧
      found.map Usage.text = ["[PUSHV 00000002] at 00000000 in ???",
        "[PUSHV 00000002] at 00000006 in MAIN", "[PUSHV 00000002] at 00000011 in HELPER"] ∧
      gapScript.Attributed found := by
  have hsize : gapScript.code.size < UInt32.size := by decide
  have hentries : gapScript.EntersAtBoundaries := by
    intro entry hentry hinside
    obtain ⟨callable, hcallable⟩ := Option.isSome_iff_exists.mp hentry
    obtain rfl := Table.address_of_callableAt? hcallable
    -- Each symbol starts at an instruction of the code, so no entry point is within one.
    have hstarts : ∀ sym ∈ gapScript.symbols.toList,
        ∃ instr ∈ instrsAt 0 gapOps, instr.pc = sym.address.toNat := by decide +kernel
    have hbytes : gapScript.code.toList = encodeAll gapOps := rfl
    exact (boundary_iff (fills_iff.mpr hbytes) hinside).mpr
      (hstarts callable (Table.mem_of_callableAt? hcallable))
  have htexts : (gapScript.usages { name := "GOLD", kind := .int, index := 2 }).toOption.map
      (List.map Usage.text) = some ["[PUSHV 00000002] at 00000000 in ???",
        "[PUSHV 00000002] at 00000006 in MAIN", "[PUSHV 00000002] at 00000011 in HELPER"] := by
    decide +kernel
  obtain ⟨found, hfound, htexts⟩ := Option.map_eq_some_iff.mp htexts
  have hfound := eq_ok_of_toOption hfound
  exact ⟨hsize, hentries, found, hfound, htexts, usages_attributed hsize hentries hfound⟩

end Script

end Daedalus
