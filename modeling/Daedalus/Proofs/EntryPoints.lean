import Daedalus.Proofs.Lookups
import Daedalus.Proofs.Usages
import Daedalus.Recovery.Sources

/-! # Callables at one address

Several callables of a symbol table can have the same address. A lookup prefers those with the const
flag, and among these or the others it gives the first one of the table.

Recovered sources have a body for const functions and instances that are no members, and for all
prototypes that are no members. So the first of the symbols with a body is found at their address
unless a const member stands before it, or it is a prototype without the flag and some other callable
goes before it. -/

namespace Daedalus

open Index

/-- Whether a lookup by address prefers one callable to another. -/
def Symbol.Overtakes (first second : Symbol) : Prop :=
  first.isConst = true ∧ second.isConst = false ∨
    first.isConst = second.isConst ∧ first.index < second.index

/-- Symbols with a body are found by their address. -/
theorem Symbol.hasEntryPoint_of_hasBody {sym : Symbol} (h : sym.hasBody = true) :
    hasEntryPoint sym = true := by
  obtain ⟨-, hdefines⟩ := Bool.and_eq_true_iff.mp h
  obtain ⟨hexternal, hkind⟩ := Bool.and_eq_true_iff.mp hdefines
  refine Bool.and_eq_true_iff.mpr ⟨?_, hexternal⟩
  revert hkind
  cases sym.kind <;> simp [Kind.isCallable]

/-- Which of the callables have a body: those that are no members and have the const flag or are
prototypes. -/
theorem Symbol.hasBody_iff {sym : Symbol} (h : hasEntryPoint sym = true) :
    sym.hasBody = true ↔ sym.isMember = false ∧ (sym.isConst = true ∨ sym.kind = .prototype) := by
  obtain ⟨hcallable, hexternal⟩ := Bool.and_eq_true_iff.mp h
  cases hkind : sym.kind <;> rw [hkind] at hcallable <;>
    simp_all [Symbol.hasBody, Symbol.definesBody, Kind.isCallable]

namespace Table

variable {table : Table} {sym : Symbol} {address : UInt32}

/-- The symbols of a table stand in the order of their numbers. -/
theorem symbols_pairwise (table : Table) :
    table.symbols.toList.Pairwise fun first second => first.index < second.index := by
  rw [List.pairwise_iff_getElem]
  intro i j hi hj hij
  rw [Array.getElem_toList, Array.getElem_toList, table.numbered, table.numbered]
  exact hij

/-- What a search through the table finds has the lowest number. -/
theorem index_le_of_find? {p : Symbol → Bool} (h : table.symbols.toList.find? p = some sym)
    {other : Symbol} (hother : other ∈ table.symbols.toList) (hp : p other = true) :
    sym.index ≤ other.index := by
  obtain ⟨-, before, after, hall, hbefore⟩ := List.find?_eq_some_iff_append.mp h
  have hordered := table.symbols_pairwise
  rw [hall] at hordered hother
  obtain ⟨-, hbehind, -⟩ := List.pairwise_append.mp hordered
  rcases List.mem_append.mp hother with hother | hother
  · exact absurd (hbefore other hother) (by simp [hp])
  · rcases List.mem_cons.mp hother with rfl | hother
    · exact Nat.le_refl _
    · exact Nat.le_of_lt ((List.pairwise_cons.mp hbehind).1 other hother)

/-- A search through the table gives the symbol with the lowest number. -/
theorem find?_symbols_eq_some_iff {p : Symbol → Bool} :
    table.symbols.toList.find? p = some sym ↔ sym ∈ table.symbols.toList ∧ p sym = true ∧
      ∀ other ∈ table.symbols.toList, p other = true → sym.index ≤ other.index := by
  constructor
  · intro h
    exact ⟨List.mem_of_find?_eq_some h, List.find?_some h, fun other => index_le_of_find? h⟩
  · rintro ⟨hmem, hsym, hfirst⟩
    -- Something is found, and neither it nor the symbol can come before the other.
    obtain ⟨found, hfound⟩ := Option.isSome_iff_exists.mp (List.find?_isSome.mpr ⟨sym, hmem, hsym⟩)
    have hfoundMem := List.mem_of_find?_eq_some hfound
    have hindex : found.index = sym.index := Nat.le_antisymm (index_le_of_find? hfound hmem hsym)
      (hfirst found hfoundMem (List.find?_some hfound))
    rw [hfound, eq_of_index_eq hfoundMem hmem hindex]

/-- The callables of the table that an address can stand for. -/
def StartsAt (table : Table) (address : UInt32) (sym : Symbol) : Prop :=
  sym ∈ table.symbols.toList ∧ hasEntryPoint sym = true ∧ sym.address = address

/-- What is found among some of the callables is the first of those at the address. -/
theorem find?_filter_eq_some_iff {p : Symbol → Bool} :
    ((table.symbols.toList.filter fun sym => hasEntryPoint sym && p sym).find?
        fun sym => sym.address == address) = some sym ↔
      table.StartsAt address sym ∧ p sym = true ∧
        ∀ other, table.StartsAt address other → p other = true → sym.index ≤ other.index := by
  rw [List.find?_filter, find?_symbols_eq_some_iff]
  simp only [StartsAt, decide_eq_true_eq, Bool.and_eq_true, beq_iff_eq, and_imp]
  constructor
  · rintro ⟨hmem, ⟨⟨hentry, hp⟩, haddress⟩, hfirst⟩
    exact ⟨⟨hmem, hentry, haddress⟩, hp,
      fun other hother hentry haddress hp => hfirst other hother hentry hp haddress⟩
  · rintro ⟨⟨hmem, hentry, haddress⟩, hp, hfirst⟩
    exact ⟨hmem, ⟨⟨hentry, hp⟩, haddress⟩,
      fun other hother hentry hp haddress => hfirst other hother hentry haddress hp⟩

/-- Nothing is found among some of the callables if none of them is at the address. -/
theorem find?_filter_eq_none_iff {p : Symbol → Bool} :
    ((table.symbols.toList.filter fun sym => hasEntryPoint sym && p sym).find?
        fun sym => sym.address == address) = none ↔
      ∀ other, table.StartsAt address other → p other = false := by
  rw [List.find?_eq_none]
  simp only [List.mem_filter, StartsAt, Bool.and_eq_true, beq_iff_eq, and_imp]
  constructor
  · intro hnone other hmem hentry haddress
    exact Bool.eq_false_iff.mpr fun hp => hnone other hmem hentry hp haddress
  · intro hnone other hmem hentry hp haddress
    exact Bool.false_ne_true ((hnone other hmem hentry haddress).symm.trans hp)

/-- **A lookup by address** gives the callable there that no other one overtakes. -/
theorem callableAt?_eq_some_iff : table.callableAt? address = some sym ↔
    table.StartsAt address sym ∧ ∀ other, table.StartsAt address other → ¬other.Overtakes sym := by
  rw [callableAt?, table.index_eq, byAddress_getElem?, Option.or_eq_some_iff,
    find?_filter_eq_some_iff, find?_filter_eq_some_iff, find?_filter_eq_none_iff]
  constructor
  · -- What is found is the first of those with the flag, or of the others if none has it.
    rintro (⟨hstarts, hconst, hfirst⟩ | ⟨hnone, hstarts, -, hfirst⟩)
    · refine ⟨hstarts, fun other hother => ?_⟩
      rintro (⟨-, hother⟩ | ⟨hsame, hbefore⟩)
      · exact Bool.false_ne_true (hother.symm.trans hconst)
      · exact Nat.not_lt.mpr (hfirst other hother (hsame.trans hconst)) hbefore
    · refine ⟨hstarts, fun other hother => ?_⟩
      have hconst := hnone other hother
      rintro (⟨hother, -⟩ | ⟨-, hbefore⟩)
      · exact Bool.false_ne_true (hconst.symm.trans hother)
      · exact Nat.not_lt.mpr (hfirst other hother (by rw [hconst]; rfl)) hbefore
  · rintro ⟨hstarts, hfirst⟩
    -- Among callables that agree in the flag, the one that is found has the lowest number.
    have hindex (other : Symbol) (hother : table.StartsAt address other)
        (hsame : other.isConst = sym.isConst) : sym.index ≤ other.index :=
      Nat.not_lt.mp fun hbefore => hfirst other hother (.inr ⟨hsame, hbefore⟩)
    cases hconst : sym.isConst with
    | true =>
      exact .inl ⟨hstarts, rfl, fun other hother hp => hindex other hother (hp.trans hconst.symm)⟩
    | false =>
      have hnone (other : Symbol) (hother : table.StartsAt address other) :
          other.isConst = false :=
        Bool.eq_false_iff.mpr fun hp => hfirst other hother (.inl ⟨hp, hconst⟩)
      exact .inr ⟨hnone, hstarts, rfl,
        fun other hother _ => hindex other hother ((hnone other hother).trans hconst.symm)⟩

/-- The first symbol of the table whose source has a body and starts at an address. -/
def bodyAt? (table : Table) (address : UInt32) : Option Symbol :=
  table.symbols.toList.find? fun sym => sym.hasBody && sym.address == address

/-- The symbol with a body at an address is the first of all that have one and start there. -/
theorem bodyAt?_eq_some_iff : table.bodyAt? address = some sym ↔
    table.StartsAt address sym ∧ sym.hasBody = true ∧
      ∀ other, table.StartsAt address other → other.hasBody = true → sym.index ≤ other.index := by
  rw [bodyAt?, find?_symbols_eq_some_iff]
  simp only [StartsAt, Bool.and_eq_true, beq_iff_eq, and_imp]
  constructor
  · rintro ⟨hmem, ⟨hbody, haddress⟩, hfirst⟩
    exact ⟨⟨hmem, Symbol.hasEntryPoint_of_hasBody hbody, haddress⟩, hbody,
      fun other hother _ haddress hbody => hfirst other hother hbody haddress⟩
  · rintro ⟨⟨hmem, -, haddress⟩, hbody, hfirst⟩
    exact ⟨hmem, ⟨hbody, haddress⟩, fun other hother hbody haddress =>
      hfirst other hother (Symbol.hasEntryPoint_of_hasBody hbody) haddress hbody⟩

/-- The callables at an address leave the place in front to a symbol with a body. -/
structure Leads (table : Table) (address : UInt32) (body : Symbol) : Prop where
  /-- A symbol with the const flag stands before the members that have it too. -/
  members : body.isConst = true → ∀ sym, table.StartsAt address sym → sym.isConst = true →
    sym.isMember = true → body.index < sym.index
  /-- A prototype without the flag stands before all others, and none of them has the flag. -/
  unflagged : body.isConst = false → ∀ sym, table.StartsAt address sym →
    sym.isConst = false ∧ body.index ≤ sym.index

/-- The first symbol with a body is overtaken by no other callable if and only if it leads. -/
theorem not_overtakes_iff_leads {body : Symbol} (h : table.bodyAt? address = some body) :
    (∀ sym, table.StartsAt address sym → ¬sym.Overtakes body) ↔ table.Leads address body := by
  obtain ⟨⟨hmem, -, -⟩, hbody, hfirst⟩ := bodyAt?_eq_some_iff.mp h
  have hmember : body.isMember = false := by
    simpa using (Bool.and_eq_true_iff.mp hbody).1
  constructor
  · intro hnone
    refine ⟨fun hconst sym hsym hflag hfield => ?_, fun hconst sym hsym => ?_⟩
    · have hle : body.index ≤ sym.index :=
        Nat.not_lt.mp fun hbefore => hnone sym hsym (.inr ⟨hflag.trans hconst.symm, hbefore⟩)
      refine Nat.lt_of_le_of_ne hle fun hindex => ?_
      rw [eq_of_index_eq hmem hsym.1 hindex, hfield] at hmember
      cases hmember
    · have hflag : sym.isConst = false :=
        Bool.eq_false_iff.mpr fun hflag => hnone sym hsym (.inl ⟨hflag, hconst⟩)
      exact ⟨hflag, Nat.not_lt.mp fun hbefore =>
        hnone sym hsym (.inr ⟨hflag.trans hconst.symm, hbefore⟩)⟩
  · rintro hleads sym hsym (⟨hflag, hconst⟩ | ⟨hsame, hbefore⟩)
    · exact Bool.false_ne_true ((hleads.unflagged hconst sym hsym).1.symm.trans hflag)
    · cases hconst : body.isConst with
      | false => exact Nat.not_lt.mpr (hleads.unflagged hconst sym hsym).2 hbefore
      | true =>
        have hflag : sym.isConst = true := hsame.trans hconst
        cases hfield : sym.isMember with
        | true => exact Nat.lt_asymm (hleads.members hconst sym hsym hflag hfield) hbefore
        | false =>
          -- A callable with the flag that is no member has a body too.
          have hother := (Symbol.hasBody_iff hsym.2.1).mpr ⟨hfield, .inl hflag⟩
          exact Nat.not_lt.mpr (hfirst sym hsym hother) hbefore

end Table

namespace Script

/-- The symbols with a body win the lookups by an address. -/
structure BodiesWin (script : Script) (address : UInt32) : Prop where
  /-- The first one that starts at the address is found. -/
  first : ∀ body, script.bodyAt? address = some body → script.callableAt? address = some body
  /-- A callable without a body is found only if no symbol with a body starts there. -/
  others : ∀ sym, script.callableAt? address = some sym → sym.hasBody = false →
    ∀ body ∈ script.symbols, body.hasBody = true → body.address ≠ address
  /-- Calls of the address are calls of the first one. -/
  called : ∀ body, script.bodyAt? address = some body → ∀ (s : Setting) (active : Option UInt32)
    (room : Nat) (frame : Frame) (stack : List Frame), s.script = script →
    frame.instr.op = .call address →
    ∃ args, (s.recover active (room + 1) frame stack).1 = .call (.known body) args
  /-- Usages at the address are attributed to the first one. -/
  attributed : ∀ body, script.bodyAt? address = some body → ∀ sym found,
    script.usages sym = .ok found → ∀ usage ∈ found, usage.instr.pc = address.toNat →
    usage.within = some body

/-- **Bodies win.** The lookup of an address gives the first symbol with a body that starts there,
and calls and usages are attributed to it, if and only if this symbol leads the callables at the
address. -/
theorem bodiesWin_iff (script : Script) (address : UInt32) :
    script.BodiesWin address ↔
      ∀ body, script.bodyAt? address = some body → script.Leads address body := by
  constructor
  · intro hwin body hbody
    have hcallable := hwin.first body hbody
    exact (Table.not_overtakes_iff_leads hbody).mp (Table.callableAt?_eq_some_iff.mp hcallable).2
  · intro hleads
    -- Calls and usages go through the lookup, so it is enough to know what that gives.
    have hfirst (body : Symbol) (hbody : script.bodyAt? address = some body) :
        script.callableAt? address = some body :=
      Table.callableAt?_eq_some_iff.mpr ⟨(Table.bodyAt?_eq_some_iff.mp hbody).1,
        (Table.not_overtakes_iff_leads hbody).mpr (hleads body hbody)⟩
    refine ⟨hfirst, fun sym hsym hnone body hmem hbody haddress => ?_, ?_, ?_⟩
    · have hsome : (script.bodyAt? address).isSome = true :=
        List.find?_isSome.mpr ⟨body, Array.mem_toList_iff.mpr hmem, by simp [hbody, haddress]⟩
      obtain ⟨found, hfound⟩ := Option.isSome_iff_exists.mp hsome
      obtain rfl := Option.some.inj (hsym.symm.trans (hfirst found hfound))
      exact Bool.false_ne_true (hnone.symm.trans (Table.bodyAt?_eq_some_iff.mp hfound).2.1)
    · rintro body hbody s active room frame stack rfl hop
      simp only [Setting.recover, hop, hfirst body hbody, Setting.readCall]
      exact ⟨_, rfl⟩
    · intro body hbody sym found hfound usage husage hpc
      refine within_of_mem_usages hfound husage ?_
      rw [hpc, UInt32.ofNat_toNat]
      exact hfirst body hbody

/-- A script with an instance variable, a function and a prototype without the const flag, all at the
start of the code. -/
def sharedScript : Script :=
  .ofParts (encodeAll [.ret]).toArray
    [{ name := "SELF", kind := .inst },
      { name := "MAIN", kind := .func, flags := Flags.none.add .const },
      { name := "ORC", kind := .prototype }]

/-- A function with a body is found before a member at the same address. -/
theorem bodiesWin_sharedScript :
    (sharedScript.bodyAt? 0).map Symbol.name = some "MAIN" ∧ sharedScript.BodiesWin 0 := by
  refine ⟨by decide +kernel, (bodiesWin_iff sharedScript 0).mpr fun body hbody => ?_⟩
  have hmain : sharedScript.bodyAt? 0 = some sharedScript.symbols[1] := by decide +kernel
  obtain rfl := Option.some.inj (hbody.symm.trans hmain)
  refine ⟨fun _ sym hsym hflag hfield => ?_, fun hconst => ?_⟩
  · -- None of the symbols is a member.
    have hnone : ∀ sym ∈ sharedScript.symbols.toList, sym.isMember = false := by decide +kernel
    exact absurd ((hnone sym hsym.1).symm.trans hfield) Bool.false_ne_true
  · have hflag : sharedScript.symbols[1].isConst = true := by decide +kernel
    exact absurd (hconst.symm.trans hflag) Bool.false_ne_true

/-- A script with an instance variable and a prototype without the const flag, both at the start of
the code. -/
def orcScript : Script :=
  .ofParts (encodeAll [.ret]).toArray
    [{ name := "SELF", kind := .inst }, { name := "ORC", kind := .prototype }]

/-- A prototype without the const flag is not found if an instance without a body stands before it.
-/
theorem not_bodiesWin_orcScript :
    (orcScript.bodyAt? 0).map Symbol.name = some "ORC" ∧
    (orcScript.callableAt? 0).map Symbol.name = some "SELF" ∧ ¬orcScript.BodiesWin 0 := by
  have hbody : orcScript.bodyAt? 0 = some orcScript.symbols[1] := by decide +kernel
  have hname : (orcScript.callableAt? 0).map Symbol.name = some "SELF" := by decide +kernel
  refine ⟨by decide +kernel, hname, fun hwin => ?_⟩
  rw [hwin.first _ hbody] at hname
  exact absurd hname (by decide +kernel)

end Script

end Daedalus
