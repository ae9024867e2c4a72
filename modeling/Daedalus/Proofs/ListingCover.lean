import Mathlib.Data.List.Induction
import Daedalus.Proofs.ListingLines

/-! # What a listing covers

The operations that stand one behind the other from the address of a callable on are listed up to
the first one that closes the listing: a return that lies at or behind every branch target up to
there, or the operation at the end of the code. `Closes` says this of the last operation of a list,
and `ListsTo` that no operation before it closes the listing.

The main result is `listing_iff`. A callable is listed just if its code can be decoded up to such an
operation, and else the fault of the decoding is reported. The byte columns of the lines, read as
hexadecimal digits, are the bytes of the code, so the listing loses nothing; and no branch leaves it
unless it goes on to the end of the code. -/

namespace Daedalus

open Text

/-! ### What closes a listing -/

/-- No branch of a list of operations goes beyond an address. -/
def BranchesUpTo (bound : Nat) (ops : List Operation) : Prop :=
  ∀ op ∈ ops, ∀ target, op.branchTarget? = some target → target.toNat ≤ bound

/-- No operation of the list branches beyond the bound. -/
theorem branchesUpTo_iff {bound : Nat} {ops : List Operation} :
    BranchesUpTo bound ops ↔ ∀ op ∈ ops, op.reach ≤ bound := by
  refine forall₂_congr fun op _ => ?_
  rw [Operation.reach]
  cases op.branchTarget? <;> simp

namespace Script

/-- The last operation of a list, which stands in the code from `pc` on, closes a listing: it is a
return that lies at or behind every branch target of the list, or it ends with the code. -/
def Closes (script : Script) (pc : Nat) (ops : List Operation) : Prop :=
  ∃ front last, ops = front ++ [last] ∧
    (last = .ret ∧ BranchesUpTo (pc + byteSize front) ops ∨ pc + byteSize ops = script.code.size)

/-- The operations that stand from `pc` on, up to the first one that closes the listing. -/
structure ListsTo (script : Script) (pc : Nat) (ops : List Operation) : Prop where
  placed : Placed script.code pc ops
  closes : script.Closes pc ops
  first : ∀ front, front <+: ops → script.Closes pc front → front = ops

/-- The operations that stand from `pc` on, none of which closes the listing, up to where the code
cannot be decoded. -/
structure FailsBehind (script : Script) (pc : Nat) (ops : List Operation) (fault : Fault) :
    Prop where
  placed : Placed script.code pc ops
  goesOn : ∀ front, front <+: ops → ¬script.Closes pc front
  undecoded : decode script.code (pc + byteSize ops) = .error fault

variable {script : Script} {sym : Symbol} {pc : Nat} {ops : List Operation} {fault : Fault}

/-- Operations in the code end within the code. -/
theorem end_le_of_placed (hplaced : Placed script.code pc ops) (hpc : pc ≤ script.code.size) :
    pc + byteSize ops ≤ script.code.size := by
  induction ops generalizing pc with
  | nil => exact hpc
  | cons op ops ih =>
    have hle := ih hplaced.2 (next_le_of_decode hplaced.1)
    rwa [Nat.add_assoc] at hle

/-- What does not close the listing is covered by the branches before it. -/
theorem covered_of_goesOn (h : ∀ front, front <+: ops → ¬script.Closes pc front) :
    Covered pc pc ops := by
  induction ops using List.reverseRecOn with
  | nil => trivial
  | append_singleton front op ih =>
    have hfront := ih fun part hpart => h part (hpart.trans (List.prefix_append _ _))
    refine covered_append.mpr ⟨hfront, fun hop => ?_, trivial⟩
    subst hop
    -- A return beyond all branches would close the listing.
    refine Nat.not_lt.mp fun hbeyond => ?_
    have hreach : reachBehind pc front ≤ pc + byteSize front := by
      have hlt := Nat.lt_of_le_of_lt (Nat.le_max_left _ _) hbeyond
      exact Nat.le_of_lt_succ hlt
    refine h _ (List.prefix_refl _) ⟨front, .ret, rfl, .inl ⟨rfl, branchesUpTo_iff.mpr ?_⟩⟩
    intro op hop
    rcases List.mem_append.mp hop with hop | hop
    · exact Nat.le_trans (reach_le_reachBehind pc hop) hreach
    · exact List.mem_singleton.mp hop ▸ Nat.zero_le _

/-- A listing runs over operations that do not close it. -/
theorem listed_of_goesOn (hplaced : Placed script.code sym.address.toNat ops)
    (hgoesOn : ∀ front, front <+: ops → ¬script.Closes sym.address.toNat front) :
    script.listed sym = Array.toList <$> script.listFrom (instrsAt sym.address.toNat ops).toArray
      (reachBehind sym.address.toNat ops) (sym.address.toNat + byteSize ops) := by
  rw [listed, listFrom_placed hplaced (covered_of_goesOn hgoesOn), Array.empty_append]

/-- What is listed ends with the operation that closes the listing. -/
theorem ListsTo.listed_eq (h : script.ListsTo sym.address.toNat ops) :
    script.listed sym = .ok (instrsAt sym.address.toNat ops) := by
  obtain ⟨front, last, rfl, hends⟩ := h.closes
  -- No part of what comes before the last operation closes the listing, as this part would be
  -- shorter than the first one that does.
  have hgoesOn : ∀ part, part <+: front → ¬script.Closes sym.address.toNat part := by
    intro part hpart hcloses
    have heq := h.first part (hpart.trans (List.prefix_append _ _)) hcloses
    have hle := hpart.length_le
    rw [heq, List.length_append, List.length_singleton] at hle
    omega
  obtain ⟨hplaced, hdecode, -⟩ := (placed_append _ _ _ _).mp h.placed
  have hinstrs : instrsAt sym.address.toNat (front ++ [last]) =
      ((instrsAt sym.address.toNat front).toArray.push
        ⟨sym.address.toNat + byteSize front, last⟩).toList := by
    simp [instrsAt_append, instrsAt]
  rw [listed_of_goesOn hplaced hgoesOn, hinstrs]
  rcases hends with ⟨rfl, hbranches⟩ | hsize
  · have hreach : reachBehind sym.address.toNat front ≤ sym.address.toNat + byteSize front :=
      reachBehind_le (Nat.le_add_right _ _) fun op hop =>
        branchesUpTo_iff.mp hbranches op (List.mem_append_left _ hop)
    rw [listFrom_ret hdecode hreach]
    rfl
  · -- The code ends with the operation, so nothing is listed behind it.
    rw [byteSize_append, byteSize_cons, byteSize_nil, Nat.add_zero, ← Nat.add_assoc] at hsize
    rw [listFrom_of_decode hdecode, listFrom_of_size_le (Nat.le_of_eq hsize.symm), ite_self]
    rfl

/-- Where the code cannot be decoded behind operations that do not close the listing, it goes on. -/
theorem FailsBehind.lt_size (hpc : pc < script.code.size) (h : script.FailsBehind pc ops fault) :
    pc + byteSize ops < script.code.size := by
  rcases List.eq_nil_or_concat ops with rfl | ⟨front, last, rfl⟩
  · exact hpc
  · rw [List.concat_eq_append] at h ⊢
    have hne : pc + byteSize (front ++ [last]) ≠ script.code.size := fun hend =>
      h.goesOn _ (List.prefix_refl _) ⟨front, last, rfl, .inr hend⟩
    exact Nat.lt_of_le_of_ne (end_le_of_placed h.placed (Nat.le_of_lt hpc)) hne

/-- A listing fails where the code cannot be decoded. -/
theorem FailsBehind.listed_eq (haddress : sym.address.toNat < script.code.size)
    (h : script.FailsBehind sym.address.toNat ops fault) : script.listed sym = .error fault := by
  rw [listed_of_goesOn h.placed h.goesOn, listFrom_of_error h.undecoded (h.lt_size haddress)]
  rfl

/-! ### Every listing ends -/

/-- Operations that do not close a listing are followed by one that does, or by code that cannot be
decoded. The induction is on the code that is left. -/
theorem exists_end_of_goesOn (hplaced : Placed script.code pc ops)
    (hgoesOn : ∀ front, front <+: ops → ¬script.Closes pc front) :
    (∃ all, script.ListsTo pc all) ∨ ∃ all fault, script.FailsBehind pc all fault := by
  induction hleft : script.code.size - (pc + byteSize ops) using Nat.strongRecOn generalizing ops with
  | ind left ih =>
    subst hleft
    cases hdecode : decode script.code (pc + byteSize ops) with
    | error fault => exact .inr ⟨ops, fault, hplaced, hgoesOn, hdecode⟩
    | ok instr =>
      obtain ⟨start, op⟩ := instr
      obtain rfl : start = pc + byteSize ops := pc_of_decode hdecode
      have hmore : Placed script.code pc (ops ++ [op]) :=
        (placed_append _ _ _ _).mpr ⟨hplaced, hdecode, trivial⟩
      -- The next operation closes the listing, or it is one more that does not.
      by_cases hcloses : script.Closes pc (ops ++ [op])
      · refine .inl ⟨ops ++ [op], hmore, hcloses, fun front hfront hclosed => ?_⟩
        rcases List.prefix_concat_iff.mp hfront with rfl | hfront
        · rfl
        · exact absurd hclosed (hgoesOn front hfront)
      · refine ih _ ?_ hmore (fun front hfront => ?_) rfl
        · have hlt := lt_next_of_decode hdecode
          have hle := next_le_of_decode hdecode
          have hpos := op.size_pos
          rw [Instr.next] at hlt hle
          rw [byteSize_append, byteSize_cons, byteSize_nil]
          omega
        · rcases List.prefix_concat_iff.mp hfront with rfl | hfront
          · exact hcloses
          · exact hgoesOn front hfront

/-- A listing ends with an operation that closes it, or fails. -/
theorem exists_listing_end (script : Script) (pc : Nat) :
    (∃ ops, script.ListsTo pc ops) ∨ ∃ ops fault, script.FailsBehind pc ops fault := by
  have hnone : Placed script.code pc [] := trivial
  refine exists_end_of_goesOn hnone ?_
  rintro front hfront ⟨before, last, rfl, -⟩
  exact List.append_ne_nil_of_right_ne_nil before (List.cons_ne_nil last []) (List.prefix_nil.mp hfront)

/-- **What a listing covers.** A callable is listed just if decoding from its address on leads to an
operation that closes the listing, and then the listing shows the operations up to the first one; it
fails with a fault just if the decoding fails with this fault before. The columns of a listing show
the code from the address to the end of the last operation, and either this is the end of the code,
or the last operation is a return and no branch goes beyond it. -/
theorem listing_iff (hexternal : sym.isExternal = false) (hkind : sym.kind.isCallable = true)
    (haddress : sym.address.toNat < script.code.size) :
    (∀ text, script.listing sym = .ok text ↔ ∃ ops, script.ListsTo sym.address.toNat ops ∧
      text = listingTitle sym ++
        unlines ((instrsAt sym.address.toNat ops).map script.listingLine)) ∧
    (∀ fault, script.listing sym = .error fault ↔
      ∃ ops, script.FailsBehind sym.address.toNat ops fault) ∧
    ∀ ops, script.ListsTo sym.address.toNat ops →
      shownBytes? ((instrsAt sym.address.toNat ops).map script.listingLine) =
        some (script.code.extract sym.address.toNat (sym.address.toNat + byteSize ops)).toList ∧
      (sym.address.toNat + byteSize ops = script.code.size ∨
        ∃ front, ops = front ++ [.ret] ∧
          BranchesUpTo (sym.address.toNat + byteSize front) ops) := by
  have hlisting : script.listing sym =
      (fun instrs => listingTitle sym ++ unlines (instrs.map script.listingLine)) <$>
        script.listed sym := by
    rw [listing, if_neg (by simp [hexternal]), if_neg (by simp [hkind])]
  -- One of the two ends is always there, and each of them settles what the listing is; so both
  -- equivalences hold.
  have hlists : ∀ {ops}, script.ListsTo sym.address.toNat ops →
      script.listing sym = .ok (listingTitle sym ++
        unlines ((instrsAt sym.address.toNat ops).map script.listingLine)) := fun h => by
    rw [hlisting, h.listed_eq]
    rfl
  have hfails : ∀ {ops fault}, script.FailsBehind sym.address.toNat ops fault →
      script.listing sym = .error fault := fun h => by
    rw [hlisting, h.listed_eq haddress]
    rfl
  refine ⟨fun text => ⟨fun htext => ?_, ?_⟩, fun fault => ⟨fun hfault => ?_, ?_⟩, fun ops h => ?_⟩
  · rcases script.exists_listing_end sym.address.toNat with ⟨ops, h⟩ | ⟨ops, fault, h⟩
    · exact ⟨ops, h, Except.ok.inj (htext.symm.trans (hlists h))⟩
    · cases htext.symm.trans (hfails h)
  · rintro ⟨ops, h, rfl⟩
    exact hlists h
  · rcases script.exists_listing_end sym.address.toNat with ⟨ops, h⟩ | ⟨ops, other, h⟩
    · cases hfault.symm.trans (hlists h)
    · obtain rfl := Except.error.inj (hfault.symm.trans (hfails h))
      exact ⟨ops, h⟩
  · rintro ⟨ops, h⟩
    exact hfails h
  · refine ⟨shownBytes?_placed h.placed, ?_⟩
    obtain ⟨front, last, rfl, ⟨rfl, hbranches⟩ | hend⟩ := h.closes
    · exact .inr ⟨front, rfl, hbranches⟩
    · exact .inl hend

/-- A function whose last return is the target of its branch, and code that breaks off behind it. -/
def coverScript : Script :=
  .ofParts #[0x3c, 0x41, 1, 0, 0, 0, 0x4c, 12, 0, 0, 0, 0x3c, 0x3c, 0x40, 7]
    [{ name := "F", kind := .func, address := 1 }, { name := "A", kind := .int },
      { name := "G", kind := .func, address := 13 }]

/-- The listing of the function. -/
def coverListing : String := unlines
  ["00000001 <F>:",
    "       1:\t41 01 00 00 00     PUSHV 00000001 ; <A>",
    "       6:\t4c 0c 00 00 00     BZ 0000000c",
    "       b:\t3c                 RSR",
    "       c:\t3c                 RSR"]

/-- A function with a branch over a return, behind which the listing goes on. -/
theorem listing_coverScript :
    coverScript.listing { name := "F", kind := .func, address := 1 } = .ok coverListing ∧
    (∃ ops, coverScript.ListsTo 1 ops ∧
      shownBytes? ((instrsAt 1 ops).map coverScript.listingLine) =
        some (coverScript.code.extract 1 (1 + byteSize ops)).toList) ∧
    ∃ ops, coverScript.FailsBehind 13 ops (.truncated 13 5 2) := by
  have hlisting : coverScript.listing { name := "F", kind := .func, address := 1 } =
      .ok coverListing := by decide +kernel
  have hfault : coverScript.listing { name := "G", kind := .func, address := 13 } =
      .error (.truncated 13 5 2) := by decide +kernel
  obtain ⟨hlists, -, hcovers⟩ :=
    @listing_iff coverScript { name := "F", kind := .func, address := 1 } rfl rfl (by decide)
  obtain ⟨-, hfails, -⟩ :=
    @listing_iff coverScript { name := "G", kind := .func, address := 13 } rfl rfl (by decide)
  obtain ⟨ops, hops, -⟩ := (hlists _).mp hlisting
  exact ⟨hlisting, ⟨ops, hops, (hcovers ops hops).1⟩, (hfails _).mp hfault⟩

end Script

end Daedalus
