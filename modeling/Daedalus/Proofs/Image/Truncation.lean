import Daedalus.Proofs.Image.RoundTrip

/-! # Truncated images and trailing bytes

A scanner is self-delimiting if all that it makes of an input is to take bytes off its front, or to
find that the input ends too early. What is taken then says by itself where it ends: whatever
follows it does not matter, and no shorter part of it is enough. The scanners of an image are put
together from self-delimiting ones, each of which may depend on what was read before it. -/

namespace Daedalus

namespace Scan

variable {α β : Type} {read : Scan α}

/-- The scanner takes bytes off the front of every input, unless the input ends too early. -/
def SelfDelimiting (read : Scan α) : Prop :=
  ∀ input, read input = .error .endOfInput ∨
    ∃ taken rest x, input = taken ++ rest ∧ Takes read taken x

/-! ### What is taken -/

/-- What a self-delimiting scanner reads is taken, and what it leaves is the rest of the input. -/
theorem SelfDelimiting.exists_takes (h : SelfDelimiting read) {input rest : List UInt8} {x : α}
    (hread : read input = .ok (x, rest)) : ∃ taken, input = taken ++ rest ∧ Takes read taken x := by
  rcases h input with hend | ⟨taken, rest', y, rfl, htakes⟩
  · cases hend.symm.trans hread
  · cases (htakes rest').symm.trans hread
    exact ⟨taken, rfl, htakes⟩

/-- **Less than what is taken is too little.** -/
theorem SelfDelimiting.truncated (h : SelfDelimiting read) {taken : List UInt8} {x : α}
    (htakes : Takes read taken x) {k : Nat} (hk : k < taken.length) :
    read (taken.take k) = .error .endOfInput := by
  rcases h (taken.take k) with hend | ⟨less, rest, y, hless, htakesLess⟩
  · exact hend
  · -- Then the same input would be left by the shorter part and by all of it.
    have hall : taken = less ++ (rest ++ taken.drop k) := by
      rw [← List.append_assoc, ← hless, List.take_append_drop]
    have hread := htakes []
    rw [List.append_nil, hall, htakesLess] at hread
    have hrest : rest ++ taken.drop k = [] := congrArg Prod.snd (Except.ok.inj hread)
    have hdrop := congrArg List.length (List.append_eq_nil_iff.mp hrest).2
    rw [List.length_drop, List.length_nil] at hdrop
    omega

/-! ### Self-delimiting scanners one behind the other -/

/-- What reads nothing is self-delimiting. -/
theorem selfDelimiting_pure (x : α) : SelfDelimiting (pure x) :=
  fun input => .inr ⟨[], input, x, rfl, takes_pure x⟩

/-- What comes second may depend on what was read first. -/
theorem SelfDelimiting.bind {next : α → Scan β} (h : SelfDelimiting read)
    (hnext : ∀ x, SelfDelimiting (next x)) : SelfDelimiting (read >>= next) := by
  intro input
  rcases h input with hend | ⟨first, rest, x, rfl, hfirst⟩
  · left
    change (read input >>= fun out => next out.1 out.2) = .error .endOfInput
    rw [hend]
    rfl
  · have hbind : (read >>= next) (first ++ rest) = next x rest := by
      change (read (first ++ rest) >>= fun out => next out.1 out.2) = next x rest
      rw [hfirst]
      rfl
    rcases hnext x rest with hend | ⟨second, rest', y, rfl, hsecond⟩
    · exact .inl (hbind.trans hend)
    · exact .inr ⟨first ++ second, rest', y, (List.append_assoc _ _ _).symm, hfirst.bind hsecond⟩

/-- What is done with a result does not change how much is read. -/
theorem SelfDelimiting.map (f : α → β) (h : SelfDelimiting read) : SelfDelimiting (f <$> read) := by
  rw [← bind_pure_comp]
  exact h.bind fun x => selfDelimiting_pure (f x)

/-! ### Bytes, words and lines -/

/-- A byte is self-delimiting. -/
theorem selfDelimiting_byte : SelfDelimiting byte
  | [] => .inl rfl
  | b :: rest => .inr ⟨[b], rest, b, rfl, takes_byte b⟩

/-- A word is self-delimiting: it takes four bytes. -/
theorem selfDelimiting_word : SelfDelimiting word
  | [] | [_] | [_, _] | [_, _, _] => .inl rfl
  | b₀ :: b₁ :: b₂ :: b₃ :: rest =>
    .inr ⟨[b₀, b₁, b₂, b₃], rest, Word.ofBytes b₀ b₁ b₂ b₃, rfl, fun _ => rfl⟩

/-- A given number of bytes is self-delimiting. -/
theorem selfDelimiting_bytes (count : Nat) : SelfDelimiting (bytes count) := by
  intro input
  by_cases hcount : count ≤ input.length
  · have hlength : (input.take count).length = count := List.length_take_of_le hcount
    have htakes := takes_bytes (input.take count)
    rw [hlength] at htakes
    exact .inr ⟨_, input.drop count, _, (List.take_append_drop count input).symm, htakes⟩
  · left
    rw [bytes, if_neg hcount]

/-- The line feed may be missing from the input. -/
theorem selfDelimiting_line : SelfDelimiting line := by
  intro input
  have hinput := List.takeWhile_append_dropWhile (p := (· != 10)) (l := input)
  cases hdrop : input.dropWhile (· != 10) with
  | nil =>
    left
    rw [line, hdrop]
  | cons b rest =>
    -- What stops the line is a line feed, and there is none before it.
    have hfeed : b = 10 := by
      have hne : input.dropWhile (· != 10) ≠ [] := hdrop ▸ List.cons_ne_nil b rest
      have hhead := List.head_dropWhile_not (· != 10) hne
      simpa [hdrop] using hhead
    have hline : 10 ∉ input.takeWhile (· != 10) := by
      intro hmem
      have hall := List.all_eq_true.mp List.all_takeWhile 10 hmem
      exact absurd hall (by decide)
    rw [hdrop, hfeed, List.append_cons] at hinput
    exact .inr ⟨_, rest, _, hinput.symm, takes_line hline⟩

/-! ### Repeated scanners -/

/-- A given number of self-delimiting things is self-delimiting, behind those that were read before.
-/
theorem SelfDelimiting.timesOnto (h : SelfDelimiting read) (count : Nat) (before : Array α) :
    SelfDelimiting (timesOnto read before count) := by
  induction count generalizing before with
  | zero => exact selfDelimiting_pure before
  | succ count ih =>
    -- A turn is a read, and the turns behind it go on with what it gives.
    have hturn : Scan.timesOnto read before (count + 1) =
        read >>= fun x => Scan.timesOnto read (before.push x) count := by
      funext input
      change _ = (read input >>= fun out => Scan.timesOnto read (before.push out.1) count out.2)
      rw [Scan.timesOnto]
      cases read input <;> rfl
    rw [hturn]
    exact h.bind fun x => ih (before.push x)

/-- A given number of self-delimiting things is self-delimiting. -/
theorem SelfDelimiting.times (h : SelfDelimiting read) (count : Nat) :
    SelfDelimiting (times read count) :=
  (h.timesOnto count #[]).map Array.toList

end Scan

open Scan

namespace Symbol

/-- Names are self-delimiting. -/
theorem selfDelimiting_scanName : SelfDelimiting scanName := by
  refine selfDelimiting_word.bind fun named => ?_
  split
  · exact selfDelimiting_pure []
  · exact selfDelimiting_line

/-- Locations are self-delimiting. -/
theorem selfDelimiting_scanLocation : SelfDelimiting scanLocation :=
  selfDelimiting_word.bind fun _ => selfDelimiting_word.bind fun _ =>
    selfDelimiting_word.bind fun _ => selfDelimiting_word.bind fun _ =>
      selfDelimiting_word.bind fun _ => selfDelimiting_pure _

/-- The heads of symbols are self-delimiting. -/
theorem selfDelimiting_scanHead : SelfDelimiting scanHead :=
  selfDelimiting_scanName.bind fun _ => selfDelimiting_word.bind fun _ =>
    selfDelimiting_word.bind fun _ => selfDelimiting_scanLocation.bind fun _ =>
      selfDelimiting_pure _

/-- How long a payload is depends on the fields in front of it. -/
theorem selfDelimiting_scanPayload (sym : Symbol) : SelfDelimiting sym.scanPayload := by
  unfold scanPayload
  split
  · exact (selfDelimiting_word.times _).bind fun _ => selfDelimiting_pure _
  · exact (selfDelimiting_word.times _).bind fun _ => selfDelimiting_pure _
  · exact (selfDelimiting_line.times _).bind fun _ => selfDelimiting_pure _
  · exact selfDelimiting_word.bind fun _ => selfDelimiting_pure _
  · exact selfDelimiting_word.bind fun _ => selfDelimiting_pure _
  · exact selfDelimiting_word.bind fun _ => selfDelimiting_pure _
  · exact selfDelimiting_word.bind fun _ => selfDelimiting_pure _
  · exact selfDelimiting_pure sym

/-- What follows the head of a symbol is self-delimiting. -/
theorem selfDelimiting_scanBody (sym : Symbol) : SelfDelimiting sym.scanBody := by
  unfold scanBody
  split
  · exact selfDelimiting_pure sym
  · exact selfDelimiting_scanPayload sym

/-- A record says by itself where it ends. -/
theorem selfDelimiting_scan : SelfDelimiting scan := by
  rw [scan_eq]
  exact selfDelimiting_scanHead.bind fun sym => (selfDelimiting_scanBody sym).bind fun _ =>
    selfDelimiting_word.bind fun _ => selfDelimiting_pure _

end Symbol

namespace Script

/-- A script says by itself where its image ends. -/
theorem selfDelimiting_scanParts : SelfDelimiting scanParts :=
  selfDelimiting_byte.bind fun _ => selfDelimiting_word.bind fun _ =>
    (selfDelimiting_bytes _).bind fun _ => (Symbol.selfDelimiting_scan.times _).bind fun _ =>
      selfDelimiting_word.bind fun _ => (selfDelimiting_bytes _).bind fun _ =>
        selfDelimiting_pure _

/-- The script of an image is read from its first `count` bytes, and what follows them is left. -/
def ReadsFirst (image : List UInt8) (count : Nat) : Prop :=
  count ≤ image.length ∧ ∃ parts, scanParts image = .ok (parts, image.drop count)

/-- A script that is loaded is made of the parts that were read. -/
theorem exists_parts_of_ofImage {image : List UInt8} {script : Script}
    (h : ofImage image = .ok script) : ∃ parts rest,
      scanParts image = .ok (parts, rest) ∧ ofParts parts.2.toArray parts.1 = script := by
  unfold ofImage at h
  split at h
  · next symbols code rest hparts => exact ⟨(symbols, code), rest, hparts, Except.ok.inj h⟩
  · cases h

/-- Where the parts are read, the script is loaded. -/
theorem ofImage_of_scanParts {image rest : List UInt8} {parts : List Symbol × List UInt8}
    (h : scanParts image = .ok (parts, rest)) :
    ofImage image = .ok (ofParts parts.2.toArray parts.1) := by
  rw [ofImage, h]

/-- Where the image ends within a part, this is the fault of loading it. -/
theorem ofImage_of_endOfInput {image : List UInt8} (h : scanParts image = .error .endOfInput) :
    ofImage image = .error .endOfInput := by
  rw [ofImage, h]

/-- **Truncated images and trailing bytes.** A script is read from the first bytes of its image:
what follows them may be anything, and no smaller number of them is enough. Where no script is read,
the image ends too early, and nothing else can be wrong with it. -/
theorem ofImage_selfDelimiting :
    (∀ (image : List UInt8) (script : Script), ofImage image = .ok script →
      ∃ count, ReadsFirst image count ∧
        (∀ tail, ofImage (image.take count ++ tail) = .ok script) ∧
        ∀ k < count, ofImage (image.take k) = .error .endOfInput) ∧
    (∀ image : List UInt8,
      (∃ script count, ofImage image = .ok script ∧ ReadsFirst image count) ∨
        ofImage image = .error .endOfInput) := by
  -- The script is made from the parts that are read, whatever is left behind them.
  have hdelimits := selfDelimiting_scanParts
  constructor
  · intro image script h
    obtain ⟨parts, rest, hparts, rfl⟩ := exists_parts_of_ofImage h
    obtain ⟨taken, rfl, htakes⟩ := hdelimits.exists_takes hparts
    refine ⟨taken.length, ⟨by simp, parts, ?_⟩, fun tail => ?_, fun k hk => ?_⟩
    · rw [List.drop_left, hparts]
    · rw [List.take_left]
      exact ofImage_of_scanParts (htakes tail)
    · rw [List.take_append_of_le_length (Nat.le_of_lt hk)]
      exact ofImage_of_endOfInput (hdelimits.truncated htakes hk)
  · intro image
    rcases hdelimits image with hend | ⟨taken, rest, parts, rfl, htakes⟩
    · exact .inr (ofImage_of_endOfInput hend)
    · refine .inl ⟨_, taken.length, ofImage_of_scanParts (htakes rest), by simp, parts, ?_⟩
      rw [List.drop_left, htakes]

/-- A table of one text. -/
def greeting : List Symbol :=
  [{ name := "HELLO", kind := .string, flags := Flags.none.add .const, value := .strings ["Hi"] }]

/-- The image of a script with that table, and two bytes that do not belong to it. -/
def trailedImage : List UInt8 := imageOf 50 [0] greeting [60] ++ [1, 2]

/-- An image with bytes behind it is loaded, with any other bytes behind it just the same, and no
shorter part of it is. -/
theorem ofImage_trailedImage : ∃ script, ofImage trailedImage = .ok script ∧
    script.symbols.toList = greeting ∧ ∃ count, count + 2 = trailedImage.length ∧
      ReadsFirst trailedImage count ∧
      (∀ tail, ofImage (trailedImage.take count ++ tail) = .ok script) ∧
      ∀ k < count, ofImage (trailedImage.take k) = .error .endOfInput := by
  have hparts : scanParts trailedImage = .ok ((greeting, [60]), [1, 2]) := rfl
  have himage := ofImage_of_scanParts hparts
  obtain ⟨count, hfirst, htail, htruncated⟩ := ofImage_selfDelimiting.1 trailedImage _ himage
  refine ⟨_, himage, rfl, count, ?_, hfirst, htail, htruncated⟩
  -- What is left of the image tells how much was read.
  obtain ⟨hle, parts, hleft⟩ := hfirst
  have hrest : [1, 2] = trailedImage.drop count :=
    congrArg Prod.snd (Except.ok.inj (hparts.symm.trans hleft))
  have hlength : 2 = trailedImage.length - count := by
    rw [← List.length_drop, ← hrest]
    rfl
  omega

end Script

end Daedalus
