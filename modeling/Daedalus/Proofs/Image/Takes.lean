import Daedalus.Image.Scan

/-! # What scanners take

A scanner takes bytes for a value if it reads that value off the front of every sequence that starts
with these bytes, and leaves what follows. Scanners one behind the other take bytes one behind the
other, so the form of an image is settled part by part. The other way round, a successful run of
scanners one behind the other consists of successful runs of each. -/

namespace Daedalus.Scan

variable {α β : Type} {read : Scan α}

/-- The scanner reads `x` off the front of whatever starts with `bytes`, and leaves the rest. -/
def Takes (read : Scan α) (bytes : List UInt8) (x : α) : Prop :=
  ∀ rest, read (bytes ++ rest) = .ok (x, rest)

/-! ### Scanners one behind the other -/

/-- What reads nothing takes no bytes. -/
theorem takes_pure (x : α) : Takes (pure x) [] x := fun _ => rfl

/-- Readers one behind the other take the bytes of both. -/
theorem Takes.bind {next : α → Scan β} {first second : List UInt8} {x : α} {y : β}
    (hread : Takes read first x) (hnext : Takes (next x) second y) :
    Takes (read >>= next) (first ++ second) y := by
  intro rest
  rw [List.append_assoc]
  change (read (first ++ (second ++ rest)) >>= fun out => next out.1 out.2) = .ok (y, rest)
  rw [hread]
  exact hnext rest

/-- What is made of a value is taken from the bytes of the value. -/
theorem Takes.map {bytes : List UInt8} {x : α} (f : α → β) (hread : Takes read bytes x) :
    Takes (f <$> read) bytes (f x) := by
  intro rest
  change (read (bytes ++ rest) >>= fun out => .ok (f out.1, out.2)) = .ok (f x, rest)
  rw [hread]
  rfl

/-- A last value needs no bytes of its own. -/
theorem Takes.bind_pure {bytes : List UInt8} {x : α} (f : α → β) (hread : Takes read bytes x) :
    Takes (read >>= fun x => pure (f x)) bytes (f x) := by
  rw [bind_pure_comp]
  exact hread.map f

/-- A run of two scanners consists of a run of each. -/
theorem exists_of_bind {next : α → Scan β} {input rest : List UInt8} {y : β}
    (h : (read >>= next) input = .ok (y, rest)) :
    ∃ x between, read input = .ok (x, between) ∧ next x between = .ok (y, rest) := by
  change (read input >>= fun out => next out.1 out.2) = .ok (y, rest) at h
  cases hread : read input with
  | error fault => rw [hread] at h; cases h
  | ok out => rw [hread] at h; exact ⟨out.1, out.2, rfl, h⟩

/-- What reads nothing gives its own result. -/
theorem eq_of_pure {x y : α} {input rest : List UInt8}
    (h : (pure x : Scan α) input = .ok (y, rest)) : y = x := by
  cases h
  rfl

/-! ### Bytes, words and lines -/

/-- A byte is read from itself. -/
theorem takes_byte (b : UInt8) : Takes byte [b] b := fun _ => rfl

/-- A word is read from its four bytes. -/
theorem takes_word (w : UInt32) : Takes word (Word.toBytes w) w := by
  intro rest
  simp [Word.toBytes, word]

/-- Bytes are read as they are. -/
theorem takes_bytes (xs : List UInt8) : Takes (bytes xs.length) xs xs := by
  intro rest
  rw [bytes, if_pos (by simp), List.take_left, List.drop_left]

/-- A line is read up to its end, which is taken with it. -/
theorem takes_line {xs : List UInt8} (h : 10 ∉ xs) : Takes line (xs ++ [10]) xs := by
  intro rest
  have hall : ∀ b ∈ xs, (b != 10) = true := by
    intro b hb
    exact bne_iff_ne.mpr fun hten => h (hten ▸ hb)
  rw [List.append_assoc, List.singleton_append, line, List.dropWhile_append_of_pos hall,
    List.takeWhile_append_of_pos hall]
  simp

/-- A line does not hold a line feed. -/
theorem not_mem_of_line {xs input rest : List UInt8} (h : line input = .ok (xs, rest)) :
    10 ∉ xs := by
  unfold line at h
  split at h
  · cases h
    intro hmem
    have hall := List.all_eq_true.mp List.all_takeWhile 10 hmem
    exact absurd hall (by decide)
  · cases h

/-- As many bytes are read as are asked for. -/
theorem length_of_bytes {count : Nat} {xs input rest : List UInt8}
    (h : bytes count input = .ok (xs, rest)) : xs.length = count := by
  unfold bytes at h
  split at h
  · next hle =>
    cases h
    rw [List.length_take, Nat.min_eq_left hle]
  · cases h

/-! ### Repeated scanners -/

/-- What is read a number of times is taken value by value. -/
theorem takes_timesOnto {write : α → List UInt8} {xs : List α}
    (h : ∀ x ∈ xs, Takes read (write x) x) (before : Array α) :
    Takes (timesOnto read before xs.length) (xs.flatMap write) (before ++ xs.toArray) := by
  induction xs generalizing before with
  | nil =>
    intro rest
    simp [timesOnto]
  | cons x xs ih =>
    intro rest
    rw [List.flatMap_cons, List.append_assoc, List.length_cons, timesOnto,
      h x List.mem_cons_self]
    simpa using ih (fun x hx => h x (List.mem_cons_of_mem _ hx)) (before.push x) rest

/-- Things that were written one behind the other are read one behind the other. -/
theorem takes_times {write : α → List UInt8} {xs : List α}
    (h : ∀ x ∈ xs, Takes read (write x) x) :
    Takes (times read xs.length) (xs.flatMap write) xs := by
  have htimes := (takes_timesOnto h #[]).map Array.toList
  simpa [times] using htimes

/-- What is read a number of times is that many values, each of which was read. -/
theorem exists_of_timesOnto {before xs : Array α} {count : Nat} {input rest : List UInt8}
    (h : timesOnto read before count input = .ok (xs, rest)) :
    xs.size = before.size + count ∧
      ∀ x ∈ xs, x ∈ before ∨ ∃ input rest, read input = .ok (x, rest) := by
  induction count generalizing before input with
  | zero =>
    cases h
    exact ⟨rfl, fun x hx => .inl hx⟩
  | succ count ih =>
    rw [timesOnto] at h
    split at h
    · next x between hread =>
      obtain ⟨hsize, hmem⟩ := ih h
      refine ⟨by rw [hsize, Array.size_push]; omega, fun y hy => ?_⟩
      rcases hmem y hy with hbefore | hnew
      · -- What was read before is older than `x`, or it is `x`.
        rcases Array.mem_push.mp hbefore with hold | rfl
        · exact .inl hold
        · exact .inr ⟨input, between, hread⟩
      · exact .inr hnew
    · cases h

/-- As many things are read as are asked for, and each of them was read from somewhere. -/
theorem exists_of_times {xs : List α} {count : Nat} {input rest : List UInt8}
    (h : times read count input = .ok (xs, rest)) :
    xs.length = count ∧ ∀ x ∈ xs, ∃ input rest, read input = .ok (x, rest) := by
  rw [times, ← bind_pure_comp] at h
  obtain ⟨array, between, hread, hlist⟩ := exists_of_bind h
  obtain rfl := eq_of_pure hlist
  obtain ⟨hsize, hmem⟩ := exists_of_timesOnto hread
  refine ⟨by simpa using hsize, fun x hx => ?_⟩
  rcases hmem x (Array.mem_toList_iff.mp hx) with hnone | hnew
  · simp at hnone
  · exact hnew

end Daedalus.Scan
