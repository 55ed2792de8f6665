import HeapStore.Proofs.Text.Utf8
import HeapStore.Text.Boundary

/-!
Going back from any offset of any bytes comes to the last boundary up to there. In what is written
for a text the boundaries are the ends of its initial parts, so the way back from the limit of a cut
ends where the cut is made.
-/

namespace HeapStore.Utf8

/-- `offset` is the last boundary that is not past `limit`. -/
structure LastBoundary (text : List UInt8) (limit offset : Nat) : Prop where
  boundary : isBoundary text offset
  within : offset ≤ limit
  last : ∀ later, isBoundary text later → later ≤ limit → later ≤ offset

theorem isBoundary_zero (text : List UInt8) : isBoundary text 0 :=
  rfl

theorem isBoundary_le {text : List UInt8} {offset : Nat} (h : isBoundary text offset) :
    offset ≤ text.length := by
  cases here : text[offset]? with
  | some b => exact Nat.le_of_lt (List.getElem?_eq_some_iff.mp here).1
  | none =>
      simp only [isBoundary, here, Bool.or_eq_true, beq_iff_eq] at h
      omega

theorem LastBoundary.unique {text : List UInt8} {limit m n : Nat} (h : LastBoundary text limit m)
    (h' : LastBoundary text limit n) : m = n :=
  Nat.le_antisymm (h'.last m h.boundary h.within) (h.last n h'.boundary h'.within)

/-- The way back comes to an end, and never goes below zero. -/
theorem backUp?_eq (text : List UInt8) (limit : Nat) :
    ∃ offset, backUp? text limit = some offset ∧ LastBoundary text limit offset := by
  induction limit with
  | zero => exact ⟨0, rfl, rfl, Nat.le_refl 0, fun _ _ h => h⟩
  | succ limit ih =>
      cases here : isBoundary text (limit + 1) with
      | true =>
          have found : backUp? text (limit + 1) = some (limit + 1) := by
            rw [backUp?, here, if_pos rfl]
          exact ⟨limit + 1, found, here, Nat.le_refl _, fun _ _ h => h⟩
      | false =>
          obtain ⟨offset, back, found⟩ := ih
          refine ⟨offset, by rw [backUp?, here]; exact back, found.boundary, ?_, ?_⟩
          · exact Nat.le_succ_of_le found.within
          · intro later boundary within
            cases Nat.lt_or_eq_of_le within with
            | inl before => exact found.last later boundary (Nat.le_of_lt_succ before)
            | inr same =>
                rw [same, here] at boundary
                cases boundary

/-- No boundary is past the end of the text, so it is the same to start from there. -/
theorem backUp?_min (text : List UInt8) (limit : Nat) :
    ∃ offset, backUp? text (min text.length limit) = some offset ∧
      LastBoundary text limit offset := by
  obtain ⟨offset, back, found⟩ := backUp?_eq text (min text.length limit)
  refine ⟨offset, back, found.boundary, Nat.le_trans found.within (Nat.min_le_right ..), ?_⟩
  intro later boundary within
  exact found.last later boundary (Nat.le_min.mpr ⟨isBoundary_le boundary, within⟩)

/-- The first byte of a character shows that it is one, and so do the others. -/
theorem encodeChar_eq_cons (c : Char) :
    ∃ first rest, encodeChar c = first :: rest ∧ continues first = false ∧
      ∀ b ∈ rest, continues b = true := by
  have valid := toNat_valid c
  have starts {n : Nat} (h : n < 0x80 ∨ 0xC0 ≤ n) (byte : n < 256) :
      continues (UInt8.ofNat n) = false := by
    simp only [continues, toNat_ofNat_of_lt byte, Bool.and_eq_false_iff, decide_eq_false_iff_not]
    omega
  have goesOn {n : Nat} (h : n < 64) : continues (UInt8.ofNat (0x80 + n)) = true := by
    have byte : 0x80 + n < 256 := by omega
    simp only [continues, toNat_ofNat_of_lt byte, Bool.and_eq_true, decide_eq_true_eq]
    omega
  have small (n : Nat) : n % 64 < 64 := Nat.mod_lt n (by decide)
  simp only [encodeChar]
  split
  next => exact ⟨_, _, rfl, starts (by omega) (by omega), List.forall_mem_nil _⟩
  next =>
    split
    next =>
      refine ⟨_, _, rfl, starts (by omega) (by omega), ?_⟩
      exact List.forall_mem_singleton.mpr (goesOn (small _))
    next =>
      split
      next =>
        refine ⟨_, _, rfl, starts (by omega) (by omega), ?_⟩
        exact List.forall_mem_cons.mpr
          ⟨goesOn (small _), List.forall_mem_singleton.mpr (goesOn (small _))⟩
      next =>
        refine ⟨_, _, rfl, starts (by omega) (by omega), ?_⟩
        exact List.forall_mem_cons.mpr ⟨goesOn (small _), List.forall_mem_cons.mpr
          ⟨goesOn (small _), List.forall_mem_singleton.mpr (goesOn (small _))⟩⟩

theorem width_pos (c : Char) : 0 < width c := by
  unfold width
  split
  · decide
  · split
    · decide
    · split <;> decide

/-- Inside of a character there is no boundary. -/
theorem isBoundary_inside {c : Char} {offset : Nat} (rest : List UInt8) (after : 0 < offset)
    (before : offset < width c) : isBoundary (encodeChar c ++ rest) offset = false := by
  obtain ⟨first, tail, bytes, _, goesOn⟩ := encodeChar_eq_cons c
  have length := length_encodeChar c
  rw [bytes, List.length_cons] at length
  obtain ⟨i, rfl⟩ : ∃ i, offset = i + 1 := ⟨offset - 1, by omega⟩
  have inside : i < tail.length := by omega
  have here : (encodeChar c ++ rest)[i + 1]? = some tail[i] := by
    rw [bytes, List.cons_append, List.getElem?_cons_succ, List.getElem?_append_left inside,
      List.getElem?_eq_getElem inside]
  simp [isBoundary, here, goesOn _ (List.getElem_mem inside)]

/-- Behind a character the boundaries are those of the rest. -/
theorem isBoundary_behind (c : Char) (cs : List Char) (offset : Nat) :
    isBoundary (encodeChar c ++ encode cs) (width c + offset) = isBoundary (encode cs) offset := by
  have pos := width_pos c
  have length := length_encodeChar c
  have here : (encodeChar c ++ encode cs)[width c + offset]? = (encode cs)[offset]? := by
    rw [List.getElem?_append_right (by omega), length, Nat.add_sub_cancel_left]
  have notFirst : (width c + offset == 0) = false := by
    rw [beq_eq_false_iff_ne]
    omega
  have whole : (width c + offset == (encodeChar c ++ encode cs).length) =
      (offset == (encode cs).length) := by
    rw [List.length_append, length, Bool.eq_iff_iff, beq_iff_eq, beq_iff_eq]
    omega
  simp only [isBoundary, here, notFirst, whole, Bool.false_or]
  cases offset with
  | succ offset => rfl
  | zero =>
      cases cs with
      | nil => rfl
      | cons d ds =>
          obtain ⟨first, tail, bytes, starts, _⟩ := encodeChar_eq_cons d
          have head : (encode (d :: ds))[0]? = some first := by
            rw [encode, List.flatMap_cons, bytes, List.cons_append, List.getElem?_cons_zero]
          simp [head, starts]

/-- The boundaries of a text are the places where an initial part of it ends. -/
theorem isBoundary_encode_iff (cs : List Char) (offset : Nat) :
    isBoundary (encode cs) offset ↔ ∃ ds, ds <+: cs ∧ size ds = offset := by
  induction cs generalizing offset with
  | nil =>
      have only : isBoundary (encode []) offset ↔ offset = 0 := by
        simp [isBoundary, encode]
      rw [only]
      constructor
      · rintro rfl
        exact ⟨[], List.prefix_rfl, rfl⟩
      · rintro ⟨ds, initial, rfl⟩
        rw [List.prefix_nil.mp initial, size]
  | cons c cs ih =>
      have text : encode (c :: cs) = encodeChar c ++ encode cs := by
        rw [encode, List.flatMap_cons]
        rfl
      rw [text]
      constructor
      · intro boundary
        rcases Nat.lt_or_ge offset (width c) with before | behind
        · rcases Nat.eq_zero_or_pos offset with rfl | after
          · exact ⟨[], List.nil_prefix, rfl⟩
          · rw [isBoundary_inside (encode cs) after before] at boundary
            cases boundary
        · obtain ⟨offset, rfl⟩ := Nat.exists_eq_add_of_le behind
          rw [isBoundary_behind] at boundary
          obtain ⟨ds, initial, rfl⟩ := (ih offset).mp boundary
          exact ⟨c :: ds, List.cons_prefix_cons.mpr ⟨rfl, initial⟩, rfl⟩
      · rintro ⟨ds, initial, rfl⟩
        cases ds with
        | nil => exact isBoundary_zero _
        | cons d ds =>
            obtain ⟨rfl, rest⟩ := List.cons_prefix_cons.mp initial
            rw [size, isBoundary_behind]
            exact (ih (size ds)).mpr ⟨ds, rest, rfl⟩

theorem size_append (cs ds : List Char) : size (cs ++ ds) = size cs + size ds := by
  rw [← length_encode, encode, List.flatMap_append, List.length_append, ← encode, ← encode,
    length_encode, length_encode]

/-- A text is cut at the last boundary that is not past the room there is. -/
theorem lastBoundary_cut (room : Nat) (cs : List Char) :
    LastBoundary (encode cs) room (size (cut room cs)) where
  boundary := (isBoundary_encode_iff cs _).mpr ⟨cut room cs, cut_prefix room cs, rfl⟩
  within := size_cut_le room cs
  last later boundary within := by
    obtain ⟨ds, initial, rfl⟩ := (isBoundary_encode_iff cs later).mp boundary
    obtain ⟨rest, whole⟩ := prefix_cut initial within
    rw [← whole, size_append]
    exact Nat.le_add_right ..

/-- The bytes in front of the cut are those of what is kept. -/
theorem take_size_cut (room : Nat) (cs : List Char) :
    (encode cs).take (size (cut room cs)) = encode (cut room cs) := by
  obtain ⟨rest, whole⟩ := cut_prefix room cs
  have bytes : encode cs = encode (cut room cs) ++ encode rest := by
    rw [encode, ← whole, List.flatMap_append, whole]
    rfl
  rw [bytes, ← length_encode, List.take_left]

end HeapStore.Utf8
