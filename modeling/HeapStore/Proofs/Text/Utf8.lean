import HeapStore.Text.Utf8

/-!
Reading back what was written gives the same text, and what can be written is just what is valid. A
text is cut as late as possible, and to cut it a second time changes nothing. What reading makes of
other bytes is left open.
-/

namespace HeapStore.Utf8

theorem toNat_ofNat_of_lt {n : Nat} (h : n < 256) : (UInt8.ofNat n).toNat = n := by
  simp only [UInt8.toNat_ofNat']
  omega

theorem decodeFrom_cons (pending : Option Lead) (b : UInt8) (bs : List UInt8) :
    decodeFrom pending (b :: bs) =
      (step pending b.toNat).1 ++ decodeFrom (step pending b.toNat).2 bs := by
  cases pending <;> rfl

/-- The last byte of a character completes it. -/
theorem decodeFrom_last {low high bits b : Nat} (bs : List UInt8)
    (hl : low ≤ b) (hh : b ≤ high) (hb : b < 256) :
    decodeFrom (some ⟨1, low, high, bits⟩) (UInt8.ofNat b :: bs) =
      Char.ofNat (bits * 64 + b % 64) :: decodeFrom none bs := by
  rw [decodeFrom_cons, toNat_ofNat_of_lt hb]
  simp [step, hl, hh]

theorem decodeFrom_next {owed low high bits b : Nat} (bs : List UInt8)
    (hl : low ≤ b) (hh : b ≤ high) (hb : b < 256) :
    decodeFrom (some ⟨owed + 2, low, high, bits⟩) (UInt8.ofNat b :: bs) =
      decodeFrom (some ⟨owed + 1, 0x80, 0xBF, bits * 64 + b % 64⟩) bs := by
  rw [decodeFrom_cons, toNat_ofNat_of_lt hb]
  simp [step, hl, hh]

theorem start_two {b : Nat} (h2 : 0xC2 ≤ b) (h3 : b < 0xE0) :
    start b = ([], some ⟨1, 0x80, 0xBF, b - 0xC0⟩) := by
  rw [start, if_neg (by omega), if_neg (by omega), if_pos h3]

/-- The bounds on the byte after the first leave out exactly the long forms and the surrogates. -/
theorem start_three {b m : Nat} (hb : 0xE0 ≤ b) (hb' : b < 0xF0) (hm : m < 64)
    (long : b = 0xE0 → 32 ≤ m) (surrogate : b = 0xED → m < 32) :
    ∃ low high, start b = ([], some ⟨2, low, high, b - 0xE0⟩) ∧
      low ≤ 0x80 + m ∧ 0x80 + m ≤ high := by
  by_cases he : b = 0xE0
  · subst he
    exact ⟨0xA0, 0xBF, rfl, by omega, by omega⟩
  · by_cases hd : b = 0xED
    · subst hd
      exact ⟨0x80, 0x9F, rfl, by omega, by omega⟩
    · refine ⟨0x80, 0xBF, ?_, by omega, by omega⟩
      rw [start, if_neg (by omega), if_neg (by omega), if_neg (by omega), if_neg he, if_neg hd,
        if_pos hb']

theorem start_four {b m : Nat} (hb : 0xF0 ≤ b) (hb' : b ≤ 0xF4) (hm : m < 64)
    (long : b = 0xF0 → 16 ≤ m) (last : b = 0xF4 → m < 16) :
    ∃ low high, start b = ([], some ⟨3, low, high, b - 0xF0⟩) ∧
      low ≤ 0x80 + m ∧ 0x80 + m ≤ high := by
  by_cases h0 : b = 0xF0
  · subst h0
    exact ⟨0x90, 0xBF, rfl, by omega, by omega⟩
  · by_cases h4 : b = 0xF4
    · subst h4
      exact ⟨0x80, 0x8F, rfl, by omega, by omega⟩
    · refine ⟨0x80, 0xBF, ?_, by omega, by omega⟩
      rw [start, if_neg (by omega), if_neg (by omega), if_neg (by omega), if_neg (by omega),
        if_neg (by omega), if_neg (by omega), if_neg h0, if_pos (by omega)]

theorem toNat_valid (c : Char) : c.toNat < 0xD800 ∨ 0xDFFF < c.toNat ∧ c.toNat < 0x110000 :=
  c.valid

theorem decodeFrom_encodeChar (c : Char) (bs : List UInt8) :
    decodeFrom none (encodeChar c ++ bs) = c :: decodeFrom none bs := by
  have valid := toNat_valid c
  have back : Char.ofNat c.toNat = c := Char.ofNat_toNat c
  generalize hn : c.toNat = n at valid back
  simp only [encodeChar, hn]
  split
  next h1 =>
    rw [List.map_cons, List.map_nil, List.singleton_append, decodeFrom_cons,
      toNat_ofNat_of_lt (by omega)]
    simp [step, start, h1, back]
  next h1 =>
    split
    next h2 =>
      simp only [List.map_cons, List.map_nil, List.cons_append, List.nil_append]
      rw [decodeFrom_cons, toNat_ofNat_of_lt (by omega), step,
        start_two (by omega) (by omega), List.nil_append,
        decodeFrom_last _ (by omega) (by omega) (by omega)]
      have bits : (0xC0 + n / 64 - 0xC0) * 64 + (0x80 + n % 64) % 64 = n := by omega
      rw [bits, back]
    next h2 =>
      split
      next h3 =>
        obtain ⟨low, high, hs, hl, hh⟩ :=
          start_three (b := 0xE0 + n / 4096) (m := n / 64 % 64) (by omega) (by omega) (by omega)
            (by omega) (by omega)
        simp only [List.map_cons, List.map_nil, List.cons_append, List.nil_append]
        rw [decodeFrom_cons, toNat_ofNat_of_lt (by omega), step, hs, List.nil_append,
          decodeFrom_next _ hl hh (by omega),
          decodeFrom_last _ (by omega) (by omega) (by omega)]
        have bits : ((0xE0 + n / 4096 - 0xE0) * 64 + (0x80 + n / 64 % 64) % 64) * 64 +
            (0x80 + n % 64) % 64 = n := by omega
        rw [bits, back]
      next h3 =>
        obtain ⟨low, high, hs, hl, hh⟩ :=
          start_four (b := 0xF0 + n / 262144) (m := n / 4096 % 64) (by omega) (by omega)
            (by omega) (by omega) (by omega)
        simp only [List.map_cons, List.map_nil, List.cons_append, List.nil_append]
        rw [decodeFrom_cons, toNat_ofNat_of_lt (by omega), step, hs, List.nil_append,
          decodeFrom_next _ hl hh (by omega),
          decodeFrom_next _ (by omega) (by omega) (by omega),
          decodeFrom_last _ (by omega) (by omega) (by omega)]
        have bits : (((0xF0 + n / 262144 - 0xF0) * 64 + (0x80 + n / 4096 % 64) % 64) * 64 +
            (0x80 + n / 64 % 64) % 64) * 64 + (0x80 + n % 64) % 64 = n := by omega
        rw [bits, back]

theorem decode_encode (cs : List Char) : decode (encode cs) = cs := by
  induction cs with
  | nil => rfl
  | cons c cs ih =>
      simp only [decode, encode, List.flatMap_cons, decodeFrom_encodeChar] at ih ⊢
      rw [ih]

@[simp] theorem length_encodeChar (c : Char) : (encodeChar c).length = width c := by
  simp only [encodeChar, width, List.length_map]
  split
  · rfl
  · split
    · rfl
    · split <;> rfl

theorem length_encode (cs : List Char) : (encode cs).length = size cs := by
  induction cs with
  | nil => rfl
  | cons c cs ih =>
      simp only [encode, size, List.flatMap_cons, List.length_append, length_encodeChar] at ih ⊢
      rw [ih]

/-- The library says the same of a character. -/
theorem encodeChar_eq (c : Char) : encodeChar c = String.utf8EncodeChar c := by
  have valid := toNat_valid c
  have val : c.val.toNat = c.toNat := rfl
  rw [encodeChar, String.utf8EncodeChar, val]
  generalize c.toNat = n at valid
  by_cases one : n < 0x80
  · rw [if_pos one, if_pos (by omega), List.map_cons, List.map_nil]
  · by_cases two : n < 0x800
    · have lead : 0xC0 + n / 64 = n / 64 % 32 + 192 := by omega
      rw [if_neg one, if_pos two, if_neg (by omega), if_pos (by omega), lead, Nat.add_comm 0x80]
      rfl
    · by_cases three : n < 0x10000
      · have lead : 0xE0 + n / 4096 = n / 4096 % 16 + 224 := by omega
        rw [if_neg one, if_neg two, if_pos three, if_neg (by omega), if_neg (by omega),
          if_pos (by omega), lead, Nat.add_comm 0x80, Nat.add_comm 0x80]
        rfl
      · have lead : 0xF0 + n / 262144 = n / 262144 % 8 + 240 := by omega
        rw [if_neg one, if_neg two, if_neg three, if_neg (by omega), if_neg (by omega),
          if_neg (by omega), lead, Nat.add_comm 0x80, Nat.add_comm 0x80, Nat.add_comm 0x80]
        rfl

theorem toByteArray_encode (cs : List Char) : (encode cs).toByteArray = cs.utf8Encode := by
  rw [encode, funext encodeChar_eq]
  rfl

/-- What is written is exactly what is valid. -/
theorem isValidUTF8_iff (bs : List UInt8) :
    bs.toByteArray.IsValidUTF8 ↔ ∃ cs, bs = encode cs := by
  constructor
  · rintro ⟨cs, h⟩
    rw [← toByteArray_encode] at h
    exact ⟨cs, List.toByteArray_inj.mp h⟩
  · rintro ⟨cs, rfl⟩
    exact ⟨cs, toByteArray_encode cs⟩

/-- A text takes as many bytes as the library counts. -/
theorem size_toList (s : String) : size s.toList = s.utf8ByteSize := by
  rw [← length_encode, ← List.size_toByteArray, toByteArray_encode, ← String.toByteArray_ofList,
    String.ofList_toList, String.size_toByteArray]

theorem size_cut_le (room : Nat) (cs : List Char) : size (cut room cs) ≤ room := by
  induction cs generalizing room with
  | nil => simp [cut, size]
  | cons c cs ih =>
      simp only [cut]
      split
      next h =>
        have := ih (room - width c)
        simp only [size]
        omega
      next => simp [size]

/-- What is kept of a text has room. -/
theorem length_encode_cut_le (room : Nat) (cs : List Char) :
    (encode (cut room cs)).length ≤ room := by
  rw [length_encode]
  exact size_cut_le room cs

theorem cut_eq_self {room : Nat} {cs : List Char} (h : size cs ≤ room) : cut room cs = cs := by
  induction cs generalizing room with
  | nil => rfl
  | cons c cs ih =>
      simp only [size] at h
      rw [cut, if_pos (by omega), ih (by omega)]

theorem cut_cut (room : Nat) (cs : List Char) : cut room (cut room cs) = cut room cs :=
  cut_eq_self (size_cut_le room cs)

theorem cut_prefix (room : Nat) (cs : List Char) : cut room cs <+: cs := by
  induction cs generalizing room with
  | nil => exact List.prefix_rfl
  | cons c cs ih =>
      rw [cut]
      split
      · exact List.cons_prefix_cons.mpr ⟨rfl, ih _⟩
      · exact List.nil_prefix

/-- No initial part that fits is longer. -/
theorem prefix_cut {room : Nat} {cs ds : List Char} (h : ds <+: cs) (fits : size ds ≤ room) :
    ds <+: cut room cs := by
  induction cs generalizing room ds with
  | nil => exact h
  | cons c cs ih =>
      cases ds with
      | nil => exact List.nil_prefix
      | cons d ds =>
          obtain ⟨rfl, rest⟩ := List.cons_prefix_cons.mp h
          rw [size] at fits
          rw [cut, if_pos (by omega)]
          exact List.cons_prefix_cons.mpr ⟨rfl, ih rest (by omega)⟩

end HeapStore.Utf8
