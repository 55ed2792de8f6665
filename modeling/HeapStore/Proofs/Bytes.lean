import HeapStore.Bytes

/-!
Numbers and bits survive being written as bytes. A file is seen as an endless run of bytes, zero
from its end on: a write changes the bytes it covers and no others, wherever it starts.
-/

namespace HeapStore.Bytes

theorem toNat32_ofNat32 {n : Nat} (h : n < 4294967296) (rest : List UInt8) :
    toNat32 (ofNat32 n ++ rest) = n := by
  simp only [toNat32, ofNat32, List.map_cons, List.map_nil, List.cons_append, List.nil_append,
    List.take_succ_cons, List.take_zero, List.foldl_cons, List.foldl_nil, UInt8.toNat_ofNat']
  omega

theorem toNat32_take {n : Nat} (h : 4 ≤ n) (bs : List UInt8) :
    toNat32 (bs.take n) = toNat32 bs := by
  rw [toNat32, toNat32, List.take_take, Nat.min_eq_left h]

theorem toNat32_lt {bs : List UInt8} (h : bs.length = 4) : toNat32 bs < 4294967296 := by
  match bs, h with
  | [a, b, c, d], _ =>
    have ha := a.toNat_lt
    have hb := b.toNat_lt
    have hc := c.toNat_lt
    have hd := d.toNat_lt
    simp only [toNat32, List.take_succ_cons, List.take_zero, List.foldl_cons, List.foldl_nil]
    omega

/-- Any four bytes are a number, and are what is written for it. -/
theorem ofNat32_toNat32 {bs : List UInt8} (h : bs.length = 4) : ofNat32 (toNat32 bs) = bs := by
  match bs, h with
  | [a, b, c, d], _ =>
    have ha := a.toNat_lt
    have hb := b.toNat_lt
    have hc := c.toNat_lt
    have hd := d.toNat_lt
    simp only [toNat32, ofNat32, List.take_succ_cons, List.take_zero, List.foldl_cons,
      List.foldl_nil, List.map_cons, List.map_nil, List.cons.injEq, and_true]
    refine ⟨?_, ?_, ?_, ?_⟩ <;>
      · apply UInt8.toNat_inj.mp
        rw [UInt8.toNat_ofNat']
        omega

theorem bitsOf_ofBits (a b c d e f g h : Bool) :
    bitsOf (ofBits a b c d e f g h) = [a, b, c, d, e, f, g, h] := by
  cases a <;> cases b <;> cases c <;> cases d <;> cases e <;> cases f <;> cases g <;> cases h <;>
    decide

theorem ofBits_bitsOf (x : UInt8) :
    ∃ a b c d e f g h, bitsOf x = [a, b, c, d, e, f, g, h] ∧ ofBits a b c d e f g h = x := by
  refine ⟨_, _, _, _, _, _, _, _, rfl, UInt8.toNat_inj.mp ?_⟩
  have hx := x.toNat_lt
  simp only [ofBits, UInt8.toNat_ofNat', Nat.toNat_testBit]
  omega

/-- Bits come in groups of eight; `n` is the number of groups. -/
theorem unpack_pack {n : Nat} {bits : List Bool} (h : bits.length = 8 * n) :
    unpack (pack bits) = bits := by
  induction n generalizing bits with
  | zero => simp_all [pack, unpack]
  | succ n ih =>
      match bits, h with
      | a :: b :: c :: d :: e :: f :: g :: i :: rest, h =>
        have hr : rest.length = 8 * n := by simpa [Nat.mul_succ] using h
        have := ih hr
        simp only [unpack, pack, List.flatMap_cons, bitsOf_ofBits] at this ⊢
        rw [this]
        rfl

theorem length_pack {n : Nat} {bits : List Bool} (h : bits.length = 8 * n) :
    (pack bits).length = n := by
  induction n generalizing bits with
  | zero => simp_all [pack]
  | succ n ih =>
      match bits, h with
      | a :: b :: c :: d :: e :: f :: g :: i :: rest, h =>
        have hr : rest.length = 8 * n := by simpa [Nat.mul_succ] using h
        simp [pack, ih hr]

theorem length_unpack (bs : List UInt8) : (unpack bs).length = 8 * bs.length := by
  induction bs with
  | nil => rfl
  | cons b bs ih =>
      simp only [unpack, List.flatMap_cons, List.length_append, List.length_cons] at ih ⊢
      rw [ih]
      simp [bitsOf]
      omega

theorem pack_unpack (bs : List UInt8) : pack (unpack bs) = bs := by
  induction bs with
  | nil => rfl
  | cons x bs ih =>
      obtain ⟨a, b, c, d, e, f, g, h, bits, back⟩ := ofBits_bitsOf x
      simp only [unpack, List.flatMap_cons, bits, List.cons_append, List.nil_append, pack, back]
        at ih ⊢
      rw [ih]

theorem getElem?_unpack (bs : List UInt8) (i : Nat) :
    (unpack bs)[i]? = bs[i / 8]?.map fun b => b.toNat.testBit (i % 8) := by
  induction bs generalizing i with
  | nil => rfl
  | cons x bs ih =>
      have length : (bitsOf x).length = 8 := by simp [bitsOf]
      simp only [unpack, List.flatMap_cons, List.getElem?_append, length] at ih ⊢
      by_cases hi : i < 8
      · rw [if_pos hi, Nat.div_eq_of_lt hi, Nat.mod_eq_of_lt hi]
        simp [bitsOf, hi]
      · have next : i / 8 = (i - 8) / 8 + 1 := by omega
        have same : i % 8 = (i - 8) % 8 := by omega
        rw [if_neg hi, ih, next, List.getElem?_cons_succ, same]

theorem unpack_zeros (n : Nat) : unpack (zeros n) = List.replicate (8 * n) false := by
  induction n with
  | zero => rfl
  | succ n ih =>
      have hz : zeros (n + 1) = 0 :: zeros n := rfl
      have hb : bitsOf 0 = List.replicate 8 false := by decide
      simp only [unpack, hz, List.flatMap_cons] at ih ⊢
      rw [ih, hb, List.replicate_append_replicate, Nat.mul_succ, Nat.add_comm]

theorem resize_eq_append {bs : List UInt8} {n : Nat} (h : bs.length ≤ n) :
    resize bs n = bs ++ zeros (n - bs.length) := by
  rw [resize, List.take_of_length_le h]

theorem readAt?_of_le {bs : List UInt8} {offset n : Nat} (h : offset + n ≤ bs.length) :
    readAt? bs offset n = some ((bs.drop offset).take n) :=
  if_pos h

/-- Byte `i`, or zero where there is none. -/
def byteAt (bs : List UInt8) (i : Nat) : UInt8 :=
  bs.getD i 0

theorem byteAt_of_length_le {bs : List UInt8} {i : Nat} (h : bs.length ≤ i) :
    byteAt bs i = 0 := by
  simp [byteAt, List.getD_eq_getElem?_getD, List.getElem?_eq_none h]

@[simp] theorem byteAt_zeros (n i : Nat) : byteAt (zeros n) i = 0 := by
  simp only [byteAt, zeros, List.getD_eq_getElem?_getD, List.getElem?_replicate]
  split <;> rfl

theorem byteAt_append (xs ys : List UInt8) (i : Nat) :
    byteAt (xs ++ ys) i = if i < xs.length then byteAt xs i else byteAt ys (i - xs.length) := by
  simp only [byteAt, List.getD_eq_getElem?_getD, List.getElem?_append]
  split <;> rfl

theorem byteAt_drop (bs : List UInt8) (n i : Nat) : byteAt (bs.drop n) i = byteAt bs (n + i) := by
  simp [byteAt, List.getD_eq_getElem?_getD]

theorem byteAt_take (bs : List UInt8) (n i : Nat) :
    byteAt (bs.take n) i = if i < n then byteAt bs i else 0 := by
  simp only [byteAt, List.getD_eq_getElem?_getD, List.getElem?_take]
  split <;> rfl

theorem byteAt_resize (bs : List UInt8) (n i : Nat) :
    byteAt (resize bs n) i = if i < n then byteAt bs i else 0 := by
  simp only [resize, byteAt_append, byteAt_take, byteAt_zeros, List.length_take]
  by_cases hn : i < n
  · by_cases hb : i < bs.length
    · rw [if_pos (by omega), if_pos hn]
    · rw [if_neg (by omega), if_pos hn, byteAt_of_length_le (Nat.le_of_not_lt hb)]
  · rw [if_neg (by omega), if_neg hn]

theorem eq_of_byteAt {xs ys : List UInt8} (hl : xs.length = ys.length)
    (h : ∀ i < xs.length, byteAt xs i = byteAt ys i) : xs = ys := by
  apply List.ext_getElem hl
  intro i hx hy
  simpa [byteAt, List.getD_eq_getElem?_getD, hx, hy] using h i hx

theorem byteAt_writeAt (bs : List UInt8) (offset : Nat) (data : List UInt8) (i : Nat) :
    byteAt (writeAt bs offset data) i =
      if offset ≤ i ∧ i < offset + data.length then byteAt data (i - offset)
      else byteAt bs i := by
  unfold writeAt
  split
  next h =>
    rw [if_neg]
    simp only [h, List.length_nil]
    omega
  next h =>
    simp only [byteAt_append, byteAt_drop, byteAt_resize, List.length_append, length_resize]
    by_cases h1 : i < offset
    · rw [if_pos (by omega), if_pos h1, if_pos h1, if_neg (by omega)]
    · by_cases h2 : i < offset + data.length
      · rw [if_pos h2, if_neg h1, if_pos (by omega)]
      · rw [if_neg h2, if_neg (by omega)]
        congr 1
        omega

theorem length_writeAt {bs : List UInt8} {offset : Nat} {data : List UInt8} (h : data ≠ []) :
    (writeAt bs offset data).length = max bs.length (offset + data.length) := by
  simp only [writeAt, if_neg h, List.length_append, List.length_drop, length_resize]
  omega

/-- The `n`-th run of `size` bytes, with zeros for what is past the end. -/
def block (bs : List UInt8) (size n : Nat) : List UInt8 :=
  resize (bs.drop (n * size)) size

@[simp] theorem length_block (bs : List UInt8) (size n : Nat) : (block bs size n).length = size :=
  length_resize _ _

theorem byteAt_block (bs : List UInt8) (size n i : Nat) :
    byteAt (block bs size n) i = if i < size then byteAt bs (n * size + i) else 0 := by
  simp only [block, byteAt_resize, byteAt_drop]

theorem block_writeAt_same {bs data : List UInt8} {size : Nat} (n : Nat)
    (h : data.length = size) : block (writeAt bs (n * size) data) size n = data := by
  apply eq_of_byteAt
  · simp [h]
  · intro i hi
    rw [length_block] at hi
    rw [byteAt_block, if_pos hi, byteAt_writeAt, if_pos (by omega)]
    congr 1
    omega

theorem block_writeAt_of_ne {bs data : List UInt8} {size n m : Nat} (h : data.length = size)
    (hne : m ≠ n) : block (writeAt bs (n * size) data) size m = block bs size m := by
  apply eq_of_byteAt
  · simp
  · intro i hi
    rw [length_block] at hi
    rw [byteAt_block, byteAt_block, if_pos hi, if_pos hi, byteAt_writeAt, if_neg]
    rcases Nat.lt_or_gt_of_ne hne with hlt | hgt
    · have : (m + 1) * size ≤ n * size := Nat.mul_le_mul_right size hlt
      rw [Nat.succ_mul] at this
      omega
    · have : (n + 1) * size ≤ m * size := Nat.mul_le_mul_right size hgt
      rw [Nat.succ_mul] at this
      omega

end HeapStore.Bytes
