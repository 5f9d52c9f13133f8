import RegIR.Memory.Lemmas
/-!
# Words in memory

A word is determined by its bytes, so a move carries words along and leaves the words outside its
destination alone.  Each law of moves is stated once here, on bytes, and read off for words.
-/

namespace RegIR

/-! ## 1. Words and their bytes -/

namespace Bytes

/-- Joining the four bytes of a word gives back the word. -/
@[simp] theorem joinWord32_bytes (w : UInt32) :
    joinWord32 w.toUInt8 (w >>> 8).toUInt8 (w >>> 16).toUInt8 (w >>> 24).toUInt8 = w := by
  -- Bit by bit: each bit comes from exactly one of the four bytes.
  apply UInt32.eq_of_toBitVec_eq
  apply BitVec.eq_of_getLsbD_eq
  intro i hi
  simp only [joinWord32, UInt32.toBitVec_or, UInt32.toBitVec_shiftLeft, UInt8.toBitVec_toUInt32,
    UInt32.toBitVec_toUInt8, UInt32.toBitVec_shiftRight, BitVec.getLsbD_or]
  simp
  grind

@[simp] theorem joinWord64_bytes (w : UInt64) :
    joinWord64
      (joinWord32 w.toUInt8 (w >>> 8).toUInt8 (w >>> 16).toUInt8 (w >>> 24).toUInt8)
      (joinWord32 (w >>> 32).toUInt8 (w >>> 40).toUInt8 (w >>> 48).toUInt8 (w >>> 56).toUInt8) =
      w := by
  -- The two halves are joined first, each bit by bit as before, and then the whole.
  have hlow : joinWord32 w.toUInt8 (w >>> 8).toUInt8 (w >>> 16).toUInt8 (w >>> 24).toUInt8 =
      w.toUInt32 := by
    apply UInt32.eq_of_toBitVec_eq
    apply BitVec.eq_of_getLsbD_eq
    intro i hi
    simp only [joinWord32, UInt32.toBitVec_or, UInt32.toBitVec_shiftLeft,
      UInt8.toBitVec_toUInt32, UInt64.toBitVec_toUInt8, UInt64.toBitVec_shiftRight,
      UInt64.toBitVec_toUInt32, BitVec.getLsbD_or]
    simp
    grind
  have hhigh : joinWord32 (w >>> 32).toUInt8 (w >>> 40).toUInt8 (w >>> 48).toUInt8
      (w >>> 56).toUInt8 = (w >>> 32).toUInt32 := by
    apply UInt32.eq_of_toBitVec_eq
    apply BitVec.eq_of_getLsbD_eq
    intro i hi
    simp only [joinWord32, UInt32.toBitVec_or, UInt32.toBitVec_shiftLeft,
      UInt8.toBitVec_toUInt32, UInt64.toBitVec_toUInt8, UInt64.toBitVec_shiftRight,
      UInt64.toBitVec_toUInt32, BitVec.getLsbD_or]
    simp
    grind
  rw [hlow, hhigh]
  apply UInt64.eq_of_toBitVec_eq
  apply BitVec.eq_of_getLsbD_eq
  intro i hi
  simp only [joinWord64, UInt64.toBitVec_or, UInt64.toBitVec_shiftLeft, UInt32.toBitVec_toUInt64,
    UInt64.toBitVec_toUInt32, UInt64.toBitVec_shiftRight, BitVec.getLsbD_or]
  simp
  grind

@[simp] theorem size_ofWord64 (w : UInt64) : (ofWord64 w).size = 8 := rfl

end Bytes

namespace Memory

theorem word32?_eq (m : Memory) (i : Nat) :
    m.word32? i =
      (m.byte? i).bind fun b₀ => (m.byte? (i + 1)).bind fun b₁ =>
        (m.byte? (i + 2)).bind fun b₂ => (m.byte? (i + 3)).map fun b₃ =>
          Bytes.joinWord32 b₀ b₁ b₂ b₃ := by
  unfold word32?
  split
  · rename_i h
    simp only [byte?, dif_pos (show i < m.size by omega), dif_pos (show i + 1 < m.size by omega),
      dif_pos (show i + 2 < m.size by omega), dif_pos (show i + 3 < m.size by omega),
      Option.bind_some, Option.map_some]
  · -- Out of bounds it is the last byte that is missing.
    rename_i h
    rw [byte?_eq_none_iff.mpr (show m.size ≤ i + 3 by omega)]
    simp

theorem word64?_eq (m : Memory) (i : Nat) :
    m.word64? i =
      (m.word32? i).bind fun low => (m.word32? (i + 4)).map fun high =>
        Bytes.joinWord64 low high := by
  unfold word64? word32?
  split
  · rename_i h
    rw [dif_pos (show i + 4 ≤ m.size by omega)]
    rfl
  · rename_i h
    simp

theorem exists_word32? {m : Memory} {i : Nat} (h : i + 4 ≤ m.size) : ∃ w, m.word32? i = some w := by
  unfold word32?
  rw [dif_pos h]
  exact ⟨_, rfl⟩

theorem exists_word64? {m : Memory} {i : Nat} (h : i + 8 ≤ m.size) : ∃ w, m.word64? i = some w := by
  unfold word64?
  rw [dif_pos h]
  exact ⟨_, rfl⟩

/-! ## 2. Equal areas -/

/-- The `len` bytes of `m` from `i` on are those of `n` from `j` on. -/
def SameArea (m n : Memory) (i j len : Nat) : Prop :=
  ∀ k < len, m.byte? (i + k) = n.byte? (j + k)

theorem SameArea.symm {m n : Memory} {i j len : Nat} (h : SameArea m n i j len) :
    SameArea n m j i len := fun k hk => (h k hk).symm

theorem SameArea.trans {m n o : Memory} {i j l len : Nat} (h : SameArea m n i j len)
    (h' : SameArea n o j l len) : SameArea m o i l len :=
  fun k hk => (h k hk).trans (h' k hk)

theorem word32?_congr {m n : Memory} {i j : Nat} (h : SameArea m n i j 4) :
    m.word32? i = n.word32? j := by
  rw [word32?_eq, word32?_eq, h 1 (by omega), h 2 (by omega), h 3 (by omega)]
  have h0 := h 0 (by omega)
  rw [Nat.add_zero, Nat.add_zero] at h0
  rw [h0]

theorem word64?_congr {m n : Memory} {i j : Nat} (h : SameArea m n i j 8) :
    m.word64? i = n.word64? j := by
  have hlow : SameArea m n i j 4 := fun k hk => h k (by omega)
  have hhigh : SameArea m n (i + 4) (j + 4) 4 := by
    intro k hk
    rw [Nat.add_assoc, Nat.add_assoc]
    exact h (4 + k) (by omega)
  rw [word64?_eq, word64?_eq, word32?_congr hlow, word32?_congr hhigh]

/-! ## 3. Moves -/

/-- The memories differ at most in the `len` bytes from `start` on. -/
structure AgreeOutside (m n : Memory) (start len : Nat) : Prop where
  size : n.size = m.size
  byte : ∀ k, k < start ∨ start + len ≤ k → n.byte? k = m.byte? k

theorem AgreeOutside.sameArea {m n : Memory} {start len i size : Nat}
    (h : AgreeOutside m n start len) (hi : i + size ≤ start ∨ start + len ≤ i) :
    SameArea n m i i size := by
  intro k hk
  exact h.byte (i + k) (by omega)

theorem agreeOutside_of_copyWithin {m n : Memory} {start stop dest : Nat} (hle : start ≤ stop)
    (h : m.copyWithin start stop dest = .ok n) : AgreeOutside m n dest (stop - start) := by
  refine ⟨size_of_copyWithin h, ?_⟩
  intro k hk
  rw [byte?_of_copyWithin hle h, if_neg (by omega)]

theorem sameArea_of_copyWithin {m n : Memory} {start stop dest : Nat} (hle : start ≤ stop)
    (h : m.copyWithin start stop dest = .ok n) : SameArea n m dest start (stop - start) := by
  intro k hk
  rw [byte?_of_copyWithin hle h, if_pos (by omega), Nat.add_sub_cancel_left]

theorem copyWithin_ok {m : Memory} {start stop dest : Nat} (hstop : stop ≤ m.size)
    (hdest : dest + (stop - start) ≤ m.size) : ∃ n, m.copyWithin start stop dest = .ok n := by
  unfold copyWithin
  rw [dif_pos hstop, dif_pos hdest]
  exact ⟨_, rfl⟩

theorem agreeOutside_of_replace {m n : Memory} {i : Nat} {bs : Bytes}
    (h : m.replace i bs = .ok n) : AgreeOutside m n i bs.size := by
  refine ⟨size_of_replace h, ?_⟩
  intro k hk
  rw [byte?_of_replace h, if_neg (by omega)]

theorem replace_ok {m : Memory} {i : Nat} {bs : Bytes} (h : i + bs.size ≤ m.size) :
    ∃ n, m.replace i bs = .ok n := by
  unfold replace
  rw [dif_pos h]
  exact ⟨_, rfl⟩

/-- The bytes that a replacement puts down. -/
theorem byte?_replaced {m n : Memory} {i : Nat} {bs : Bytes} (h : m.replace i bs = .ok n) {k : Nat}
    (hk : k < bs.size) : n.byte? (i + k) = bs.data[k]? := by
  rw [byte?_of_replace h, if_pos (by omega), Nat.add_sub_cancel_left]

/-- Four bytes that spell an integer are its word. -/
theorem word32?_of_bytes {m : Memory} {i : Nat} {v : Int32}
    (h : ∀ k < 4, m.byte? (i + k) = (Bytes.ofInt v).data[k]?) : m.word32? i = some v.toUInt32 := by
  rw [word32?_eq, ← Nat.add_zero i, h 0 (by omega), Nat.add_zero, h 1 (by omega), h 2 (by omega),
    h 3 (by omega)]
  exact congrArg some (Bytes.joinWord32_bytes v.toUInt32)

/-- Eight bytes that spell an address are its word. -/
theorem word64?_of_bytes {m : Memory} {i : Nat} {w : UInt64}
    (h : ∀ k < 8, m.byte? (i + k) = (Bytes.ofWord64 w).data[k]?) : m.word64? i = some w := by
  rw [word64?_eq, word32?_eq, word32?_eq, ← Nat.add_zero i, h 0 (by omega), Nat.add_zero,
    h 1 (by omega), h 2 (by omega), h 3 (by omega), h 4 (by omega), Nat.add_assoc,
    Nat.add_assoc, Nat.add_assoc, h 5 (by omega), h 6 (by omega), h 7 (by omega)]
  exact congrArg some (Bytes.joinWord64_bytes w)

theorem word64?_replaced {m n : Memory} {i : Nat} {w : UInt64}
    (h : m.replace i (Bytes.ofWord64 w) = .ok n) : n.word64? i = some w :=
  word64?_of_bytes fun _ hk => byte?_replaced h hk

/-! ## 4. Words in place -/

theorem setWord32?_ok {m : Memory} {i : Nat} {w : UInt32} (h : i + 4 ≤ m.size) :
    ∃ n, m.setWord32? i w = some n := by
  unfold setWord32?
  rw [dif_pos h]
  exact ⟨_, rfl⟩

theorem byte?_of_setWord32? {m n : Memory} {i : Nat} {w : UInt32} (h : m.setWord32? i w = some n)
    (k : Nat) :
    -- The bytes are put down in ascending order, so the latest stands outermost.
    n.byte? k =
      if k = i + 3 then some (w >>> 24).toUInt8 else if k = i + 2 then some (w >>> 16).toUInt8
      else if k = i + 1 then some (w >>> 8).toUInt8 else if k = i then some w.toUInt8
      else m.byte? k := by
  unfold setWord32? at h
  split at h
  · cases h
    rw [byte?_setByte, byte?_setByte, byte?_setByte, byte?_setByte]
  · cases h

theorem agreeOutside_of_setWord32? {m n : Memory} {i : Nat} {w : UInt32}
    (h : m.setWord32? i w = some n) : AgreeOutside m n i 4 := by
  refine ⟨?_, ?_⟩
  · unfold setWord32? at h
    split at h
    · cases h
      rfl
    · cases h
  · intro k hk
    rw [byte?_of_setWord32? h, if_neg (by omega), if_neg (by omega), if_neg (by omega),
      if_neg (by omega)]

theorem word32?_of_setWord32? {m n : Memory} {i : Nat} {w : UInt32}
    (h : m.setWord32? i w = some n) : n.word32? i = some w := by
  have hbyte := byte?_of_setWord32? h
  rw [word32?_eq, hbyte i, hbyte (i + 1), hbyte (i + 2), hbyte (i + 3)]
  simp

/-! ## 5. Handing out words -/

theorem toWord32?_eq_word32? (bs : Bytes) :
    bs.toWord32? = (⟨bs, bs.size, Nat.le_refl _⟩ : Memory).word32? 0 := rfl

theorem toInt_of_area {m : Memory} {i : Nat} {w : UInt32} {bs : Bytes} (hw : m.word32? i = some w)
    (h : m.area i (i + 4) = .ok bs) : bs.toInt = w.toInt32 := by
  have hsize : bs.size = 4 := by rw [size_of_area (by omega) h]; omega
  have hsame : SameArea ⟨bs, bs.size, Nat.le_refl _⟩ m 0 i 4 := by
    intro k hk
    rw [byte?_eq, if_pos (by simp only [hsize]; omega), Nat.zero_add, getElem?_of_area h,
      if_pos (by omega)]
  rw [Bytes.toInt, toWord32?_eq_word32?, word32?_congr hsame, hw, Option.getD_some]

end Memory

end RegIR
