/-!
# Memory

A memory is a row of bytes that grows and shrinks at its end.  Words lie in it with their low
byte first.  A bulk move checks its bounds and says which of them failed; a word is read or
written as a whole or not at all.
-/

namespace RegIR

/-- Bytes that are passed in or handed out. -/
abbrev Bytes := ByteArray

namespace Bytes

/-- The bytes of a list. -/
def ofList (bs : List UInt8) : Bytes := ⟨bs.toArray⟩

def replicate (n : Nat) (b : UInt8) : Bytes := ⟨Array.replicate n b⟩

/-- The four bytes of a word, low byte first. -/
def ofWord32 (w : UInt32) : Bytes :=
  ofList [w.toUInt8, (w >>> 8).toUInt8, (w >>> 16).toUInt8, (w >>> 24).toUInt8]

/-- The eight bytes of a word, low byte first. -/
def ofWord64 (w : UInt64) : Bytes :=
  ofList [w.toUInt8, (w >>> 8).toUInt8, (w >>> 16).toUInt8, (w >>> 24).toUInt8,
    (w >>> 32).toUInt8, (w >>> 40).toUInt8, (w >>> 48).toUInt8, (w >>> 56).toUInt8]

/-- The word with the given bytes, low byte first. -/
@[inline] def joinWord32 (b₀ b₁ b₂ b₃ : UInt8) : UInt32 :=
  b₀.toUInt32 ||| b₁.toUInt32 <<< 8 ||| b₂.toUInt32 <<< 16 ||| b₃.toUInt32 <<< 24

@[inline] def joinWord64 (low high : UInt32) : UInt64 := low.toUInt64 ||| high.toUInt64 <<< 32

/-- The word in the first four bytes. -/
def toWord32? (bs : Bytes) : Option UInt32 :=
  if h : 4 ≤ bs.size then some (joinWord32 bs[0] bs[1] bs[2] bs[3]) else none

/-- The four bytes of an integer. -/
def ofInt (v : Int32) : Bytes := ofWord32 v.toUInt32

/-- The integer in the first four bytes. -/
def toInt (bs : Bytes) : Int32 := (bs.toWord32?.getD 0).toInt32

end Bytes

/-- A bulk move that leaves the memory or joins areas of different length. -/
inductive MemoryViolation where
  | sourceEnd (stop size : Nat)
  | destination
  | lengths (found expected : Nat)
  deriving DecidableEq, Repr

namespace MemoryViolation

def message : MemoryViolation → String
  | sourceEnd stop size => s!"range end index {stop} out of range for slice of length {size}"
  | destination => "dest is out of bounds"
  | lengths found expected =>
    s!"{found} bytes do not fill an area of {expected}"

end MemoryViolation

/-- The bytes below `size`.  What the store holds above is left over and cannot be seen. -/
structure Memory where
  store : ByteArray
  size : Nat
  size_le : size ≤ store.size

namespace Memory

def empty : Memory := ⟨.empty, 0, Nat.zero_le _⟩

/-- The byte at an offset. -/
def byte? (m : Memory) (i : Nat) : Option UInt8 :=
  if h : i < m.size then
    have hs := m.size_le
    some m.store[i]
  else none

/-! ## Words -/

/-- The word at an offset. -/
@[inline] def word32? (m : Memory) (i : Nat) : Option UInt32 :=
  if h : i + 4 ≤ m.size then
    have hs := m.size_le
    some (Bytes.joinWord32 m.store[i] m.store[i + 1] m.store[i + 2] m.store[i + 3])
  else none

@[inline] def word64? (m : Memory) (i : Nat) : Option UInt64 :=
  if h : i + 8 ≤ m.size then
    have hs := m.size_le
    some (Bytes.joinWord64
      (Bytes.joinWord32 m.store[i] m.store[i + 1] m.store[i + 2] m.store[i + 3])
      (Bytes.joinWord32 m.store[i + 4] m.store[i + 5] m.store[i + 6] m.store[i + 7]))
  else none

theorem size_set {b : ByteArray} {i : Nat} {v : UInt8} (h : i < b.size) :
    (b.set i v h).size = b.size := by
  cases b
  simp [ByteArray.set, ByteArray.size]

/-- Replaces the byte at an offset of the memory. -/
@[inline] def setByte (m : Memory) (i : Nat) (v : UInt8) (h : i < m.size) : Memory :=
  match m, h with
  | ⟨store, size, hs⟩, h =>
    ⟨store.set i v (Nat.lt_of_lt_of_le h hs), size, by rw [size_set]; exact hs⟩

@[simp] theorem size_setByte (m : Memory) (i : Nat) (v : UInt8) (h : i < m.size) :
    (m.setByte i v h).size = m.size := rfl

/-- Replaces the word at an offset. -/
@[inline] def setWord32? (m : Memory) (i : Nat) (w : UInt32) : Option Memory :=
  if h : i + 4 ≤ m.size then
    some ((((m.setByte i w.toUInt8 (by omega)).setByte (i + 1) (w >>> 8).toUInt8
      (by simp; omega)).setByte (i + 2) (w >>> 16).toUInt8 (by simp; omega)).setByte (i + 3)
      (w >>> 24).toUInt8 (by simp; omega))
  else none

/-! ## Areas -/

theorem size_copySlice {src dest : ByteArray} {srcOff destOff len : Nat} {exact : Bool}
    (hs : srcOff + len ≤ src.size) (hd : destOff ≤ dest.size) :
    (src.copySlice srcOff dest destOff len exact).size = max dest.size (destOff + len) := by
  rw [ByteArray.copySlice_eq_append]
  simp only [ByteArray.size_append, ByteArray.size_extract, ByteArray.size_data]
  omega

/-- Replaces the bytes from an offset on. -/
@[inline] def overwrite (m : Memory) (i : Nat) (bs : Bytes) (h : i + bs.size ≤ m.size) : Memory :=
  match m, h with
  | ⟨store, size, hs⟩, h =>
    ⟨bs.copySlice 0 store i bs.size false, size, by
      have h' : i + bs.size ≤ size := h
      rw [size_copySlice (by omega) (by omega)]
      omega⟩

/-- The bytes of an area. -/
def area (m : Memory) (start stop : Nat) : Except MemoryViolation Bytes :=
  if stop ≤ m.size then .ok (m.store.extract start stop) else .error (.sourceEnd stop m.size)

/-- Replaces an area by bytes of the same number. -/
def replace (m : Memory) (i : Nat) (bs : Bytes) : Except MemoryViolation Memory :=
  if h : i + bs.size ≤ m.size then .ok (m.overwrite i bs h)
  else .error (.sourceEnd (i + bs.size) m.size)

/-- Copies an area to another offset of the same memory. -/
def copyWithin (m : Memory) (start stop dest : Nat) : Except MemoryViolation Memory :=
  if h : stop ≤ m.size then
    if hd : dest + (stop - start) ≤ m.size then
      .ok (m.overwrite dest (m.store.extract start stop) (by
        have hs := m.size_le
        rw [ByteArray.size_extract]
        omega))
    else .error .destination
  else .error (.sourceEnd stop m.size)

/-! ## Growing and shrinking -/

/-- The number of bytes that are filled at a time. -/
def rowSize : Nat := 256

/-- A row of zero bytes, to fill from. -/
def zeros : ByteArray := Bytes.replicate rowSize 0

theorem size_zeros : zeros.size = rowSize := by
  simp [zeros, Bytes.replicate, ByteArray.size]

/-- Fills whole rows with zero bytes. -/
def zeroRows (store : ByteArray) (start n : Nat) : ByteArray :=
  n.fold (fun k _ b => zeros.copySlice 0 b (start + rowSize * k) rowSize false) store

theorem le_size_zeroRows (n : Nat) (store : ByteArray) (start : Nat) (h : start ≤ store.size) :
    start + rowSize * n ≤ (zeroRows store start n).size := by
  induction n with
  | zero => simpa [zeroRows] using h
  | succ n ih =>
    rw [zeroRows] at ih ⊢
    rw [Nat.fold_succ, size_copySlice (by rw [size_zeros]; omega) ih, Nat.mul_succ]
    omega

/-- Appends zero bytes. -/
def grow (m : Memory) (count : Nat) : Memory :=
  match m with
  | ⟨store, size, hs⟩ =>
    -- Whole rows first, then the rest of one.
    ⟨zeros.copySlice 0 (zeroRows store size (count / rowSize))
        (size + rowSize * (count / rowSize)) (count % rowSize) false,
      size + count, by
        have hrest : count % rowSize ≤ rowSize := Nat.le_of_lt (Nat.mod_lt _ (by decide))
        rw [size_copySlice (by rw [size_zeros]; omega) (le_size_zeroRows _ store size hs)]
        have := Nat.div_add_mod count rowSize
        omega⟩

/-- Drops the bytes from an offset on. -/
def cut (m : Memory) (size : Nat) : Memory :=
  match m with
  | ⟨store, old, hs⟩ => ⟨store, min size old, Nat.le_trans (Nat.min_le_right _ _) hs⟩

end Memory

end RegIR
