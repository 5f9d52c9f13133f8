import RegIR.Memory
/-!
# Laws of memory

What each operation of a memory does to its size and to the byte at every offset.
-/

namespace RegIR.Memory

/-- The bytes behind a copied slice. -/
theorem getElem?_copySlice {src dest : ByteArray} {srcOff destOff len : Nat} {exact : Bool}
    (hs : srcOff + len ≤ src.size) (hd : destOff ≤ dest.size) (k : Nat) :
    (src.copySlice srcOff dest destOff len exact).data[k]? =
      if k < destOff then dest.data[k]?
      else if k < destOff + len then src.data[srcOff + (k - destOff)]?
      else dest.data[k]? := by
  have hs' : srcOff + len ≤ src.data.size := hs
  have hd' : destOff ≤ dest.data.size := hd
  simp only [ByteArray.copySlice, Array.getElem?_append, Array.getElem?_extract,
    Array.size_append, Array.size_extract]
  grind

theorem byte?_eq (m : Memory) (i : Nat) :
    m.byte? i = if i < m.size then m.store.data[i]? else none := by
  unfold byte?
  have hs := m.size_le
  split
  · rename_i h
    have h' : i < m.store.data.size := Nat.lt_of_lt_of_le h hs
    rw [Array.getElem?_eq_getElem h']
    exact congrArg some ByteArray.getElem_eq_getElem_data
  · rfl

theorem byte?_eq_none_iff {m : Memory} {i : Nat} : m.byte? i = none ↔ m.size ≤ i := by
  have hs : m.size ≤ m.store.data.size := m.size_le
  rw [byte?_eq]
  grind

/-! ## Single bytes and words -/

theorem byte?_setByte {m : Memory} {i : Nat} {v : UInt8} (h : i < m.size) (k : Nat) :
    (m.setByte i v h).byte? k = if k = i then some v else m.byte? k := by
  have hs : m.size ≤ m.store.data.size := m.size_le
  simp only [byte?_eq, size_setByte]
  simp only [setByte, ByteArray.set, Array.getElem?_set]
  grind

/-! ## Areas -/

@[simp] theorem size_overwrite {m : Memory} {i : Nat} {bs : Bytes} (h : i + bs.size ≤ m.size) :
    (m.overwrite i bs h).size = m.size := rfl

theorem byte?_overwrite {m : Memory} {i : Nat} {bs : Bytes} (h : i + bs.size ≤ m.size) (k : Nat) :
    (m.overwrite i bs h).byte? k =
      if i ≤ k ∧ k < i + bs.size then bs.data[k - i]? else m.byte? k := by
  have hs : m.size ≤ m.store.size := m.size_le
  simp only [byte?_eq, size_overwrite]
  simp only [overwrite]
  rw [getElem?_copySlice (by omega) (by omega)]
  simp only [Nat.zero_add]
  grind

theorem size_of_area {m : Memory} {start stop : Nat} {bs : Bytes} (hle : start ≤ stop)
    (h : m.area start stop = .ok bs) : bs.size = stop - start := by
  unfold area at h
  have hs := m.size_le
  split at h
  · cases h
    rw [ByteArray.size_extract]
    omega
  · cases h

theorem getElem?_of_area {m : Memory} {start stop : Nat} {bs : Bytes}
    (h : m.area start stop = .ok bs) (k : Nat) :
    bs.data[k]? = if start + k < stop then m.byte? (start + k) else none := by
  unfold area at h
  have hs : m.size ≤ m.store.data.size := m.size_le
  split at h
  · cases h
    simp only [ByteArray.data_extract, byte?_eq, Array.getElem?_extract]
    grind
  · cases h

theorem size_of_replace {m n : Memory} {i : Nat} {bs : Bytes} (h : m.replace i bs = .ok n) :
    n.size = m.size := by
  unfold replace at h
  split at h
  · cases h
    rfl
  · cases h

theorem byte?_of_replace {m n : Memory} {i : Nat} {bs : Bytes} (h : m.replace i bs = .ok n)
    (k : Nat) :
    n.byte? k = if i ≤ k ∧ k < i + bs.size then bs.data[k - i]? else m.byte? k := by
  unfold replace at h
  split at h
  · cases h
    exact byte?_overwrite _ k
  · cases h

theorem size_of_copyWithin {m n : Memory} {start stop dest : Nat}
    (h : m.copyWithin start stop dest = .ok n) : n.size = m.size := by
  unfold copyWithin at h
  split at h
  · split at h
    · rw [← Except.ok.inj h, size_overwrite]
    · cases h
  · cases h

theorem byte?_of_copyWithin {m n : Memory} {start stop dest : Nat} (hle : start ≤ stop)
    (h : m.copyWithin start stop dest = .ok n) (k : Nat) :
    n.byte? k =
      if dest ≤ k ∧ k < dest + (stop - start) then m.byte? (start + (k - dest))
      else m.byte? k := by
  have hs : m.size ≤ m.store.data.size := m.size_le
  have hs' : m.size ≤ m.store.size := m.size_le
  unfold copyWithin at h
  split at h
  · rename_i hstop
    split at h
    · rw [← Except.ok.inj h, byte?_overwrite]
      have hsize : (m.store.extract start stop).size = stop - start := by
        rw [ByteArray.size_extract]
        omega
      rw [hsize]
      simp only [ByteArray.data_extract, byte?_eq, Array.getElem?_extract]
      grind
    · cases h
  · cases h

/-! ## Growing and shrinking -/

@[simp] theorem size_empty : empty.size = 0 := rfl

@[simp] theorem size_grow (m : Memory) (n : Nat) : (m.grow n).size = m.size + n := rfl

@[simp] theorem size_cut (m : Memory) (n : Nat) : (m.cut n).size = min n m.size := rfl

theorem byte?_cut (m : Memory) (n k : Nat) :
    (m.cut n).byte? k = if k < n then m.byte? k else none := by
  simp only [byte?_eq, size_cut]
  simp only [cut]
  grind

theorem getElem?_zeros {k : Nat} (h : k < rowSize) : zeros.data[k]? = some 0 := by
  simp [zeros, Bytes.replicate, h]

theorem getElem?_zeroRows (n : Nat) (store : ByteArray) (start : Nat) (h : start ≤ store.size)
    (k : Nat) :
    (zeroRows store start n).data[k]? =
      if start ≤ k ∧ k < start + rowSize * n then some 0 else store.data[k]? := by
  induction n with
  | zero =>
    have : ¬(start ≤ k ∧ k < start + rowSize * 0) := by omega
    rw [if_neg this]
    rfl
  | succ n ih =>
    have hle := le_size_zeroRows n store start h
    rw [zeroRows] at ih hle ⊢
    rw [Nat.fold_succ, getElem?_copySlice (by rw [size_zeros]; omega) hle, ih, Nat.mul_succ]
    split
    · grind
    · split
      · rw [getElem?_zeros (by omega), if_pos (by omega)]
      · grind

theorem byte?_grow (m : Memory) (n k : Nat) :
    (m.grow n).byte? k =
      if k < m.size then m.byte? k else if k < m.size + n then some 0 else none := by
  have hs : m.size ≤ m.store.size := m.size_le
  have hrest : n % rowSize < rowSize := Nat.mod_lt _ (by decide)
  have hdiv := Nat.div_add_mod n rowSize
  have hgrow : (m.grow n).byte? k = if k < m.size + n then (m.grow n).store.data[k]? else none :=
    byte?_eq _ k
  rw [hgrow, byte?_eq, grow, getElem?_copySlice (by rw [size_zeros]; omega)
    (le_size_zeroRows _ _ _ hs), getElem?_zeroRows _ _ _ hs]
  by_cases hk : k < m.size + n
  · rw [if_pos hk, if_pos hk]
    by_cases hrows : k < m.size + rowSize * (n / rowSize)
    · rw [if_pos hrows]
      grind
    · rw [if_neg hrows, if_pos (by omega), Nat.zero_add, getElem?_zeros (by omega),
        if_neg (by omega)]
  · rw [if_neg hk, if_neg (by omega), if_neg hk]

end RegIR.Memory
