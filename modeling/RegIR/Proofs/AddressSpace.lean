import Mathlib.Algebra.Group.Int.Defs
import Mathlib.Algebra.Group.Nat.Defs
import RegIR.X64.Processor
import RegIR.Proofs.Words
/-!
# Areas of the address space

Addresses wrap, so areas are told apart by their offsets from a common base: areas that do not
overlap on a stretch of 2⁶⁴ offsets do not overlap at all.  A write changes its own area only, and
a word that is read back from it is the word that was written.
-/

namespace RegIR.X64

/-! ## 1. Offsets -/

theorem ofInt_natCast (n : Nat) : UInt64.ofInt (n : Int) = UInt64.ofNat n := by
  rw [UInt64.ofInt, ← UInt64.toNat_inj, UInt64.toNat_ofNat', UInt64.toNat_ofNat']
  omega

theorem ofInt_inj {z z' : Int} : UInt64.ofInt z = UInt64.ofInt z' ↔ z % 2 ^ 64 = z' % 2 ^ 64 := by
  rw [UInt64.ofInt, UInt64.ofInt, ← UInt64.toNat_inj, UInt64.toNat_ofNat', UInt64.toNat_ofNat']
  omega

theorem add_sub_self (a b : UInt64) : a + b - a = b := by
  rw [UInt64.add_comm, UInt64.add_sub_cancel]

/-- A number of bytes from an address on. -/
structure Area where
  start : UInt64
  size : Nat

namespace Area

instance : Membership UInt64 Area := ⟨fun a x => (x - a.start).toNat < a.size⟩

/-- The areas have no byte in common. -/
def Disjoint (a b : Area) : Prop := ∀ x ∈ a, x ∉ b

/-- The bytes of the first area belong to the second. -/
def Within (a b : Area) : Prop := ∀ x ∈ a, x ∈ b

def empty : Area := ⟨0, 0⟩

/-- The area at an offset from a base. -/
def ofOffset (base : UInt64) (offset : Int) (size : Nat) : Area :=
  ⟨base + UInt64.ofInt offset, size⟩

variable {a b x : UInt64} {z z' : Int} {n n' k : Nat}

theorem mem_mk (hn : n ≤ 2 ^ 64) : x ∈ mk a n ↔ ∃ k : Nat, k < n ∧ x = a + UInt64.ofNat k := by
  constructor
  · intro h
    refine ⟨(x - a).toNat, h, ?_⟩
    rw [UInt64.ofNat_toNat, UInt64.add_comm, UInt64.sub_add_cancel]
  · rintro ⟨k, hk, rfl⟩
    show (a + UInt64.ofNat k - a).toNat < n
    rw [add_sub_self, UInt64.toNat_ofNat_of_lt' (Nat.lt_of_lt_of_le hk hn)]
    exact hk

theorem mem_ofOffset (hn : n ≤ 2 ^ 64) :
    x ∈ ofOffset b z n ↔ ∃ k : Nat, k < n ∧ x = b + UInt64.ofInt (z + k) := by
  rw [ofOffset, mem_mk hn]
  simp only [UInt64.ofInt_add, ofInt_natCast, UInt64.add_assoc]

theorem disjoint_ofOffset (h : z + n ≤ z') (h' : z' + n' ≤ z + 2 ^ 64) :
    (ofOffset b z n).Disjoint (ofOffset b z' n') := by
  intro x hx hx'
  obtain ⟨k, hk, rfl⟩ := (mem_ofOffset (by omega)).mp hx
  obtain ⟨k', hk', heq⟩ := (mem_ofOffset (by omega)).mp hx'
  have hmod := ofInt_inj.mp ((UInt64.add_right_inj b).mp heq)
  omega

theorem within_ofOffset (h : z' ≤ z) (h' : z + n ≤ z' + n') (hn : n' ≤ 2 ^ 64) :
    (ofOffset b z n).Within (ofOffset b z' n') := by
  intro x hx
  obtain ⟨k, hk, rfl⟩ := (mem_ofOffset (by omega)).mp hx
  refine (mem_ofOffset hn).mpr ⟨(z - z').toNat + k, by omega, ?_⟩
  congr 2
  omega

theorem within_add (h : k + n ≤ n') (hn : n' ≤ 2 ^ 64) :
    (mk (a + UInt64.ofNat k) n).Within (mk a n') := by
  intro x hx
  obtain ⟨i, hi, rfl⟩ := (mem_mk (by omega)).mp hx
  refine (mem_mk hn).mpr ⟨k + i, by omega, ?_⟩
  rw [UInt64.ofNat_add, UInt64.add_assoc]

theorem Disjoint.symm {a b : Area} (h : a.Disjoint b) : b.Disjoint a := fun x hb ha => h x ha hb

end Area

/-! ## 2. Reading and writing -/

namespace AddressSpace

variable {m m' : AddressSpace} {a b x : UInt64} {bs : Bytes}

theorem write_of_not_mem (h : x ∉ Area.mk a bs.size) : m.write a bs x = m x := dif_neg h

theorem write_add {k : Nat} (hk : k < bs.size) (hsize : bs.size ≤ 2 ^ 64) :
    m.write a bs (a + UInt64.ofNat k) = bs[k] := by
  have hdiff : (a + UInt64.ofNat k - a).toNat = k := by
    rw [add_sub_self, UInt64.toNat_ofNat_of_lt' (Nat.lt_of_lt_of_le hk hsize)]
  rw [write, dif_pos (by omega)]
  simp only [hdiff]

theorem read32_congr (h : ∀ x ∈ Area.mk a 4, m x = m' x) : m.read32 a = m'.read32 a := by
  have hk : ∀ k < 4, m (a + UInt64.ofNat k) = m' (a + UInt64.ofNat k) :=
    fun k hk => h _ ((Area.mem_mk (by decide)).mpr ⟨k, hk, rfl⟩)
  have h0 : m a = m' a := by simpa using hk 0 (by decide)
  have h1 : m (a + 1) = m' (a + 1) := hk 1 (by decide)
  have h2 : m (a + 2) = m' (a + 2) := hk 2 (by decide)
  have h3 : m (a + 3) = m' (a + 3) := hk 3 (by decide)
  rw [read32, h0, h1, h2, h3, ← read32]

theorem read64_congr (h : ∀ x ∈ Area.mk a 8, m x = m' x) : m.read64 a = m'.read64 a := by
  have hlow : m.read32 a = m'.read32 a :=
    read32_congr fun x hx => h x (Nat.lt_trans hx (by decide : (4 : Nat) < 8))
  have hhigh : m.read32 (a + 4) = m'.read32 (a + 4) :=
    read32_congr fun x hx => h x (Area.within_add (k := 4) (by decide) (by decide) x hx)
  rw [read64, hlow, hhigh, ← read64]

theorem read32_write_of_disjoint (h : (Area.mk a 4).Disjoint ⟨b, bs.size⟩) :
    (m.write b bs).read32 a = m.read32 a := read32_congr fun x hx => write_of_not_mem (h x hx)

theorem read64_write_of_disjoint (h : (Area.mk a 8).Disjoint ⟨b, bs.size⟩) :
    (m.write b bs).read64 a = m.read64 a := read64_congr fun x hx => write_of_not_mem (h x hx)

@[simp] theorem read32_write_ofWord32 (w : UInt32) :
    (m.write a (Bytes.ofWord32 w)).read32 a = w := by
  have hk : ∀ k (hk : k < (Bytes.ofWord32 w).size),
      m.write a (Bytes.ofWord32 w) (a + UInt64.ofNat k) = (Bytes.ofWord32 w)[k] :=
    fun k hk => write_add hk (by decide : 4 ≤ 2 ^ 64)
  have h0 : m.write a (Bytes.ofWord32 w) a = w.toUInt8 := by
    have h := hk 0 (by decide : 0 < 4)
    rw [show UInt64.ofNat 0 = 0 from rfl, UInt64.add_zero] at h
    exact h
  have h1 : m.write a (Bytes.ofWord32 w) (a + 1) = (w >>> 8).toUInt8 := hk 1 (by decide : 1 < 4)
  have h2 : m.write a (Bytes.ofWord32 w) (a + 2) = (w >>> 16).toUInt8 := hk 2 (by decide : 2 < 4)
  have h3 : m.write a (Bytes.ofWord32 w) (a + 3) = (w >>> 24).toUInt8 := hk 3 (by decide : 3 < 4)
  rw [read32, h0, h1, h2, h3, Bytes.joinWord32_bytes]

@[simp] theorem read64_write_ofWord64 (w : UInt64) :
    (m.write a (Bytes.ofWord64 w)).read64 a = w := by
  have hk : ∀ k (hk : k < (Bytes.ofWord64 w).size),
      m.write a (Bytes.ofWord64 w) (a + UInt64.ofNat k) = (Bytes.ofWord64 w)[k] :=
    fun k hk => write_add hk (by decide : 8 ≤ 2 ^ 64)
  have h0 : m.write a (Bytes.ofWord64 w) a = w.toUInt8 := by
    have h := hk 0 (by decide : 0 < 8)
    rw [show UInt64.ofNat 0 = 0 from rfl, UInt64.add_zero] at h
    exact h
  have h1 : m.write a (Bytes.ofWord64 w) (a + 1) = (w >>> 8).toUInt8 := hk 1 (by decide : 1 < 8)
  have h2 : m.write a (Bytes.ofWord64 w) (a + 2) = (w >>> 16).toUInt8 := hk 2 (by decide : 2 < 8)
  have h3 : m.write a (Bytes.ofWord64 w) (a + 3) = (w >>> 24).toUInt8 := hk 3 (by decide : 3 < 8)
  have h4 : m.write a (Bytes.ofWord64 w) (a + 4) = (w >>> 32).toUInt8 := hk 4 (by decide : 4 < 8)
  have h5 : m.write a (Bytes.ofWord64 w) (a + 4 + 1) = (w >>> 40).toUInt8 := by
    rw [UInt64.add_assoc]
    exact hk 5 (by decide : 5 < 8)
  have h6 : m.write a (Bytes.ofWord64 w) (a + 4 + 2) = (w >>> 48).toUInt8 := by
    rw [UInt64.add_assoc]
    exact hk 6 (by decide : 6 < 8)
  have h7 : m.write a (Bytes.ofWord64 w) (a + 4 + 3) = (w >>> 56).toUInt8 := by
    rw [UInt64.add_assoc]
    exact hk 7 (by decide : 7 < 8)
  rw [read64, read32, read32, h0, h1, h2, h3, h4, h5, h6, h7, Bytes.joinWord64_bytes]

end AddressSpace

end RegIR.X64
