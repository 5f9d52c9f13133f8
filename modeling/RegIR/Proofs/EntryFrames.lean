import Mathlib.Algebra.Group.Int.Defs
import RegIR.NativeEntry
import RegIR.Proofs.Placement
/-!
# Frames of entry stubs for integers

The arguments of a function on integers go to the six argument registers and then, eight bytes
each, on the stack.  As long as the displacements of its frame fit in 32 bits, the code has the
displacements that the picture of the frame shows, and each part of it is a loop over the
arguments.
-/

namespace RegIR

namespace X64

/-! ## 1. Displacements -/

/-- The number is a signed word of 32 bits. -/
def Fits (z : Int) : Prop := -2 ^ 31 ≤ z ∧ z < 2 ^ 31

section
variable {a b : Int32}

theorem toInt_add_of_fits (h : Fits (a.toInt + b.toInt)) : (a + b).toInt = a.toInt + b.toInt := by
  obtain ⟨hlow, hhigh⟩ := h
  rw [Int32.toInt_add]
  exact Int.bmod_eq_of_le (by omega) (by omega)

theorem toInt_sub_of_fits (h : Fits (a.toInt - b.toInt)) : (a - b).toInt = a.toInt - b.toInt := by
  obtain ⟨hlow, hhigh⟩ := h
  rw [Int32.toInt_sub]
  exact Int.bmod_eq_of_le (by omega) (by omega)

theorem toInt_mul_ofNat {c n : Nat} (hc : a.toInt = c) (hn : n < 2 ^ 31) (h : c * n < 2 ^ 31) :
    (a * Int32.ofNat n).toInt = c * n := by
  rw [Int32.toInt_mul, Int32.toInt_ofNat_of_lt hn, hc, ← Int.natCast_mul]
  exact Int.bmod_eq_of_le (by omega) (by omega)

end

/-- A word below 2³¹ is the same number with a sign. -/
theorem toInt_toInt32 {w : UInt32} (h : w.toNat < 2 ^ 31) : w.toInt32.toInt = w.toNat := by
  show w.toBitVec.toInt = _
  rw [BitVec.toInt_eq_toNat_of_lt (by rw [UInt32.toNat_toBitVec]; omega), UInt32.toNat_toBitVec]

theorem alignTo_toNat {v align : UInt32} {k : Nat} (hk : align.toNat = 2 ^ k)
    (h : v.toNat + 2 ^ k < 2 ^ 32) :
    (alignTo v align).toNat = roundUp v.toNat (2 ^ k) := by
  have hpos : 0 < 2 ^ k := Nat.two_pow_pos k
  have hmask : (align - 1).toNat = 2 ^ k - 1 := by
    rw [UInt32.toNat_sub_of_le _ _ (by rw [UInt32.le_iff_toNat_le, hk]; exact hpos), hk]
    rfl
  have hsum : (v + align).toNat = v.toNat + 2 ^ k := by
    rw [UInt32.toNat_add, hk, Nat.mod_eq_of_lt h]
  rw [alignTo, and_not_mask_toNat _ _ k hmask, UInt32.toNat_sub_of_le _ _ (by
    rw [UInt32.le_iff_toNat_le, hsum]
    exact Nat.le_trans hpos (Nat.le_add_left ..)), hsum]
  rfl

namespace EntryFrame

/-- The frame for a number of integers, and an integer as the result. -/
def ofInts (n : Nat) : EntryFrame := (plan (List.replicate n (4, 4)) (4, 4)).1

/-- All displacements of the frame for a number of integers fit: its size, which the stub takes
off the stack pointer, and the offsets of what lies in it and above it.  For 2²⁷ - 1 integers it
is the size alone that does not fit. -/
structure Fitting (n : Nat) : Prop where
  size : Fits (16 * n + 16)
  array : Fits (-8 - 16 * n)
  values : ∀ i < n, Fits (-16 - 8 * i)
  entries : ∀ i < n, Fits (-8 - 16 * n + 8 * i)
  incoming : ∀ k, 6 + k < n → Fits (16 + 8 * k)

/-- The size of the frame is the largest of them. -/
theorem fitting_iff {n : Nat} : Fitting n ↔ 16 * n + 16 < 2 ^ 31 := by
  constructor
  · intro h
    have := h.size.2
    omega
  · intro h
    constructor <;> intros <;> constructor <;> omega

theorem Fitting.lt {n : Nat} (h : Fitting n) : n < 2 ^ 27 := by
  have := fitting_iff.mp h
  omega

/-- For one number of integers every offset fits, and the size of the frame does not. -/
theorem offsets_fit_not_fitting_iff {n : Nat} :
    (Fits (-8 - 16 * n) ∧ (∀ i < n, Fits (-16 - 8 * i)) ∧ (∀ i < n, Fits (-8 - 16 * n + 8 * i)) ∧
      ∀ k, 6 + k < n → Fits (16 + 8 * k)) ∧ ¬ Fitting n ↔ n = 2 ^ 27 - 1 := by
  rw [fitting_iff]
  constructor
  · rintro ⟨⟨⟨hlow, -⟩, -⟩, hsize⟩
    omega
  · intro h
    refine ⟨⟨?_, ?_, ?_, ?_⟩, by omega⟩ <;> intros <;> constructor <;> omega

/-! ## 2. Places -/

/-- Where the integer argument of a number goes. -/
def place (i : Nat) : Assignment :=
  match argRegs[i]? with
  | some r => ⟨4, 4, some r, none⟩
  | none => ⟨4, 4, none, some (UInt32.ofNat (8 * (i - 6))).toInt32⟩

/-- The assigner after a number of integers. -/
def placed (i : Nat) : Assigner := ⟨min i 6, UInt32.ofNat (8 * (i - 6)), false⟩

theorem alignTo_eight {w : UInt32} (h : w.toNat % 8 = 0) (hlt : w.toNat + 8 < 2 ^ 32) :
    alignTo w 8 = w := by
  rw [← UInt32.toNat_inj, alignTo_toNat (k := 3) rfl hlt, roundUp]
  omega

theorem assignArg_placed {i : Nat} (h : 8 * i + 8 < 2 ^ 32) :
    (placed i).assignArg 4 4 = (place i, placed (i + 1)) := by
  by_cases hi : i < 6
  · have hmin : min i 6 = i := by omega
    have hzero : i - 6 = 0 ∧ i + 1 - 6 = 0 := by omega
    have hsome : argRegs[i]? = some argRegs[i] := List.getElem?_eq_getElem hi
    simp only [Assigner.assignArg, placed, place, hmin, hsome, hzero.1, hzero.2]
    congr 2
    omega
  · have hmin : min i 6 = 6 ∧ min (i + 1) 6 = 6 := by omega
    have hnone : argRegs[i]? = none := List.getElem?_eq_none (by simp [argRegs]; omega)
    have htoNat : (UInt32.ofNat (8 * (i - 6))).toNat = 8 * (i - 6) :=
      UInt32.toNat_ofNat_of_lt' (by show _ < 2 ^ 32; omega)
    have halign : alignTo (UInt32.ofNat (8 * (i - 6))) (max 4 8) = UInt32.ofNat (8 * (i - 6)) :=
      alignTo_eight (by omega) (by omega)
    have hnext : UInt32.ofNat (8 * (i - 6)) + alignTo 4 8 = UInt32.ofNat (8 * (i + 1 - 6)) := by
      rw [show alignTo 4 8 = UInt32.ofNat 8 from by decide, ← UInt32.ofNat_add]
      congr 1
      omega
    simp only [Assigner.assignArg, placed, place, hmin.1, hmin.2, hnone, halign, hnext]
    rfl

theorem assignArgs_replicate {i n : Nat} (h : 8 * (i + n) + 8 < 2 ^ 32) :
    (placed i).assignArgs (List.replicate n (4, 4)) =
      ((List.range' i n).map place, placed (i + n)) := by
  induction n generalizing i with
  | zero => rfl
  | succ n ih =>
    rw [List.replicate_succ, Assigner.assignArgs, assignArg_placed (by omega)]
    dsimp only
    rw [ih (by omega), List.range'_succ, List.map_cons, Nat.add_right_comm i 1 n]
    rfl

theorem ofInts_eq {n : Nat} (h : n < 2 ^ 27) :
    ofInts n = ⟨(List.range n).map place, ⟨4, 4, some .rax, none⟩⟩ := by
  have hargs := assignArgs_replicate (i := 0) (n := n) (by omega)
  rw [show placed 0 = .empty from rfl, ← List.range_eq_range'] at hargs
  rw [ofInts, plan, hargs]
  rfl

/-! ## 3. Offsets -/

section
variable {n i : Nat}

theorem length_args_ofInts (h : n < 2 ^ 27) : (ofInts n).args.length = n := by
  rw [ofInts_eq h, List.length_map, List.length_range]

theorem frameSize_ofInts (h : n < 2 ^ 27) : (ofInts n).frameSize.toNat = 16 * n + 16 := by
  have hsum : (8 + 16 * UInt32.ofNat n).toNat = 8 + 16 * n := by
    rw [UInt32.toNat_add, UInt32.toNat_mul, UInt32.toNat_ofNat_of_lt' (by show _ < 2 ^ 32; omega)]
    show (8 + 16 * n % 2 ^ 32) % 2 ^ 32 = _
    omega
  rw [frameSize, length_args_ofInts h, alignTo_toNat (k := 4) rfl (by omega), roundUp]
  omega

/-- The size that does not fit where every offset does: the stub takes it off the stack pointer as a
signed word, and that is -2³¹. -/
theorem frameSize_toInt32_of_eq (h : n = 2 ^ 27 - 1) :
    (ofInts n).frameSize.toInt32.toInt = -2 ^ 31 := by
  have hsize : (ofInts n).frameSize.toNat = 2 ^ 31 := by
    rw [frameSize_ofInts (by omega)]
    omega
  show (ofInts n).frameSize.toBitVec.toInt = _
  rw [BitVec.toInt_eq_msb_cond, BitVec.msb_eq_decide, UInt32.toNat_toBitVec, hsize]
  rfl

theorem valueOffset_toInt (h : Fitting n) (hi : i < n) : (valueOffset i).toInt = -16 - 8 * i := by
  have hbound := fitting_iff.mp h
  have hmul : (8 * Int32.ofNat i).toInt = 8 * i :=
    toInt_mul_ofNat (c := 8) rfl (by omega) (by omega)
  have hfits := h.values i hi
  rw [valueOffset, toInt_sub_of_fits (by rw [hmul]; exact hfits), hmul]
  rfl

theorem pointerArrayOffset_toInt (h : Fitting n) :
    (ofInts n).pointerArrayOffset.toInt = -8 - 16 * n := by
  have hbound := fitting_iff.mp h
  have hmul : (16 * Int32.ofNat n).toInt = 16 * n :=
    toInt_mul_ofNat (c := 16) rfl (by omega) (by omega)
  have hfits := h.array
  rw [pointerArrayOffset, length_args_ofInts h.lt,
    toInt_sub_of_fits (by rw [hmul]; exact hfits), hmul]
  rfl

theorem entryOffset_toInt (h : Fitting n) (hi : i < n) :
    ((ofInts n).pointerArrayOffset + 8 * Int32.ofNat i).toInt = -8 - 16 * n + 8 * i := by
  have hbound := fitting_iff.mp h
  have hmul : (8 * Int32.ofNat i).toInt = 8 * i :=
    toInt_mul_ofNat (c := 8) rfl (by omega) (by omega)
  have hfits := h.entries i hi
  rw [toInt_add_of_fits (by rw [pointerArrayOffset_toInt h, hmul]; exact hfits),
    pointerArrayOffset_toInt h, hmul]

theorem incomingOffset_toInt {k : Nat} (h : Fitting n) (hk : 6 + k < n) :
    (incomingOffset (UInt32.ofNat (8 * k)).toInt32).toInt = 16 + 8 * k := by
  have hbound := fitting_iff.mp h
  have htoNat : (UInt32.ofNat (8 * k)).toNat = 8 * k :=
    UInt32.toNat_ofNat_of_lt' (by show _ < 2 ^ 32; omega)
  have hstack : (UInt32.ofNat (8 * k)).toInt32.toInt = 8 * k := by
    rw [toInt_toInt32 (by omega), htoNat]
    exact Int.natCast_mul 8 k
  have hfits := h.incoming k hk
  rw [incomingOffset, toInt_add_of_fits (by rw [hstack]; exact hfits), hstack]
  rfl

end

/-! ## 4. The code of the parts -/

/-- Keeps an argument that arrives in a register. -/
def spillRegister (i : Nat) : List (Instruction Gp) :=
  match argRegs[i]? with
  | some r => [.store32 .rbp (valueOffset i) r]
  | none => []

/-- Keeps an argument that arrives on the stack. -/
def spillSlot (i : Nat) : List (Instruction Gp) :=
  match argRegs[i]? with
  | some _ => []
  | none =>
    [.load32 .rax .rbp (incomingOffset (UInt32.ofNat (8 * (i - 6))).toInt32),
      .store32 .rbp (valueOffset i) .rax]

/-- Stores the pointer to an argument in the array for a number of arguments. -/
def storePointer (n i : Nat) : List (Instruction Gp) :=
  [.lea .rax .rbp (valueOffset i),
    .store64 .rbp ((ofInts n).pointerArrayOffset + 8 * Int32.ofNat i) .rax]

theorem zipIdx_range_map {α : Type} (n : Nat) (f : Nat → α) :
    ((List.range n).map f).zipIdx = (List.range n).map fun i => (f i, i) := by
  apply List.ext_getElem
  · simp
  · intro i hi hi'
    simp

variable {n : Nat}

theorem spillRegisters_ofInts (h : Fitting n) :
    (ofInts n).spillRegisters = (List.range n).flatMap spillRegister := by
  rw [spillRegisters, ofInts_eq h.lt, zipIdx_range_map, List.flatMap_map]
  congr 1
  funext i
  rw [place, spillRegister]
  cases argRegs[i]? <;> rfl

theorem spillStack_ofInts (h : Fitting n) :
    (ofInts n).spillStack = (List.range n).flatMap spillSlot := by
  rw [spillStack, ofInts_eq h.lt, zipIdx_range_map, List.flatMap_map]
  congr 1
  funext i
  rw [place, spillSlot]
  cases argRegs[i]? <;> rfl

theorem buildArray_ofInts (h : Fitting n) :
    (ofInts n).buildArray = (List.range n).flatMap (storePointer n) := by
  rw [buildArray, length_args_ofInts h.lt]
  rfl

end EntryFrame

end X64

/-- An entry point that takes and returns integers has the stub for their number. -/
theorem NativeEntry.machineCode_of_ints {e : NativeEntry} (hargs : ∀ t ∈ e.signature.args, t = .int)
    (hret : e.signature.ret = .int) (context bridge : Int64) :
    e.machineCode context bridge =
      X64.encodeAll ((X64.EntryFrame.ofInts e.arity).stub context bridge) := by
  have hstorage : e.signature.args.map storage = List.replicate e.arity (4, 4) := by
    refine List.eq_replicate_iff.mpr ⟨List.length_map .., fun w hw => ?_⟩
    obtain ⟨t, ht, rfl⟩ := List.mem_map.mp hw
    rw [hargs t ht]
    decide
  rw [machineCode, frame, hstorage, hret, X64.EntryFrame.ofInts]
  rfl

end RegIR
