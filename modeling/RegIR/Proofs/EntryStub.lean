import RegIR.Proofs.AddressSpace
import RegIR.Proofs.EntryFrames
import Mathlib.Tactic.IntervalCases
/-!
# Entry stubs

The stub for a number of integers, entered by the calling convention, calls the bridge with the
context, the address of a zeroed return slot and an array of pointers to the arguments, and then
returns the content of that slot.  Each part of the code keeps what the parts before it have put
into the frame, because what lies there lies apart.
-/

namespace RegIR.X64

/-! ## 1. The calling convention -/

/-- The registers that a called function leaves as they were, besides the stack pointer. -/
def calleeSaved : List Gp := [.rbx, .rbp, .r12, .r13, .r14, .r15]

namespace Processor

/-- A function has just been called with integers: the return address is on top of the stack, the
first six integers are in the low halves of registers, and the others lie behind the return
address. -/
structure Receives (s : Processor) (args : List Int32) : Prop where
  inRegister : ∀ (i : Nat) (v : Int32) (r : Gp), args[i]? = some v → argRegs[i]? = some r →
    (s.regs r).toUInt32 = v.toUInt32
  onStack : ∀ (k : Nat) (v : Int32), args[6 + k]? = some v →
    s.mem.read32 (s.regs .rsp + UInt64.ofNat (8 + 8 * k)) = v.toUInt32
  aligned : (s.regs .rsp).toNat % 16 = 8

/-- The bytes below the stack pointer. -/
def below (s : Processor) (size : Nat) : Area := .ofOffset (s.regs .rsp) (-size) size

/-- A called function is back: it keeps the registers that it must keep, and memory but for the
given area and a number of bytes below the caller's stack pointer. -/
structure Back (called back : Processor) (result : Area) (room : Nat) : Prop where
  rip : back.rip = called.mem.read64 (called.regs .rsp)
  rsp : back.regs .rsp = called.regs .rsp + 8
  saved : ∀ r ∈ calleeSaved, back.regs r = called.regs r
  mem : ∀ x, x ∉ result → x ∉ back.below room → back.mem x = called.mem x

/-- The address in an entry of the pointer array. -/
def pointer (s : Processor) (i : Nat) : UInt64 := s.mem.read64 (s.regs .rdx + UInt64.ofNat (8 * i))

/-- What is passed to the bridge: the return slot, the pointer array and the arguments. -/
def passed (s : Processor) (n : Nat) : List Area :=
  ⟨s.regs .rsi, 4⟩ :: ⟨s.regs .rdx, 8 * n⟩ :: (List.range n).map fun i => ⟨s.pointer i, 4⟩

/-- The stub entered at `s` has set up the call of the bridge. -/
structure Passes (t s : Processor) (args : List Int32) (context : Int64) : Prop where
  aligned : (t.regs .rsp).toNat % 16 = 0
  context : t.regs .rdi = context.toUInt64
  zeroed : t.mem.read32 (t.regs .rsi) = 0
  arguments : ∀ (i : Nat) (v : Int32), args[i]? = some v → t.mem.read32 (t.pointer i) = v.toUInt32
  apart : (t.passed args.length).Pairwise Area.Disjoint
  /-- The frame lies between the stack pointer and the saved frame pointer. -/
  frame : t.regs .rbp = t.regs .rsp + UInt64.ofNat (16 * args.length + 16)
  framed : ∀ a ∈ t.passed args.length, a.Within ⟨t.regs .rsp, 16 * args.length + 16⟩
  base : t.regs .rbp = s.regs .rsp - 8
  saved : t.mem.read64 (t.regs .rbp) = s.regs .rbp

end Processor

/-! ## 2. Straight code -/

/-- The instruction goes on behind its code. -/
def Instruction.Straight {ρ : Type} : Instruction ρ → Prop
  | .call _ | .ret => False
  | _ => True

theorem rip_exec {i : Instruction Gp} (h : i.Straight) (s : Processor) :
    (i.exec s).rip = s.rip + UInt64.ofNat i.encode.length := by
  cases i <;> first | rfl | exact absurd h id

/-- Straight code runs to its end. -/
theorem rip_execAll {code : List (Instruction Gp)} (h : ∀ i ∈ code, i.Straight) (s : Processor) :
    (execAll code s).rip = s.rip + UInt64.ofNat (encodeAll code).length := by
  induction code generalizing s with
  | nil => exact (UInt64.add_zero _).symm
  | cons i code ih =>
    obtain ⟨hi, hcode⟩ := List.forall_mem_cons.mp h
    rw [execAll_cons, ih hcode, rip_exec hi, UInt64.add_assoc, ← UInt64.ofNat_add]
    simp [encodeAll]

namespace EntryFrame

/-- The code of the stub before it calls the bridge. -/
def beforeCall (f : EntryFrame) (context bridge : Int64) : List (Instruction Gp) :=
  prologue f.frameSize ++ f.spillRegisters ++ f.spillStack ++ f.buildArray ++
    [.storeImm32 .rbp retSlot 0, .movImm .rdi context, .lea .rsi .rbp retSlot,
      .lea .rdx .rbp f.pointerArrayOffset, .movImm .rax bridge]

/-- The code of the stub behind the call of the bridge. -/
def afterCall (f : EntryFrame) : List (Instruction Gp) :=
  .load32 (f.ret.reg.getD .rax) .rbp retSlot :: epilogue

theorem afterCall_ofInts {n : Nat} (h : Fitting n) :
    (ofInts n).afterCall = [.load32 .rax .rbp retSlot, .mov .rsp .rbp, .pop .rbp, .ret] := by
  rw [ofInts_eq h.lt]
  rfl

theorem straight_beforeCall (f : EntryFrame) (context bridge : Int64) :
    ∀ i ∈ f.beforeCall context bridge, i.Straight := by
  have hprologue : ∀ i ∈ prologue f.frameSize, i.Straight := by
    unfold prologue
    split <;> simp [Instruction.Straight]
  have hregisters : ∀ i ∈ f.spillRegisters, i.Straight := by
    simp only [spillRegisters, List.mem_flatMap]
    rintro i ⟨⟨a, k⟩, -, hi⟩
    dsimp only at hi
    split at hi <;> simp_all [Instruction.Straight]
  have hstack : ∀ i ∈ f.spillStack, i.Straight := by
    simp only [spillStack, List.mem_flatMap]
    rintro i ⟨⟨a, k⟩, -, hi⟩
    dsimp only at hi
    split at hi
    · simp only [List.mem_cons, List.not_mem_nil, or_false] at hi
      rcases hi with rfl | rfl <;> trivial
    · cases hi
  have harray : ∀ i ∈ f.buildArray, i.Straight := by
    simp only [buildArray, List.mem_flatMap]
    rintro i ⟨k, -, hi⟩
    simp only [List.mem_cons, List.not_mem_nil, or_false] at hi
    rcases hi with rfl | rfl <;> trivial
  intro i hi
  simp only [beforeCall, List.mem_append, List.mem_cons, List.not_mem_nil, or_false] at hi
  rcases hi with (((hi | hi) | hi) | hi) | rfl | rfl | rfl | rfl | rfl
  · exact hprologue i hi
  · exact hregisters i hi
  · exact hstack i hi
  · exact harray i hi
  all_goals trivial

theorem stub_eq (f : EntryFrame) (context bridge : Int64) :
    f.stub context bridge = f.beforeCall context bridge ++ .call .rax :: f.afterCall := by
  simp [stub, beforeCall, afterCall, callBridge]

end EntryFrame

/-- What each round of a loop carries on is carried from its start to its end. -/
theorem execAll_range (body : Nat → List (Instruction Gp)) (P : Nat → Processor → Prop) (n : Nat)
    (s : Processor) (hstep : ∀ k < n, ∀ s, P k s → P (k + 1) (execAll (body k) s)) (h : P 0 s) :
    P n (execAll ((List.range n).flatMap body) s) := by
  induction n with
  | zero => exact h
  | succ n ih =>
    rw [List.range_succ, List.flatMap_append, execAll_append, List.flatMap_singleton]
    exact hstep n (Nat.lt_succ_self n) _ (ih fun k hk => hstep k (Nat.lt_succ_of_lt hk))

/-! ## 3. Inside the frame -/

namespace Processor

/-- The frame pointer of a stub that is entered at `s`. -/
def base (s : Processor) : UInt64 := s.regs .rsp - 8

/-- The value slot of an argument. -/
def slot (s : Processor) (i : Nat) : UInt64 := s.base + UInt64.ofInt (-16 - 8 * i)

/-- The entry of the pointer array for an argument. -/
def entry (s : Processor) (n i : Nat) : UInt64 := s.base + UInt64.ofInt (-8 - 16 * n + 8 * i)

/-- The argument that the stub finds. -/
def incoming (s : Processor) (i : Nat) : UInt32 :=
  match argRegs[i]? with
  | some r => (s.regs r).toUInt32
  | none => s.mem.read32 (s.base + UInt64.ofInt (16 + 8 * (i - 6 : Nat)))

/-- The frame of the stub that is entered at `s`, and the saved frame pointer on top. -/
def frame (s : Processor) (n : Nat) : Area := .ofOffset s.base (-(16 * n + 16)) (16 * n + 24)

/-- The stub entered at `s₀` has its frame, and has changed nothing but that and rax. -/
structure Framed (s₀ : Processor) (n : Nat) (s : Processor) : Prop where
  rbp : s.regs .rbp = s₀.base
  rsp : s.regs .rsp = s₀.base + UInt64.ofInt (-(16 * n + 16))
  regs : ∀ r, r ≠ .rax → r ≠ .rbp → r ≠ .rsp → s.regs r = s₀.regs r
  saved : s.mem.read64 s₀.base = s₀.regs .rbp
  mem : ∀ x, x ∉ s₀.frame n → s.mem x = s₀.mem x

variable {s₀ s t : Processor} {n i : Nat}

theorem base_eq_ofOffset (s : Processor) (size : Nat) :
    Area.mk s.base size = .ofOffset s.base 0 size := by
  rw [Area.ofOffset, show UInt64.ofInt 0 = 0 from rfl, UInt64.add_zero]

theorem Framed.address (h : Framed s₀ n s) {d : Int32} {z : Int} (hd : d.toInt = z) :
    s.address .rbp d = s₀.base + UInt64.ofInt z := by
  rw [Processor.address, h.rbp, hd]

theorem Framed.set_rax (h : Framed s₀ n s) (v a : UInt64) :
    Framed s₀ n ((s.set .rax v).goto a) where
  rbp := h.rbp
  rsp := h.rsp
  regs := fun r hr hb hs => (regs_set_of_ne _ _ _ hr).trans (h.regs r hr hb hs)
  saved := h.saved
  mem := h.mem

theorem Framed.store (h : Framed s₀ n s) {z : Int} {bs : Bytes} (hlow : -(16 * n + 16) ≤ z)
    (hhigh : z + bs.size ≤ 0) (hn : 16 * n + 16 < 2 ^ 31) (a : UInt64) :
    Framed s₀ n ((s.store (s₀.base + UInt64.ofInt z) bs).goto a) where
  rbp := h.rbp
  rsp := h.rsp
  regs := h.regs
  saved := by
    have hdisjoint : (Area.mk s₀.base 8).Disjoint (.ofOffset s₀.base z bs.size) := by
      rw [base_eq_ofOffset]
      exact (Area.disjoint_ofOffset (by omega) (by omega)).symm
    exact (AddressSpace.read64_write_of_disjoint hdisjoint).trans h.saved
  mem := by
    intro x hx
    have hwithin : (Area.ofOffset s₀.base z bs.size).Within (s₀.frame n) :=
      Area.within_ofOffset (by omega) (by omega) (by omega)
    exact (AddressSpace.write_of_not_mem fun h' => hx (hwithin x h')).trans (h.mem x hx)

/-! ## 4. The parts of the code -/

/-- The stub has kept the arguments of which the condition holds. -/
structure Keeps (s₀ : Processor) (n : Nat) (p : Nat → Prop) (s : Processor) : Prop
    extends Framed s₀ n s where
  kept : ∀ i < n, p i → s.mem.read32 (s₀.slot i) = s₀.incoming i

theorem Keeps.mono {p q : Nat → Prop} (h : Keeps s₀ n p s) (hq : ∀ i < n, q i → p i) :
    Keeps s₀ n q s := ⟨h.toFramed, fun i hi hqi => h.kept i hi (hq i hi hqi)⟩

theorem Keeps.set_rax {p : Nat → Prop} (h : Keeps s₀ n p s) (v a : UInt64) :
    Keeps s₀ n p ((s.set .rax v).goto a) := ⟨h.toFramed.set_rax v a, h.kept⟩

/-- Keeping one more argument leaves the others where they are. -/
theorem Keeps.store32 {p : Nat → Prop} (h : Keeps s₀ n p s) (hfits : EntryFrame.Fitting n)
    (hi : i < n) {r : Gp} (hr : (s.regs r).toUInt32 = s₀.incoming i) :
    Keeps s₀ n (fun j => p j ∨ j = i)
      ((Instruction.store32 .rbp (EntryFrame.valueOffset i) r).exec s) := by
  have hbound := EntryFrame.fitting_iff.mp hfits
  rw [Instruction.exec, h.address (EntryFrame.valueOffset_toInt hfits hi), hr]
  refine ⟨h.toFramed.store (by omega) (by show _ + ((4 : Nat) : Int) ≤ 0; omega) hbound _, ?_⟩
  intro j hj hpj
  by_cases hji : j = i
  · subst hji
    exact AddressSpace.read32_write_ofWord32 _
  · have hdisjoint : (Area.ofOffset s₀.base (-16 - 8 * j) 4).Disjoint
        (.ofOffset s₀.base (-16 - 8 * i) 4) := by
      rcases Nat.lt_or_gt_of_ne hji with hlt | hlt
      · exact (Area.disjoint_ofOffset (by omega) (by omega)).symm
      · exact Area.disjoint_ofOffset (by omega) (by omega)
    exact (AddressSpace.read32_write_of_disjoint hdisjoint).trans
      (h.kept j hj (hpj.resolve_right hji))

theorem incoming_of_reg {r : Gp} (h : argRegs[i]? = some r) :
    s₀.incoming i = (s₀.regs r).toUInt32 := by rw [incoming, h]

theorem incoming_of_stack (h : argRegs[i]? = none) : s₀.incoming i =
    s₀.mem.read32 (s₀.base + UInt64.ofInt (16 + 8 * (i - 6 : Nat))) := by rw [incoming, h]

theorem ne_of_argReg {r : Gp} (h : argRegs[i]? = some r) : r ≠ .rax ∧ r ≠ .rbp ∧ r ≠ .rsp := by
  have hmem : ∀ r ∈ argRegs, r ≠ .rax ∧ r ≠ .rbp ∧ r ≠ .rsp := by decide
  exact hmem r (List.mem_of_getElem? h)

theorem Keeps.spillRegisters (h : Framed s₀ n s) (hfits : EntryFrame.Fitting n) :
    Keeps s₀ n (fun i => i < 6) (execAll (EntryFrame.ofInts n).spillRegisters s) := by
  rw [EntryFrame.spillRegisters_ofInts hfits]
  have hloop := execAll_range EntryFrame.spillRegister
    (fun k => Keeps s₀ n fun i => i < k ∧ i < 6) n s ?_ ⟨h, fun i _ hi => by omega⟩
  · exact hloop.mono fun i hi hlt => ⟨hi, hlt⟩
  · intro k hk t ht
    rw [EntryFrame.spillRegister]
    cases hreg : argRegs[k]? with
    | none =>
      have hge : 6 ≤ k := List.getElem?_eq_none_iff.mp hreg
      exact ht.mono fun i _ hi => by omega
    | some r =>
      obtain ⟨hrax, hrbp, hrsp⟩ := ne_of_argReg hreg
      have hvalue : (t.regs r).toUInt32 = s₀.incoming k := by
        rw [ht.regs r hrax hrbp hrsp, incoming_of_reg hreg]
      exact (ht.store32 hfits hk hvalue).mono fun i _ hi => by omega

theorem Keeps.spillStack (h : Keeps s₀ n (fun i => i < 6) s) (hfits : EntryFrame.Fitting n) :
    Keeps s₀ n (fun _ => True) (execAll (EntryFrame.ofInts n).spillStack s) := by
  rw [EntryFrame.spillStack_ofInts hfits]
  have hbound := EntryFrame.fitting_iff.mp hfits
  have hloop := execAll_range EntryFrame.spillSlot
    (fun k => Keeps s₀ n fun i => i < 6 ∨ i < k) n s ?_ (h.mono fun i _ hi => by omega)
  · exact hloop.mono fun i hi _ => Or.inr hi
  · intro k hk t ht
    rw [EntryFrame.spillSlot]
    cases hreg : argRegs[k]? with
    | some r =>
      have hlt : k < 6 := (List.getElem?_eq_some_iff.mp hreg).1
      exact ht.mono fun i _ hi => by omega
    | none =>
      have hge : 6 ≤ k := List.getElem?_eq_none_iff.mp hreg
      -- The stack argument lies above the frame, so it is still what it was.
      have hdisjoint : (Area.ofOffset s₀.base (16 + 8 * (k - 6 : Nat)) 4).Disjoint (s₀.frame n) :=
        (Area.disjoint_ofOffset (by omega) (by omega)).symm
      have hload : t.mem.read32 (s₀.base + UInt64.ofInt (16 + 8 * (k - 6 : Nat))) =
          s₀.incoming k := by
        rw [incoming_of_stack hreg]
        exact AddressSpace.read32_congr fun x hx => ht.mem x (hdisjoint x hx)
      rw [execAll_cons, execAll_cons, execAll_nil, Instruction.exec,
        ht.address (EntryFrame.incomingOffset_toInt hfits (by omega)), hload]
      refine ((ht.set_rax _ _).store32 hfits hk ?_).mono fun i _ hi => by omega
      simp

/-- The stub has kept all arguments and stored the pointers to the first ones. -/
structure Points (s₀ : Processor) (n k : Nat) (s : Processor) : Prop
    extends Keeps s₀ n (fun _ => True) s where
  pointers : ∀ i < k, s.mem.read64 (s₀.entry n i) = s₀.slot i

/-- Storing one more pointer leaves the arguments and the other pointers where they are. -/
theorem Points.store64 {k : Nat} (h : Points s₀ n k s) (hfits : EntryFrame.Fitting n) (hk : k < n)
    (hrax : s.regs .rax = s₀.slot k) : Points s₀ n (k + 1) ((Instruction.store64 .rbp
      ((EntryFrame.ofInts n).pointerArrayOffset + 8 * Int32.ofNat k) .rax).exec s) := by
  have hbound := EntryFrame.fitting_iff.mp hfits
  rw [Instruction.exec, h.address (EntryFrame.entryOffset_toInt hfits hk), hrax]
  refine ⟨⟨h.toFramed.store (by omega) (by show _ + ((8 : Nat) : Int) ≤ 0; omega) hbound _, ?_⟩, ?_⟩
  · intro j hj _
    have hdisjoint : (Area.ofOffset s₀.base (-16 - 8 * j) 4).Disjoint
        (.ofOffset s₀.base (-8 - 16 * n + 8 * k) 8) :=
      (Area.disjoint_ofOffset (by omega) (by omega)).symm
    exact (AddressSpace.read32_write_of_disjoint hdisjoint).trans (h.kept j hj trivial)
  · intro j hj
    by_cases hjk : j = k
    · subst hjk
      exact AddressSpace.read64_write_ofWord64 _
    · have hdisjoint : (Area.ofOffset s₀.base (-8 - 16 * n + 8 * j) 8).Disjoint
          (.ofOffset s₀.base (-8 - 16 * n + 8 * k) 8) :=
        Area.disjoint_ofOffset (by omega) (by omega)
      exact (AddressSpace.read64_write_of_disjoint hdisjoint).trans (h.pointers j (by omega))

theorem Points.buildArray (h : Keeps s₀ n (fun _ => True) s) (hfits : EntryFrame.Fitting n) :
    Points s₀ n n (execAll (EntryFrame.ofInts n).buildArray s) := by
  rw [EntryFrame.buildArray_ofInts hfits]
  refine execAll_range (EntryFrame.storePointer n) (Points s₀ n) n s ?_ ⟨h, fun i hi => by omega⟩
  intro k hk t ht
  have haddress := ht.address (EntryFrame.valueOffset_toInt hfits hk)
  refine Points.store64 ?_ hfits hk ?_
  · exact ⟨ht.set_rax _ _, ht.pointers⟩
  · exact haddress

/-- The prologue saves the frame pointer and makes room for the frame. -/
theorem Framed.prologue (hfits : EntryFrame.Fitting n) :
    Framed s n (execAll (X64.prologue (EntryFrame.ofInts n).frameSize) s) := by
  have hbound := EntryFrame.fitting_iff.mp hfits
  have hsize := EntryFrame.frameSize_ofInts hfits.lt
  have hne : (EntryFrame.ofInts n).frameSize ≠ 0 := by
    intro h
    rw [h] at hsize
    cases hsize
  have htoInt : (EntryFrame.ofInts n).frameSize.toInt32.toInt = 16 * n + 16 := by
    rw [toInt_toInt32 (by omega), hsize]
    rfl
  rw [X64.prologue, if_neg hne]
  refine ⟨rfl, ?_, ?_, AddressSpace.read64_write_ofWord64 _, ?_⟩
  · show s.base - UInt64.ofInt (EntryFrame.ofInts n).frameSize.toInt32.toInt = _
    rw [htoInt, UInt64.ofInt_neg, UInt64.sub_eq_add_neg]
  · intro r hr hb hs
    show (if r = .rsp then _ else if r = .rbp then _ else if r = .rsp then _ else s.regs r) = _
    rw [if_neg hs, if_neg hb, if_neg hs]
  · intro x hx
    have hwithin : (Area.mk s.base 8).Within (s.frame n) := by
      rw [base_eq_ofOffset]
      exact Area.within_ofOffset (by omega) (by omega) (by omega)
    exact AddressSpace.write_of_not_mem fun h => hx (hwithin x h)

/-! ## 5. The call of the bridge -/

/-- The return slot. -/
def result (s : Processor) : UInt64 := s.base + UInt64.ofInt (-8)

/-- The stub entered at `s₀` is about to call the bridge. -/
structure Ready (s₀ : Processor) (n : Nat) (context bridge : Int64) (s : Processor) : Prop where
  rdi : s.regs .rdi = context.toUInt64
  rsi : s.regs .rsi = s₀.result
  rdx : s.regs .rdx = s₀.entry n 0
  rax : s.regs .rax = bridge.toUInt64
  rbp : s.regs .rbp = s₀.base
  rsp : s.regs .rsp = s₀.base + UInt64.ofInt (-(16 * n + 16))
  regs : ∀ r ∈ calleeSaved, r ≠ .rbp → s.regs r = s₀.regs r
  saved : s.mem.read64 s₀.base = s₀.regs .rbp
  mem : ∀ x, x ∉ s₀.frame n → s.mem x = s₀.mem x
  zeroed : s.mem.read32 s₀.result = 0
  kept : ∀ i < n, s.mem.read32 (s₀.slot i) = s₀.incoming i
  pointers : ∀ i < n, s.mem.read64 (s₀.entry n i) = s₀.slot i

/-- Clearing the return slot leaves the arguments and the pointers where they are. -/
theorem Points.storeImm32 (h : Points s₀ n n s) (hfits : EntryFrame.Fitting n) :
    Points s₀ n n ((Instruction.storeImm32 .rbp EntryFrame.retSlot 0).exec s) ∧
      ((Instruction.storeImm32 .rbp EntryFrame.retSlot 0).exec s).mem.read32 s₀.result = 0 := by
  have hbound := EntryFrame.fitting_iff.mp hfits
  rw [Instruction.exec, h.address (z := -8) rfl]
  refine ⟨⟨⟨h.toFramed.store (by omega) (by show _ + ((4 : Nat) : Int) ≤ 0; omega) hbound _, ?_⟩,
    ?_⟩, AddressSpace.read32_write_ofWord32 _⟩
  · intro j hj _
    have hdisjoint : (Area.ofOffset s₀.base (-16 - 8 * j) 4).Disjoint (.ofOffset s₀.base (-8) 4) :=
      Area.disjoint_ofOffset (by omega) (by omega)
    exact (AddressSpace.read32_write_of_disjoint hdisjoint).trans (h.kept j hj trivial)
  · intro j hj
    have hdisjoint : (Area.ofOffset s₀.base (-8 - 16 * n + 8 * j) 8).Disjoint
        (.ofOffset s₀.base (-8) 4) := Area.disjoint_ofOffset (by omega) (by omega)
    exact (AddressSpace.read64_write_of_disjoint hdisjoint).trans (h.pointers j hj)

theorem ready_beforeCall (hfits : EntryFrame.Fitting n) (context bridge : Int64) :
    Ready s n context bridge
      (execAll ((EntryFrame.ofInts n).beforeCall context bridge) s) := by
  have hframed := Framed.prologue (s := s) hfits
  have hpoints := Points.buildArray ((Keeps.spillRegisters hframed hfits).spillStack hfits) hfits
  obtain ⟨hstored, hzero⟩ := hpoints.storeImm32 hfits
  rw [EntryFrame.beforeCall, execAll_append, execAll_append, execAll_append, execAll_append,
    execAll_cons]
  generalize (Instruction.storeImm32 .rbp EntryFrame.retSlot 0).exec _ = t at hstored hzero ⊢
  have hrdx : t.address .rbp (EntryFrame.ofInts n).pointerArrayOffset = s.entry n 0 := by
    rw [hstored.address (EntryFrame.pointerArrayOffset_toInt hfits), entry]
    congr 2
    omega
  refine ⟨rfl, hstored.address rfl, hrdx, rfl, hstored.rbp, hstored.rsp, ?_, hstored.saved,
    hstored.mem, hzero, fun i hi => hstored.kept i hi trivial, hstored.pointers⟩
  intro r hr hb
  have hother : r ≠ .rax ∧ r ≠ .rdx ∧ r ≠ .rsi ∧ r ≠ .rdi ∧ r ≠ .rsp := by
    revert r
    decide
  obtain ⟨hrax, hrdx, hrsi, hrdi, hrsp⟩ := hother
  show (if r = .rax then _ else if r = .rdx then _ else if r = .rsi then _ else
    if r = .rdi then _ else t.regs r) = _
  rw [if_neg hrax, if_neg hrdx, if_neg hrsi, if_neg hrdi]
  exact hstored.regs r hrax hb hrsp

section
variable {context bridge : Int64} {args : List Int32}

theorem incoming_of_receives (h : s.Receives args) {v : Int32} (hv : args[i]? = some v) :
    s.incoming i = v.toUInt32 := by
  cases hreg : argRegs[i]? with
  | some r => rw [incoming_of_reg hreg, h.inRegister i v r hv hreg]
  | none =>
    have hge : 6 ≤ i := List.getElem?_eq_none_iff.mp hreg
    have haddress : s.base + UInt64.ofInt (16 + 8 * (i - 6 : Nat)) =
        s.regs .rsp + UInt64.ofNat (8 + 8 * (i - 6)) := by
      rw [base, show (16 + 8 * (i - 6 : Nat) : Int) = (8 + (8 + 8 * (i - 6)) : Nat) by omega,
        ofInt_natCast, UInt64.ofNat_add, ← UInt64.add_assoc]
      congr 1
      exact UInt64.sub_add_cancel ..
    rw [incoming_of_stack hreg, haddress]
    exact h.onStack (i - 6) v (by rwa [Nat.add_sub_cancel' hge])

namespace Ready

theorem pointer (h : Ready s₀ n context bridge s) (hi : i < n) : s.pointer i = s₀.slot i := by
  have haddress : s.regs .rdx + UInt64.ofNat (8 * i) = s₀.entry n i := by
    rw [h.rdx, entry, entry, ← ofInt_natCast, UInt64.add_assoc, ← UInt64.ofInt_add]
    congr 2
    omega
  rw [Processor.pointer, haddress, h.pointers i hi]

theorem passed (h : Ready s₀ n context bridge s) : s.passed n =
    .ofOffset s₀.base (-8) 4 :: .ofOffset s₀.base (-8 - 16 * n) (8 * n) ::
      (List.range n).map fun i => .ofOffset s₀.base (-16 - 8 * i) 4 := by
  have hrdx : s.regs .rdx = s₀.base + UInt64.ofInt (-8 - 16 * n) := by
    rw [h.rdx, entry]
    congr 2
    omega
  have hslots : (List.range n).map (fun i => Area.mk (s.pointer i) 4) =
      (List.range n).map fun i => .ofOffset s₀.base (-16 - 8 * i) 4 := by
    refine List.map_congr_left fun i hi => ?_
    rw [h.pointer (List.mem_range.mp hi)]
    rfl
  rw [Processor.passed, h.rsi, hrdx, hslots]
  rfl

theorem apart (h : Ready s₀ n context bridge s) (hfits : EntryFrame.Fitting n) :
    (s.passed n).Pairwise Area.Disjoint := by
  have hbound := EntryFrame.fitting_iff.mp hfits
  rw [h.passed, List.pairwise_cons, List.pairwise_cons, List.pairwise_map]
  refine ⟨?_, ?_, ?_⟩
  · intro a ha
    rcases List.mem_cons.mp ha with rfl | ha
    · exact (Area.disjoint_ofOffset (by omega) (by omega)).symm
    · obtain ⟨i, hi, rfl⟩ := List.mem_map.mp ha
      have hlt := List.mem_range.mp hi
      exact (Area.disjoint_ofOffset (by omega) (by omega)).symm
  · intro a ha
    obtain ⟨i, hi, rfl⟩ := List.mem_map.mp ha
    have hlt := List.mem_range.mp hi
    exact Area.disjoint_ofOffset (by omega) (by omega)
  · refine List.Pairwise.imp_of_mem ?_ List.pairwise_lt_range
    intro i j _ hj hij
    have hlt := List.mem_range.mp hj
    exact (Area.disjoint_ofOffset (by omega) (by omega)).symm

theorem rbp_eq (h : Ready s₀ n context bridge s) :
    s.regs .rbp = s.regs .rsp + UInt64.ofNat (16 * n + 16) := by
  rw [h.rbp, h.rsp, UInt64.add_assoc, ← ofInt_natCast, ← UInt64.ofInt_add,
    show (-(16 * n + 16) + (16 * n + 16 : Nat) : Int) = 0 by omega]
  exact (UInt64.add_zero _).symm

theorem framed (h : Ready s₀ n context bridge s) (hfits : EntryFrame.Fitting n) :
    ∀ a ∈ s.passed n, a.Within ⟨s.regs .rsp, 16 * n + 16⟩ := by
  have hbound := EntryFrame.fitting_iff.mp hfits
  have hframe : Area.mk (s.regs .rsp) (16 * n + 16) =
      .ofOffset s₀.base (-(16 * n + 16)) (16 * n + 16) := by
    rw [h.rsp]
    rfl
  rw [h.passed, hframe]
  intro a ha
  rcases List.mem_cons.mp ha with rfl | ha
  · exact Area.within_ofOffset (by omega) (by omega) (by omega)
  · rcases List.mem_cons.mp ha with rfl | ha
    · exact Area.within_ofOffset (by omega) (by omega) (by omega)
    · obtain ⟨i, hi, rfl⟩ := List.mem_map.mp ha
      have hlt := List.mem_range.mp hi
      exact Area.within_ofOffset (by omega) (by omega) (by omega)

theorem passes (h : Ready s args.length context bridge t) (hs : s.Receives args)
    (hfits : EntryFrame.Fitting args.length) : t.Passes s args context where
  aligned := by
    -- The frame and the saved frame pointer take sixteen bytes less eight.
    have hrsp : s.regs .rsp = t.regs .rsp + UInt64.ofNat (16 * args.length + 24) := by
      have hbase : t.regs .rsp + UInt64.ofNat (16 * args.length + 16) = s.regs .rsp - 8 :=
        h.rbp_eq.symm.trans h.rbp
      rw [show 16 * args.length + 24 = 16 * args.length + 16 + 8 by omega, UInt64.ofNat_add,
        ← UInt64.add_assoc, hbase]
      exact (UInt64.sub_add_cancel ..).symm
    have haligned := hs.aligned
    rw [hrsp, UInt64.toNat_add, UInt64.toNat_ofNat'] at haligned
    omega
  context := h.rdi
  zeroed := by rw [h.rsi, h.zeroed]
  arguments := by
    intro i v hv
    have hi : i < args.length := (List.getElem?_eq_some_iff.mp hv).1
    rw [h.pointer hi, h.kept i hi, incoming_of_receives hs hv]
  apart := h.apart hfits
  frame := h.rbp_eq
  framed := h.framed hfits
  base := h.rbp
  saved := by rw [h.rbp, h.saved]

end Ready

/-! ## 6. The return -/

/-- The call pushes the return address below the stack pointer, and does nothing else to memory. -/
theorem mem_call {room : Nat} (hroom : 8 ≤ room) (hwrap : room ≤ 2 ^ 64) {x : UInt64}
    (hx : x ∉ s.below room) : ((Instruction.call .rax).exec s).mem x = s.mem x := by
  have hpushed : Area.mk (s.regs .rsp - 8) 8 = s.below 8 := by
    rw [below, Area.ofOffset, UInt64.sub_eq_add_neg]
    rfl
  have hwithin : (s.below 8).Within (s.below room) :=
    Area.within_ofOffset (by omega) (by omega) hwrap
  rw [← hpushed] at hwithin
  exact AddressSpace.write_of_not_mem fun h => hx (hwithin x h)

theorem read64_call (s : Processor) : ((Instruction.call .rax).exec s).mem.read64
    (((Instruction.call .rax).exec s).regs .rsp) =
      s.rip + UInt64.ofNat (Instruction.call Gp.rax).encode.length :=
  AddressSpace.read64_write_ofWord64 _

theorem regs_call {r : Gp} (hr : r ≠ .rsp) :
    ((Instruction.call .rax).exec s).regs r = s.regs r := if_neg hr

namespace Ready

theorem below_eq (h : Ready s₀ n context bridge s) (room : Nat) :
    s.below room = .ofOffset s₀.base (-(16 * n + 16) - room) room := by
  rw [below, Area.ofOffset, Area.ofOffset, h.rsp, UInt64.add_assoc, ← UInt64.ofInt_add]
  rfl

section
variable {back : Processor} {room : Nat} (h : Ready s₀ n context bridge s)
  (hback : Back ((Instruction.call .rax).exec s) back ⟨s.regs .rsi, 4⟩ room) (hroom : 8 ≤ room)
  (hwrap : room + 16 * n + 32 ≤ 2 ^ 64)

include hback in
theorem regs_back {r : Gp} (hr : r ∈ calleeSaved) : back.regs r = s.regs r := by
  have hrsp : ∀ r ∈ calleeSaved, r ≠ .rsp := by decide
  rw [hback.saved r hr, regs_call (hrsp r hr)]

include hback hroom hwrap

/-- When the bridge is back, memory is what it was but for the return slot and what lies below the
stack pointer. -/
theorem mem_back {x : UInt64} (hslot : x ∉ Area.mk (s.regs .rsi) 4) (hx : x ∉ s.below room) :
    back.mem x = s.mem x := by
  have hrsp : back.regs .rsp = s.regs .rsp := by
    rw [hback.rsp]
    exact UInt64.sub_add_cancel ..
  have hbelow : back.below room = s.below room := by rw [below, below, hrsp]
  rw [hback.mem x hslot (by rwa [hbelow]), mem_call hroom (by omega) hx]

include h

/-- The saved frame pointer and the return address are still on the stack. -/
theorem mem_above {x : UInt64} (hx : x ∈ Area.ofOffset s₀.base 0 16) : back.mem x = s.mem x := by
  have hslot : (Area.ofOffset s₀.base 0 16).Disjoint ⟨s.regs .rsi, 4⟩ := by
    rw [h.rsi]
    exact (Area.disjoint_ofOffset (z := -8) (n := 4) (by omega) (by omega)).symm
  have hbelow : (Area.ofOffset s₀.base 0 16).Disjoint (s.below room) := by
    rw [h.below_eq]
    exact (Area.disjoint_ofOffset (by omega) (by omega)).symm
  exact mem_back hback hroom hwrap (hslot x hx) (hbelow x hx)

theorem saved_back : back.mem.read64 s₀.base = s₀.regs .rbp := by
  rw [← h.saved]
  refine AddressSpace.read64_congr fun x hx => h.mem_above hback hroom hwrap ?_
  rw [base_eq_ofOffset] at hx
  exact Area.within_ofOffset (by omega) (by omega) (by omega) x hx

theorem return_back : back.mem.read64 (s₀.base + 8) = s₀.mem.read64 (s₀.base + 8) := by
  refine AddressSpace.read64_congr fun x hx => ?_
  have hx : x ∈ Area.ofOffset s₀.base 8 8 := hx
  have habove : x ∈ Area.ofOffset s₀.base 0 16 :=
    Area.within_ofOffset (by omega) (by omega) (by omega) x hx
  have hout : x ∉ s₀.frame n := (Area.disjoint_ofOffset (by omega) (by omega)).symm x hx
  rw [h.mem_above hback hroom hwrap habove, h.mem x hout]

/-- All that the stub and the bridge have changed lies in one area below the caller's stack. -/
theorem mem_returned {x : UInt64} (hx : x ∉ Area.ofOffset s₀.base
    (16 - (room + 16 * n + 32 : Nat)) (room + 16 * n + 32)) : back.mem x = s₀.mem x := by
  have hbelow : x ∉ s.below room := by
    rw [h.below_eq]
    exact fun h' => hx (Area.within_ofOffset (by omega) (by omega) hwrap x h')
  have hslot : x ∉ Area.mk (s.regs .rsi) 4 := by
    rw [h.rsi]
    exact fun h' => hx (Area.within_ofOffset (z := -8) (n := 4) (by omega) (by omega) hwrap x h')
  have hframe : x ∉ s₀.frame n :=
    fun h' => hx (Area.within_ofOffset (by omega) (by omega) hwrap x h')
  rw [mem_back hback hroom hwrap hslot hbelow, h.mem x hframe]

end

/-- The code behind the call returns the content of the return slot, and keeps what a called
function has to keep. -/
theorem returns (h : Ready s n context bridge t) (hfits : EntryFrame.Fitting n) {back : Processor}
    {room : Nat} (hback : Back ((Instruction.call .rax).exec t) back ⟨t.regs .rsi, 4⟩ room)
    (hroom : 8 ≤ room) (hwrap : room + 16 * n + 32 ≤ 2 ^ 64) :
    ((execAll (EntryFrame.ofInts n).afterCall back).regs .rax).toUInt32 =
        back.mem.read32 (t.regs .rsi) ∧
      Back s (execAll (EntryFrame.ofInts n).afterCall back) .empty (room + 16 * n + 32) := by
  have hrbp : back.regs .rbp = s.base := (regs_back hback (by decide)).trans h.rbp
  have hbase : s.base + 8 = s.regs .rsp := UInt64.sub_add_cancel ..
  rw [EntryFrame.afterCall_ofInts hfits]
  simp only [execAll_cons, execAll_nil]
  refine ⟨?_, ?_, ?_, ?_, ?_⟩
  · show (back.mem.read32 (back.regs .rbp + UInt64.ofInt (-8))).toUInt64.toUInt32 = _
    rw [UInt32.toUInt32_toUInt64, hrbp, h.rsi]
    rfl
  · show back.mem.read64 (back.regs .rbp + 8) = _
    rw [hrbp, h.return_back hback hroom hwrap, hbase]
  · show back.regs .rbp + 8 + 8 = _
    rw [hrbp, hbase]
  · intro r hr
    by_cases hne : r = .rbp
    · subst hne
      show back.mem.read64 (back.regs .rbp) = _
      rw [hrbp, h.saved_back hback hroom hwrap]
    · have hother : ∀ r ∈ calleeSaved, r ≠ .rax ∧ r ≠ .rsp := by decide
      obtain ⟨hrax, hrsp⟩ := hother r hr
      rw [← h.regs r hr hne, ← regs_back hback hr]
      show (if r = .rsp then _ else if r = .rbp then _ else if r = .rsp then _ else
        if r = .rsp then _ else if r = .rax then _ else back.regs r) = _
      rw [if_neg hrsp, if_neg hne, if_neg hrsp, if_neg hrsp, if_neg hrax]
  · intro x _ hx
    refine h.mem_returned hback hroom hwrap fun h' => hx ?_
    -- The stack pointer is back above the return address, sixteen bytes above the frame pointer.
    have hrsp : back.regs .rbp + 8 + 8 = s.base + UInt64.ofInt 16 := by
      rw [hrbp, UInt64.add_assoc]
      rfl
    show x ∈ Area.ofOffset (back.regs .rbp + 8 + 8) _ _
    rw [Area.ofOffset, hrsp, UInt64.add_assoc, ← UInt64.ofInt_add]
    exact h'

end Ready

end

end Processor

/-! ## 7. The stub -/

/-- The stub for any number of integers whose frame has displacements of 32 bits, entered with
them by the calling convention, runs to its one call.  There it passes the context, a zeroed
return slot, and pointers to the arguments, which lie apart in its frame.  When the bridge is
back, which may use `room` bytes below the stack pointer, the stub goes on behind the call,
returns the content of the slot, and keeps what its own caller relies on. -/
theorem EntryFrame.stub_calls_bridge {s : Processor} {args : List Int32} (hs : s.Receives args)
    (hfits : Fitting args.length) (context bridge : Int64) :
    let f := ofInts args.length
    let t := execAll (f.beforeCall context bridge) s
    let called := (Instruction.call .rax).exec t
    f.stub context bridge = f.beforeCall context bridge ++ .call .rax :: f.afterCall ∧
      (∀ i ∈ f.beforeCall context bridge, i.Straight) ∧
      t.Passes s args context ∧
      called.rip = bridge.toUInt64 ∧
      ∀ (back : Processor) (room : Nat), called.Back back ⟨t.regs .rsi, 4⟩ room → 8 ≤ room →
        room + 16 * args.length + 32 ≤ 2 ^ 64 →
          back.rip = s.rip +
            UInt64.ofNat (encodeAll (f.beforeCall context bridge ++ [.call .rax])).length ∧
          ((execAll f.afterCall back).regs .rax).toUInt32 = back.mem.read32 (t.regs .rsi) ∧
          s.Back (execAll f.afterCall back) .empty (room + 16 * args.length + 32) := by
  have hready := Processor.ready_beforeCall (s := s) hfits context bridge
  have hstraight := straight_beforeCall (ofInts args.length) context bridge
  refine ⟨stub_eq .., hstraight, hready.passes hs hfits, hready.rax, ?_⟩
  intro back room hback hroom hwrap
  refine ⟨?_, hready.returns hfits hback hroom hwrap⟩
  rw [hback.rip, Processor.read64_call, rip_execAll hstraight, UInt64.add_assoc,
    ← UInt64.ofNat_add, encodeAll, encodeAll, List.flatMap_append, List.length_append,
    List.flatMap_singleton]

/-- A bridge that answers at once. -/
def Processor.answer (called : Processor) (slot : UInt64) (v : UInt32) : Processor :=
  ((called.store slot (Bytes.ofWord32 v)).set .rsp (called.regs .rsp + 8)).goto
    (called.mem.read64 (called.regs .rsp))

theorem Processor.back_answer (called : Processor) (slot : UInt64) (v : UInt32) (room : Nat) :
    called.Back (called.answer slot v) ⟨slot, 4⟩ room where
  rip := rfl
  rsp := rfl
  saved := by
    intro r hr
    have hrsp : ∀ r ∈ calleeSaved, r ≠ .rsp := by decide
    exact if_neg (hrsp r hr)
  mem := fun x hx _ => AddressSpace.write_of_not_mem hx

/-- A stub is entered with seven integers, the last on the stack. -/
def sevenIntegers : Processor where
  regs := fun r => ([0, 4, 3, 0, 0x7fff0008, 0, 2, 0xffffffff00000001, 5, 6][r.number.val]?).getD 0
  rip := 0x1000
  mem := AddressSpace.write (fun _ => 0xcc) 0x7fff0010 (Bytes.ofWord32 0xfffffff9)

theorem receives_sevenIntegers : sevenIntegers.Receives [1, 2, 3, 4, 5, 6, -7] where
  inRegister := by
    intro i v r hv hr
    have hi : i < 6 := (List.getElem?_eq_some_iff.mp hr).1
    interval_cases i <;> cases hv <;> cases hr <;> decide
  onStack := by
    intro k v hv
    have hk : 6 + k < 7 := (List.getElem?_eq_some_iff.mp hv).1
    obtain rfl : k = 0 := by omega
    cases hv
    decide
  aligned := by decide

/-- The bridge is called with seven integers and answers 42, and that is what the stub returns. -/
theorem EntryFrame.stub_calls_bridge_seven :
    let t := execAll ((ofInts 7).beforeCall 5 9) sevenIntegers
    let called := (Instruction.call .rax).exec t
    t.Passes sevenIntegers [1, 2, 3, 4, 5, 6, -7] 5 ∧
      called.Back (called.answer (t.regs .rsi) 42) ⟨t.regs .rsi, 4⟩ 4096 ∧
      ((execAll (ofInts 7).afterCall (called.answer (t.regs .rsi) 42)).regs .rax).toUInt32 =
        42 := by
  have hfits : Fitting 7 := fitting_iff.mpr (by decide)
  obtain ⟨-, -, hpasses, -, hreturn⟩ := stub_calls_bridge receives_sevenIntegers hfits 5 9
  have hback := Processor.back_answer ((Instruction.call .rax).exec
    (execAll ((ofInts 7).beforeCall 5 9) sevenIntegers)) ((execAll ((ofInts 7).beforeCall 5 9)
      sevenIntegers).regs .rsi) 42 4096
  refine ⟨hpasses, hback, ?_⟩
  have hrax := (hreturn _ 4096 hback (by decide) (by decide)).2.1
  exact hrax.trans (AddressSpace.read32_write_ofWord32 _)

end RegIR.X64
