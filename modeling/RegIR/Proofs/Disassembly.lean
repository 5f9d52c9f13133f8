import RegIR.Proofs.Checked
import RegIR.Proofs.Words
import RegIR.X64.Assembler
import RegIR.X64.Disassembler
/-!
# Disassembling what was assembled

The codes of instructions can be told apart, wherever one follows another: the disassembler finds
the instructions of every code that an assembler produces.
-/

namespace RegIR.X64

open Instruction Disassembler

/-! ## 1. Fields -/

theorem Gp.ofFields_fields (r : Gp) : Gp.ofFields r.high r.low = r := by
  obtain ⟨n⟩ := r
  revert n
  decide

theorem Gp.low_lt (r : Gp) : r.low < 8 := by
  obtain ⟨n⟩ := r
  revert n
  decide

namespace Disassembler

variable {e : Extension} {op field : UInt8} {code : List UInt8} {r : Gp}

theorem readExtension_rex (wide reg rm : Bool) (code : List UInt8) :
    readExtension (rex wide reg rm :: code) = (⟨wide, reg, rm⟩, code) := by
  cases wide <;> cases reg <;> cases rm <;> rfl

/-- Without a prefix byte, the opcode must not look like one. -/
theorem readExtension_rex? (reg rm : Bool) (hop : op &&& 0xF2 ≠ 0x40) (code : List UInt8) :
    readExtension (rex? reg rm ++ op :: code) = (⟨false, reg, rm⟩, op :: code) := by
  unfold rex?
  split
  · exact readExtension_rex false reg rm _
  · rename_i h
    rw [Bool.or_eq_true, not_or, Bool.not_eq_true, Bool.not_eq_true] at h
    rw [h.1, h.2]
    exact if_neg hop

/-- The byte that names the operands holds its three fields. -/
theorem fields_of_modRm (mode : UInt8) {low : UInt8} (hmode : mode < 4) (hfield : field < 8)
    (hlow : low < 8) :
    modRm mode field low >>> 6 = mode ∧ modRm mode field low >>> 3 &&& 7 = field ∧
      modRm mode field low &&& 7 = low := by
  have h : ∀ (i : Fin 4) (j k : Fin 8),
      modRm (.ofNat i) (.ofNat j) (.ofNat k) >>> 6 = .ofNat i ∧
      modRm (.ofNat i) (.ofNat j) (.ofNat k) >>> 3 &&& 7 = .ofNat j ∧
      modRm (.ofNat i) (.ofNat j) (.ofNat k) &&& 7 = .ofNat k := by decide +kernel
  have h := h ⟨mode.toNat, UInt8.lt_iff_toNat_lt.mp hmode⟩
    ⟨field.toNat, UInt8.lt_iff_toNat_lt.mp hfield⟩ ⟨low.toNat, UInt8.lt_iff_toNat_lt.mp hlow⟩
  simpa only [UInt8.ofNat_toNat] using h

/-! ## 2. Immediates -/

/-- A value that fits in a byte is that byte, with its sign extended. -/
theorem readImm8_imm8 {v : Int32} (h : fitsByte v = true) (code : List UInt8) :
    readImm8 (imm8 v ++ code) = some (v, code) := by
  rw [fitsByte, Bool.and_eq_true, decide_eq_true_eq, decide_eq_true_eq] at h
  have hbyte : v.toUInt32.toUInt8.toInt8 = v.toInt8 := by
    apply Int8.toBitVec.inj
    show v.toUInt32.toUInt8.toBitVec = v.toBitVec.signExtend 8
    rw [BitVec.signExtend_eq_setWidth_of_le _ (by decide)]
    rfl
  have hv : v.toUInt32.toUInt8.toInt8.toInt32 = v := by
    apply Int32.toInt_inj.mp
    rw [Int8.toInt_toInt32, hbyte, Int32.toInt_toInt8]
    exact Int.bmod_eq_of_le (by omega) (by omega)
  show some (v.toUInt32.toUInt8.toInt8.toInt32, code) = _
  rw [hv]

theorem readImm32_imm32 (v : Int32) (code : List UInt8) :
    readImm32 (imm32 v ++ code) = some (v, code) := by
  simp only [imm32, List.cons_append, List.nil_append, readImm32, Bytes.joinWord32_bytes]
  rfl

theorem readImm64_imm64 (v : Int64) (code : List UInt8) :
    readImm64 (imm64 v ++ code) = some (v, code) := by
  simp only [imm64, List.cons_append, List.nil_append, readImm64, Bytes.joinWord64_bytes]
  rfl

/-! ## 3. Operands -/

theorem readOperand_register (hrm : e.rm = r.high) (hfield : field < 8) (code : List UInt8) :
    readOperand e (modRm 3 field r.low :: code) = some (field, .register r, code) := by
  obtain ⟨hmode, hfield, hlow⟩ := fields_of_modRm 3 (by decide) hfield r.low_lt
  simp only [readOperand, hmode, hfield, hlow, hrm, Gp.ofFields_fields, if_pos]

theorem readIndex_index (low : UInt8) (code : List UInt8) :
    readIndex low ((if low = 4 then [0x24] else []) ++ code) = some code := by
  unfold readIndex
  split
  · rfl
  · rfl

/-- An operand in memory is read with any addressing mode that its base allows. -/
theorem readOperand_of_mode {mode : UInt8} (hrm : e.rm = r.high) (hfield : field < 8)
    (hmode : mode < 3) (hbase : ¬ (mode = 0 ∧ r.low = 5)) {offset : Int32} {tail : List UInt8}
    (hoffset : readOffset mode tail = some (offset, code)) :
    readOperand e (modRm mode field r.low :: ((if r.low = 4 then [0x24] else []) ++ tail)) =
      some (field, .memory r offset, code) := by
  have hmode' : mode < 4 := UInt8.lt_trans hmode (by decide)
  have hne : mode ≠ 3 := UInt8.ne_of_lt hmode
  obtain ⟨hm, hf, hl⟩ := fields_of_modRm mode hmode' hfield r.low_lt
  simp only [readOperand, hm, hf, hl, if_neg hne, if_neg hbase, readIndex_index, hoffset, hrm,
    Gp.ofFields_fields]

/-- The offset decides which mode is used. -/
theorem readOperand_memory (hrm : e.rm = r.high) (hfield : field < 8) (offset : Int32)
    (code : List UInt8) :
    readOperand e (memory field r offset ++ code) = some (field, .memory r offset, code) := by
  unfold memory
  dsimp only
  split
  · rename_i h
    obtain ⟨rfl, hlow⟩ := h
    exact readOperand_of_mode hrm hfield (by decide) (fun h => hlow h.2) rfl
  · split
    · rename_i hfits
      rw [List.cons_append, List.cons_append, List.append_assoc]
      exact readOperand_of_mode hrm hfield (by decide) (fun h => absurd h.1 (by decide))
        (readImm8_imm8 hfits code)
    · rw [List.cons_append, List.cons_append, List.append_assoc]
      exact readOperand_of_mode hrm hfield (by decide) (fun h => absurd h.1 (by decide))
        (readImm32_imm32 offset code)

/-! ## 4. Instructions -/

/-- Three opcodes hold the low bits of a register. -/
theorem opcode_fields (base : UInt8) (hbase : base ∈ [0x50, 0x58, 0xB8]) (r : Gp) :
    (base + r.low) &&& 0xF8 = base ∧ (base + r.low) &&& 7 = r.low ∧ base + r.low ≠ 0xC3 ∧
      (base + r.low) &&& 0xF2 ≠ 0x40 := by
  obtain ⟨n⟩ := r
  have hcases : base = 0x50 ∨ base = 0x58 ∨ base = 0xB8 := by simpa using hbase
  rcases hcases with rfl | rfl | rfl
  all_goals
    revert n
    decide

/-- An opcode without an operand is read by what is behind the prefix byte. -/
theorem read_of_plain {i : Instruction Gp} {rest : List UInt8} {start : List UInt8}
    (hstart : readExtension start = (e, op :: code)) (h : readPlain e op code = some (i, rest)) :
    read start = some (i, rest) := by
  simp only [read, hstart, h]

theorem read_of_operand {i : Instruction Gp} {operand : Operand} {tail rest start : List UInt8}
    (hstart : readExtension start = (e, op :: code)) (hplain : readPlain e op code = none)
    (hoperand : readOperand e code = some (field, operand, tail))
    (h : readWith e op field tail operand = some (i, rest)) : read start = some (i, rest) := by
  simp only [read, hstart, hplain, hoperand, h]

end Disassembler

/-- The code of an instruction is read back, whatever follows. -/
theorem read_encode (i : Instruction Gp) (code : List UInt8) :
    read (i.encode ++ code) = some (i, code) := by
  cases i with
  | push r =>
    obtain ⟨hop, hlow, hret, hrex⟩ := opcode_fields 0x50 (by decide) r
    rw [encode, List.append_assoc]
    refine read_of_plain (readExtension_rex? false r.high hrex code) ?_
    simp [readPlain, hop, hlow, hret, Gp.ofFields_fields]
  | pop r =>
    obtain ⟨hop, hlow, hret, hrex⟩ := opcode_fields 0x58 (by decide) r
    rw [encode, List.append_assoc]
    refine read_of_plain (readExtension_rex? false r.high hrex code) ?_
    simp [readPlain, hop, hlow, hret, Gp.ofFields_fields]
  | movImm dst imm =>
    obtain ⟨hop, hlow, hret, hrex⟩ := opcode_fields 0xB8 (by decide) dst
    rw [encode, List.append_assoc]
    refine read_of_plain (readExtension_rex true false dst.high _) ?_
    simp [readPlain, hop, hlow, hret, Gp.ofFields_fields, readImm64_imm64]
  | mov dst src =>
    exact read_of_operand (readExtension_rex true src.high dst.high _) rfl
      (readOperand_register rfl src.low_lt code) (by simp [readWith, Gp.ofFields_fields])
  | subImm dst imm =>
    rw [encode]
    split
    · rename_i hfits
      exact read_of_operand (readExtension_rex true false dst.high _) rfl
        (readOperand_register rfl (by decide) _) (by simp [readWith, readImm8_imm8 hfits])
    · split
      · rename_i hdst
        subst hdst
        refine read_of_plain (readExtension_rex true false false _) ?_
        show (readImm32 (imm32 imm ++ code)).map (fun x => (subImm Gp.rax x.1, x.2)) = _
        rw [readImm32_imm32]
        rfl
      · exact read_of_operand (readExtension_rex true false dst.high _) rfl
          (readOperand_register rfl (by decide) _) (by simp [readWith, readImm32_imm32])
  | load32 dst base offset =>
    rw [encode, List.append_assoc, List.append_assoc]
    exact read_of_operand (readExtension_rex? dst.high base.high (by decide) _) rfl
      (readOperand_memory rfl dst.low_lt offset code) (by simp [readWith, Gp.ofFields_fields])
  | store32 base offset src =>
    rw [encode, List.append_assoc, List.append_assoc]
    exact read_of_operand (readExtension_rex? src.high base.high (by decide) _) rfl
      (readOperand_memory rfl src.low_lt offset code) (by simp [readWith, Gp.ofFields_fields])
  | storeImm32 base offset imm =>
    rw [encode, List.append_assoc, List.append_assoc, List.append_assoc]
    exact read_of_operand (readExtension_rex? false base.high (by decide) _) rfl
      (readOperand_memory rfl (by decide) offset _) (by simp [readWith, readImm32_imm32])
  | store64 base offset src =>
    rw [encode, List.append_assoc]
    exact read_of_operand (readExtension_rex true src.high base.high _) rfl
      (readOperand_memory rfl src.low_lt offset code) (by simp [readWith, Gp.ofFields_fields])
  | lea dst base offset =>
    rw [encode, List.append_assoc]
    exact read_of_operand (readExtension_rex true dst.high base.high _) rfl
      (readOperand_memory rfl dst.low_lt offset code) (by simp [readWith, Gp.ofFields_fields])
  | call r =>
    rw [encode, List.append_assoc]
    exact read_of_operand (readExtension_rex? false r.high (by decide) _) rfl
      (readOperand_register rfl (by decide) code) (by simp [readWith])
  | ret => rfl

theorem encode_ne_nil (i : Instruction Gp) : i.encode ≠ [] := by
  intro h
  have hread := read_encode i []
  rw [h] at hread
  cases hread

/-- Codes that stand one behind the other are read one after the other. -/
theorem disassemble_encodeAll (code : List (Instruction Gp)) :
    disassemble (encodeAll code) = some code := by
  induction code with
  | nil => rw [encodeAll, List.flatMap_nil, disassemble]
  | cons i code ih =>
    have hread := read_encode i (encodeAll code)
    have hlen : (encodeAll (i :: code)).length = i.encode.length + (encodeAll code).length := by
      rw [encodeAll, List.flatMap_cons, List.length_append]
      rfl
    cases hcode : encodeAll (i :: code) with
    | nil =>
      rw [encodeAll, List.flatMap_cons, List.append_eq_nil_iff] at hcode
      exact absurd hcode.1 (encode_ne_nil i)
    | cons b bs =>
      have hpos := List.length_pos_of_ne_nil (encode_ne_nil i)
      rw [hcode, List.length_cons] at hlen
      have hstart : i.encode ++ encodeAll code = b :: bs := hcode
      rw [hstart] at hread
      rw [disassemble, hread]
      simp only [if_pos (show (encodeAll code).length ≤ bs.length by omega), ih, Option.map_some]

/-! ## 5. Emissions -/

/-- A general-purpose register, as one of the registers of all banks. -/
def Register.ofGp (r : Gp) : Register := ⟨0, r.number⟩

/-- The register is none of the sixteen general-purpose ones. -/
def Register.isForeign (r : Register) : Bool := r.bank ≠ 0 ∨ 15 < r.number

theorem Register.isForeign_iff {r : Register} :
    r.isForeign = true ↔ r.bank ≠ 0 ∨ 15 < r.number := decide_eq_true_iff

theorem Register.gp?_ofGp (g : Gp) : (ofGp g).gp? = some g :=
  dif_pos ⟨rfl, g.number.isLt⟩

theorem Register.resolve_ofGp (g : Gp) : (ofGp g).resolve = .ok g := by
  rw [resolve, gp?_ofGp]

theorem Register.resolve_of_isForeign {r : Register} (h : r.isForeign = true) :
    r.resolve = .error (.invalidRegister r) := by
  rw [isForeign_iff] at h
  simp only [resolve, gp?, dif_neg (show ¬ (r.bank = 0 ∧ r.number < 16) by omega)]

theorem Register.exists_ofGp {r : Register} (h : r.isForeign ≠ true) : ∃ g, r = ofGp g := by
  rw [Ne, isForeign_iff, not_or, Decidable.not_not, Nat.not_lt] at h
  obtain ⟨bank, number⟩ := r
  obtain ⟨rfl, hlt⟩ := h
  exact ⟨⟨⟨number, Nat.lt_succ_of_le hlt⟩⟩, rfl⟩

namespace Instruction

variable {ρ σ : Type}

/-- Names the registers in another way. -/
def map (f : ρ → σ) : Instruction ρ → Instruction σ
  | push r => .push (f r)
  | pop r => .pop (f r)
  | mov dst src => .mov (f dst) (f src)
  | movImm dst imm => .movImm (f dst) imm
  | subImm dst imm => .subImm (f dst) imm
  | load32 dst base offset => .load32 (f dst) (f base) offset
  | store32 base offset src => .store32 (f base) offset (f src)
  | storeImm32 base offset imm => .storeImm32 (f base) offset imm
  | store64 base offset src => .store64 (f base) offset (f src)
  | lea dst base offset => .lea (f dst) (f base) offset
  | call r => .call (f r)
  | ret => .ret

/-- The registers, in the order of the operands. -/
def registers : Instruction ρ → List ρ
  | push r | pop r | movImm r _ | subImm r _ | storeImm32 r _ _ | call r => [r]
  | mov r s | load32 r s _ | store32 r _ s | store64 r _ s | lea r s _ => [r, s]
  | ret => []

theorem resolve_map (i : Instruction Gp) : (i.map .ofGp).resolve = .ok i := by
  cases i <;> simp only [map, resolve, Register.resolve_ofGp] <;> rfl

/-- The first register that is not general-purpose is reported. -/
theorem resolve_of_find? {i : Instruction Register} {r : Register}
    (h : i.registers.find? (·.isForeign) = some r) : i.resolve = .error (.invalidRegister r) := by
  have hr := Register.resolve_of_isForeign (List.find?_some h)
  cases i with
  | ret => cases h
  | push r' | pop r' | movImm r' | subImm r' | storeImm32 r' | call r' =>
    have hmem := List.mem_of_find?_eq_some h
    obtain rfl := List.mem_singleton.mp hmem
    simp only [resolve, hr]
    rfl
  | mov r' s | load32 r' s | store32 r' _ s | store64 r' _ s | lea r' s =>
    by_cases hr' : r'.isForeign = true
    · rw [registers, List.find?_cons_of_pos hr'] at h
      cases h
      simp only [resolve, hr]
      rfl
    · rw [registers, List.find?_cons_of_neg hr'] at h
      obtain rfl := List.mem_singleton.mp (List.mem_of_find?_eq_some h)
      obtain ⟨g, rfl⟩ := Register.exists_ofGp hr'
      simp only [resolve, hr, Register.resolve_ofGp]
      rfl

/-- Without such a register, the instruction is one over general-purpose registers. -/
theorem exists_map {i : Instruction Register} (h : ∀ r ∈ i.registers, r.isForeign ≠ true) :
    ∃ j : Instruction Gp, i = j.map .ofGp := by
  have hr : ∀ r ∈ i.registers, Register.ofGp (r.gp?.getD .rax) = r := by
    intro r hr
    obtain ⟨g, rfl⟩ := Register.exists_ofGp (h r hr)
    rw [Register.gp?_ofGp, Option.getD_some]
  refine ⟨i.map fun r => r.gp?.getD .rax, ?_⟩
  cases i <;> simp_all [map, registers]

end Instruction

namespace Emission

/-- The registers that an emission is given, in the order of its operands. -/
def registers : Emission → List Register
  | instruction i => i.registers
  | _ => []

/-- An emission is refused for the first register that is not general-purpose. -/
def answer (e : Emission) : Except AssemblyError Unit :=
  match e.registers.find? (·.isForeign) with
  | some r => .error (.invalidRegister r)
  | none => .ok ()

/-- The instructions that an emission stands for: none if it is refused. -/
inductive Means : Emission → List (Instruction Gp) → Prop
  | instruction (i : Instruction Gp) : Means (.instruction (i.map .ofGp)) [i]
  | prologue : Means (.prologue 0) [.push .rbp, .mov .rbp .rsp]
  | prologueWithFrame {frameSize : UInt32} (h : frameSize ≠ 0) :
      Means (.prologue frameSize) [.push .rbp, .mov .rbp .rsp, .subImm .rsp frameSize.toInt32]
  | epilogue : Means .epilogue [.mov .rsp .rbp, .pop .rbp, .ret]
  | refused {e : Emission} {r : Register} (hr : r ∈ e.registers) (h : r.bank ≠ 0 ∨ 15 < r.number) :
      Means e []

theorem means_of_find? {e : Emission} {r : Register}
    (h : e.registers.find? (·.isForeign) = some r) : e.Means [] :=
  .refused (List.mem_of_find?_eq_some h) (Register.isForeign_iff.mp (List.find?_some h))

/-- An emission is answered by what it stands for. -/
theorem instructions_cases (e : Emission) :
    (∃ part, e.instructions = .ok part ∧ e.Means part ∧ e.answer = .ok ()) ∨
      ∃ err, e.instructions = .error err ∧ e.Means [] ∧ e.answer = .error err := by
  cases e with
  | instruction i =>
    cases h : i.registers.find? (·.isForeign) with
    | some r =>
      have hres := resolve_of_find? h
      exact Or.inr ⟨.invalidRegister r, by rw [instructions, hres]; rfl, means_of_find? h,
        by rw [answer, registers, h]⟩
    | none =>
      obtain ⟨j, rfl⟩ := exists_map (List.find?_eq_none.mp h)
      exact Or.inl ⟨[j], by rw [instructions, resolve_map]; rfl, .instruction j,
        by rw [answer, registers, h]⟩
  | prologue frameSize =>
    refine Or.inl ⟨X64.prologue frameSize, rfl, ?_, rfl⟩
    unfold X64.prologue
    split
    · rename_i h
      subst h
      exact .prologue
    · rename_i h
      exact .prologueWithFrame h
  | epilogue => exact Or.inl ⟨_, rfl, .epilogue, rfl⟩

end Emission

namespace Assembler

/-- Machine code is put together piece by piece. -/
theorem encodeAll_flatten (parts : List (List (Instruction Gp))) :
    encodeAll parts.flatten = parts.flatMap encodeAll := by
  induction parts with
  | nil => rfl
  | cons part parts ih =>
    rw [List.flatten_cons, List.flatMap_cons, ← ih, encodeAll, encodeAll, encodeAll,
      List.flatMap_append]

/-- Every emission appends what it stands for. -/
theorem code_emitAll (a : Assembler) (es : List Emission) :
    (a.emitAll es).1 = es.map Emission.answer ∧
      ∃ parts : List (List (Instruction Gp)), List.Forall₂ Emission.Means es parts ∧
        (a.emitAll es).2.code.toList = a.code.toList ++ parts.flatten := by
  induction es generalizing a with
  | nil => exact ⟨rfl, [], .nil, (List.append_nil _).symm⟩
  | cons e es ih =>
    rcases e.instructions_cases with ⟨part, hpart, hmeans, hanswer⟩ | ⟨err, herr, hmeans, hanswer⟩
    · have hemit : a.emit e = .ok ⟨a.code ++ part⟩ := by rw [emit, hpart]
      obtain ⟨hanswers, parts, hparts, hcode⟩ := ih ⟨a.code ++ part⟩
      refine ⟨?_, part :: parts, .cons hmeans hparts, ?_⟩
      · simp only [emitAll, hemit, hanswers, List.map_cons, hanswer]
      · simp only [emitAll, hemit, hcode, List.flatten_cons, Array.toList_appendList,
          List.append_assoc]
    · have hemit : a.emit e = .error err := by rw [emit, herr]
      obtain ⟨hanswers, parts, hparts, hcode⟩ := ih a
      refine ⟨?_, [] :: parts, .cons hmeans hparts, ?_⟩
      · simp only [emitAll, hemit, hanswers, List.map_cons, hanswer]
      · simp only [emitAll, hemit, hcode, List.flatten_cons, List.nil_append]

/-- The instructions that any emissions stand for are found again in the machine code, one behind
the other, and their number is the count.  An emission is refused exactly for a register that is
not general-purpose; then it adds no byte and no instruction. -/
theorem disassemble_emitAll (es : List Emission) :
    (empty.emitAll es).1 = es.map Emission.answer ∧
    ∃ parts : List (List (Instruction Gp)), List.Forall₂ Emission.Means es parts ∧
      (empty.emitAll es).2.bytes = parts.flatMap encodeAll ∧
      disassemble (empty.emitAll es).2.bytes = some parts.flatten ∧
      (empty.emitAll es).2.instructionCount = parts.flatten.length := by
  obtain ⟨hanswers, parts, hparts, hcode⟩ := empty.code_emitAll es
  have hcode : (empty.emitAll es).2.code.toList = parts.flatten := hcode
  refine ⟨hanswers, parts, hparts, ?_, ?_, ?_⟩
  · rw [bytes, hcode, encodeAll_flatten]
  · rw [bytes, hcode, disassemble_encodeAll]
  · rw [instructionCount, ← Array.length_toList, hcode]

end Assembler

end RegIR.X64
