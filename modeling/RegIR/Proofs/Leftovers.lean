import RegIR.Proofs.Accesses
import RegIR.Session
/-!
# Leftover bytes

What the store of a stack holds above the size of the stack shows in nothing: two states that differ
in leftover bytes only take the same steps.
-/

namespace RegIR

/-! ## 1. Memories -/

namespace Memory

/-- The same bytes can be seen. -/
def Same (m n : Memory) : Prop := ∀ i, m.byte? i = n.byte? i

namespace Same

variable {m n : Memory} (h : Same m n)
include h

theorem symm : Same n m := fun i => (h i).symm

theorem size_eq : m.size = n.size := by
  apply Nat.le_antisymm
  · rw [← byte?_eq_none_iff, h]
    exact byte?_eq_none_iff.mpr (Nat.le_refl _)
  · rw [← byte?_eq_none_iff, ← h]
    exact byte?_eq_none_iff.mpr (Nat.le_refl _)

theorem word32?_eq (i : Nat) : m.word32? i = n.word32? i := word32?_congr fun k _ => h (i + k)

theorem word64?_eq (i : Nat) : m.word64? i = n.word64? i := word64?_congr fun k _ => h (i + k)

theorem area_eq (start stop : Nat) : m.area start stop = n.area start stop := by
  cases hm : m.area start stop with
  | error v =>
    unfold area at hm ⊢
    rw [h.size_eq] at hm
    split at hm
    · cases hm
    · rename_i hout
      rw [if_neg hout, hm]
  | ok bs =>
    cases hn : n.area start stop with
    | error v =>
      unfold area at hm hn
      rw [h.size_eq] at hm
      split at hn
      · cases hn
      · rename_i hout
        rw [if_neg hout] at hm
        cases hm
    | ok bs' =>
      -- Byte for byte the area can be seen.
      have hdata : bs.data = bs'.data := by
        apply Array.ext_getElem?
        intro k
        rw [getElem?_of_area hm, getElem?_of_area hn, h]
      rw [ByteArray.ext hdata]

theorem overwrite {i : Nat} {bs : Bytes} (hm : i + bs.size ≤ m.size) (hn : i + bs.size ≤ n.size) :
    Same (m.overwrite i bs hm) (n.overwrite i bs hn) := by
  intro k
  rw [byte?_overwrite, byte?_overwrite, h]

theorem setByte {i : Nat} (v : UInt8) (hm : i < m.size) (hn : i < n.size) :
    Same (m.setByte i v hm) (n.setByte i v hn) := by
  intro k
  rw [byte?_setByte, byte?_setByte, h]

theorem grow (count : Nat) : Same (m.grow count) (n.grow count) := by
  intro k
  rw [byte?_grow, byte?_grow, h, h.size_eq]

theorem cut (size : Nat) : Same (m.cut size) (n.cut size) := by
  intro k
  rw [byte?_cut, byte?_cut, h]

end Same

/-- Nothing is left to see of a memory that is cut to nothing. -/
theorem same_cut_zero (m : Memory) : Same (m.cut 0) empty := by
  intro i
  rw [byte?_cut, if_neg (Nat.not_lt_zero i)]
  exact (byte?_eq_none_iff.mpr (Nat.zero_le i)).symm

end Memory

/-! ## 2. Computations -/

/-- Both computations fail alike, or give related values. -/
inductive Alike {ε α : Type} (r : α → α → Prop) : Except ε α → Except ε α → Prop
  | error (e : ε) : Alike r (.error e) (.error e)
  | ok {a b : α} (h : r a b) : Alike r (.ok a) (.ok b)

namespace Alike

variable {ε α β : Type} {r : α → α → Prop} {q : β → β → Prop}

theorem bind {x y : Except ε α} {f g : α → Except ε β} (h : Alike r x y)
    (hf : ∀ a b, r a b → Alike q (f a) (g b)) : Alike q (x >>= f) (y >>= g) := by
  cases h with
  | error e => exact .error e
  | ok h => exact hf _ _ h

/-- A computation that does not depend on the memory. -/
theorem bind_left {x : Except ε α} {f g : α → Except ε β} (hf : ∀ a, Alike q (f a) (g a)) :
    Alike q (x >>= f) (x >>= g) := by
  cases x with
  | error e => exact .error e
  | ok a => exact hf a

theorem eq_error {e : ε} {y : Except ε α} (h : Alike r (.error e) y) : y = .error e := by
  cases h
  rfl

theorem exists_ok {a : α} {y : Except ε α} (h : Alike r (.ok a) y) : ∃ b, y = .ok b ∧ r a b := by
  cases h with
  | ok h => exact ⟨_, rfl, h⟩

end Alike

namespace Machine

open Memory

/-! ## 3. Operations on data -/

section Operations

variable {m n : Memory} (h : Same m n)
include h

theorem alike_moved_replace (i : Nat) (bs : Bytes) :
    Alike Same (moved (m.replace i bs)) (moved (n.replace i bs)) := by
  unfold replace
  by_cases hm : i + bs.size ≤ m.size
  · have hn : i + bs.size ≤ n.size := by rwa [← h.size_eq]
    rw [dif_pos hm, dif_pos hn]
    exact .ok (h.overwrite hm hn)
  · have hn : ¬ i + bs.size ≤ n.size := by rwa [← h.size_eq]
    rw [dif_neg hm, dif_neg hn, h.size_eq]
    exact .error _

theorem alike_copyWithin (start stop dest : Nat) :
    Alike Same (m.copyWithin start stop dest) (n.copyWithin start stop dest) := by
  have harea := h.area_eq start stop
  unfold area at harea
  unfold copyWithin
  by_cases hm : stop ≤ m.size
  · have hn : stop ≤ n.size := by rwa [← h.size_eq]
    rw [if_pos hm, if_pos hn] at harea
    rw [dif_pos hm, dif_pos hn]
    by_cases hdm : dest + (stop - start) ≤ m.size
    · have hdn : dest + (stop - start) ≤ n.size := by rwa [← h.size_eq]
      rw [dif_pos hdm, dif_pos hdn]
      refine .ok fun k => ?_
      -- The bytes that are copied are the same ones.
      rw [byte?_overwrite, byte?_overwrite, Except.ok.inj harea, h]
    · have hdn : ¬ dest + (stop - start) ≤ n.size := by rwa [← h.size_eq]
      rw [dif_neg hdm, dif_neg hdn]
      exact .error _
  · have hn : ¬ stop ≤ n.size := by rwa [← h.size_eq]
    rw [dif_neg hm, dif_neg hn, h.size_eq]
    exact .error _

theorem alike_moved_copyWithin (start stop dest : Nat) :
    Alike Same (moved (m.copyWithin start stop dest)) (moved (n.copyWithin start stop dest)) := by
  have hcopy := alike_copyWithin h start stop dest
  generalize m.copyWithin start stop dest = x at hcopy
  generalize n.copyWithin start stop dest = y at hcopy
  cases hcopy with
  | error v => exact .error _
  | ok hsame => exact .ok hsame

theorem same_setWord32? (i : Nat) (w : UInt32) :
    Option.Rel Same (m.setWord32? i w) (n.setWord32? i w) := by
  unfold setWord32?
  by_cases hm : i + 4 ≤ m.size
  · have hn : i + 4 ≤ n.size := by rwa [← h.size_eq]
    rw [dif_pos hm, dif_pos hn]
    exact .some ((((h.setByte _ _ _).setByte _ _ _).setByte _ _ _).setByte _ _ _)
  · have hn : ¬ i + 4 ≤ n.size := by rwa [← h.size_eq]
    rw [dif_neg hm, dif_neg hn]
    exact .none

/-! ### Registers -/

theorem readInt_eq (a : Activation) (r : Reg) : a.readInt m r = a.readInt n r := by
  simp only [Activation.readInt, h.word32?_eq]

theorem readPointer_eq (a : Activation) (r : Reg) : a.readPointer m r = a.readPointer n r := by
  simp only [Activation.readPointer, h.word64?_eq]

theorem readInts_eq (a : Activation) (rs : List Reg) : a.readInts m rs = a.readInts n rs := by
  induction rs with
  | nil => rfl
  | cons r rs ih => rw [Activation.readInts, Activation.readInts, readInt_eq h, ih]

theorem alike_writeInt (a : Activation) (r : Reg) (v : Int32) :
    Alike Same (a.writeInt m r v) (a.writeInt n r v) := by
  unfold Activation.writeInt
  refine .bind_left fun e => ?_
  have hset := same_setWord32? h e.start v.toUInt32
  generalize m.setWord32? e.start v.toUInt32 = x at hset
  generalize n.setWord32? e.start v.toUInt32 = y at hset
  cases hset with
  | none => exact .error _
  | some hxy => exact .ok hxy

/-! ### Operations -/

theorem alike_execReadArg (a : Activation) (target : Reg) (index : Nat) :
    Alike Same (execReadArg a m target index) (execReadArg a n target index) := by
  unfold execReadArg
  split
  · exact .error _
  · refine .bind_left fun dst => ?_
    split
    · exact .error _
    · exact alike_moved_copyWithin h ..

theorem alike_execUnary (a : Activation) (target : Reg) (op : UnaryOp) (operand : Reg) :
    Alike Same (execUnary a m target op operand) (execUnary a n target op operand) := by
  unfold execUnary
  rw [readInt_eq h]
  exact .bind_left fun x => alike_writeInt h ..

theorem alike_execBinary (a : Activation) (target : Reg) (op : BinaryOp) (lhs rhs : Reg) :
    Alike Same (execBinary a m target op lhs rhs) (execBinary a n target op lhs rhs) := by
  unfold execBinary
  rw [readInt_eq h, readInt_eq h]
  refine .bind_left fun l => .bind_left fun r => ?_
  split
  · exact .error _
  · exact alike_writeInt h ..

theorem alike_execStackAlloc (a : Activation) (target : Reg) (slot : SlotId) :
    Alike Same (execStackAlloc a m target slot) (execStackAlloc a n target slot) := by
  unfold execStackAlloc
  split
  · exact .error _
  · exact .bind_left fun dst => alike_moved_replace h ..

theorem alike_execLoad (c : CallStack) (target pointer : Reg) :
    Alike Same (execLoad c m target pointer) (execLoad c n target pointer) := by
  unfold execLoad
  rw [readPointer_eq h]
  refine .bind_left fun t => .bind_left fun address => .bind_left fun place => ?_
  exact .bind_left fun dst => alike_moved_copyWithin h ..

theorem alike_execStore (c : CallStack) (pointer source : Reg) :
    Alike Same (execStore c m pointer source) (execStore c n pointer source) := by
  unfold execStore checkStore
  rw [readPointer_eq h, readPointer_eq h]
  refine .bind_left fun t => .bind_left fun address => .bind_left fun place => ?_
  exact .bind_left fun _ => .bind_left fun src => alike_moved_copyWithin h ..

/-! ### Calls and returns -/

theorem same_reserve (size align : Nat) :
    ∃ base m' n', reserve m size align = (base, m') ∧ reserve n size align = (base, n') ∧
      Same m' n' := by
  unfold reserve
  rw [h.size_eq]
  exact ⟨_, _, _, rfl, rfl, h.grow _⟩

theorem same_startFrame (c : Code) (argsBase : Nat) :
    ∃ a m' n', startFrame m c argsBase = (a, m') ∧ startFrame n c argsBase = (a, n') ∧
      Same m' n' := by
  obtain ⟨base, m', n', hm, hn, hsame⟩ :=
    same_reserve h c.frame.size c.frame.layout.align.toNat
  unfold startFrame
  rw [hm, hn]
  exact ⟨_, m', n', rfl, rfl, hsame⟩

theorem alike_passArgs (caller : Activation) (callee : Code) (base position : Nat)
    (args : List Reg) :
    Alike Same (passArgs caller callee base position args m)
      (passArgs caller callee base position args n) := by
  induction args generalizing m n position with
  | nil => exact .ok h
  | cons r rs ih =>
    unfold passArgs
    refine .bind_left fun src => ?_
    split
    · exact .error _
    · split
      · exact .error _
      · exact (alike_moved_copyWithin h ..).bind fun _ _ hsame => ih hsame _

theorem alike_enterCall {H : Type} (env : Env H) (calls : CallStack) (target : Reg)
    (callee : FuncId) (args : List Reg) :
    Alike (fun x y => Same x.1 y.1 ∧ x.2 = y.2) (enterCall env m calls target callee args)
      (enterCall env n calls target callee args) := by
  unfold enterCall
  refine .bind_left fun _ => .bind_left fun c => ?_
  split
  · exact .error _
  · obtain ⟨base, m₁, n₁, hm, hn, h₁⟩ := same_reserve h c.args.size.toNat c.args.align.toNat
    rw [hm, hn]
    refine (alike_passArgs h₁ ..).bind fun m₂ n₂ h₂ => .bind_left fun dst => ?_
    obtain ⟨a, m₃, n₃, hm, hn, h₃⟩ := same_startFrame h₂ c base
    rw [hm, hn]
    exact .ok ⟨h₃, rfl⟩

theorem returned_eq (a : Activation) (value : Reg) : returned a m value = returned a n value := by
  simp only [returned, checkReturn, readPointer_eq h]

theorem alike_placeArgs (c : Code) (base position : Nat) (args : List Bytes) (types : List Ty) :
    Alike Same (placeArgs c base position args types m)
      (placeArgs c base position args types n) := by
  induction args generalizing m n position types with
  | nil =>
    unfold placeArgs
    exact .ok h
  | cons bytes args ih =>
    cases types with
    | nil =>
      unfold placeArgs
      exact .ok h
    | cons t types =>
      unfold placeArgs
      split
      · exact .error _
      · split
        · exact .error _
        · exact (alike_moved_replace h ..).bind fun _ _ hsame => ih hsame ..

end Operations

end Machine

/-! ## 4. Counts -/

namespace Stats

/-- The counts over two histories, one behind the other. -/
def add (s t : Stats) : Stats :=
  ⟨s.invocations + t.invocations, s.calls + t.calls, s.instructions + t.instructions,
    max s.maxDepth t.maxDepth⟩

theorem zero_add (s : Stats) : zero.add s = s := by
  simp [zero, add]

theorem add_zero (s : Stats) : s.add zero = s := by
  simp [zero, add]

variable {a b s t : Stats} (h : a.add s = b.add t)
include h

theorem add_reach_congr (depth : Nat) : a.add (s.reach depth) = b.add (t.reach depth) := by
  simp only [add, reach, mk.injEq] at h ⊢
  omega

theorem add_counts_congr (invocations calls instructions : Nat) :
    a.add ⟨s.invocations + invocations, s.calls + calls, s.instructions + instructions,
        s.maxDepth⟩ =
      b.add ⟨t.invocations + invocations, t.calls + calls, t.instructions + instructions,
        t.maxDepth⟩ := by
  simp only [add, mk.injEq] at h ⊢
  omega

end Stats

/-! ## 5. Steps -/

namespace Machine

open Memory

/-- The same state for every step: what differs is the leftover bytes, and what was counted
before. -/
structure Shadows (a b : Stats) (s s' : State) : Prop where
  stack : Same s.stack s'.stack
  calls : s.calls = s'.calls
  stats : a.add s.stats = b.add s'.stats

/-- The same transition, but for leftover bytes and for what was counted before. -/
inductive Transition.Shadows {H : Type} (a b : Stats) : Transition H → Transition H → Prop
  | next {s s' : State} (h : Machine.Shadows a b s s') : Shadows a b (.next s) (.next s')
  | returned {bs : Bytes} {t t' : Stats} (h : a.add t = b.add t') :
      Shadows a b (.returned bs t) (.returned bs t')
  | halted {e : Halt} {t t' : Stats} (h : a.add t = b.add t') :
      Shadows a b (.halted e t) (.halted e t')
  | host {run : H} {args : List Int32} {target : Reg} {s s' : State} (h : Machine.Shadows a b s s') :
      Shadows a b (.host run args target s) (.host run args target s')

namespace Transition.Shadows

variable {H : Type} {a b : Stats} {x : Transition H}

theorem exists_next {s : State} (h : Shadows a b (.next s) x) :
    ∃ s', x = .next s' ∧ Machine.Shadows a b s s' := by
  cases h with
  | next h => exact ⟨_, rfl, h⟩

theorem exists_returned {bs : Bytes} {t : Stats} (h : Shadows a b (.returned bs t) x) :
    ∃ t', x = .returned bs t' ∧ a.add t = b.add t' := by
  cases h with
  | returned h => exact ⟨_, rfl, h⟩

theorem exists_halted {e : Halt} {t : Stats} (h : Shadows a b (.halted e t) x) :
    ∃ t', x = .halted e t' ∧ a.add t = b.add t' := by
  cases h with
  | halted h => exact ⟨_, rfl, h⟩

theorem exists_host {run : H} {args : List Int32} {target : Reg} {s : State}
    (h : Shadows a b (.host run args target s) x) :
    ∃ s', x = .host run args target s' ∧ Machine.Shadows a b s s' := by
  cases h with
  | host h => exact ⟨_, rfl, h⟩

end Transition.Shadows

section Steps

variable {H : Type} {a b : Stats} {m n : Memory} {calls : CallStack} {t t' : Stats}

theorem shadows_andAdvance {x y : Exec Memory} (hxy : Alike Same x y) (ht : a.add t = b.add t') :
    Transition.Shadows (H := H) a b (andAdvance calls t x) (andAdvance calls t' y) := by
  cases hxy with
  | error e => exact .halted ht
  | ok hsame => exact .next ⟨hsame, rfl, ht⟩

variable (h : Same m n) (ht : a.add t = b.add t')
include h ht

theorem shadows_execCall (env : Env H) (target : Reg) (callee : FuncId) (args : List Reg) :
    Transition.Shadows a b (execCall env m calls t target callee args)
      (execCall env n calls t' target callee args) := by
  unfold execCall
  rw [readInts_eq h]
  split
  · split
    · exact .halted ht
    · split
      · exact .halted ht
      · split
        · exact .halted ht
        · exact .host ⟨h, rfl, ht⟩
  · have hcall := alike_enterCall h env calls target callee args
    generalize enterCall env m calls target callee args = x at hcall
    generalize enterCall env n calls target callee args = y at hcall
    cases hcall with
    | error e => exact .halted ht
    | @ok x y hxy =>
      obtain ⟨m₁, calls₁⟩ := x
      obtain ⟨n₁, calls₂⟩ := y
      obtain ⟨hsame, hcalls⟩ := hxy
      cases hcalls
      exact .next ⟨hsame, rfl, Stats.add_reach_congr ht _⟩

theorem shadows_execReturn (value : Reg) :
    Transition.Shadows (H := H) a b (execReturn m calls t value)
      (execReturn n calls t' value) := by
  unfold execReturn
  rw [returned_eq h]
  split
  · exact .halted ht
  · dsimp only
    split
    · rw [h.area_eq]
      split
      · exact .halted ht
      · exact .returned ht
    · rename_i src _ _ caller offset _
      have hcopy := alike_copyWithin h src.start src.stop offset
      generalize m.copyWithin src.start src.stop offset = x at hcopy
      generalize n.copyWithin src.start src.stop offset = y at hcopy
      cases hcopy with
      | error v => exact .halted ht
      | ok hsame => exact .next ⟨hsame.cut _, rfl, ht⟩

theorem shadows_execute (env : Env H) (op : Operation) :
    Transition.Shadows a b (execute env m calls t op) (execute env n calls t' op) := by
  unfold execute
  cases op with
  | readArg target index => exact shadows_andAdvance (alike_execReadArg h ..) ht
  | literal target value => exact shadows_andAdvance (alike_writeInt h ..) ht
  | unary target op operand => exact shadows_andAdvance (alike_execUnary h ..) ht
  | binary target op lhs rhs => exact shadows_andAdvance (alike_execBinary h ..) ht
  | stackAlloc target slot => exact shadows_andAdvance (alike_execStackAlloc h ..) ht
  | load target pointer => exact shadows_andAdvance (alike_execLoad h ..) ht
  | store pointer source => exact shadows_andAdvance (alike_execStore h ..) ht
  | call target callee args => exact shadows_execCall h (Stats.add_counts_congr ht 0 1 0) ..
  | branch target => exact .next ⟨h, rfl, ht⟩
  | condBranch test thenBlock elseBlock =>
    dsimp only
    rw [readInt_eq h]
    split
    · exact .halted ht
    · exact .next ⟨h, rfl, ht⟩
  | ret value => exact shadows_execReturn h ht value

end Steps

namespace Shadows

variable {H : Type} {a b : Stats} {s s' : State} (h : Shadows a b s s')
include h

/-- Both states take the same step. -/
theorem step (env : Env H) : Transition.Shadows a b (step env s) (Machine.step env s') := by
  obtain ⟨m, calls, t⟩ := s
  obtain ⟨n, calls', t'⟩ := s'
  obtain ⟨hstack, hcalls, ht⟩ := h
  cases hcalls
  unfold Machine.step
  dsimp only
  split
  · exact .halted ht
  · exact shadows_execute hstack (Stats.add_counts_congr ht 0 0 1) ..

/-- Both states take the same answer. -/
theorem answer (target : Reg) (v : Int32) :
    Alike (Shadows a b) (s.answer target v) (s'.answer target v) := by
  obtain ⟨m, calls, t⟩ := s
  obtain ⟨n, calls', t'⟩ := s'
  obtain ⟨hstack, hcalls, ht⟩ := h
  cases hcalls
  exact (alike_writeInt hstack ..).bind fun _ _ hsame => .ok ⟨hsame, rfl, ht⟩

end Shadows

/-- Invocations on the same storage start in the same state. -/
theorem alike_enterOn {a b t t' : Stats} (ht : a.add t = b.add t') {storage storage' : Storage}
    (hstack : Same storage.stack storage'.stack) (hlive : storage.live = storage'.live)
    (p : Program) (f : FuncId) (args : List Bytes) (returnSize : Nat) :
    Alike (Shadows a b) (enterOn storage p f args returnSize t)
      (enterOn storage' p f args returnSize t') := by
  unfold enterOn
  refine .bind_left fun c => ?_
  dsimp only
  split
  · exact .error _
  · split
    · exact .error _
    · obtain ⟨base, m, n, hm, hn, h⟩ :=
        same_reserve hstack c.args.size.toNat c.args.align.toNat
      rw [hm, hn]
      refine (alike_placeArgs h ..).bind fun m₁ n₁ h₁ => ?_
      obtain ⟨top, m₂, n₂, hm, hn, h₂⟩ := same_startFrame h₁ c base
      rw [hm, hn, hlive]
      exact .ok ⟨h₂, rfl, Stats.add_reach_congr ht _⟩

end Machine

end RegIR
