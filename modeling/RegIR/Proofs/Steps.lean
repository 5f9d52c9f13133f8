import RegIR.Proofs.Accesses
import RegIR.Proofs.Typing
/-!
# What a step does

A step that goes on changes one register or slot, jumps, calls or returns.  The relations here say
for each operation what becomes of the stack and of the activations, and no later proof opens the
definition of a step to find out.
-/

namespace RegIR

/-- The operation leaves a computed integer in its target. -/
inductive Operation.IntTo (p : Program) : Operation → Reg → Prop
  | literal (target : Reg) (v : Int32) : IntTo p (.literal target v) target
  | unary (target : Reg) (op : UnaryOp) (x : Reg) : IntTo p (.unary target op x) target
  | binary (target : Reg) (op : BinaryOp) (l r : Reg) : IntTo p (.binary target op l r) target
  | host {callee : FuncId} {e : External} {l : Layout} (target : Reg) (args : List Reg)
      (he : p.linked? callee = some (.external e l)) (hint : e.signature.allInt = true) :
      IntTo p (.call target callee args) target

theorem Operation.IntTo.isTerminator_eq_false {p : Program} {op : Operation} {target : Reg}
    (h : op.IntTo p target) : op.isTerminator = false := by
  cases h <;> rfl

namespace Machine

open Memory

/-! ## 1. Steps as relations -/

/-- What an operation that stays in its activation does to the stack. -/
inductive Alters (p : Program) (calls : CallStack) (m : Memory) : Operation → Memory → Prop
  | readArg {target : Reg} {index : Nat} {src dst : Extent} {n : Memory}
      (hsrc : calls.top.code.args.extent? index = some src)
      (hdst : calls.top.code.frame.regExtent? target = some dst) (hsize : dst.size = src.size)
      (hcopy : Copied m n (calls.top.argsBase + src.start) (calls.top.frameBase + dst.start)
        src.size) :
      Alters p calls m (.readArg target index) n
  | int {op : Operation} {target : Reg} {dst : Extent} {w : UInt32} {n : Memory}
      (hop : op.IntTo p target) (hdst : calls.top.code.frame.regExtent? target = some dst)
      (hout : AgreeOutside m n (calls.top.frameBase + dst.start) 4)
      (hword : n.word32? (calls.top.frameBase + dst.start) = some w) : Alters p calls m op n
  | stackAlloc {target : Reg} {slot : SlotId} {src dst : Extent} {n : Memory}
      (hsrc : calls.top.code.frame.slotExtent? slot = some src)
      (hdst : calls.top.code.frame.regExtent? target = some dst)
      (hout : AgreeOutside m n (calls.top.frameBase + dst.start) 8)
      (hword : n.word64? (calls.top.frameBase + dst.start) =
        some (addressOf (calls.top.frameBase + src.start))) :
      Alters p calls m (.stackAlloc target slot) n
  | load {target pointer : Reg} {t : Ty} {address : UInt64} {place : Place} {dst : Extent}
      {n : Memory} (ht : calls.top.code.definition.regType? target = some t)
      (haddress : calls.top.readPointer m pointer = .ok address)
      (hplace : calls.resolve address t = .ok place)
      (hdst : calls.top.code.frame.regExtent? target = some dst)
      (hcopy : Copied m n place.offset (calls.top.frameBase + dst.start) t.size.toNat) :
      Alters p calls m (.load target pointer) n
  | store {pointer source : Reg} {t : Ty} {address : UInt64} {place : Place} {src : Extent}
      {n : Memory} (ht : calls.top.code.definition.regType? source = some t)
      (haddress : calls.top.readPointer m pointer = .ok address)
      (hplace : calls.resolve address t = .ok place)
      (hcheck : checkStore calls m t source place.depth = .ok ())
      (hexec : execStore calls m pointer source = .ok n)
      (hsrc : calls.top.code.frame.regExtent? source = some src)
      (hcopy : Copied m n (calls.top.frameBase + src.start) place.offset src.size) :
      Alters p calls m (.store pointer source) n

/-- What a step that goes on does. -/
inductive Next (p : Program) : State → State → Prop
  | data {m n : Memory} {calls : CallStack} {stats stats' : Stats} {op : Operation}
      (hop : calls.top.operation? = some op) (h : Alters p calls m op n) :
      Next p ⟨m, calls, stats⟩ ⟨n, calls.advance, stats'⟩
  | jump {m : Memory} {calls : CallStack} {stats stats' : Stats} {op : Operation} {b : BlockId}
      (hop : calls.top.operation? = some op) (hb : b ∈ op.successors) :
      Next p ⟨m, calls, stats⟩ ⟨m, calls.jump b, stats'⟩
  | call {m n : Memory} {calls : CallStack} {stats stats' : Stats} {target : Reg}
      {callee : FuncId} {args : List Reg} {c : Code} {a : Activation} {e : Extent}
      (hop : calls.top.operation? = some (.call target callee args))
      (hc : p.linked? callee = some (.code c))
      (hlen : args.length = c.definition.signature.args.length)
      (he : calls.top.code.frame.regExtent? target = some e) (hentered : Entered c a m n)
      (hpassed : Passed calls.top c a.argsBase 0 args m n) :
      Next p ⟨m, calls, stats⟩
        ⟨n, ⟨a, calls.below.push ⟨calls.top.advance, calls.top.frameBase + e.start⟩⟩, stats'⟩
  | ret {m n : Memory} {calls : CallStack} {stats stats' : Stats} {value : Reg} {src : Extent}
      {caller : Activation} {offset : Nat} (hop : calls.top.operation? = some (.ret value))
      (hsrc : calls.top.code.frame.regExtent? value = some src)
      (hcheck : checkReturn calls.top m value = .ok ())
      (hback : calls.below.back? = some ⟨caller, offset⟩)
      (hcopy : Copied m n (calls.top.frameBase + src.start) offset src.size) :
      Next p ⟨m, calls, stats⟩ ⟨n.cut calls.top.argsBase, ⟨caller, calls.below.pop⟩, stats'⟩

namespace Alters

variable {p : Program} {calls : CallStack} {m n : Memory} {op : Operation}

theorem isTerminator_eq_false (h : Alters p calls m op n) : op.isTerminator = false := by
  cases h with
  | int hop => exact hop.isTerminator_eq_false
  | _ => rfl

theorem size (h : Alters p calls m op n) : n.size = m.size := by
  cases h with
  | readArg _ _ _ hcopy => exact hcopy.outside.size
  | int _ _ hout => exact hout.size
  | stackAlloc _ _ hout => exact hout.size
  | load _ _ _ _ hcopy => exact hcopy.outside.size
  | store _ _ _ _ _ _ hcopy => exact hcopy.outside.size

end Alters

/-! ## 2. Steps do what the relations say -/

section Inversion

variable {p : Program} {calls : CallStack} {m n : Memory}

theorem alters_of_execReadArg {target : Reg} {index : Nat}
    (h : execReadArg calls.top m target index = .ok n) :
    Alters p calls m (.readArg target index) n := by
  unfold execReadArg at h
  split at h
  · cases h
  · rename_i src hsrc
    obtain ⟨dst', hdst', h⟩ := Except.bind_eq_ok.mp h
    obtain ⟨dst, hdst, rfl⟩ := extent_eq_ok hdst'
    split at h
    · cases h
    · rename_i hsize
      rw [moved_eq_ok, Extent.stop, ← Nat.add_assoc] at h
      exact .readArg hsrc hdst (Decidable.not_not.mp hsize) (copied_of_copyWithin h)

theorem alters_of_writeInt {op : Operation} {target : Reg} {v : Int32} (hop : op.IntTo p target)
    (h : calls.top.writeInt m target v = .ok n) : Alters p calls m op n := by
  obtain ⟨e, he, hout, hword⟩ := Activation.writeInt_eq_ok h
  exact .int hop he hout hword

theorem alters_of_execUnary {target x : Reg} {op : UnaryOp}
    (h : execUnary calls.top m target op x = .ok n) :
    Alters p calls m (.unary target op x) n := by
  unfold execUnary at h
  obtain ⟨v, -, h⟩ := Except.bind_eq_ok.mp h
  exact alters_of_writeInt (.unary target op x) h

theorem alters_of_execBinary {target l r : Reg} {op : BinaryOp}
    (h : execBinary calls.top m target op l r = .ok n) :
    Alters p calls m (.binary target op l r) n := by
  unfold execBinary at h
  obtain ⟨x, -, h⟩ := Except.bind_eq_ok.mp h
  obtain ⟨y, -, h⟩ := Except.bind_eq_ok.mp h
  split at h
  · cases h
  · exact alters_of_writeInt (.binary target op l r) h

theorem alters_of_execStackAlloc {target : Reg} {slot : SlotId}
    (h : execStackAlloc calls.top m target slot = .ok n) :
    Alters p calls m (.stackAlloc target slot) n := by
  unfold execStackAlloc at h
  split at h
  · cases h
  · rename_i src hsrc
    obtain ⟨dst', hdst', h⟩ := Except.bind_eq_ok.mp h
    obtain ⟨dst, hdst, rfl⟩ := extent_eq_ok hdst'
    rw [moved_eq_ok] at h
    have hout := agreeOutside_of_replace h
    rw [Bytes.size_ofWord64] at hout
    exact .stackAlloc hsrc hdst hout (word64?_replaced h)

theorem alters_of_execLoad {target pointer : Reg} (h : execLoad calls m target pointer = .ok n) :
    Alters p calls m (.load target pointer) n := by
  unfold execLoad at h
  obtain ⟨t, ht, h⟩ := Except.bind_eq_ok.mp h
  obtain ⟨address, haddress, h⟩ := Except.bind_eq_ok.mp h
  obtain ⟨place, hplace, h⟩ := Except.bind_eq_ok.mp h
  obtain ⟨dst', hdst', h⟩ := Except.bind_eq_ok.mp h
  obtain ⟨dst, hdst, rfl⟩ := extent_eq_ok hdst'
  rw [Activation.typeOf_eq_ok] at ht
  rw [moved_eq_ok] at h
  exact .load ht haddress hplace hdst (copied_of_copyWithin h)

theorem alters_of_execStore {pointer source : Reg} (h : execStore calls m pointer source = .ok n) :
    Alters p calls m (.store pointer source) n := by
  have hexec := h
  unfold execStore at h
  obtain ⟨t, ht, h⟩ := Except.bind_eq_ok.mp h
  obtain ⟨address, haddress, h⟩ := Except.bind_eq_ok.mp h
  obtain ⟨place, hplace, h⟩ := Except.bind_eq_ok.mp h
  obtain ⟨⟨⟩, hcheck, h⟩ := Except.bind_eq_ok.mp h
  obtain ⟨src', hsrc', h⟩ := Except.bind_eq_ok.mp h
  obtain ⟨src, hsrc, rfl⟩ := extent_eq_ok hsrc'
  rw [Activation.typeOf_eq_ok] at ht
  rw [moved_eq_ok] at h
  exact .store ht haddress hplace hcheck hexec hsrc (copied_of_copyWithin h)

end Inversion

/-- One step leads from a state to another, or a host function answers and its result is stored. -/
def Advances {H : Type} (env : Env H) (s t : State) : Prop :=
  step env s = .next t ∨
    ∃ run args target u v, step env s = .host run args target u ∧ u.answer target v = .ok t

theorem step_of_operation? {H : Type} {env : Env H} {m : Memory} {calls : CallStack}
    {stats : Stats} {op : Operation} (hop : calls.top.operation? = some op) :
    step env ⟨m, calls, stats⟩ =
      execute env m calls { stats with instructions := stats.instructions + 1 } op := by
  simp only [step, hop]

section Step

variable {H : Type} {env : Env H} {m : Memory} {calls : CallStack} {stats stats' : Stats}
  {op : Operation} {t : State}

theorem next_of_andAdvance (hop : calls.top.operation? = some op) {x : Exec Memory}
    (hx : ∀ n, x = .ok n → Alters env.program calls m op n)
    (h : andAdvance (H := H) calls stats' x = .next t) :
    Next env.program ⟨m, calls, stats⟩ t := by
  cases x with
  | error e => cases h
  | ok n =>
    cases h
    exact .data hop (hx n rfl)

theorem next_of_execReturn {value : Reg} (hop : calls.top.operation? = some (.ret value))
    (h : execReturn (H := H) m calls stats' value = .next t) :
    Next env.program ⟨m, calls, stats⟩ t := by
  unfold execReturn at h
  cases hret : returned calls.top m value with
  | error e => rw [hret] at h; cases h
  | ok src' =>
    rw [hret] at h
    unfold returned at hret
    obtain ⟨src', hsrc', hret⟩ := Except.bind_eq_ok.mp hret
    obtain ⟨⟨⟩, hcheck, hret⟩ := Except.bind_eq_ok.mp hret
    cases hret
    obtain ⟨src, hsrc, rfl⟩ := extent_eq_ok hsrc'
    obtain ⟨a, below⟩ := calls
    dsimp only at h
    split at h
    · split at h <;> cases h
    · rename_i caller offset hback
      split at h
      · cases h
      · rename_i n hcopy
        cases h
        exact .ret hop hsrc hcheck hback (copied_of_copyWithin hcopy)

end Step

/-- What a step does in a state whose running activation lies on the stack. -/
theorem next_of_advances {H : Type} {env : Env H} {s t : State}
    (hp : env.program.Laid)
    (htop : s.calls.top.Framed s.stack) (h : Advances env s t) : Next env.program s t := by
  obtain ⟨m, calls, stats⟩ := s
  -- Where the operation halts or returns to the outside, there is no next state.
  cases hop : calls.top.operation? with
  | none =>
    rcases h with h | ⟨_, _, _, _, _, h, -⟩ <;> simp only [step, hop] at h <;> cases h
  | some op =>
    rw [Advances, step_of_operation? hop] at h
    cases op with
    | call target callee args =>
      simp only [execute, execCall] at h
      split at h
      · rename_i e l he
        split at h
        · rcases h with h | ⟨_, _, _, _, _, h, -⟩ <;> cases h
        · split at h
          · rcases h with h | ⟨_, _, _, _, _, h, -⟩ <;> cases h
          · rename_i hint
            split at h
            · rcases h with h | ⟨_, _, _, _, _, h, -⟩ <;> cases h
            · -- The answer of the host is written behind the call.
              rcases h with h | ⟨_, _, _, _, v, h, hans⟩
              · cases h
              · cases h
                obtain ⟨n, hn, hans⟩ := Except.bind_eq_ok.mp hans
                cases hans
                exact .data hop (alters_of_writeInt (.host target args he (by simpa using hint)) hn)
      · split at h
        · rcases h with h | ⟨_, _, _, _, _, h, -⟩ <;> cases h
        · rename_i n calls' henter
          rcases h with h | ⟨_, _, _, _, _, h, -⟩
          · cases h
            obtain ⟨c, a, e, hc, hlen, he, rfl, hentered, hpassed⟩ :=
              entered_of_enterCall hp (fun r e he => htop.reg_within he) henter
            exact .call hop hc hlen he hentered hpassed
          · cases h
    | branch b =>
      rcases h with h | ⟨_, _, _, _, _, h, -⟩
      · cases h
        exact .jump hop List.mem_cons_self
      · cases h
    | condBranch test b c =>
      simp only [execute] at h
      split at h
      · rcases h with h | ⟨_, _, _, _, _, h, -⟩ <;> cases h
      · rcases h with h | ⟨_, _, _, _, _, h, -⟩
        · cases h
          refine .jump hop ?_
          split <;> simp [Operation.successors]
        · cases h
    | ret value =>
      simp only [execute] at h
      rcases h with h | ⟨_, _, _, _, _, h, -⟩
      · exact next_of_execReturn hop h
      · unfold execReturn at h
        repeat' split at h
        all_goals cases h
    | _ =>
      simp only [execute] at h
      rcases h with h | ⟨_, _, _, _, _, h, -⟩
      · refine next_of_andAdvance hop ?_ h
        intro n hn
        first
          | exact alters_of_execReadArg hn
          | exact alters_of_writeInt (.literal _ _) hn
          | exact alters_of_execUnary hn
          | exact alters_of_execBinary hn
          | exact alters_of_execStackAlloc hn
          | exact alters_of_execLoad hn
          | exact alters_of_execStore hn
      · unfold andAdvance at h
        split at h <;> cases h

end Machine

end RegIR
