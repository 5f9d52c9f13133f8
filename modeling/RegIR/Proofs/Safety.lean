import RegIR.Interpreter
import RegIR.Proofs.Availability
import RegIR.Proofs.Resolution
/-!
# Safety of built programs

The checks of construction, the accepted control flow and the layouts discharge every static error
of the machine.  What remains are the faults that depend on values: division by zero, misuse of an
address, too deep a call, an unbound symbol.
-/

namespace RegIR

/-- The faults that depend on the values of a run. -/
def Fault.Dynamic : Fault → Prop
  | .divisionByZero _ | .callDepthExceeded _ | .invalidPointer .. | .danglingPointer _
  | .pointerEscape _ | .accessTypeMismatch .. | .unboundExternal _ => True
  | .notDefined _ | .argumentCount .. | .argumentSize .. | .returnSlotSize ..
  | .registerOutOfRange .. | .missingTerminator .. | .unsupportedExternalSignature _
  | .hostPanic _ => False

namespace Machine

open Memory

/-- Only a dynamic fault ends the invocation. -/
def Halt.Dynamic : Halt → Prop
  | .fault f => f.Dynamic
  | .violation _ => False

/-- The computation answers with a result that satisfies `P` or with a dynamic fault. -/
def Meets {α : Type} (x : Exec α) (P : α → Prop) : Prop :=
  match x with
  | .ok a => P a
  | .error h => h.Dynamic

theorem Meets.of_eq {α : Type} {x : Exec α} {a : α} {P : α → Prop} (h : x = .ok a) (ha : P a) :
    Meets x P := by
  rw [h]
  exact ha

theorem Meets.bind {α β : Type} {x : Exec α} {f : α → Exec β} {P : α → Prop} {Q : β → Prop}
    (hx : Meets x P) (hf : ∀ a, P a → Meets (f a) Q) : Meets (x >>= f) Q := by
  cases x with
  | error h => exact hx
  | ok a => exact hf a hx

/-- A computation whose first part has a result goes on with it. -/
theorem Meets.bind_eq {α β : Type} {x : Exec α} {f : α → Exec β} {a : α} {Q : β → Prop}
    (hx : x = .ok a) (hf : Meets (f a) Q) : Meets (x >>= f) Q := by
  rw [hx]
  exact hf

theorem moved_ok {x : Except MemoryViolation Memory} (h : ∃ n, x = .ok n) :
    Meets (moved x) fun _ => True := by
  obtain ⟨n, rfl⟩ := h
  trivial

/-! ## 1. Operations on data -/

section Data

variable {p : Program} {m : Memory} {a : Activation} (ha : a.Framed m)
include ha

theorem meets_writeInt {target : Reg} (h : a.code.definition.regType? target = some .int)
    (v : Int32) : Meets (a.writeInt m target v) fun _ => True := by
  obtain ⟨n, hn⟩ := ha.writeInt h v
  exact .of_eq hn trivial

theorem execReadArg_ok {target : Reg} {index : Nat}
    (hargs : a.argsBase + a.code.args.size.toNat ≤ a.frameBase)
    (h : (Operation.readArg target index).WellTyped p.sig? a.code.definition) :
    ∃ n, execReadArg a m target index = .ok n := by
  obtain ⟨t, harg, ht⟩ := h
  obtain ⟨src, hsrc, hsize, hwithin⟩ := ha.laid.args.exists_extent harg
  obtain ⟨dst, hdst, hext, hfits⟩ := ha.extent ht
  have hframe := ha.reg_within hdst
  rw [Extent.stop] at hwithin hframe
  obtain ⟨n, hcopy⟩ : ∃ n, m.copyWithin (a.argsBase + src.start) (a.argsBase + src.stop)
      (a.frameBase + dst.start) = .ok n := by
    apply copyWithin_ok <;> rw [Extent.stop] <;> omega
  refine ⟨n, ?_⟩
  unfold execReadArg
  rw [Layout.extent?, hsrc]
  refine Except.bind_eq_ok.mpr ⟨_, hext, ?_⟩
  rw [if_neg (by simpa using hsize.symm), moved_eq_ok]
  exact hcopy

theorem meets_execStackAlloc {target : Reg} {slot : SlotId}
    (h : (Operation.stackAlloc target slot).WellTyped p.sig? a.code.definition) :
    Meets (execStackAlloc a m target slot) fun _ => True := by
  obtain ⟨htarget, t, ht⟩ := h
  obtain ⟨src, hsrc, -⟩ := ha.laid.exists_slotExtent ht
  obtain ⟨dst, -, hext, hfits⟩ := ha.extent htarget
  unfold execStackAlloc
  rw [hsrc]
  exact .bind_eq hext (moved_ok (replace_ok hfits))

variable (hone : p.OneRegistry) {f : FuncId} (hf : p.linked? f = some (.code a.code))
include hone hf

theorem meets_execUnary {target x : Reg} {op : UnaryOp}
    (h : (Operation.unary target op x).WellTyped p.sig? a.code.definition) :
    Meets (execUnary a m target op x) fun _ => True := by
  obtain ⟨v, hv⟩ := ha.readInt (hone.int_reg hf h.2)
  exact .bind_eq hv (meets_writeInt ha h.1 _)

theorem meets_execBinary {target l r : Reg} {op : BinaryOp}
    (h : (Operation.binary target op l r).WellTyped p.sig? a.code.definition) :
    Meets (execBinary a m target op l r) fun _ => True := by
  obtain ⟨x, hx⟩ := ha.readInt (hone.int_reg hf h.2.1)
  obtain ⟨y, hy⟩ := ha.readInt (hone.int_reg hf h.2.2)
  refine .bind_eq hx (.bind_eq hy ?_)
  cases op.eval? x y with
  | none => trivial
  | some v => exact meets_writeInt ha h.1 v

end Data

/-! ## 2. Accesses through addresses -/

section Accesses

variable {p : Program} (hone : p.OneRegistry) {s : State} (hlaid : p.Laid) (hs : Stacked p s)

include hone hlaid hs

/-- A resolved slot has the size of the type that it was asked for. -/
theorem fits_of_resolves {address : UInt64} {t : Ty} (ht : p.Mentions t) {place : Place}
    (h : s.calls.Resolves address t place) : place.offset + t.size.toNat ≤ s.stack.size := by
  obtain ⟨hlive, -, hslot, hkind, hoffset⟩ := h
  rename_i owner u slot e
  obtain ⟨f, hf⟩ := hs.linked _ _ hlive
  have heq := hone.eq_of_kind (Program.mentions_slot hf hslot.type) ht hkind
  subst heq
  have hsize := (hlaid f _ hf).size_of_slot hslot.type hslot.extent
  have hwithin := (hlaid f _ hf).slot_within hslot.extent
  have hframe := hs.within _ _ hlive
  rw [Extent.stop] at hwithin
  rw [Activation.frameEnd] at hframe
  omega

theorem meets_resolve {address : UInt64} {t : Ty} (ht : p.Mentions t) :
    Meets (s.calls.resolve address t) fun place => place.offset + t.size.toNat ≤ s.stack.size := by
  -- A refused address is a dynamic fault, whichever it is.
  cases hr : s.calls.resolve address t with
  | ok place => exact fits_of_resolves hone hlaid hs ht (CallStack.resolves_of_resolve hr)
  | error h =>
    rcases CallStack.error_of_resolve hr with rfl | ⟨expected, rfl⟩
    · trivial
    · trivial

theorem meets_execLoad {f : FuncId} (hf : p.linked? f = some (.code s.calls.top.code))
    {target pointer : Reg}
    (h : (Operation.load target pointer).WellTyped p.sig? s.calls.top.code.definition) :
    Meets (execLoad s.calls s.stack target pointer) fun _ => True := by
  obtain ⟨⟨t, ht⟩, hpointer⟩ := h
  have htop := hs.top_framed hlaid
  obtain ⟨address, haddress⟩ := htop.readPointer (hone.pointer_reg hf hpointer)
  obtain ⟨dst, -, hext, hfits⟩ := htop.extent ht
  refine .bind_eq (Activation.typeOf_eq_ok.mpr ht) (.bind_eq haddress ?_)
  refine (meets_resolve hone hlaid hs (Program.mentions_reg hf ht)).bind ?_
  intro place hplace
  refine .bind_eq hext (moved_ok (copyWithin_ok hplace ?_))
  dsimp only
  omega

theorem meets_checkStore {f : FuncId} (hf : p.linked? f = some (.code s.calls.top.code)) {t : Ty}
    {source : Reg} (ht : s.calls.top.code.definition.regType? source = some t) (depth : Nat) :
    Meets (checkStore s.calls s.stack t source depth) fun _ => True := by
  unfold checkStore
  split
  · rename_i hpointer
    have hkind := Ty.isPointer_iff.mp hpointer
    obtain ⟨w, hw⟩ := (hs.top_framed hlaid).readPointer (hone.pointer_reg hf ⟨t, ht, hkind⟩)
    refine .bind_eq hw ?_
    split <;> trivial
  · trivial

theorem meets_execStore {f : FuncId} (hf : p.linked? f = some (.code s.calls.top.code))
    {pointer source : Reg}
    (h : (Operation.store pointer source).WellTyped p.sig? s.calls.top.code.definition) :
    Meets (execStore s.calls s.stack pointer source) fun _ => True := by
  obtain ⟨hpointer, t, ht⟩ := h
  have htop := hs.top_framed hlaid
  obtain ⟨address, haddress⟩ := htop.readPointer (hone.pointer_reg hf hpointer)
  obtain ⟨src, -, hext, hfits⟩ := htop.extent ht
  refine .bind_eq (Activation.typeOf_eq_ok.mpr ht) (.bind_eq haddress ?_)
  refine (meets_resolve hone hlaid hs (Program.mentions_reg hf ht)).bind ?_
  intro place hplace
  refine (meets_checkStore hone hlaid hs hf ht place.depth).bind ?_
  intro _ _
  refine .bind_eq hext (moved_ok (copyWithin_ok ?_ ?_))
  · rw [Extent.stop]
    exact hfits
  · rw [Extent.stop]
    dsimp only
    omega

end Accesses

/-! ## 3. Calls and returns -/

/-- What the step leads to is in order: a result has its size, an answer can be stored, and only
a dynamic fault ends the invocation. -/
def Transition.Safe {H : Type} (returnSize : Nat) : Transition H → Prop
  | .next _ => True
  | .returned v _ => v.size = returnSize
  | .halted h _ => h.Dynamic
  | .host _ _ target u => ∀ v, ∃ w, u.answer target v = .ok w

theorem meets_checkDepth (limit : Option Nat) (depth : Nat) :
    Meets (checkDepth limit depth) fun _ => True := by
  unfold checkDepth
  split
  · trivial
  · split <;> trivial

/-- The register that waits for a result lies on the stack and has its size. -/
theorem fits_of_back? {p : Program} (hsound : p.Sound) {s : State} (hs : Stacked p s)
    {u : Suspended} (hback : s.calls.below.back? = some u) :
    u.returnTo + s.calls.top.code.definition.signature.ret.size.toNat ≤ s.stack.size := by
  obtain ⟨hpos, hlast⟩ := CallStack.getElem?_of_back? hback
  have hnext : s.calls.activation? (s.calls.below.size - 1 + 1) = some s.calls.top := by
    rw [Nat.sub_add_cancel hpos]
    exact s.calls.activation?_top
  have hlive := CallStack.activation?_below hlast
  obtain ⟨g, hg⟩ := hs.linked _ _ hlive
  obtain ⟨hpos', hop, hc, he, hto⟩ := hs.waits _ u _ hlast hnext
  obtain ⟨sig, hsig, htarget, -⟩ := hsound.wellTyped g _ hg _ _ _ hop
  have heq := Program.sig?_of_linked? hc
  rw [hsig] at heq
  cases heq
  have hframed := hs.framed hsound.laid hlive
  obtain ⟨e', he', hext, hfits⟩ := hframed.extent htarget
  rw [he] at he'
  cases he'
  rw [hto]
  exact hfits

section Calls

variable {p : Program} (hsound : p.Sound) (hone : p.OneRegistry) {s : State} (hs : Stacked p s)
  {f : FuncId} (hf : p.linked? f = some (.code s.calls.top.code))
include hsound hone hs hf

/-- The registers that a call passes have the sizes that the callee declares. -/
theorem sizes_of_call {target : Reg} {callee : FuncId} {args : List Reg} {c : Code}
    (hc : p.linked? callee = some (.code c))
    (h : (Operation.call target callee args).WellTyped p.sig? s.calls.top.code.definition) :
    args.length = c.args.length ∧
      ∀ i r, args[i]? = some r → ∃ src dst, s.calls.top.code.frame.regExtent? r = some src ∧
        c.args.extent? i = some dst ∧ dst.size = src.size := by
  obtain ⟨sig, hsig, -, hargs⟩ := h
  have heq := Program.sig?_of_linked? hc
  rw [hsig] at heq
  cases heq
  have hlaid := hsound.laid callee c hc
  have htop := hs.top_framed hsound.laid
  refine ⟨?_, ?_⟩
  · rw [hargs.length_eq, Layout.length, hlaid.args.length]
  · intro i r hr
    obtain ⟨t, ht, u, hu, hkind⟩ := getElem?_of_forall₂ hargs hr
    have htu := hone.eq_of_kind (Program.mentions_reg hf hu)
      (Program.mentions_arg hsig (List.mem_of_getElem? ht)) hkind
    subst htu
    obtain ⟨src, hsrc, hsize⟩ := htop.laid.exists_regExtent hu
    obtain ⟨dst, hdst, hsize', -⟩ := hlaid.args.exists_extent ht
    exact ⟨src, dst, hsrc, hdst, by rw [hsize, hsize']⟩

theorem enterCall_ok {H : Type} {env : Env H} (henv : env.program = p) {target : Reg}
    {callee : FuncId} {args : List Reg} {c : Code} (hc : p.linked? callee = some (.code c))
    (h : (Operation.call target callee args).WellTyped p.sig? s.calls.top.code.definition)
    (hdepth : checkDepth env.maxCallDepth s.calls.depth = .ok ()) :
    ∃ r, enterCall env s.stack s.calls target callee args = .ok r := by
  obtain ⟨hlen, hsizes⟩ := sizes_of_call hsound hone hs hf hc h
  have htop := hs.top_framed hsound.laid
  obtain ⟨sig, hsig, htarget, -⟩ := h
  obtain ⟨e, -, hext, -⟩ := htop.extent htarget
  obtain ⟨m, ⟨top, below⟩, stats⟩ := s
  subst henv
  dsimp only at hext htop hdepth
  generalize hr : reserve m c.args.size.toNat c.args.align.toNat = r
  obtain ⟨argsBase, m₁⟩ := r
  have hres := reserved_of_reserve hr
  have hsize := hres.size
  have habove := hres.above
  obtain ⟨n, hpass⟩ := passArgs_ok (hsound.laid callee c hc) 0 (m := m₁)
    (Nat.le_of_eq hsize.symm)
    (fun r e he => by
      have := htop.reg_within he
      omega)
    (fun i r hr => by
      rw [Nat.zero_add]
      exact hsizes i r hr)
  unfold enterCall
  simp only [hdepth, codeOf_eq_ok.mpr hc, bind, Except.bind,
    if_neg (show ¬ args.length ≠ c.args.length by simpa using hlen), hr, hpass, hext]
  exact ⟨_, rfl⟩

theorem meets_enterCall {H : Type} {env : Env H} (henv : env.program = p) {target : Reg}
    {callee : FuncId} {args : List Reg} {c : Code} (hc : p.linked? callee = some (.code c))
    (h : (Operation.call target callee args).WellTyped p.sig? s.calls.top.code.definition) :
    Meets (enterCall env s.stack s.calls target callee args) fun _ => True := by
  -- Only the limit on live activations can refuse the call.
  cases hdepth : checkDepth env.maxCallDepth s.calls.depth with
  | error e =>
    have hmeets := meets_checkDepth env.maxCallDepth s.calls.depth
    unfold enterCall
    rw [hdepth] at hmeets ⊢
    exact hmeets
  | ok _ =>
    obtain ⟨r, hr⟩ := enterCall_ok hsound hone hs hf henv hc h hdepth
    exact .of_eq hr trivial

theorem safe_execCall {H : Type} {env : Env H} (henv : env.program = p)
    (hext : ∀ f e l, p.linked? f = some (.external e l) → e.signature.allInt = true)
    {target : Reg} {callee : FuncId} {args : List Reg}
    (h : (Operation.call target callee args).WellTyped p.sig? s.calls.top.code.definition)
    (stats : Stats) (n : Nat) :
    (execCall env s.stack s.calls stats target callee args).Safe n := by
  have htop := hs.top_framed hsound.laid
  obtain ⟨sig, hsig, htarget, hargs⟩ := id h
  obtain ⟨fn, hfn, hsigfn⟩ := Option.map_eq_some_iff.mp hsig
  obtain ⟨l, hl, hlfn⟩ := Option.map_eq_some_iff.mp hfn
  unfold execCall
  rw [henv]
  cases l with
  | external e layout =>
    have hint := hext callee e layout hl
    have hsig' : sig = e.signature := by rw [← hsigfn, ← hlfn]; rfl
    rw [Signature.allInt, Bool.and_eq_true, List.all_eq_true, Ty.isInt_iff] at hint
    have hregs : ∀ r ∈ args, s.calls.top.code.definition.regType? r = some .int := by
      intro r hr
      obtain ⟨i, hi⟩ := List.mem_iff_getElem?.mp hr
      obtain ⟨t, ht, hkind⟩ := getElem?_of_forall₂ hargs hi
      have htint := hint.2 t (hsig' ▸ List.mem_of_getElem? ht)
      rw [Ty.isInt_iff] at htint
      exact hone.int_reg hf (htint ▸ hkind)
    obtain ⟨vs, hvs⟩ := htop.readInts hregs
    simp only [hl, hvs, hext callee e layout hl]
    cases env.host? e.symbol with
    | none => trivial
    | some run =>
      -- The target of the call has the type of the result.
      have hret : s.calls.top.code.definition.regType? target = some .int := by
        rw [htarget, hone.eq_int (Program.mentions_ret hsig) (hsig' ▸ hint.1)]
      intro v
      obtain ⟨w, hw⟩ := htop.writeInt hret v
      refine ⟨⟨w, s.calls.advance, stats⟩, ?_⟩
      exact Except.bind_eq_ok.mpr ⟨w, hw, rfl⟩
  | code c =>
    have hmeets := meets_enterCall hsound hone hs hf henv hl h
    simp only [hl]
    cases hcall : enterCall env s.stack s.calls target callee args with
    | error h =>
      rw [hcall] at hmeets
      exact hmeets
    | ok r => trivial

/-- The result lies on the stack and has the size that the function declares. -/
theorem meets_returned {value : Reg}
    (h : (Operation.ret value).WellTyped p.sig? s.calls.top.code.definition) :
    Meets (returned s.calls.top s.stack value) fun src => src.stop ≤ s.stack.size ∧
      src.size = s.calls.top.code.definition.signature.ret.size.toNat := by
  obtain ⟨t, ht, hkind⟩ := id h
  have htop := hs.top_framed hsound.laid
  have heq := hone.eq_of_kind (Program.mentions_reg hf ht)
    (Program.mentions_ret (Program.sig?_of_linked? hf)) hkind
  obtain ⟨e, -, hext, hfits⟩ := htop.extent ht
  have hcheck : Meets (checkReturn s.calls.top s.stack value) fun _ => True := by
    refine .bind_eq (Activation.typeOf_eq_ok.mpr ht) ?_
    split
    · rename_i hpointer
      obtain ⟨w, hw⟩ := htop.readPointer (hone.pointer_reg hf ⟨t, ht, Ty.isPointer_iff.mp hpointer⟩)
      refine .bind_eq hw ?_
      split
      · trivial
      · split <;> trivial
    · trivial
  refine .bind_eq hext (hcheck.bind ?_)
  intro _ _
  refine ⟨?_, by rw [heq]⟩
  rw [Extent.stop]
  exact hfits

theorem safe_execReturn {H : Type} {value : Reg} {n : Nat}
    (hroot : ∀ a, s.calls.activation? 0 = some a →
      a.code.definition.signature.ret.size.toNat = n)
    (h : (Operation.ret value).WellTyped p.sig? s.calls.top.code.definition) (stats : Stats) :
    (execReturn (H := H) s.stack s.calls stats value).Safe n := by
  have hmeets := meets_returned hsound hone hs hf h
  have hwaits := fun u hu => fits_of_back? hsound hs (u := u) hu
  unfold execReturn
  cases hret : returned s.calls.top s.stack value with
  | error e =>
    rw [hret] at hmeets
    exact hmeets
  | ok src =>
    rw [hret] at hmeets
    obtain ⟨hstop, hsize⟩ := hmeets
    obtain ⟨m, ⟨a, below⟩, stats'⟩ := s
    dsimp only at hstop hsize hwaits ⊢
    rw [Extent.stop] at hstop
    cases hback : below.back? with
    | none =>
      -- Nobody waits, so this is the outermost activation.
      have hempty : below = #[] := by simpa using hback
      subst hempty
      have hbytes : ∃ bs, m.area src.start src.stop = .ok bs := by
        unfold area
        rw [if_pos (by rw [Extent.stop]; exact hstop)]
        exact ⟨_, rfl⟩
      obtain ⟨bs, hbs⟩ := hbytes
      simp only [hbs]
      show bs.size = n
      rw [size_of_area (Nat.le_add_right _ _) hbs, Nat.add_sub_cancel_left, hsize]
      exact hroot a rfl
    | some u =>
      have hfits := hwaits u hback
      obtain ⟨k, hk⟩ : ∃ k, m.copyWithin src.start src.stop u.returnTo = .ok k :=
        copyWithin_ok (by rw [Extent.stop]; exact hstop)
          (by rw [Extent.stop, Nat.add_sub_cancel_left, hsize]; exact hfits)
      simp only [hk]
      trivial

end Calls

/-! ## 4. Steps -/

theorem safe_andAdvance {H : Type} {calls : CallStack} {stats : Stats} {x : Exec Memory} {n : Nat}
    (h : Meets x fun _ => True) : (andAdvance (H := H) calls stats x).Safe n := by
  cases x with
  | error e => exact h
  | ok m => trivial

/-- No step of a disciplined state runs into a static error. -/
theorem safe_step {H : Type} {env : Env H} {s : State} (hsound : env.program.Sound)
    (hone : env.program.OneRegistry)
    (hext : ∀ f e l, env.program.linked? f = some (.external e l) → e.signature.allInt = true)
    (hs : Stacked env.program s) {n : Nat}
    (hroot : ∀ a, s.calls.activation? 0 = some a →
      a.code.definition.signature.ret.size.toNat = n)
    (hop : ∃ op, s.calls.top.operation? = some op) : (step env s).Safe n := by
  obtain ⟨op, hop⟩ := hop
  obtain ⟨f, hf⟩ := hs.linked _ _ s.calls.activation?_top
  have hty := hsound.wellTyped f _ hf _ _ _ (Activation.operation?_eq_some.mp hop)
  have htop := hs.top_framed hsound.laid
  have hargs := hs.args _ _ s.calls.activation?_top
  rw [show s = ⟨s.stack, s.calls, s.stats⟩ from rfl, step_of_operation? hop]
  cases op with
  | readArg target index =>
    obtain ⟨n, hn⟩ := execReadArg_ok htop hargs hty
    exact safe_andAdvance (.of_eq hn trivial)
  | literal target v => exact safe_andAdvance (meets_writeInt htop hty v)
  | unary target op x => exact safe_andAdvance (meets_execUnary htop hone hf hty)
  | binary target op l r => exact safe_andAdvance (meets_execBinary htop hone hf hty)
  | stackAlloc target slot => exact safe_andAdvance (meets_execStackAlloc htop hty)
  | load target pointer => exact safe_andAdvance (meets_execLoad hone hsound.laid hs hf hty)
  | store pointer source => exact safe_andAdvance (meets_execStore hone hsound.laid hs hf hty)
  | call target callee args => exact safe_execCall hsound hone hs hf rfl hext hty _ n
  | branch b => trivial
  | condBranch test b c =>
    obtain ⟨v, hv⟩ := htop.readInt (hone.int_reg hf hty)
    simp only [execute, hv]
    trivial
  | ret value => exact safe_execReturn hsound hone hs hf hroot hty _

/-- The same holds of every state that an invocation reaches. -/
theorem safe_of_reaches {H : Type} {env : Env H} (hsound : env.program.Sound)
    (hone : env.program.OneRegistry)
    (hext : ∀ f e l, env.program.linked? f = some (.external e l) → e.signature.allInt = true)
    {f : FuncId} {args : List Bytes} {returnSize : Nat} {stats : Stats} {s₀ s : State}
    (henter : enter env.program f args returnSize stats = .ok s₀) (h : Reaches env s₀ s) :
    (step env s).Safe returnSize := by
  have hstacked := Stacked.of_enter hsound.laid henter
  obtain ⟨j, hj⟩ := exists_history hsound.laid hstacked h
  obtain ⟨hs, hfits⟩ := (Journal.Fits.of_enter hsound.laid hsound.accepted henter).of_history
    hsound.laid hsound.accepted hstacked hj
  -- The journal says that the cursor stands on an operation.
  exact safe_step hsound hone hext hs (fun a ha => size_ret_of_reaches hsound.laid henter h ha)
    hfits.top.here

/-! ## 5. Runs -/

/-- A result has its size, and only a dynamic fault takes its place. -/
def Ending.Safe (returnSize : Nat) : Ending → Prop
  | .returned v => v.size = returnSize
  | .fault f => f.Dynamic
  | .panic _ => False

theorem Ending.safe_ofHalt {h : Halt} {n : Nat} (hh : h.Dynamic) : (Ending.ofHalt h).Safe n := by
  cases h with
  | fault f => exact hh
  | violation v => exact hh

theorem bound_of_step_host {H : Type} {env : Env H} {s u : State} {run : H} {args : List Int32}
    {target : Reg} (h : step env s = .host run args target u) :
    ∃ symbol, env.host? symbol = some run := by
  obtain ⟨m, calls, stats⟩ := s
  cases hop : calls.top.operation? with
  | none =>
    simp only [step, hop] at h
    cases h
  | some op =>
    rw [step_of_operation? hop] at h
    cases op with
    | call target callee args =>
      simp only [execute, execCall] at h
      split at h
      · split at h
        · cases h
        · split at h
          · cases h
          · split at h
            · cases h
            · cases h
              exact ⟨_, by assumption⟩
      · split at h <;> cases h
    | branch b => cases h
    | condBranch test b c =>
      simp only [execute] at h
      split at h <;> cases h
    | ret value =>
      simp only [execute, execReturn] at h
      repeat' split at h
      all_goals cases h
    | _ =>
      simp only [execute, andAdvance] at h
      split at h <;> cases h

/-- A run through safe steps ends safely when no host function panics. -/
theorem safe_of_run {H σ : Type} {env : Env H}
    {perform : H → List Int32 → σ → Option (Answer × σ)} {n : Nat}
    (hcalm : ∀ symbol body args w pn w', env.host? symbol = some body →
      perform body args w ≠ some (.panic pn, w'))
    {fuel : Nat} {s : State} (hsafe : ∀ t, Reaches env s t → (step env t).Safe n) {w w' : σ}
    {ending : Ending} {stats : Stats}
    (h : run env perform fuel s w = some (ending, stats, w')) : ending.Safe n := by
  -- The induction is on the number of steps; the state after one is reachable again.
  induction fuel generalizing s w with
  | zero => cases h
  | succ fuel ih =>
    have hstep := hsafe s .refl
    have hnext : ∀ {t}, Advances env s t → ∀ u, Reaches env t u → (step env u).Safe n :=
      fun ht u hu => hsafe u (.head ht hu)
    rw [run] at h
    split at h
    · rename_i t hst
      exact ih (hnext (Or.inl hst)) h
    · rename_i v stats' hst
      rw [hst] at hstep
      cases h
      exact hstep
    · rename_i e stats' hst
      rw [hst] at hstep
      cases h
      exact Ending.safe_ofHalt hstep
    · rename_i body args target u hst
      rw [hst] at hstep
      split at h
      · cases h
      · rename_i pn w₁ hperform
        obtain ⟨symbol, hsymbol⟩ := bound_of_step_host hst
        exact absurd hperform (hcalm symbol body args w pn w₁ hsymbol)
      · rename_i v w₁ hperform
        obtain ⟨t, ht⟩ := hstep v
        rw [ht] at h
        exact ih (hnext (Or.inr ⟨body, args, target, u, v, hst, ht⟩)) h

end Machine

/-- No host function of the table panics, whatever fault its native calls may find. -/
def HostTable.Calm (t : HostTable) : Prop :=
  ∀ symbol body args fuel slot pn slot', t.get? symbol = some body →
    (body args).perform (NativeEntry.call fuel) slot ≠ some (.panic pn, slot')

/-- An invocation of a built program whose external functions take and return integers meets no
static error.  No step of it moves bytes out of bounds or between areas of different sizes, every
answer of a host finds its register, and every result fills the buffer. -/
theorem invocation_safe {m : Module} (hbuilt : m.Built) (hown : m.OwnTypes) {i : Interpreter}
    (hm : m.finalize = .ok i.program)
    (hext : ∀ f e, m.function? f = some (.external e) → e.signature.allInt = true)
    (hcalm : i.hosts.Calm) {f : FuncId} {args : List Bytes} {buffer : Bytes} {s₀ : Machine.State}
    (henter : Machine.enter i.program f args buffer.size
      { i.stats with invocations := i.stats.invocations + 1 } = .ok s₀) :
    (∀ s, Machine.Reaches i.env s₀ s → (Machine.step i.env s).Safe buffer.size) ∧
    ∀ fuel slot outcome i' slot', i.invoke fuel f args buffer slot = some (outcome, i', slot') →
      ∀ cause, outcome.failure = some cause → ∃ fault, cause = .fault fault ∧ fault.Dynamic := by
  have hsound := hbuilt.sound.finalize hm
  have hone := hbuilt.sound.oneRegistry hown hm
  have hlinked : ∀ f e l, i.program.linked? f = some (.external e l) →
      e.signature.allInt = true := by
    intro f e l hl
    have hfn : i.program.function? f = some (.external e) := by
      rw [Program.function?, hl]
      rfl
    rw [Module.function?_of_finalize hm] at hfn
    exact hext f e hfn
  have hsafe : ∀ s, Machine.Reaches i.env s₀ s → (Machine.step i.env s).Safe buffer.size :=
    fun s hs => Machine.safe_of_reaches hsound hone hlinked henter hs
  refine ⟨hsafe, ?_⟩
  intro fuel slot outcome i' slot' hinvoke cause hcause
  unfold Interpreter.invoke Interpreter.invokeWith at hinvoke
  dsimp only at hinvoke henter
  rw [henter] at hinvoke
  dsimp only at hinvoke
  split at hinvoke
  · cases hinvoke
  · rename_i ending stats slot₁ hrun
    cases hinvoke
    have hending := Machine.safe_of_run
      (fun symbol body args w pn w' hbody => hcalm symbol body args fuel w pn w' hbody) hsafe hrun
    cases ending with
    | returned v =>
      have hsize : v.size = buffer.size := hending
      unfold Outcome.ofEnding at hcause
      dsimp only at hcause
      rw [if_pos hsize] at hcause
      cases hcause
    | fault fault =>
      cases hcause
      exact ⟨fault, rfl, hending⟩
    | panic pn => exact absurd hending id

/-- A function that asks the host for its result. -/
def askHost : Module :=
  (Draft.empty.run
    [.declareExternal ⟨"h", [.int], .int⟩ "h", .declare ⟨"main", [.int], .int⟩, .select ⟨1⟩,
      .body .openBlock, .body (.readArg 0), .body (.call ⟨0⟩ [⟨0⟩]), .body (.ret ⟨1⟩)]).2.module

def askHostInterpreter : Interpreter :=
  .fresh ⟨#[.external ⟨⟨"h", [.int], .int⟩, "h"⟩ ⟨#[⟨0, 4⟩], 4, 4⟩,
      .code ⟨⟨⟨"main", [.int], .int⟩, #[#[.readArg ⟨0⟩ 0, .call ⟨1⟩ ⟨0⟩ [⟨0⟩], .ret ⟨1⟩]],
        #[.int, .int], #[]⟩, ⟨⟨#[⟨0, 4⟩, ⟨4, 4⟩], 8, 4⟩, 2⟩, ⟨#[⟨0, 4⟩], 4, 4⟩⟩]⟩
    .default (.bind "h" (fun args => .value (args.headD 0 + 1)) .empty)

theorem functions_askHost : askHost.functions = #[.external ⟨⟨"h", [.int], .int⟩, "h"⟩,
    .defined ⟨⟨"main", [.int], .int⟩, #[#[.readArg ⟨0⟩ 0, .call ⟨1⟩ ⟨0⟩ [⟨0⟩], .ret ⟨1⟩]],
      #[.int, .int], #[]⟩] := by decide +kernel

theorem finalize_askHost : askHost.finalize = .ok askHostInterpreter.program :=
  Module.finalize_eq_ok_iff.mpr ⟨by decide +kernel, by cbv, by decide +kernel⟩

theorem mentions_askHost {f : FuncId} {fn : Function} {t : Ty} (hfn : askHost.function? f = some fn)
    (ht : fn.Mentions t) : t = .int := by
  rw [Module.function?, functions_askHost] at hfn
  obtain ⟨_ | _ | k⟩ := f
  · cases hfn
    cases ht <;> simp_all [Function.signature]
  · cases hfn
    cases ht <;> simp_all [Function.signature]
  · cases hfn

/-- The first state of the function is safe, and so are all that follow. -/
theorem invocation_safe_askHost :
    ∃ s₀, Machine.enter askHostInterpreter.program ⟨1⟩ [Bytes.ofInt 5] 4 ⟨1, 0, 0, 0⟩ = .ok s₀ ∧
      ∀ s, Machine.Reaches askHostInterpreter.env s₀ s →
        (Machine.step askHostInterpreter.env s).Safe 4 := by
  have henter : ∃ s₀, Machine.enter askHostInterpreter.program ⟨1⟩ [Bytes.ofInt 5]
      (Bytes.ofInt 0).size
      { askHostInterpreter.stats with invocations := askHostInterpreter.stats.invocations + 1 } =
        .ok s₀ := ⟨_, rfl⟩
  have hown : askHost.OwnTypes := fun f fn t hfn ht => Or.inl (mentions_askHost hfn ht)
  have hext : ∀ f e, askHost.function? f = some (.external e) → e.signature.allInt = true := by
    intro f e he
    rw [Module.function?, functions_askHost] at he
    obtain ⟨_ | _ | k⟩ := f
    · cases he
      rfl
    · cases he
    · cases he
  have hcalm : askHostInterpreter.hosts.Calm := by
    intro symbol body args fuel slot pn slot' hbody hpanic
    unfold askHostInterpreter Interpreter.fresh HostTable.get? at hbody
    split at hbody
    · cases hbody
      cases hpanic
    · cases hbody
  obtain ⟨s₀, henter⟩ := henter
  exact ⟨s₀, henter, (invocation_safe ⟨_, rfl⟩ hown finalize_askHost hext hcalm henter).1⟩

end RegIR
