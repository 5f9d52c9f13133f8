import RegIR.Proofs.Safety
import RegIR.Proofs.SlotLookup
/-!
# Calls of external functions

A host function takes and returns integers.  The machine reads four bytes from the start of every
argument register before it looks at the signature, so a call that should be refused for its
signature is refused for a register when one of them is shorter and nothing lies behind it.
-/

namespace RegIR.Machine

open Memory

/-! ## 1. Registers read as integers -/

namespace Activation

variable {a : Activation} {m : Memory} {r : Reg} {rs : List Reg}

/-- Four bytes from the start of the register on lie on the stack, whatever its type is. -/
def Legible (a : Activation) (m : Memory) (r : Reg) : Prop :=
  ∃ e, a.code.frame.regExtent? r = some e ∧ a.frameBase + e.start + 4 ≤ m.size

theorem readInt_of_legible (h : a.Legible m r) : ∃ v, a.readInt m r = .ok v := by
  obtain ⟨e, he, hfits⟩ := h
  obtain ⟨w, hw⟩ := exists_word32? hfits
  refine ⟨w.toInt32, ?_⟩
  unfold readInt
  rw [extent_of_regExtent? he]
  simp only [bind, Except.bind, hw]

theorem readInt_of_not_legible (h : ¬ a.Legible m r) :
    a.readInt m r = .error (a.registerFault r) := by
  unfold readInt extent
  cases he : a.code.frame.regExtent? r with
  | none => rfl
  | some e =>
    have hshort : ¬ a.frameBase + e.start + 4 ≤ m.size := fun hfits => h ⟨e, he, hfits⟩
    simp only [bind, Except.bind, word32?, dif_neg hshort]

/-- Registers that can be read are read in order. -/
theorem readInts_of_legible (h : ∀ r ∈ rs, a.Legible m r) :
    ∃ vs, a.readInts m rs = .ok vs ∧ List.Forall₂ (fun r v => a.readInt m r = .ok v) rs vs := by
  induction rs with
  | nil => exact ⟨[], rfl, .nil⟩
  | cons r rs ih =>
    obtain ⟨hr, hrs⟩ := List.forall_mem_cons.mp h
    obtain ⟨v, hv⟩ := readInt_of_legible hr
    obtain ⟨vs, hvs, hall⟩ := ih hrs
    refine ⟨v :: vs, ?_, .cons hv hall⟩
    rw [readInts, hv, hvs]
    rfl

/-- The first register that cannot be read is reported. -/
theorem readInts_of_not_legible {before after : List Reg} (hbefore : ∀ q ∈ before, a.Legible m q)
    (h : ¬ a.Legible m r) : a.readInts m (before ++ r :: after) = .error (a.registerFault r) := by
  induction before with
  | nil =>
    rw [List.nil_append, readInts, readInt_of_not_legible h]
    rfl
  | cons q before ih =>
    obtain ⟨hq, hrest⟩ := List.forall_mem_cons.mp hbefore
    obtain ⟨v, hv⟩ := readInt_of_legible hq
    rw [List.cons_append, readInts, hv, ih hrest]
    rfl

theorem exists_first_illegible (h : ¬ ∀ r ∈ rs, a.Legible m r) :
    ∃ before r after, rs = before ++ r :: after ∧ (∀ q ∈ before, a.Legible m q) ∧
      ¬ a.Legible m r := by
  induction rs with
  | nil => exact absurd (List.forall_mem_nil _) h
  | cons q rs ih =>
    by_cases hq : a.Legible m q
    · obtain ⟨before, r, after, rfl, hbefore, hr⟩ := ih fun hrs =>
        h (List.forall_mem_cons.mpr ⟨hq, hrs⟩)
      exact ⟨q :: before, r, after, rfl, List.forall_mem_cons.mpr ⟨hq, hbefore⟩, hr⟩
    · exact ⟨[], q, rs, rfl, List.forall_mem_nil _, hq⟩

/-- A register of at least four bytes can be read. -/
theorem Framed.legible (ha : a.Framed m) {t : Ty} (ht : a.code.definition.regType? r = some t)
    (hsize : 4 ≤ t.size.toNat) : a.Legible m r := by
  obtain ⟨e, he, -, hfits⟩ := ha.extent ht
  exact ⟨e, he, by omega⟩

end Activation

/-! ## 2. What the call does -/

/-- The counts of a state when a call is executed. -/
def State.calling (s : State) : Stats := { s.counted with calls := s.stats.calls + 1 }

/-- The integer register of the running activation holds a value. -/
def State.HasInt (s : State) (r : Reg) (v : Int32) : Prop :=
  ∃ x, s.calls.Binds (s.calls.own (.reg r)) .int x ∧ s.stack.word32? x = some v.toUInt32

/-- What a call of an external function does. -/
structure CallsHost {H : Type} (env : Env H) (s : State) (e : External) (target : Reg)
    (args : List Reg) : Prop where
  /-- Nothing but integers may enter and leave: no other function of the host is run. -/
  refused : e.signature.allInt = false → ∀ run values r t, step env s ≠ .host run values r t
  /-- The fault names the symbol exactly when all argument registers can be read. -/
  unsupported : e.signature.allInt = false →
    (step env s = .halted (.fault (.unsupportedExternalSignature e.symbol)) s.calling ↔
      ∀ r ∈ args, s.calls.top.Legible s.stack r)
  /-- It names the first register that cannot be read otherwise. -/
  illegible : ∀ before r after, args = before ++ r :: after →
    (∀ q ∈ before, s.calls.top.Legible s.stack q) → ¬ s.calls.top.Legible s.stack r →
    e.signature.allInt = false ∧
      step env s = .halted (.fault (.registerOutOfRange s.calls.top.name r)) s.calling
  unbound : e.signature.allInt = true → env.host? e.symbol = none →
    step env s = .halted (.fault (.unboundExternal e.symbol)) s.calling
  /-- The bound function gets the values of the argument registers, and whatever it answers is
  stored in the target. -/
  bound : e.signature.allInt = true → ∀ run, env.host? e.symbol = some run →
    ∃ values, List.Forall₂ s.HasInt args values ∧
      step env s = .host run values target ⟨s.stack, s.calls.advance, s.calling⟩ ∧
      ∀ v, ∃ t y, State.answer ⟨s.stack, s.calls.advance, s.calling⟩ target v = .ok t ∧
        t.calls = s.calls.advance ∧ s.calls.Binds (s.calls.own (.reg target)) .int y ∧
        t.HasInt target v ∧ AgreeOutside s.stack t.stack y 4

section Calls

variable {H : Type} {env : Env H} {s : State} {target : Reg} {callee : FuncId} {args : List Reg}
  {e : External} {layout : Layout}
  (hop : s.calls.top.operation? = some (.call target callee args))
  (he : env.program.linked? callee = some (.external e layout))
include hop he

theorem step_of_external : step env s =
    match s.calls.top.readInts s.stack args with
    | .error h => .halted h s.calling
    | .ok values =>
      if !e.signature.allInt then
        .halted (.fault (.unsupportedExternalSignature e.symbol)) s.calling
      else
        match env.host? e.symbol with
        | none => .halted (.fault (.unboundExternal e.symbol)) s.calling
        | some run => .host run values target ⟨s.stack, s.calls.advance, s.calling⟩ := by
  rw [show s = ⟨s.stack, s.calls, s.stats⟩ from rfl, step_of_operation? hop]
  simp only [execute, execCall, he]
  rfl

variable (hsound : env.program.Sound) (hone : env.program.OneRegistry)
  (hs : Stacked env.program s)
include hsound hone hs

/-- The registers of a call between integers are integers, those that are passed and the target. -/
theorem int_of_external (hint : e.signature.allInt = true) :
    s.calls.top.code.definition.regType? target = some .int ∧
      ∀ r ∈ args, s.calls.top.code.definition.regType? r = some .int := by
  obtain ⟨f, hf⟩ := hs.linked _ _ s.calls.activation?_top
  obtain ⟨sig, hsig, htarget, hargs⟩ :=
    hsound.wellTyped f _ hf _ _ _ (Activation.operation?_eq_some.mp hop)
  have hret := Program.mentions_ret hsig
  rw [Program.sig?, Program.function?, he] at hsig
  cases hsig
  rw [Signature.allInt, Bool.and_eq_true, List.all_eq_true, Ty.isInt_iff] at hint
  refine ⟨?_, ?_⟩
  · rw [htarget]
    exact congrArg some (hone.eq_int hret hint.1)
  · intro r hr
    obtain ⟨i, hi⟩ := List.mem_iff_getElem?.mp hr
    obtain ⟨t, ht, hkind⟩ := getElem?_of_forall₂ hargs hi
    have htint := Ty.isInt_iff.mp (hint.2 t (List.mem_of_getElem? ht))
    exact hone.int_reg hf (htint ▸ hkind)

omit hop he hone hsound hs in
/-- An integer register holds what is read from it. -/
theorem hasInt_of_readInt {r : Reg} {v : Int32}
    (h : s.calls.top.code.definition.regType? r = some .int ∧
      s.calls.top.readInt s.stack r = .ok v) : s.HasInt r v := by
  obtain ⟨e, w, he, hw, rfl⟩ := Activation.readInt_eq_ok h.2
  exact ⟨_, CallStack.binds_own (.reg h.1 he), hw⟩

omit hop he hone in
/-- What the host answers is stored in an integer register, and nowhere else. -/
theorem answer_of_int (ht : s.calls.top.code.definition.regType? target = some .int)
    (v : Int32) (stats : Stats) :
    ∃ t y, State.answer ⟨s.stack, s.calls.advance, stats⟩ target v = .ok t ∧
      t.calls = s.calls.advance ∧ s.calls.Binds (s.calls.own (.reg target)) .int y ∧
      t.HasInt target v ∧ AgreeOutside s.stack t.stack y 4 := by
  obtain ⟨n, hn⟩ := (hs.top_framed hsound.laid).writeInt ht v
  obtain ⟨e, he, hout, hword⟩ := Activation.writeInt_eq_ok hn
  have hanswer : State.answer ⟨s.stack, s.calls.advance, stats⟩ target v =
      .ok ⟨n, s.calls.advance, stats⟩ := Except.bind_eq_ok.mpr ⟨n, hn, rfl⟩
  refine ⟨_, _, hanswer, rfl, CallStack.binds_own (.reg ht he), ⟨_, ?_, hword⟩, hout⟩
  exact CallStack.binds_own (.reg ht he)

theorem callsHost : CallsHost env s e target args := by
  have htop := hs.top_framed hsound.laid
  have hstep := step_of_external hop he
  -- Integers can always be read.
  have hlegible : e.signature.allInt = true → ∀ r ∈ args, s.calls.top.Legible s.stack r :=
    fun hint r hr =>
      htop.legible ((int_of_external hop he hsound hone hs hint).2 r hr) (by decide)
  have hillegible : ∀ before r after, args = before ++ r :: after →
      (∀ q ∈ before, s.calls.top.Legible s.stack q) → ¬ s.calls.top.Legible s.stack r →
      e.signature.allInt = false ∧
        step env s = .halted (.fault (.registerOutOfRange s.calls.top.name r)) s.calling := by
    rintro before r after rfl hbefore hr
    refine ⟨?_, ?_⟩
    · cases hint : e.signature.allInt with
      | false => rfl
      | true => exact absurd (hlegible hint r (List.mem_append_right _ List.mem_cons_self)) hr
    · rw [hstep, Activation.readInts_of_not_legible hbefore hr]
      rfl
  refine ⟨?_, ?_, hillegible, ?_, ?_⟩
  · intro hint run values r t hhost
    rw [hstep, hint] at hhost
    split at hhost <;> cases hhost
  · intro hint
    constructor
    · intro hunsupported
      by_contra hnot
      obtain ⟨before, r, after, hargs, hbefore, hr⟩ := Activation.exists_first_illegible hnot
      rw [(hillegible before r after hargs hbefore hr).2] at hunsupported
      cases hunsupported
    · intro hall
      obtain ⟨vs, hvs, -⟩ := Activation.readInts_of_legible hall
      rw [hstep, hvs, hint]
      rfl
  · intro hint hnone
    obtain ⟨vs, hvs, -⟩ := Activation.readInts_of_legible (hlegible hint)
    rw [hstep, hvs]
    simp only [hint, hnone]
    rfl
  · intro hint run hrun
    obtain ⟨htarget, hargs⟩ := int_of_external hop he hsound hone hs hint
    obtain ⟨vs, hvs, hall⟩ := Activation.readInts_of_legible (hlegible hint)
    refine ⟨vs, ?_, ?_, fun v => answer_of_int hsound hs htarget v _⟩
    · exact ((List.forall₂_and_left args vs).mpr ⟨hargs, hall⟩).imp fun _ _ => hasInt_of_readInt
    · rw [hstep, hvs]
      simp only [hint, hrun]
      rfl

end Calls

/-- In every state that an invocation reaches, a call of an external function with anything but
integers in its signature runs no host function, and it reports the signature exactly when four
bytes can be read from every argument register.  Between integers it reports an unbound symbol, or
the bound function gets the arguments in order and its answer is stored in the target. -/
theorem external_call_reports {m : Module} (hbuilt : m.Built) {H : Type} {env : Env H}
    (hm : m.finalize = .ok env.program) (hone : env.program.OneRegistry) {f : FuncId}
    {bytes : List Bytes} {returnSize : Nat} {stats : Stats} {s₀ s : State}
    (henter : enter env.program f bytes returnSize stats = .ok s₀) (h : Reaches env s₀ s)
    {target : Reg} {callee : FuncId} {args : List Reg} {e : External} {layout : Layout}
    (hop : s.calls.top.operation? = some (.call target callee args))
    (he : env.program.linked? callee = some (.external e layout)) :
    CallsHost env s e target args := by
  have hsound := hbuilt.sound.finalize hm
  exact callsHost hop he hsound hone
    ((Stacked.of_enter hsound.laid henter).reaches hsound.laid h)

theorem run_askHost : ∃ s₀ s, enter askHostInterpreter.program ⟨1⟩ [Bytes.ofInt 5] 4 .zero = .ok s₀ ∧
    after? askHostInterpreter.env 1 s₀ = some s ∧
    s.calls.top.operation? = some (.call ⟨1⟩ ⟨0⟩ [⟨0⟩]) := by
  have hrun : (enter askHostInterpreter.program ⟨1⟩ [Bytes.ofInt 5] 4 .zero).toOption.any (fun s₀ =>
      (after? askHostInterpreter.env 1 s₀).any fun s =>
        decide (s.calls.top.operation? = some (.call ⟨1⟩ ⟨0⟩ [⟨0⟩]))) = true := by decide +kernel
  obtain ⟨s₀, henter, hrun⟩ := (Option.any_eq_true _ _).mp hrun
  obtain ⟨s, hafter, hop⟩ := (Option.any_eq_true _ _).mp hrun
  exact ⟨s₀, s, Except.toOption_eq_some.mp henter, hafter, of_decide_eq_true hop⟩

/-- An aggregate of one byte. -/
def byteTy : Ty := { emptyTy with size := 1 }

/-- The function passes an aggregate to an external function.  Behind the register of the argument
lie two bytes of the frame, and then the stack ends. -/
def declining : Module :=
  (Draft.empty.run
    [.defineStruct 1 1, .declareExternal ⟨"ext", [byteTy], byteTy⟩ "SYM",
      .declare ⟨"main", [], .int⟩, .select ⟨1⟩, .body .openBlock, .body (.literal 0),
      .body (.stackAlloc byteTy), .body (.load ⟨1⟩ byteTy), .body (.call ⟨0⟩ [⟨2⟩]),
      .body (.ret ⟨0⟩)]).2.module

def decliningMain : Code where
  definition := ⟨⟨"main", [], .int⟩,
    #[#[.literal ⟨0⟩ 0, .stackAlloc ⟨1⟩ ⟨0⟩, .load ⟨2⟩ ⟨1⟩, .call ⟨3⟩ ⟨0⟩ [⟨2⟩], .ret ⟨0⟩]],
    #[.int, .pointer, byteTy, byteTy], #[byteTy]⟩
  frame := ⟨⟨#[⟨0, 4⟩, ⟨8, 8⟩, ⟨16, 1⟩, ⟨17, 1⟩, ⟨18, 1⟩], 19, 8⟩, 4⟩
  args := ⟨#[], 0, 1⟩

def decliningExternal : External := ⟨⟨"ext", [byteTy], byteTy⟩, "SYM"⟩

def decliningEnv : Env Unit where
  program := ⟨#[.external decliningExternal ⟨#[⟨0, 1⟩], 1, 1⟩, .code decliningMain]⟩
  maxCallDepth := none
  host? _ := none

theorem finalize_declining : declining.finalize = .ok decliningEnv.program :=
  Module.finalize_eq_ok_iff.mpr ⟨by decide +kernel, by cbv, by decide +kernel⟩

theorem ownTypes_declining : declining.OwnTypes := by
  have hfunctions : declining.functions =
      #[.external decliningExternal, .defined decliningMain.definition] := by decide +kernel
  have htypes : declining.types = ⟨#[byteTy]⟩ := by decide +kernel
  intro f fn t hfn ht
  rw [Registry.Knows, htypes]
  rw [Module.function?, hfunctions] at hfn
  obtain ⟨_ | _ | k⟩ := f
  · cases hfn
    cases ht <;> simp_all [Function.signature, decliningExternal]
  · cases hfn
    cases ht <;> simp_all [Function.signature, decliningMain]
  · cases hfn

/-- Before the call, the argument register cannot be read as an integer. -/
theorem run_declining : ∃ s₀ s, enter decliningEnv.program ⟨1⟩ [] 4 .zero = .ok s₀ ∧
    after? decliningEnv 3 s₀ = some s ∧ s.calls = ⟨⟨decliningMain, 0, 0, 0, 3⟩, #[]⟩ ∧
    ¬ s.calls.top.Legible s.stack ⟨2⟩ := by
  have hrun : (enter decliningEnv.program ⟨1⟩ [] 4 .zero).toOption.any (fun s₀ =>
      (after? decliningEnv 3 s₀).any fun s =>
        decide (s.calls = ⟨⟨decliningMain, 0, 0, 0, 3⟩, #[]⟩ ∧ s.stack.size = 19)) = true := by
    decide +kernel
  obtain ⟨s₀, henter, hrun⟩ := (Option.any_eq_true _ _).mp hrun
  obtain ⟨s, hafter, hrun⟩ := (Option.any_eq_true _ _).mp hrun
  obtain ⟨hcalls, hsize⟩ := of_decide_eq_true hrun
  refine ⟨s₀, s, Except.toOption_eq_some.mp henter, hafter, hcalls, ?_⟩
  rintro ⟨e, he, hfits⟩
  rw [hcalls] at he hfits
  cases he
  rw [hsize] at hfits
  exact absurd hfits (by decide)

/-- Between integers the host function gets the integer that its caller was given.  With an
aggregate in the signature no host function is run, and the call reports the register that cannot be
read. -/
theorem external_call_reports_askHost_declining :
    (∃ s₀ s run values t,
      enter askHostInterpreter.program ⟨1⟩ [Bytes.ofInt 5] 4 .zero = .ok s₀ ∧
      Reaches askHostInterpreter.env s₀ s ∧
      step askHostInterpreter.env s = .host run values ⟨1⟩ t ∧
      List.Forall₂ s.HasInt [⟨0⟩] values) ∧
    ∃ s₀ s, enter decliningEnv.program ⟨1⟩ [] 4 .zero = .ok s₀ ∧ Reaches decliningEnv s₀ s ∧
      s.calls.top.operation? = some (.call ⟨3⟩ ⟨0⟩ [⟨2⟩]) ∧
      (∀ run values r t, step decliningEnv s ≠ .host run values r t) ∧
      step decliningEnv s = .halted (.fault (.registerOutOfRange "main" ⟨2⟩)) s.calling := by
  constructor
  · have hown : askHost.OwnTypes := fun f fn t hfn ht => Or.inl (mentions_askHost hfn ht)
    have hm : askHost.finalize = .ok askHostInterpreter.env.program := finalize_askHost
    have hone := (Module.Built.sound ⟨_, rfl⟩).oneRegistry hown hm
    obtain ⟨s₀, s, henter, hafter, hop⟩ := run_askHost
    have hreach := reaches_of_addressable (reachesAddressable_of_after? hafter)
    obtain ⟨-, -, -, -, hbound⟩ := external_call_reports (e := ⟨⟨"h", [.int], .int⟩, "h"⟩)
      ⟨_, rfl⟩ hm hone henter hreach hop rfl
    obtain ⟨values, hvalues, hstep, -⟩ := hbound rfl _ rfl
    exact ⟨s₀, s, _, values, _, henter, hreach, hstep, hvalues⟩
  · have hone := (Module.Built.sound ⟨_, rfl⟩).oneRegistry ownTypes_declining finalize_declining
    obtain ⟨s₀, s, henter, hafter, hcalls, hnot⟩ := run_declining
    have hreach := reaches_of_addressable (reachesAddressable_of_after? hafter)
    have hop : s.calls.top.operation? = some (.call ⟨3⟩ ⟨0⟩ [⟨2⟩]) := by
      rw [hcalls]
      rfl
    obtain ⟨hrefused, -, hillegible, -, -⟩ := external_call_reports (e := decliningExternal)
      ⟨_, rfl⟩ finalize_declining hone henter hreach hop rfl
    obtain ⟨hint, hstep⟩ := hillegible [] ⟨2⟩ [] rfl (List.forall_mem_nil _) hnot
    refine ⟨s₀, s, henter, hreach, hop, hrefused hint, ?_⟩
    rw [hstep, hcalls]
    rfl

/-- The call reports its argument register, which is in order, and not the signature. -/
theorem misreports_declining :
    ∃ s₀ s, declining.Built ∧ declining.OwnTypes ∧ declining.finalize = .ok decliningEnv.program ∧
      enter decliningEnv.program ⟨1⟩ [] 4 .zero = .ok s₀ ∧ Reaches decliningEnv s₀ s ∧
      s.calls.top.operation? = some (.call ⟨3⟩ ⟨0⟩ [⟨2⟩]) ∧
      decliningExternal.signature.allInt = false ∧
      step decliningEnv s = .halted (.fault (.registerOutOfRange "main" ⟨2⟩)) s.calling ∧
      ∀ stats, step decliningEnv s ≠
        .halted (.fault (.unsupportedExternalSignature decliningExternal.symbol)) stats := by
  obtain ⟨s₀, s, henter, hafter, hcalls, hillegible⟩ := run_declining
  have hop : s.calls.top.operation? = some (.call ⟨3⟩ ⟨0⟩ [⟨2⟩]) := by
    rw [hcalls]
    rfl
  have hread : s.calls.top.readInts s.stack [⟨2⟩] = .error (s.calls.top.registerFault ⟨2⟩) :=
    Activation.readInts_of_not_legible (List.forall_mem_nil _) hillegible
  have hstep : step decliningEnv s =
      .halted (.fault (.registerOutOfRange "main" ⟨2⟩)) s.calling := by
    rw [step_of_external (e := decliningExternal) hop rfl, hread, hcalls]
    rfl
  refine ⟨s₀, s, ⟨_, rfl⟩, ownTypes_declining, finalize_declining, henter,
    reaches_of_addressable (reachesAddressable_of_after? hafter), hop, by decide, hstep, ?_⟩
  intro stats hunsupported
  rw [hstep] at hunsupported
  cases hunsupported

end RegIR.Machine
