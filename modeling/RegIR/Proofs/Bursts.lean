import RegIR.Proofs.Passages
import RegIR.Proofs.Transfers
/-!
# Where a run breaks off

A check that fails raises a fault, which is an answer.  A run breaks off without one only where a
transfer between types of two sizes runs over an end: a load or a store over the end of the stack,
the outermost return over the buffer of its caller.
-/

namespace RegIR.Machine

open Memory

/-! ## 1. Checks -/

section Checks

variable {a : Activation} {m : Memory} {r : Reg}

theorem faultsOnly_readInt : FaultsOnly (a.readInt m r) := by
  refine faultsOnly_extent.bind fun e => ?_
  split
  · exact faultsOnly_fault _
  · exact faultsOnly_ok _

theorem faultsOnly_writeInt {v : Int32} : FaultsOnly (a.writeInt m r v) := by
  refine faultsOnly_extent.bind fun e => ?_
  split
  · exact faultsOnly_fault _
  · exact faultsOnly_ok _

theorem faultsOnly_readInts {rs : List Reg} : FaultsOnly (a.readInts m rs) := by
  induction rs with
  | nil => exact faultsOnly_ok _
  | cons r rs ih => exact faultsOnly_readInt.bind fun v => ih.bind fun vs => faultsOnly_ok _

theorem faultsOnly_moved {x : Except MemoryViolation Memory} (h : ∃ n, x = .ok n) :
    FaultsOnly (moved x) := by
  obtain ⟨n, rfl⟩ := h
  exact faultsOnly_ok n

theorem faultsOnly_checkDepth {limit : Option Nat} {depth : Nat} :
    FaultsOnly (checkDepth limit depth) := by
  unfold checkDepth
  split
  · exact faultsOnly_ok _
  · split
    · exact faultsOnly_fault _
    · exact faultsOnly_ok _

theorem faultsOnly_codeOf {p : Program} {f : FuncId} : FaultsOnly (codeOf p f) := by
  unfold codeOf
  split
  · exact faultsOnly_ok _
  · exact faultsOnly_fault _
  · exact faultsOnly_fault _

theorem faultsOnly_execUnary {target : Reg} {op : UnaryOp} :
    FaultsOnly (execUnary a m target op r) :=
  faultsOnly_readInt.bind fun _ => faultsOnly_writeInt

theorem faultsOnly_execBinary {target r' : Reg} {op : BinaryOp} :
    FaultsOnly (execBinary a m target op r r') := by
  refine faultsOnly_readInt.bind fun x => faultsOnly_readInt.bind fun y => ?_
  split
  · exact faultsOnly_fault _
  · exact faultsOnly_writeInt

/-- Where bytes are copied from registers to arguments, their number is compared first. -/
theorem faultsOnly_passArgs {c : Code} {base : Nat} (hc : c.Laid) {args : List Reg}
    (position : Nat) (hm : base + c.args.size.toNat ≤ m.size)
    (ha : ∀ r e, a.code.frame.regExtent? r = some e → a.frameBase + e.stop ≤ m.size) :
    FaultsOnly (passArgs a c base position args m) := by
  induction args generalizing position m with
  | nil => exact faultsOnly_ok m
  | cons r rs ih =>
    intro h hpass
    rw [passArgs] at hpass
    cases hreg : a.code.frame.regExtent? r with
    | none =>
      simp only [Activation.extent, hreg, bind, Except.bind] at hpass
      cases hpass
      exact ⟨_, rfl⟩
    | some src =>
      have hstop := ha r src hreg
      rw [Extent.stop] at hstop
      rw [extent_of_regExtent? hreg] at hpass
      simp only [bind, Except.bind, Extent.stop] at hpass
      split at hpass
      · cases hpass
        exact ⟨_, rfl⟩
      · rename_i dst hdst
        have hwithin := hc.args.within hdst
        rw [Extent.stop] at hwithin
        split at hpass
        · cases hpass
          exact ⟨_, rfl⟩
        · rename_i hsize
          obtain ⟨n, hcopy⟩ : ∃ n, m.copyWithin (a.frameBase + src.start)
              (a.frameBase + src.start + src.size) (base + dst.start) = .ok n :=
            copyWithin_ok (by omega) (by omega)
          have hsame := size_of_copyWithin hcopy
          rw [hcopy] at hpass
          exact ih (position + 1) (by omega) (fun r e he => by rw [hsame]; exact ha r e he) h hpass

/-- The outermost arguments are compared in the same way. -/
theorem faultsOnly_placeArgs {c : Code} {base : Nat} (hc : c.Laid) {args : List Bytes}
    {types : List Ty} (position : Nat) (hm : base + c.args.size.toNat ≤ m.size)
    (htypes : ∀ i t, types[i]? = some t → c.definition.signature.args[position + i]? = some t) :
    FaultsOnly (placeArgs c base position args types m) := by
  induction args generalizing position types m with
  | nil =>
    unfold placeArgs
    exact faultsOnly_ok m
  | cons bs args ih =>
    cases types with
    | nil =>
      unfold placeArgs
      exact faultsOnly_ok m
    | cons t types =>
      rw [placeArgs]
      split
      · exact faultsOnly_fault _
      · rename_i hsize
        obtain ⟨dst, hdst, hdt, hwithin⟩ := hc.args.exists_extent (htypes 0 t rfl)
        rw [Extent.stop] at hwithin
        rw [Nat.add_zero] at hdst
        obtain ⟨n, hreplace⟩ : ∃ n, m.replace (base + dst.start) bs = .ok n :=
          replace_ok (by omega)
        have hsame := size_of_replace hreplace
        simp only [Layout.extent?, hdst, hreplace, moved, bind, Except.bind]
        refine ih (position + 1) (by omega) fun i u hu => ?_
        rw [Nat.add_assoc, Nat.add_comm 1]
        exact htypes (i + 1) u hu

theorem faultsOnly_enter {p : Program} (hp : p.Laid) {f : FuncId} {args : List Bytes}
    {returnSize : Nat} {stats : Stats} : FaultsOnly (enter p f args returnSize stats) := by
  intro h henter
  unfold enter at henter
  cases hc : codeOf p f with
  | error e =>
    obtain ⟨fault, rfl⟩ := faultsOnly_codeOf e hc
    simp only [hc, bind, Except.bind] at henter
    cases henter
    exact ⟨fault, rfl⟩
  | ok c =>
    simp only [hc, bind, Except.bind] at henter
    split at henter
    · cases henter
      exact ⟨_, rfl⟩
    · split at henter
      · cases henter
        exact ⟨_, rfl⟩
      · generalize hr : reserve .empty c.args.size.toNat c.args.align.toNat = r at henter
        obtain ⟨base, n⟩ := r
        have hres := reserved_of_reserve hr
        have hplace : FaultsOnly (placeArgs c base 0 args c.definition.signature.args n) :=
          faultsOnly_placeArgs (hp f c (codeOf_eq_ok.mp hc)) 0 (Nat.le_of_eq hres.size.symm)
            fun i t ht => by rwa [Nat.zero_add]
        dsimp only at henter
        split at henter
        · rename_i e he
          cases henter
          exact hplace _ he
        · cases henter

end Checks

/-! ## 2. Operations that transfer nothing -/

/-- The step goes on, asks a host function, or raises a fault. -/
def Transition.Checked {H : Type} : Transition H → Prop
  | .halted h _ => ∃ f, h = .fault f
  | .returned _ _ => False
  | .next _ | .host _ _ _ _ => True

theorem Transition.checked_andAdvance {H : Type} {calls : CallStack} {stats : Stats}
    {x : Exec Memory} (h : FaultsOnly x) :
    (andAdvance (H := H) calls stats x).Checked := by
  cases x with
  | error e => exact h e rfl
  | ok m => trivial

section Steps

variable {H : Type} {env : Env H} (hsound : env.program.Sound) {s : State}
  (hs : Stacked env.program s)
include hsound hs

theorem faultsOnly_enterCall {target : Reg} {callee : FuncId} {args : List Reg} :
    FaultsOnly (enterCall env s.stack s.calls target callee args) := by
  have htop := hs.top_framed hsound.laid
  intro h hcall
  unfold enterCall at hcall
  cases hdepth : checkDepth env.maxCallDepth s.calls.depth with
  | error e =>
    obtain ⟨fault, rfl⟩ := faultsOnly_checkDepth e hdepth
    simp only [hdepth, bind, Except.bind] at hcall
    cases hcall
    exact ⟨fault, rfl⟩
  | ok _ =>
    cases hc : codeOf env.program callee with
    | error e =>
      obtain ⟨fault, rfl⟩ := faultsOnly_codeOf e hc
      simp only [hdepth, hc, bind, Except.bind] at hcall
      cases hcall
      exact ⟨fault, rfl⟩
    | ok c =>
      obtain ⟨m, ⟨top, below⟩, stats⟩ := s
      dsimp only at hdepth htop
      simp only [hdepth, hc, bind, Except.bind] at hcall
      split at hcall
      · cases hcall
        exact ⟨_, rfl⟩
      · generalize hr : reserve m c.args.size.toNat c.args.align.toNat = r at hcall
        obtain ⟨base, n⟩ := r
        have hres := reserved_of_reserve hr
        have hsize := hres.size
        have habove := hres.above
        have hpass : FaultsOnly (passArgs top c base 0 args n) :=
          faultsOnly_passArgs (hsound.laid callee c (codeOf_eq_ok.mp hc)) 0
            (Nat.le_of_eq hres.size.symm) fun r e he => by
              have := htop.reg_within he
              omega
        dsimp only at hcall
        split at hcall
        · rename_i e he
          cases hcall
          exact hpass _ he
        · split at hcall
          · rename_i e he
            cases hcall
            exact faultsOnly_extent _ he
          · cases hcall

theorem checked_execCall {stats : Stats} {target : Reg} {callee : FuncId} {args : List Reg} :
    (execCall env s.stack s.calls stats target callee args).Checked := by
  unfold execCall
  split
  · split
    · rename_i e he
      exact faultsOnly_readInts e he
    · split
      · exact ⟨_, rfl⟩
      · split
        · exact ⟨_, rfl⟩
        · trivial
  · split
    · rename_i e he
      exact faultsOnly_enterCall hsound hs e he
    · trivial

/-- An operation that transfers nothing does its work or raises a fault. -/
theorem checked_step (h : ∀ op, s.calls.top.operation? = some op → op.transfers = false) :
    (step env s).Checked := by
  cases hop : s.calls.top.operation? with
  | none =>
    obtain ⟨m, calls, stats⟩ := s
    simp only [step, hop]
    exact ⟨_, rfl⟩
  | some op =>
    obtain ⟨f, hf⟩ := hs.linked _ _ s.calls.activation?_top
    have hty := hsound.wellTyped f _ hf _ _ _ (Activation.operation?_eq_some.mp hop)
    have htop := hs.top_framed hsound.laid
    have hnot := h op hop
    rw [show s = ⟨s.stack, s.calls, s.stats⟩ from rfl, step_of_operation? hop]
    cases op with
    | readArg target index =>
      obtain ⟨n, hn⟩ := execReadArg_ok htop (hs.args _ _ s.calls.activation?_top) hty
      exact Transition.checked_andAdvance (hn ▸ faultsOnly_ok n)
    | literal target v => exact Transition.checked_andAdvance faultsOnly_writeInt
    | unary target op x => exact Transition.checked_andAdvance faultsOnly_execUnary
    | binary target op l r => exact Transition.checked_andAdvance faultsOnly_execBinary
    | stackAlloc target slot =>
      obtain ⟨htarget, t, ht⟩ := hty
      obtain ⟨src, hsrc, -⟩ := htop.laid.exists_slotExtent ht
      obtain ⟨dst, -, hext, hfits⟩ := htop.extent htarget
      refine Transition.checked_andAdvance ?_
      simp only [execStackAlloc, hsrc, hext, bind, Except.bind]
      exact faultsOnly_moved (replace_ok hfits)
    | call target callee args => exact checked_execCall hsound hs
    | branch b => trivial
    | condBranch test b c =>
      simp only [execute]
      split
      · rename_i e he
        exact faultsOnly_readInt e he
      · trivial
    | load | store | ret => cases hnot

/-! ## 3. Transfers -/

/-- The operation at the cursor moves a value that runs over an end: that of the stack, or that of
the buffer of the outermost caller. -/
inductive State.Bursts (s : State) : Prop
  | load {target pointer : Reg} {t u : Ty} {x y : Nat}
      (hop : s.calls.top.operation? = some (.load target pointer))
      (h : s.Transfers (.load target pointer) t x u (some y))
      (hlong : s.stack.size < x + u.size.toNat) : Bursts s
  | store {pointer source : Reg} {t u : Ty} {x y : Nat}
      (hop : s.calls.top.operation? = some (.store pointer source))
      (h : s.Transfers (.store pointer source) t x u (some y))
      (hlong : s.stack.size < y + t.size.toNat) : Bursts s
  | hand {value : Reg} {t u : Ty} {x : Nat} (hop : s.calls.top.operation? = some (.ret value))
      (h : s.Transfers (.ret value) t x u none) (hne : t.size ≠ u.size) : Bursts s

omit hsound hs in
theorem violation_of_copyWithin {m : Memory} {start len dest : Nat} {calls : CallStack}
    {stats : Stats} (h : m.size < start + len ∨ m.size < dest + len) :
    ∃ v, andAdvance (H := H) calls stats (moved (m.copyWithin start (start + len) dest)) =
      .halted (.violation v) stats := by
  unfold copyWithin
  split
  · rw [dif_neg (by omega)]
    exact ⟨_, rfl⟩
  · exact ⟨_, rfl⟩

theorem step_of_transfers_load {target pointer : Reg}
    (hop : s.calls.top.operation? = some (.load target pointer)) {t u : Ty} {x y : Nat}
    (h : s.Transfers (.load target pointer) t x u (some y)) :
    step env s = andAdvance s.calls s.counted
      (moved (s.stack.copyWithin x (x + u.size.toNat) y)) := by
  cases h with
  | load haddress hplace _ _ htarget =>
    have hext := hs.extent_of_binds hsound.laid htarget
    rw [step_of_load hop]
    simp only [execLoad, Activation.typeOf_eq_ok.mpr htarget.regExtent?.1, haddress, hplace, hext,
      bind, Except.bind]

theorem step_of_transfers_store {pointer source : Reg}
    (hop : s.calls.top.operation? = some (.store pointer source)) {t u : Ty} {x y : Nat}
    (h : s.Transfers (.store pointer source) t x u (some y)) :
    step env s = andAdvance s.calls s.counted
      (moved (s.stack.copyWithin x (x + t.size.toNat) y)) := by
  cases h with
  | store haddress hplace hcheck hsource _ _ =>
    have hext := hs.extent_of_binds hsound.laid hsource
    rw [step_of_store hop]
    simp only [execStore, Activation.typeOf_eq_ok.mpr hsource.regExtent?.1, haddress, hplace,
      hcheck, hext, bind, Except.bind, Extent.stop]

/-- A result always fits where a caller waits for it: the frame of the caller lies below. -/
theorem step_of_transfers_ret {value : Reg} (hop : s.calls.top.operation? = some (.ret value))
    {t u : Ty} {x y : Nat} (h : s.Transfers (.ret value) t x u (some y)) :
    ∃ s', step env s = .next s' := by
  cases h with
  | ret hcheck hback hawaits hvalue htarget =>
    rename_i target caller
    obtain ⟨target', hawaits', hret⟩ := binds_awaited hsound hs hback
    cases hawaits.unique hawaits'
    obtain ⟨-, rfl⟩ := htarget.unique hret
    have hin := hs.binds_within hsound.laid hvalue
    obtain ⟨a, ha, hcell⟩ := htarget
    have hpos := (CallStack.getElem?_of_back? hback).1
    have hbelow := hs.ordered _ _ a _ (Nat.sub_lt hpos Nat.one_pos) ha s.calls.activation?_top
    have hcaller := (hs.holds_within hsound.laid ha hcell).2
    have hown := (hs.holds_within hsound.laid s.calls.activation?_top hvalue.holds).1
    obtain ⟨n, hcopy⟩ : ∃ n, s.stack.copyWithin x (x + t.size.toNat) caller.returnTo = .ok n :=
      copyWithin_ok hin (by omega)
    have hreturned := returned_eq_ok.mpr ⟨hs.extent_of_binds hsound.laid hvalue, hcheck⟩
    exact ⟨_, (step_of_ret hop).trans (execReturn_eq_next hreturned hback hcopy)⟩

/-- The outermost result has the bytes of the returned register. -/
theorem step_of_transfers_hand {value : Reg} (hop : s.calls.top.operation? = some (.ret value))
    {t u : Ty} {x : Nat} (h : s.Transfers (.ret value) t x u none) :
    ∃ bytes, step env s = .returned bytes s.counted ∧ bytes.size = t.size.toNat := by
  cases h with
  | hand hcheck hback hvalue =>
    have hin := hs.binds_within hsound.laid hvalue
    obtain ⟨bytes, hbytes⟩ : ∃ bytes, s.stack.area x (x + t.size.toNat) = .ok bytes := by
      unfold area
      rw [if_pos hin]
      exact ⟨_, rfl⟩
    have hreturned := returned_eq_ok.mpr ⟨hs.extent_of_binds hsound.laid hvalue, hcheck⟩
    refine ⟨bytes, (step_of_ret hop).trans (execReturn_eq_returned hreturned hback hbytes), ?_⟩
    rw [size_of_area (Nat.le_add_right _ _) hbytes, Nat.add_sub_cancel_left]

/-- The step breaks off, or it hands out a result of the wrong length. -/
def Transition.BreaksOff (returnSize : Nat) : Transition H → Prop
  | .halted (.violation _) _ => True
  | .returned bytes _ => bytes.size ≠ returnSize
  | _ => False

/-- The size of the outermost result, when it is the running activation that returns it. -/
def State.Owes (s : State) (returnSize : Nat) : Prop :=
  s.calls.below.back? = none →
    s.calls.top.code.definition.signature.ret.size.toNat = returnSize

/-- A step breaks off exactly when it moves a value that runs over an end. -/
theorem breaksOff_iff_bursts {returnSize : Nat} (howes : s.Owes returnSize) :
    (step env s).BreaksOff returnSize ↔ s.Bursts := by
  have hret : ∀ {value t x u}, s.Transfers (.ret value) t x u none →
      u.size.toNat = returnSize := by
    intro value t x u h
    cases h with
    | hand _ hback _ => exact howes hback
  constructor
  · intro hbreaks
    -- Only transfers break off, and those that are refused raise a fault.
    by_cases htransfers : ∃ op, s.calls.top.operation? = some op ∧ op.transfers = true
    · obtain ⟨op, hop, htransfers⟩ := htransfers
      rcases faults_or_transfers hsound hs hop htransfers with
        ⟨f, stats, hfault⟩ | ⟨t, x, u, dst, h⟩
      · rw [hfault] at hbreaks
        cases hbreaks
      · cases id h with
        | load _ _ _ _ htarget =>
          refine .load hop h ?_
          by_contra hfits
          obtain ⟨n, hn⟩ := copyWithin_ok (Nat.le_of_not_lt hfits)
            (by rw [Nat.add_sub_cancel_left]; exact hs.binds_within hsound.laid htarget)
          rw [step_of_transfers_load hsound hs hop h, hn] at hbreaks
          exact hbreaks
        | store _ _ _ hsource _ _ =>
          refine .store hop h ?_
          by_contra hfits
          obtain ⟨n, hn⟩ := copyWithin_ok (hs.binds_within hsound.laid hsource)
            (by rw [Nat.add_sub_cancel_left]; exact Nat.le_of_not_lt hfits)
          rw [step_of_transfers_store hsound hs hop h, hn] at hbreaks
          exact hbreaks
        | ret =>
          obtain ⟨s', hnext⟩ := step_of_transfers_ret hsound hs hop h
          rw [hnext] at hbreaks
          cases hbreaks
        | hand =>
          obtain ⟨bytes, hreturned, hsize⟩ := step_of_transfers_hand hsound hs hop h
          rw [hreturned] at hbreaks
          exact .hand hop h fun heq => hbreaks (by rw [hsize, heq, hret h])
    · have hnot : ∀ op, s.calls.top.operation? = some op → op.transfers = false := by
        intro op hop
        cases h : op.transfers with
        | false => rfl
        | true => exact absurd ⟨op, hop, h⟩ htransfers
      have hchecked : (step env s).Checked := checked_step hsound hs hnot
      generalize step env s = transition at hbreaks hchecked
      cases transition with
      | next s' => cases hbreaks
      | host run args target s' => cases hbreaks
      | returned bytes stats => cases hchecked
      | halted e stats =>
        obtain ⟨f, rfl⟩ := hchecked
        cases hbreaks
  · intro hbursts
    cases hbursts with
    | load hop h hlong =>
      obtain ⟨v, hv⟩ := violation_of_copyWithin (Or.inl hlong)
      rw [step_of_transfers_load hsound hs hop h, hv]
      trivial
    | store hop h hlong =>
      obtain ⟨v, hv⟩ := violation_of_copyWithin (Or.inr hlong)
      rw [step_of_transfers_store hsound hs hop h, hv]
      trivial
    | hand hop h hne =>
      obtain ⟨bytes, hreturned, hsize⟩ := step_of_transfers_hand hsound hs hop h
      rw [hreturned]
      intro heq
      rw [hsize, ← hret h] at heq
      exact hne (UInt32.toNat_inj.mp heq)

/-- Where types of one kind are one type, every value fits its destination. -/
theorem not_bursts_of_oneRegistry (hone : env.program.OneRegistry) : ¬ s.Bursts := by
  have hsame : ∀ {op t x u dst}, s.calls.top.operation? = some op →
      s.Transfers op t x u dst → t = u := by
    intro op t x u dst hop h
    obtain ⟨ht, hu⟩ := h.mentions hs
    exact hone.eq_of_kind ht hu (h.kind_eq hsound hs hop)
  intro hbursts
  cases hbursts with
  | load hop h hlong =>
    cases hsame hop h
    cases h with
    | load _ _ hslot _ _ => exact Nat.not_lt.mpr (hs.binds_within hsound.laid hslot) hlong
  | store hop h hlong =>
    cases hsame hop h
    cases h with
    | store _ _ _ _ hslot _ => exact Nat.not_lt.mpr (hs.binds_within hsound.laid hslot) hlong
  | hand hop h hne => exact hne (congrArg Ty.size (hsame hop h))

end Steps

/-- The outermost activation is always that of the invoked function, whose result was asked for. -/
theorem owes_of_reaches {H : Type} {env : Env H} (hlaid : env.program.Laid) {f : FuncId}
    {args : List Bytes} {returnSize : Nat} {stats : Stats} {s₀ s : State}
    (henter : enter env.program f args returnSize stats = .ok s₀) (h : Reaches env s₀ s) :
    s.Owes returnSize := by
  intro hback
  have hempty : s.calls.below = #[] := by simpa using hback
  have htop := s.calls.activation?_top
  rw [hempty] at htop
  exact size_ret_of_reaches hlaid henter h htop

end RegIR.Machine

namespace RegIR

/-! ## 4. The end of a run -/

/-- The function returned, or a check failed. -/
def Outcome.Regular (o : Outcome) : Prop := o.failure = none ∨ ∃ f, o.failure = some (.fault f)

namespace Machine

variable {H σ : Type} {env : Env H} {perform : Nat → H → List Int32 → σ → Option (Answer × σ)}
  {a : State × σ} {r : Ending × Stats × σ} {buffer : Bytes}

theorem faultsOnly_answer {s : State} {target : Reg} {v : Int32} :
    FaultsOnly (s.answer target v) :=
  faultsOnly_writeInt.bind fun _ => faultsOnly_ok _

/-- Every bound host function answers with a value, whatever it is given. -/
def Env.Returns (env : Env H) (perform : Nat → H → List Int32 → σ → Option (Answer × σ)) : Prop :=
  ∀ symbol body args w, env.host? symbol = some body →
    ∃ n v w', perform n body args w = some (.value v, w')

/-- A run whose host functions return ends in a regular way unless its last step breaks off. -/
theorem Stops.regular_iff (hgrows : Grows perform) (hreturns : env.Returns perform)
    (h : Stops env perform a r) :
    (Outcome.ofEnding buffer r.1).Regular ↔ ¬ (step env a.1).BreaksOff buffer.size := by
  cases h with
  | @returned s w bs stats hstep =>
    rw [hstep]
    by_cases hsize : bs.size = buffer.size
    · simp [Outcome.ofEnding, Outcome.Regular, Transition.BreaksOff, hsize]
    · simp [Outcome.ofEnding, Outcome.Regular, Transition.BreaksOff, hsize]
  | @halted s w e stats hstep =>
    rw [hstep]
    cases e with
    | fault f => exact ⟨fun _ h => h, fun _ => Or.inr ⟨f, rfl⟩⟩
    | violation v => simp [Ending.ofHalt, Outcome.ofEnding, Outcome.Regular, Transition.BreaksOff]
  | panic hstep hp =>
    obtain ⟨symbol, hsymbol⟩ := bound_of_step_host hstep
    obtain ⟨n, v, w', hv⟩ := hreturns symbol _ _ _ hsymbol
    cases hgrows.unique hp hv
  | unanswered hstep _ he =>
    rw [hstep]
    obtain ⟨f, rfl⟩ := faultsOnly_answer _ he
    exact ⟨fun _ h => h, fun _ => Or.inr ⟨f, rfl⟩⟩

/-- A step that breaks off is the last one. -/
theorem Transition.BreaksOff.exists_stops {returnSize : Nat}
    (h : (step env a.1).BreaksOff returnSize) : ∃ r, Stops env perform a r := by
  obtain ⟨s, w⟩ := a
  cases hstep : step env s with
  | next t =>
    rw [hstep] at h
    cases h
  | host body args target u =>
    rw [hstep] at h
    cases h
  | returned bytes stats => exact ⟨_, .returned hstep⟩
  | halted e stats => exact ⟨_, .halted hstep⟩

theorem RunsTo.unique {r' : Ending × Stats × σ} (hgrows : Grows perform)
    (h : RunsTo env perform a r) (h' : RunsTo env perform a r') : r = r' := by
  obtain ⟨n, hn⟩ := h
  obtain ⟨n', hn'⟩ := h'
  have hleft := run_mono (hgrows n (max n n') (Nat.le_max_left ..)) (Nat.le_max_left n n') hn
  have hright := run_mono (hgrows n' (max n n') (Nat.le_max_right ..)) (Nat.le_max_right n n') hn'
  rw [hleft] at hright
  exact Option.some.inj hright

theorem PassesTo.reaches {b : State × σ} (h : PassesTo env perform a b) : Reaches env a.1 b.1 :=
  h.lift Prod.fst fun _ _ h => h.advances

/-- The run of an invocation ends in a regular way exactly if no value on it runs over an end. -/
theorem regular_iff_not_bursts (hsound : env.program.Sound) (hgrows : Grows perform)
    (hreturns : env.Returns perform) {f : FuncId} {args : List Bytes} {stats : Stats} {s₀ : State}
    {w : σ} (henter : enter env.program f args buffer.size stats = .ok s₀)
    (h : RunsTo env perform (s₀, w) r) :
    (Outcome.ofEnding buffer r.1).Regular ↔
      ∀ a, PassesTo env perform (s₀, w) a → ¬ a.1.Bursts := by
  have hs₀ := Stacked.of_enter hsound.laid henter
  have hbreaks : ∀ {a}, PassesTo env perform (s₀, w) a →
      ((step env a.1).BreaksOff buffer.size ↔ a.1.Bursts) := by
    intro a ha
    exact breaksOff_iff_bursts hsound (hs₀.reaches hsound.laid ha.reaches)
      (owes_of_reaches hsound.laid henter ha.reaches)
  constructor
  · intro hregular a ha hbursts
    -- The run would stop there, and it has one end.
    have hoff := (hbreaks ha).mpr hbursts
    obtain ⟨r', hstops⟩ : ∃ r', Stops env perform a r' := hoff.exists_stops
    cases h.unique hgrows ((runsTo_iff hgrows).mpr ⟨a, ha, hstops⟩)
    exact (hstops.regular_iff hgrows hreturns).mp hregular hoff
  · intro hnone
    obtain ⟨b, hb, hstops⟩ := (runsTo_iff hgrows).mp h
    exact (hstops.regular_iff hgrows hreturns).mpr fun hoff => hnone b hb ((hbreaks hb).mp hoff)

end Machine

end RegIR
