import RegIR.Proofs.Separation
/-!
# Transfers of values

A load, a store and a return move a value from one place to another, and the types on the two sides
are of one kind.  That is all the machine looks at: it does not compare sizes.  A transfer conveys
its value exactly when the two types have one size, which they do in a program of one registry.
With aggregates of two registries a value can spill over into the place behind its own.
-/

namespace RegIR

/-- The operation moves a value through an address or to the caller. -/
def Operation.transfers : Operation → Bool
  | load .. | store .. | ret _ => true
  | _ => false

namespace Machine

open Memory

/-! ## 1. Sources and destinations -/

/-- The operation at the cursor moves a value of type `t` at stack offset `x`, and no check refuses
it.  The destination holds values of type `u` at stack offset `y`, or is the buffer of the outermost
caller. -/
inductive State.Transfers (s : State) : Operation → Ty → Nat → Ty → Option Nat → Prop
  | load {target pointer : Reg} {t u : Ty} {address : UInt64} {place : Place} {slot : SlotId}
      {y : Nat} (haddress : s.calls.top.readPointer s.stack pointer = .ok address)
      (hplace : s.calls.resolve address u = .ok place)
      (hslot : s.calls.Binds ⟨place.depth, .slot slot⟩ t place.offset) (hkind : t.kind = u.kind)
      (htarget : s.calls.Binds (s.calls.own (.reg target)) u y) :
      Transfers s (.load target pointer) t place.offset u (some y)
  | store {pointer source : Reg} {t u : Ty} {address : UInt64} {place : Place} {slot : SlotId}
      {x : Nat} (haddress : s.calls.top.readPointer s.stack pointer = .ok address)
      (hplace : s.calls.resolve address t = .ok place)
      (hcheck : checkStore s.calls s.stack t source place.depth = .ok ())
      (hsource : s.calls.Binds (s.calls.own (.reg source)) t x)
      (hslot : s.calls.Binds ⟨place.depth, .slot slot⟩ u place.offset) (hkind : t.kind = u.kind) :
      Transfers s (.store pointer source) t x u (some place.offset)
  | ret {value target : Reg} {t u : Ty} {caller : Suspended} {x y : Nat}
      (hcheck : checkReturn s.calls.top s.stack value = .ok ())
      (hback : s.calls.below.back? = some caller) (hawaits : caller.Awaits target)
      (hvalue : s.calls.Binds (s.calls.own (.reg value)) t x)
      (htarget : s.calls.Binds ⟨s.calls.below.size - 1, .reg target⟩ u y) :
      Transfers s (.ret value) t x u (some y)
  | hand {value : Reg} {t : Ty} {x : Nat} (hcheck : checkReturn s.calls.top s.stack value = .ok ())
      (hback : s.calls.below.back? = none)
      (hvalue : s.calls.Binds (s.calls.own (.reg value)) t x) :
      Transfers s (.ret value) t x s.calls.top.code.definition.signature.ret none

/-- The step moves the value from `x` to the destination: both sides have one size, the destination
gets the bytes of the source, and no other byte of the stack changes, but for what a return cuts
off. -/
def Conveys {H : Type} (env : Env H) (s : State) (op : Operation) (t : Ty) (x : Nat) (u : Ty) :
    Option Nat → Prop
  | some y => t.size = u.size ∧ ∃ n s', step env s = .next s' ∧ Copied s.stack n x y t.size.toNat ∧
      (s'.stack = n ∨ ∃ value, op = .ret value ∧ s'.stack = n.cut s.calls.top.argsBase)
  | none => t.size = u.size ∧ ∃ bytes stats, step env s = .returned bytes stats ∧
      bytes.size = u.size.toNat ∧ ∀ k < bytes.size, bytes.data[k]? = s.stack.byte? (x + k)

/-- The step ends the invocation with a fault. -/
def State.Faults {H : Type} (env : Env H) (s : State) : Prop :=
  ∃ f stats, step env s = .halted (.fault f) stats

section Own

variable {s : State} {r : Reg} {t : Ty} {x : Nat}

/-- A register of the running activation, by its type and extent. -/
theorem CallStack.Binds.regExtent? (h : s.calls.Binds (s.calls.own (.reg r)) t x) :
    s.calls.top.code.definition.regType? r = some t ∧
      ∃ e, s.calls.top.code.frame.regExtent? r = some e ∧ x = s.calls.top.frameBase + e.start := by
  have hcell := CallStack.Binds.holds h
  cases hcell with
  | reg ht he => exact ⟨ht, _, he, rfl⟩

theorem Stacked.extent_of_binds {p : Program} (hp : p.Laid) (hs : Stacked p s)
    (h : s.calls.Binds (s.calls.own (.reg r)) t x) :
    s.calls.top.extent r = .ok ⟨x, t.size.toNat⟩ := by
  obtain ⟨ht, e, he, rfl⟩ := h.regExtent?
  rw [extent_of_regExtent? he, (hs.top_framed hp).laid.size_of_reg ht he]

theorem Stacked.exists_binds_reg {p : Program} (hp : p.Laid) (hs : Stacked p s)
    (ht : s.calls.top.code.definition.regType? r = some t) :
    ∃ x, s.calls.Binds (s.calls.own (.reg r)) t x := by
  obtain ⟨e, he, -, -⟩ := (hs.top_framed hp).extent ht
  exact ⟨_, CallStack.binds_own (.reg ht he)⟩

end Own

/-! ## 2. Types on the two sides -/

section Types

variable {p : Program} (hsound : p.Sound) {s : State} (hs : Stacked p s) {op : Operation} {t u : Ty}
  {x : Nat} {dst : Option Nat} (h : s.Transfers op t x u dst)
include hsound hs h

omit hsound in
theorem State.Transfers.mentions : p.Mentions t ∧ p.Mentions u := by
  cases h with
  | load _ _ hslot _ htarget => exact ⟨hs.binds_mentions hslot, hs.binds_mentions htarget⟩
  | store _ _ _ hsource hslot _ => exact ⟨hs.binds_mentions hsource, hs.binds_mentions hslot⟩
  | ret _ _ _ hvalue htarget => exact ⟨hs.binds_mentions hvalue, hs.binds_mentions htarget⟩
  | hand _ _ hvalue =>
    obtain ⟨f, hf⟩ := hs.linked _ _ s.calls.activation?_top
    exact ⟨hs.binds_mentions hvalue, Program.mentions_ret (Program.sig?_of_linked? hf)⟩

/-- The two sides of a transfer have types of one kind. -/
theorem State.Transfers.kind_eq (hop : s.calls.top.operation? = some op) : t.kind = u.kind := by
  obtain ⟨f, hf⟩ := hs.linked _ _ s.calls.activation?_top
  have hty := hsound.wellTyped f _ hf _ _ _ (Activation.operation?_eq_some.mp hop)
  -- A returned register has the kind of the declared result.
  have hreturned : ∀ {value : Reg}, s.calls.Binds (s.calls.own (.reg value)) t x →
      s.calls.top.code.definition.HasKind value s.calls.top.code.definition.signature.ret.kind →
      t.kind = s.calls.top.code.definition.signature.ret.kind := by
    intro value hvalue hkind
    obtain ⟨t', ht', hkind⟩ := hkind
    rw [hvalue.regExtent?.1] at ht'
    cases ht'
    exact hkind
  cases h with
  | load _ _ _ hkind _ => exact hkind
  | store _ _ _ _ _ hkind => exact hkind
  | ret _ hback hawaits hvalue htarget =>
    obtain ⟨target', hawaits', hret⟩ := binds_awaited hsound hs hback
    cases hawaits.unique hawaits'
    obtain ⟨rfl, -⟩ := htarget.unique hret
    exact hreturned hvalue hty
  | hand _ _ hvalue => exact hreturned hvalue hty

end Types

/-! ## 3. Transfers between types of one size -/

/-- The counts of a state when its operation is executed. -/
def State.counted (s : State) : Stats :=
  { s.stats with instructions := s.stats.instructions + 1 }

section Unfolding

variable {H : Type} {env : Env H} {s : State}

theorem step_of_load {target pointer : Reg}
    (hop : s.calls.top.operation? = some (.load target pointer)) :
    step env s = andAdvance s.calls s.counted (execLoad s.calls s.stack target pointer) :=
  step_of_operation? hop

theorem step_of_store {pointer source : Reg}
    (hop : s.calls.top.operation? = some (.store pointer source)) :
    step env s = andAdvance s.calls s.counted (execStore s.calls s.stack pointer source) :=
  step_of_operation? hop

theorem step_of_ret {value : Reg} (hop : s.calls.top.operation? = some (.ret value)) :
    step env s = execReturn s.stack s.calls s.counted value :=
  step_of_operation? hop

end Unfolding

theorem returned_eq_ok {a : Activation} {m : Memory} {value : Reg} {src : Extent} :
    returned a m value = .ok src ↔ a.extent value = .ok src ∧ checkReturn a m value = .ok () := by
  unfold returned
  constructor
  · intro h
    obtain ⟨src', hsrc, h⟩ := Except.bind_eq_ok.mp h
    obtain ⟨⟨⟩, hcheck, h⟩ := Except.bind_eq_ok.mp h
    cases h
    exact ⟨hsrc, hcheck⟩
  · rintro ⟨hsrc, hcheck⟩
    exact Except.bind_eq_ok.mpr ⟨src, hsrc, Except.bind_eq_ok.mpr ⟨(), hcheck, rfl⟩⟩

theorem execReturn_eq_next {H : Type} {m n : Memory} {c : CallStack} {stats : Stats} {value : Reg}
    {src : Extent} {u : Suspended} (hsrc : returned c.top m value = .ok src)
    (hback : c.below.back? = some u) (hcopy : m.copyWithin src.start src.stop u.returnTo = .ok n) :
    execReturn (H := H) m c stats value =
      .next ⟨n.cut c.top.argsBase, ⟨u.caller, c.below.pop⟩, stats⟩ := by
  simp only [execReturn, hsrc, hback, hcopy]

theorem execReturn_eq_returned {H : Type} {m : Memory} {c : CallStack} {stats : Stats}
    {value : Reg} {src : Extent} {bytes : Bytes} (hsrc : returned c.top m value = .ok src)
    (hback : c.below.back? = none) (hbytes : m.area src.start src.stop = .ok bytes) :
    execReturn (H := H) m c stats value = .returned bytes stats := by
  simp only [execReturn, hsrc, hback, hbytes]

section Conveyances

variable {H : Type} {env : Env H} (hsound : env.program.Sound) {s : State}
  (hs : Stacked env.program s) {t u : Ty} {x y : Nat}
include hsound hs

theorem conveys_of_load {target pointer : Reg}
    (hop : s.calls.top.operation? = some (.load target pointer))
    (h : s.Transfers (.load target pointer) t x u (some y)) (hsize : t.size = u.size) :
    Conveys env s (.load target pointer) t x u (some y) := by
  cases h with
  | load haddress hplace hslot _ htarget =>
    have hin := hs.binds_within hsound.laid hslot
    have hout := hs.binds_within hsound.laid htarget
    rw [hsize] at hin
    obtain ⟨n, hn, hcopied⟩ := exists_copied hin hout
    have hexec : execLoad s.calls s.stack target pointer = .ok n := by
      unfold execLoad
      refine Except.bind_eq_ok.mpr ⟨u, Activation.typeOf_eq_ok.mpr htarget.regExtent?.1, ?_⟩
      refine Except.bind_eq_ok.mpr ⟨_, haddress, Except.bind_eq_ok.mpr ⟨_, hplace, ?_⟩⟩
      exact Except.bind_eq_ok.mpr ⟨_, hs.extent_of_binds hsound.laid htarget, moved_eq_ok.mpr hn⟩
    have hstep : step env s = .next ⟨n, s.calls.advance, s.counted⟩ := by
      rw [step_of_load hop, hexec]
      rfl
    exact ⟨hsize, n, _, hstep, hsize ▸ hcopied, Or.inl rfl⟩

theorem conveys_of_store {pointer source : Reg}
    (hop : s.calls.top.operation? = some (.store pointer source))
    (h : s.Transfers (.store pointer source) t x u (some y)) (hsize : t.size = u.size) :
    Conveys env s (.store pointer source) t x u (some y) := by
  cases h with
  | store haddress hplace hcheck hsource hslot _ =>
    have hin := hs.binds_within hsound.laid hsource
    have hout := hs.binds_within hsound.laid hslot
    rw [← hsize] at hout
    obtain ⟨n, hn, hcopied⟩ := exists_copied hin hout
    have hexec : execStore s.calls s.stack pointer source = .ok n := by
      unfold execStore
      refine Except.bind_eq_ok.mpr ⟨t, Activation.typeOf_eq_ok.mpr hsource.regExtent?.1, ?_⟩
      refine Except.bind_eq_ok.mpr ⟨_, haddress, Except.bind_eq_ok.mpr ⟨_, hplace, ?_⟩⟩
      refine Except.bind_eq_ok.mpr ⟨(), hcheck, ?_⟩
      exact Except.bind_eq_ok.mpr ⟨_, hs.extent_of_binds hsound.laid hsource, moved_eq_ok.mpr hn⟩
    have hstep : step env s = .next ⟨n, s.calls.advance, s.counted⟩ := by
      rw [step_of_store hop, hexec]
      rfl
    exact ⟨hsize, n, _, hstep, hcopied, Or.inl rfl⟩

theorem conveys_of_ret {value : Reg} (hop : s.calls.top.operation? = some (.ret value))
    (h : s.Transfers (.ret value) t x u (some y)) (hsize : t.size = u.size) :
    Conveys env s (.ret value) t x u (some y) := by
  cases h with
  | ret hcheck hback hawaits hvalue htarget =>
    have hin := hs.binds_within hsound.laid hvalue
    have hout := hs.binds_within hsound.laid htarget
    rw [← hsize] at hout
    obtain ⟨n, hn, hcopied⟩ := exists_copied hin hout
    -- The result goes where the call said that it should.
    obtain ⟨target', hawaits', hret⟩ := binds_awaited hsound hs hback
    cases hawaits.unique hawaits'
    obtain ⟨-, rfl⟩ := htarget.unique hret
    have hreturned := returned_eq_ok.mpr ⟨hs.extent_of_binds hsound.laid hvalue, hcheck⟩
    exact ⟨hsize, n, _, (step_of_ret hop).trans (execReturn_eq_next hreturned hback hn), hcopied,
      Or.inr ⟨value, rfl, rfl⟩⟩

theorem conveys_of_hand {value : Reg} (hop : s.calls.top.operation? = some (.ret value))
    (h : s.Transfers (.ret value) t x u none) (hsize : t.size = u.size) :
    Conveys env s (.ret value) t x u none := by
  cases h with
  | hand hcheck hback hvalue =>
    have hin := hs.binds_within hsound.laid hvalue
    obtain ⟨bytes, hbytes⟩ : ∃ bytes, s.stack.area x (x + t.size.toNat) = .ok bytes := by
      unfold area
      rw [if_pos hin]
      exact ⟨_, rfl⟩
    have hlen : bytes.size = t.size.toNat := by
      rw [size_of_area (Nat.le_add_right _ _) hbytes, Nat.add_sub_cancel_left]
    have hreturned := returned_eq_ok.mpr ⟨hs.extent_of_binds hsound.laid hvalue, hcheck⟩
    refine ⟨hsize, bytes, _,
      (step_of_ret hop).trans (execReturn_eq_returned hreturned hback hbytes),
      hlen.trans (congrArg _ hsize), ?_⟩
    intro k hk
    rw [getElem?_of_area hbytes, if_pos (by omega)]

/-- A transfer conveys its value exactly when the types on its two sides have one size. -/
theorem conveys_iff {op : Operation} {dst : Option Nat}
    (hop : s.calls.top.operation? = some op) (h : s.Transfers op t x u dst) :
    Conveys env s op t x u dst ↔ t.size = u.size := by
  constructor
  · intro hconveys
    cases dst with
    | none => exact hconveys.1
    | some y => exact hconveys.1
  · intro hsize
    cases id h with
    | load => exact conveys_of_load hsound hs hop h hsize
    | store => exact conveys_of_store hsound hs hop h hsize
    | ret => exact conveys_of_ret hsound hs hop h hsize
    | hand => exact conveys_of_hand hsound hs hop h hsize

end Conveyances

/-! ## 4. Refused transfers -/

/-- Only faults are raised. -/
def FaultsOnly {α : Type} (x : Exec α) : Prop := ∀ h, x = .error h → ∃ f, h = .fault f

theorem FaultsOnly.bind {α β : Type} {x : Exec α} {f : α → Exec β} (hx : FaultsOnly x)
    (hf : ∀ a, FaultsOnly (f a)) : FaultsOnly (x >>= f) := by
  intro h hbind
  cases x with
  | error e =>
    obtain ⟨fault, rfl⟩ := hx e rfl
    cases hbind
    exact ⟨fault, rfl⟩
  | ok a => exact hf a h hbind

theorem faultsOnly_ok {α : Type} (a : α) : FaultsOnly (.ok a) := fun _ h => by cases h

theorem faultsOnly_fault {α : Type} (f : Fault) : FaultsOnly (.error (.fault f) : Exec α) := by
  intro h heq
  cases heq
  exact ⟨f, rfl⟩

section Checks

variable {a : Activation} {m : Memory} {r : Reg} {c : CallStack}

theorem faultsOnly_extent : FaultsOnly (a.extent r) := by
  unfold Activation.extent
  split
  · exact faultsOnly_fault _
  · exact faultsOnly_ok _

theorem faultsOnly_readPointer : FaultsOnly (a.readPointer m r) := by
  refine faultsOnly_extent.bind fun e => ?_
  split
  · exact faultsOnly_fault _
  · exact faultsOnly_ok _

theorem faultsOnly_resolve {address : UInt64} {t : Ty} : FaultsOnly (c.resolve address t) := by
  intro h hr
  rcases CallStack.error_of_resolve hr with rfl | ⟨expected, rfl⟩
  · exact ⟨_, rfl⟩
  · exact ⟨_, rfl⟩

theorem faultsOnly_checkStore {t : Ty} {depth : Nat} : FaultsOnly (checkStore c m t r depth) := by
  unfold checkStore
  split
  · refine faultsOnly_readPointer.bind fun w => ?_
    split
    · exact faultsOnly_fault _
    · exact faultsOnly_ok _
  · exact faultsOnly_ok _

theorem faultsOnly_checkReturn : FaultsOnly (checkReturn a m r) := by
  refine .bind ?_ fun t => ?_
  · unfold Activation.typeOf
    split
    · exact faultsOnly_fault _
    · exact faultsOnly_ok _
  · split
    · refine faultsOnly_readPointer.bind fun w => ?_
      split
      · exact faultsOnly_ok _
      · split
        · exact faultsOnly_fault _
        · exact faultsOnly_ok _
    · exact faultsOnly_ok _

end Checks

section Refusals

variable {H : Type} {env : Env H} (hsound : env.program.Sound) {s : State}
  (hs : Stacked env.program s)
include hsound hs

theorem faults_or_transfers_load {target pointer : Reg}
    (hop : s.calls.top.operation? = some (.load target pointer)) {u : Ty}
    (hu : s.calls.top.code.definition.regType? target = some u) :
    s.Faults env ∨ ∃ t x u dst, s.Transfers (.load target pointer) t x u dst := by
  have htype := Activation.typeOf_eq_ok.mpr hu
  obtain ⟨y, htarget⟩ := hs.exists_binds_reg hsound.laid hu
  cases haddress : s.calls.top.readPointer s.stack pointer with
  | error h =>
    obtain ⟨f, rfl⟩ := faultsOnly_readPointer h haddress
    refine Or.inl ⟨f, s.counted, ?_⟩
    rw [step_of_load hop]
    simp only [execLoad, htype, haddress, bind, Except.bind, andAdvance]
  | ok address =>
    cases hplace : s.calls.resolve address u with
    | error h =>
      obtain ⟨f, rfl⟩ := faultsOnly_resolve h hplace
      refine Or.inl ⟨f, s.counted, ?_⟩
      rw [step_of_load hop]
      simp only [execLoad, htype, haddress, hplace, bind, Except.bind, andAdvance]
    | ok place =>
      obtain ⟨slot, t, hslot, hkind⟩ := CallStack.exists_slot_of_resolve hplace
      exact Or.inr ⟨t, _, u, _, .load haddress hplace hslot hkind htarget⟩

theorem faults_or_transfers_store {pointer source : Reg}
    (hop : s.calls.top.operation? = some (.store pointer source)) {t : Ty}
    (ht : s.calls.top.code.definition.regType? source = some t) :
    s.Faults env ∨ ∃ t x u dst, s.Transfers (.store pointer source) t x u dst := by
  have htype := Activation.typeOf_eq_ok.mpr ht
  obtain ⟨x, hsource⟩ := hs.exists_binds_reg hsound.laid ht
  cases haddress : s.calls.top.readPointer s.stack pointer with
  | error h =>
    obtain ⟨f, rfl⟩ := faultsOnly_readPointer h haddress
    refine Or.inl ⟨f, s.counted, ?_⟩
    rw [step_of_store hop]
    simp only [execStore, htype, haddress, bind, Except.bind, andAdvance]
  | ok address =>
    cases hplace : s.calls.resolve address t with
    | error h =>
      obtain ⟨f, rfl⟩ := faultsOnly_resolve h hplace
      refine Or.inl ⟨f, s.counted, ?_⟩
      rw [step_of_store hop]
      simp only [execStore, htype, haddress, hplace, bind, Except.bind, andAdvance]
    | ok place =>
      cases hcheck : checkStore s.calls s.stack t source place.depth with
      | error h =>
        obtain ⟨f, rfl⟩ := faultsOnly_checkStore h hcheck
        refine Or.inl ⟨f, s.counted, ?_⟩
        rw [step_of_store hop]
        simp only [execStore, htype, haddress, hplace, hcheck, bind, Except.bind, andAdvance]
      | ok =>
        obtain ⟨slot, u, hslot, hkind⟩ := CallStack.exists_slot_of_resolve hplace
        exact Or.inr ⟨t, x, u, _, .store haddress hplace hcheck hsource hslot hkind.symm⟩

theorem faults_or_transfers_ret {value : Reg}
    (hop : s.calls.top.operation? = some (.ret value)) {t : Ty}
    (ht : s.calls.top.code.definition.regType? value = some t) :
    s.Faults env ∨ ∃ t x u dst, s.Transfers (.ret value) t x u dst := by
  obtain ⟨x, hvalue⟩ := hs.exists_binds_reg hsound.laid ht
  cases hcheck : checkReturn s.calls.top s.stack value with
  | error h =>
    obtain ⟨f, rfl⟩ := faultsOnly_checkReturn h hcheck
    have hext := hs.extent_of_binds hsound.laid hvalue
    have hreturned : returned s.calls.top s.stack value = .error (.fault f) := by
      simp only [returned, hext, hcheck, bind, Except.bind]
    refine Or.inl ⟨f, s.counted, ?_⟩
    rw [step_of_ret hop]
    simp only [execReturn, hreturned]
  | ok =>
    cases hback : s.calls.below.back? with
    | none => exact Or.inr ⟨t, x, _, none, .hand hcheck hback hvalue⟩
    | some caller =>
      obtain ⟨target, hawaits, htarget⟩ := binds_awaited hsound hs hback
      exact Or.inr ⟨t, x, _, _, .ret hcheck hback hawaits hvalue htarget⟩

/-- A load, a store or a return faults, or no check refuses it. -/
theorem faults_or_transfers {op : Operation} (hop : s.calls.top.operation? = some op)
    (h : op.transfers = true) : s.Faults env ∨ ∃ t x u dst, s.Transfers op t x u dst := by
  obtain ⟨f, hf⟩ := hs.linked _ _ s.calls.activation?_top
  have hty := hsound.wellTyped f _ hf _ _ _ (Activation.operation?_eq_some.mp hop)
  cases op with
  | load target pointer =>
    obtain ⟨⟨u, hu⟩, -⟩ := hty
    exact faults_or_transfers_load hsound hs hop hu
  | store pointer source =>
    obtain ⟨-, t, ht⟩ := hty
    exact faults_or_transfers_store hsound hs hop ht
  | ret value =>
    obtain ⟨t, ht, -⟩ := hty
    exact faults_or_transfers_ret hsound hs hop ht
  | _ => cases h

end Refusals

/-! ## 5. Every transfer -/

/-- In every state of an invocation, a load, a store or a return faults, or it moves a value between
types of one kind, and it conveys the value exactly when the two types have one size.  In a program
of one registry they are one type. -/
theorem transfer_conveys_iff {H : Type} {env : Env H} {m : Module} (hbuilt : m.Built)
    (hm : m.finalize = .ok env.program) {f : FuncId} {args : List Bytes} {returnSize : Nat}
    {stats : Stats} {s₀ s : State} (henter : enter env.program f args returnSize stats = .ok s₀)
    (h : Reaches env s₀ s) {op : Operation} (hop : s.calls.top.operation? = some op)
    (htransfers : op.transfers = true) :
    (s.Faults env ∨ ∃ t x u dst, s.Transfers op t x u dst) ∧
    ∀ t x u dst, s.Transfers op t x u dst →
      t.kind = u.kind ∧ (env.program.OneRegistry → t = u) ∧
        (dst = none → u.size.toNat = returnSize) ∧
        (Conveys env s op t x u dst ↔ t.size = u.size) := by
  have hsound := hbuilt.sound.finalize hm
  have hs₀ := Stacked.of_enter hsound.laid henter
  have hs := hs₀.reaches hsound.laid h
  refine ⟨faults_or_transfers hsound hs hop htransfers, ?_⟩
  intro t x u dst htransfer
  have hkind := htransfer.kind_eq hsound hs hop
  refine ⟨hkind, ?_, ?_, conveys_iff hsound hs hop htransfer⟩
  · intro hone
    obtain ⟨ht, hu⟩ := htransfer.mentions hs
    exact hone.eq_of_kind ht hu hkind
  · -- What goes to the outside is returned by the function that the invocation started with.
    rintro rfl
    cases htransfer with
    | hand _ hback _ =>
      obtain ⟨c, a, -, hret, -, hcalls, hentered, -⟩ := entered_of_enter hsound.laid henter
      have hempty : s.calls.below = #[] := by simpa using hback
      have htop : s.calls.activation? 0 = some s.calls.top := by
        have htop := s.calls.activation?_top
        rwa [hempty] at htop
      have hroot : s₀.calls.activation? 0 = some a := by
        rw [hcalls]
        rfl
      rw [hs₀.code_of_reaches hsound.laid h hroot htop, hentered.code]
      exact hret.symm

/-- The load behind the call of `probe` conveys its value. -/
theorem transfer_conveys_iff_probing :
    ∃ s₀ s t x u dst, enter probingEnv.program ⟨1⟩ [] 4 .zero = .ok s₀ ∧ Reaches probingEnv s₀ s ∧
      s.Transfers (.load ⟨3⟩ ⟨0⟩) t x u dst ∧ Conveys probingEnv s (.load ⟨3⟩ ⟨0⟩) t x u dst := by
  obtain ⟨s₀, s, t', henter, hs, hop, ht, -⟩ := run_probing
  have hreach := reaches_of_addressable (reachesAddressable_of_after? hs)
  obtain ⟨hcan, hiff⟩ :=
    transfer_conveys_iff ⟨_, rfl⟩ finalize_probing henter hreach hop rfl
  have hgoes : ¬ s.Faults probingEnv := by
    rintro ⟨f, stats, hfault⟩
    rw [after?, hfault] at ht
    cases ht
  obtain ⟨t, x, u, dst, htransfer⟩ := hcan.resolve_left hgoes
  obtain ⟨-, heq, -, hconveys⟩ := hiff t x u dst htransfer
  exact ⟨s₀, s, t, x, u, dst, henter, hreach, htransfer,
    hconveys.mpr (congrArg Ty.size (heq oneRegistry_probing))⟩

/-! ## 6. A value that spills over -/

/-- The first aggregate of one registry, and that of another. -/
def narrowTy : Ty := { Ty.int with kind := .struct 1 }

def wideTy : Ty := { narrowTy with size := 8 }

/-- The function `wide` is declared with the one type and returns the other. -/
def mixing : Module :=
  (Draft.empty.run
    [.defineStruct 8 4, .declare ⟨"wide", [], narrowTy⟩, .declare ⟨"main", [], .int⟩,
      .select ⟨0⟩, .body .openBlock, .body (.stackAlloc wideTy), .body (.load ⟨0⟩ wideTy),
      .body (.ret ⟨1⟩),
      .select ⟨1⟩, .body .openBlock, .body .openBlock, .body (.call ⟨0⟩ []), .body (.switchTo ⟨0⟩),
      .body (.literal 7), .body (.branch ⟨1⟩), .body (.switchTo ⟨1⟩), .body (.ret ⟨1⟩)]).2.module

def wideCode : Code where
  definition := ⟨⟨"wide", [], narrowTy⟩,
    #[#[.stackAlloc ⟨0⟩ ⟨0⟩, .load ⟨1⟩ ⟨0⟩, .ret ⟨1⟩]], #[.pointer, wideTy], #[wideTy]⟩
  frame := ⟨⟨#[⟨0, 8⟩, ⟨8, 8⟩, ⟨16, 8⟩], 24, 8⟩, 2⟩
  args := ⟨#[], 0, 1⟩

def mixingMain : Code where
  definition := ⟨⟨"main", [], .int⟩,
    #[#[.literal ⟨1⟩ 7, .branch ⟨1⟩], #[.call ⟨0⟩ ⟨0⟩ [], .ret ⟨1⟩]], #[narrowTy, .int], #[]⟩
  frame := ⟨⟨#[⟨0, 4⟩, ⟨4, 4⟩], 8, 4⟩, 2⟩
  args := ⟨#[], 0, 1⟩

def mixingEnv : Env Unit where
  program := ⟨#[.code wideCode, .code mixingMain]⟩
  maxCallDepth := none
  host? _ := none

theorem finalize_mixing : mixing.finalize = .ok mixingEnv.program :=
  Module.finalize_eq_ok_iff.mpr ⟨by decide +kernel, by cbv, by decide +kernel⟩

theorem run_mixing : ∃ s₀ s t, enter mixingEnv.program ⟨1⟩ [] 4 .zero = .ok s₀ ∧
    after? mixingEnv 5 s₀ = some s ∧ after? mixingEnv 1 s = some t ∧
    s.calls = ⟨⟨wideCode, 16, 16, 0, 2⟩, #[⟨⟨mixingMain, 0, 0, 1, 1⟩, 0⟩]⟩ ∧
    s.stack.byte? 4 = some 7 ∧ t.stack.byte? 4 = some 0 := by
  have hrun : (enter mixingEnv.program ⟨1⟩ [] 4 .zero).toOption.any (fun s₀ =>
      (after? mixingEnv 5 s₀).any fun s => (after? mixingEnv 1 s).any fun t =>
        decide (s.calls = ⟨⟨wideCode, 16, 16, 0, 2⟩, #[⟨⟨mixingMain, 0, 0, 1, 1⟩, 0⟩]⟩ ∧
          s.stack.byte? 4 = some 7 ∧ t.stack.byte? 4 = some 0)) = true := by decide +kernel
  obtain ⟨s₀, h₀, hrun⟩ := (Option.any_eq_true _ _).mp hrun
  obtain ⟨s, hs, hrun⟩ := (Option.any_eq_true _ _).mp hrun
  obtain ⟨t, ht, hrun⟩ := (Option.any_eq_true _ _).mp hrun
  obtain ⟨hcalls, hbefore, hafter⟩ := of_decide_eq_true hrun
  exact ⟨s₀, s, t, Except.toOption_eq_some.mp h₀, hs, ht, hcalls, hbefore, hafter⟩

/-- The return of `wide` writes eight bytes to a register of four, and the register behind it loses
its value. -/
theorem spills_mixing :
    (∃ r, Registry.empty.define 4 4 = .ok (narrowTy, r)) ∧
    (∃ r, Registry.empty.define 8 4 = .ok (wideTy, r)) ∧
    (∀ l ∈ mixingEnv.program.functions.toList, ∀ t ∈ l.function.types,
      t ∈ [.int, .pointer, narrowTy, wideTy]) ∧
    mixing.Built ∧ mixing.finalize = .ok mixingEnv.program ∧
    ∃ s₀ s t, enter mixingEnv.program ⟨1⟩ [] 4 .zero = .ok s₀ ∧ Reaches mixingEnv s₀ s ∧
      s.calls.top.operation? = some (.ret ⟨1⟩) ∧
      s.Transfers (.ret ⟨1⟩) wideTy 24 narrowTy (some 0) ∧
      ¬ Conveys mixingEnv s (.ret ⟨1⟩) wideTy 24 narrowTy (some 0) ∧ Advances mixingEnv s t ∧
      s.stack.byte? 4 = some 7 ∧ t.stack.byte? 4 = some 0 := by
  obtain ⟨s₀, s, t, henter, hs, ht, hcalls, hbefore, hafter⟩ := run_mixing
  have hvalue : s.calls.Binds (s.calls.own (.reg ⟨1⟩)) wideTy (16 + 8) := by
    rw [hcalls]
    exact CallStack.binds_own (.reg (e := ⟨8, 8⟩) rfl rfl)
  have htarget : s.calls.Binds ⟨s.calls.below.size - 1, .reg ⟨0⟩⟩ narrowTy (0 + 0) := by
    rw [hcalls]
    exact ⟨_, rfl, .reg (e := ⟨0, 4⟩) rfl rfl⟩
  have hback : s.calls.below.back? = some ⟨⟨mixingMain, 0, 0, 1, 1⟩, 0⟩ := by
    rw [hcalls]
    rfl
  have hawaits : (⟨⟨mixingMain, 0, 0, 1, 1⟩, 0⟩ : Suspended).Awaits ⟨0⟩ :=
    ⟨0, ⟨0⟩, [], rfl, _, rfl, rfl⟩
  have hcheck : checkReturn s.calls.top s.stack ⟨1⟩ = .ok () := by
    rw [hcalls]
    rfl
  refine ⟨⟨_, rfl⟩, ⟨_, rfl⟩, by decide, ⟨_, rfl⟩, finalize_mixing, s₀, s, t, henter,
    reaches_of_addressable (reachesAddressable_of_after? hs), ?_,
    .ret hcheck hback hawaits hvalue htarget, ?_, (advances_of_after? ht).1, hbefore, hafter⟩
  · rw [hcalls]
    rfl
  · intro hconveys
    exact absurd hconveys.1 (by decide)

end Machine

end RegIR
