import RegIR.Proofs.Pointers
/-!
# Variables

The arguments, registers and slots of the live activations are variables in one shared memory.  A
step assigns at most one of them, as a whole, and leaves every other byte of the stack alone.  A
call adds the variables of the callee, with the passed values in its arguments and zeros in its
frame; a return takes them away again.
-/

namespace RegIR.Machine

open Memory

/-! ## 1. Variables and their places -/

/-- A cell of the live activation that has a number of older ones. -/
structure Variable where
  depth : Nat
  cell : Cell
  deriving DecidableEq, Repr

namespace CallStack

/-- The variable holds values of type `t` at stack offset `x`. -/
def Binds (c : CallStack) (v : Variable) (t : Ty) (x : Nat) : Prop :=
  ∃ a, c.activation? v.depth = some a ∧ a.Holds v.cell t x

/-- The variable in a cell of the running activation. -/
def own (c : CallStack) (cell : Cell) : Variable := ⟨c.below.size, cell⟩

variable {c : CallStack} {v : Variable} {t u : Ty} {x y : Nat}

theorem binds_own {cell : Cell} (h : c.top.Holds cell t x) : c.Binds (c.own cell) t x :=
  ⟨c.top, c.activation?_top, h⟩

theorem Binds.holds {cell : Cell} (h : c.Binds (c.own cell) t x) : c.top.Holds cell t x := by
  obtain ⟨a, ha, hcell⟩ := h
  rw [own, activation?_top] at ha
  cases ha
  exact hcell

theorem Binds.unique (h : c.Binds v t x) (h' : c.Binds v u y) : t = u ∧ x = y := by
  obtain ⟨a, ha, hcell⟩ := h
  obtain ⟨b, hb, hcell'⟩ := h'
  rw [ha] at hb
  cases hb
  exact hcell.unique hcell'

theorem Binds.depth_le (h : c.Binds v t x) : v.depth ≤ c.below.size := by
  obtain ⟨a, ha, -⟩ := h
  exact le_of_activation? ha

end CallStack

namespace Stacked

variable {p : Program} {s : State} {v w : Variable} {t u : Ty} {x y : Nat}

theorem binds_mentions (hs : Stacked p s) (h : s.calls.Binds v t x) : p.Mentions t := by
  obtain ⟨a, ha, hcell⟩ := h
  obtain ⟨f, hf⟩ := hs.linked _ a ha
  exact hcell.mentions hf

theorem binds_within (hp : p.Laid) (hs : Stacked p s) (h : s.calls.Binds v t x) :
    x + t.size.toNat ≤ s.stack.size := by
  obtain ⟨a, ha, hcell⟩ := h
  exact Nat.le_trans (hs.holds_within hp ha hcell).2 (hs.within _ a ha)

/-- Two variables do not overlap. -/
theorem binds_apart (hp : p.Laid) (hs : Stacked p s) (h : s.calls.Binds v t x)
    (h' : s.calls.Binds w u y) (hne : v ≠ w) : x + t.size.toNat ≤ y ∨ y + u.size.toNat ≤ x := by
  obtain ⟨a, ha, hcell⟩ := h
  obtain ⟨b, hb, hcell'⟩ := h'
  refine hs.cells_apart hp ha hb hcell hcell' ?_
  by_cases hdepth : v.depth = w.depth
  · refine Or.inr fun heq => hne ?_
    cases v
    cases w
    cases hdepth
    cases heq
    rfl
  · exact Or.inl hdepth

end Stacked

section Keeping

variable {p : Program} {s t : State} {v : Variable} {u : Ty} {x : Nat}

theorem Activation.SameFrame.symm {a b : Activation} (h : a.SameFrame b) : b.SameFrame a :=
  ⟨h.code.symm, h.argsBase.symm, h.frameBase.symm⟩

/-- A variable that a step keeps alive keeps its type and its place. -/
theorem Next.binds (hn : Next p s t) (h : s.calls.Binds v u x)
    (hd : v.depth ≤ t.calls.below.size) : t.calls.Binds v u x := by
  obtain ⟨a, ha, hcell⟩ := h
  obtain ⟨b, hb⟩ := CallStack.exists_activation? hd
  exact ⟨b, hb, hcell.of_sameFrame (hn.sameFrame ha hb).symm⟩

theorem Next.binds_before (hn : Next p s t) (h : t.calls.Binds v u x)
    (hd : v.depth ≤ s.calls.below.size) : s.calls.Binds v u x := by
  obtain ⟨b, hb, hcell⟩ := h
  obtain ⟨a, ha⟩ := CallStack.exists_activation? hd
  exact ⟨a, ha, hcell.of_sameFrame (hn.sameFrame ha hb)⟩

end Keeping

/-! ## 2. What an operation copies -/

/-- An access with type `t` through the address in a register lands on the slot. -/
inductive State.Accesses (s : State) (pointer : Reg) (t : Ty) : Variable → Prop
  | intro {address : UInt64} {place : Place} {slot : SlotId} {u : Ty}
      (haddress : s.calls.top.readPointer s.stack pointer = .ok address)
      (hplace : s.calls.resolve address t = .ok place)
      (hslot : s.calls.Binds ⟨place.depth, .slot slot⟩ u place.offset) (hkind : u.kind = t.kind) :
      Accesses s pointer t ⟨place.depth, .slot slot⟩

/-- A resolved place is the start of a slot of the asked kind. -/
theorem CallStack.exists_slot_of_resolve {c : CallStack} {t : Ty} {address : UInt64} {place : Place}
    (h : c.resolve address t = .ok place) :
    ∃ slot u, c.Binds ⟨place.depth, .slot slot⟩ u place.offset ∧ u.kind = t.kind := by
  obtain ⟨hlive, -, hslot, hkind, hoffset⟩ := resolves_of_resolve h
  rename_i owner u slot e
  refine ⟨slot, u, ⟨owner, hlive, ?_⟩, hkind⟩
  rw [hoffset]
  exact .slot hslot.type hslot.extent

/-- An access that is not refused lands on a slot. -/
theorem State.exists_access {s : State} {pointer : Reg} {t : Ty} {address : UInt64} {place : Place}
    (haddress : s.calls.top.readPointer s.stack pointer = .ok address)
    (hplace : s.calls.resolve address t = .ok place) :
    ∃ v u, s.Accesses pointer t v ∧ s.calls.Binds v u place.offset ∧ u.kind = t.kind := by
  obtain ⟨slot, u, hbinds, hkind⟩ := CallStack.exists_slot_of_resolve hplace
  exact ⟨_, u, ⟨haddress, hplace, hbinds, hkind⟩, hbinds, hkind⟩

theorem State.Accesses.depth_le {s : State} {pointer : Reg} {t : Ty} {v : Variable}
    (h : s.Accesses pointer t v) : v.depth ≤ s.calls.below.size := by
  obtain ⟨-, -, hslot, -⟩ := h
  exact hslot.depth_le

/-- Two slots that one access lands on start at one place and are of one kind. -/
theorem State.Accesses.place_unique {s : State} {pointer : Reg} {t u u' : Ty} {v v' : Variable}
    {x x' : Nat} (h : s.Accesses pointer t v) (h' : s.Accesses pointer t v')
    (hv : s.calls.Binds v u x) (hv' : s.calls.Binds v' u' x') : x = x' ∧ u.kind = u'.kind := by
  obtain ⟨haddress, hplace, hslot, hkind⟩ := h
  obtain ⟨haddress', hplace', hslot', hkind'⟩ := h'
  rw [haddress] at haddress'
  cases haddress'
  rw [hplace] at hplace'
  cases hplace'
  obtain ⟨rfl, rfl⟩ := hv.unique hslot
  obtain ⟨rfl, rfl⟩ := hv'.unique hslot'
  exact ⟨rfl, hkind.trans hkind'.symm⟩

/-- The waiting activation stands behind a call, whose result goes to the register. -/
def Suspended.Awaits (u : Suspended) (target : Reg) : Prop :=
  ∃ pos callee args, u.caller.pos = pos + 1 ∧
    u.caller.code.definition.OpAt u.caller.block pos (.call target callee args)

theorem Suspended.Awaits.unique {u : Suspended} {r r' : Reg} (h : u.Awaits r) (h' : u.Awaits r') :
    r = r' := by
  obtain ⟨pos, callee, args, hpos, b, hb, hop⟩ := h
  obtain ⟨pos', callee', args', hpos', b', hb', hop'⟩ := h'
  rw [hb] at hb'
  cases hb'
  rw [show pos' = pos by omega, hop] at hop'
  cases hop'
  rfl

/-- The operation at the cursor copies one variable to another.  Only the arguments of a callee are
not there yet. -/
inductive State.Copies (p : Program) (s : State) : Operation → Variable → Variable → Prop
  | readArg (target : Reg) (index : Nat) :
      Copies p s (.readArg target index) (s.calls.own (.arg index)) (s.calls.own (.reg target))
  | load {target pointer : Reg} {t : Ty} {v : Variable}
      (ht : s.calls.top.code.definition.regType? target = some t)
      (h : s.Accesses pointer t v) :
      Copies p s (.load target pointer) v (s.calls.own (.reg target))
  | store {pointer source : Reg} {t : Ty} {v : Variable}
      (ht : s.calls.top.code.definition.regType? source = some t)
      (h : s.Accesses pointer t v) :
      Copies p s (.store pointer source) (s.calls.own (.reg source)) v
  | pass {target : Reg} {callee : FuncId} {args : List Reg} {c : Code} {i : Nat} {r : Reg}
      (hc : p.linked? callee = some (.code c)) (hr : args[i]? = some r) :
      Copies p s (.call target callee args) (s.calls.own (.reg r))
        ⟨s.calls.below.size + 1, .arg i⟩
  | ret {value target : Reg} {u : Suspended} (hback : s.calls.below.back? = some u)
      (hawaits : u.Awaits target) (hcheck : checkReturn s.calls.top s.stack value = .ok ()) :
      Copies p s (.ret value) (s.calls.own (.reg value)) ⟨s.calls.below.size - 1, .reg target⟩

/-- Two copies of one operation have the same source and the same destination, up to slots at one
place. -/
theorem State.Copies.place_unique {p : Program} {s : State} {op : Operation} {v v' w w' : Variable}
    {u u' : Ty} {x x' y y' : Nat} (h : s.Copies p op v w) (h' : s.Copies p op v' w')
    (hv : s.calls.Binds v u x) (hw : s.calls.Binds w u y) (hv' : s.calls.Binds v' u' x')
    (hw' : s.calls.Binds w' u' y') : u = u' ∧ x = x' ∧ y = y' := by
  cases h with
  | readArg target index =>
    cases h'
    obtain ⟨rfl, rfl⟩ := hv.unique hv'
    exact ⟨rfl, rfl, (hw.unique hw').2⟩
  | load ht haccess =>
    cases h' with
    | load ht' haccess' =>
      rw [ht] at ht'
      cases ht'
      obtain ⟨rfl, rfl⟩ := hw.unique hw'
      exact ⟨rfl, (haccess.place_unique haccess' hv hv').1, rfl⟩
  | store ht haccess =>
    cases h' with
    | store ht' haccess' =>
      rw [ht] at ht'
      cases ht'
      obtain ⟨rfl, rfl⟩ := hv.unique hv'
      exact ⟨rfl, rfl, (haccess.place_unique haccess' hw hw').1⟩
  | pass hc hr =>
    -- The arguments of a callee are not live before the call.
    have hle := hw.depth_le
    dsimp only at hle
    omega
  | ret hback hawaits hcheck =>
    cases h' with
    | ret hback' hawaits' hcheck' =>
      rw [hback] at hback'
      cases hback'
      cases hawaits.unique hawaits'
      obtain ⟨rfl, rfl⟩ := hv.unique hv'
      exact ⟨rfl, rfl, (hw.unique hw').2⟩

/-! ## 3. What a step does to the variables -/

/-- The step keeps every byte of the stack outside an area, but may cut its end off, and starts no
activation. -/
structure State.KeepsOutside (s t : State) (start len : Nat) : Prop where
  depth : t.calls.below.size ≤ s.calls.below.size
  size : t.stack.size ≤ s.stack.size
  byte : ∀ k < t.stack.size, k < start ∨ start + len ≤ k → t.stack.byte? k = s.stack.byte? k

namespace State.KeepsOutside

variable {s t : State} {start len : Nat}

theorem of_agreeOutside (hdepth : t.calls.below.size = s.calls.below.size)
    (h : AgreeOutside s.stack t.stack start len) : s.KeepsOutside t start len :=
  ⟨Nat.le_of_eq hdepth, Nat.le_of_eq h.size, fun k _ hk => h.byte k hk⟩

theorem sameArea (h : s.KeepsOutside t start len) {i size : Nat}
    (hi : i + size ≤ start ∨ start + len ≤ i) (ht : i + size ≤ t.stack.size) :
    SameArea t.stack s.stack i i size := by
  intro k hk
  exact h.byte (i + k) (by omega) (by omega)

end State.KeepsOutside

/-- What the operation at the cursor does to the variables when it leads from `s` to `t`. -/
inductive Effect (p : Program) (s t : State) (op : Operation) : Prop
  /-- One variable gets the bytes of another. -/
  | copy {v w : Variable} {u : Ty} {x y : Nat} (h : s.Copies p op v w) (hv : s.calls.Binds v u x)
      (hw : s.calls.Binds w u y) (hsame : SameArea t.stack s.stack y x u.size.toNat)
      (hrest : s.KeepsOutside t y u.size.toNat) : Effect p s t op
  /-- The target gets a computed integer. -/
  | int {target : Reg} {x : Nat} {w : UInt32} (h : op.IntTo p target)
      (htarget : s.calls.Binds (s.calls.own (.reg target)) .int x)
      (hword : t.stack.word32? x = some w) (hrest : s.KeepsOutside t x 4) :
      Effect p s t op
  /-- The target gets the address of a slot. -/
  | address {target : Reg} {slot : SlotId} {u : Ty} {x y : Nat} (h : op = .stackAlloc target slot)
      (htarget : s.calls.Binds (s.calls.own (.reg target)) .pointer x)
      (hslot : s.calls.Binds (s.calls.own (.slot slot)) u y)
      (hword : t.stack.word64? x = some (addressOf y)) (hrest : s.KeepsOutside t x 8) :
      Effect p s t op
  | jump {b : BlockId} (h : b ∈ op.successors)
      (hdepth : t.calls.below.size = s.calls.below.size) (hstack : t.stack = s.stack) :
      Effect p s t op
  /-- The callee has the passed values in its arguments, and a frame of zeros. -/
  | call {target : Reg} {callee : FuncId} {args : List Reg} {c : Code}
      (h : op = .call target callee args) (hc : p.linked? callee = some (.code c))
      (hcode : t.calls.top.code = c) (hdepth : t.calls.below.size = s.calls.below.size + 1)
      (hargs : ∀ i u y, t.calls.Binds ⟨s.calls.below.size + 1, .arg i⟩ u y → ∃ v x,
        s.Copies p op v ⟨s.calls.below.size + 1, .arg i⟩ ∧ s.calls.Binds v u x ∧
          SameArea t.stack s.stack y x u.size.toNat)
      (hframe : ∀ k, t.calls.top.frameBase ≤ k → k < t.calls.top.frameEnd →
        t.stack.byte? k = some 0)
      (hkeeps : ∀ k < s.stack.size, t.stack.byte? k = s.stack.byte? k) : Effect p s t op

section Effects

variable {p : Program} (hsound : p.Sound) (hone : p.OneRegistry) {s : State} (hs : Stacked p s)
include hsound hone hs

theorem effect_of_alters {op : Operation} {t : State}
    (hdepth : t.calls.below.size = s.calls.below.size) (hop : s.calls.top.operation? = some op)
    (hm : Alters p s.calls s.stack op t.stack) : Effect p s t op := by
  have htop := s.calls.activation?_top
  obtain ⟨f, hf⟩ := hs.linked _ _ htop
  have hlaid := hsound.laid f _ hf
  have hty := hsound.wellTyped f _ hf _ _ _ (Activation.operation?_eq_some.mp hop)
  cases hm with
  | @readArg target index src dst _ hsrc hdst hsize hcopy =>
    obtain ⟨u, harg, htarget⟩ := hty
    rw [hlaid.args.size hsrc harg] at hcopy
    exact .copy (.readArg target index) (CallStack.binds_own (.arg harg hsrc))
      (CallStack.binds_own (.reg htarget hdst)) hcopy.inside (.of_agreeOutside hdepth hcopy.outside)
  | int hint hdst hout hword =>
    exact .int hint (CallStack.binds_own (.reg (int_of_intTo hone hint hty) hdst)) hword
      (.of_agreeOutside hdepth hout)
  | stackAlloc hsrc hdst hout hword =>
    obtain ⟨htarget, u, hu⟩ := hty
    exact .address rfl (CallStack.binds_own (.reg htarget hdst))
      (CallStack.binds_own (.slot hu hsrc)) hword (.of_agreeOutside hdepth hout)
  | load ht haddress hplace hdst hcopy =>
    -- The slot has the kind of the target, and so its type.
    obtain ⟨v, u, haccess, hv, hkind⟩ := State.exists_access haddress hplace
    have heq := hone.eq_of_kind (hs.binds_mentions hv) (Program.mentions_reg hf ht) hkind
    subst heq
    exact .copy (.load ht haccess) hv (CallStack.binds_own (.reg ht hdst)) hcopy.inside
      (.of_agreeOutside hdepth hcopy.outside)
  | store ht haddress hplace hcheck hexec hsrc hcopy =>
    obtain ⟨v, u, haccess, hv, hkind⟩ := State.exists_access haddress hplace
    have heq := hone.eq_of_kind (hs.binds_mentions hv) (Program.mentions_reg hf ht) hkind
    subst heq
    rw [hlaid.size_of_reg ht hsrc] at hcopy
    exact .copy (.store ht haccess) (CallStack.binds_own (.reg ht hsrc)) hv hcopy.inside
      (.of_agreeOutside hdepth hcopy.outside)

omit hone in
/-- The register that awaits a result has the declared type of the running function. -/
theorem binds_awaited {u : Suspended} (hback : s.calls.below.back? = some u) :
    ∃ target, u.Awaits target ∧ s.calls.Binds ⟨s.calls.below.size - 1, .reg target⟩
      s.calls.top.code.definition.signature.ret u.returnTo := by
  obtain ⟨hpos, hlast⟩ := CallStack.getElem?_of_back? hback
  have hnext : s.calls.activation? (s.calls.below.size - 1 + 1) = some s.calls.top := by
    rw [Nat.sub_add_cancel hpos]
    exact s.calls.activation?_top
  have hlive := CallStack.activation?_below hlast
  obtain ⟨g, hg⟩ := hs.linked _ _ hlive
  obtain ⟨hcursor, hcall, hc, he, hto⟩ := hs.waits _ u _ hlast hnext
  obtain ⟨sig, hsig, htarget, -⟩ := hsound.wellTyped g _ hg _ _ _ hcall
  rw [Program.sig?_of_linked? hc] at hsig
  cases hsig
  refine ⟨_, ⟨_, _, _, hcursor, hcall⟩, u.caller, hlive, ?_⟩
  rw [hto]
  exact .reg htarget he

theorem effect_of_ret {n : Memory} {value : Reg} {src : Extent} {u : Suspended} {t : State}
    (ht : t.stack = n.cut s.calls.top.argsBase)
    (hdepth : t.calls.below.size ≤ s.calls.below.size)
    (hop : s.calls.top.operation? = some (.ret value))
    (hsrc : s.calls.top.code.frame.regExtent? value = some src)
    (hcheck : checkReturn s.calls.top s.stack value = .ok ())
    (hback : s.calls.below.back? = some u)
    (hcopy : Copied s.stack n (s.calls.top.frameBase + src.start) u.returnTo src.size) :
    Effect p s t (.ret value) := by
  have htop := s.calls.activation?_top
  obtain ⟨f, hf⟩ := hs.linked _ _ htop
  obtain ⟨target, hawaits, hbinds⟩ := binds_awaited hsound hs hback
  obtain ⟨v, hv, hkind⟩ := hsound.wellTyped f _ hf _ _ _ (Activation.operation?_eq_some.mp hop)
  have heq := hone.eq_of_kind (Program.mentions_reg hf hv) (hs.binds_mentions hbinds) hkind
  subst heq
  rw [(hsound.laid f _ hf).size_of_reg hv hsrc] at hcopy
  -- The awaiting register lies below the argument block, where the stack is cut.
  have hpos := (CallStack.getElem?_of_back? hback).1
  obtain ⟨b, hb, hcell⟩ := id hbinds
  have hend := (hs.holds_within hsound.laid hb hcell).2
  have hord := hs.ordered _ _ b _ (by dsimp only; omega) hb htop
  refine .copy (.ret hback hawaits hcheck) (CallStack.binds_own (.reg hv hsrc)) hbinds ?_
    ⟨hdepth, ?_, ?_⟩
  · intro k hk
    rw [ht, byte?_cut, if_pos (by omega)]
    exact hcopy.inside k hk
  · rw [ht, size_cut, ← hcopy.outside.size]
    exact Nat.min_le_right ..
  · intro k hk hout
    rw [ht, size_cut] at hk
    rw [ht, byte?_cut, if_pos (by omega)]
    exact hcopy.outside.byte k hout

theorem effect_of_call {target : Reg} {callee : FuncId} {args : List Reg} {c : Code} {t : State}
    (hop : s.calls.top.operation? = some (.call target callee args))
    (hc : p.linked? callee = some (.code c))
    (hlen : args.length = c.definition.signature.args.length)
    (hentered : Entered c t.calls.top s.stack t.stack)
    (hdepth : t.calls.below.size = s.calls.below.size + 1)
    (hpassed : Passed s.calls.top c t.calls.top.argsBase 0 args s.stack t.stack) :
    Effect p s t (.call target callee args) := by
  have htop := s.calls.activation?_top
  obtain ⟨f, hf⟩ := hs.linked _ _ htop
  refine .call rfl hc hentered.code hdepth ?_ ?_ hentered.keeps
  · intro i u y hbinds
    rw [← hdepth] at hbinds
    have hcell := CallStack.Binds.holds hbinds
    cases hcell with
    | arg hu he =>
      rw [hentered.code] at hu he
      have hi : i < args.length := by
        rw [hlen]
        exact (List.getElem?_eq_some_iff.mp hu).1
      have hr := List.getElem?_eq_getElem hi
      obtain ⟨src, dst, hsrc, hdst, hsize, hsame⟩ := hpassed i _ hr
      rw [Nat.zero_add, he] at hdst
      cases hdst
      -- The passed register has the kind of the declared argument, and so its type.
      obtain ⟨sig, hsig, -, hargs⟩ :=
        hsound.wellTyped f _ hf _ _ _ (Activation.operation?_eq_some.mp hop)
      rw [Program.sig?_of_linked? hc] at hsig
      cases hsig
      obtain ⟨u', hu', v, hv, hkind⟩ := getElem?_of_forall₂ hargs hr
      rw [hu] at hu'
      cases hu'
      have heq := hone.eq_of_kind (Program.mentions_reg hf hv)
        (Program.mentions_arg (Program.sig?_of_linked? hc) (List.mem_of_getElem? hu)) hkind
      subst heq
      rw [(hsound.laid f _ hf).size_of_reg hv hsrc] at hsame
      exact ⟨_, _, .pass hc hr, CallStack.binds_own (.reg hv hsrc), hsame⟩
  · intro k hk hend
    rw [Activation.frameEnd, hentered.code, ← hentered.size] at hend
    exact hentered.zero k hk hend

/-- Every step has an effect of one of these kinds. -/
theorem Next.effect {t : State} (hn : Next p s t) :
    ∃ op, s.calls.top.operation? = some op ∧ Effect p s t op := by
  cases hn with
  | data hop hm => exact ⟨_, hop, effect_of_alters hsound hone hs rfl hop hm⟩
  | jump hop hb => exact ⟨_, hop, .jump hb rfl rfl⟩
  | call hop hc hlen he hentered hpassed =>
    exact ⟨_, hop,
      effect_of_call hsound hone hs hop hc hlen hentered (Array.size_push _) hpassed⟩
  | ret hop hsrc hcheck hback hcopy =>
    have hpop := CallStack.size_pop_of_back? hback
    exact ⟨_, hop, effect_of_ret hsound hone hs rfl (by dsimp only at hpop ⊢; omega) hop hsrc
      hcheck hback hcopy⟩

end Effects

/-! ## 4. Where the value of a variable comes from -/

/-- Where the bytes of a variable come from that is live after a step. -/
inductive Origin (p : Program) (s t : State) (op : Operation) (w : Variable) (u : Ty) (y : Nat) :
    Prop
  | kept (h : s.calls.Binds w u y) (hsame : SameArea t.stack s.stack y y u.size.toNat) :
      Origin p s t op w u y
  | copied {v : Variable} {x : Nat} (h : s.Copies p op v w) (hv : s.calls.Binds v u x)
      (hsame : SameArea t.stack s.stack y x u.size.toNat) : Origin p s t op w u y
  | int {target : Reg} (hw : w = s.calls.own (.reg target)) (hu : u = .int) :
      Origin p s t op w u y
  | address {target : Reg} {slot : SlotId} {u' : Ty} {x : Nat}
      (hop : op = .stackAlloc target slot) (hw : w = s.calls.own (.reg target))
      (hu : u = .pointer) (hslot : s.calls.Binds (s.calls.own (.slot slot)) u' x)
      (hword : t.stack.word64? y = some (addressOf x)) : Origin p s t op w u y
  | zero (hdepth : w.depth = s.calls.below.size + 1)
      (hzero : ∀ k < u.size.toNat, t.stack.byte? (y + k) = some 0) : Origin p s t op w u y

section Origins

variable {p : Program} {s t : State} {op : Operation} {w : Variable} {u : Ty} {y : Nat}

/-- When one variable is assigned, the others keep their bytes. -/
theorem sameArea_of_ne (hp : p.Laid) (hs : Stacked p s) (ht : Stacked p t) {v : Variable}
    {u' : Ty} {x : Nat} (hv : s.calls.Binds v u' x) (hrest : s.KeepsOutside t x u'.size.toNat)
    (hw : s.calls.Binds w u y) (hw' : t.calls.Binds w u y) (hne : w ≠ v) :
    SameArea t.stack s.stack y y u.size.toNat :=
  hrest.sameArea (hs.binds_apart hp hw hv hne) (ht.binds_within hp hw')

theorem Effect.origin (hp : p.Laid) (hs : Stacked p s) (ht : Stacked p t) (hn : Next p s t)
    (h : Effect p s t op) (hw : t.calls.Binds w u y) : Origin p s t op w u y := by
  have hlive := hw.depth_le
  cases h with
  | copy h hv hx hsame hrest =>
    rename_i v w' u' x y'
    have hw' := hn.binds_before hw (Nat.le_trans hlive hrest.depth)
    by_cases heq : w = w'
    · subst heq
      obtain ⟨rfl, rfl⟩ := hw'.unique hx
      exact .copied h hv hsame
    · exact .kept hw' (sameArea_of_ne hp hs ht hx hrest hw' hw heq)
  | @int target x _ h htarget hword hrest =>
    have hw' := hn.binds_before hw (Nat.le_trans hlive hrest.depth)
    by_cases heq : w = s.calls.own (.reg target)
    · subst heq
      exact .int rfl (hw'.unique htarget).1
    · exact .kept hw' (sameArea_of_ne hp hs ht htarget hrest hw' hw heq)
  | @address target slot _ _ _ h htarget hslot hword hrest =>
    have hw' := hn.binds_before hw (Nat.le_trans hlive hrest.depth)
    by_cases heq : w = s.calls.own (.reg target)
    · subst heq
      obtain ⟨rfl, rfl⟩ := hw'.unique htarget
      exact .address h rfl rfl hslot hword
    · exact .kept hw' (sameArea_of_ne hp hs ht htarget hrest hw' hw heq)
  | jump h hdepth hstack =>
    refine .kept (hn.binds_before hw (hdepth ▸ hlive)) ?_
    rw [hstack]
    exact fun _ _ => rfl
  | call h hc hcode hdepth hargs hframe hkeeps =>
    by_cases hold : w.depth ≤ s.calls.below.size
    · have hw' := hn.binds_before hw hold
      have hwithin := hs.binds_within hp hw'
      exact .kept hw' fun k hk => hkeeps _ (by omega)
    · -- A variable of the callee: an argument was passed, the rest is fresh.
      obtain ⟨depth, cell⟩ := w
      have hnew : depth = s.calls.below.size + 1 := by
        dsimp only at hlive hold
        omega
      subst hnew
      cases cell with
      | arg i =>
        obtain ⟨v, x, hcopy, hv, hsame⟩ := hargs i u y hw
        exact .copied hcopy hv hsame
      | reg r | slot r =>
        refine .zero rfl fun k hk => hframe _ ?_ ?_
        all_goals
          rw [← hdepth] at hw
          have hcell := CallStack.Binds.holds hw
          have hend := (ht.holds_within hp t.calls.activation?_top hcell).2
          cases hcell
          omega

/-- Every copy that the operation makes has been made after the step. -/
theorem Effect.sameArea_of_copies (hn : Next p s t) (h : Effect p s t op) {v : Variable} {x : Nat}
    (hcopy : s.Copies p op v w) (hv : s.calls.Binds v u x) (hw : t.calls.Binds w u y) :
    SameArea t.stack s.stack y x u.size.toNat := by
  cases h with
  | copy h hv' hw' hsame hrest =>
    have hold := hn.binds_before hw (Nat.le_trans hw.depth_le hrest.depth)
    obtain ⟨rfl, rfl, rfl⟩ := hcopy.place_unique h hv hold hv' hw'
    exact hsame
  | int h =>
    cases h with
    | host target args he =>
      cases hcopy with
      | pass hc =>
        rw [hc] at he
        cases he
    | _ => cases hcopy
  | address h =>
    cases h
    cases hcopy
  | jump h => cases hcopy <;> cases h
  | call h hc hcode hdepth hargs hframe hkeeps =>
    cases h
    cases hcopy with
    | pass hc' hr =>
      obtain ⟨v', x', hpass, hv', hsame⟩ := hargs _ u y hw
      cases hpass with
      | pass hc'' hr' =>
        rw [hr] at hr'
        cases hr'
        rw [(hv.unique hv').2]
        exact hsame

end Origins

end RegIR.Machine
