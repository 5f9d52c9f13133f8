import Mathlib.Data.List.Forall2
import RegIR.Program
/-!
# Typing of bodies

An operation is well-typed when its registers and slots exist, its operands have the kinds that
it works on, and its target has the type of its result.  Calls are checked against the signatures
in reach.  A body stays well-typed when registers, slots or functions are added.
-/

namespace RegIR

namespace Definition

/-- The register holds values of the kind. -/
def HasKind (d : Definition) (r : Reg) (k : Kind) : Prop :=
  ∃ t, d.regType? r = some t ∧ t.kind = k

/-- The operation stands at a position of a block. -/
def OpAt (d : Definition) (block pos : Nat) (op : Operation) : Prop :=
  ∃ b, d.blocks[block]? = some b ∧ b[pos]? = some op

end Definition

/-- The operation fits the registers and slots of a definition and the signatures in reach. -/
def Operation.WellTyped (sig? : FuncId → Option Signature) (d : Definition) : Operation → Prop
  | readArg target index =>
    ∃ t, d.signature.args[index]? = some t ∧ d.regType? target = some t
  | literal target _ => d.regType? target = some .int
  | unary target _ x => d.regType? target = some .int ∧ d.HasKind x .int
  | binary target _ l r => d.regType? target = some .int ∧ d.HasKind l .int ∧ d.HasKind r .int
  | stackAlloc target slot =>
    d.regType? target = some .pointer ∧ ∃ t, d.slotTypes[slot.index]? = some t
  | load target p => (∃ t, d.regType? target = some t) ∧ d.HasKind p .pointer
  | store p source => d.HasKind p .pointer ∧ ∃ t, d.regType? source = some t
  | call target callee args =>
    ∃ s, sig? callee = some s ∧ d.regType? target = some s.ret ∧
      List.Forall₂ (fun r t => d.HasKind r t.kind) args s.args
  | branch _ => True
  | condBranch test _ _ => d.HasKind test .int
  | ret value => d.HasKind value d.signature.ret.kind

/-- Every operation is well-typed. -/
def Definition.WellTyped (sig? : FuncId → Option Signature) (d : Definition) : Prop :=
  ∀ block pos op, d.OpAt block pos op → op.WellTyped sig? d

/-- One definition has at least the registers and slots of another. -/
structure Definition.Extends (d d' : Definition) : Prop where
  signature : d'.signature = d.signature
  regType : ∀ {r : Reg} {t : Ty}, d.regType? r = some t → d'.regType? r = some t
  slotType : ∀ {i : Nat} {t : Ty}, d.slotTypes[i]? = some t → d'.slotTypes[i]? = some t

namespace Definition.Extends

theorem refl (d : Definition) : d.Extends d := ⟨rfl, id, id⟩

theorem hasKind {d d' : Definition} (h : d.Extends d') {r : Reg} {k : Kind} (hr : d.HasKind r k) :
    d'.HasKind r k := by
  obtain ⟨t, ht, hk⟩ := hr
  exact ⟨t, h.regType ht, hk⟩

end Definition.Extends

theorem Operation.WellTyped.mono {sig? sig?' : FuncId → Option Signature} {d d' : Definition}
    (hsig : ∀ {f : FuncId} {s : Signature}, sig? f = some s → sig?' f = some s)
    (hd : d.Extends d') {op : Operation} (h : op.WellTyped sig? d) : op.WellTyped sig?' d' := by
  -- Every condition asks for a type, a slot or a signature that is there, and those stay.
  cases op with
  | readArg target index =>
    obtain ⟨t, harg, ht⟩ := h
    exact ⟨t, by rw [hd.signature]; exact harg, hd.regType ht⟩
  | literal target value => exact hd.regType h
  | unary target op x => exact ⟨hd.regType h.1, hd.hasKind h.2⟩
  | binary target op l r => exact ⟨hd.regType h.1, hd.hasKind h.2.1, hd.hasKind h.2.2⟩
  | stackAlloc target slot =>
    obtain ⟨ht, t, hs⟩ := h
    exact ⟨hd.regType ht, t, hd.slotType hs⟩
  | load target p =>
    obtain ⟨⟨t, ht⟩, hp⟩ := h
    exact ⟨⟨t, hd.regType ht⟩, hd.hasKind hp⟩
  | store p source =>
    obtain ⟨hp, t, ht⟩ := h
    exact ⟨hd.hasKind hp, t, hd.regType ht⟩
  | call target callee args =>
    obtain ⟨s, hs, ht, hargs⟩ := h
    exact ⟨s, hsig hs, hd.regType ht, hargs.imp fun _ _ hr => hd.hasKind hr⟩
  | branch target => trivial
  | condBranch test thenBlock elseBlock => exact hd.hasKind h
  | ret value =>
    rw [Operation.WellTyped, hd.signature]
    exact hd.hasKind h

/-! ## 2. Types of one registry -/

/-- The registry numbers its aggregates in order. -/
def Registry.Numbered (r : Registry) : Prop :=
  ∀ (i : Nat) (t : Ty), r.defined[i]? = some t → t.kind = .struct (i + 1)

/-- The type is built in or comes from the registry. -/
def Registry.Knows (r : Registry) (t : Ty) : Prop := t = .int ∨ t = .pointer ∨ t ∈ r.defined

namespace Registry

theorem Numbered.exists_index {r : Registry} (hr : r.Numbered) {t : Ty} (ht : t ∈ r.defined) :
    ∃ i, r.defined[i]? = some t ∧ t.kind = .struct (i + 1) := by
  obtain ⟨i, hi⟩ := Array.mem_iff_getElem?.mp ht
  exact ⟨i, hi, hr i t hi⟩

/-- Among the types of one registry the kind says everything. -/
theorem Numbered.eq_of_kind {r : Registry} (hr : r.Numbered) {t u : Ty} (ht : r.Knows t)
    (hu : r.Knows u) (hkind : t.kind = u.kind) : t = u := by
  rcases ht with rfl | rfl | ht
  · rcases hu with rfl | rfl | hu
    · rfl
    · cases hkind
    · obtain ⟨i, -, hi⟩ := hr.exists_index hu
      rw [hi] at hkind
      cases hkind
  · rcases hu with rfl | rfl | hu
    · cases hkind
    · rfl
    · obtain ⟨i, -, hi⟩ := hr.exists_index hu
      rw [hi] at hkind
      cases hkind
  · -- Two aggregates of one kind have one number, and so are the same entry.
    obtain ⟨i, hget, hi⟩ := hr.exists_index ht
    rcases hu with rfl | rfl | hu
    · rw [hi] at hkind
      cases hkind
    · rw [hi] at hkind
      cases hkind
    · obtain ⟨j, hget', hj⟩ := hr.exists_index hu
      rw [hi, hj] at hkind
      cases hkind
      rw [hget] at hget'
      exact Option.some.inj hget'

end Registry

/-! ## 3. Modules and programs -/

namespace Module

/-- The signature of a declared function. -/
def sig? (m : Module) (f : FuncId) : Option Signature := (m.function? f).map Function.signature

/-- Every body fits the functions of the module. -/
def WellTyped (m : Module) : Prop :=
  ∀ f d, m.function? f = some (.defined d) → d.WellTyped m.sig?

/-- What construction guarantees of a module. -/
structure Sound (m : Module) : Prop where
  bodies : m.WellTyped
  types : m.types.Numbered

end Module

namespace Program

/-- The signature of a function. -/
def sig? (p : Program) (f : FuncId) : Option Signature := (p.function? f).map Function.signature

end Program

/-- The types that a function mentions. -/
inductive Function.Mentions : Function → Ty → Prop
  | arg {f : Function} {t : Ty} (h : t ∈ f.signature.args) : Mentions f t
  | ret (f : Function) : Mentions f f.signature.ret
  | reg {d : Definition} {t : Ty} (h : t ∈ d.regTypes) : Mentions (.defined d) t
  | slot {d : Definition} {t : Ty} (h : t ∈ d.slotTypes) : Mentions (.defined d) t

end RegIR
