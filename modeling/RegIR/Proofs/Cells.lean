import RegIR.Proofs.Discipline
import RegIR.Proofs.Linking
/-!
# Cells

An activation keeps its arguments, registers and slots in cells on the stack, each with a type.  No
two cells of the live activations overlap, so what is written to one leaves the others alone.
-/

namespace RegIR.Machine

open Memory

/-- The cells of an activation. -/
inductive Cell where
  | arg (index : Nat)
  | reg (r : Reg)
  | slot (s : SlotId)
  deriving DecidableEq, Repr

/-- The cell of the activation holds values of type `t` at stack offset `x`. -/
inductive Activation.Holds (a : Activation) : Cell → Ty → Nat → Prop
  | arg {i : Nat} {t : Ty} {e : Extent} (ht : a.code.definition.signature.args[i]? = some t)
      (he : a.code.args.extent? i = some e) : Holds a (.arg i) t (a.argsBase + e.start)
  | reg {r : Reg} {t : Ty} {e : Extent} (ht : a.code.definition.regType? r = some t)
      (he : a.code.frame.regExtent? r = some e) : Holds a (.reg r) t (a.frameBase + e.start)
  | slot {s : SlotId} {t : Ty} {e : Extent}
      (ht : a.code.definition.slotTypes[s.index]? = some t)
      (he : a.code.frame.slotExtent? s = some e) : Holds a (.slot s) t (a.frameBase + e.start)

namespace Activation.Holds

variable {a b : Activation} {c c' : Cell} {t u : Ty} {x y : Nat}

theorem unique (h : a.Holds c t x) (h' : a.Holds c u y) : t = u ∧ x = y := by
  cases h <;> cases h' <;>
    · rename_i e ht he e' ht' he'
      rw [ht] at ht'
      rw [he] at he'
      cases ht'
      cases he'
      exact ⟨rfl, rfl⟩

theorem of_sameFrame (hab : b.SameFrame a) (h : b.Holds c t x) : a.Holds c t x := by
  cases h with
  | arg ht he =>
    rw [hab.argsBase]
    rw [hab.code] at ht he
    exact .arg ht he
  | reg ht he =>
    rw [hab.frameBase]
    rw [hab.code] at ht he
    exact .reg ht he
  | slot ht he =>
    rw [hab.frameBase]
    rw [hab.code] at ht he
    exact .slot ht he

theorem within (ha : a.code.Laid)
    (hargs : a.argsBase + a.code.args.size.toNat ≤ a.frameBase) (h : a.Holds c t x) :
    a.argsBase ≤ x ∧ x + t.size.toNat ≤ a.frameEnd := by
  have hend : a.frameEnd = a.frameBase + a.code.frame.size := rfl
  cases h with
  | arg ht he =>
    have hwithin := ha.args.within he
    rw [Extent.stop, ha.args.size he ht] at hwithin
    omega
  | reg ht he =>
    have hwithin := ha.reg_within he
    rw [Extent.stop, ha.size_of_reg ht he] at hwithin
    omega
  | slot ht he =>
    have hwithin := ha.slot_within he
    rw [Extent.stop, ha.size_of_slot ht he] at hwithin
    omega

/-- Two cells of one activation do not overlap: the arguments come first, then the registers, then
the slots. -/
theorem apart (ha : a.code.Laid) (hargs : a.argsBase + a.code.args.size.toNat ≤ a.frameBase)
    (h : a.Holds c t x) (h' : a.Holds c' u y) (hne : c ≠ c') :
    x + t.size.toNat ≤ y ∨ y + u.size.toNat ≤ x := by
  -- An argument lies below the frame, where registers and slots are.
  have hbelow : ∀ {i t x}, a.Holds (.arg i) t x → x + t.size.toNat ≤ a.frameBase := by
    intro i t x h
    cases h with
    | arg ht he =>
      have hwithin := ha.args.within he
      rw [Extent.stop, ha.args.size he ht] at hwithin
      omega
  cases h with
  | arg ht he =>
    cases h' with
    | arg ht' he' =>
      rename_i i e j e'
      have hij : i ≠ j := fun hij => hne (congrArg Cell.arg hij)
      have hdisj := ha.args.disjoint hij he he'
      rw [Extent.stop, ha.args.size he ht, Extent.stop, ha.args.size he' ht'] at hdisj
      omega
    | reg ht' he' | slot ht' he' =>
      have := hbelow (.arg ht he)
      omega
  | reg ht he =>
    cases h' with
    | arg ht' he' =>
      have := hbelow (.arg ht' he')
      omega
    | reg ht' he' =>
      rename_i r e r' e'
      have hrr : r ≠ r' := fun hrr => hne (congrArg Cell.reg hrr)
      have hdisj := ha.regs_disjoint hrr he he'
      rw [Extent.stop, ha.size_of_reg ht he, Extent.stop, ha.size_of_reg ht' he'] at hdisj
      omega
    | slot ht' he' =>
      have hord := ha.reg_before_slot he he'
      rw [Extent.stop, ha.size_of_reg ht he] at hord
      omega
  | slot ht he =>
    cases h' with
    | arg ht' he' =>
      have := hbelow (.arg ht' he')
      omega
    | reg ht' he' =>
      have hord := ha.reg_before_slot he' he
      rw [Extent.stop, ha.size_of_reg ht' he'] at hord
      omega
    | slot ht' he' =>
      rename_i s e s' e'
      have hss : a.code.frame.regCount + s.index ≠ a.code.frame.regCount + s'.index := by
        intro heq
        cases s
        cases s'
        exact hne (congrArg Cell.slot (congrArg SlotId.mk (Nat.add_left_cancel heq)))
      have hdisj := ha.frame.disjoint hss he he'
      rw [Extent.stop, ha.size_of_slot ht he, Extent.stop, ha.size_of_slot ht' he'] at hdisj
      omega

theorem mentions {p : Program} {f : FuncId} (hf : p.linked? f = some (.code a.code))
    (h : a.Holds c t x) : p.Mentions t := by
  cases h with
  | arg ht _ => exact Program.mentions_arg (Program.sig?_of_linked? hf) (List.mem_of_getElem? ht)
  | reg ht _ => exact Program.mentions_reg hf ht
  | slot ht _ => exact Program.mentions_slot hf ht

end Activation.Holds

namespace Stacked

variable {p : Program} {s : State}

theorem holds_within (hp : p.Laid) (hs : Stacked p s) {i : Nat} {a : Activation} {c : Cell} {t : Ty}
    {x : Nat} (ha : s.calls.activation? i = some a) (h : a.Holds c t x) :
    a.argsBase ≤ x ∧ x + t.size.toNat ≤ a.frameEnd :=
  h.within (hs.framed hp ha).laid (hs.args i a ha)

/-- No two cells of the live activations overlap. -/
theorem cells_apart (hp : p.Laid) (hs : Stacked p s) {i j : Nat} {a b : Activation} {c c' : Cell}
    {t u : Ty} {x y : Nat} (ha : s.calls.activation? i = some a)
    (hb : s.calls.activation? j = some b) (h : a.Holds c t x) (h' : b.Holds c' u y)
    (hne : i ≠ j ∨ c ≠ c') : x + t.size.toNat ≤ y ∨ y + u.size.toNat ≤ x := by
  obtain ⟨hx, hxe⟩ := hs.holds_within hp ha h
  obtain ⟨hy, hye⟩ := hs.holds_within hp hb h'
  -- Cells of different activations lie in different frames.
  rcases Nat.lt_trichotomy i j with hij | rfl | hij
  · have hord := hs.ordered i j a b hij ha hb
    omega
  · rw [ha] at hb
    cases hb
    exact h.apart (hs.framed hp ha).laid (hs.args i a ha) h'
      (hne.resolve_left fun hne => hne rfl)
  · have hord := hs.ordered j i b a hij hb ha
    omega

end Stacked

end RegIR.Machine
