import RegIR.Proofs.Checked
import RegIR.Proofs.Construction
import RegIR.Proofs.ControlFlow
import RegIR.Proofs.Placement
/-!
# Finalized programs

A program has the functions of the module that it was made from, under the same numbers.  Each
definition was accepted, is laid out, and, when the module was built by steps, is well-typed.
-/

namespace RegIR

/-! ## 1. Functions of a program -/

namespace Module

theorem flaw?_of_finalize {m : Module} {p : Program} (h : m.finalize = .ok p) {f : FuncId}
    {d : Definition} (hd : m.function? f = some (.defined d)) : d.flaw? = none := by
  unfold finalize at h
  split at h
  · cases h
  · rename_i hflaw
    rw [flaw?, List.findSome?_eq_none_iff] at hflaw
    exact hflaw _ (Array.mem_toList_iff.mpr (Array.mem_of_getElem? hd))

/-- Every number names a function with its layouts in the program, or nothing in either. -/
theorem linked?_of_finalize {m : Module} {p : Program} (h : m.finalize = .ok p) (f : FuncId) :
    (∃ fn l, m.function? f = some fn ∧ p.linked? f = some l ∧ Linked.ofFunction fn = .ok l) ∨
      m.function? f = none ∧ p.linked? f = none := by
  unfold finalize at h
  split at h
  · cases h
  · obtain ⟨linked, hlinked, rfl⟩ := Except.map_eq_ok.mp h
    -- The layouts are computed function by function, so the numbers stay.
    rw [Array.mapM_eq_mapM_toList] at hlinked
    obtain ⟨ls, hls, hlinked⟩ := Except.map_eq_ok.mp hlinked
    subst hlinked
    have hlinked : Program.linked? ⟨ls.toArray⟩ f = ls[f.index]? := List.getElem?_toArray
    rw [hlinked]
    have hget := getElem?_of_mapM hls f.index
    rw [Array.getElem?_toList] at hget
    rcases hget with ⟨fn, l, hfn, hl, hof⟩ | ⟨hfn, hl⟩
    · exact Or.inl ⟨fn, l, hfn, hl, hof⟩
    · exact Or.inr ⟨hfn, hl⟩

theorem function?_of_finalize {m : Module} {p : Program} (h : m.finalize = .ok p) (f : FuncId) :
    p.function? f = m.function? f := by
  rw [Program.function?]
  rcases linked?_of_finalize h f with ⟨fn, l, hfn, hl, hof⟩ | ⟨hfn, hl⟩
  · rw [hfn, hl, Option.map_some, Linked.function_of_ofFunction hof]
  · rw [hfn, hl]
    rfl

end Module

namespace Program

/-- Every definition of the program passes the checks of control flow. -/
def Accepted (p : Program) : Prop :=
  ∀ f c, p.linked? f = some (.code c) → c.definition.flaw? = none

/-- What a program made from a sound module satisfies. -/
structure Sound (p : Program) : Prop where
  laid : p.Laid
  accepted : p.Accepted
  wellTyped : ∀ f c, p.linked? f = some (.code c) → c.definition.WellTyped p.sig?

theorem function?_of_linked? {p : Program} {f : FuncId} {c : Code}
    (h : p.linked? f = some (.code c)) : p.function? f = some (.defined c.definition) := by
  rw [function?, h]
  rfl

end Program

namespace Module

/-- The definitions of a program are those of the module. -/
theorem function?_of_linked? {m : Module} {p : Program} (h : m.finalize = .ok p) {f : FuncId}
    {c : Code} (hc : p.linked? f = some (.code c)) :
    m.function? f = some (.defined c.definition) := by
  rw [← function?_of_finalize h f, Program.function?_of_linked? hc]

theorem laid_of_finalize {m : Module} {p : Program} (h : m.finalize = .ok p) : p.Laid := by
  intro f c hc
  rcases linked?_of_finalize h f with ⟨fn, l, hfn, hl, hof⟩ | ⟨-, hl⟩
  · rw [hl] at hc
    cases hc
    exact Linked.laid_of_ofFunction hof
  · rw [hl] at hc
    cases hc

theorem accepted_of_finalize {m : Module} {p : Program} (h : m.finalize = .ok p) : p.Accepted :=
  fun _ _ hc => flaw?_of_finalize h (function?_of_linked? h hc)

end Module

theorem Module.Sound.finalize {m : Module} {p : Program} (hm : m.Sound) (h : m.finalize = .ok p) :
    p.Sound := by
  have hsig : p.sig? = m.sig? := by
    funext f
    rw [Program.sig?, Module.sig?, Module.function?_of_finalize h f]
  refine ⟨Module.laid_of_finalize h, Module.accepted_of_finalize h, ?_⟩
  intro f c hc
  rw [hsig]
  exact hm.bodies f c.definition (Module.function?_of_linked? h hc)

/-- The functions of a program, as a module without aggregates. -/
def Program.source (p : Program) : Module := ⟨p.functions.map Linked.function, .empty⟩

/-- A module becomes the program that has its functions, when these are accepted and the program
has their layouts. -/
theorem Module.finalize_eq_ok_iff {m : Module} {p : Program} :
    m.finalize = .ok p ↔ m.functions = p.source.functions ∧ p.source.flaw? = none ∧
      p.source.functions.mapM Linked.ofFunction = .ok p.functions := by
  have hflaw : m.functions = p.source.functions → m.flaw? = p.source.flaw? := fun hm => by
    rw [flaw?, flaw?, hm]
  constructor
  · intro h
    have hm : m.functions = p.source.functions := by
      refine Array.ext_getElem? fun i => ?_
      rw [show m.functions[i]? = _ from (function?_of_finalize h ⟨i⟩).symm, Program.source,
        Array.getElem?_map]
      rfl
    unfold finalize at h
    split at h
    · cases h
    · rename_i hnone
      obtain ⟨linked, hlinked, rfl⟩ := Except.map_eq_ok.mp h
      exact ⟨hm, hflaw hm ▸ hnone, hm ▸ hlinked⟩
  · rintro ⟨hm, hnone, hlinked⟩
    simp only [finalize, hflaw hm, hnone, hm, hlinked]
    rfl

/-! ## 2. Programs of one registry -/

namespace Program

/-- Some function of the program mentions the type. -/
def Mentions (p : Program) (t : Ty) : Prop := ∃ f fn, p.function? f = some fn ∧ fn.Mentions t

/-- The types of the program are built in or come from one registry. -/
def OneRegistry (p : Program) : Prop :=
  ∃ r : Registry, r.Numbered ∧ ∀ t, p.Mentions t → r.Knows t

section Mentions

variable {p : Program} {f : FuncId} {c : Code} {t : Ty}

theorem mentions_reg (hc : p.linked? f = some (.code c)) {r : Reg}
    (ht : c.definition.regType? r = some t) : p.Mentions t :=
  ⟨f, _, function?_of_linked? hc, .reg (Array.mem_of_getElem? ht)⟩

theorem mentions_slot (hc : p.linked? f = some (.code c)) {i : Nat}
    (ht : c.definition.slotTypes[i]? = some t) : p.Mentions t :=
  ⟨f, _, function?_of_linked? hc, .slot (Array.mem_of_getElem? ht)⟩

theorem mentions_arg {s : Signature} (hs : p.sig? f = some s) (ht : t ∈ s.args) :
    p.Mentions t := by
  obtain ⟨fn, hfn, rfl⟩ := Option.map_eq_some_iff.mp hs
  exact ⟨f, fn, hfn, .arg ht⟩

theorem mentions_ret {s : Signature} (hs : p.sig? f = some s) : p.Mentions s.ret := by
  obtain ⟨fn, hfn, rfl⟩ := Option.map_eq_some_iff.mp hs
  exact ⟨f, fn, hfn, .ret fn⟩

theorem sig?_of_linked? (hc : p.linked? f = some (.code c)) :
    p.sig? f = some c.definition.signature := by
  rw [sig?, function?_of_linked? hc]
  rfl

end Mentions

namespace OneRegistry

variable {p : Program} (hp : p.OneRegistry)
include hp

theorem eq_of_kind {t u : Ty} (ht : p.Mentions t) (hu : p.Mentions u) (hkind : t.kind = u.kind) :
    t = u := by
  obtain ⟨r, hr, hknows⟩ := hp
  exact hr.eq_of_kind (hknows t ht) (hknows u hu) hkind

theorem eq_int {t : Ty} (ht : p.Mentions t) (hkind : t.kind = .int) : t = .int := by
  obtain ⟨r, hr, hknows⟩ := hp
  exact hr.eq_of_kind (hknows t ht) (Or.inl rfl) hkind

theorem eq_pointer {t : Ty} (ht : p.Mentions t) (hkind : t.kind = .pointer) : t = .pointer := by
  obtain ⟨r, hr, hknows⟩ := hp
  exact hr.eq_of_kind (hknows t ht) (Or.inr (Or.inl rfl)) hkind

/-- A pointer is eight bytes long. -/
theorem size_of_pointer {t : Ty} (ht : p.Mentions t) (hkind : t.kind = .pointer) :
    t.size.toNat = 8 := by
  rw [hp.eq_pointer ht hkind]
  rfl

theorem int_reg {f : FuncId} {c : Code} (hc : p.linked? f = some (.code c)) {r : Reg}
    (h : c.definition.HasKind r .int) : c.definition.regType? r = some .int := by
  obtain ⟨t, ht, hkind⟩ := h
  rw [ht, hp.eq_int (mentions_reg hc ht) hkind]

theorem pointer_reg {f : FuncId} {c : Code} (hc : p.linked? f = some (.code c)) {r : Reg}
    (h : c.definition.HasKind r .pointer) : c.definition.regType? r = some .pointer := by
  obtain ⟨t, ht, hkind⟩ := h
  rw [ht, hp.eq_pointer (mentions_reg hc ht) hkind]

end OneRegistry

end Program

/-- The types in the signature, the registers and the slots of a function. -/
def Function.types : Function → List Ty
  | .defined d => d.signature.ret :: d.signature.args ++ d.regTypes.toList ++ d.slotTypes.toList
  | .external e => e.signature.ret :: e.signature.args

theorem Function.Mentions.mem_types {f : Function} {t : Ty} (h : f.Mentions t) : t ∈ f.types := by
  cases h with
  | arg h => cases f <;> simp_all [Function.types, Function.signature]
  | ret => cases f <;> simp [Function.types, Function.signature]
  | reg h | slot h => simp [Function.types, h]

instance (r : Registry) (t : Ty) : Decidable (r.Knows t) :=
  inferInstanceAs (Decidable (_ ∨ _ ∨ _))

/-- A program is of one registry when all types in its functions are. -/
theorem Program.oneRegistry_of_types {p : Program} {r : Registry} (hr : r.Numbered)
    (h : ∀ l ∈ p.functions.toList, ∀ t ∈ l.function.types, r.Knows t) : p.OneRegistry := by
  refine ⟨r, hr, ?_⟩
  rintro t ⟨f, fn, hfn, ht⟩
  obtain ⟨l, hl, rfl⟩ := Option.map_eq_some_iff.mp hfn
  exact h l (Array.mem_toList_iff.mpr (Array.mem_of_getElem? hl)) t ht.mem_types

/-- Every type that the functions of the module mention is built in or the module's own. -/
def Module.OwnTypes (m : Module) : Prop :=
  ∀ f fn t, m.function? f = some fn → fn.Mentions t → m.types.Knows t

theorem Module.Sound.oneRegistry {m : Module} {p : Program} (hm : m.Sound) (hown : m.OwnTypes)
    (h : m.finalize = .ok p) : p.OneRegistry := by
  refine ⟨m.types, hm.types, ?_⟩
  rintro t ⟨f, fn, hfn, ht⟩
  rw [Module.function?_of_finalize h f] at hfn
  exact hown f fn t hfn ht

end RegIR
