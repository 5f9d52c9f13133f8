import Mathlib.Algebra.Group.Nat.Defs
import RegIR.Program
import RegIR.Proofs.Rounding
/-!
# Placement

A layout gives every value an area of its own, as long as its type says, in the order of the
types.  So the areas of a frame or of an argument block stay apart.
-/

namespace RegIR

/-! ## 1. Rounding -/

@[simp] theorem powerOfTwo_toNat (k : Fin 32) : (powerOfTwo k).toNat = 2 ^ k.val := by
  revert k
  decide

theorem Ty.align_toNat (t : Ty) : t.align.toNat = 2 ^ t.alignLog.val := powerOfTwo_toNat t.alignLog

theorem Ty.toNat_align_pos (t : Ty) : 0 < t.align.toNat := by
  rw [t.align_toNat]
  exact Nat.two_pow_pos _

theorem alignMask_toNat (t : Ty) : t.alignMask.toNat = 2 ^ t.alignLog.val - 1 := by
  have hone : (1 : UInt32) ≤ t.align := by
    rw [UInt32.le_iff_toNat_le, Ty.align, powerOfTwo_toNat]
    exact Nat.one_le_two_pow
  rw [Ty.alignMask, UInt32.toNat_sub_of_le _ _ hone, Ty.align, powerOfTwo_toNat]
  rfl

/-- Clearing the low bits of a word rounds it down to a multiple. -/
theorem and_not_mask_toNat (x mask : UInt32) (k : Nat) (hmask : mask.toNat = 2 ^ k - 1) :
    (x &&& ~~~mask).toNat = x.toNat / 2 ^ k * 2 ^ k := by
  rw [← Nat.shiftRight_eq_div_pow, ← Nat.shiftLeft_eq]
  apply Nat.eq_of_testBit_eq
  intro i
  -- The bits below `k` are cleared, those from `k` to 31 stay, and there are none above.
  have hbit : (~~~mask).toNat.testBit i = (decide (i < 32) && !mask.toNat.testBit i) := by
    rw [← UInt32.toNat_toBitVec, UInt32.toBitVec_not, ← BitVec.getLsbD, BitVec.getLsbD_not]
    rfl
  rw [UInt32.toNat_and, Nat.testBit_and, hbit, hmask, Nat.testBit_two_pow_sub_one,
    Nat.testBit_shiftLeft, Nat.testBit_shiftRight]
  by_cases hi : i < k
  · rw [decide_eq_true hi, decide_eq_false (by omega : ¬ i ≥ k)]
    simp
  · rw [decide_eq_false hi, decide_eq_true (by omega : i ≥ k), Nat.add_sub_cancel' (by omega)]
    by_cases hlt : i < 32
    · simp [hlt]
    · have hx : x.toNat.testBit i = false :=
        Nat.testBit_lt_two_pow (Nat.lt_of_lt_of_le x.toNat_lt
          (Nat.pow_le_pow_right (by decide) (by omega)))
      simp [hx]

/-- Rounding up reaches the next multiple of the alignment. -/
theorem alignUp?_toNat {v start : UInt32} {t : Ty} (h : alignUp? v t.alignMask = some start) :
    start.toNat = roundUp v.toNat t.align.toNat := by
  unfold alignUp? at h
  split at h
  · rename_i hlt
    cases h
    have hpos := t.toNat_align_pos
    rw [t.align_toNat] at hpos ⊢
    rw [and_not_mask_toNat _ _ t.alignLog.val (alignMask_toNat t), UInt32.toNat_add,
      Nat.mod_eq_of_lt hlt, alignMask_toNat, roundUp, Nat.add_sub_assoc hpos]
  · cases h

theorem le_of_alignUp? {v start : UInt32} {t : Ty} (h : alignUp? v t.alignMask = some start) :
    v.toNat ≤ start.toNat := by
  rw [alignUp?_toNat h]
  exact le_roundUp t.toNat_align_pos

/-! ## 2. Layouts -/

/-- The layout gives each of the types an area of its own, in their order. -/
structure Layout.Places (l : Layout) (ts : List Ty) : Prop where
  length : l.extents.size = ts.length
  size : ∀ {i : Nat} {e : Extent} {t : Ty}, l.extents[i]? = some e → ts[i]? = some t →
    e.size = t.size.toNat
  within : ∀ {i : Nat} {e : Extent}, l.extents[i]? = some e → e.stop ≤ l.size.toNat
  ordered : ∀ {i j : Nat} {e e' : Extent}, i < j → l.extents[i]? = some e →
    l.extents[j]? = some e' → e.stop ≤ e'.start

namespace Layout.Places

theorem empty : Layout.empty.Places [] := by
  refine ⟨rfl, ?_, ?_, ?_⟩ <;> intros <;> simp_all [Layout.empty]

theorem push {l l' : Layout} {ts : List Ty} {t : Ty} (h : l.Places ts) (hp : l.push? t = some l') :
    l'.Places (ts ++ [t]) := by
  unfold Layout.push? at hp
  split at hp
  · cases hp
  · rename_i start halign
    split at hp
    · rename_i hfit
      cases hp
      have hle := le_of_alignUp? halign
      have hsize : (start + t.size).toNat = start.toNat + t.size.toNat := by
        rw [UInt32.toNat_add, Nat.mod_eq_of_lt hfit]
      have hlen := h.length
      -- The new area starts behind the rounded end of the layout, so behind every older area.
      refine ⟨by simp [hlen], ?_, ?_, ?_⟩
      · intro i e u he hu
        rw [Array.getElem?_push] at he
        by_cases hi : i = l.extents.size
        · rw [if_pos hi] at he
          rw [hi, hlen, List.getElem?_concat_length] at hu
          cases he
          cases hu
          rfl
        · rw [if_neg hi] at he
          have hlt : i < ts.length := by
            rw [← hlen]
            exact (Array.getElem?_eq_some_iff.mp he).1
          rw [List.getElem?_append_left hlt] at hu
          exact h.size he hu
      · intro i e he
        rw [Array.getElem?_push] at he
        rw [hsize]
        split at he
        · cases he
          exact Nat.le_refl _
        · have := h.within he
          omega
      · intro i j e e' hij he he'
        rw [Array.getElem?_push] at he he'
        by_cases hj : j = l.extents.size
        · rw [if_neg (by omega)] at he
          rw [if_pos hj] at he'
          cases he'
          exact Nat.le_trans (h.within he) hle
        · rw [if_neg hj] at he'
          have hlt := (Array.getElem?_eq_some_iff.mp he').1
          rw [if_neg (by omega)] at he
          exact h.ordered hij he he'
    · cases hp

theorem append {us : List Ty} {l l' : Layout} {ts : List Ty} (h : l.Places ts)
    (ha : l.append? us = some l') : l'.Places (ts ++ us) := by
  -- Along the types that are still to place, for whatever layout has been built so far.
  induction us generalizing l ts with
  | nil =>
    cases ha
    rwa [List.append_nil]
  | cons u us ih =>
    rw [Layout.append?] at ha
    split at ha
    · cases ha
    · rename_i l₁ hp
      rw [List.append_cons]
      exact ih (h.push hp) ha

theorem of_ofTypes? {l : Layout} {ts : List Ty} (h : Layout.ofTypes? ts = some l) : l.Places ts :=
  empty.append h

theorem exists_extent {l : Layout} {ts : List Ty} (h : l.Places ts) {i : Nat} {t : Ty}
    (ht : ts[i]? = some t) :
    ∃ e, l.extents[i]? = some e ∧ e.size = t.size.toNat ∧ e.stop ≤ l.size.toNat := by
  have hlt : i < l.extents.size := by
    rw [h.length]
    exact (List.getElem?_eq_some_iff.mp ht).1
  have he : l.extents[i]? = some l.extents[i] := Array.getElem?_eq_getElem hlt
  exact ⟨_, he, h.size he ht, h.within he⟩

theorem exists_type {l : Layout} {ts : List Ty} (h : l.Places ts) {i : Nat} {e : Extent}
    (he : l.extents[i]? = some e) : ∃ t, ts[i]? = some t := by
  have hlt : i < ts.length := by
    rw [← h.length]
    exact (Array.getElem?_eq_some_iff.mp he).1
  exact ⟨_, List.getElem?_eq_getElem hlt⟩

theorem disjoint {l : Layout} {ts : List Ty} (h : l.Places ts) {i j : Nat} {e e' : Extent}
    (hij : i ≠ j) (he : l.extents[i]? = some e) (he' : l.extents[j]? = some e') :
    e.stop ≤ e'.start ∨ e'.stop ≤ e.start := by
  rcases Nat.lt_or_gt_of_ne hij with hlt | hgt
  · exact Or.inl (h.ordered hlt he he')
  · exact Or.inr (h.ordered hgt he' he)

end Layout.Places

/-! ## 3. Frames -/

/-- The layouts that a program keeps are those of its definitions. -/
structure Code.Laid (c : Code) : Prop where
  frame : c.frame.layout.Places (c.definition.regTypes.toList ++ c.definition.slotTypes.toList)
  regCount : c.frame.regCount = c.definition.regTypes.size
  args : c.args.Places c.definition.signature.args

namespace Code.Laid

variable {c : Code} (hc : c.Laid)
include hc

theorem exists_regExtent {r : Reg} {t : Ty} (ht : c.definition.regType? r = some t) :
    ∃ e, c.frame.regExtent? r = some e ∧ e.size = t.size.toNat := by
  have hlt : r.index < c.definition.regTypes.size := (Array.getElem?_eq_some_iff.mp ht).1
  have hget : (c.definition.regTypes.toList ++ c.definition.slotTypes.toList)[r.index]? =
      some t := by
    rw [List.getElem?_append_left (by rwa [Array.length_toList]), Array.getElem?_toList]
    exact ht
  obtain ⟨e, he, hsize, -⟩ := hc.frame.exists_extent hget
  refine ⟨e, ?_, hsize⟩
  rw [FrameLayout.regExtent?, if_pos (by rw [hc.regCount]; exact hlt)]
  exact he

theorem exists_regType {r : Reg} {e : Extent} (he : c.frame.regExtent? r = some e) :
    ∃ t, c.definition.regType? r = some t ∧ e.size = t.size.toNat := by
  unfold FrameLayout.regExtent? at he
  split at he
  · rename_i hlt
    rw [hc.regCount] at hlt
    have ht : c.definition.regTypes[r.index]? = some c.definition.regTypes[r.index] :=
      Array.getElem?_eq_getElem hlt
    refine ⟨_, ht, hc.frame.size he ?_⟩
    rw [List.getElem?_append_left (by rwa [Array.length_toList]), Array.getElem?_toList]
    exact ht
  · cases he

theorem size_of_reg {r : Reg} {t : Ty} {e : Extent} (ht : c.definition.regType? r = some t)
    (he : c.frame.regExtent? r = some e) : e.size = t.size.toNat := by
  obtain ⟨e', he', hsize⟩ := hc.exists_regExtent ht
  rw [he] at he'
  cases he'
  exact hsize

theorem exists_slotExtent {s : SlotId} {t : Ty} (ht : c.definition.slotTypes[s.index]? = some t) :
    ∃ e, c.frame.slotExtent? s = some e ∧ e.size = t.size.toNat := by
  have hget : (c.definition.regTypes.toList ++ c.definition.slotTypes.toList)[
      c.frame.regCount + s.index]? = some t := by
    rw [hc.regCount, List.getElem?_append_right (by rw [Array.length_toList]; omega),
      Array.length_toList, Nat.add_sub_cancel_left, Array.getElem?_toList]
    exact ht
  obtain ⟨e, he, hsize, -⟩ := hc.frame.exists_extent hget
  exact ⟨e, he, hsize⟩

theorem size_of_slot {s : SlotId} {t : Ty} {e : Extent}
    (ht : c.definition.slotTypes[s.index]? = some t) (he : c.frame.slotExtent? s = some e) :
    e.size = t.size.toNat := by
  obtain ⟨e', he', hsize⟩ := hc.exists_slotExtent ht
  rw [he] at he'
  cases he'
  exact hsize

theorem exists_slotType {s : SlotId} {e : Extent} (he : c.frame.slotExtent? s = some e) :
    ∃ t, c.definition.slotTypes[s.index]? = some t ∧ e.size = t.size.toNat := by
  obtain ⟨t, ht⟩ := hc.frame.exists_type he
  refine ⟨t, ?_, hc.frame.size he ht⟩
  rw [hc.regCount, List.getElem?_append_right (by rw [Array.length_toList]; omega),
    Array.length_toList, Nat.add_sub_cancel_left, Array.getElem?_toList] at ht
  exact ht

theorem reg_within {r : Reg} {e : Extent} (he : c.frame.regExtent? r = some e) :
    e.stop ≤ c.frame.size := by
  unfold FrameLayout.regExtent? at he
  split at he
  · exact hc.frame.within he
  · cases he

theorem slot_within {s : SlotId} {e : Extent} (he : c.frame.slotExtent? s = some e) :
    e.stop ≤ c.frame.size := hc.frame.within he

theorem regs_disjoint {r r' : Reg} {e e' : Extent} (hne : r ≠ r')
    (he : c.frame.regExtent? r = some e) (he' : c.frame.regExtent? r' = some e') :
    e.stop ≤ e'.start ∨ e'.stop ≤ e.start := by
  unfold FrameLayout.regExtent? at he he'
  split at he
  · split at he'
    · have hindex : r.index ≠ r'.index := by
        intro heq
        cases r
        cases r'
        exact hne (congrArg Reg.mk heq)
      exact hc.frame.disjoint hindex he he'
    · cases he'
  · cases he

/-- The slots lie behind the registers. -/
theorem reg_before_slot {r : Reg} {s : SlotId} {e e' : Extent}
    (he : c.frame.regExtent? r = some e) (he' : c.frame.slotExtent? s = some e') :
    e.stop ≤ e'.start := by
  unfold FrameLayout.regExtent? at he
  split at he
  · rename_i hlt
    exact hc.frame.ordered (Nat.lt_of_lt_of_le hlt (Nat.le_add_right _ _)) he he'
  · cases he

end Code.Laid

/-- Every definition of the program is laid out. -/
def Program.Laid (p : Program) : Prop := ∀ f c, p.linked? f = some (.code c) → c.Laid

theorem FrameLayout.places_of_ofDefinition? {d : Definition} {f : FrameLayout}
    (h : FrameLayout.ofDefinition? d = some f) :
    f.layout.Places (d.regTypes.toList ++ d.slotTypes.toList) ∧ f.regCount = d.regTypes.size := by
  unfold FrameLayout.ofDefinition? at h
  split at h
  · cases h
  · rename_i l hl
    cases h
    exact ⟨Layout.Places.of_ofTypes? hl, rfl⟩

theorem Linked.function_of_ofFunction {f : Function} {l : Linked}
    (h : Linked.ofFunction f = .ok l) : l.function = f := by
  unfold Linked.ofFunction at h
  split at h
  · split at h
    · cases h
      rfl
    · cases h
  · split at h
    · cases h
      rfl
    · cases h

theorem Linked.laid_of_ofFunction {f : Function} {c : Code}
    (h : Linked.ofFunction f = .ok (.code c)) : c.Laid := by
  unfold Linked.ofFunction at h
  split at h
  · split at h
    · rename_i frame args hframe hargs
      cases h
      have hplaces := FrameLayout.places_of_ofDefinition? hframe
      exact ⟨hplaces.1, hplaces.2, Layout.Places.of_ofTypes? hargs⟩
    · cases h
  · split at h
    · cases h
    · cases h

end RegIR
