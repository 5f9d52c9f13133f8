import RegIR.Proofs.Frames
/-!
# Access to registers

A register of a laid out frame that lies on the stack can be read and written at its type.
Reading finds what is there; writing changes the bytes of the register and nothing else.
-/

namespace RegIR.Machine

open Memory

/-- The `len` bytes from `dst` on become those from `src` on, and nothing else changes. -/
structure Copied (m n : Memory) (src dst len : Nat) : Prop where
  outside : AgreeOutside m n dst len
  inside : SameArea n m dst src len

theorem copied_of_copyWithin {m n : Memory} {src dst len : Nat}
    (h : m.copyWithin src (src + len) dst = .ok n) : Copied m n src dst len := by
  have hout := agreeOutside_of_copyWithin (Nat.le_add_right _ _) h
  have hin := sameArea_of_copyWithin (Nat.le_add_right _ _) h
  rw [Nat.add_sub_cancel_left] at hout hin
  exact ⟨hout, hin⟩

/-- Areas within the memory can be copied. -/
theorem exists_copied {m : Memory} {src dst len : Nat} (hsrc : src + len ≤ m.size)
    (hdst : dst + len ≤ m.size) :
    ∃ n, m.copyWithin src (src + len) dst = .ok n ∧ Copied m n src dst len := by
  obtain ⟨n, hn⟩ : ∃ n, m.copyWithin src (src + len) dst = .ok n :=
    copyWithin_ok hsrc (by rwa [Nat.add_sub_cancel_left])
  exact ⟨n, hn, copied_of_copyWithin hn⟩

namespace Activation

/-! ## 1. What an access did -/

variable {a : Activation} {m n : Memory} {r : Reg}

theorem typeOf_eq_ok {t : Ty} : a.typeOf r = .ok t ↔ a.code.definition.regType? r = some t := by
  unfold typeOf
  constructor
  · intro h
    split at h
    · cases h
    · cases h
      assumption
  · intro h
    rw [h]

theorem readInt_eq_ok {v : Int32} (h : a.readInt m r = .ok v) :
    ∃ e w, a.code.frame.regExtent? r = some e ∧ m.word32? (a.frameBase + e.start) = some w ∧
      v = w.toInt32 := by
  unfold readInt at h
  obtain ⟨e', he', h⟩ := Except.bind_eq_ok.mp h
  obtain ⟨e, he, rfl⟩ := extent_eq_ok he'
  split at h
  · cases h
  · rename_i w hw
    cases h
    exact ⟨e, w, he, hw, rfl⟩

theorem writeInt_eq_ok {v : Int32} (h : a.writeInt m r v = .ok n) :
    ∃ e, a.code.frame.regExtent? r = some e ∧ AgreeOutside m n (a.frameBase + e.start) 4 ∧
      n.word32? (a.frameBase + e.start) = some v.toUInt32 := by
  unfold writeInt at h
  obtain ⟨e', he', h⟩ := Except.bind_eq_ok.mp h
  obtain ⟨e, he, rfl⟩ := extent_eq_ok he'
  split at h
  · cases h
  · rename_i n' hset
    cases h
    exact ⟨e, he, agreeOutside_of_setWord32? hset, word32?_of_setWord32? hset⟩

theorem readPointer_eq_ok {w : UInt64} (h : a.readPointer m r = .ok w) :
    ∃ e, a.code.frame.regExtent? r = some e ∧ m.word64? (a.frameBase + e.start) = some w := by
  unfold readPointer at h
  obtain ⟨e', he', h⟩ := Except.bind_eq_ok.mp h
  obtain ⟨e, he, rfl⟩ := extent_eq_ok he'
  split at h
  · cases h
  · rename_i w' hw
    cases h
    exact ⟨e, he, hw⟩

/-! ## 2. What an access can do -/

/-- The frame is laid out as the code says and lies on the stack. -/
structure Framed (a : Activation) (m : Memory) : Prop where
  laid : a.code.Laid
  fits : a.frameEnd ≤ m.size

namespace Framed

variable (ha : a.Framed m)
include ha

theorem reg_within {e : Extent} (he : a.code.frame.regExtent? r = some e) :
    a.frameBase + e.stop ≤ m.size := by
  have hstop := ha.laid.reg_within he
  have hfits := ha.fits
  rw [frameEnd] at hfits
  omega

theorem extent {t : Ty} (ht : a.code.definition.regType? r = some t) :
    ∃ e, a.code.frame.regExtent? r = some e ∧
      a.extent r = .ok ⟨a.frameBase + e.start, t.size.toNat⟩ ∧
      a.frameBase + e.start + t.size.toNat ≤ m.size := by
  obtain ⟨e, he, hsize⟩ := ha.laid.exists_regExtent ht
  have hwithin := ha.reg_within he
  rw [Extent.stop, hsize] at hwithin
  refine ⟨e, he, ?_, by omega⟩
  rw [extent_of_regExtent? he, hsize]

theorem readInt (ht : a.code.definition.regType? r = some .int) :
    ∃ v, a.readInt m r = .ok v := by
  obtain ⟨e, he, hext, hfits⟩ := ha.extent ht
  obtain ⟨w, hw⟩ := exists_word32? (m := m) hfits
  exact ⟨w.toInt32, Except.bind_eq_ok.mpr ⟨_, hext, by rw [hw]⟩⟩

theorem writeInt (ht : a.code.definition.regType? r = some .int) (v : Int32) :
    ∃ n, a.writeInt m r v = .ok n := by
  obtain ⟨e, he, hext, hfits⟩ := ha.extent ht
  obtain ⟨n, hn⟩ := setWord32?_ok (m := m) (w := v.toUInt32) hfits
  exact ⟨n, Except.bind_eq_ok.mpr ⟨_, hext, by rw [hn]⟩⟩

theorem readPointer (ht : a.code.definition.regType? r = some .pointer) :
    ∃ w, a.readPointer m r = .ok w := by
  obtain ⟨e, he, hext, hfits⟩ := ha.extent ht
  obtain ⟨w, hw⟩ := exists_word64? (m := m) hfits
  exact ⟨w, Except.bind_eq_ok.mpr ⟨_, hext, by rw [hw]⟩⟩

theorem readInts {rs : List Reg}
    (hrs : ∀ r ∈ rs, a.code.definition.regType? r = some .int) :
    ∃ vs, a.readInts m rs = .ok vs := by
  -- The registers are read one by one, and each of them is an integer.
  induction rs with
  | nil => exact ⟨[], rfl⟩
  | cons r rs ih =>
    obtain ⟨v, hv⟩ := ha.readInt (hrs r List.mem_cons_self)
    obtain ⟨vs, hvs⟩ := ih fun r' hr' => hrs r' (List.mem_cons_of_mem r hr')
    refine ⟨v :: vs, ?_⟩
    rw [Activation.readInts, hv, hvs]
    rfl

end Framed

end Activation

end RegIR.Machine
