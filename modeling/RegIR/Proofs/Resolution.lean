import RegIR.Proofs.Discipline
/-!
# Resolving addresses

An address that an access may use is the start of a slot of a live activation, and the access
learns which one.  Since frames do not overlap, an offset inside a frame has one owner only.
-/

namespace RegIR

/-- The slot of the code starts at an offset of its frame and holds values of type `t`. -/
structure Code.SlotAt (c : Code) (offset : Nat) (t : Ty) (slot : SlotId) (e : Extent) : Prop where
  type : c.definition.slotTypes[slot.index]? = some t
  extent : c.frame.slotExtent? slot = some e
  start : e.start = offset

theorem Code.exists_slot_of_mem_slotsAt {c : Code} {offset : Nat} {t : Ty}
    (h : t ∈ c.slotsAt offset) : ∃ slot e, c.SlotAt offset t slot e := by
  unfold Code.slotsAt at h
  rw [List.mem_map] at h
  obtain ⟨⟨u, i⟩, hmem, rfl⟩ := h
  rw [List.mem_filter, List.mem_zipIdx_iff_getElem?, Array.getElem?_toList] at hmem
  obtain ⟨htype, hextent⟩ := hmem
  dsimp only at htype hextent
  cases he : c.frame.slotExtent? ⟨i⟩ with
  | none =>
    rw [he] at hextent
    cases hextent
  | some e =>
    rw [he] at hextent
    exact ⟨⟨i⟩, e, htype, he, by simpa using hextent⟩

namespace Machine

theorem stackOffset?_eq_some {address : UInt64} {offset : Nat} :
    stackOffset? address = some offset ↔ address.toNat = stackBase + offset := by
  unfold stackOffset?
  split
  · rw [Option.some.injEq]
    omega
  · simp only [reduceCtorEq, false_iff]
    omega

namespace CallStack

variable {c : CallStack}

/-! ## 1. Owners -/

theorem ownerBelow?_eq_some {n : Nat} {offset depth : Nat} {a : Activation}
    (hn : n ≤ c.below.size) (h : ownerBelow? c.below offset n = some (depth, a)) :
    depth < n ∧ c.activation? depth = some a ∧ a.frameBase ≤ offset ∧ offset < a.frameEnd := by
  -- The search goes from the newest waiting activation down to the oldest.
  induction n with
  | zero => cases h
  | succ n ih =>
    unfold ownerBelow? at h
    split at h
    · cases h
    · rename_i u hu
      split at h
      · split at h
        · cases h
          exact ⟨Nat.lt_succ_self _, activation?_below hu, by assumption, by assumption⟩
        · cases h
      · obtain ⟨hlt, hrest⟩ := ih (by omega) h
        exact ⟨by omega, hrest⟩

theorem ownerOf?_eq_some {offset depth : Nat} {a : Activation}
    (h : c.ownerOf? offset = some (depth, a)) :
    c.activation? depth = some a ∧ a.frameBase ≤ offset ∧ offset < a.frameEnd := by
  unfold ownerOf? at h
  split at h
  · split at h
    · cases h
      exact ⟨c.activation?_top, by assumption, by assumption⟩
    · cases h
  · exact (ownerBelow?_eq_some (Nat.le_refl _) h).2

/-- The newest activation that starts at or below an offset inside its frame owns it. -/
theorem ownerBelow?_of_newest {n : Nat} {offset depth : Nat} {a : Activation}
    (hn : n ≤ c.below.size) (hdepth : depth < n) (ha : c.activation? depth = some a)
    (hbase : a.frameBase ≤ offset) (hend : offset < a.frameEnd)
    (hnewer : ∀ j b, depth < j → c.activation? j = some b → offset < b.frameBase) :
    ownerBelow? c.below offset n = some (depth, a) := by
  induction n with
  | zero => omega
  | succ n ih =>
    have hu : c.below[n]? = some c.below[n] := Array.getElem?_eq_getElem (by omega)
    have hlive := activation?_below hu
    unfold ownerBelow?
    rw [hu]
    dsimp only
    -- Newer activations start above the offset, so the search passes them by.
    by_cases hi : n = depth
    · subst hi
      rw [ha] at hlive
      cases hlive
      rw [if_pos hbase, if_pos hend]
    · have hoff := hnewer n _ (by omega) hlive
      rw [if_neg (by omega)]
      exact ih (by omega) (by omega)

theorem ownerOf?_of_newest {offset depth : Nat} {a : Activation}
    (ha : c.activation? depth = some a) (hbase : a.frameBase ≤ offset) (hend : offset < a.frameEnd)
    (hnewer : ∀ j b, depth < j → c.activation? j = some b → offset < b.frameBase) :
    c.ownerOf? offset = some (depth, a) := by
  unfold ownerOf?
  by_cases hi : depth = c.below.size
  · subst hi
    rw [activation?_top] at ha
    cases ha
    rw [if_pos hbase, if_pos hend]
  · have hlt : depth < c.below.size := by
      have := le_of_activation? ha
      omega
    have htop := hnewer _ _ hlt c.activation?_top
    rw [if_neg (by omega)]
    exact ownerBelow?_of_newest (Nat.le_refl _) hlt ha hbase hend hnewer

end CallStack

/-- Inside its frame, a live activation owns every offset. -/
theorem Stacked.ownerOf? {p : Program} {s : State} (hs : Stacked p s) {offset depth : Nat}
    {a : Activation} (ha : s.calls.activation? depth = some a) (hbase : a.frameBase ≤ offset)
    (hend : offset < a.frameEnd) : s.calls.ownerOf? offset = some (depth, a) := by
  refine CallStack.ownerOf?_of_newest ha hbase hend ?_
  intro j b hj hb
  have hord := hs.ordered depth j a b hj ha hb
  have hargs := hs.args j b hb
  omega

/-! ## 2. Resolution -/

/-- The place is the start of a slot of a live activation, whose type has the kind of `t`. -/
inductive CallStack.Resolves (c : CallStack) (address : UInt64) (t : Ty) (place : Place) : Prop
  | intro {owner : Activation} {u : Ty} {slot : SlotId} {e : Extent}
      (hlive : c.activation? place.depth = some owner)
      (haddress : address.toNat = stackBase + place.offset)
      (hslot : owner.code.SlotAt (place.offset - owner.frameBase) u slot e)
      (hkind : u.kind = t.kind) (hoffset : place.offset = owner.frameBase + e.start) :
      Resolves c address t place

theorem CallStack.resolves_of_resolve {c : CallStack} {address : UInt64} {t : Ty} {place : Place}
    (h : c.resolve address t = .ok place) : c.Resolves address t place := by
  unfold resolve at h
  split at h
  · cases h
  · rename_i offset haddress
    rw [stackOffset?_eq_some] at haddress
    split at h
    · cases h
    · rename_i depth owner howner
      obtain ⟨hlive, hbase, -⟩ := ownerOf?_eq_some howner
      dsimp only at h
      split at h
      · rename_i hany
        cases h
        obtain ⟨u, hmem, hcompat⟩ := List.any_eq_true.mp hany
        obtain ⟨slot, e, hslot⟩ := Code.exists_slot_of_mem_slotsAt hmem
        have hstart := hslot.start
        exact ⟨hlive, haddress, hslot, Ty.compatible_iff.mp hcompat, by dsimp only; omega⟩
      · split at h <;> cases h

/-- The owner of a resolved place has it inside its frame. -/
theorem CallStack.ownerOf?_of_resolve {c : CallStack} {address : UInt64} {t : Ty} {place : Place}
    (h : c.resolve address t = .ok place) :
    ∃ owner, c.ownerOf? place.offset = some (place.depth, owner) := by
  unfold resolve at h
  split at h
  · cases h
  · split at h
    · cases h
    · rename_i howner
      dsimp only at h
      split at h
      · cases h
        exact ⟨_, howner⟩
      · split at h <;> cases h

/-- An address that is refused is refused as such. -/
theorem CallStack.error_of_resolve {c : CallStack} {address : UInt64} {t : Ty} {h : Halt}
    (hr : c.resolve address t = .error h) :
    h = .fault (.invalidPointer address t.size) ∨
      ∃ expected, h = .fault (.accessTypeMismatch c.top.name address expected t) := by
  unfold resolve at hr
  split at hr
  · cases hr
    exact Or.inl rfl
  · split at hr
    · cases hr
      exact Or.inl rfl
    · dsimp only at hr
      split at hr
      · cases hr
      · split at hr
        · cases hr
          exact Or.inl rfl
        · cases hr
          exact Or.inr ⟨_, rfl⟩

/-- A pointer that may be returned lies below the argument block. -/
theorem lt_of_checkReturn {a : Activation} {m : Memory} {value : Reg} {t : Ty} {e : Extent}
    {w : UInt64} (ht : a.code.definition.regType? value = some t) (hkind : t.kind = .pointer)
    (he : a.code.frame.regExtent? value = some e)
    (hword : m.word64? (a.frameBase + e.start) = some w)
    (h : checkReturn a m value = .ok ()) : w.toNat < stackBase + a.argsBase := by
  unfold checkReturn at h
  obtain ⟨t', ht', h⟩ := Except.bind_eq_ok.mp h
  rw [Activation.typeOf_eq_ok, ht] at ht'
  cases ht'
  rw [if_pos (Ty.isPointer_iff.mpr hkind)] at h
  obtain ⟨w', hw', h⟩ := Except.bind_eq_ok.mp h
  obtain ⟨e', he', hword'⟩ := Activation.readPointer_eq_ok hw'
  rw [he] at he'
  cases he'
  rw [hword] at hword'
  cases hword'
  split at h
  · rename_i hnone
    unfold stackOffset? at hnone
    split at hnone
    · cases hnone
    · omega
  · rename_i offset hoffset
    rw [stackOffset?_eq_some] at hoffset
    split at h
    · cases h
    · omega

end Machine

end RegIR
