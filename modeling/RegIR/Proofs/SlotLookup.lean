import RegIR.Proofs.Transfers
/-!
# Looking up addresses

An access looks for a slot of its kind that starts at the address.  The machine searches the one
frame that the address lies in, so it finds exactly the slots that start before the end of their
frame.  A slot without bytes may start at the end, and there it is found only where another slot
of its kind begins.
-/

namespace RegIR

theorem Code.mem_slotsAt_iff {c : Code} {offset : Nat} {t : Ty} :
    t ∈ c.slotsAt offset ↔ ∃ slot e, c.SlotAt offset t slot e := by
  constructor
  · exact Code.exists_slot_of_mem_slotsAt
  · rintro ⟨⟨i⟩, e, htype, hextent, hstart⟩
    unfold Code.slotsAt
    refine List.mem_map.mpr ⟨(t, i), List.mem_filter.mpr ⟨?_, ?_⟩, rfl⟩
    · rw [List.mem_zipIdx_iff_getElem?, Array.getElem?_toList]
      exact htype
    · dsimp only
      rw [hextent]
      exact beq_iff_eq.mpr hstart

namespace Machine

/-! ## 1. Slots at an address -/

namespace CallStack

/-- At the address starts a slot of type `u` of a live activation, at a place on the stack. -/
structure Starts (c : CallStack) (address : UInt64) (place : Place) (u : Ty) : Prop where
  slot : ∃ k, c.Binds ⟨place.depth, .slot k⟩ u place.offset
  address : address.toNat = stackBase + place.offset

/-- The place lies before the end of its frame. -/
def Inside (c : CallStack) (place : Place) : Prop :=
  ∃ a, c.activation? place.depth = some a ∧ place.offset < a.frameEnd

/-- The place lies at the very end of its frame. -/
def AtEnd (c : CallStack) (place : Place) : Prop :=
  ∃ a, c.activation? place.depth = some a ∧ place.offset = a.frameEnd

def StartsInside (c : CallStack) (address : UInt64) (place : Place) (u : Ty) : Prop :=
  c.Starts address place u ∧ c.Inside place

/-- An access with type `t` to the address finds its slot among those of a set: one of its kind if
there is any, and otherwise it reports another one, or that there is none. -/
structure Searches (c : CallStack) (address : UInt64) (t : Ty) (among : Place → Ty → Prop) :
    Prop where
  found : (∃ place, c.resolve address t = .ok place) ↔ ∃ place u, among place u ∧ u.kind = t.kind
  place : ∀ place, c.resolve address t = .ok place → ∃ u, among place u ∧ u.kind = t.kind
  mismatch : (∃ name expected, c.resolve address t =
      .error (.fault (.accessTypeMismatch name address expected t))) ↔
    (∃ place u, among place u) ∧ ∀ place u, among place u → u.kind ≠ t.kind
  reported : ∀ name expected, c.resolve address t =
      .error (.fault (.accessTypeMismatch name address expected t)) →
    name = c.top.name ∧ ∃ place, among place expected
  invalid : c.resolve address t = .error (.fault (.invalidPointer address t.size)) ↔
    ∀ place u, ¬ among place u

/-- A slot at the very end of its frame is missed by an access with type `t`: no slot at the
address starts before the end of its frame, or none that does has the kind of this one. -/
inductive Hides (c : CallStack) (address : UInt64) (t : Ty) : Prop
  | alone {place : Place} {u : Ty} (h : c.Starts address place u) (hend : c.AtEnd place)
      (hnone : ∀ q v, ¬ c.StartsInside address q v) : Hides c address t
  | ofKind {place : Place} {u : Ty} (h : c.Starts address place u) (hend : c.AtEnd place)
      (hkind : u.kind = t.kind) (hnone : ∀ q v, c.StartsInside address q v → v.kind ≠ t.kind) :
      Hides c address t

variable {c : CallStack} {address : UInt64} {t : Ty} {among : Place → Ty → Prop}

theorem searches_of_found {place : Place} {u : Ty} (hr : c.resolve address t = .ok place)
    (h : among place u) (hkind : u.kind = t.kind) : c.Searches address t among := by
  constructor <;> rw [hr]
  · exact ⟨fun _ => ⟨place, u, h, hkind⟩, fun _ => ⟨place, rfl⟩⟩
  · rintro _ ⟨⟩
    exact ⟨u, h, hkind⟩
  · constructor
    · rintro ⟨_, _, ⟨⟩⟩
    · rintro ⟨-, hnone⟩
      exact absurd hkind (hnone _ _ h)
  · rintro _ _ ⟨⟩
  · constructor
    · rintro ⟨⟩
    · intro hnone
      exact absurd h (hnone _ _)

theorem searches_of_mismatch {place : Place} {expected : Ty}
    (hr : c.resolve address t =
      .error (.fault (.accessTypeMismatch c.top.name address expected t)))
    (h : among place expected) (hnone : ∀ q v, among q v → v.kind ≠ t.kind) :
    c.Searches address t among := by
  constructor <;> rw [hr]
  · constructor
    · rintro ⟨_, ⟨⟩⟩
    · rintro ⟨q, v, hq, hkind⟩
      exact absurd hkind (hnone q v hq)
  · rintro _ ⟨⟩
  · exact ⟨fun _ => ⟨⟨place, expected, h⟩, hnone⟩, fun _ => ⟨_, _, rfl⟩⟩
  · rintro _ _ ⟨⟩
    exact ⟨rfl, place, h⟩
  · constructor
    · rintro ⟨⟩
    · intro hempty
      exact absurd h (hempty _ _)

theorem searches_of_invalid
    (hr : c.resolve address t = .error (.fault (.invalidPointer address t.size)))
    (hnone : ∀ q v, ¬ among q v) : c.Searches address t among := by
  constructor <;> rw [hr]
  · constructor
    · rintro ⟨_, ⟨⟩⟩
    · rintro ⟨q, v, hq, -⟩
      exact absurd hq (hnone q v)
  · rintro _ ⟨⟩
  · constructor
    · rintro ⟨_, _, ⟨⟩⟩
    · rintro ⟨⟨q, v, hq⟩, -⟩
      exact absurd hq (hnone q v)
  · rintro _ _ ⟨⟩
  · exact ⟨fun _ => hnone, fun _ => rfl⟩

/-- A slot of the owner of an offset starts inside its frame. -/
theorem startsInside_of_mem {offset depth : Nat} {owner : Activation} {u : Ty}
    (haddress : address.toNat = stackBase + offset)
    (howner : c.ownerOf? offset = some (depth, owner))
    (h : u ∈ owner.code.slotsAt (offset - owner.frameBase)) :
    c.StartsInside address ⟨offset, depth⟩ u := by
  obtain ⟨hlive, hbase, hend⟩ := ownerOf?_eq_some howner
  obtain ⟨k, e, htype, hextent, hstart⟩ := Code.mem_slotsAt_iff.mp h
  have hoffset : offset = owner.frameBase + e.start := by omega
  refine ⟨⟨⟨k, owner, hlive, ?_⟩, haddress⟩, owner, hlive, hend⟩
  dsimp only
  rw [hoffset]
  exact .slot htype hextent

end CallStack

/-! ## 2. What the machine finds -/

section Lookup

variable {p : Program} {s : State} {address : UInt64} {t u : Ty} {place : Place}

/-- The machine finds the owner of a slot that starts inside its frame. -/
theorem Stacked.ownerOf?_of_startsInside (hs : Stacked p s)
    (h : s.calls.StartsInside address place u) :
    ∃ owner, s.calls.ownerOf? place.offset = some (place.depth, owner) ∧
      u ∈ owner.code.slotsAt (place.offset - owner.frameBase) := by
  obtain ⟨⟨⟨k, a, ha, hcell⟩, -⟩, b, hb, hend⟩ := h
  rw [ha] at hb
  cases hb
  generalize place.offset = x at hcell hend
  cases hcell with
  | slot htype hextent =>
    refine ⟨a, hs.ownerOf? ha (Nat.le_add_right _ _) hend, ?_⟩
    exact Code.mem_slotsAt_iff.mpr ⟨k, _, htype, hextent, (Nat.add_sub_cancel_left _ _).symm⟩

/-- The machine answers for the slots that start inside their frame. -/
theorem Stacked.resolve_cases (hs : Stacked p s) (address : UInt64) (t : Ty) :
    (∃ place u, s.calls.resolve address t = .ok place ∧ s.calls.StartsInside address place u ∧
      u.kind = t.kind) ∨
    (∃ place expected, s.calls.resolve address t =
        .error (.fault (.accessTypeMismatch s.calls.top.name address expected t)) ∧
      s.calls.StartsInside address place expected ∧
      ∀ q v, s.calls.StartsInside address q v → v.kind ≠ t.kind) ∨
    (s.calls.resolve address t = .error (.fault (.invalidPointer address t.size)) ∧
      ∀ q v, ¬ s.calls.StartsInside address q v) := by
  unfold CallStack.resolve
  cases hoffset : stackOffset? address with
  | none =>
    -- The address lies below the stack.
    refine Or.inr (Or.inr ⟨rfl, ?_⟩)
    rintro q v ⟨⟨-, haddress⟩, -⟩
    rw [← stackOffset?_eq_some, hoffset] at haddress
    cases haddress
  | some offset =>
    have haddress := stackOffset?_eq_some.mp hoffset
    have hplace : ∀ {q : Place} {v : Ty}, s.calls.StartsInside address q v → q.offset = offset := by
      rintro q v ⟨⟨-, hq⟩, -⟩
      omega
    dsimp only
    cases howner : s.calls.ownerOf? offset with
    | none =>
      refine Or.inr (Or.inr ⟨rfl, ?_⟩)
      intro q v hq
      obtain ⟨owner, hfound, -⟩ := hs.ownerOf?_of_startsInside hq
      rw [hplace hq, howner] at hfound
      cases hfound
    | some found =>
      obtain ⟨depth, owner⟩ := found
      dsimp only
      -- Every slot that starts there inside its frame is one of the owner.
      have hmem : ∀ {q : Place} {v : Ty}, s.calls.StartsInside address q v →
          v ∈ owner.code.slotsAt (offset - owner.frameBase) := by
        intro q v hq
        obtain ⟨owner', hfound, hv⟩ := hs.ownerOf?_of_startsInside hq
        rw [hplace hq] at hfound hv
        rw [howner] at hfound
        cases hfound
        exact hv
      generalize hslots : owner.code.slotsAt (offset - owner.frameBase) = slots at hmem
      have hstarts : ∀ {v : Ty}, v ∈ slots → s.calls.StartsInside address ⟨offset, depth⟩ v :=
        fun hv => CallStack.startsInside_of_mem haddress howner (hslots ▸ hv)
      split
      · rename_i hany
        obtain ⟨v, hv, hcompatible⟩ := List.any_eq_true.mp hany
        exact Or.inl ⟨_, v, rfl, hstarts hv, Ty.compatible_iff.mp hcompatible⟩
      · rename_i hany
        have hnone : ∀ q v, s.calls.StartsInside address q v → v.kind ≠ t.kind :=
          fun q v hq hkind =>
            hany (List.any_eq_true.mpr ⟨v, hmem hq, Ty.compatible_iff.mpr hkind⟩)
        cases slots with
        | nil => exact Or.inr (Or.inr ⟨rfl, fun q v hq => List.not_mem_nil (hmem hq)⟩)
        | cons expected rest =>
          exact Or.inr (Or.inl ⟨_, expected, rfl, hstarts List.mem_cons_self, hnone⟩)

/-- An access searches the slots that start before the end of their frame. -/
theorem Stacked.searches_inside (hs : Stacked p s) (address : UInt64) (t : Ty) :
    s.calls.Searches address t (s.calls.StartsInside address) := by
  rcases hs.resolve_cases address t with
    ⟨place, u, hr, h, hkind⟩ | ⟨place, expected, hr, h, hnone⟩ | ⟨hr, hnone⟩
  · exact CallStack.searches_of_found hr h hkind
  · exact CallStack.searches_of_mismatch hr h hnone
  · exact CallStack.searches_of_invalid hr hnone

/-- A slot starts before the end of its frame or at it. -/
theorem Stacked.inside_or_atEnd (hp : p.Laid) (hs : Stacked p s)
    (h : s.calls.Starts address place u) :
    s.calls.Inside place ∨ s.calls.AtEnd place ∧ u.size.toNat = 0 := by
  obtain ⟨⟨k, a, ha, hcell⟩, -⟩ := h
  have hwithin := (hs.holds_within hp ha hcell).2
  by_cases hlt : place.offset < a.frameEnd
  · exact Or.inl ⟨a, ha, hlt⟩
  · exact Or.inr ⟨⟨a, ha, by omega⟩, by omega⟩

/-- An access searches all slots that start at the address, unless one at the end of its frame is
missed. -/
theorem Stacked.searches_iff_not_hides (hp : p.Laid) (hs : Stacked p s) (address : UInt64)
    (t : Ty) : s.calls.Searches address t (s.calls.Starts address) ↔ ¬ s.calls.Hides address t := by
  have hinside := hs.searches_inside address t
  constructor
  · intro hall hhides
    cases hhides with
    | alone h _ hnone => exact hall.invalid.mp (hinside.invalid.mpr hnone) _ _ h
    | ofKind h _ hkind hnone =>
      obtain ⟨q, v, hq, hv⟩ := hinside.found.mp (hall.found.mpr ⟨_, _, h, hkind⟩)
      exact hnone q v hq hv
  · intro hhides
    rcases hs.resolve_cases address t with
      ⟨place, u, hr, h, hkind⟩ | ⟨place, expected, hr, h, hnone⟩ | ⟨hr, hnone⟩
    · exact CallStack.searches_of_found hr h.1 hkind
    · refine CallStack.searches_of_mismatch hr h.1 ?_
      intro q v hq hkind
      rcases hs.inside_or_atEnd hp hq with hin | ⟨hend, -⟩
      · exact hnone q v ⟨hq, hin⟩ hkind
      · exact hhides (.ofKind hq hend hkind hnone)
    · refine CallStack.searches_of_invalid hr ?_
      intro q v hq
      rcases hs.inside_or_atEnd hp hq with hin | ⟨hend, -⟩
      · exact hnone q v ⟨hq, hin⟩
      · exact hhides (.alone hq hend hnone)

/-- Where every slot has bytes, none is missed. -/
theorem Stacked.not_hides_of_sized (hp : p.Laid) (hs : Stacked p s)
    (hsized : ∀ (g : FuncId) (c : Code) (i : Nat) (v : Ty), p.linked? g = some (.code c) →
      c.definition.slotTypes[i]? = some v → 0 < v.size.toNat) : ¬ s.calls.Hides address t := by
  have hempty : ∀ {q : Place} {v : Ty}, s.calls.Starts address q v → ¬ s.calls.AtEnd q := by
    rintro q v hq ⟨b, hb, hend⟩
    rcases hs.inside_or_atEnd hp hq with ⟨a, ha, hlt⟩ | ⟨-, hzero⟩
    · rw [ha] at hb
      cases hb
      omega
    · obtain ⟨⟨k, a, ha, hcell⟩, -⟩ := hq
      obtain ⟨g, hg⟩ := hs.linked _ a ha
      generalize q.offset = x at hcell
      cases hcell with
      | slot htype _ =>
        have hpos := hsized g _ _ v hg htype
        omega
  intro hhides
  cases hhides with
  | alone h hend _ => exact hempty h hend
  | ofKind h hend _ _ => exact hempty h hend

end Lookup

/-! ## 3. Addresses that were taken -/

/-- Some of the states took the address of a slot of type `u`, at a place in an activation that has
been live since. -/
def Took (us : List State) (place : Place) (u : Ty) : Prop :=
  ∃ w ∈ since place.depth us, w.calls.below.size = place.depth ∧ ∃ target slot,
    w.calls.top.operation? = some (.stackAlloc target slot) ∧
      w.calls.Binds (w.calls.own (.slot slot)) u place.offset

/-- An access with the own type of a slot, through its address, gets to the slot.  Only the check
that keeps addresses out of older frames may refuse what is stored there. -/
structure Usable {H : Type} (env : Env H) (s : State) (place : Place) (u : Ty) : Prop where
  resolve : s.calls.resolve (addressOf place.offset) u = .ok place
  load : ∀ target pointer, s.calls.top.operation? = some (.load target pointer) →
    s.calls.top.code.definition.regType? target = some u →
    s.calls.top.readPointer s.stack pointer = .ok (addressOf place.offset) →
    ∃ t, step env s = .next t
  store : ∀ pointer source, s.calls.top.operation? = some (.store pointer source) →
    s.calls.top.code.definition.regType? source = some u →
    s.calls.top.readPointer s.stack pointer = .ok (addressOf place.offset) →
    (∃ t, step env s = .next t) ∨ u.kind = .pointer ∧
      step env s = .halted (.fault (.pointerEscape s.calls.top.name)) s.counted

/-- A variable of an activation that lives on keeps its type and its place. -/
theorem Trace.binds {H : Type} {env : Env H} {s₀ s w : State} {us : List State}
    (hp : env.program.Laid) (hs₀ : Stacked env.program s₀) (h : Trace env s₀ us s) {v : Variable}
    (hw : w ∈ since v.depth us) (hd : v.depth ≤ s.calls.below.size) {u : Ty} {x : Nat}
    (hv : w.calls.Binds v u x) : s.calls.Binds v u x := by
  induction h with
  | start => cases hw
  | step hus hst ih =>
    rename_i us s t
    obtain ⟨hn, -⟩ := (hs₀.reaches hp hus.reaches).advances hp hst
    by_cases hle : v.depth ≤ s.calls.below.size
    · rw [since_cons_of_le hle] at hw
      rcases List.mem_cons.mp hw with rfl | hw
      · exact hn.binds hv hd
      · exact hn.binds (ih hw hle) hd
    · rw [since_cons_of_lt (by omega)] at hw
      cases hw

theorem toNat_addressOf {m : Memory} {x : Nat} (h : stackBase + m.size < UInt64.size)
    (hx : x ≤ m.size) : (addressOf x).toNat = stackBase + x := by
  rw [addressOf, UInt64.toNat_ofNat_of_lt' (by omega)]

section Using

variable {H : Type} {env : Env H} {s : State} {place : Place} {u : Ty}

/-- A slot that starts inside its frame is found at its address. -/
theorem Stacked.resolve_of_inside (hp : env.program.Laid) (hs : Stacked env.program s)
    (haddr : s.Addressable) {k : SlotId} (hk : s.calls.Binds ⟨place.depth, .slot k⟩ u place.offset)
    (hin : s.calls.Inside place) : s.calls.resolve (addressOf place.offset) u = .ok place := by
  have haddress := toNat_addressOf haddr
    (Nat.le_trans (Nat.le_add_right _ _) (hs.binds_within hp hk))
  have hstarts : s.calls.StartsInside (addressOf place.offset) place u := ⟨⟨⟨k, hk⟩, haddress⟩, hin⟩
  obtain ⟨q, hq⟩ := (hs.searches_inside _ u).found.mpr ⟨place, u, hstarts, rfl⟩
  -- Frames do not overlap, so the place that was found is this one.
  obtain ⟨owner, howner, -⟩ := hs.ownerOf?_of_startsInside hstarts
  obtain ⟨v, hv, -⟩ := (hs.searches_inside _ u).place q hq
  obtain ⟨owner', howner', -⟩ := hs.ownerOf?_of_startsInside hv
  have hoffset : q.offset = place.offset := by
    have := hv.1.address
    omega
  rw [hoffset, howner] at howner'
  cases q
  cases place
  cases howner'
  cases hoffset
  exact hq

theorem Stacked.usable (hsound : env.program.Sound) (hone : env.program.OneRegistry)
    (hs : Stacked env.program s) (haddr : s.Addressable) {k : SlotId}
    (hk : s.calls.Binds ⟨place.depth, .slot k⟩ u place.offset) (hin : s.calls.Inside place) :
    Usable env s place u := by
  have hresolve := hs.resolve_of_inside hsound.laid haddr hk hin
  have hslot := hs.binds_within hsound.laid hk
  have htop := hs.top_framed hsound.laid
  refine ⟨hresolve, ?_, ?_⟩
  · intro target pointer hop ht hpointer
    obtain ⟨dst, -, hext, hfits⟩ := htop.extent ht
    obtain ⟨n, hcopy⟩ : ∃ n, s.stack.copyWithin place.offset (place.offset + u.size.toNat)
        (s.calls.top.frameBase + dst.start) = .ok n := Memory.copyWithin_ok hslot (by omega)
    have hexec : execLoad s.calls s.stack target pointer = .ok n := by
      simp only [execLoad, Activation.typeOf_eq_ok.mpr ht, hpointer, hresolve, hext, bind,
        Except.bind, moved_eq_ok]
      exact hcopy
    exact ⟨_, by rw [step_of_load hop, hexec]; rfl⟩
  · intro pointer source hop ht hpointer
    obtain ⟨src, -, hext, hfits⟩ := htop.extent ht
    obtain ⟨n, hcopy⟩ : ∃ n, s.stack.copyWithin (s.calls.top.frameBase + src.start)
        (s.calls.top.frameBase + src.start + u.size.toNat) place.offset = .ok n :=
      Memory.copyWithin_ok hfits (by omega)
    have hexec : execStore s.calls s.stack pointer source =
        (checkStore s.calls s.stack u source place.depth).bind fun _ => .ok n := by
      simp only [execStore, Activation.typeOf_eq_ok.mpr ht, hpointer, hresolve, hext, bind,
        Except.bind, Extent.stop, moved, hcopy]
    obtain ⟨f, hf⟩ := hs.linked _ _ s.calls.activation?_top
    rw [step_of_store hop, hexec]
    unfold checkStore
    split
    · rename_i hkind
      rw [Ty.isPointer_iff] at hkind
      obtain ⟨w, hw⟩ := htop.readPointer (hone.pointer_reg hf ⟨u, ht, hkind⟩)
      simp only [hw, bind, Except.bind]
      by_cases houtlives : s.calls.outlives w place.depth = true
      · rw [if_pos houtlives]
        exact Or.inr ⟨hkind, rfl⟩
      · rw [if_neg houtlives]
        exact Or.inl ⟨_, rfl⟩
    · exact Or.inl ⟨_, rfl⟩

end Using

/-! ## 4. Every state of a run -/

/-- In every state that an invocation reaches, an access to any address searches the slots that
start there before the end of their frame.  It searches all slots that start there exactly when
none at the end of its frame is missed.  Through an address that was taken of a slot the slot can
be used as long as its frame is live, if it does not start at the end of the frame. -/
theorem accesses_search_slots {H : Type} {env : Env H} {m : Module} (hbuilt : m.Built)
    (hm : m.finalize = .ok env.program) (hone : env.program.OneRegistry) {f : FuncId}
    {args : List Bytes} {returnSize : Nat} {stats : Stats} {s₀ s : State}
    (henter : enter env.program f args returnSize stats = .ok s₀) (h : Reaches env s₀ s) :
    (∀ address t, s.calls.Searches address t (s.calls.StartsInside address)) ∧
    (∀ address t, s.calls.Searches address t (s.calls.Starts address) ↔
      ¬ s.calls.Hides address t) ∧
    ((∃ us, Trace env s₀ us s) ∧ ∀ us, Trace env s₀ us s → ∀ place u, Took us place u →
      place.depth ≤ s.calls.below.size → s.calls.Inside place → s.Addressable →
      Usable env s place u) := by
  have hsound := hbuilt.sound.finalize hm
  have hs₀ := Stacked.of_enter hsound.laid henter
  have hs := hs₀.reaches hsound.laid h
  refine ⟨hs.searches_inside, hs.searches_iff_not_hides hsound.laid, exists_trace h, ?_⟩
  intro us hus place u htook hdepth hin haddr
  obtain ⟨w, hw, hsize, target, slot, -, hbinds⟩ := htook
  rw [CallStack.own, hsize] at hbinds
  have hslot := hus.binds hsound.laid hs₀ (v := ⟨place.depth, .slot slot⟩) hw hdepth hbinds
  exact hs.usable hsound hone haddr hslot hin

/-- The function takes the addresses of two slots and loads both.  The second slot is empty and
ends the frame. -/
def ending : Module :=
  (Draft.empty.run
    [.defineStruct 0 1, .declare ⟨"main", [], .int⟩, .select ⟨0⟩, .body .openBlock,
      .body (.stackAlloc .int), .body (.stackAlloc emptyTy), .body (.load ⟨0⟩ .int),
      .body (.load ⟨1⟩ emptyTy), .body (.ret ⟨2⟩)]).2.module

def endingMain : Code where
  definition := ⟨⟨"main", [], .int⟩,
    #[#[.stackAlloc ⟨0⟩ ⟨0⟩, .stackAlloc ⟨1⟩ ⟨1⟩, .load ⟨2⟩ ⟨0⟩, .load ⟨3⟩ ⟨1⟩, .ret ⟨2⟩]],
    #[.pointer, .pointer, .int, emptyTy], #[.int, emptyTy]⟩
  frame := ⟨⟨#[⟨0, 8⟩, ⟨8, 8⟩, ⟨16, 4⟩, ⟨20, 0⟩, ⟨20, 4⟩, ⟨24, 0⟩], 24, 8⟩, 4⟩
  args := ⟨#[], 0, 1⟩

def endingEnv : Env Unit where
  program := ⟨#[.code endingMain]⟩
  maxCallDepth := none
  host? _ := none

theorem finalize_ending : ending.finalize = .ok endingEnv.program :=
  Module.finalize_eq_ok_iff.mpr ⟨by decide +kernel, by cbv, by decide +kernel⟩

theorem ownTypes_ending : ending.OwnTypes := by
  have hfunctions : ending.functions = #[.defined endingMain.definition] := by
    decide +kernel
  have htypes : ending.types = ⟨#[emptyTy]⟩ := by decide +kernel
  intro f fn t hfn ht
  rw [Registry.Knows, htypes]
  rw [Module.function?, hfunctions] at hfn
  obtain ⟨_ | k⟩ := f
  · cases hfn
    cases ht <;> simp_all [Function.signature, endingMain]
    all_goals grind
  · cases hfn

theorem run_ending : ∃ s₀ s₁ s, enter endingEnv.program ⟨0⟩ [] 4 .zero = .ok s₀ ∧
    s₀.calls = ⟨⟨endingMain, 0, 0, 0, 0⟩, #[]⟩ ∧ after? endingEnv 1 s₀ = some s₁ ∧
    s₁.calls = ⟨⟨endingMain, 0, 0, 0, 1⟩, #[]⟩ ∧ after? endingEnv 2 s₁ = some s ∧
    s.calls = ⟨⟨endingMain, 0, 0, 0, 3⟩, #[]⟩ ∧ s.stack.word64? 8 = some 65560 := by
  have hrun : (enter endingEnv.program ⟨0⟩ [] 4 .zero).toOption.any (fun s₀ =>
      (after? endingEnv 1 s₀).any fun s₁ => (after? endingEnv 2 s₁).any fun s =>
        decide (s₀.calls = ⟨⟨endingMain, 0, 0, 0, 0⟩, #[]⟩ ∧
          s₁.calls = ⟨⟨endingMain, 0, 0, 0, 1⟩, #[]⟩ ∧
          s.calls = ⟨⟨endingMain, 0, 0, 0, 3⟩, #[]⟩ ∧ s.stack.word64? 8 = some 65560)) = true := by
    decide +kernel
  obtain ⟨s₀, h₀, hrun⟩ := (Option.any_eq_true _ _).mp hrun
  obtain ⟨s₁, h₁, hrun⟩ := (Option.any_eq_true _ _).mp hrun
  obtain ⟨s, hs, hrun⟩ := (Option.any_eq_true _ _).mp hrun
  obtain ⟨hcalls₀, hcalls₁, hcalls, hword⟩ := of_decide_eq_true hrun
  exact ⟨s₀, s₁, s, Except.toOption_eq_some.mp h₀, hcalls₀, h₁, hcalls₁, hs, hcalls, hword⟩

/-- The slot with bytes is found at its address as soon as the address was taken. -/
theorem accesses_search_slots_ending :
    ∃ s₀ s, enter endingEnv.program ⟨0⟩ [] 4 .zero = .ok s₀ ∧ Reaches endingEnv s₀ s ∧
      Usable endingEnv s ⟨20, 0⟩ .int := by
  have hone := (Module.Built.sound ⟨_, rfl⟩).oneRegistry ownTypes_ending finalize_ending
  obtain ⟨s₀, s, -, henter, hcalls₀, hafter, hcalls, -⟩ := run_ending
  obtain ⟨hadvances, haddr⟩ := advances_of_after? hafter
  have hreach : Reaches endingEnv s₀ s := .single hadvances
  obtain ⟨-, -, -, husable⟩ := accesses_search_slots ⟨_, rfl⟩ finalize_ending hone henter hreach
  have htook : Took [s₀] ⟨20, 0⟩ .int := by
    refine ⟨s₀, ?_, ?_, ⟨0⟩, ⟨0⟩, ?_, ?_⟩
    · rw [since_cons_of_le (Nat.zero_le _)]
      exact List.mem_cons_self
    · rw [hcalls₀]
      rfl
    · rw [hcalls₀]
      rfl
    · rw [hcalls₀]
      exact CallStack.binds_own (.slot (e := ⟨20, 4⟩) rfl rfl)
  refine ⟨s₀, s, henter, hreach, husable _ (Trace.start.step hadvances) _ _ htook ?_ ?_ haddr⟩
  · exact Nat.zero_le _
  · rw [hcalls]
    exact ⟨_, rfl, by decide⟩

/-- The empty slot starts at its address, and the load through the address finds nothing there. -/
theorem missed_ending :
    ∃ s₀ s, ending.Built ∧ ending.OwnTypes ∧ ending.finalize = .ok endingEnv.program ∧
      enter endingEnv.program ⟨0⟩ [] 4 .zero = .ok s₀ ∧ Reaches endingEnv s₀ s ∧
      s.calls.top.operation? = some (.load ⟨3⟩ ⟨1⟩) ∧
      s.calls.top.readPointer s.stack ⟨1⟩ = .ok 65560 ∧
      s.calls.Starts 65560 ⟨24, 0⟩ emptyTy ∧
      s.calls.resolve 65560 emptyTy = .error (.fault (.invalidPointer 65560 0)) ∧
      ¬ s.calls.Searches 65560 emptyTy (s.calls.Starts 65560) := by
  obtain ⟨s₀, s₁, s, henter, -, h₁, -, hafter, hcalls, hword⟩ := run_ending
  have hreach : Reaches endingEnv s₀ s := .head (advances_of_after? h₁).1
    (reaches_of_addressable (reachesAddressable_of_after? hafter))
  have hstarts : s.calls.Starts 65560 ⟨24, 0⟩ emptyTy := by
    rw [hcalls]
    exact ⟨⟨⟨1⟩, _, rfl, .slot (e := ⟨24, 0⟩) rfl rfl⟩, rfl⟩
  have hresolve : s.calls.resolve 65560 emptyTy = .error (.fault (.invalidPointer 65560 0)) := by
    rw [hcalls]
    decide
  refine ⟨s₀, s, ⟨_, rfl⟩, ownTypes_ending, finalize_ending, henter, hreach, ?_, ?_, hstarts,
    hresolve, ?_⟩
  · rw [hcalls]
    rfl
  · rw [hcalls]
    unfold Activation.readPointer
    rw [extent_of_regExtent? (e := ⟨8, 8⟩) rfl]
    simp only [bind, Except.bind, Nat.zero_add, hword]
  · intro hsearches
    exact hsearches.invalid.mp hresolve _ _ hstarts

end Machine

end RegIR
