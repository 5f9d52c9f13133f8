import RegIR.Proofs.Cells
import RegIR.Proofs.Resolution
/-!
# Addresses and the frames that they point into

An address should not outlive the frame that it points into: it may be kept in an activation only
when its slot belongs to that activation or to an older one.  The machine sees to it at stores and
returns, with one gap.  A slot without bytes may start where its frame ends, and there the owner
of the address is not found.  The invariant holds along every run that does not store such an
address into an older frame, and fails with the first that does.
-/

namespace RegIR.Machine

open Memory

/-! ## 1. Kept addresses -/

namespace CallStack

/-- A slot of the live activation at a depth starts at the stack offset. -/
def SlotAt (c : CallStack) (depth offset : Nat) : Prop :=
  ∃ a slot e, c.activation? depth = some a ∧ a.code.frame.slotExtent? slot = some e ∧
    offset = a.frameBase + e.start

/-- The address is that of a slot of a live activation at most at a depth. -/
def PointsTo (c : CallStack) (depth : Nat) (w : UInt64) : Prop :=
  ∃ k ≤ depth, ∃ offset, c.SlotAt k offset ∧ w.toNat = stackBase + offset

/-- The memory has a word at the offset, zero or an address that may be kept at the depth. -/
def Keeps (c : CallStack) (m : Memory) (depth x : Nat) : Prop :=
  ∃ w, m.word64? x = some w ∧ (w ≠ 0 → c.PointsTo depth w)

theorem PointsTo.mono {c : CallStack} {d d' : Nat} {w : UInt64} (h : c.PointsTo d w)
    (hle : d ≤ d') : c.PointsTo d' w := by
  obtain ⟨k, hk, hslot⟩ := h
  exact ⟨k, Nat.le_trans hk hle, hslot⟩

theorem Keeps.of_sameArea {c : CallStack} {m n : Memory} {d d' x y : Nat} (h : c.Keeps m d x)
    (hle : d ≤ d') (hsame : SameArea n m y x 8) : c.Keeps n d' y := by
  obtain ⟨w, hw, hpoints⟩ := h
  exact ⟨w, by rw [word64?_congr hsame, hw], fun hne => (hpoints hne).mono hle⟩

end CallStack

/-- Every pointer that a live activation holds is zero or the address of a slot of the activation
or of an older one. -/
def NoStale (s : State) : Prop :=
  ∀ d a c t x, s.calls.activation? d = some a → a.Holds c t x → t.kind = .pointer →
    s.calls.Keeps s.stack d x

/-- Every stack offset has an address.  A row of bytes in memory is always this short. -/
def State.Addressable (s : State) : Prop := stackBase + s.stack.size < UInt64.size

/-- The next operation stores, into a slot at some depth, the address of a slot that starts at the
very end of a newer frame, and the store succeeds. -/
inductive Leaks (s : State) : Prop
  | intro {pointer source : Reg} {n : Memory} {address w : UInt64} {place : Place} {k : Nat}
      {a : Activation} {slot : SlotId} {e : Extent}
      (hop : s.calls.top.operation? = some (.store pointer source))
      (hexec : execStore s.calls s.stack pointer source = .ok n)
      (ht : s.calls.top.code.definition.regType? source = some .pointer)
      (haddress : s.calls.top.readPointer s.stack pointer = .ok address)
      (hplace : s.calls.resolve address .pointer = .ok place)
      (hw : s.calls.top.readPointer s.stack source = .ok w) (hne : w ≠ 0)
      (hk : place.depth < k) (hlive : s.calls.activation? k = some a)
      (hslot : a.code.frame.slotExtent? slot = some e) (hend : e.start = a.code.frame.size)
      (hword : w.toNat = stackBase + (a.frameBase + e.start))
      (holder : ¬ s.calls.PointsTo place.depth w) : Leaks s

/-- Eight zero bytes are no address. -/
theorem word64?_eq_zero {m : Memory} {x : Nat} (h : ∀ k < 8, m.byte? (x + k) = some 0) :
    m.word64? x = some 0 := by
  have hzeros : ∀ k < 8, (Bytes.ofWord64 0).data[k]? = some 0 := by decide
  apply word64?_of_bytes
  intro k hk
  rw [h k hk, hzeros k hk]

/-! ## 2. Steps that keep what they do not touch -/

section Transfer

variable {p : Program} {s t : State}

theorem CallStack.PointsTo.next (hn : Next p s t) {d : Nat} {w : UInt64}
    (h : s.calls.PointsTo d w) (hd : d ≤ t.calls.below.size) : t.calls.PointsTo d w := by
  obtain ⟨k, hk, offset, ⟨a, slot, e, ha, he, rfl⟩, hw⟩ := h
  obtain ⟨b, hb⟩ := CallStack.exists_activation? (Nat.le_trans hk hd)
  have hab := hn.sameFrame ha hb
  exact ⟨k, hk, _, ⟨b, slot, e, hb, hab.code ▸ he, by rw [hab.frameBase]⟩, hw⟩

theorem CallStack.Keeps.next (hn : Next p s t) {m n : Memory} {d x : Nat}
    (h : s.calls.Keeps m d x) (hd : d ≤ t.calls.below.size) (hsame : SameArea n m x x 8) :
    t.calls.Keeps n d x := by
  obtain ⟨w, hw, hpoints⟩ := h
  exact ⟨w, by rw [word64?_congr hsame, hw], fun hne => (hpoints hne).next hn hd⟩

end Transfer

/-- One cell of a live activation is written, with a word that may be kept there. -/
inductive Writes (s : State) (n : Memory) : Prop
  | intro {k : Nat} {b : Activation} {c : Cell} {u : Ty} {y : Nat}
      (hlive : s.calls.activation? k = some b) (hc : b.Holds c u y)
      (hout : AgreeOutside s.stack n y u.size.toNat)
      (hkeeps : u.kind = .pointer → s.calls.Keeps n k y) : Writes s n

/-- The target of a computed integer is an integer. -/
theorem int_of_intTo {p : Program} (hone : p.OneRegistry) {d : Definition} {op : Operation}
    {target : Reg} (hop : op.IntTo p target) (hty : op.WellTyped p.sig? d) :
    d.regType? target = some .int := by
  cases hop with
  | literal target v => exact hty
  | unary target op x => exact hty.1
  | binary target op l r => exact hty.1
  | host target args he hint =>
    obtain ⟨sig, hsig, htarget, -⟩ := hty
    rw [Signature.allInt, Bool.and_eq_true, Ty.isInt_iff] at hint
    have hret := Program.mentions_ret hsig
    rw [Program.sig?, Program.function?, he] at hsig
    cases hsig
    rw [htarget, hone.eq_int hret hint.1]

/-- A fresh activation holds zeros outside its argument block. -/
theorem Entered.zero_of_holds {c : Code} {a : Activation} {m n : Memory} (h : Entered c a m n)
    (hlaid : c.Laid) {cell : Cell} {u : Ty} {x : Nat} (hcell : a.Holds cell u x)
    (harg : ∀ i, cell ≠ .arg i) : ∀ k < u.size.toNat, n.byte? (x + k) = some 0 := by
  have hzero : ∀ {e : Extent}, e.stop ≤ c.frame.size → e.size = u.size.toNat →
      ∀ k < u.size.toNat, n.byte? (a.frameBase + e.start + k) = some 0 := by
    intro e hwithin hsize k hk
    rw [Extent.stop, hsize] at hwithin
    exact h.zero _ (by omega) (by rw [h.size]; omega)
  cases hcell with
  | arg ht he => exact absurd rfl (harg _)
  | reg ht he =>
    rw [h.code] at ht he
    exact hzero (hlaid.reg_within he) (hlaid.size_of_reg ht he)
  | slot ht he =>
    rw [h.code] at ht he
    exact hzero (hlaid.slot_within he) (hlaid.size_of_slot ht he)

/-- A fresh activation holds no pointer outside its argument block. -/
theorem Entered.keeps_of_holds {p : Program} (hone : p.OneRegistry) {f : FuncId} {c : Code}
    {a : Activation} {m n : Memory} {calls : CallStack} {d : Nat} (h : Entered c a m n)
    (hlaid : c.Laid) (hc : p.linked? f = some (.code c)) {cell : Cell} {u : Ty} {x : Nat}
    (hcell : a.Holds cell u x) (hu : u.kind = .pointer)
    (hargs : ∀ i e, c.definition.signature.args[i]? = some u → c.args.extent? i = some e →
      e.size = 8 → calls.Keeps n d (a.argsBase + e.start)) : calls.Keeps n d x := by
  have hsize := hone.size_of_pointer (hcell.mentions (h.code ▸ hc)) hu
  by_cases harg : ∃ i, cell = .arg i
  · obtain ⟨i, rfl⟩ := harg
    cases hcell with
    | arg ht he =>
      rw [h.code] at ht he
      exact hargs _ _ ht he ((hlaid.args.size he ht).trans hsize)
  · have hzero := h.zero_of_holds hlaid hcell fun i hi => harg ⟨i, hi⟩
    exact ⟨0, word64?_eq_zero fun k hk => hzero k (by omega), fun hne => absurd rfl hne⟩

section Keeping

variable {p : Program} (hsound : p.Sound) (hone : p.OneRegistry) {s : State} (hs : Stacked p s)
include hsound hone hs

omit hsound in
/-- A held pointer is eight bytes long. -/
theorem size_of_held {i : Nat} {a : Activation} {c : Cell} {t : Ty} {x : Nat}
    (ha : s.calls.activation? i = some a) (h : a.Holds c t x) (ht : t.kind = .pointer) :
    t.size.toNat = 8 := by
  obtain ⟨f, hf⟩ := hs.linked i a ha
  exact hone.size_of_pointer (h.mentions hf) ht

/-- After one cell is written, every pointer that is held may be kept where it is. -/
theorem keeps_of_writes (h : NoStale s) {n : Memory} (hw : Writes s n) {d : Nat} {a : Activation}
    {c : Cell} {t : Ty} {x : Nat} (ha : s.calls.activation? d = some a) (hc : a.Holds c t x)
    (ht : t.kind = .pointer) : s.calls.Keeps n d x := by
  obtain ⟨hb, hc', hout, hkeeps⟩ := hw
  rename_i k b c' u y
  have hsize := size_of_held hone hs ha hc ht
  -- The cell is the one that was written, or it does not overlap with it.
  by_cases hcell : d = k ∧ c = c'
  · obtain ⟨rfl, rfl⟩ := hcell
    rw [ha] at hb
    cases hb
    obtain ⟨rfl, rfl⟩ := hc.unique hc'
    exact hkeeps ht
  · have hne : d ≠ k ∨ c ≠ c' := by
      by_cases hdk : d = k
      · exact Or.inr fun hcc => hcell ⟨hdk, hcc⟩
      · exact Or.inl hdk
    have hapart := hs.cells_apart hsound.laid ha hb hc hc' hne
    exact (h d a c t x ha hc ht).of_sameArea (Nat.le_refl d) (hout.sameArea (by omega))

omit hone in
/-- A store writes an address that may be kept, unless it leaks. -/
theorem points_of_store (h : NoStale s) (hleak : ¬ Leaks s) {pointer source : Reg} {n : Memory}
    {address w : UInt64} {place : Place} {src : Extent}
    (hop : s.calls.top.operation? = some (.store pointer source))
    (hexec : execStore s.calls s.stack pointer source = .ok n)
    (ht : s.calls.top.code.definition.regType? source = some .pointer)
    (haddress : s.calls.top.readPointer s.stack pointer = .ok address)
    (hplace : s.calls.resolve address .pointer = .ok place)
    (hcheck : checkStore s.calls s.stack .pointer source place.depth = .ok ())
    (hsrc : s.calls.top.code.frame.regExtent? source = some src)
    (hword : s.stack.word64? (s.calls.top.frameBase + src.start) = some w) (hne : w ≠ 0) :
    s.calls.PointsTo place.depth w := by
  -- The check reads the stored word and finds the owner of its address, if it has one.
  unfold checkStore at hcheck
  rw [if_pos (show Ty.pointer.isPointer = true from rfl)] at hcheck
  obtain ⟨w', hw, hcheck⟩ := Except.bind_eq_ok.mp hcheck
  obtain ⟨src', hsrc', hword'⟩ := Activation.readPointer_eq_ok hw
  rw [hsrc] at hsrc'
  cases hsrc'
  rw [hword] at hword'
  cases hword'
  obtain ⟨w'', hw'', hpoints⟩ := h _ _ _ _ _ s.calls.activation?_top (.reg ht hsrc) rfl
  rw [hword] at hw''
  cases hw''
  obtain ⟨k, -, offset, ⟨a, slot, e, ha, he, rfl⟩, hw64⟩ := hpoints hne
  by_cases holder : s.calls.PointsTo place.depth w
  · exact holder
  · exfalso
    have hk : place.depth < k := by
      by_cases hle : k ≤ place.depth
      · exact absurd ⟨k, hle, _, ⟨a, slot, e, ha, he, rfl⟩, hw64⟩ holder
      · omega
    have hwithin := (hs.framed hsound.laid ha).laid.slot_within he
    rw [Extent.stop] at hwithin
    -- Below the end of the frame the owner is found, and the check would have failed.
    by_cases hend : e.start = a.code.frame.size
    · exact hleak ⟨hop, hexec, ht, haddress, hplace, hw, hne, hk, ha, he, hend, hw64, holder⟩
    · have howner := hs.ownerOf? ha (Nat.le_add_right a.frameBase e.start)
        (by rw [Activation.frameEnd]; omega)
      have houtlives : s.calls.outlives w place.depth = true := by
        unfold CallStack.outlives
        rw [stackOffset?_eq_some.mpr hw64]
        dsimp only
        rw [howner]
        exact decide_eq_true hk
      rw [if_pos houtlives] at hcheck
      cases hcheck

theorem writes_of_alters (haddr : s.Addressable) (h : NoStale s) (hleak : ¬ Leaks s)
    {op : Operation} {n : Memory} (hop : s.calls.top.operation? = some op)
    (hm : Alters p s.calls s.stack op n) : Writes s n := by
  have htop := s.calls.activation?_top
  obtain ⟨f, hf⟩ := hs.linked _ _ htop
  have hlaid := hsound.laid f _ hf
  have hty := hsound.wellTyped f _ hf _ _ _ (Activation.operation?_eq_some.mp hop)
  cases hm with
  | readArg hsrc hdst hlen hcopy =>
    obtain ⟨t, harg, htarget⟩ := hty
    have hlen' := hlaid.args.size hsrc harg
    rw [hlen'] at hcopy
    refine ⟨htop, .reg htarget hdst, hcopy.outside, ?_⟩
    intro hkind
    have hinside := hcopy.inside
    rw [hone.size_of_pointer (Program.mentions_reg hf htarget) hkind] at hinside
    exact (h _ _ _ _ _ htop (.arg harg hsrc) hkind).of_sameArea (Nat.le_refl _) hinside
  | int hint hdst hout hword =>
    refine ⟨htop, .reg (int_of_intTo hone hint hty) hdst, hout, ?_⟩
    intro hkind
    cases hkind
  | stackAlloc hsrc hdst hout hword =>
    rename_i target slot src dst
    obtain ⟨htarget, t, ht⟩ := hty
    -- The address of an own slot may be kept here.
    refine ⟨htop, .reg htarget hdst, hout, ?_⟩
    intro _
    refine ⟨_, hword, fun _ => ⟨_, Nat.le_refl _, _, ⟨_, slot, src, htop, hsrc, rfl⟩, ?_⟩⟩
    have hwithin := hlaid.slot_within hsrc
    have hend := hs.within _ _ htop
    rw [Extent.stop] at hwithin
    rw [Activation.frameEnd] at hend
    rw [State.Addressable] at haddr
    rw [addressOf, UInt64.toNat_ofNat_of_lt' (by omega)]
  | load ht haddress hplace hdst hcopy =>
    have hmention := Program.mentions_reg hf ht
    refine ⟨htop, .reg ht hdst, hcopy.outside, ?_⟩
    intro hkind
    obtain ⟨hlive, -, hslot, hkind', hoffset⟩ := CallStack.resolves_of_resolve hplace
    have hinside := hcopy.inside
    rw [hone.size_of_pointer hmention hkind, hoffset] at hinside
    -- The loaded word was held by the owner of the slot, which is not newer.
    have hheld := h _ _ _ _ _ hlive (.slot hslot.type hslot.extent) (hkind'.trans hkind)
    exact hheld.of_sameArea (CallStack.le_of_activation? hlive) hinside
  | store ht haddress hplace hcheck hexec hsrc hcopy =>
    rename_i pointer source t address place src
    have hmention := Program.mentions_reg hf ht
    obtain ⟨hlive, -, hslot, hkind', hoffset⟩ := CallStack.resolves_of_resolve hplace
    rename_i owner u slot e
    obtain ⟨g, hg⟩ := hs.linked _ _ hlive
    have hut := hone.eq_of_kind (Program.mentions_slot hg hslot.type) hmention hkind'
    subst hut
    rw [hlaid.size_of_reg ht hsrc, hoffset] at hcopy
    refine ⟨hlive, .slot hslot.type hslot.extent, hcopy.outside, ?_⟩
    intro hkind
    have hut := hone.eq_pointer hmention hkind
    subst hut
    obtain ⟨w, hw, -⟩ := h _ _ _ _ _ htop (.reg ht hsrc) rfl
    refine ⟨w, by rw [word64?_congr hcopy.inside, hw], fun hne => ?_⟩
    exact points_of_store hsound hs h hleak hop hexec ht haddress hplace hcheck hsrc hw hne

/-- A passed pointer may be kept by the callee, and the fresh frame holds none. -/
theorem keeps_of_call (h : NoStale s) {t : State} (hn : Next p s t) {target : Reg}
    {callee : FuncId} {args : List Reg} {c : Code} {a : Activation}
    (hop : s.calls.top.operation? = some (.call target callee args))
    (hc : p.linked? callee = some (.code c))
    (hlen : args.length = c.definition.signature.args.length)
    (hentered : Entered c a s.stack t.stack) (hsize : t.calls.below.size = s.calls.below.size + 1)
    (hpassed : Passed s.calls.top c a.argsBase 0 args s.stack t.stack) {cell : Cell} {u : Ty}
    {x : Nat} (hcell : a.Holds cell u x) (hu : u.kind = .pointer) :
    t.calls.Keeps t.stack t.calls.below.size x := by
  have htop := s.calls.activation?_top
  obtain ⟨f, hf⟩ := hs.linked _ _ htop
  refine hentered.keeps_of_holds hone (hsound.laid callee c hc) hc hcell hu ?_
  intro i e ht he hesize
  have hi : i < args.length := by
    rw [hlen]
    exact (List.getElem?_eq_some_iff.mp ht).1
  obtain ⟨src, dst, hsrc, hdst, hdsize, hsame⟩ := hpassed i _ (List.getElem?_eq_getElem hi)
  rw [Nat.zero_add, he] at hdst
  cases hdst
  obtain ⟨sig, hsig, -, hargs⟩ :=
    hsound.wellTyped f _ hf _ _ _ (Activation.operation?_eq_some.mp hop)
  rw [Program.sig?_of_linked? hc] at hsig
  cases hsig
  obtain ⟨t', ht', v, hv, hkind⟩ := getElem?_of_forall₂ hargs (List.getElem?_eq_getElem hi)
  rw [ht] at ht'
  cases ht'
  rw [← hdsize, hesize] at hsame
  -- The word is that of the register of the caller, one activation below.
  obtain ⟨w, hw, hpoints⟩ := h _ _ _ _ _ htop (.reg hv hsrc) (hkind.trans hu)
  refine ⟨w, by rw [word64?_congr hsame, hw], fun hne => ?_⟩
  exact ((hpoints hne).next hn (by omega)).mono (by omega)

/-- A returned pointer does not point into the frame that goes away. -/
theorem writes_of_ret (h : NoStale s) {value : Reg} {src : Extent} {u : Suspended} {n : Memory}
    (hop : s.calls.top.operation? = some (.ret value))
    (hsrc : s.calls.top.code.frame.regExtent? value = some src)
    (hcheck : checkReturn s.calls.top s.stack value = .ok ())
    (hback : s.calls.below.back? = some u)
    (hcopy : Copied s.stack n (s.calls.top.frameBase + src.start) u.returnTo src.size) :
    Writes s n := by
  have htop := s.calls.activation?_top
  obtain ⟨f, hf⟩ := hs.linked _ _ htop
  obtain ⟨hpos, hlast⟩ := CallStack.getElem?_of_back? hback
  have hnext : s.calls.activation? (s.calls.below.size - 1 + 1) = some s.calls.top := by
    rw [Nat.sub_add_cancel hpos]
    exact htop
  have hlive := CallStack.activation?_below hlast
  obtain ⟨g, hg⟩ := hs.linked _ _ hlive
  -- The target of the waiting call has the type of the returned register.
  obtain ⟨-, hcall, hc, he, hto⟩ := hs.waits _ u _ hlast hnext
  obtain ⟨sig, hsig, htarget, -⟩ := hsound.wellTyped g _ hg _ _ _ hcall
  obtain ⟨t, ht, hkind⟩ := hsound.wellTyped f _ hf _ _ _ (Activation.operation?_eq_some.mp hop)
  rw [Program.sig?_of_linked? hc] at hsig
  cases hsig
  have hmention := Program.mentions_reg hf ht
  have htr := hone.eq_of_kind hmention (Program.mentions_ret (Program.sig?_of_linked? hc)) hkind
  rw [← htr] at htarget
  rw [(hsound.laid f _ hf).size_of_reg ht hsrc, hto] at hcopy
  refine ⟨hlive, .reg htarget he, hcopy.outside, ?_⟩
  intro hpointer
  have heq := hone.eq_pointer hmention hpointer
  subst heq
  obtain ⟨w, hw, hpoints⟩ := h _ _ _ _ _ htop (.reg ht hsrc) rfl
  refine ⟨w, by rw [word64?_congr hcopy.inside, hw], fun hne => ?_⟩
  obtain ⟨k, hk, offset, ⟨a, slot, e, ha, hslot, rfl⟩, hw64⟩ := hpoints hne
  refine ⟨k, ?_, _, ⟨a, slot, e, ha, hslot, rfl⟩, hw64⟩
  by_cases hkt : k = s.calls.below.size
  · exfalso
    subst hkt
    rw [htop] at ha
    cases ha
    -- The check refuses addresses at or above the argument block.
    have hbelow := lt_of_checkReturn ht rfl hsrc hw hcheck
    have hargs := hs.args _ _ htop
    omega
  · omega

/-- A step that does not leak keeps every pointer in bounds. -/
theorem NoStale.next (haddr : s.Addressable) (h : NoStale s) (hleak : ¬ Leaks s) {t : State}
    (hn : Next p s t) : NoStale t := by
  intro d a c u x ha hc hu
  have hd := CallStack.le_of_activation? ha
  -- What an activation of both states holds is unchanged but for one cell.
  have hold : ∀ {n : Memory}, Writes s n → d ≤ s.calls.below.size →
      (∀ b, s.calls.activation? d = some b → SameArea t.stack n x x 8) →
      t.calls.Keeps t.stack d x := by
    intro n hw hds hsame
    obtain ⟨b, hb⟩ := CallStack.exists_activation? hds
    have hbc := hc.of_sameFrame (hn.sameFrame hb ha)
    exact (keeps_of_writes hsound hone hs h hw hb hbc hu).next hn hd (hsame b hb)
  have hn' := hn
  cases hn' with
  | data hop hm =>
    exact hold (writes_of_alters hsound hone hs haddr h hleak hop hm) hd fun _ _ _ _ => rfl
  | jump hop hsucc =>
    rename_i m calls stats stats' op target
    obtain ⟨b, hb⟩ := CallStack.exists_activation? (c := calls) hd
    have hbc := hc.of_sameFrame (hn.sameFrame hb ha)
    exact (h d b c u x hb hbc hu).next hn hd fun _ _ => rfl
  | call hop hc' hlen he hentered hpassed =>
    rename_i m n calls stats stats' target callee args code a' e
    -- The callee holds what it was passed; all others hold what they held.
    by_cases htop : d = calls.below.size + 1
    · have hlive := CallStack.activation?_push calls calls.top.advance a'
        (calls.top.frameBase + e.start) d
      rw [if_pos htop] at hlive
      rw [hlive] at ha
      cases ha
      have hsize : (calls.below.push ⟨calls.top.advance, calls.top.frameBase + e.start⟩).size =
          calls.below.size + 1 := Array.size_push _
      have hkeeps := keeps_of_call hsound hone hs h hn hop hc' hlen hentered hsize hpassed hc hu
      rw [htop, ← hsize]
      exact hkeeps
    · dsimp only at hd
      rw [Array.size_push] at hd
      obtain ⟨b, hb⟩ := CallStack.exists_activation? (c := calls) (i := d) (by omega)
      have hbc := hc.of_sameFrame (hn.sameFrame hb ha)
      have hin := (hs.holds_within hsound.laid hb hbc).2
      have hend := hs.within d b hb
      have h8 := size_of_held hone hs hb hbc hu
      refine (h d b c u x hb hbc hu).next hn ?_ ?_
      · dsimp only
        rw [Array.size_push]
        exact hd
      · intro k hk
        exact hentered.keeps _ (by dsimp only at hend ⊢; omega)
  | ret hop hsrc hcheck hback hcopy =>
    rename_i m n calls stats stats' value src caller offset
    have hpop := CallStack.size_pop_of_back? hback
    dsimp only at hpop hd
    refine hold (writes_of_ret hsound hone hs h hop hsrc hcheck hback hcopy)
      (by dsimp only; omega) ?_
    intro b hb k hk
    have hbc := hc.of_sameFrame (hn.sameFrame hb ha)
    have hin := (hs.holds_within hsound.laid hb hbc).2
    have hbelow := hs.ordered d _ b _ (by dsimp only; omega) hb (CallStack.activation?_top _)
    have h8 := size_of_held hone hs hb hbc hu
    dsimp only at hbelow ⊢
    rw [byte?_cut, if_pos (by omega)]

end Keeping

/-! ## 3. Runs -/

/-- Steps through states in which every stack offset has an address. -/
abbrev ReachesAddressable {H : Type} (env : Env H) : State → State → Prop :=
  Relation.ReflTransGen fun s t => Advances env s t ∧ t.Addressable

/-- The pointers among the arguments of an invocation are zero. -/
def NullPointers (p : Program) (f : FuncId) (args : List Bytes) : Prop :=
  ∀ (sig : Signature) (i : Nat) (t : Ty) (bs : Bytes), p.sig? f = some sig →
    sig.args[i]? = some t → t.kind = .pointer → args[i]? = some bs → bs = Bytes.ofWord64 0

theorem reaches_of_addressable {H : Type} {env : Env H} {s t : State}
    (h : ReachesAddressable env s t) : Reaches env s t := by
  induction h with
  | refl => exact .refl
  | tail _ h ih => exact ih.tail h.1

theorem addressable_of_reaches {H : Type} {env : Env H} {s t : State} (hs : s.Addressable)
    (h : ReachesAddressable env s t) : t.Addressable := by
  cases h with
  | refl => exact hs
  | tail _ h => exact h.2

/-- When an invocation starts, every pointer that it holds is zero. -/
theorem word64?_of_enter {p : Program} (hsound : p.Sound) (hone : p.OneRegistry) {f : FuncId}
    {args : List Bytes} {returnSize : Nat} {stats : Stats} {s : State}
    (h : enter p f args returnSize stats = .ok s) (hnull : NullPointers p f args) {d : Nat}
    {b : Activation} {cell : Cell} {u : Ty} {x : Nat} (hb : s.calls.activation? d = some b)
    (hcell : b.Holds cell u x) (hu : u.kind = .pointer) : s.stack.word64? x = some 0 := by
  obtain ⟨c, a, hc, -, hlen, hcalls, hentered, hplaced⟩ := entered_of_enter hsound.laid h
  rw [hcalls] at hb
  have hd : d = 0 := Nat.le_zero.mp (CallStack.le_of_activation? hb)
  subst hd
  cases hb
  -- Outside the argument block there are only zeros.
  by_cases harg : ∃ i, cell = .arg i
  · obtain ⟨i, rfl⟩ := harg
    cases hcell with
    | arg ht he =>
      rw [hentered.code] at ht he
      have hi : i < args.length := by
        rw [hlen]
        exact (List.getElem?_eq_some_iff.mp ht).1
      have hget := List.getElem?_eq_getElem hi
      obtain ⟨dst, hdst, hdsize, hbytes⟩ := hplaced i _ hget
      rw [Nat.zero_add, he] at hdst
      cases hdst
      rw [hnull _ i u _ (Program.sig?_of_linked? hc) ht hu hget] at hbytes
      exact word64?_of_bytes hbytes
  · have hsize := hone.size_of_pointer (hcell.mentions (hentered.code ▸ hc)) hu
    have hzero := hentered.zero_of_holds (hsound.laid f c hc) hcell fun i hi => harg ⟨i, hi⟩
    exact word64?_eq_zero fun k hk => hzero k (by omega)

theorem noStale_of_enter {p : Program} (hsound : p.Sound) (hone : p.OneRegistry) {f : FuncId}
    {args : List Bytes} {returnSize : Nat} {stats : Stats} {s : State}
    (h : enter p f args returnSize stats = .ok s) (hnull : NullPointers p f args) : NoStale s := by
  intro d b cell u x hb hcell hu
  exact ⟨0, word64?_of_enter hsound hone h hnull hb hcell hu, fun hne => absurd rfl hne⟩

/-- A store that leaks leaves a stale pointer behind. -/
theorem not_noStale_of_leaks {H : Type} {env : Env H} {s : State} (hp : env.program.Laid)
    (hs : Stacked env.program s) (h : Leaks s) :
    ∃ t, Advances env s t ∧ t.stack.size = s.stack.size ∧ ¬ NoStale t := by
  obtain ⟨hop, hexec, ht, haddress, hplace, hw, hne, -, -, -, -, -, holder⟩ := h
  rename_i pointer source n address w place k a slot e
  have hstep : step env s = .next ⟨n, s.calls.advance,
      { s.stats with instructions := s.stats.instructions + 1 }⟩ := by
    rw [show s = ⟨s.stack, s.calls, s.stats⟩ from rfl, step_of_operation? hop]
    simp only [execute, hexec]
    rfl
  have hadvance : Advances env s _ := Or.inl hstep
  have hm : Alters env.program s.calls s.stack _ n := alters_of_execStore hexec
  refine ⟨_, hadvance, hm.size, ?_⟩
  intro hstale
  have hn := (hs.advances hp hadvance).1
  cases hm with
  | int hint => cases hint
  | store ht' haddress' hplace' hcheck _ hsrc hcopy =>
    rename_i t' address' place' src
    rw [ht] at ht'
    cases ht'
    rw [haddress] at haddress'
    cases haddress'
    rw [hplace] at hplace'
    cases hplace'
    obtain ⟨hlive, -, hslot, hkind, hoffset⟩ := CallStack.resolves_of_resolve hplace
    rename_i owner u slot' e'
    -- The slot that received the address holds it in the next state.
    have hdepth : place.depth ≤ s.calls.below.size := CallStack.le_of_activation? hlive
    obtain ⟨b, hb⟩ := CallStack.exists_activation? (c := s.calls.advance) hdepth
    have hbo := hn.sameFrame hlive hb
    have hcell : b.Holds (.slot slot') u place.offset := by
      refine Activation.Holds.of_sameFrame (a := b) (b := owner)
        ⟨hbo.code.symm, hbo.argsBase.symm, hbo.frameBase.symm⟩ ?_
      rw [hoffset]
      exact .slot hslot.type hslot.extent
    obtain ⟨w', hw', hpoints⟩ := hstale _ _ _ _ _ hb hcell hkind
    obtain ⟨src', hsrc', hword⟩ := Activation.readPointer_eq_ok hw
    rw [hsrc] at hsrc'
    cases hsrc'
    have hinside := hcopy.inside
    rw [(hs.top_framed hp).laid.size_of_reg ht hsrc] at hinside
    rw [word64?_congr hinside, hword] at hw'
    cases hw'
    obtain ⟨k', hk', offset, ⟨d, slot'', e₁, hd, he₁, rfl⟩, hw64⟩ := hpoints hne
    have hdepth' : k' ≤ s.calls.below.size :=
      CallStack.le_of_activation? (c := s.calls.advance) hd
    obtain ⟨d', hd'⟩ := CallStack.exists_activation? hdepth'
    have hdd := hn.sameFrame hd' hd
    exact holder ⟨k', hk', _, ⟨d', slot'', e₁, hd', hdd.code ▸ he₁, by rw [hdd.frameBase]⟩, hw64⟩

section Runs

variable {H : Type} {env : Env H} {m : Module} (hbuilt : m.Built) (hown : m.OwnTypes)
  (hm : m.finalize = .ok env.program) {f : FuncId} {args : List Bytes} {returnSize : Nat}
  {stats : Stats} {s₀ : State} (henter : enter env.program f args returnSize stats = .ok s₀)
  (hnull : NullPointers env.program f args) (haddr : s₀.Addressable)
include hbuilt hown hm henter hnull haddr

/-- As long as no store leaks, no pointer goes stale. -/
theorem noStale_of_not_leaks (hleak : ∀ s, ReachesAddressable env s₀ s → ¬ Leaks s) {s : State}
    (hs : ReachesAddressable env s₀ s) : NoStale s := by
  have hsound := hbuilt.sound.finalize hm
  have hone := hbuilt.sound.oneRegistry hown hm
  -- Along the run, with the discipline of the stack beside it.
  induction hs with
  | refl => exact noStale_of_enter hsound hone henter hnull
  | tail hr h ih =>
    have hs' := (Stacked.of_enter hsound.laid henter).reaches hsound.laid
      (reaches_of_addressable hr)
    exact ih.next hsound hone hs' (addressable_of_reaches haddr hr) (hleak _ hr)
      (hs'.advances hsound.laid h.1).1

/-- In a program whose slots all have bytes, no pointer goes stale. -/
theorem noStale_of_sized_slots
    (hsized : ∀ (g : FuncId) (c : Code) (i : Nat) (t : Ty), env.program.linked? g =
      some (.code c) → c.definition.slotTypes[i]? = some t → 0 < t.size.toNat) {s : State}
    (hs : ReachesAddressable env s₀ s) : NoStale s := by
  have hlaid := Module.laid_of_finalize hm
  refine noStale_of_not_leaks hbuilt hown hm henter hnull haddr ?_ hs
  intro t ht hleak
  have hstacked := (Stacked.of_enter hlaid henter).reaches hlaid (reaches_of_addressable ht)
  cases hleak with
  | intro _ _ _ _ _ _ _ _ hlive hslot hend _ _ =>
    -- A slot with bytes starts before the end of its frame.
    obtain ⟨g, hg⟩ := hstacked.linked _ _ hlive
    obtain ⟨u, hu, hsize⟩ := (hlaid g _ hg).exists_slotType hslot
    have hpos := hsized g _ _ u hg hu
    have hwithin := (hlaid g _ hg).slot_within hslot
    rw [Extent.stop] at hwithin
    omega

/-- No pointer goes stale exactly when no store leaks: when none puts the address of a slot at the
very end of a newer frame into an older one. -/
theorem noStale_iff_not_leaks :
    (∀ s, ReachesAddressable env s₀ s → NoStale s) ↔
      ∀ s, ReachesAddressable env s₀ s → ¬ Leaks s := by
  constructor
  · intro hstale s hs hleak
    have hlaid := Module.laid_of_finalize hm
    have hstacked := (Stacked.of_enter hlaid henter).reaches hlaid (reaches_of_addressable hs)
    obtain ⟨t, hadvance, hsize, hnot⟩ := not_noStale_of_leaks hlaid hstacked hleak
    have haddr' : t.Addressable := by
      rw [State.Addressable, hsize]
      exact addressable_of_reaches haddr hs
    exact hnot (hstale t (hs.tail ⟨hadvance, haddr'⟩))
  · intro hleak s hs
    exact noStale_of_not_leaks hbuilt hown hm henter hnull haddr hleak hs

end Runs

/-! ## 4. A pointer that goes stale -/

/-- The state after a number of steps through addressable states, when no host takes part. -/
def after? {H : Type} (env : Env H) : Nat → State → Option State
  | 0, s => some s
  | n + 1, s =>
    match step env s with
    | .next t => if stackBase + t.stack.size < UInt64.size then after? env n t else none
    | _ => none

theorem reachesAddressable_of_after? {H : Type} {env : Env H} {n : Nat} {s t : State}
    (h : after? env n s = some t) : ReachesAddressable env s t := by
  induction n generalizing s with
  | zero =>
    cases h
    exact .refl
  | succ n ih =>
    rw [after?] at h
    split at h
    · rename_i u hstep
      split at h
      · rename_i haddr
        exact .head ⟨Or.inl hstep, haddr⟩ (ih h)
      · cases h
    · cases h

theorem advances_of_after? {H : Type} {env : Env H} {s t : State} (h : after? env 1 s = some t) :
    Advances env s t ∧ t.Addressable := by
  rw [after?] at h
  split at h
  · rename_i u hstep
    split at h
    · rename_i haddr
      cases h
      exact ⟨Or.inl hstep, haddr⟩
    · cases h
  · cases h

/-- An aggregate without bytes, aligned to one byte. -/
def emptyTy : Ty := { (default : Ty) with kind := .struct 1 }

/-- The function `leak` stores the address of an empty slot, which ends its frame, through the
pointer that it is given. -/
def trailing : Module :=
  (Draft.empty.run
    [.defineStruct 0 1, .declare ⟨"leak", [.pointer], .int⟩, .declare ⟨"main", [], .int⟩,
      .select ⟨0⟩, .body .openBlock, .body (.readArg 0), .body (.stackAlloc emptyTy),
      .body (.store ⟨0⟩ ⟨1⟩), .body (.literal 0), .body (.ret ⟨2⟩),
      .select ⟨1⟩, .body .openBlock, .body (.stackAlloc .pointer), .body (.call ⟨0⟩ [⟨0⟩]),
      .body (.ret ⟨1⟩)]).2.module

def trailingMain : Code where
  definition := ⟨⟨"main", [], .int⟩,
    #[#[.stackAlloc ⟨0⟩ ⟨0⟩, .call ⟨1⟩ ⟨0⟩ [⟨0⟩], .ret ⟨1⟩]], #[.pointer, .int], #[.pointer]⟩
  frame := ⟨⟨#[⟨0, 8⟩, ⟨8, 4⟩, ⟨16, 8⟩], 24, 8⟩, 2⟩
  args := ⟨#[], 0, 1⟩

def trailingEnv : Env Unit where
  program := ⟨#[.code
    ⟨⟨⟨"leak", [.pointer], .int⟩, #[#[.readArg ⟨0⟩ 0, .stackAlloc ⟨1⟩ ⟨0⟩, .store ⟨0⟩ ⟨1⟩,
        .literal ⟨2⟩ 0, .ret ⟨2⟩]], #[.pointer, .pointer, .int], #[emptyTy]⟩,
      ⟨⟨#[⟨0, 8⟩, ⟨8, 8⟩, ⟨16, 4⟩, ⟨20, 0⟩], 20, 8⟩, 3⟩, ⟨#[⟨0, 8⟩], 8, 8⟩⟩,
    .code trailingMain]⟩
  maxCallDepth := none
  host? _ := none

theorem finalize_trailing : trailing.finalize = .ok trailingEnv.program :=
  Module.finalize_eq_ok_iff.mpr ⟨by decide +kernel, by cbv, by decide +kernel⟩

theorem run_trailing : ∃ s₀ s, enter trailingEnv.program ⟨1⟩ [] 4 .zero = .ok s₀ ∧
    s₀.Addressable ∧ after? trailingEnv 7 s₀ = some s ∧
    s.calls = ⟨⟨trailingMain, 0, 0, 0, 2⟩, #[]⟩ ∧ s.stack.word64? 16 = some 65604 := by
  have hrun : (enter trailingEnv.program ⟨1⟩ [] 4 .zero).toOption.any (fun s₀ =>
      (after? trailingEnv 7 s₀).any fun s => decide (stackBase + s₀.stack.size < UInt64.size ∧
        s.calls = ⟨⟨trailingMain, 0, 0, 0, 2⟩, #[]⟩ ∧
        s.stack.word64? 16 = some 65604)) = true := by decide +kernel
  obtain ⟨s₀, henter, hrun⟩ := (Option.any_eq_true _ _).mp hrun
  obtain ⟨s, hafter, hrun⟩ := (Option.any_eq_true _ _).mp hrun
  obtain ⟨haddr, hcalls, hword⟩ := of_decide_eq_true hrun
  exact ⟨s₀, s, Except.toOption_eq_some.mp henter, haddr, hafter, hcalls, hword⟩

theorem ownTypes_trailing : trailing.OwnTypes := by
  have hfunctions : trailing.functions = #[.defined ⟨⟨"leak", [.pointer], .int⟩,
      #[#[.readArg ⟨0⟩ 0, .stackAlloc ⟨1⟩ ⟨0⟩, .store ⟨0⟩ ⟨1⟩, .literal ⟨2⟩ 0, .ret ⟨2⟩]],
      #[.pointer, .pointer, .int], #[emptyTy]⟩, .defined trailingMain.definition] := by
    decide +kernel
  have htypes : trailing.types = ⟨#[emptyTy]⟩ := by decide +kernel
  intro f fn t hfn ht
  rw [Registry.Knows, htypes]
  rw [Module.function?, hfunctions] at hfn
  obtain ⟨_ | _ | k⟩ := f
  · cases hfn
    cases ht <;> simp_all [Function.signature]
    grind
  · cases hfn
    cases ht <;> simp_all [Function.signature, trailingMain]
    grind
  · cases hfn

theorem nullPointers_trailing : NullPointers trailingEnv.program ⟨1⟩ [] := by
  intro sig i t bs _ _ _ hbs
  cases hbs

/-- When `leak` has returned, its caller still holds the address of the slot that went away. -/
theorem stale_trailing :
    ∃ s₀ s, trailing.Built ∧ trailing.OwnTypes ∧ trailing.finalize = .ok trailingEnv.program ∧
      enter trailingEnv.program ⟨1⟩ [] 4 .zero = .ok s₀ ∧
      NullPointers trailingEnv.program ⟨1⟩ [] ∧ ReachesAddressable trailingEnv s₀ s ∧
      ¬ NoStale s := by
  obtain ⟨s₀, s, henter, -, hafter, hcalls, hword⟩ := run_trailing
  refine ⟨s₀, s, ⟨_, rfl⟩, ownTypes_trailing, finalize_trailing, henter, nullPointers_trailing,
    reachesAddressable_of_after? hafter, ?_⟩
  intro hstale
  have hlive : s.calls.activation? 0 = some ⟨trailingMain, 0, 0, 0, 2⟩ := by
    rw [hcalls]
    rfl
  have hcell : (⟨trailingMain, 0, 0, 0, 2⟩ : Activation).Holds (.slot ⟨0⟩) .pointer (0 + 16) :=
    .slot (e := ⟨16, 8⟩) rfl rfl
  obtain ⟨w, hw, hpoints⟩ := hstale 0 _ _ _ _ hlive hcell rfl
  rw [Nat.zero_add, hword] at hw
  cases hw
  obtain ⟨k, hk, offset, ⟨a, slot, e, ha, he, rfl⟩, hw64⟩ := hpoints (by decide)
  cases Nat.le_zero.mp hk
  rw [hlive] at ha
  cases ha
  -- The only slot of the caller starts at offset 16.
  obtain ⟨_ | i⟩ := slot
  · cases he
    cases hw64
  · have hlt : 2 + (i + 1) < 3 := (Array.getElem?_eq_some_iff.mp he).1
    omega

/-- In the same program some store leaks. -/
theorem noStale_iff_not_leaks_trailing :
    ∃ s₀, enter trailingEnv.program ⟨1⟩ [] 4 .zero = .ok s₀ ∧
      ((∀ s, ReachesAddressable trailingEnv s₀ s → NoStale s) ↔
        ∀ s, ReachesAddressable trailingEnv s₀ s → ¬ Leaks s) := by
  obtain ⟨s₀, s, henter, haddr, -⟩ := run_trailing
  exact ⟨s₀, henter, noStale_iff_not_leaks ⟨_, rfl⟩ ownTypes_trailing finalize_trailing henter
    nullPointers_trailing haddr⟩

end RegIR.Machine
