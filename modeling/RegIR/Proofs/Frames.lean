import Mathlib.Data.List.Forall2
import RegIR.Machine.Run
import RegIR.Proofs.Checked
import RegIR.Proofs.Placement
import RegIR.Proofs.Words
/-!
# Frames on the stack

A call appends an argument block and a zeroed frame to the stack, fills the block from the
registers of the caller, and leaves every byte below alone.  The outermost call does the same with
the bytes that it is given.
-/

namespace RegIR.Machine

open Memory

/-! ## 1. Reserving -/

/-- One memory is another with zero bytes behind it, the last `len` of them from `base` on. -/
structure Reserved (m n : Memory) (base len : Nat) : Prop where
  above : m.size ≤ base
  size : n.size = base + len
  keeps : ∀ k < m.size, n.byte? k = m.byte? k
  zero : ∀ k, m.size ≤ k → k < base + len → n.byte? k = some 0

theorem reserved_of_reserve {m n : Memory} {len align base : Nat}
    (h : reserve m len align = (base, n)) : Reserved m n base len := by
  have hpos : 0 < max align frameAlign := Nat.lt_of_lt_of_le (by decide) (Nat.le_max_right _ _)
  have hle : m.size ≤ (m.size + max align frameAlign - 1) / max align frameAlign *
      max align frameAlign := le_roundUp hpos
  unfold reserve at h
  obtain ⟨rfl, rfl⟩ := Prod.mk.inj h
  refine ⟨hle, ?_, ?_, ?_⟩
  · rw [size_grow]
    omega
  · intro k hk
    rw [byte?_grow, if_pos hk]
  · intro k hk hlt
    rw [byte?_grow, if_neg (by omega), if_pos (by omega)]

/-! ## 2. Filling an argument block -/

/-- Offset `k` lies in none of the areas of the layout at `base`, from a position on. -/
def Clear (l : Layout) (base position k : Nat) : Prop :=
  ∀ j e, position ≤ j → l.extents[j]? = some e → k < base + e.start ∨ base + e.stop ≤ k

/-- Only the areas of the layout at `base`, from a position on, get new bytes. -/
structure Fills (l : Layout) (base position : Nat) (m n : Memory) : Prop where
  size : n.size = m.size
  keeps : ∀ k, Clear l base position k → n.byte? k = m.byte? k

namespace Fills

variable {l : Layout} {base position : Nat} {m m' n : Memory}

theorem refl : Fills l base position m m := ⟨rfl, fun _ _ => rfl⟩

theorem cons {dst : Extent} (hdst : l.extents[position]? = some dst)
    (hm : AgreeOutside m m' (base + dst.start) dst.size) (h : Fills l base (position + 1) m' n) :
    Fills l base position m n := by
  refine ⟨h.size.trans hm.size, ?_⟩
  intro k hk
  have hout := hk position dst (Nat.le_refl _) hdst
  rw [Extent.stop] at hout
  rw [h.keeps k fun j e hj he => hk j e (by omega) he, hm.byte k (by omega)]

theorem below (h : Fills l base position m n) {k : Nat} (hk : k < base) :
    n.byte? k = m.byte? k := by
  refine h.keeps k ?_
  intro j e _ _
  omega

/-- An area before the position keeps its bytes. -/
theorem sameArea {ts : List Ty} (hl : l.Places ts) (h : Fills l base position m n) {i : Nat}
    (hi : i < position) {e : Extent} (he : l.extents[i]? = some e) :
    SameArea n m (base + e.start) (base + e.start) e.size := by
  intro k hk
  refine h.keeps _ ?_
  intro j e' hj he'
  have hord := hl.ordered (Nat.lt_of_lt_of_le hi hj) he he'
  rw [Extent.stop] at hord
  omega

end Fills

/-- The registers of the caller, in turn, have the bytes of the areas from a position on. -/
def Passed (caller : Activation) (c : Code) (base position : Nat) (args : List Reg)
    (m n : Memory) : Prop :=
  ∀ i r, args[i]? = some r → ∃ src dst, caller.code.frame.regExtent? r = some src ∧
    c.args.extent? (position + i) = some dst ∧ dst.size = src.size ∧
    SameArea n m (base + dst.start) (caller.frameBase + src.start) src.size

theorem extent_eq_ok {a : Activation} {r : Reg} {e : Extent} (h : a.extent r = .ok e) :
    ∃ e', a.code.frame.regExtent? r = some e' ∧ e = ⟨a.frameBase + e'.start, e'.size⟩ := by
  unfold Activation.extent at h
  split at h
  · cases h
  · rename_i e' he
    cases h
    exact ⟨e', he, rfl⟩

theorem extent_of_regExtent? {a : Activation} {r : Reg} {e : Extent}
    (h : a.code.frame.regExtent? r = some e) :
    a.extent r = .ok ⟨a.frameBase + e.start, e.size⟩ := by
  unfold Activation.extent
  rw [h]

theorem moved_eq_ok {x : Except MemoryViolation Memory} {m : Memory} :
    moved x = .ok m ↔ x = .ok m := by
  cases x with
  | error v => simp [moved]
  | ok n => simp [moved]

theorem passArgs_eq_ok {caller : Activation} {c : Code} {base : Nat} (hc : c.Laid)
    (hcaller : ∀ r e, caller.code.frame.regExtent? r = some e → caller.frameBase + e.stop ≤ base)
    {args : List Reg} {position : Nat} {m n : Memory}
    (h : passArgs caller c base position args m = .ok n) :
    Fills c.args base position m n ∧ Passed caller c base position args m n := by
  -- Along the registers: one area is filled, the rest is for the areas behind it.
  induction args generalizing position m with
  | nil =>
    cases h
    refine ⟨Fills.refl, ?_⟩
    intro i r hr
    cases hr
  | cons r rs ih =>
    rw [passArgs] at h
    obtain ⟨src, hsrc, h⟩ := Except.bind_eq_ok.mp h
    obtain ⟨src, hreg, rfl⟩ := extent_eq_ok hsrc
    split at h
    · cases h
    · rename_i dst hdst
      split at h
      · cases h
      · rename_i hsize
        obtain ⟨m', hcopy, h⟩ := Except.bind_eq_ok.mp h
        rw [moved_eq_ok] at hcopy
        have hlen : dst.size = src.size := Decidable.not_not.mp hsize
        have hsub : caller.frameBase + src.start + src.size - (caller.frameBase + src.start) =
            src.size := Nat.add_sub_cancel_left ..
        have hout := agreeOutside_of_copyWithin (Nat.le_add_right _ _) hcopy
        have hin := sameArea_of_copyWithin (Nat.le_add_right _ _) hcopy
        simp only [hsub] at hout hin
        obtain ⟨hfills, hpassed⟩ := ih h
        refine ⟨hfills.cons hdst (hlen ▸ hout), ?_⟩
        intro i r' hr'
        cases i with
        | zero =>
          cases hr'
          -- The later areas of the block lie behind this one.
          have hkept := hfills.sameArea hc.args (Nat.lt_succ_self position) hdst
          rw [hlen] at hkept
          exact ⟨src, dst, hreg, hdst, hlen, hkept.trans hin⟩
        | succ i =>
          obtain ⟨src', dst', hreg', hdst', hlen', hsame⟩ := hpassed i r' hr'
          refine ⟨src', dst', hreg', ?_, hlen', ?_⟩
          · rwa [Nat.add_assoc, Nat.add_comm 1] at hdst'
          · -- The registers of the caller lie below the block.
            have hstop := hcaller r' src' hreg'
            rw [Extent.stop] at hstop
            exact hsame.trans (hout.sameArea (by omega))

/-- Arguments of the right sizes can be passed. -/
theorem passArgs_ok {caller : Activation} {c : Code} {base : Nat} (hc : c.Laid) {args : List Reg}
    (position : Nat) {m : Memory} (hm : base + c.args.size.toNat ≤ m.size)
    (hcaller : ∀ r e, caller.code.frame.regExtent? r = some e → caller.frameBase + e.stop ≤ m.size)
    (hargs : ∀ i r, args[i]? = some r → ∃ src dst, caller.code.frame.regExtent? r = some src ∧
      c.args.extent? (position + i) = some dst ∧ dst.size = src.size) :
    ∃ n, passArgs caller c base position args m = .ok n := by
  -- A copy does not change the size of the memory, so every later copy fits as well.
  induction args generalizing position m with
  | nil => exact ⟨m, rfl⟩
  | cons r rs ih =>
    obtain ⟨src, dst, hreg, hdst, hsize⟩ := hargs 0 r rfl
    have hstop := hcaller r src hreg
    have hwithin := hc.args.within hdst
    rw [Extent.stop] at hstop hwithin
    rw [Nat.add_zero] at hdst
    obtain ⟨m', hcopy⟩ : ∃ m', m.copyWithin (caller.frameBase + src.start)
        (caller.frameBase + src.start + src.size) (base + dst.start) = .ok m' :=
      copyWithin_ok (by omega) (by omega)
    have hsize' := size_of_copyWithin hcopy
    obtain ⟨n, hn⟩ := ih (position + 1) (m := m') (by omega)
      (fun r' e he => by rw [hsize']; exact hcaller r' e he)
      (fun i r' hr' => by
        obtain ⟨src', dst', hreg', hdst', hsize'⟩ := hargs (i + 1) r' hr'
        exact ⟨src', dst', hreg', by rwa [Nat.add_assoc, Nat.add_comm 1], hsize'⟩)
    refine ⟨n, ?_⟩
    rw [passArgs]
    refine Except.bind_eq_ok.mpr ⟨_, extent_of_regExtent? hreg, ?_⟩
    rw [hdst]
    dsimp only
    rw [if_neg (by simpa using hsize)]
    exact Except.bind_eq_ok.mpr ⟨m', moved_eq_ok.mpr hcopy, hn⟩

/-- The bytes that the outermost call is given lie in the areas from a position on. -/
def Placed (c : Code) (base position : Nat) (args : List Bytes) (n : Memory) : Prop :=
  ∀ i bs, args[i]? = some bs → ∃ dst, c.args.extent? (position + i) = some dst ∧
    dst.size = bs.size ∧ ∀ k < bs.size, n.byte? (base + dst.start + k) = bs.data[k]?

theorem placeArgs_eq_ok {c : Code} {base : Nat} (hc : c.Laid) {args : List Bytes}
    {types : List Ty} {position : Nat} {m n : Memory}
    (htypes : ∀ i t, types[i]? = some t → c.definition.signature.args[position + i]? = some t)
    (hlen : args.length = types.length) (h : placeArgs c base position args types m = .ok n) :
    Fills c.args base position m n ∧ Placed c base position args n := by
  induction args generalizing position types m with
  | nil =>
    unfold placeArgs at h
    cases h
    refine ⟨Fills.refl, ?_⟩
    intro i bs hbs
    cases hbs
  | cons bs args ih =>
    cases types with
    | nil => cases hlen
    | cons t types =>
      rw [placeArgs] at h
      split at h
      · cases h
      · rename_i hsize
        have hbs : bs.size = t.size.toNat := Decidable.not_not.mp hsize
        split at h
        · cases h
        · rename_i dst hdst
          obtain ⟨m', hreplace, h⟩ := Except.bind_eq_ok.mp h
          rw [moved_eq_ok] at hreplace
          have hdt : dst.size = bs.size := by
            rw [hbs]
            exact hc.args.size hdst (htypes 0 t rfl)
          have hout := agreeOutside_of_replace hreplace
          have htypes' : ∀ i u, types[i]? = some u →
              c.definition.signature.args[position + 1 + i]? = some u := by
            intro i u hu
            rw [Nat.add_assoc, Nat.add_comm 1]
            exact htypes (i + 1) u hu
          obtain ⟨hfills, hplaced⟩ := ih htypes' (Nat.succ.inj hlen) h
          refine ⟨hfills.cons hdst (hdt ▸ hout), ?_⟩
          intro i bs' hbs'
          cases i with
          | zero =>
            cases hbs'
            refine ⟨dst, hdst, hdt, ?_⟩
            intro k hk
            have hkept := hfills.sameArea hc.args (Nat.lt_succ_self position) hdst k
              (by rwa [hdt])
            rw [hkept]
            exact byte?_replaced hreplace hk
          | succ i =>
            obtain ⟨dst', hdst', hlen', hbytes⟩ := hplaced i bs' hbs'
            exact ⟨dst', by rwa [Nat.add_assoc, Nat.add_comm 1] at hdst', hlen', hbytes⟩

/-- Bytes of the right sizes can be placed, and others are refused as such. -/
theorem placeArgs_ok {c : Code} {base : Nat} (hc : c.Laid) {args : List Bytes} {types : List Ty}
    (position : Nat) {m : Memory} (hm : base + c.args.size.toNat ≤ m.size)
    (htypes : ∀ i t, types[i]? = some t → c.definition.signature.args[position + i]? = some t)
    (hsize : List.Forall₂ (fun bs t => bs.size = t.size.toNat) args types) :
    ∃ n, placeArgs c base position args types m = .ok n := by
  induction hsize generalizing position m with
  | nil => exact ⟨m, rfl⟩
  | @cons bs t args types hbs _ ih =>
    obtain ⟨dst, hdst, hdt, hwithin⟩ := hc.args.exists_extent (htypes 0 t rfl)
    rw [Nat.add_zero] at hdst
    rw [Extent.stop] at hwithin
    obtain ⟨m', hreplace⟩ : ∃ m', m.replace (base + dst.start) bs = .ok m' :=
      replace_ok (by omega)
    obtain ⟨n, hn⟩ := ih (position + 1) (m := m')
      (by rw [size_of_replace hreplace]; exact hm)
      (fun i u hu => by
        rw [Nat.add_assoc, Nat.add_comm 1]
        exact htypes (i + 1) u hu)
    refine ⟨n, ?_⟩
    rw [placeArgs, if_neg (by simpa using hbs)]
    simp only [Layout.extent?, hdst, hreplace, moved]
    exact hn

/-! ## 3. Entering a function -/

/-- A fresh activation of `c` lies above memory `m`: its argument block, then its zeroed frame. -/
structure Entered (c : Code) (a : Activation) (m n : Memory) : Prop where
  code : a.code = c
  block : a.block = 0
  pos : a.pos = 0
  above : m.size ≤ a.argsBase
  args : a.argsBase + c.args.size.toNat ≤ a.frameBase
  size : n.size = a.frameBase + c.frame.size
  keeps : ∀ k < m.size, n.byte? k = m.byte? k
  zero : ∀ k, a.frameBase ≤ k → k < n.size → n.byte? k = some 0

/-- The frame goes above the argument block and leaves it alone. -/
theorem entered_of_startFrame {c : Code} {a : Activation} {m m₁ m₂ n : Memory} {argsBase : Nat}
    (hres : Reserved m m₁ argsBase c.args.size.toNat) (hfills : Fills c.args argsBase 0 m₁ m₂)
    (h : startFrame m₂ c argsBase = (a, n)) :
    Entered c a m n ∧ a.argsBase = argsBase ∧ ∀ k < m₂.size, n.byte? k = m₂.byte? k := by
  unfold startFrame at h
  generalize hr : reserve m₂ c.frame.size c.frame.layout.align.toNat = r at h
  obtain ⟨base, n'⟩ := r
  have hframe := reserved_of_reserve hr
  obtain ⟨rfl, rfl⟩ := Prod.mk.inj h
  have hsize := hfills.size
  have hsize₁ := hres.size
  have habove := hframe.above
  -- Old memory, argument block and frame follow one another, each untouched by the next.
  refine ⟨⟨rfl, rfl, rfl, hres.above, ?_, hframe.size, ?_, ?_⟩, rfl, hframe.keeps⟩
  · dsimp only
    omega
  · intro k hk
    have hargs := hres.above
    rw [hframe.keeps k (by omega), hfills.below (by omega), hres.keeps k hk]
  · intro k hk hlt
    rw [hframe.size] at hlt
    dsimp only at hk
    exact hframe.zero k (by omega) hlt

theorem codeOf_eq_ok {p : Program} {f : FuncId} {c : Code} :
    codeOf p f = .ok c ↔ p.linked? f = some (.code c) := by
  unfold codeOf
  constructor
  · intro h
    split at h
    · cases h
      assumption
    · cases h
    · cases h
  · intro h
    rw [h]

/-- What a call of a defined function does. -/
theorem entered_of_enterCall {H : Type} {env : Env H} {stack n : Memory} {calls calls' : CallStack}
    {target : Reg} {callee : FuncId} {args : List Reg}
    (hp : env.program.Laid)
    (hcaller : ∀ r e, calls.top.code.frame.regExtent? r = some e →
      calls.top.frameBase + e.stop ≤ stack.size)
    (h : enterCall env stack calls target callee args = .ok (n, calls')) :
    ∃ c a e, env.program.linked? callee = some (.code c) ∧
      args.length = c.definition.signature.args.length ∧
      calls.top.code.frame.regExtent? target = some e ∧
      calls' = ⟨a, calls.below.push ⟨calls.top.advance, calls.top.frameBase + e.start⟩⟩ ∧
      Entered c a stack n ∧ Passed calls.top c a.argsBase 0 args stack n := by
  unfold enterCall at h
  obtain ⟨-, -, h⟩ := Except.bind_eq_ok.mp h
  obtain ⟨c, hc, h⟩ := Except.bind_eq_ok.mp h
  rw [codeOf_eq_ok] at hc
  have hlaid := hp callee c hc
  split at h
  · cases h
  · rename_i hlen
    obtain ⟨top, below⟩ := calls
    generalize hr : reserve stack c.args.size.toNat c.args.align.toNat = r at h
    obtain ⟨argsBase, m₁⟩ := r
    have hres := reserved_of_reserve hr
    obtain ⟨m₂, hpass, h⟩ := Except.bind_eq_ok.mp h
    obtain ⟨dst, hdst, h⟩ := Except.bind_eq_ok.mp h
    obtain ⟨e, he, rfl⟩ := extent_eq_ok hdst
    have habove := hres.above
    obtain ⟨hfills, hpassed⟩ := passArgs_eq_ok hlaid
      (fun r e he => Nat.le_trans (hcaller r e he) habove) hpass
    generalize hs : startFrame m₂ c argsBase = r at h
    obtain ⟨a, n'⟩ := r
    cases h
    obtain ⟨hentered, rfl, hblock⟩ := entered_of_startFrame hres hfills hs
    have harity : args.length = c.definition.signature.args.length := by
      rw [← hlaid.args.length]
      exact Decidable.not_not.mp hlen
    refine ⟨c, a, e, hc, harity, he, rfl, hentered, ?_⟩
    intro i r hr
    obtain ⟨src, dst, hsrc, hdst, hsize, hsame⟩ := hpassed i r hr
    have hwithin := hlaid.args.within hdst
    have hstop := hcaller r src hsrc
    have hsize₁ := hres.size
    have hsize₂ := hfills.size
    rw [Extent.stop] at hwithin hstop
    refine ⟨src, dst, hsrc, hdst, hsize, ?_⟩
    intro k hk
    -- From the frame down to the block, to the registers above the caller, to the caller.
    rw [hblock _ (by omega), hsame k hk]
    exact hres.keeps _ (by dsimp only at hstop ⊢; omega)

/-- What the start of an invocation does. -/
theorem entered_of_enter {p : Program} {f : FuncId} {args : List Bytes} {returnSize : Nat}
    {stats : Stats} {s : State} (hp : p.Laid)
    (h : enter p f args returnSize stats = .ok s) :
    ∃ c a, p.linked? f = some (.code c) ∧ returnSize = c.definition.signature.ret.size.toNat ∧
      args.length = c.definition.signature.args.length ∧ s.calls = ⟨a, #[]⟩ ∧
      Entered c a .empty s.stack ∧ Placed c a.argsBase 0 args s.stack := by
  unfold enter at h
  obtain ⟨c, hc, h⟩ := Except.bind_eq_ok.mp h
  rw [codeOf_eq_ok] at hc
  have hlaid := hp f c hc
  dsimp only at h
  split at h
  · cases h
  · rename_i hlen
    split at h
    · cases h
    · rename_i hret
      generalize hr : reserve .empty c.args.size.toNat c.args.align.toNat = r at h
      obtain ⟨argsBase, m₁⟩ := r
      have hres := reserved_of_reserve hr
      obtain ⟨m₂, hplace, h⟩ := Except.bind_eq_ok.mp h
      obtain ⟨hfills, hplaced⟩ := placeArgs_eq_ok hlaid
        (fun i t ht => by rwa [Nat.zero_add]) (Decidable.not_not.mp hlen) hplace
      generalize hs : startFrame m₂ c argsBase = r at h
      obtain ⟨a, n⟩ := r
      cases h
      obtain ⟨hentered, rfl, hblock⟩ := entered_of_startFrame hres hfills hs
      refine ⟨c, a, hc, Decidable.not_not.mp hret, Decidable.not_not.mp hlen, rfl, hentered, ?_⟩
      intro i bs hbs
      obtain ⟨dst, hdst, hsize, hbytes⟩ := hplaced i bs hbs
      have hwithin := hlaid.args.within hdst
      have hsize₁ := hres.size
      have hsize₂ : m₂.size = m₁.size := hfills.size
      rw [Extent.stop] at hwithin
      refine ⟨dst, hdst, hsize, ?_⟩
      intro k hk
      rw [hblock _ (by omega)]
      exact hbytes k hk

/-- An invocation starts when the arguments and the result have the declared sizes. -/
theorem enter_ok {p : Program} {f : FuncId} {c : Code} {args : List Bytes} {returnSize : Nat}
    {stats : Stats} (hp : p.Laid) (hc : p.linked? f = some (.code c))
    (hargs : List.Forall₂ (fun bs t => bs.size = t.size.toNat) args c.definition.signature.args)
    (hret : returnSize = c.definition.signature.ret.size.toNat) :
    ∃ s, enter p f args returnSize stats = .ok s := by
  generalize hr : reserve .empty c.args.size.toNat c.args.align.toNat = r
  obtain ⟨argsBase, m₁⟩ := r
  have hres := reserved_of_reserve hr
  obtain ⟨m₂, hplace⟩ := placeArgs_ok (hp f c hc) 0 (Nat.le_of_eq hres.size.symm)
    (fun i t ht => by rwa [Nat.zero_add]) hargs
  unfold enter
  rw [codeOf_eq_ok.mpr hc]
  simp only [bind, Except.bind, if_neg (show ¬ args.length ≠ c.definition.signature.args.length by
    simpa using hargs.length_eq), if_neg (show ¬ returnSize ≠ _ by simpa using hret), hr, hplace]
  exact ⟨_, rfl⟩

end RegIR.Machine
