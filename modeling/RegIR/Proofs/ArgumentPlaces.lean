import Mathlib.Order.Bounds.Basic
import RegIR.Proofs.EntryFrames
/-!
# Places of arguments

An assigner that starts afresh gives the first six arguments a register each.  It puts the others
on the stack, each aligned and behind the one before, whatever results it is asked to place in
between.
-/

namespace RegIR.X64

/-- The stack argument takes the bytes from `x` up to `y`, in units of eight. -/
structure Assignment.Occupies (p : Assignment) (x y : Nat) : Prop where
  offset : ∃ off, p.stackOffset = some off ∧ off.toInt = x
  stop : y = x + roundUp p.size.toNat 8

namespace Assigner

/-! ## 1. Places without bounds -/

/-- Where the stack argument starts that follows others up to `stop`. -/
def startFrom (stop : Nat) (align : UInt32) : Nat := roundUp stop (max align.toNat 8)

/-- Where stack arguments end that follow others up to `stop`. -/
def stackEnd (stop : Nat) : List (UInt32 × UInt32) → Nat
  | [] => stop
  | (size, align) :: rest => stackEnd (startFrom stop align + roundUp size.toNat 8) rest

/-- The places of arguments when `used` registers are taken and the stack arguments so far end at
`stop`.  The last number is where they end then. -/
inductive Assigns : Nat → Nat → List (UInt32 × UInt32) → List Assignment → Nat → Prop
  | nil {used stop : Nat} : Assigns used stop [] [] stop
  | reg {used stop last : Nat} {size align : UInt32} {r : Gp} {rest : List (UInt32 × UInt32)}
      {places : List Assignment} (hr : argRegs[used]? = some r)
      (h : Assigns (used + 1) stop rest places last) :
      Assigns used stop ((size, align) :: rest) (⟨size, align, some r, none⟩ :: places) last
  | stack {used stop last : Nat} {size align : UInt32} {off : Int32}
      {rest : List (UInt32 × UInt32)} {places : List Assignment} (hfull : 6 ≤ used)
      (hoff : off.toInt = startFrom stop align)
      (h : Assigns used (startFrom stop align + roundUp size.toNat 8) rest places last) :
      Assigns used stop ((size, align) :: rest) (⟨size, align, none, some off⟩ :: places) last

theorem le_startFrom (stop : Nat) (align : UInt32) : stop ≤ startFrom stop align :=
  le_roundUp (Nat.lt_of_lt_of_le (by decide) (Nat.le_max_right ..))

theorem dvd_startFrom {align : UInt32} {k : Nat} (hk : align.toNat = 2 ^ k) (stop : Nat) :
    8 ∣ startFrom stop align ∧ align.toNat ∣ startFrom stop align := by
  have hround := dvd_roundUp stop (max align.toNat 8)
  have hmax := two_pow_dvd_max k 3
  rw [← hk] at hmax
  exact ⟨Nat.dvd_trans hmax.2 hround, Nat.dvd_trans hmax.1 hround⟩

theorem le_stackEnd (stop : Nat) (args : List (UInt32 × UInt32)) : stop ≤ stackEnd stop args := by
  induction args generalizing stop with
  | nil => exact Nat.le_refl _
  | cons x rest ih =>
    exact Nat.le_trans (Nat.le_trans (le_startFrom stop x.2) (Nat.le_add_right ..)) (ih _)

theorem lt_six_of_argRegs {i : Nat} {r : Gp} (h : argRegs[i]? = some r) : i < 6 :=
  (List.getElem?_eq_some_iff.mp h).1

namespace Assigns

variable {used stop last : Nat} {args : List (UInt32 × UInt32)} {places : List Assignment}

theorem described (h : Assigns used stop args places last) :
    places.map (fun p => (p.size, p.align)) = args := by
  induction h with
  | nil => rfl
  | reg _ _ ih => rw [List.map_cons, ih]
  | stack _ _ _ ih => rw [List.map_cons, ih]

theorem le_last (h : Assigns used stop args places last) : stop ≤ last := by
  induction h with
  | nil => exact Nat.le_refl _
  | reg _ _ ih => exact ih
  | stack _ _ _ ih => exact Nat.le_trans (Nat.le_trans (le_startFrom ..) (Nat.le_add_right ..)) ih

theorem of_reg (h : Assigns used stop args places last) {i : Nat} {p : Assignment}
    (hi : used + i < 6) (hp : places[i]? = some p) :
    p.reg = argRegs[used + i]? ∧ p.stackOffset = none := by
  induction h generalizing i with
  | nil => cases hp
  | reg hr _ ih =>
    cases i with
    | zero =>
      cases hp
      exact ⟨hr.symm, rfl⟩
    | succ i =>
      rw [Nat.add_comm i, ← Nat.add_assoc] at hi ⊢
      exact ih hi hp
  | stack hfull => omega

/-- A stack argument lies between the ends before and behind the list. -/
theorem within (h : Assigns used stop args places last) {p : Assignment} {x y : Nat}
    (hp : p ∈ places) (hxy : p.Occupies x y) : stop ≤ x ∧ y ≤ last := by
  induction h with
  | nil => cases hp
  | reg hr _ ih =>
    rcases List.mem_cons.mp hp with rfl | hp
    · obtain ⟨off, hoff, -⟩ := hxy.offset
      cases hoff
    · exact ih hp
  | @stack _ stop _ size align _ _ _ _ hoff h ih =>
    rcases List.mem_cons.mp hp with rfl | hp
    · obtain ⟨_, ho, hx⟩ := hxy.offset
      cases ho
      obtain rfl : startFrom stop align = x := by omega
      exact ⟨le_startFrom .., hxy.stop ▸ h.le_last⟩
    · have hstart := le_startFrom stop align
      obtain ⟨hx, hy⟩ := ih hp
      exact ⟨by omega, hy⟩

theorem of_stack (h : Assigns used stop args places last)
    (hpow : ∀ x ∈ args, ∃ k, x.2.toNat = 2 ^ k) {i : Nat} {p : Assignment}
    (hi : 6 ≤ used + i) (hp : places[i]? = some p) :
    p.reg = none ∧ ∃ x y, p.Occupies x y ∧ 8 ∣ x ∧ p.align.toNat ∣ x := by
  induction h generalizing i with
  | nil => cases hp
  | reg hr _ ih =>
    have hused := lt_six_of_argRegs hr
    cases i with
    | zero => omega
    | succ i => exact ih (fun x hx => hpow x (List.mem_cons_of_mem _ hx)) (by omega) hp
  | stack _ hoff _ ih =>
    obtain ⟨⟨k, hk⟩, hrest⟩ := List.forall_mem_cons.mp hpow
    cases i with
    | zero =>
      cases hp
      exact ⟨rfl, _, _, ⟨⟨_, rfl, hoff⟩, rfl⟩, dvd_startFrom hk _⟩
    | succ i => exact ih hrest (by omega) hp

/-- Of two stack arguments the later one starts behind the earlier one. -/
theorem apart (h : Assigns used stop args places last) {i j : Nat} {p q : Assignment}
    {x y x' y' : Nat} (hij : i < j) (hp : places[i]? = some p) (hq : places[j]? = some q)
    (hxy : p.Occupies x y) (hxy' : q.Occupies x' y') : y ≤ x' := by
  induction h generalizing i j with
  | nil => cases hp
  | reg _ _ ih =>
    obtain ⟨j, rfl⟩ := Nat.exists_eq_succ_of_ne_zero (Nat.ne_zero_of_lt hij)
    cases i with
    | zero =>
      cases hp
      obtain ⟨off, hoff, -⟩ := hxy.offset
      cases hoff
    | succ i => exact ih (Nat.lt_of_succ_lt_succ hij) hp hq
  | @stack _ stop _ size align _ _ _ _ hoff h ih =>
    obtain ⟨j, rfl⟩ := Nat.exists_eq_succ_of_ne_zero (Nat.ne_zero_of_lt hij)
    cases i with
    | zero =>
      cases hp
      obtain ⟨_, ho, hx⟩ := hxy.offset
      cases ho
      obtain rfl : startFrom stop align = x := by omega
      rw [hxy.stop]
      exact (h.within (List.mem_of_getElem? hq) hxy').1
    | succ i => exact ih (Nat.lt_of_succ_lt_succ hij) hp hq

theorem exists_last (h : Assigns used stop args places last) :
    last = stop ∨ ∃ p ∈ places, ∃ x, p.Occupies x last := by
  induction h with
  | nil => exact Or.inl rfl
  | reg _ _ ih =>
    refine ih.imp_right ?_
    rintro ⟨p, hp, x, hx⟩
    exact ⟨p, List.mem_cons_of_mem _ hp, x, hx⟩
  | stack _ hoff _ ih =>
    refine Or.inr ?_
    rcases ih with rfl | ⟨p, hp, x, hx⟩
    · exact ⟨_, List.mem_cons_self, _, ⟨_, rfl, hoff⟩, rfl⟩
    · exact ⟨p, List.mem_cons_of_mem _ hp, x, hx⟩

theorem isGreatest_last (h : Assigns used 0 args places last) :
    IsGreatest (insert 0 {y | ∃ p ∈ places, ∃ x, p.Occupies x y}) last := by
  constructor
  · exact h.exists_last
  · rintro y (rfl | ⟨p, hp, x, hxy⟩)
    · exact Nat.zero_le _
    · exact (h.within hp hxy).2

end Assigns

/-! ## 2. The assigner -/

/-- A stack argument whose bytes end below 2³¹ is put where it is without bounds. -/
theorem toNat_push {stop size align : UInt32} {k : Nat} (hk : align.toNat = 2 ^ k)
    (hfits : startFrom stop.toNat align + roundUp size.toNat 8 < 2 ^ 31) :
    (alignTo stop (max align 8)).toInt32.toInt = startFrom stop.toNat align ∧
      (alignTo stop (max align 8) + alignTo size 8).toNat =
        startFrom stop.toNat align + roundUp size.toNat 8 := by
  have hmax : (max align 8).toNat = 2 ^ max k 3 := by
    rw [UInt32.toNat_max, hk]
    exact max_two_pow k 3
  -- A power of two that is a word is at most 2³¹.
  have hle : 2 ^ max k 3 ≤ 2 ^ 31 := by
    have hlt := (max align 8).toNat_lt
    rw [hmax] at hlt
    have hexp := (Nat.pow_lt_pow_iff_right (by decide)).mp hlt
    exact Nat.pow_le_pow_right (by decide) (Nat.le_of_lt_succ hexp)
  have hstop := le_startFrom stop.toNat align
  have hstart : (alignTo stop (max align 8)).toNat = startFrom stop.toNat align := by
    rw [alignTo_toNat hmax (by omega), startFrom, hk]
    exact congrArg _ (max_two_pow k 3).symm
  have hsize : (alignTo size 8).toNat = roundUp size.toNat 8 := by
    have hsize : size.toNat ≤ roundUp size.toNat 8 := le_roundUp (by decide)
    exact alignTo_toNat (k := 3) rfl (by omega)
  refine ⟨?_, ?_⟩
  · rw [toInt_toInt32 (by omega), hstart]
  · rw [UInt32.toNat_add, hstart, hsize, Nat.mod_eq_of_lt (by omega)]

/-- Places that end below 2³¹ are those without bounds. -/
theorem assigns_assignArgs {args : List (UInt32 × UInt32)} {a : Assigner}
    (hpow : ∀ x ∈ args, ∃ k, x.2.toNat = 2 ^ k)
    (hfits : stackEnd a.stack.toNat (args.drop (6 - a.gpUsed)) < 2 ^ 31) :
    Assigns a.gpUsed a.stack.toNat args (a.assignArgs args).1 (a.assignArgs args).2.stack.toNat ∧
      (a.assignArgs args).2.stack.toNat < 2 ^ 31 := by
  induction args generalizing a with
  | nil =>
    rw [List.drop_nil] at hfits
    exact ⟨.nil, hfits⟩
  | cons x rest ih =>
    obtain ⟨size, align⟩ := x
    obtain ⟨⟨k, hk⟩, hrest⟩ := List.forall_mem_cons.mp hpow
    rw [assignArgs, assignArg]
    cases hr : argRegs[a.gpUsed]? with
    | some r =>
      have hused := lt_six_of_argRegs hr
      rw [show 6 - a.gpUsed = 6 - (a.gpUsed + 1) + 1 by omega, List.drop_succ_cons] at hfits
      obtain ⟨h, hlast⟩ := ih (a := { a with gpUsed := a.gpUsed + 1 }) hrest hfits
      exact ⟨.reg hr h, hlast⟩
    | none =>
      have hfull : 6 ≤ a.gpUsed := List.getElem?_eq_none_iff.mp hr
      rw [Nat.sub_eq_zero_of_le hfull, List.drop_zero, stackEnd] at hfits
      obtain ⟨hoff, hstop⟩ :=
        toNat_push hk (Nat.lt_of_le_of_lt (le_stackEnd _ rest) hfits)
      have h := ih (a := { a with stack := alignTo a.stack (max align 8) + alignTo size 8 }) hrest
        (by
          dsimp only
          rw [Nat.sub_eq_zero_of_le hfull, List.drop_zero, hstop]
          exact hfits)
      dsimp only at h
      rw [hstop] at h
      exact ⟨.stack hfull hoff h.1, h.2⟩

end Assigner

/-! ## 3. Arguments and results in turn -/

/-- What an assigner is asked to place, by size and alignment. -/
inductive Request where
  | arg (size align : UInt32)
  | ret (size align : UInt32)

namespace Request

/-- The arguments among the requests. -/
def args (rs : List Request) : List (UInt32 × UInt32) :=
  rs.filterMap fun
    | .arg size align => some (size, align)
    | .ret .. => none

/-- The results among the requests. -/
def rets (rs : List Request) : List (UInt32 × UInt32) :=
  rs.filterMap fun
    | .arg .. => none
    | .ret size align => some (size, align)

end Request

/-- The places of the arguments and of the results, and the assigner behind them. -/
structure Served where
  args : List Assignment
  rets : List Assignment
  final : Assigner

namespace Assigner

/-- Places arguments and results in the order in which they come. -/
def serve (a : Assigner) : List Request → Served
  | [] => ⟨[], [], a⟩
  | .arg size align :: rest =>
    let (place, a) := a.assignArg size align
    let others := a.serve rest
    { others with args := place :: others.args }
  | .ret size align :: rest =>
    let (place, a) := a.assignRet size align
    let others := a.serve rest
    { others with rets := place :: others.rets }

theorem assignArg_withRet (a : Assigner) (taken : Bool) (size align : UInt32) :
    { a with retAssigned := taken }.assignArg size align =
      ((a.assignArg size align).1, { (a.assignArg size align).2 with retAssigned := taken }) := by
  simp only [assignArg]
  cases argRegs[a.gpUsed]? <;> rfl

theorem assignArgs_withRet (a : Assigner) (taken : Bool) (args : List (UInt32 × UInt32)) :
    { a with retAssigned := taken }.assignArgs args =
      ((a.assignArgs args).1, { (a.assignArgs args).2 with retAssigned := taken }) := by
  induction args generalizing a with
  | nil => rfl
  | cons x rest ih =>
    rw [assignArgs, assignArgs, assignArg_withRet]
    dsimp only
    rw [ih]

theorem assignRet_fst (a : Assigner) (size align : UInt32) :
    (a.assignRet size align).1 =
      ⟨size, align, if a.retAssigned = false ∧ size ≤ 8 then some .rax else none, none⟩ := by
  unfold assignRet
  by_cases hsize : size ≤ 8 <;> cases a.retAssigned <;> simp [hsize, Assignment.unassigned]

theorem assignRet_snd (a : Assigner) (size align : UInt32) :
    (a.assignRet size align).2 =
      { a with retAssigned := a.retAssigned || decide (size ≤ 8) } := by
  obtain ⟨used, stack, taken⟩ := a
  unfold assignRet
  by_cases hsize : size ≤ 8 <;> cases taken <;> simp [hsize]

/-- Results leave the arguments alone. -/
theorem serve_eq (a : Assigner) (rs : List Request) :
    (a.serve rs).args = (a.assignArgs (Request.args rs)).1 ∧
      (a.serve rs).final.stack = (a.assignArgs (Request.args rs)).2.stack := by
  induction rs generalizing a with
  | nil => exact ⟨rfl, rfl⟩
  | cons r rest ih =>
    cases r with
    | arg size align =>
      obtain ⟨hargs, hfinal⟩ := ih (a.assignArg size align).2
      exact ⟨congrArg _ hargs, hfinal⟩
    | ret size align =>
      obtain ⟨hargs, hfinal⟩ := ih { a with retAssigned := a.retAssigned || decide (size ≤ 8) }
      rw [assignArgs_withRet] at hargs hfinal
      rw [← assignRet_snd a size align] at hargs hfinal
      exact ⟨hargs, hfinal⟩

/-- The register of a result that follows others: the first result that fits gets it. -/
def retReg (earlier : List (UInt32 × UInt32)) (size : UInt32) : Option Gp :=
  if size ≤ 8 ∧ (earlier.all fun y => !decide (y.1 ≤ 8)) = true then some .rax else none

theorem retReg_cons (size align : UInt32) (earlier : List (UInt32 × UInt32)) (size' : UInt32) :
    retReg ((size, align) :: earlier) size' = if size ≤ 8 then none else retReg earlier size' := by
  rw [retReg, List.all_cons]
  by_cases hsize : size ≤ 8
  · rw [if_pos hsize, decide_eq_true hsize, Bool.not_true, Bool.false_and]
    exact if_neg fun h => Bool.noConfusion h.2
  · rw [if_neg hsize, decide_eq_false hsize, Bool.not_false, Bool.true_and]
    rfl

theorem getElem?_rets (a : Assigner) (rs : List Request) (j : Nat) :
    (a.serve rs).rets[j]? = (Request.rets rs)[j]?.map fun x : UInt32 × UInt32 =>
      ⟨x.1, x.2, if a.retAssigned then none else retReg ((Request.rets rs).take j) x.1, none⟩ := by
  induction rs generalizing a j with
  | nil => rfl
  | cons r rest ih =>
    cases r with
    | arg size align =>
      have hkept : (a.assignArg size align).2.retAssigned = a.retAssigned := by
        unfold assignArg
        split <;> rfl
      rw [← hkept]
      exact ih _ j
    | ret size align =>
      have hrets : Request.rets (.ret size align :: rest) = (size, align) :: Request.rets rest := rfl
      rw [hrets]
      cases j with
      | zero => cases hret : a.retAssigned <;> simp [serve, assignRet_fst, retReg, hret]
      | succ j =>
        have hkept := congrArg Assigner.retAssigned (assignRet_snd a size align)
        refine (ih (a.assignRet size align).2 j).trans ?_
        rw [hkept, List.getElem?_cons_succ, List.take_succ_cons]
        simp only [retReg_cons]
        cases a.retAssigned <;> by_cases hsize : size ≤ 8 <;> simp [hsize]

/-! ## 4. What is placed where -/

/-- The first six arguments arrive in the argument registers, and the others on the stack, aligned
and one behind the other.  The size of their area is the end of the last one rounded up to a
multiple of sixteen. -/
structure Placed (args : List (UInt32 × UInt32)) (places : List Assignment) (stackSize : UInt32) :
    Prop where
  described : places.map (fun p => (p.size, p.align)) = args
  reg : ∀ i p, i < 6 → places[i]? = some p → p.reg = argRegs[i]? ∧ p.stackOffset = none
  stack : ∀ i p, 6 ≤ i → places[i]? = some p →
    p.reg = none ∧ ∃ x y, p.Occupies x y ∧ 8 ∣ x ∧ p.align.toNat ∣ x
  apart : ∀ (i j : Nat) (p q : Assignment) (x y x' y' : Nat), i < j → places[i]? = some p →
    places[j]? = some q → p.Occupies x y → q.Occupies x' y' → y ≤ x'
  dvd_size : 16 ∣ stackSize.toNat
  tight : ∃ e, IsGreatest (insert 0 {y | ∃ p ∈ places, ∃ x, p.Occupies x y}) e ∧
    e ≤ stackSize.toNat ∧ stackSize.toNat < e + 16

theorem placed_of_reset (a : Assigner) {args : List (UInt32 × UInt32)}
    (hpow : ∀ x ∈ args, ∃ k, x.2.toNat = 2 ^ k) (hfits : stackEnd 0 (args.drop 6) < 2 ^ 31) :
    Placed args (a.reset.assignArgs args).1 (a.reset.assignArgs args).2.stackSize := by
  obtain ⟨h, hlast⟩ := assigns_assignArgs (a := a.reset) hpow hfits
  have hsize : (a.reset.assignArgs args).2.stackSize.toNat = roundUp _ 16 :=
    alignTo_toNat (k := 4) rfl (Nat.lt_trans (Nat.add_lt_add_right hlast _) (by decide))
  refine ⟨h.described, ?_, ?_, ?_, ?_, _, h.isGreatest_last, ?_, ?_⟩
  · intro i p hi hp
    rw [← Nat.zero_add i] at hi ⊢
    exact h.of_reg hi hp
  · intro i p hi hp
    exact h.of_stack hpow (Nat.le_trans hi (Nat.le_add_left ..)) hp
  · intro i j p q x y x' y'
    exact h.apart
  · rw [hsize]
    exact dvd_roundUp ..
  · rw [hsize]
    exact le_roundUp (by decide)
  · rw [hsize]
    exact roundUp_lt (by decide)

theorem plan_eq (a : Assigner) (args : List (UInt32 × UInt32)) (ret : UInt32 × UInt32) :
    EntryFrame.plan args ret =
      let placed := a.reset.assignArgs args
      (⟨placed.1, (placed.2.assignRet ret.1 ret.2).1⟩, (placed.2.assignRet ret.1 ret.2).2) := rfl

/-- Whatever an assigner placed before, once it starts afresh it gives each argument a place of its
own.  Of the results that it is asked to place in between, the first that fits in the register gets
it, and all of them leave the arguments where they are without them. -/
theorem places_exact (a : Assigner) (rs : List Request)
    (hpow : ∀ x ∈ Request.args rs, ∃ k, x.2.toNat = 2 ^ k)
    (hfits : stackEnd 0 ((Request.args rs).drop 6) < 2 ^ 31) :
    Placed (Request.args rs) (a.reset.serve rs).args (a.reset.serve rs).final.stackSize ∧
    (∀ j : Nat, (a.reset.serve rs).rets[j]? = (Request.rets rs)[j]?.map fun x : UInt32 × UInt32 =>
      ⟨x.1, x.2, retReg ((Request.rets rs).take j) x.1, none⟩) ∧
    ∀ ret, (EntryFrame.plan (Request.args rs) ret).1.args = (a.reset.serve rs).args ∧
      (EntryFrame.plan (Request.args rs) ret).2.stackSize =
        (a.reset.serve rs).final.stackSize := by
  obtain ⟨hargs, hstack⟩ := a.reset.serve_eq rs
  have hsize : (a.reset.serve rs).final.stackSize =
      (a.reset.assignArgs (Request.args rs)).2.stackSize := congrArg (alignTo · 16) hstack
  refine ⟨?_, ?_, ?_⟩
  · rw [hargs, hsize]
    exact a.placed_of_reset hpow hfits
  · intro j
    exact getElem?_rets _ rs j
  · intro ret
    rw [hargs, hsize, plan_eq a]
    dsimp only
    rw [assignRet_snd]
    exact ⟨rfl, rfl⟩

/-- Nine arguments of different sizes and alignments, and three results among them. -/
def mixedRequests : List Request :=
  [.arg 4 4, .arg 8 8, .ret 16 8, .arg 4 4, .arg 4 4, .arg 1 1, .arg 4 4, .arg 12 16, .ret 4 4,
    .arg 1 1, .ret 8 8, .arg 24 32]

/-- The three arguments on the stack take 56 bytes with the gap before the last. -/
theorem places_exact_mixed :
    (∀ x ∈ Request.args mixedRequests, ∃ k, x.2.toNat = 2 ^ k) ∧
    stackEnd 0 ((Request.args mixedRequests).drop 6) = 56 ∧
    Placed (Request.args mixedRequests) (serve (reset ⟨3, 40, true⟩) mixedRequests).args 64 ∧
    (serve (reset ⟨3, 40, true⟩) mixedRequests).rets.map Assignment.reg =
      [none, some .rax, none] := by
  have hlog : (Request.args mixedRequests).all (fun x => x.2.toNat == 2 ^ x.2.toNat.log2) = true := by
    decide
  have hpow : ∀ x ∈ Request.args mixedRequests, ∃ k, x.2.toNat = 2 ^ k :=
    fun x hx => ⟨_, beq_iff_eq.mp (List.all_eq_true.mp hlog x hx)⟩
  refine ⟨hpow, by decide, (places_exact ⟨3, 40, true⟩ mixedRequests hpow (by decide)).1, by decide⟩

end Assigner

end RegIR.X64
