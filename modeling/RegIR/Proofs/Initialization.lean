import RegIR.Proofs.Availability
import RegIR.Proofs.Confinement
/-!
# Registers in use

A journal lists the operations that an activation has executed.  Each of them that has a target has
put a whole value there, and what the register holds later is what the last of them put.  So no
register is read while it holds the zeros that its frame started with.
-/

namespace RegIR.Machine

open Memory

/-! ## 1. Assigned variables -/

/-- The step from `s` to `t` puts a value into the variable at `y`, over all of its bytes. -/
inductive Assigns (p : Program) (s t : State) (op : Operation) (w : Variable) (u : Ty) (y : Nat) :
    Prop
  | copied {v : Variable} {x : Nat} (h : s.Copies p op v w) (hv : s.calls.Binds v u x)
      (hsame : SameArea t.stack s.stack y x u.size.toNat) : Assigns p s t op w u y
  | int {target : Reg} {word : UInt32} (h : op.IntTo p target)
      (hw : w = s.calls.own (.reg target)) (hu : u = .int)
      (hword : t.stack.word32? y = some word) : Assigns p s t op w u y
  | address {target : Reg} {slot : SlotId} {u' : Ty} {x : Nat}
      (h : op = .stackAlloc target slot) (hw : w = s.calls.own (.reg target))
      (hu : u = .pointer) (hslot : s.calls.Binds (s.calls.own (.slot slot)) u' x)
      (hword : t.stack.word64? y = some (addressOf x)) : Assigns p s t op w u y

/-- The variable holds in `s` what a step of the run has assigned to it, and its activation has
been live since. -/
inductive Assigned {H : Type} (env : Env H) (s₀ s : State) (w : Variable) : Prop
  | intro {s₁ s₂ : State} {us : List State} {op : Operation} {u : Ty} {y : Nat}
      (hreach : Reaches env s₀ s₁) (hop : s₁.calls.top.operation? = some op)
      (hst : Advances env s₁ s₂) (hassigns : Assigns env.program s₁ s₂ op w u y)
      (hus : Trace env s₂ us s) (hlive : ∀ v ∈ us, w.depth ≤ v.calls.below.size)
      (hw : s.calls.Binds w u y) (hsame : SameArea s.stack s₂.stack y y u.size.toNat) :
      Assigned env s₀ s w

section Effects

variable {p : Program} {s t : State} {op : Operation}

/-- A step assigns one variable, which is the target if the operation has one.  Otherwise it keeps
every byte, and it has no target or starts a call. -/
theorem Effect.assigns (h : Effect p s t op) :
    (∃ w u y, s.calls.Binds w u y ∧ Assigns p s t op w u y ∧ s.KeepsOutside t y u.size.toNat ∧
      ∀ r, op.target? = some r → w = s.calls.own (.reg r)) ∨
    (op.target? = none ∨ s.calls.below.size < t.calls.below.size) ∧
      ∀ k < s.stack.size, t.stack.byte? k = s.stack.byte? k := by
  cases h with
  | copy h hv hw hsame hrest =>
    refine .inl ⟨_, _, _, hw, .copied h hv hsame, hrest, fun r hr => ?_⟩
    cases h with
    | readArg | load => cases hr; rfl
    | store | ret => cases hr
    | pass =>
      -- The arguments of a callee are not live before the call.
      exact absurd hw.depth_le (Nat.not_succ_le_self _)
  | int h htarget hword hrest =>
    refine .inl ⟨_, _, _, htarget, .int h rfl rfl hword, hrest, fun r hr => ?_⟩
    cases h <;> cases hr <;> rfl
  | address h htarget hslot hword hrest =>
    refine .inl ⟨_, _, _, htarget, .address h rfl rfl hslot hword, hrest, fun r hr => ?_⟩
    subst h
    cases hr
    rfl
  | jump hb _ hstack =>
    refine .inr ⟨.inl ?_, fun k _ => by rw [hstack]⟩
    cases op <;> first | rfl | exact absurd hb List.not_mem_nil
  | call _ _ _ hdepth _ _ hkeeps => exact .inr ⟨.inr (by omega), hkeeps⟩

/-- A variable that is live on both sides of a step is assigned by it or keeps its bytes. -/
theorem Effect.assigns_or_keeps (h : Effect p s t op) (hp : p.Laid) (hs : Stacked p s)
    (ht : Stacked p t) {w : Variable} {u : Ty} {y : Nat} (hw : s.calls.Binds w u y)
    (hw' : t.calls.Binds w u y) :
    Assigns p s t op w u y ∨ SameArea t.stack s.stack y y u.size.toNat := by
  rcases h.assigns with ⟨v, u', x, hv, hassigns, hrest, -⟩ | ⟨-, hkeeps⟩
  · by_cases heq : w = v
    · subst heq
      obtain ⟨rfl, rfl⟩ := hw.unique hv
      exact .inl hassigns
    · exact .inr (sameArea_of_ne hp hs ht hv hrest hw hw' heq)
  · have hwithin := hs.binds_within hp hw
    exact .inr fun k hk => hkeeps _ (by omega)

/-- An operation that is completed in its activation has assigned its target. -/
theorem Effect.assigns_target (h : Effect p s t op) (hn : Next p s t)
    (hdepth : t.calls.below.size = s.calls.below.size) {r : Reg} (hr : op.target? = some r) :
    ∃ u y, t.calls.Binds (s.calls.own (.reg r)) u y ∧
      Assigns p s t op (s.calls.own (.reg r)) u y := by
  rcases h.assigns with ⟨w, u, y, hw, hassigns, -, htarget⟩ | ⟨hnone | hdeeper, -⟩
  · cases htarget r hr
    exact ⟨u, y, hn.binds hw (Nat.le_of_eq hdepth.symm), hassigns⟩
  · rw [hr] at hnone
    cases hnone
  · omega

end Effects

section Runs

variable {H : Type} {env : Env H} {s₀ s t : State} {w : Variable}
  (hreach : Reaches env s₀ s) (hst : Advances env s t)
include hreach hst

theorem Assigned.of_assigns {op : Operation} {u : Ty} {y : Nat}
    (hop : s.calls.top.operation? = some op) (h : Assigns env.program s t op w u y)
    (hw : t.calls.Binds w u y) : Assigned env s₀ t w :=
  ⟨hreach, hop, hst, h, .start, fun _ hv => (List.not_mem_nil hv).elim, hw, fun _ _ => rfl⟩

/-- An assigned variable stays one as long as its activation lives. -/
theorem Assigned.next (hsound : env.program.Sound) (hone : env.program.OneRegistry)
    (hs : Stacked env.program s) (h : Assigned env s₀ s w) (hd : w.depth ≤ t.calls.below.size) :
    Assigned env s₀ t w := by
  obtain ⟨hreach', hop', hst', hassigns', hus, hlive, hw, hsame⟩ := h
  obtain ⟨hn, ht⟩ := hs.advances hsound.laid hst
  obtain ⟨op, hop, heffect⟩ := hn.effect hsound hone hs
  have hw' := hn.binds hw hd
  rcases heffect.assigns_or_keeps hsound.laid hs ht hw hw' with hassigns | hkept
  · exact .of_assigns hreach hst hop hassigns hw'
  · refine ⟨hreach', hop', hst', hassigns', hus.step hst, ?_, hw', hkept.trans hsame⟩
    intro v hv
    rcases List.mem_cons.mp hv with rfl | hv
    · exact hw.depth_le
    · exact hlive v hv

end Runs

/-! ## 2. What a journal has assigned -/

/-- The awaited register is the target of the operation that the activation waits behind. -/
theorem Activation.Pending.target?_eq {u : Suspended} {done : List Operation} {op : Operation}
    {target : Reg} (h : u.caller.Pending done op) (ha : u.Awaits target) :
    op.target? = some target := by
  obtain @⟨pos, hpos, ⟨b, hb, hop⟩, -, -⟩ := h
  obtain ⟨pos', callee, args, hpos', b', hb', hop'⟩ := ha
  obtain rfl : pos = pos' := by omega
  rw [hb] at hb'
  cases hb'
  rw [hop] at hop'
  cases hop'
  rfl

namespace Journal

/-- What the activation with a number of older ones has executed. -/
def done? (j : Journal) (i : Nat) : Option (List Operation) :=
  if i = j.below.size then some j.top else (j.below[i]?).map Prod.fst

theorem done?_top (j : Journal) : j.done? j.below.size = some j.top := if_pos rfl

theorem done?_of_lt {j : Journal} {i : Nat} (hi : i < j.below.size) :
    j.done? i = (j.below[i]?).map Prod.fst := if_neg (Nat.ne_of_lt hi)

theorem le_of_done? {j : Journal} {i : Nat} {done : List Operation} (h : j.done? i = some done) :
    i ≤ j.below.size := by
  unfold done? at h
  split at h
  · omega
  · obtain ⟨_, hi, -⟩ := Option.map_eq_some_iff.mp h
    exact Nat.le_of_lt (Array.getElem?_eq_some_iff.mp hi).1

/-- A register that the activation with `i` older ones has written when the operation has led from
`s` to `t`: it had before, or the step has assigned the register. -/
inductive Written (p : Program) (j : Journal) (op : Operation) (s t : State) (i : Nat) (r : Reg) :
    Prop
  | before {done : List Operation} (hdone : j.done? i = some done) (hr : Wrote done r) :
      Written p j op s t i r
  | now {u : Ty} {y : Nat} (hw : t.calls.Binds ⟨i, .reg r⟩ u y)
      (h : Assigns p s t op ⟨i, .reg r⟩ u y) : Written p j op s t i r

section Recording

variable {p : Program} {j : Journal} {op : Operation} {s t : State} {i : Nat}
  {done : List Operation} {r : Reg}

/-- A call takes nothing out of a journal, and its callee has executed nothing. -/
theorem written_of_call (hdepth : s.calls.below.size < t.calls.below.size)
    (hdone : (j.record op s t).done? i = some done) (hr : Wrote done r) :
    j.Written p op s t i r := by
  rw [record, if_pos (by unfold CallStack.depth; omega)] at hdone
  have hle := le_of_done? hdone
  rw [Array.size_push] at hle
  rcases Nat.lt_trichotomy i j.below.size with hi | rfl | hi
  · rw [done?_of_lt (by rw [Array.size_push]; omega), Array.getElem?_push,
      if_neg (Nat.ne_of_lt hi)] at hdone
    exact .before (by rw [done?_of_lt hi, hdone]) hr
  · rw [done?_of_lt (by rw [Array.size_push]; omega), Array.getElem?_push_size] at hdone
    exact .before (j.done?_top.trans hdone) hr
  · obtain rfl : i = (j.below.push (j.top, op)).size := by
      rw [Array.size_push]
      omega
    rw [done?_top] at hdone
    cases hdone
    obtain ⟨_, hmem, -⟩ := hr
    cases hmem

variable (hj : j.Fits s.calls) (hn : Next p s t) (h : Effect p s t op)
include hj hn h

/-- Within one activation the journal gains the executed operation. -/
theorem written_of_stay (hdepth : t.calls.below.size = s.calls.below.size)
    (hdone : (j.record op s t).done? i = some done) (hr : Wrote done r) :
    j.Written p op s t i r := by
  rw [record_of_depth_eq (congrArg (· + 1) hdepth)] at hdone
  by_cases hi : i = j.below.size
  · subst hi
    obtain rfl : op :: j.top = done := Option.some.inj ((done?_top _).symm.trans hdone)
    rcases Wrote.cons_iff.mp hr with htarget | hr
    · obtain ⟨u, y, hw, hassigns⟩ := h.assigns_target hn hdepth htarget
      rw [hj.size]
      exact .now hw hassigns
    · exact .before j.done?_top hr
  · rw [done?, if_neg hi] at hdone
    exact .before (by rw [done?, if_neg hi, hdone]) hr

/-- After a return the journal of the caller gains the call. -/
theorem written_of_return (hop : s.calls.top.operation? = some op)
    (hdepth : t.calls.below.size < s.calls.below.size)
    (hdone : (j.record op s t).done? i = some done) (hr : Wrote done r) :
    j.Written p op s t i r := by
  obtain ⟨value, -, hret, -⟩ := hn.returned_of_lt hdepth
  rw [hop] at hret
  cases hret
  have hdepth' := hn.depth_of_ret hop
  obtain ⟨w, target, u, x, y, hback, hawaits, hcheck, hx, hy, hsame, -⟩ := h.of_ret
  obtain ⟨hpos, hlast⟩ := CallStack.getElem?_of_back? hback
  have hsize := hj.size
  obtain ⟨⟨before, call⟩, hcall⟩ : ∃ e, j.below[s.calls.below.size - 1]? = some e :=
    ⟨_, Array.getElem?_eq_getElem (by omega)⟩
  have htarget := (hj.below _ _ _ _ hlast hcall).target?_eq hawaits
  rw [record, if_neg (by unfold CallStack.depth; omega), if_pos (by unfold CallStack.depth; omega),
    Array.back?_eq_getElem?, hsize, hcall] at hdone
  have hle := le_of_done? hdone
  dsimp only at hdone hle
  rw [Array.size_pop, hsize] at hle
  rcases Nat.lt_or_eq_of_le hle with hi | rfl
  · rw [done?_of_lt (by rw [Array.size_pop]; omega), Array.getElem?_pop, if_pos (by omega)] at hdone
    exact .before (by rw [done?_of_lt (by omega), hdone]) hr
  · -- The caller goes on, and its call has been executed.
    rw [← hsize, ← Array.size_pop, done?_top] at hdone
    cases hdone
    rcases Wrote.cons_iff.mp hr with htarget' | hr
    · rw [htarget] at htarget'
      cases htarget'
      exact .now (hn.binds hy (by dsimp only; omega)) (.copied (.ret hback hawaits hcheck) hx hsame)
    · refine .before ?_ hr
      rw [done?_of_lt (by omega), hcall]
      rfl

/-- What a journal gains in a step, the step has assigned. -/
theorem written_record (hop : s.calls.top.operation? = some op)
    (hdone : (j.record op s t).done? i = some done) (hr : Wrote done r) :
    j.Written p op s t i r := by
  rcases Nat.lt_trichotomy t.calls.below.size s.calls.below.size with hlt | heq | hgt
  · exact written_of_return hj hn h hop hlt hdone hr
  · exact written_of_stay hj hn h heq hdone hr
  · exact written_of_call hgt hdone hr

end Recording

end Journal

/-! ## 3. Registers that are read -/

theorem History.reaches {H : Type} {env : Env H} {s₀ s : State} {j : Journal}
    (h : History env s₀ s j) : Reaches env s₀ s := by
  induction h with
  | start => exact .refl
  | step _ _ hst ih => exact ih.tail hst

/-- Every register that an executed operation defines holds what a step of the run has assigned to
it. -/
theorem assigned_of_wrote {H : Type} {env : Env H} (hsound : env.program.Sound)
    (hone : env.program.OneRegistry) {s₀ s : State} {j : Journal} (hs₀ : Stacked env.program s₀)
    (h₀ : Journal.empty.Fits s₀.calls) (h : History env s₀ s j) {i : Nat} {done : List Operation}
    {r : Reg} (hdone : j.done? i = some done) (hr : Wrote done r) :
    Assigned env s₀ s ⟨i, .reg r⟩ := by
  induction h generalizing i done r with
  | start =>
    obtain rfl : i = 0 := Nat.le_zero.mp (Journal.le_of_done? hdone)
    obtain rfl : [] = done := Option.some.inj hdone
    obtain ⟨_, hmem, -⟩ := hr
    cases hmem
  | @step s t j op hhistory hop hst ih =>
    obtain ⟨hs, hj⟩ := Journal.Fits.of_history hsound.laid hsound.accepted hs₀ h₀ hhistory
    obtain ⟨hn, ht⟩ := hs.advances hsound.laid hst
    obtain ⟨op', hop', heffect⟩ := hn.effect hsound hone hs
    rw [hop] at hop'
    cases hop'
    cases Journal.written_record hj hn heffect hop hdone hr with
    | before hbefore hr =>
      -- The journal fits the activations behind the step, so this one is live.
      have hle := Journal.le_of_done? hdone
      rw [(hj.next hsound.accepted hs ht hop hn).size] at hle
      exact .next hhistory.reaches hst hsound hone hs (ih hbefore hr) hle
    | now hw hassigns => exact .of_assigns hhistory.reaches hst hop hassigns hw

/-- Whenever an operation is executed, every register that it reads holds what an earlier step of
the same activation has assigned to it. -/
theorem uses_assigned {H : Type} {env : Env H} {m : Module} (hbuilt : m.Built)
    (hm : m.finalize = .ok env.program) (hone : env.program.OneRegistry) {f : FuncId}
    {args : List Bytes} {returnSize : Nat} {stats : Stats} {s₀ s : State}
    (henter : enter env.program f args returnSize stats = .ok s₀) (h : Reaches env s₀ s)
    {op : Operation} (hop : s.calls.top.operation? = some op) {r : Reg} (hr : r ∈ op.uses) :
    Assigned env s₀ s (s.calls.own (.reg r)) := by
  have hsound := hbuilt.sound.finalize hm
  have hs₀ := Stacked.of_enter hsound.laid henter
  have h₀ := Journal.Fits.of_enter hsound.laid hsound.accepted henter
  obtain ⟨j, hhistory⟩ := exists_history hsound.laid hs₀ h
  obtain ⟨hs, hj⟩ := h₀.of_history hsound.laid hsound.accepted hs₀ hhistory
  obtain ⟨f', hf'⟩ := hs.linked _ _ s.calls.activation?_top
  have hwrote := hj.top.covers.written_of_uses (hsound.accepted f' _ hf')
    (Activation.operation?_eq_some.mp hop) hr
  rw [CallStack.own, ← hj.size]
  exact assigned_of_wrote hsound hone hs₀ h₀ hhistory j.done?_top hwrote

end RegIR.Machine
