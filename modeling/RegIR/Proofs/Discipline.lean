import Mathlib.Logic.Relation
import RegIR.Proofs.Steps
/-!
# Stack discipline

In every state that a run reaches, the argument blocks and frames of the live activations lie one
above the other on the stack, and each waiting activation waits behind the call that started the
next one.
-/

namespace RegIR.Machine

open Memory

/-! ## 1. Live activations -/

namespace CallStack

@[simp] theorem activation?_top (c : CallStack) : c.activation? c.below.size = some c.top := by
  rw [activation?, if_pos rfl]

theorem activation?_below {c : CallStack} {i : Nat} {u : Suspended} (hu : c.below[i]? = some u) :
    c.activation? i = some u.caller := by
  have hlt := (Array.getElem?_eq_some_iff.mp hu).1
  rw [activation?, if_neg (by omega), hu, Option.map_some]

theorem le_of_activation? {c : CallStack} {i : Nat} {a : Activation}
    (h : c.activation? i = some a) : i ≤ c.below.size := by
  unfold activation? at h
  split at h
  · omega
  · rw [Option.map_eq_some_iff] at h
    obtain ⟨u, hu, -⟩ := h
    have := (Array.getElem?_eq_some_iff.mp hu).1
    omega

theorem exists_activation? {c : CallStack} {i : Nat} (h : i ≤ c.below.size) :
    ∃ a, c.activation? i = some a := by
  unfold activation?
  split
  · exact ⟨_, rfl⟩
  · rw [Array.getElem?_eq_getElem (by omega)]
    exact ⟨_, rfl⟩

theorem activation?_setTop (c : CallStack) (a : Activation) (i : Nat) :
    ({ c with top := a } : CallStack).activation? i =
      if i = c.below.size then some a else c.activation? i := by
  unfold activation?
  split <;> rfl

theorem activation?_push (c : CallStack) (a b : Activation) (offset i : Nat) :
    (⟨b, c.below.push ⟨a, offset⟩⟩ : CallStack).activation? i =
      if i = c.below.size + 1 then some b else if i = c.below.size then some a
      else c.activation? i := by
  unfold activation?
  rw [Array.size_push]
  split
  · rfl
  · rw [Array.getElem?_push]
    split <;> rfl

theorem getElem?_of_back? {c : CallStack} {u : Suspended} (h : c.below.back? = some u) :
    0 < c.below.size ∧ c.below[c.below.size - 1]? = some u := by
  rw [Array.back?_eq_getElem?] at h
  have hlt := (Array.getElem?_eq_some_iff.mp h).1
  exact ⟨by omega, h⟩

theorem activation?_pop {c : CallStack} {u : Suspended} (h : c.below.back? = some u) {i : Nat}
    (hi : i < c.below.size) :
    (⟨u.caller, c.below.pop⟩ : CallStack).activation? i = c.activation? i := by
  obtain ⟨hpos, hlast⟩ := getElem?_of_back? h
  unfold activation?
  rw [Array.size_pop, if_neg (show ¬ i = c.below.size by omega)]
  split
  · rename_i heq
    rw [heq, hlast, Option.map_some]
  · rw [Array.getElem?_pop, if_pos (by omega)]

theorem size_pop_of_back? {c : CallStack} {u : Suspended} (h : c.below.back? = some u) :
    (⟨u.caller, c.below.pop⟩ : CallStack).below.size + 1 = c.below.size := by
  have hpos := (getElem?_of_back? h).1
  rw [Array.size_pop]
  omega

end CallStack

/-- The operation at the cursor. -/
theorem Activation.operation?_eq_some {a : Activation} {op : Operation} :
    a.operation? = some op ↔ a.code.definition.OpAt a.block a.pos op := by
  unfold operation? Definition.OpAt
  cases hb : a.code.definition.blocks[a.block]? with
  | none => simp
  | some b => simp

/-! ## 2. The invariant -/

/-- The waiting activation stands behind a call of the function of `b`, and the result goes to the
target of the call. -/
inductive Suspended.Waits (p : Program) (u : Suspended) (b : Activation) : Prop
  | intro {pos : Nat} {target : Reg} {callee : FuncId} {args : List Reg} {e : Extent}
      (hpos : u.caller.pos = pos + 1)
      (hop : u.caller.code.definition.OpAt u.caller.block pos (.call target callee args))
      (hc : p.linked? callee = some (.code b.code))
      (he : u.caller.code.frame.regExtent? target = some e)
      (hto : u.returnTo = u.caller.frameBase + e.start) : Waits p u b

/-- The live activations run code of the program and lie one above the other on the stack. -/
structure Stacked (p : Program) (s : State) : Prop where
  linked : ∀ i a, s.calls.activation? i = some a → ∃ f, p.linked? f = some (.code a.code)
  args : ∀ i a, s.calls.activation? i = some a → a.argsBase + a.code.args.size.toNat ≤ a.frameBase
  within : ∀ i a, s.calls.activation? i = some a → a.frameEnd ≤ s.stack.size
  ordered : ∀ i j a b, i < j → s.calls.activation? i = some a → s.calls.activation? j = some b →
    a.frameEnd ≤ b.argsBase
  waits : ∀ i u b, s.calls.below[i]? = some u → s.calls.activation? (i + 1) = some b → u.Waits p b

/-- The activations have the same code and the same place on the stack. -/
structure Activation.SameFrame (a b : Activation) : Prop where
  code : a.code = b.code
  argsBase : a.argsBase = b.argsBase
  frameBase : a.frameBase = b.frameBase

theorem Activation.SameFrame.frameEnd {a b : Activation} (h : a.SameFrame b) :
    a.frameEnd = b.frameEnd := by
  rw [Activation.frameEnd, Activation.frameEnd, h.code, h.frameBase]

/-- An activation that a step keeps alive keeps its code and its place. -/
theorem Next.sameFrame {p : Program} {s t : State} (h : Next p s t) {i : Nat} {a b : Activation}
    (ha : s.calls.activation? i = some a) (hb : t.calls.activation? i = some b) :
    b.SameFrame a := by
  -- Moving the cursor keeps the frame; calls and returns move nothing else.
  have hset : ∀ (calls : CallStack) (b' : Activation), b'.SameFrame calls.top →
      calls.activation? i = some a →
      ({ calls with top := b' } : CallStack).activation? i = some b → b.SameFrame a := by
    intro calls b' hsame ha hb
    rw [CallStack.activation?_setTop] at hb
    split at hb
    · rename_i hi
      rw [hi, CallStack.activation?_top] at ha
      cases ha
      cases hb
      exact hsame
    · rw [ha] at hb
      cases hb
      exact ⟨rfl, rfl, rfl⟩
  cases h with
  | data _ _ => exact hset _ (Activation.advance _) ⟨rfl, rfl, rfl⟩ ha hb
  | jump _ _ => exact hset _ (Activation.jump _ _) ⟨rfl, rfl, rfl⟩ ha hb
  | call _ _ _ _ _ _ =>
    have hi := CallStack.le_of_activation? ha
    dsimp only at hi
    rw [CallStack.activation?_push, if_neg (by omega), ← CallStack.activation?_setTop] at hb
    exact hset _ (Activation.advance _) ⟨rfl, rfl, rfl⟩ ha hb
  | ret _ _ _ hback _ =>
    have hi := CallStack.le_of_activation? hb
    have hpop := CallStack.size_pop_of_back? hback
    dsimp only at hi hpop ha
    rw [CallStack.activation?_pop hback (by omega), ha] at hb
    cases hb
    exact ⟨rfl, rfl, rfl⟩

section Depth

variable {p : Program} {s t : State} (hn : Next p s t)
include hn

/-- Only a return takes an activation away, the one that returns. -/
theorem Next.depth_le {op : Operation} (hop : s.calls.top.operation? = some op) {i : Nat}
    (hi : i ≤ s.calls.below.size) (hret : ∀ value, op = .ret value → i < s.calls.below.size) :
    i ≤ t.calls.below.size := by
  cases hn with
  | data _ _ => exact hi
  | jump _ _ => exact hi
  | call _ _ _ _ _ _ =>
    rw [Array.size_push]
    exact Nat.le_succ_of_le hi
  | ret hop' _ _ hback _ =>
    rw [hop] at hop'
    cases hop'
    have hpop := CallStack.size_pop_of_back? hback
    have hlt := hret _ rfl
    dsimp only at hlt hpop ⊢
    omega

theorem Next.depth_of_ret {value : Reg} (hop : s.calls.top.operation? = some (.ret value)) :
    t.calls.below.size + 1 = s.calls.below.size := by
  cases hn with
  | data hop' hm =>
    rw [hop] at hop'
    cases hop'
    cases hm.isTerminator_eq_false
  | jump hop' hb =>
    rw [hop] at hop'
    cases hop'
    cases hb
  | call hop' _ _ _ _ _ =>
    rw [hop] at hop'
    cases hop'
  | ret _ _ _ hback _ => exact CallStack.size_pop_of_back? hback

/-- A step with fewer activations behind it was a return to the last that waited. -/
theorem Next.returned_of_lt (hlt : t.calls.below.size < s.calls.below.size) :
    ∃ value u, s.calls.top.operation? = some (.ret value) ∧ s.calls.below.back? = some u ∧
      t.calls = ⟨u.caller, s.calls.below.pop⟩ ∧
      t.stack.size = min s.calls.top.argsBase s.stack.size := by
  cases hn with
  | data _ _ => exact absurd hlt (Nat.lt_irrefl _)
  | jump _ _ => exact absurd hlt (Nat.lt_irrefl _)
  | call _ _ _ _ _ _ =>
    rw [Array.size_push] at hlt
    dsimp only at hlt
    omega
  | ret hop _ _ hback hcopy => exact ⟨_, _, hop, hback, rfl, by rw [size_cut, hcopy.outside.size]⟩

/-- An activation that waits before and after a step waits just as before. -/
theorem Next.waiting {i : Nat} (hi : i < s.calls.below.size) (hi' : i < t.calls.below.size) :
    t.calls.below[i]? = s.calls.below[i]? := by
  cases hn with
  | data _ _ => rfl
  | jump _ _ => rfl
  | call _ _ _ _ _ _ => rw [Array.getElem?_push, if_neg (Nat.ne_of_lt hi)]
  | ret _ _ _ _ _ =>
    rw [Array.size_pop] at hi'
    rw [Array.getElem?_pop, if_pos hi']

/-- A call of a defined function starts its activation. -/
theorem Next.entered {target : Reg} {callee : FuncId} {args : List Reg} {c : Code}
    (hop : s.calls.top.operation? = some (.call target callee args))
    (hc : p.linked? callee = some (.code c)) :
    ∃ e, s.calls.top.code.frame.regExtent? target = some e ∧
      t.calls.below =
        s.calls.below.push ⟨s.calls.top.advance, s.calls.top.frameBase + e.start⟩ ∧
      Entered c t.calls.top s.stack t.stack := by
  cases hn with
  | data hop' hm =>
    rw [hop] at hop'
    cases hop'
    cases hm with
    | int hint =>
      cases hint with
      | host _ _ he _ =>
        rw [hc] at he
        cases he
  | jump hop' hb =>
    rw [hop] at hop'
    cases hop'
    cases hb
  | call hop' hc' _ he hentered _ =>
    rw [hop] at hop'
    cases hop'
    rw [hc] at hc'
    cases hc'
    exact ⟨_, he, rfl, hentered⟩
  | ret hop' _ _ _ _ =>
    rw [hop] at hop'
    cases hop'

end Depth

namespace Stacked

variable {p : Program} {s : State}

theorem framed (hp : p.Laid) (h : Stacked p s) {i : Nat} {a : Activation}
    (ha : s.calls.activation? i = some a) : a.Framed s.stack := by
  obtain ⟨f, hf⟩ := h.linked i a ha
  exact ⟨hp f a.code hf, h.within i a ha⟩

theorem top_framed (hp : p.Laid) (h : Stacked p s) : s.calls.top.Framed s.stack :=
  h.framed hp s.calls.activation?_top

/-- The running activation may change its cursor. -/
theorem setTop {n : Memory} {stats : Stats} {a : Activation} (h : Stacked p s)
    (ha : a.SameFrame s.calls.top) (hsize : n.size = s.stack.size) :
    Stacked p ⟨n, { s.calls with top := a }, stats⟩ := by
  -- Each live activation of the new state was there before, but for its cursor.
  have hsame : ∀ i b, ({ s.calls with top := a } : CallStack).activation? i = some b →
      ∃ b', s.calls.activation? i = some b' ∧ b.SameFrame b' := by
    intro i b hb
    rw [CallStack.activation?_setTop] at hb
    split at hb
    · rename_i hi
      cases hb
      exact ⟨s.calls.top, hi ▸ s.calls.activation?_top, ha⟩
    · exact ⟨b, hb, rfl, rfl, rfl⟩
  refine ⟨?_, ?_, ?_, ?_, ?_⟩
  · intro i b hb
    obtain ⟨b', hb', hbb⟩ := hsame i b hb
    rw [hbb.code]
    exact h.linked i b' hb'
  · intro i b hb
    obtain ⟨b', hb', hbb⟩ := hsame i b hb
    rw [hbb.code, hbb.argsBase, hbb.frameBase]
    exact h.args i b' hb'
  · intro i b hb
    obtain ⟨b', hb', hbb⟩ := hsame i b hb
    rw [hbb.frameEnd]
    exact Nat.le_trans (h.within i b' hb') (Nat.le_of_eq hsize.symm)
  · intro i j b d hij hb hd
    obtain ⟨b', hb', hbb⟩ := hsame i b hb
    obtain ⟨d', hd', hdd⟩ := hsame j d hd
    rw [hbb.frameEnd, hdd.argsBase]
    exact h.ordered i j b' d' hij hb' hd'
  · intro i u b hu hb
    obtain ⟨b', hb', hbb⟩ := hsame (i + 1) b hb
    obtain ⟨hpos, hop, hc, he, hto⟩ := h.waits i u b' hu hb'
    exact ⟨hpos, hop, hbb.code ▸ hc, he, hto⟩

theorem call {n : Memory} {stats : Stats} {target : Reg} {callee : FuncId} {args : List Reg}
    {c : Code} {a : Activation} {e : Extent} (h : Stacked p s)
    (hop : s.calls.top.operation? = some (.call target callee args))
    (hc : p.linked? callee = some (.code c))
    (he : s.calls.top.code.frame.regExtent? target = some e) (ha : Entered c a s.stack n) :
    Stacked p ⟨n, ⟨a, s.calls.below.push ⟨s.calls.top.advance, s.calls.top.frameBase + e.start⟩⟩,
      stats⟩ := by
  have habove := ha.above
  have hargs := ha.args
  have hsize := ha.size
  have hcode := ha.code
  -- The callee is new, and everything else was there before.
  have hlive : ∀ i b, (⟨a, s.calls.below.push
      ⟨s.calls.top.advance, s.calls.top.frameBase + e.start⟩⟩ : CallStack).activation? i = some b →
        i = s.calls.below.size + 1 ∧ b = a ∨
          i ≤ s.calls.below.size ∧ ∃ b', s.calls.activation? i = some b' ∧ b.SameFrame b' := by
    intro i b hb
    rw [CallStack.activation?_push] at hb
    split at hb
    · rename_i hi
      cases hb
      exact Or.inl ⟨hi, rfl⟩
    · split at hb
      · rename_i hi
        cases hb
        exact Or.inr
          ⟨Nat.le_of_eq hi, s.calls.top, hi ▸ s.calls.activation?_top, rfl, rfl, rfl⟩
      · exact Or.inr ⟨CallStack.le_of_activation? hb, b, hb, rfl, rfl, rfl⟩
  refine ⟨?_, ?_, ?_, ?_, ?_⟩
  · intro i b hb
    rcases hlive i b hb with ⟨-, rfl⟩ | ⟨-, b', hb', hbb⟩
    · exact ⟨callee, hcode ▸ hc⟩
    · rw [hbb.code]
      exact h.linked i b' hb'
  · intro i b hb
    rcases hlive i b hb with ⟨-, rfl⟩ | ⟨-, b', hb', hbb⟩
    · rw [hcode]
      exact hargs
    · rw [hbb.code, hbb.argsBase, hbb.frameBase]
      exact h.args i b' hb'
  · intro i b hb
    rcases hlive i b hb with ⟨-, rfl⟩ | ⟨-, b', hb', hbb⟩
    · rw [Activation.frameEnd, hcode]
      exact Nat.le_of_eq hsize.symm
    · have hwithin := h.within i b' hb'
      rw [hbb.frameEnd]
      dsimp only at hwithin ⊢
      omega
  · intro i j b d hij hb hd
    rcases hlive i b hb with ⟨hi, -⟩ | ⟨hi, b', hb', hbb⟩
    · have hj := CallStack.le_of_activation? hd
      rw [Array.size_push] at hj
      omega
    · rw [hbb.frameEnd]
      rcases hlive j d hd with ⟨-, rfl⟩ | ⟨-, d', hd', hdd⟩
      · exact Nat.le_trans (h.within i b' hb') habove
      · rw [hdd.argsBase]
        exact h.ordered i j b' d' hij hb' hd'
  · intro i u b hu hb
    rw [Array.getElem?_push] at hu
    split at hu
    · rename_i hi
      cases hu
      rcases hlive (i + 1) b hb with ⟨-, rfl⟩ | ⟨hle, -⟩
      · exact ⟨rfl, Activation.operation?_eq_some.mp hop, hcode ▸ hc, he, rfl⟩
      · omega
    · have hlt := (Array.getElem?_eq_some_iff.mp hu).1
      rcases hlive (i + 1) b hb with ⟨hi, -⟩ | ⟨-, b', hb', hbb⟩
      · omega
      · obtain ⟨hpos, hop, hc, he, hto⟩ := h.waits i u b' hu hb'
        exact ⟨hpos, hop, hbb.code ▸ hc, he, hto⟩

theorem ret {n : Memory} {stats : Stats} {u : Suspended} (h : Stacked p s)
    (hback : s.calls.below.back? = some u) (hsize : n.size = s.stack.size) :
    Stacked p ⟨n.cut s.calls.top.argsBase, ⟨u.caller, s.calls.below.pop⟩, stats⟩ := by
  have hpop := CallStack.size_pop_of_back? hback
  -- What is left are the older activations, just as they were.
  have hlive : ∀ i b, (⟨u.caller, s.calls.below.pop⟩ : CallStack).activation? i = some b →
      i < s.calls.below.size ∧ s.calls.activation? i = some b := by
    intro i b hb
    have hi := CallStack.le_of_activation? hb
    have hlt : i < s.calls.below.size := by omega
    rw [CallStack.activation?_pop hback hlt] at hb
    exact ⟨hlt, hb⟩
  refine ⟨?_, ?_, ?_, ?_, ?_⟩
  · intro i b hb
    exact h.linked i b (hlive i b hb).2
  · intro i b hb
    exact h.args i b (hlive i b hb).2
  · intro i b hb
    obtain ⟨hi, hb⟩ := hlive i b hb
    have hwithin := h.within i b hb
    have hbelow := h.ordered i _ b s.calls.top hi hb s.calls.activation?_top
    rw [size_cut, hsize]
    exact Nat.le_min.mpr ⟨hbelow, hwithin⟩
  · intro i j b d hij hb hd
    exact h.ordered i j b d hij (hlive i b hb).2 (hlive j d hd).2
  · intro i v b hv hb
    rw [Array.getElem?_pop] at hv
    split at hv
    · exact h.waits i v b hv (hlive (i + 1) b hb).2
    · cases hv

theorem next {t : State} (h : Stacked p s) (hn : Next p s t) : Stacked p t := by
  cases hn with
  | data hop hm => exact h.setTop ⟨rfl, rfl, rfl⟩ hm.size
  | jump hop hb => exact h.setTop ⟨rfl, rfl, rfl⟩ rfl
  | call hop hc hlen he hentered hpassed => exact h.call hop hc he hentered
  | ret hop hsrc hcheck hback hcopy => exact h.ret hback hcopy.outside.size

theorem of_enter {f : FuncId} {args : List Bytes} {returnSize : Nat} {stats : Stats}
    (hp : p.Laid) (h : enter p f args returnSize stats = .ok s) : Stacked p s := by
  obtain ⟨c, a, hc, -, -, hcalls, ha, -⟩ := entered_of_enter hp h
  have hlive : ∀ i b, s.calls.activation? i = some b → i = 0 ∧ b = a := by
    intro i b hb
    rw [hcalls] at hb
    have hi : i = 0 := Nat.le_zero.mp (CallStack.le_of_activation? hb)
    subst hi
    exact ⟨rfl, (Option.some.inj hb).symm⟩
  refine ⟨?_, ?_, ?_, ?_, ?_⟩
  · intro i b hb
    obtain ⟨-, rfl⟩ := hlive i b hb
    exact ⟨f, ha.code ▸ hc⟩
  · intro i b hb
    obtain ⟨-, rfl⟩ := hlive i b hb
    rw [ha.code]
    exact ha.args
  · intro i b hb
    obtain ⟨-, rfl⟩ := hlive i b hb
    rw [Activation.frameEnd, ha.code]
    exact Nat.le_of_eq ha.size.symm
  · intro i j b d hij hb hd
    have hi := (hlive i b hb).1
    have hj := (hlive j d hd).1
    omega
  · intro i u b hu
    rw [hcalls] at hu
    cases hu

end Stacked

/-! ## 3. Reachable states -/

/-- Some steps lead from a state to another. -/
abbrev Reaches {H : Type} (env : Env H) : State → State → Prop :=
  Relation.ReflTransGen (Advances env)

/-- Every step of a run is one of the steps above, and keeps the discipline. -/
theorem Stacked.advances {H : Type} {env : Env H} {s t : State} (hp : env.program.Laid)
    (hs : Stacked env.program s) (h : Advances env s t) :
    Next env.program s t ∧ Stacked env.program t := by
  have hn := next_of_advances hp (hs.top_framed hp) h
  exact ⟨hn, hs.next hn⟩

theorem Stacked.reaches {H : Type} {env : Env H} {s t : State} (hp : env.program.Laid)
    (hs : Stacked env.program s) (h : Reaches env s t) : Stacked env.program t := by
  induction h with
  | refl => exact hs
  | tail _ h ih => exact (ih.advances hp h).2

/-- The outermost activation stays the same as long as the run lasts. -/
theorem Stacked.code_of_reaches {H : Type} {env : Env H} {s t : State} (hp : env.program.Laid)
    (hs : Stacked env.program s) (h : Reaches env s t) {a b : Activation}
    (ha : s.calls.activation? 0 = some a) (hb : t.calls.activation? 0 = some b) :
    b.code = a.code := by
  -- Along the run: the last step keeps the frame of whatever was outermost before it.
  induction h generalizing b with
  | refl =>
    rw [ha] at hb
    cases hb
    rfl
  | tail hr h ih =>
    rename_i u t
    obtain ⟨d, hd⟩ := CallStack.exists_activation? (Nat.zero_le u.calls.below.size)
    have hn := ((hs.reaches hp hr).advances hp h).1
    rw [(hn.sameFrame hd hb).code]
    exact ih hd

/-- It is that of the invoked function, whose result has the size that was asked for. -/
theorem size_ret_of_reaches {H : Type} {env : Env H} (hp : env.program.Laid) {f : FuncId}
    {args : List Bytes} {returnSize : Nat} {stats : Stats} {s t : State}
    (henter : enter env.program f args returnSize stats = .ok s) (h : Reaches env s t)
    {a : Activation} (ha : t.calls.activation? 0 = some a) :
    a.code.definition.signature.ret.size.toNat = returnSize := by
  obtain ⟨c, b, -, hret, -, hcalls, hentered, -⟩ := entered_of_enter hp henter
  have hroot : s.calls.activation? 0 = some b := by
    rw [hcalls]
    rfl
  rw [(Stacked.of_enter hp henter).code_of_reaches hp h hroot ha, hentered.code, hret]

end RegIR.Machine
