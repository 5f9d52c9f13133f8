import RegIR.Proofs.Separation
/-!
# Confined calls

A callee that is given no pointer cannot reach the activations below it.  Every pointer that it
gets hold of, or that a function it calls does, is zero or an address above the argument block of
the callee.  So all accesses land in frames of the call, and the stack below stays as it was until
the result is delivered.
-/

namespace RegIR.Machine

open Memory

/-! ## 1. The invariant of a call -/

/-- The word is zero or an address at or above the stack offset. -/
def Beyond (base : Nat) (w : UInt64) : Prop := w = 0 ∨ stackBase + base ≤ w.toNat

/-- What holds in state `u` during the call whose first state is `t`. -/
structure Confined (t u : State) : Prop where
  depth : t.calls.below.size ≤ u.calls.below.size
  waiting : ∀ i < t.calls.below.size, u.calls.below[i]? = t.calls.below[i]?
  callee : ∀ a, u.calls.activation? t.calls.below.size = some a → a.SameFrame t.calls.top
  bytes : ∀ k < t.calls.top.argsBase, u.stack.byte? k = t.stack.byte? k
  pointers : ∀ v ty x, t.calls.below.size ≤ v.depth → u.calls.Binds v ty x →
    ty.kind = .pointer → ∃ w, u.stack.word64? x = some w ∧ Beyond t.calls.top.argsBase w

section Bounds

variable {p : Program} {s : State} {d : Nat} {a : Activation} {v : Variable} {ty : Ty}

/-- The variables of an activation and of newer ones start above its argument block. -/
theorem Stacked.argsBase_le (hp : p.Laid) (hs : Stacked p s) (ha : s.calls.activation? d = some a)
    {x : Nat} (hv : s.calls.Binds v ty x) (hd : d ≤ v.depth) : a.argsBase ≤ x := by
  obtain ⟨b, hb, hcell⟩ := hv
  have hstart := (hs.holds_within hp hb hcell).1
  rcases Nat.eq_or_lt_of_le hd with rfl | hlt
  · rw [ha] at hb
    cases hb
    exact hstart
  · have hord := hs.ordered _ _ a b hlt ha hb
    have hargs := hs.args d a ha
    have hend : a.frameEnd = a.frameBase + a.code.frame.size := rfl
    omega

/-- An access through an address above the argument block of an activation lands in its frame or
in a newer one. -/
theorem Stacked.depth_le_of_accesses (hs : Stacked p s) (ha : s.calls.activation? d = some a)
    {pointer : Reg} (h : s.Accesses pointer ty v)
    (hbeyond : ∀ w, s.calls.top.readPointer s.stack pointer = .ok w → Beyond a.argsBase w) :
    d ≤ v.depth := by
  obtain ⟨haddress, hplace, -, -⟩ := h
  rename_i address place slot u
  obtain ⟨-, hw, -, -, -⟩ := CallStack.resolves_of_resolve hplace
  obtain ⟨owner, howner⟩ := CallStack.ownerOf?_of_resolve hplace
  obtain ⟨hlive, -, hend⟩ := CallStack.ownerOf?_eq_some howner
  rcases hbeyond address haddress with rfl | hbase
  · -- The zero word is no address.
    have hzero : (0 : UInt64).toNat = 0 := rfl
    have hpos : 0 < stackBase := by decide
    omega
  · by_cases hd : d ≤ place.depth
    · exact hd
    · have hord := hs.ordered _ _ owner a (Nat.lt_of_not_le hd) hlive ha
      omega

end Bounds

namespace Confined

variable {p : Program} (hsound : p.Sound) (hone : p.OneRegistry) {t u : State}
  (hs : Stacked p u) (h : Confined t u)
include hs h

/-- The callee is live, and its argument block is where it was. -/
theorem exists_callee :
    ∃ a, u.calls.activation? t.calls.below.size = some a ∧ a.argsBase = t.calls.top.argsBase ∧
      t.calls.top.argsBase ≤ u.stack.size := by
  obtain ⟨a, ha⟩ := CallStack.exists_activation? h.depth
  have hbase := (h.callee a ha).argsBase
  have hargs := hs.args _ a ha
  have hwithin := hs.within _ a ha
  have hend : a.frameEnd = a.frameBase + a.code.frame.size := rfl
  exact ⟨a, ha, hbase, by omega⟩

theorem argsBase_le (hp : p.Laid) {v : Variable} {ty : Ty} {x : Nat} (hv : u.calls.Binds v ty x)
    (hd : t.calls.below.size ≤ v.depth) : t.calls.top.argsBase ≤ x := by
  obtain ⟨a, ha, hbase, -⟩ := h.exists_callee hs
  rw [← hbase]
  exact hs.argsBase_le hp ha hv hd

/-- Accesses land in frames of the call. -/
theorem depth_le_of_accesses {pointer : Reg} {ty : Ty} {v : Variable}
    (hkind : u.calls.top.code.definition.HasKind pointer .pointer)
    (haccess : u.Accesses pointer ty v) : t.calls.below.size ≤ v.depth := by
  obtain ⟨a, ha, hbase, -⟩ := h.exists_callee hs
  refine hs.depth_le_of_accesses ha haccess ?_
  intro w hw
  obtain ⟨e, he, hword⟩ := Activation.readPointer_eq_ok hw
  obtain ⟨ty', hty', hpointer⟩ := hkind
  obtain ⟨w', hword', hbeyond⟩ :=
    h.pointers _ _ _ h.depth (CallStack.binds_own (.reg hty' he)) hpointer
  rw [hword] at hword'
  cases hword'
  rw [hbase]
  exact hbeyond

variable {op : Operation} (hop : u.calls.top.operation? = some op) {v w : Variable}
  (hcopy : u.Copies p op v w)
include hsound hop hcopy

/-- What is copied during the call comes from the call. -/
theorem depth_le_source : t.calls.below.size ≤ v.depth := by
  obtain ⟨f, hf⟩ := hs.linked _ _ u.calls.activation?_top
  have hty := hsound.wellTyped f _ hf _ _ _ (Activation.operation?_eq_some.mp hop)
  cases hcopy with
  | load _ haccess => exact h.depth_le_of_accesses hs hty.2 haccess
  | _ => exact h.depth

/-- What is copied stays in the call, as long as it lasts. -/
theorem depth_le_target {t' : State} (hn : Next p u t')
    (hd : t.calls.below.size ≤ t'.calls.below.size) : t.calls.below.size ≤ w.depth := by
  obtain ⟨f, hf⟩ := hs.linked _ _ u.calls.activation?_top
  have hty := hsound.wellTyped f _ hf _ _ _ (Activation.operation?_eq_some.mp hop)
  cases hcopy with
  | readArg => exact h.depth
  | load _ _ => exact h.depth
  | store _ haccess => exact h.depth_le_of_accesses hs hty.1 haccess
  | pass _ _ => exact Nat.le_succ_of_le h.depth
  | ret _ _ _ =>
    have hpop := hn.depth_of_ret hop
    dsimp only
    omega

end Confined

/-! ## 2. Steps of a call -/

theorem Activation.SameFrame.trans {a b c : Activation} (h : a.SameFrame b) (h' : b.SameFrame c) :
    a.SameFrame c :=
  ⟨h.code.trans h'.code, h.argsBase.trans h'.argsBase, h.frameBase.trans h'.frameBase⟩

namespace Confined

theorem callee_next {p : Program} {t u u' : State} (h : Confined t u) (hn : Next p u u')
    {a : Activation} (ha : u'.calls.activation? t.calls.below.size = some a) :
    a.SameFrame t.calls.top := by
  obtain ⟨b, hb⟩ := CallStack.exists_activation? h.depth
  exact (hn.sameFrame hb ha).trans (h.callee b hb)

variable {p : Program} (hsound : p.Sound) (hone : p.OneRegistry)
include hsound hone

/-- When a call passes no pointer, the new activation has none. -/
theorem of_call {s t : State} (hs : Stacked p s) (hn : Next p s t) {target : Reg}
    {callee : FuncId} {args : List Reg} {c : Code}
    (hop : s.calls.top.operation? = some (.call target callee args))
    (hc : p.linked? callee = some (.code c))
    (hargs : ∀ ty ∈ c.definition.signature.args, ty.kind ≠ .pointer) : Confined t t := by
  obtain ⟨e, -, -, hentered⟩ := hn.entered hop hc
  refine ⟨Nat.le_refl _, fun _ _ => rfl, ?_, fun _ _ => rfl, ?_⟩
  · intro a ha
    rw [CallStack.activation?_top] at ha
    cases ha
    exact ⟨rfl, rfl, rfl⟩
  · intro v ty x hd hv hkind
    obtain ⟨depth, cell⟩ := v
    have hdepth : depth = t.calls.below.size := Nat.le_antisymm hv.depth_le hd
    subst hdepth
    have hcell := CallStack.Binds.holds hv
    have hsize := hone.size_of_pointer ((hs.next hn).binds_mentions hv) hkind
    -- An argument of the callee is no pointer, and everything else is zero.
    have harg : ∀ i, cell ≠ .arg i := by
      rintro i rfl
      cases hcell with
      | arg hty _ =>
        rw [hentered.code] at hty
        exact hargs ty (List.mem_of_getElem? hty) hkind
    have hzero := hentered.zero_of_holds (hsound.laid callee c hc) hcell harg
    exact ⟨0, word64?_eq_zero fun k hk => hzero k (by omega), Or.inl rfl⟩

variable {t u u' : State} (hs : Stacked p u) (h : Confined t u) (hn : Next p u u')
  (hd : t.calls.below.size ≤ u'.calls.below.size)
include hs h hn hd

/-- A step assigns a variable of the call, so it keeps the bytes below. -/
theorem bytes_next {k : Nat} (hk : k < t.calls.top.argsBase) :
    u'.stack.byte? k = t.stack.byte? k := by
  obtain ⟨op, hop, heffect⟩ := hn.effect hsound hone hs
  have hbytes := h.bytes k hk
  obtain ⟨a, ha⟩ := CallStack.exists_activation? hd
  have hbase := (h.callee_next hn ha).argsBase
  have hsize : t.calls.top.argsBase ≤ u'.stack.size := by
    have hargs := (hs.next hn).args _ a ha
    have hwithin := (hs.next hn).within _ a ha
    rw [Activation.frameEnd] at hwithin
    omega
  cases heffect with
  | copy hcopy _ hw _ hrest =>
    have hlow := h.argsBase_le hs hsound.laid hw (h.depth_le_target hsound hs hop hcopy hn hd)
    rw [hrest.byte k (by omega) (Or.inl (by omega)), hbytes]
  | int _ htarget _ hrest =>
    have hlow := h.argsBase_le hs hsound.laid htarget h.depth
    rw [hrest.byte k (by omega) (Or.inl (by omega)), hbytes]
  | address _ htarget _ _ hrest =>
    have hlow := h.argsBase_le hs hsound.laid htarget h.depth
    rw [hrest.byte k (by omega) (Or.inl (by omega)), hbytes]
  | jump _ _ hstack => rw [hstack, hbytes]
  | call _ _ _ _ _ _ hkeeps =>
    obtain ⟨-, -, -, hsize'⟩ := h.exists_callee hs
    rw [hkeeps k (by omega), hbytes]

omit hd in
/-- A step moves pointers of the call around, or takes the address of one of its slots. -/
theorem pointers_next (haddr : u'.Addressable) {w : Variable} {ty : Ty} {y : Nat}
    (hdw : t.calls.below.size ≤ w.depth) (hw : u'.calls.Binds w ty y) (hkind : ty.kind = .pointer) :
    ∃ word, u'.stack.word64? y = some word ∧ Beyond t.calls.top.argsBase word := by
  have hs' := hs.next hn
  obtain ⟨op, hop, heffect⟩ := hn.effect hsound hone hs
  have hsize := hone.size_of_pointer (hs'.binds_mentions hw) hkind
  cases heffect.origin hsound.laid hs hs' hn hw with
  | kept hold hsame =>
    rw [hsize] at hsame
    obtain ⟨word, hword, hbeyond⟩ := h.pointers w ty y hdw hold hkind
    exact ⟨word, by rw [word64?_congr hsame, hword], hbeyond⟩
  | copied hcopy hv hsame =>
    rw [hsize] at hsame
    obtain ⟨word, hword, hbeyond⟩ :=
      h.pointers _ ty _ (h.depth_le_source hsound hs hop hcopy) hv hkind
    exact ⟨word, by rw [word64?_congr hsame, hword], hbeyond⟩
  | int _ hint =>
    rw [hint] at hkind
    cases hkind
  | @address target slot u'' x hop' _ _ hslot hword =>
    -- The slot belongs to the running activation, and its address does not wrap around.
    have hlow := h.argsBase_le hs hsound.laid hslot h.depth
    have hlive := hn.depth_le hop (Nat.le_refl _) fun value heq => by
      rw [hop'] at heq
      cases heq
    have hwithin := hs'.binds_within hsound.laid (hn.binds hslot hlive)
    rw [State.Addressable] at haddr
    refine ⟨_, hword, Or.inr ?_⟩
    rw [addressOf, UInt64.toNat_ofNat_of_lt' (by omega)]
    omega
  | zero _ hzero => exact ⟨0, word64?_eq_zero fun k hk => hzero k (by omega), Or.inl rfl⟩

theorem next (haddr : u'.Addressable) : Confined t u' where
  depth := hd
  waiting i hi := by
    have hdepth := h.depth
    rw [hn.waiting (by omega) (by omega)]
    exact h.waiting i hi
  callee _ ha := h.callee_next hn ha
  bytes _ hk := bytes_next hsound hone hs h hn hd hk
  pointers _ _ _ hdw hw hkind := pointers_next hsound hone hs h hn haddr hdw hw hkind

end Confined

/-- Steps through states in which every stack offset has an address and all activations are still
there that are live in the first of them. -/
abbrev Within {H : Type} (env : Env H) (t : State) : State → Prop :=
  Relation.ReflTransGen (fun u v => Advances env u v ∧ v.Addressable ∧
    t.calls.below.size ≤ v.calls.below.size) t

theorem Confined.of_within {H : Type} {env : Env H} (hsound : env.program.Sound)
    (hone : env.program.OneRegistry) {t u : State} (ht : Stacked env.program t)
    (h : Confined t t) (hu : Within env t u) : Stacked env.program u ∧ Confined t u := by
  induction hu with
  | refl => exact ⟨ht, h⟩
  | tail _ hstep ih =>
    obtain ⟨hs, hconfined⟩ := ih
    obtain ⟨hst, haddr, hd⟩ := hstep
    obtain ⟨hn, hs'⟩ := hs.advances hsound.laid hst
    exact ⟨hs', hconfined.next hsound hone hs hn hd haddr⟩

/-! ## 3. The end of a call -/

/-- The caller has its result in state `v`, and nothing else has changed below the argument block
of the callee since state `t`. -/
structure Concludes (s t v : State) (target : Reg) (ret : Ty) : Prop where
  calls : v.calls = ⟨s.calls.top.advance, s.calls.below⟩
  size : v.stack.size = t.calls.top.argsBase
  result : ∃ x, s.calls.Binds (s.calls.own (.reg target)) ret x ∧
    (∀ k < t.calls.top.argsBase, k < x ∨ x + ret.size.toNat ≤ k →
      v.stack.byte? k = t.stack.byte? k) ∧
    (ret.kind = .pointer → v.stack.word64? x = some 0)

theorem Effect.of_ret {p : Program} {s t : State} {value : Reg} (h : Effect p s t (.ret value)) :
    ∃ u target ty x y, s.calls.below.back? = some u ∧ u.Awaits target ∧
      checkReturn s.calls.top s.stack value = .ok () ∧
      s.calls.Binds (s.calls.own (.reg value)) ty x ∧
      s.calls.Binds ⟨s.calls.below.size - 1, .reg target⟩ ty y ∧
      SameArea t.stack s.stack y x ty.size.toNat ∧ s.KeepsOutside t y ty.size.toNat := by
  cases h with
  | copy h hv hw hsame hrest =>
    cases h with
    | ret hback hawaits hcheck => exact ⟨_, _, _, _, _, hback, hawaits, hcheck, hv, hw, hsame, hrest⟩
  | int h => cases h
  | address h => cases h
  | jump h => cases h
  | call h => cases h

/-- The step from `u` to `v` returns to the caller that waits since state `s`. -/
structure Resumes (s t u v : State) (value : Reg) : Prop where
  op : u.calls.top.operation? = some (.ret value)
  waiting : ∃ offset, u.calls.below = s.calls.below.push ⟨s.calls.top.advance, offset⟩
  callee : u.calls.top.SameFrame t.calls.top
  calls : v.calls = ⟨s.calls.top.advance, s.calls.below⟩
  size : v.stack.size = t.calls.top.argsBase

namespace Confined

variable {p : Program} {s t u v : State} {target : Reg} {callee : FuncId} {args : List Reg}
  {c : Code} (hn₀ : Next p s t)
  (hop₀ : s.calls.top.operation? = some (.call target callee args))
  (hc : p.linked? callee = some (.code c)) (h : Confined t u) (hs : Stacked p u) (hn : Next p u v)
include hn₀ hop₀ hc h hs hn

/-- The only way out of a call is that the callee returns to its caller. -/
theorem resumes (hd : v.calls.below.size ≤ s.calls.below.size) :
    ∃ value, Resumes s t u v value := by
  obtain ⟨e, -, hbelow, -⟩ := hn₀.entered hop₀ hc
  have hsize : t.calls.below.size = s.calls.below.size + 1 := by rw [hbelow, Array.size_push]
  have hdepth := h.depth
  obtain ⟨value, w, hop, hback, hcalls, hcut⟩ := hn.returned_of_lt (by omega)
  have hpop := hn.depth_of_ret hop
  have hsize' : u.calls.below.size = t.calls.below.size := by omega
  -- Everything that waits has waited since the call.
  have hwaiting : u.calls.below = t.calls.below := by
    apply Array.ext_getElem?
    intro i
    by_cases hi : i < t.calls.below.size
    · exact h.waiting i hi
    · rw [Array.getElem?_eq_none (by omega), Array.getElem?_eq_none (by omega)]
  rw [hbelow] at hwaiting
  have hcallee : u.calls.top.SameFrame t.calls.top :=
    h.callee _ (hsize' ▸ u.calls.activation?_top)
  rw [hwaiting, Array.back?_push] at hback
  cases hback
  rw [hwaiting, Array.pop_push] at hcalls
  obtain ⟨-, -, -, hstack⟩ := h.exists_callee hs
  refine ⟨value, hop, ⟨_, hwaiting⟩, hcallee, hcalls, ?_⟩
  rw [hcut, hcallee.argsBase]
  exact Nat.min_eq_left hstack

variable (hsound : p.Sound) (hone : p.OneRegistry)
include hsound hone

omit h in
/-- The result goes to the target of the call, with the declared type of the callee. -/
theorem binds_target {value : Reg} (hr : Resumes s t u v value) :
    ∃ x y, u.calls.Binds (u.calls.own (.reg value)) c.definition.signature.ret x ∧
      s.calls.Binds (s.calls.own (.reg target)) c.definition.signature.ret y ∧
      checkReturn u.calls.top u.stack value = .ok () ∧
      SameArea v.stack u.stack y x c.definition.signature.ret.size.toNat ∧
      u.KeepsOutside v y c.definition.signature.ret.size.toNat := by
  obtain ⟨offset, hwaiting⟩ := hr.waiting
  obtain ⟨-, -, -, hentered⟩ := hn₀.entered hop₀ hc
  obtain ⟨op, hop, heffect⟩ := hn.effect hsound hone hs
  rw [hr.op] at hop
  cases hop
  obtain ⟨w, target', ty, x, y, hback, hawaits, hcheck, hx, hy, hsame, hrest⟩ := heffect.of_ret
  -- The register that awaits the result has the type that the callee declares.
  obtain ⟨target'', hawaits', hret⟩ := binds_awaited hsound hs hback
  cases hawaits'.unique hawaits
  rw [hr.callee.code, hentered.code] at hret
  obtain ⟨rfl, -⟩ := hret.unique hy
  obtain ⟨-, hlast⟩ := CallStack.getElem?_of_back? hback
  rw [hwaiting, Array.back?_push] at hback
  cases hback
  have htarget : target' = target :=
    hawaits.unique ⟨s.calls.top.pos, callee, args, rfl, Activation.operation?_eq_some.mp hop₀⟩
  subst htarget
  obtain ⟨b, hb, hcell⟩ := hy
  rw [CallStack.activation?_below hlast] at hb
  cases hb
  have hframe : s.calls.top.advance.SameFrame s.calls.top := ⟨rfl, rfl, rfl⟩
  exact ⟨x, y, hx, CallStack.binds_own (.of_sameFrame hframe hcell), hcheck, hsame, hrest⟩

theorem concludes (hd : v.calls.below.size ≤ s.calls.below.size) :
    Concludes s t v target c.definition.signature.ret := by
  obtain ⟨value, hr⟩ := h.resumes hn₀ hop₀ hc hs hn hd
  obtain ⟨x, y, hx, hy, hcheck, hsame, hrest⟩ :=
    binds_target hn₀ hop₀ hc hs hn hsound hone hr
  refine ⟨hr.calls, hr.size, y, hy, ?_, ?_⟩
  · intro k hk hout
    have hsize := hr.size
    rw [hrest.byte k (by omega) hout, h.bytes k hk]
  · intro hkind
    obtain ⟨word, hword, hbeyond⟩ := h.pointers _ _ _ h.depth hx hkind
    rw [hone.size_of_pointer (hs.binds_mentions hx) hkind] at hsame
    have hcell := CallStack.Binds.holds hx
    cases hcell with
    | reg hty he =>
      -- The check lets pass only what lies below the argument block.
      have hlow := lt_of_checkReturn hty hkind he hword hcheck
      rw [hr.callee.argsBase] at hlow
      have hzero : word = 0 := hbeyond.resolve_right (by omega)
      rw [word64?_congr hsame, hword, hzero]

end Confined

/-- A call that passes no pointer is confined: until it returns, no byte below the argument block of
the callee changes, and no value from there is copied.  When it returns, only the target of the call
has changed, and a returned pointer is zero. -/
theorem call_confined {H : Type} {env : Env H} {m : Module} (hbuilt : m.Built)
    (hm : m.finalize = .ok env.program) (hone : env.program.OneRegistry) {f : FuncId}
    {args : List Bytes} {returnSize : Nat} {stats : Stats} {s₀ s t u : State}
    (henter : enter env.program f args returnSize stats = .ok s₀) (h : Reaches env s₀ s)
    {target : Reg} {callee : FuncId} {passed : List Reg} {c : Code}
    (hop : s.calls.top.operation? = some (.call target callee passed))
    (hc : env.program.linked? callee = some (.code c))
    (hargs : ∀ ty ∈ c.definition.signature.args, ty.kind ≠ .pointer) (hst : Advances env s t)
    (hu : Within env t u) :
    (t.calls.below.size = s.calls.below.size + 1 ∧ s.stack.size ≤ t.calls.top.argsBase ∧
      ∀ k < s.stack.size, t.stack.byte? k = s.stack.byte? k) ∧
    (∀ k < t.calls.top.argsBase, u.stack.byte? k = t.stack.byte? k) ∧
    (∀ op v w, u.calls.top.operation? = some op → u.Copies env.program op v w →
      s.calls.below.size < v.depth) ∧
    ∀ v, Advances env u v → v.calls.below.size ≤ s.calls.below.size →
      Concludes s t v target c.definition.signature.ret := by
  have hsound := hbuilt.sound.finalize hm
  have hs := (Stacked.of_enter hsound.laid henter).reaches hsound.laid h
  obtain ⟨hn, ht⟩ := hs.advances hsound.laid hst
  obtain ⟨e, he, hbelow, hentered⟩ := hn.entered hop hc
  have hdepth : t.calls.below.size = s.calls.below.size + 1 := by rw [hbelow, Array.size_push]
  obtain ⟨hsu, hconfined⟩ :=
    Confined.of_within hsound hone ht (.of_call hsound hone hs hn hop hc hargs) hu
  refine ⟨⟨hdepth, hentered.above, hentered.keeps⟩, hconfined.bytes, ?_, ?_⟩
  · intro op v w hop' hcopy
    have hle := hconfined.depth_le_source hsound hsu hop' hcopy
    omega
  · intro v hv hd
    have hnv := (hsu.advances hsound.laid hv).1
    exact hconfined.concludes hn hop hc hsu hnv hsound hone hd

/-- The state after a number of steps within the call that started with a state, when no host takes
part. -/
def within? {H : Type} (env : Env H) (t : State) : Nat → State → Option State
  | 0, u => some u
  | n + 1, u =>
    match step env u with
    | .next v =>
      if stackBase + v.stack.size < UInt64.size ∧ t.calls.below.size ≤ v.calls.below.size then
        within? env t n v
      else none
    | _ => none

theorem within_of_within? {H : Type} {env : Env H} {n : Nat} {t u v : State} (hu : Within env t u)
    (h : within? env t n u = some v) : Within env t v := by
  induction n generalizing u with
  | zero =>
    cases h
    exact hu
  | succ n ih =>
    rw [within?] at h
    split at h
    · rename_i w hstep
      split at h
      · rename_i hinside
        exact ih (hu.tail ⟨Or.inl hstep, hinside⟩) h
      · cases h
    · cases h

theorem run_call_probing : ∃ s₀ s t u v, enter probingEnv.program ⟨1⟩ [] 4 .zero = .ok s₀ ∧
    after? probingEnv 3 s₀ = some s ∧
    s.calls.top.operation? = some (.call ⟨2⟩ ⟨0⟩ [⟨1⟩]) ∧ after? probingEnv 1 s = some t ∧
    within? probingEnv t 5 t = some u ∧ after? probingEnv 1 u = some v ∧
    v.calls.below.size = s.calls.below.size := by
  have hrun : (enter probingEnv.program ⟨1⟩ [] 4 .zero).toOption.any (fun s₀ =>
      (after? probingEnv 3 s₀).any fun s => (after? probingEnv 1 s).any fun t =>
        (within? probingEnv t 5 t).any fun u => (after? probingEnv 1 u).any fun v =>
          decide (s.calls.top.operation? = some (.call ⟨2⟩ ⟨0⟩ [⟨1⟩]) ∧
            v.calls.below.size = s.calls.below.size)) = true := by decide +kernel
  obtain ⟨s₀, h₀, hrun⟩ := (Option.any_eq_true _ _).mp hrun
  obtain ⟨s, hs, hrun⟩ := (Option.any_eq_true _ _).mp hrun
  obtain ⟨t, ht, hrun⟩ := (Option.any_eq_true _ _).mp hrun
  obtain ⟨u, hu, hrun⟩ := (Option.any_eq_true _ _).mp hrun
  obtain ⟨v, hv, hrun⟩ := (Option.any_eq_true _ _).mp hrun
  obtain ⟨hop, hdepth⟩ := of_decide_eq_true hrun
  exact ⟨s₀, s, t, u, v, Except.toOption_eq_some.mp h₀, hs, hop, ht, hu, hv, hdepth⟩

/-- The call of `probe` delivers a pointer, which is zero. -/
theorem call_confined_probing :
    ∃ s₀ s t u v, enter probingEnv.program ⟨1⟩ [] 4 .zero = .ok s₀ ∧ Reaches probingEnv s₀ s ∧
      s.calls.top.operation? = some (.call ⟨2⟩ ⟨0⟩ [⟨1⟩]) ∧ Advances probingEnv s t ∧
      Within probingEnv t u ∧ Advances probingEnv u v ∧ Concludes s t v ⟨2⟩ .pointer := by
  obtain ⟨s₀, s, t, u, v, henter, hs, hop, ht, hu, hv, hdepth⟩ := run_call_probing
  have hreach := reaches_of_addressable (reachesAddressable_of_after? hs)
  have hst := (advances_of_after? ht).1
  have hwithin := within_of_within? .refl hu
  have huv := (advances_of_after? hv).1
  have hargs : ∀ ty ∈ probeCode.definition.signature.args, ty.kind ≠ .pointer := by decide
  obtain ⟨-, -, -, hconcludes⟩ := call_confined ⟨_, rfl⟩ finalize_probing oneRegistry_probing henter
    hreach hop (c := probeCode) rfl hargs hst hwithin
  exact ⟨s₀, s, t, u, v, henter, hreach, hop, hst, hwithin, huv,
    hconcludes v huv (Nat.le_of_eq hdepth)⟩

end RegIR.Machine
