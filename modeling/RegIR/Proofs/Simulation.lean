import RegIR.Proofs.Reference
import RegIR.Proofs.Safety
/-!
# The machine follows the evaluation

In a program on integers, the bytes of the running activation spell out the values of a call: its
arguments, and the registers that have a value.  Each move of the call is a step of the machine,
and a nested evaluation leaves everything below its argument block as it was.
-/

namespace RegIR

/-! ## 1. Programs on integers -/

/-- The integer is the only type of the program. -/
def Program.IntOnly (p : Program) : Prop := ∀ t, p.Mentions t → t = .int

namespace Program.IntOnly

variable {p : Program} (hp : p.IntOnly)
include hp

theorem oneRegistry : p.OneRegistry := by
  refine ⟨.empty, ?_, fun t ht => Or.inl (hp t ht)⟩
  intro i t ht
  cases ht

theorem reg {f : FuncId} {c : Code} (hc : p.linked? f = some (.code c)) {r : Reg}
    (h : ∃ t, c.definition.regType? r = some t) : c.definition.regType? r = some .int := by
  obtain ⟨t, ht⟩ := h
  rw [ht, hp t (mentions_reg hc ht)]

theorem sig {f : FuncId} {s : Signature} (hs : p.sig? f = some s) : s.allInt = true := by
  rw [Signature.allInt, Bool.and_eq_true, List.all_eq_true, hp _ (mentions_ret hs)]
  refine ⟨rfl, ?_⟩
  intro t ht
  rw [hp t (mentions_arg hs ht)]
  rfl

theorem regExtent (hlaid : p.Laid) {f : FuncId} {c : Code} (hc : p.linked? f = some (.code c))
    {r : Reg} {e : Extent} (he : c.frame.regExtent? r = some e) : e.size = 4 := by
  obtain ⟨t, ht, hsize⟩ := (hlaid f c hc).exists_regType he
  rw [hp t (mentions_reg hc ht)] at hsize
  exact hsize

theorem not_pointer {f : FuncId} {c : Code} (hc : p.linked? f = some (.code c)) {r : Reg} :
    ¬ c.definition.HasKind r .pointer := by
  rintro ⟨t, ht, hkind⟩
  rw [hp t (mentions_reg hc ht)] at hkind
  cases hkind

theorem argExtent (hlaid : p.Laid) {f : FuncId} {c : Code} (hc : p.linked? f = some (.code c))
    {i : Nat} {e : Extent} (he : c.args.extent? i = some e) : e.size = 4 := by
  have hargs := (hlaid f c hc).args
  obtain ⟨t, ht⟩ := hargs.exists_type he
  have hsize := hargs.size he ht
  rw [hp t (mentions_arg (sig?_of_linked? hc) (List.mem_of_getElem? ht))] at hsize
  exact hsize

end Program.IntOnly

/-! ## 2. Lines -/

theorem Definition.line_of_opAt {d : Definition} {block pos : Nat} {op : Operation}
    (h : d.OpAt block pos op) : d.line block pos = op :: d.line block (pos + 1) := by
  obtain ⟨b, hb, hop⟩ := h
  have hlt := (Array.getElem?_eq_some_iff.mp hop).1
  rw [line, line, hb]
  show b.toList.drop pos = op :: b.toList.drop (pos + 1)
  rw [List.drop_eq_getElem_cons (by rwa [Array.length_toList])]
  congr 1
  rw [Array.getElem_toList]
  exact (Array.getElem?_eq_some_iff.mp hop).2

namespace Machine

open Memory Reference

/-! ## 3. The relation -/

/-- A register that spells an integer reads as that integer. -/
theorem Activation.readInt_of_word32? {a : Activation} {m : Memory} {r : Reg} {e : Extent}
    (he : a.code.frame.regExtent? r = some e) {v : Int32}
    (h : m.word32? (a.frameBase + e.start) = some v.toUInt32) : a.readInt m r = .ok v := by
  refine Except.bind_eq_ok.mpr ⟨_, extent_of_regExtent? he, ?_⟩
  rw [h]
  exact congrArg Except.ok (Int32.toInt32_toUInt32 v)

/-- The running activation spells out the call. -/
structure Simulates (p : Program) (s : State) (c : Call) : Prop where
  stacked : Stacked p s
  definition : s.calls.top.code.definition = c.definition
  rest : c.rest = c.definition.line s.calls.top.block s.calls.top.pos
  here : ∃ op, s.calls.top.operation? = some op
  covers : c.definition.Covers (fun r => ∃ v, c.regs r = some v) s.calls.top.block s.calls.top.pos
  regs : ∀ r v, c.regs r = some v → s.calls.top.readInt s.stack r = .ok v
  arity : c.args.length = c.definition.signature.args.length
  args : ∀ i v, c.args[i]? = some v → ∃ e, s.calls.top.code.args.extent? i = some e ∧
    s.stack.word32? (s.calls.top.argsBase + e.start) = some v.toUInt32

/-- The second state belongs to the same call as the first, and everything below its argument block
is the same. -/
structure Above (s t : State) : Prop where
  below : t.calls.below = s.calls.below
  frame : t.calls.top.SameFrame s.calls.top
  keeps : ∀ k < s.calls.top.argsBase, t.stack.byte? k = s.stack.byte? k

theorem Above.refl (s : State) : Above s s := ⟨rfl, ⟨rfl, rfl, rfl⟩, fun _ _ => rfl⟩

theorem Above.trans {s t u : State} (h : Above s t) (h' : Above t u) : Above s u := by
  refine ⟨h'.below.trans h.below, ?_, ?_⟩
  · exact ⟨h'.frame.code.trans h.frame.code, h'.frame.argsBase.trans h.frame.argsBase,
      h'.frame.frameBase.trans h.frame.frameBase⟩
  · intro k hk
    rw [h'.keeps k (by rwa [h.frame.argsBase]), h.keeps k hk]

/-- The running activation is about to return the integer. -/
structure Delivers (p : Program) (s : State) (v : Int32) : Prop where
  stacked : Stacked p s
  ret : ∃ value, s.calls.top.operation? = some (.ret value) ∧
    s.calls.top.readInt s.stack value = .ok v

namespace Simulates

variable {p : Program} (hsound : p.Sound) (hint : p.IntOnly) {s : State} {c : Call}
  (h : Simulates p s c)

include hsound h

/-- The operation at the cursor is the next one of the call, is well-typed, and its registers have
values. -/
theorem exists_operation : ∃ f op rest, p.linked? f = some (.code s.calls.top.code) ∧
    s.calls.top.operation? = some op ∧ c.rest = op :: rest ∧
    op.WellTyped p.sig? s.calls.top.code.definition ∧ ∀ r ∈ op.uses, ∃ v, c.regs r = some v := by
  obtain ⟨f, hf⟩ := h.stacked.linked _ _ s.calls.activation?_top
  obtain ⟨op, hop⟩ := h.here
  have hat := Activation.operation?_eq_some.mp hop
  have hrest := h.rest
  rw [← h.definition, Definition.line_of_opAt hat] at hrest
  refine ⟨f, op, _, hf, hop, hrest, hsound.wellTyped f _ hf _ _ _ hat, ?_⟩
  intro r hr
  have hcovers := h.covers
  rw [← h.definition] at hcovers
  exact hcovers.written_of_uses (hsound.accepted f _ hf) hat hr

include hint

/-- A state that differs in the register that the operation defines spells out the call behind the
operation. -/
theorem define {op : Operation} (hop : s.calls.top.operation? = some op)
    (hterm : op.isTerminator = false) {target : Reg} (htarget : op.target? = some target)
    {e : Extent} (he : s.calls.top.code.frame.regExtent? target = some e) {n : Memory}
    {stats : Stats} (hstacked : Stacked p ⟨n, s.calls.advance, stats⟩)
    (hkeeps : ∀ k < s.stack.size, k < s.calls.top.frameBase + e.start ∨
      s.calls.top.frameBase + e.start + 4 ≤ k → n.byte? k = s.stack.byte? k)
    {v : Int32} (hword : n.word32? (s.calls.top.frameBase + e.start) = some v.toUInt32) :
    Simulates p ⟨n, s.calls.advance, stats⟩ (c.define target v) ∧
      Above s ⟨n, s.calls.advance, stats⟩ := by
  obtain ⟨f, hf⟩ := h.stacked.linked _ _ s.calls.activation?_top
  have htop := h.stacked.top_framed hsound.laid
  have hargs := h.stacked.args _ _ s.calls.activation?_top
  have hframe := htop.reg_within he
  have hsize := hint.regExtent hsound.laid hf he
  have hat := Activation.operation?_eq_some.mp hop
  have hshaped := Definition.shaped_of_flaw? (hsound.accepted f _ hf)
  rw [Extent.stop, hsize] at hframe
  have hcovers := h.covers
  have hrest := h.rest
  rw [← h.definition] at hcovers hrest
  rw [Definition.line_of_opAt hat] at hrest
  refine ⟨⟨hstacked, h.definition, ?_, ?_, ?_, ?_, h.arity, ?_⟩, rfl, ⟨rfl, rfl, rfl⟩, ?_⟩
  · show c.rest.tail = c.definition.line s.calls.top.block (s.calls.top.pos + 1)
    rw [hrest, ← h.definition, List.tail_cons]
  · obtain ⟨op', hop'⟩ := hshaped.exists_next hat hterm
    exact ⟨op', Activation.operation?_eq_some.mpr hop'⟩
  · -- The registers with values are those before and the defined one.
    show c.definition.Covers _ s.calls.top.block (s.calls.top.pos + 1)
    rw [← h.definition]
    refine (hcovers.mono ?_).advance hat ?_
    · intro r hr
      by_cases hrt : r = target
      · exact ⟨v, if_pos hrt⟩
      · obtain ⟨w, hw⟩ := hr
        exact ⟨w, (if_neg hrt).trans hw⟩
    · intro r hr
      rw [htarget] at hr
      cases hr
      exact ⟨v, if_pos rfl⟩
  · intro r w hr
    show s.calls.top.readInt n r = .ok w
    change (if r = target then some v else c.regs r) = some w at hr
    by_cases hrt : r = target
    · rw [if_pos hrt] at hr
      cases hr
      subst hrt
      exact Activation.readInt_of_word32? he hword
    · -- The other registers lie beside the defined one.
      rw [if_neg hrt] at hr
      obtain ⟨e', w', he', hw', rfl⟩ := Activation.readInt_eq_ok (h.regs r w hr)
      have hsize' := hint.regExtent hsound.laid hf he'
      have hframe' := htop.reg_within he'
      have hapart := htop.laid.regs_disjoint hrt he' he
      rw [Extent.stop, Extent.stop, hsize, hsize'] at hapart
      rw [Extent.stop, hsize'] at hframe'
      apply Activation.readInt_of_word32? he'
      rw [UInt32.toUInt32_toInt32, ← hw']
      apply word32?_congr
      intro k hk
      exact hkeeps _ (by omega) (by omega)
  · -- The argument block lies below the frame.
    intro i w hw
    obtain ⟨e', he', hw'⟩ := h.args i w hw
    have hsize' := hint.argExtent hsound.laid hf he'
    have hwithin := htop.laid.args.within he'
    rw [Extent.stop, hsize'] at hwithin
    refine ⟨e', he', ?_⟩
    show n.word32? (s.calls.top.argsBase + e'.start) = some w.toUInt32
    rw [← hw']
    apply word32?_congr
    intro k hk
    exact hkeeps _ (by omega) (by omega)
  · intro k hk
    exact hkeeps k (by omega) (by omega)

/-- The operation writes an integer into its register. -/
theorem write {op : Operation} (hop : s.calls.top.operation? = some op)
    (hterm : op.isTerminator = false) {target : Reg} (htarget : op.target? = some target)
    {v : Int32} {n : Memory} (hn : s.calls.top.writeInt s.stack target v = .ok n) (stats : Stats) :
    Simulates p ⟨n, s.calls.advance, stats⟩ (c.define target v) ∧
      Above s ⟨n, s.calls.advance, stats⟩ := by
  obtain ⟨e, he, hout, hword⟩ := Activation.writeInt_eq_ok hn
  refine h.define hsound hint hop hterm htarget he ?_ ?_ hword
  · exact h.stacked.setTop ⟨rfl, rfl, rfl⟩ hout.size
  · intro k _ hk
    exact hout.byte k hk

omit hint

/-- A branch leads both to the start of the same block. -/
theorem jump {op : Operation} (hop : s.calls.top.operation? = some op) {b : BlockId}
    (hb : b ∈ op.successors) (stats : Stats) :
    Simulates p ⟨s.stack, s.calls.jump b, stats⟩ (c.jump b) ∧
      Above s ⟨s.stack, s.calls.jump b, stats⟩ := by
  obtain ⟨f, hf⟩ := h.stacked.linked _ _ s.calls.activation?_top
  have hat := Activation.operation?_eq_some.mp hop
  have hshaped := Definition.shaped_of_flaw? (hsound.accepted f _ hf)
  have hcovers := h.covers
  rw [← h.definition] at hcovers
  refine ⟨⟨?_, h.definition, rfl, ?_, ?_, h.regs, h.arity, h.args⟩, rfl, ⟨rfl, rfl, rfl⟩,
    fun _ _ => rfl⟩
  · exact h.stacked.setTop ⟨rfl, rfl, rfl⟩ rfl
  · obtain ⟨op', hop'⟩ := hshaped.exists_first (hshaped.edge_of_successor hat hb).2
    exact ⟨op', Activation.operation?_eq_some.mpr hop'⟩
  · show c.definition.Covers _ b.index 0
    rw [← h.definition]
    exact hcovers.jump hshaped hat hb

omit h

/-- A fresh activation spells out a call that has done nothing yet. -/
theorem of_entered {f : FuncId} {c : Code} (hc : p.linked? f = some (.code c))
    (hstacked : Stacked p s) {m : Memory} (hentered : Entered c s.calls.top m s.stack)
    {vs : List Int32} (hlen : vs.length = c.definition.signature.args.length)
    (hargs : ∀ i v, vs[i]? = some v → ∃ e, c.args.extent? i = some e ∧
      s.stack.word32? (s.calls.top.argsBase + e.start) = some v.toUInt32) :
    Simulates p s (.start c.definition vs) := by
  have hshaped := Definition.shaped_of_flaw? (hsound.accepted f c hc)
  refine ⟨hstacked, ?_, ?_, ?_, ?_, ?_, hlen, ?_⟩
  · rw [hentered.code]
    rfl
  · rw [hentered.block, hentered.pos]
    rfl
  · obtain ⟨op, hop⟩ := hshaped.exists_first hshaped.nonempty
    refine ⟨op, ?_⟩
    rw [Activation.operation?_eq_some, hentered.code, hentered.block, hentered.pos]
    exact hop
  · rw [hentered.block, hentered.pos]
    exact .start
  · intro r v hr
    cases hr
  · rw [hentered.code]
    exact hargs

end Simulates

/-! ## 4. Moves and steps -/

section Moves

variable {H : Type}

/-- The machine runs a program on integers without a limit on calls, and its host functions stand
for functions of their arguments. -/
structure Env.Plain (env : Env H) (answers : H → (List Int32 → Int32) → Prop) (hosts : Hosts) :
    Prop where
  sound : env.program.Sound
  ints : env.program.IntOnly
  unlimited : env.maxCallDepth = none
  bound : ∀ symbol, Option.Rel answers (env.host? symbol) (hosts symbol)

/-- One step leads to the second state, with the answer that the host function stands for. -/
def Moves (env : Env H) (answers : H → (List Int32 → Int32) → Prop) (s t : State) : Prop :=
  step env s = .next t ∨ ∃ run args target u h, step env s = .host run args target u ∧
    answers run h ∧ u.answer target (h args) = .ok t

/-- The machine makes the move of a call that it spells out.  When the move enters another call,
the machine can go on with the result of that call. -/
def Follows (env : Env H) (answers : H → (List Int32 → Int32) → Prop) (s : State) (c : Call) :
    Move → Prop
  | .go c' => ∃ t, Moves env answers s t ∧ Simulates env.program t c' ∧ Above s t
  | .enter callee target => ∃ t, Moves env answers s t ∧ Simulates env.program t callee ∧
      ∀ u v, Above t u → Delivers env.program u v → ∃ w, Moves env answers u w ∧
        Simulates env.program w (c.define target v) ∧ Above s w
  | .done (.ok v) => Delivers env.program s v
  | .done (.error e) => ∃ stats, step env s = .halted (.fault e) stats

variable {env : Env H} {answers : H → (List Int32 → Int32) → Prop} {hosts : Hosts} {s : State}
  {c : Call}

theorem step_eq {op : Operation} (hop : s.calls.top.operation? = some op) :
    step env s = execute env s.stack s.calls
      { s.stats with instructions := s.stats.instructions + 1 } op := step_of_operation? hop

theorem moves_of_andAdvance {op : Operation} (hop : s.calls.top.operation? = some op)
    {x : Exec Memory} {n : Memory} (hx : x = .ok n) {stats : Stats}
    (hexec : execute env s.stack s.calls
      { s.stats with instructions := s.stats.instructions + 1 } op =
        andAdvance s.calls stats x) : Moves env answers s ⟨n, s.calls.advance, stats⟩ := by
  left
  rw [step_eq hop, hexec, hx]
  rfl

/-- The operation computes an integer. -/
theorem follows_write (henv : env.Plain answers hosts) (h : Simulates env.program s c)
    {op : Operation} (hop : s.calls.top.operation? = some op) (hterm : op.isTerminator = false)
    {target : Reg} (htarget : op.target? = some target)
    (ht : s.calls.top.code.definition.regType? target = some .int) {v : Int32}
    (hexec : ∀ stats, execute env s.stack s.calls stats op =
      andAdvance s.calls stats (s.calls.top.writeInt s.stack target v)) :
    Follows env answers s c (.go (c.define target v)) := by
  obtain ⟨n, hn⟩ := (h.stacked.top_framed henv.sound.laid).writeInt ht v
  exact ⟨_, moves_of_andAdvance hop hn (hexec _),
    h.write henv.sound henv.ints hop hterm htarget hn _⟩

theorem follows_readArg (henv : env.Plain answers hosts) (h : Simulates env.program s c)
    {target : Reg} {index : Nat} (hop : s.calls.top.operation? = some (.readArg target index))
    {v : Int32} (hv : c.args[index]? = some v)
    (hty : (Operation.readArg target index).WellTyped env.program.sig? s.calls.top.code.definition) :
    Follows env answers s c (.go (c.define target v)) := by
  obtain ⟨f, hf⟩ := h.stacked.linked _ _ s.calls.activation?_top
  have htop := h.stacked.top_framed henv.sound.laid
  obtain ⟨n, hn⟩ := execReadArg_ok htop (h.stacked.args _ _ s.calls.activation?_top) hty
  have halters : Alters env.program s.calls s.stack (.readArg target index) n :=
    alters_of_execReadArg hn
  obtain ⟨src, hsrc, hword⟩ := h.args index v hv
  refine ⟨_, moves_of_andAdvance hop hn rfl, ?_⟩
  cases halters with
  | int hint => cases hint
  | readArg hsrc' hdst hsize hcopy =>
    rw [hsrc] at hsrc'
    cases hsrc'
    rw [henv.ints.argExtent henv.sound.laid hf hsrc] at hcopy
    refine h.define henv.sound henv.ints hop rfl rfl hdst ?_ ?_ ?_
    · exact h.stacked.setTop ⟨rfl, rfl, rfl⟩ hcopy.outside.size
    · intro k _ hk
      exact hcopy.outside.byte k hk
    · rw [word32?_congr hcopy.inside, hword]

theorem returned_of_int (henv : env.Plain answers hosts) {f : FuncId} {a : Activation}
    (hf : env.program.linked? f = some (.code a.code)) {m : Memory} {value : Reg} {e : Extent}
    (he : a.code.frame.regExtent? value = some e) :
    returned a m value = .ok ⟨a.frameBase + e.start, 4⟩ := by
  obtain ⟨t, ht, -⟩ := (henv.sound.laid f _ hf).exists_regType he
  have hint := henv.ints.reg hf ⟨t, ht⟩
  have hsize := henv.ints.regExtent henv.sound.laid hf he
  unfold returned
  refine Except.bind_eq_ok.mpr ⟨_, extent_of_regExtent? he, ?_⟩
  refine Except.bind_eq_ok.mpr ⟨(), ?_, by rw [hsize]⟩
  exact Except.bind_eq_ok.mpr ⟨.int, Activation.typeOf_eq_ok.mpr hint, rfl⟩

/-- The caller goes on with the integer that the call delivers. -/
theorem exists_resume (henv : env.Plain answers hosts) (h : Simulates env.program s c)
    {target : Reg} {callee : FuncId} {args : List Reg}
    (hop : s.calls.top.operation? = some (.call target callee args)) {e : Extent}
    (he : s.calls.top.code.frame.regExtent? target = some e) {c' : Code} {a : Activation}
    {n : Memory} (hentered : Entered c' a s.stack n) {stats : Stats} {u : State}
    (habove : Above ⟨n, ⟨a, s.calls.below.push
      ⟨s.calls.top.advance, s.calls.top.frameBase + e.start⟩⟩, stats⟩ u)
    {v : Int32} (hu : Delivers env.program u v) :
    ∃ w, Moves env answers u w ∧ Simulates env.program w (c.define target v) ∧ Above s w := by
  obtain ⟨value, hret, hread⟩ := hu.ret
  obtain ⟨src, w, hsrc, hw, rfl⟩ := Activation.readInt_eq_ok hread
  obtain ⟨f, hf⟩ := hu.stacked.linked _ _ u.calls.activation?_top
  obtain ⟨f', hf'⟩ := h.stacked.linked _ _ s.calls.activation?_top
  have hback : u.calls.below.back? =
      some ⟨s.calls.top.advance, s.calls.top.frameBase + e.start⟩ := by
    rw [habove.below, Array.back?_push]
  have hpop : u.calls.below.pop = s.calls.below := by rw [habove.below, Array.pop_push]
  -- The target of the call lies below everything that the call used.
  have hsize := henv.ints.regExtent henv.sound.laid hf' he
  have hsrcsize := henv.ints.regExtent henv.sound.laid hf hsrc
  have htarget := (h.stacked.top_framed henv.sound.laid).reg_within he
  have hvalue := (hu.stacked.top_framed henv.sound.laid).reg_within hsrc
  have hbase := hentered.above
  have hargs := hu.stacked.args _ _ u.calls.activation?_top
  have hsame : u.calls.top.argsBase = a.argsBase := habove.frame.argsBase
  rw [Extent.stop, hsize] at htarget
  rw [Extent.stop, hsrcsize] at hvalue
  obtain ⟨k, hk⟩ : ∃ k, u.stack.copyWithin (u.calls.top.frameBase + src.start)
      (u.calls.top.frameBase + src.start + 4) (s.calls.top.frameBase + e.start) = .ok k :=
    copyWithin_ok (by omega) (by omega)
  have hcopied := copied_of_copyWithin hk
  have hcut : ∀ j < s.stack.size, (k.cut u.calls.top.argsBase).byte? j = k.byte? j := by
    intro j hj
    rw [byte?_cut, if_pos (by omega)]
  have hstep : step env u = .next ⟨k.cut u.calls.top.argsBase, s.calls.advance,
      { u.stats with instructions := u.stats.instructions + 1 }⟩ := by
    rw [step_eq hret]
    simp only [execute, execReturn, returned_of_int henv hf hsrc, hback, Extent.stop, hk, hpop]
    rfl
  have hstacked := hu.stacked.next (next_of_advances henv.sound.laid
    (hu.stacked.top_framed henv.sound.laid) (Or.inl hstep))
  refine ⟨_, Or.inl hstep, h.define henv.sound henv.ints hop rfl rfl he hstacked ?_ ?_⟩
  · intro j hj hout
    rw [hcut j hj, hcopied.outside.byte j hout, habove.keeps j (by dsimp only; omega)]
    exact hentered.keeps j hj
  · rw [UInt32.toUInt32_toInt32, ← hw, ← word32?_congr hcopied.inside]
    apply word32?_congr
    intro j hj
    exact hcut _ (by omega)

/-- The values of some registers, as both sides read them. -/
theorem exists_values (h : Simulates env.program s c) {rs : List Reg}
    (hrs : ∀ r ∈ rs, ∃ v, c.regs r = some v) :
    ∃ vs, rs.mapM c.regs = some vs ∧ s.calls.top.readInts s.stack rs = .ok vs ∧
      List.Forall₂ (fun v r => c.regs r = some v) vs rs := by
  induction rs with
  | nil => exact ⟨[], rfl, rfl, .nil⟩
  | cons r rs ih =>
    obtain ⟨v, hv⟩ := hrs r List.mem_cons_self
    obtain ⟨vs, hvs, hread, hall⟩ := ih fun r' hr' => hrs r' (List.mem_cons_of_mem r hr')
    refine ⟨v :: vs, ?_, ?_, .cons hv hall⟩
    · rw [List.mapM_cons, hv, hvs]
      rfl
    · rw [Activation.readInts, h.regs r v hv, hread]
      rfl

/-- A call of a defined function starts with the values that it is given. -/
theorem follows_call (henv : env.Plain answers hosts) (h : Simulates env.program s c)
    {target : Reg} {callee : FuncId} {args : List Reg}
    (hop : s.calls.top.operation? = some (.call target callee args)) {c' : Code}
    (hc : env.program.linked? callee = some (.code c'))
    (hty : (Operation.call target callee args).WellTyped env.program.sig?
      s.calls.top.code.definition)
    {vs : List Int32} (hvs : List.Forall₂ (fun v r => c.regs r = some v) vs args) :
    Follows env answers s c (.enter (.start c'.definition vs) target) := by
  obtain ⟨f, hf⟩ := h.stacked.linked _ _ s.calls.activation?_top
  have htop := h.stacked.top_framed henv.sound.laid
  have hdepth : checkDepth env.maxCallDepth s.calls.depth = .ok () := by
    rw [henv.unlimited]
    rfl
  obtain ⟨⟨n, calls⟩, henter⟩ := enterCall_ok henv.sound henv.ints.oneRegistry h.stacked hf rfl hc
    hty hdepth
  obtain ⟨c'', a, e, hc', hlen, he, rfl, hentered, hpassed⟩ :=
    entered_of_enterCall henv.sound.laid (fun r e he => htop.reg_within he) henter
  rw [hc] at hc'
  cases hc'
  obtain ⟨stats, hstep⟩ : ∃ stats, step env s = .next ⟨n, ⟨a, s.calls.below.push
      ⟨s.calls.top.advance, s.calls.top.frameBase + e.start⟩⟩, stats⟩ := by
    rw [step_eq hop]
    simp only [execute, execCall, hc, henter]
    exact ⟨_, rfl⟩
  have hstacked : Stacked env.program ⟨n, ⟨a, s.calls.below.push
      ⟨s.calls.top.advance, s.calls.top.frameBase + e.start⟩⟩, stats⟩ :=
    h.stacked.call hop hc he hentered
  refine ⟨_, Or.inl hstep, .of_entered henv.sound hc hstacked hentered ?_ ?_, ?_⟩
  · rw [hvs.length_eq, hlen]
  · -- Each value has been copied from a register of the caller.
    intro i v hv
    obtain ⟨r, hr, hrv⟩ := getElem?_of_forall₂ hvs hv
    obtain ⟨src, dst, hsrc, hdst, -, hsame⟩ := hpassed i r hr
    obtain ⟨src', w, hsrc', hw, rfl⟩ := Activation.readInt_eq_ok (h.regs r v hrv)
    rw [hsrc] at hsrc'
    cases hsrc'
    rw [Nat.zero_add] at hdst
    rw [henv.ints.regExtent henv.sound.laid hf hsrc] at hsame
    refine ⟨dst, hdst, ?_⟩
    rw [UInt32.toUInt32_toInt32, ← hw]
    exact word32?_congr hsame
  · intro u v habove hu
    exact exists_resume henv h hop he hentered habove hu

/-- A call of an external function is answered by its host, or refused. -/
theorem exists_move_external (henv : env.Plain answers hosts) (h : Simulates env.program s c)
    {target : Reg} {callee : FuncId} {args : List Reg}
    (hop : s.calls.top.operation? = some (.call target callee args)) {e : External} {l : Layout}
    (he : env.program.linked? callee = some (.external e l))
    (hty : (Operation.call target callee args).WellTyped env.program.sig?
      s.calls.top.code.definition)
    {vs : List Int32} (hvs : s.calls.top.readInts s.stack args = .ok vs) :
    (∃ g, hosts e.symbol = some g ∧ Follows env answers s c (.go (c.define target (g vs)))) ∨
      hosts e.symbol = none ∧
        Follows env answers s c (.done (.error (.unboundExternal e.symbol))) := by
  obtain ⟨f, hf⟩ := h.stacked.linked _ _ s.calls.activation?_top
  obtain ⟨sig, hsig, htarget, -⟩ := hty
  have hsig' : env.program.sig? callee = some e.signature := by
    rw [Program.sig?, Program.function?, he]
    rfl
  have hallInt := henv.ints.sig hsig'
  -- The host table and the functions it stands for bind the same symbols.
  have hbound := henv.bound e.symbol
  cases hhost : env.host? e.symbol with
  | none =>
    rw [hhost] at hbound
    cases hg : hosts e.symbol with
    | some g =>
      rw [hg] at hbound
      cases hbound
    | none =>
      refine Or.inr ⟨rfl, ?_⟩
      show ∃ stats, step env s = _
      rw [step_eq hop]
      simp only [execute, execCall, he, hvs, hallInt, hhost]
      exact ⟨_, rfl⟩
  | some run =>
    rw [hhost] at hbound
    cases hg : hosts e.symbol with
    | none =>
      rw [hg] at hbound
      cases hbound
    | some g =>
      rw [hg] at hbound
      cases hbound with
      | some hanswers =>
        refine Or.inl ⟨g, rfl, ?_⟩
        have hint := henv.ints.reg hf ⟨_, htarget⟩
        obtain ⟨n, hn⟩ := (h.stacked.top_framed henv.sound.laid).writeInt hint (g vs)
        obtain ⟨stats, hstep⟩ : ∃ stats, step env s =
            .host run vs target ⟨s.stack, s.calls.advance, stats⟩ := by
          rw [step_eq hop]
          simp only [execute, execCall, he, hvs, hallInt, hhost]
          exact ⟨_, rfl⟩
        refine ⟨⟨n, s.calls.advance, stats⟩, Or.inr ⟨run, vs, target, _, g, hstep, hanswers, ?_⟩,
          h.write henv.sound henv.ints hop rfl rfl hn stats⟩
        exact Except.bind_eq_ok.mpr ⟨n, hn, rfl⟩

/-- The machine makes every move of a call that it spells out, and the call always has one. -/
theorem Simulates.exists_move (henv : env.Plain answers hosts) (h : Simulates env.program s c) :
    ∃ move, c.move? env.program hosts = some move ∧ Follows env answers s c move := by
  obtain ⟨f, op, rest, hf, hop, hrest, hty, huses⟩ := h.exists_operation henv.sound
  -- What the operation reads has a value on both sides, and it is the same value.
  cases op with
  | readArg target index =>
    obtain ⟨t, ht, -⟩ := id hty
    have hlt : index < c.args.length := by
      rw [h.arity, ← h.definition]
      exact (List.getElem?_eq_some_iff.mp ht).1
    have hv := List.getElem?_eq_getElem hlt
    have hmove : c.move? env.program hosts = some (.go (c.define target c.args[index])) := by
      simp [Call.move?, hrest, hv]
    exact ⟨_, hmove, follows_readArg henv h hop hv hty⟩
  | literal target v =>
    have hmove : c.move? env.program hosts = some (.go (c.define target v)) := by
      simp [Call.move?, hrest]
    exact ⟨_, hmove, follows_write henv h hop rfl rfl hty fun _ => rfl⟩
  | unary target op x =>
    obtain ⟨v, hv⟩ := huses x (by simp [Operation.uses])
    have hmove : c.move? env.program hosts = some (.go (c.define target (op.eval v))) := by
      simp [Call.move?, hrest, hv]
    refine ⟨_, hmove, follows_write henv h hop rfl rfl hty.1 ?_⟩
    intro stats
    simp only [execute, execUnary, h.regs x v hv]
    rfl
  | binary target op l r =>
    obtain ⟨x, hx⟩ := huses l (by simp [Operation.uses])
    obtain ⟨y, hy⟩ := huses r (by simp [Operation.uses])
    cases heval : op.eval? x y with
    | none =>
      -- Both sides fault, under the name of the same function.
      have hmove : c.move? env.program hosts =
          some (.done (.error (.divisionByZero c.definition.name))) := by
        simp [Call.move?, hrest, hx, hy, heval]
      refine ⟨_, hmove, ?_⟩
      show ∃ stats, step env s = _
      rw [step_eq hop, ← h.definition]
      simp only [execute, execBinary, h.regs l x hx, h.regs r y hy, bind, Except.bind, heval]
      exact ⟨_, rfl⟩
    | some v =>
      have hmove : c.move? env.program hosts = some (.go (c.define target v)) := by
        simp [Call.move?, hrest, hx, hy, heval]
      refine ⟨_, hmove, follows_write henv h hop rfl rfl hty.1 ?_⟩
      intro stats
      simp only [execute, execBinary, h.regs l x hx, h.regs r y hy, bind, Except.bind, heval]
  | stackAlloc target slot =>
    -- The operations on memory need registers that hold addresses.
    have hint := henv.ints.reg hf ⟨_, hty.1⟩
    rw [hty.1] at hint
    cases hint
  | load target pointer =>
    exact absurd hty.2 (henv.ints.not_pointer hf)
  | store pointer source =>
    exact absurd hty.1 (henv.ints.not_pointer hf)
  | call target callee args =>
    have hargs : ∀ r ∈ args, ∃ v, c.regs r = some v := huses
    obtain ⟨vs, hvs, hread, hall⟩ := exists_values h hargs
    obtain ⟨sig, hsig, -⟩ := id hty
    obtain ⟨fn, hfn, -⟩ := Option.map_eq_some_iff.mp hsig
    obtain ⟨linked, hl, rfl⟩ := Option.map_eq_some_iff.mp hfn
    cases linked with
    | code c' =>
      have hmove : c.move? env.program hosts =
          some (.enter (.start c'.definition vs) target) := by
        simp [Call.move?, hrest, hvs, hfn, Linked.function]
      exact ⟨_, hmove, follows_call henv h hop hl hty hall⟩
    | external e l =>
      rcases exists_move_external henv h hop hl hty hread with ⟨g, hg, hfollows⟩ | ⟨hg, hfollows⟩
      · have hmove : c.move? env.program hosts = some (.go (c.define target (g vs))) := by
          simp [Call.move?, hrest, hvs, hfn, Linked.function, hg]
        exact ⟨_, hmove, hfollows⟩
      · have hmove : c.move? env.program hosts =
            some (.done (.error (.unboundExternal e.symbol))) := by
          simp [Call.move?, hrest, hvs, hfn, Linked.function, hg]
        exact ⟨_, hmove, hfollows⟩
  | branch b =>
    have hmove : c.move? env.program hosts = some (.go (c.jump b)) := by
      simp [Call.move?, hrest]
    refine ⟨_, hmove, ⟨s.stack, s.calls.jump b, _⟩, Or.inl (step_eq hop), ?_⟩
    exact h.jump henv.sound hop List.mem_cons_self _
  | condBranch test b b' =>
    obtain ⟨v, hv⟩ := huses test (by simp [Operation.uses])
    have hmove : c.move? env.program hosts =
        some (.go (c.jump (if v ≠ 0 then b else b'))) := by
      simp [Call.move?, hrest, hv]
    have hmem : (if v ≠ 0 then b else b') ∈ (Operation.condBranch test b b').successors := by
      split <;> simp [Operation.successors]
    have hstep : step env s = .next ⟨s.stack, s.calls.jump (if v ≠ 0 then b else b'),
        { s.stats with instructions := s.stats.instructions + 1 }⟩ := by
      rw [step_eq hop]
      simp only [execute, h.regs test v hv]
    exact ⟨_, hmove, _, Or.inl hstep, h.jump henv.sound hop hmem _⟩
  | ret value =>
    obtain ⟨v, hv⟩ := huses value (by simp [Operation.uses])
    have hmove : c.move? env.program hosts = some (.done (.ok v)) := by
      simp [Call.move?, hrest, hv]
    exact ⟨_, hmove, h.stacked, value, hop, h.regs value v hv⟩

theorem Simulates.follows (henv : env.Plain answers hosts) (h : Simulates env.program s c)
    {move : Move} (hmove : c.move? env.program hosts = some move) :
    Follows env answers s c move := by
  obtain ⟨move', hmove', hfollows⟩ := h.exists_move henv
  rw [hmove] at hmove'
  cases hmove'
  exact hfollows

end Moves

end Machine

end RegIR
