import RegIR.Proofs.Discipline
import RegIR.Proofs.Linking
/-!
# Definition before use

A journal records, beside a run, what each live activation has executed.  The blocks that an
activation has left form a walk from block 0, so what the validator knows about walks holds of
every activation at every moment: its cursor stands on an operation, and whatever that operation
reads was written by an earlier operation of the same activation.
-/

namespace RegIR.Machine

/-! ## 1. Journals -/

/-- What the live activations have executed: the running one, and those that wait with their
calls, oldest first.  Every list has the latest operation first. -/
structure Journal where
  top : List Operation
  below : Array (List Operation × Operation)

namespace Journal

/-- Nothing has been executed. -/
def empty : Journal := ⟨[], #[]⟩

/-- Records that `op` led from one state to another.  A call counts as executed when it has
returned: until then its caller waits for the target. -/
def record (j : Journal) (op : Operation) (s t : State) : Journal :=
  if s.calls.depth < t.calls.depth then ⟨[], j.below.push (j.top, op)⟩
  else if t.calls.depth < s.calls.depth then
    match j.below.back? with
    | none => j
    | some (done, call) => ⟨call :: done, j.below.pop⟩
  else ⟨op :: j.top, j.below⟩

end Journal

/-- The runs from a state, each with its journal. -/
inductive History {H : Type} (env : Env H) (s₀ : State) : State → Journal → Prop
  | start : History env s₀ s₀ .empty
  | step {s t : State} {j : Journal} {op : Operation} (h : History env s₀ s j)
      (hop : s.calls.top.operation? = some op) (hst : Advances env s t) :
      History env s₀ t (j.record op s t)

theorem operation?_of_next {p : Program} {s t : State} (h : Next p s t) :
    ∃ op, s.calls.top.operation? = some op := by
  cases h with
  | data hop _ => exact ⟨_, hop⟩
  | jump hop _ => exact ⟨_, hop⟩
  | call hop => exact ⟨_, hop⟩
  | ret hop => exact ⟨_, hop⟩

/-- A run has a journal. -/
theorem exists_history {H : Type} {env : Env H} {s₀ s : State} (hp : env.program.Laid)
    (hs : Stacked env.program s₀) (h : Reaches env s₀ s) : ∃ j, History env s₀ s j := by
  induction h with
  | refl => exact ⟨.empty, .start⟩
  | tail hr h ih =>
    obtain ⟨j, hj⟩ := ih
    obtain ⟨op, hop⟩ := operation?_of_next ((hs.reaches hp hr).advances hp h).1
    exact ⟨_, hj.step hop h⟩

/-! ## 2. What the journals say -/

/-- Some executed operation defines the register. -/
def Wrote (done : List Operation) (r : Reg) : Prop := ∃ op ∈ done, op.target? = some r

theorem Wrote.cons_iff {op : Operation} {done : List Operation} {r : Reg} :
    Wrote (op :: done) r ↔ op.target? = some r ∨ Wrote done r :=
  List.exists_mem_cons_iff _ op done

theorem Wrote.cons {done : List Operation} {r : Reg} (op : Operation) (h : Wrote done r) :
    Wrote (op :: done) r := Wrote.cons_iff.mpr (Or.inr h)

/-- The activation has executed `done`, and may go on at its cursor. -/
structure Activation.Ready (a : Activation) (done : List Operation) : Prop where
  covers : a.code.definition.Covers (Wrote done) a.block a.pos
  here : ∃ op, a.operation? = some op

/-- The activation has executed `done` and waits behind `call`. -/
inductive Activation.Pending (a : Activation) (done : List Operation) (call : Operation) : Prop
  | intro {pos : Nat} (hpos : a.pos = pos + 1) (hop : a.code.definition.OpAt a.block pos call)
      (hterm : call.isTerminator = false)
      (hcovers : a.code.definition.Covers (Wrote done) a.block pos) : Pending a done call

namespace Activation

variable {a : Activation} {done : List Operation} {op : Operation}

theorem Ready.start (ha : a.code.definition.Shaped) (hblock : a.block = 0) (hpos : a.pos = 0) :
    a.Ready [] := by
  obtain ⟨op, hop⟩ := ha.exists_first ha.nonempty
  refine ⟨?_, op, ?_⟩
  · rw [hblock, hpos]
    exact .start
  · rw [operation?_eq_some, hblock, hpos]
    exact hop

theorem Ready.pending (h : a.Ready done) (hop : a.operation? = some op)
    (hterm : op.isTerminator = false) : a.advance.Pending done op :=
  ⟨rfl, operation?_eq_some.mp hop, hterm, h.covers⟩

/-- Behind a completed operation stands another one. -/
theorem Pending.resume (ha : a.code.definition.Shaped) (h : a.Pending done op) :
    a.Ready (op :: done) := by
  obtain ⟨hpos, hop, hterm, hcovers⟩ := h
  obtain ⟨op', hop'⟩ := ha.exists_next hop hterm
  refine ⟨?_, op', ?_⟩
  · rw [hpos]
    refine (hcovers.mono fun r hr => hr.cons op).advance hop ?_
    intro r hr
    exact ⟨op, List.mem_cons_self, hr⟩
  · rw [operation?_eq_some, hpos]
    exact hop'

theorem Ready.jump (ha : a.code.definition.Shaped) (h : a.Ready done)
    (hop : a.operation? = some op) {b : BlockId} (hb : b ∈ op.successors) :
    (a.jump b).Ready (op :: done) := by
  rw [operation?_eq_some] at hop
  have hcovers := (h.covers.mono fun r hr => hr.cons op).jump ha hop hb
  obtain ⟨op', hop'⟩ := ha.exists_first (ha.edge_of_successor hop hb).2
  exact ⟨hcovers, op', operation?_eq_some.mpr hop'⟩

end Activation

/-- The journal fits the live activations. -/
structure Journal.Fits (j : Journal) (calls : CallStack) : Prop where
  top : calls.top.Ready j.top
  size : j.below.size = calls.below.size
  below : ∀ (i : Nat) (u : Suspended) (done : List Operation) (call : Operation),
    calls.below[i]? = some u → j.below[i]? = some (done, call) → u.caller.Pending done call

namespace Journal

variable {j : Journal} {op : Operation}

theorem record_of_depth_eq {s t : State} (h : t.calls.depth = s.calls.depth) :
    j.record op s t = ⟨op :: j.top, j.below⟩ := by
  unfold record
  rw [if_neg (by omega), if_neg (by omega)]

theorem Fits.next {p : Program} (hp : p.Accepted) {s t : State} (hs : Stacked p s)
    (ht : Stacked p t) (h : j.Fits s.calls) (hop : s.calls.top.operation? = some op)
    (hn : Next p s t) : (j.record op s t).Fits t.calls := by
  have hshaped : ∀ {u : State} {i a}, Stacked p u → u.calls.activation? i = some a →
      a.code.definition.Shaped := by
    intro u i a hu ha
    obtain ⟨f, hf⟩ := hu.linked i a ha
    exact Definition.shaped_of_flaw? (hp f a.code hf)
  cases hn with
  | data hop' hm =>
    rw [hop] at hop'
    cases hop'
    have hpending := h.top.pending hop hm.isTerminator_eq_false
    rw [record_of_depth_eq]
    · exact ⟨hpending.resume (hshaped ht (CallStack.activation?_top _)), h.size, h.below⟩
    · rfl
  | jump hop' hb =>
    rw [hop] at hop'
    cases hop'
    have hready := h.top.jump (hshaped hs (CallStack.activation?_top _)) hop hb
    rw [record_of_depth_eq]
    · exact ⟨hready, h.size, h.below⟩
    · rfl
  | @call m n calls _ _ _ _ _ c a e hop' hc hlen he ha hpassed =>
    rw [hop] at hop'
    cases hop'
    unfold record
    rw [if_pos (by simp [CallStack.depth])]
    -- The callee has executed nothing; the caller joins those that wait.
    have hready := Activation.Ready.start (hshaped ht (CallStack.activation?_top _)) ha.block ha.pos
    refine ⟨hready, ?_, ?_⟩
    · rw [Array.size_push, Array.size_push, h.size]
    · intro i u done call hu hcall
      rw [Array.getElem?_push] at hu hcall
      rw [h.size] at hcall
      split at hu
      · rename_i hi
        rw [if_pos hi] at hcall
        cases hu
        cases hcall
        exact h.top.pending hop rfl
      · rename_i hi
        rw [if_neg hi] at hcall
        exact h.below i u done call hu hcall
  | @ret m n calls _ _ _ _ caller offset hop' hsrc hcheck hback hcopy =>
    have hdepth := CallStack.size_pop_of_back? hback
    obtain ⟨hpos, hlast⟩ := CallStack.getElem?_of_back? hback
    have hsize := h.size
    dsimp only at hdepth hsize
    unfold record
    rw [if_neg (by simp only [CallStack.depth]; omega),
      if_pos (by simp only [CallStack.depth]; omega)]
    -- The latest pending call is the one that returns, and its target is now written.
    have hcall : j.below[calls.below.size - 1]? = some j.below[calls.below.size - 1] :=
      Array.getElem?_eq_getElem (by omega)
    have hpending := h.below _ _ _ _ hlast hcall
    rw [Array.back?_eq_getElem?, hsize, hcall]
    refine ⟨hpending.resume (hshaped ht (CallStack.activation?_top _)), ?_, ?_⟩
    · rw [Array.size_pop, Array.size_pop, hsize]
    · intro i u done call hu hcall'
      rw [Array.getElem?_pop] at hu hcall'
      split at hu
      · rw [hsize] at hcall'
        rename_i hi
        rw [if_pos hi] at hcall'
        exact h.below i u done call hu hcall'
      · cases hu

theorem Fits.of_history {H : Type} {env : Env H} (hlaid : env.program.Laid)
    (hp : env.program.Accepted) {s₀ s : State} (hs : Stacked env.program s₀)
    (h₀ : Journal.empty.Fits s₀.calls) (h : History env s₀ s j) :
    Stacked env.program s ∧ j.Fits s.calls := by
  induction h with
  | start => exact ⟨hs, h₀⟩
  | step h hop hst ih =>
    -- Both invariants go together: the journal is about the activations on the stack.
    obtain ⟨hstacked, hfits⟩ := ih
    obtain ⟨hn, ht⟩ := hstacked.advances hlaid hst
    exact ⟨ht, hfits.next hp hstacked ht hop hn⟩

theorem Fits.of_enter {p : Program} (hlaid : p.Laid) (hp : p.Accepted) {f : FuncId}
    {args : List Bytes} {returnSize : Nat} {stats : Stats} {s : State}
    (h : enter p f args returnSize stats = .ok s) : Journal.empty.Fits s.calls := by
  obtain ⟨c, a, hc, -, -, hcalls, ha, -⟩ := entered_of_enter hlaid h
  have hshaped : a.code.definition.Shaped := by
    rw [ha.code]
    exact Definition.shaped_of_flaw? (hp f c hc)
  rw [hcalls]
  refine ⟨.start hshaped ha.block ha.pos, rfl, ?_⟩
  intro i u done call hu
  cases hu

/-- Every live activation may go on, in a block that its walk has reached. -/
theorem Fits.live {p : Program} (hp : p.Accepted) {s : State} (hs : Stacked p s)
    (h : j.Fits s.calls) {i : Nat} {a : Activation} (ha : s.calls.activation? i = some a) :
    ∃ done, a.Ready done := by
  obtain ⟨f, hf⟩ := hs.linked i a ha
  have hshaped := Definition.shaped_of_flaw? (hp f a.code hf)
  unfold CallStack.activation? at ha
  split at ha
  · cases ha
    exact ⟨j.top, h.top⟩
  · obtain ⟨u, hu, rfl⟩ := Option.map_eq_some_iff.mp ha
    have hlt := (Array.getElem?_eq_some_iff.mp hu).1
    rw [← h.size] at hlt
    have hcall : j.below[i]? = some j.below[i] := Array.getElem?_eq_getElem hlt
    exact ⟨_, (h.below i u _ _ hu hcall).resume hshaped⟩

end Journal

/-! ## 3. Definition before use -/

end RegIR.Machine
