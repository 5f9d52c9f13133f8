import RegIR.Module.InPlace
import RegIR.Proofs.Declarations
/-!
# Refused steps

A step that fails has changed nothing, although it works in place.  So a script can do without the
steps that fail, and construction in place gives the drafts that construction by value gives.
-/

namespace RegIR

namespace InPlace

variable {σ α β : Type}

/-! ## 1. Steps in place and by value -/

theorem bind_apply (x : InPlace σ α) (f : α → InPlace σ β) (s : σ) : (x >>= f) s =
    match x s with
    | (.ok a, s') => f a s'
    | (.error e, s') => (.error e, s') := by
  show (ExceptT.bindCont f (x s).1) (x s).2 = _
  obtain ⟨e | a, s'⟩ := x s <;> rfl

theorem map_apply (g : α → β) (x : InPlace σ α) (s : σ) :
    (g <$> x) s = ((x s).1.map g, (x s).2) := by
  rw [map_eq_pure_bind, bind_apply]
  obtain ⟨e | a, s'⟩ := x s <;> rfl

/-- The step in place does what the step by value says: on success it gives the same value and
state, and on failure it leaves the state as it was. -/
def Performs (x : InPlace σ α) (s : σ) (r : Except BuildError (α × σ)) : Prop :=
  match r with
  | .ok (a, s') => x s = (.ok a, s')
  | .error e => x s = (.error e, s)

section Checks

variable {f : σ → Except BuildError α} {x : α → InPlace σ β} {s : σ}

theorem Performs.of_ok {a : α} {r : Except BuildError (β × σ)} (hf : f s = .ok a)
    (h : Performs (x a) s r) : Performs (check f >>= x) s r := by
  have hx : (check f >>= x) s = x a s := by
    rw [bind_apply, check, hf]
  unfold Performs
  rw [hx]
  exact h

theorem Performs.of_error {e : BuildError} (hf : f s = .error e) :
    Performs (check f >>= x) s (.error e) := by
  show (check f >>= x) s = _
  rw [bind_apply, check, hf]

/-- A check that fails comes before any change. -/
theorem Performs.check {g : α → Except BuildError (β × σ)}
    (h : ∀ a, f s = .ok a → Performs (x a) s (g a)) :
    Performs (check f >>= x) s (f s >>= g) := by
  cases hf : f s with
  | error e => exact .of_error hf
  | ok a => exact .of_ok hf (h a hf)

end Checks

theorem Performs.map {x : InPlace σ α} {s : σ} {r : Except BuildError (α × σ)}
    (h : Performs x s r) (g : α → β) :
    Performs (g <$> x) s (r.map fun (a, s') => (g a, s')) := by
  cases r with
  | error e =>
    show (g <$> x) s = _
    rw [map_apply, show x s = _ from h]
    rfl
  | ok a =>
    show (g <$> x) s = _
    rw [map_apply, show x s = _ from h]
    rfl

end InPlace

namespace Builder

open RegIR.InPlace

variable (b : Builder)

theorem performs_openBlock : Performs InPlace.openBlock b (openBlock b) := by
  have hsize : (b.body.blocks.push #[]).size - 1 = b.body.blocks.size := by simp
  show (Except.ok (⟨(b.body.blocks.push #[]).size - 1⟩ : BlockId),
    InPlace.setCurrent ⟨(b.body.blocks.push #[]).size - 1⟩ (InPlace.addBlock b)) = _
  rw [hsize]
  rfl

theorem performs_switchTo (block : BlockId) :
    Performs (InPlace.switchTo block) b (switchTo block b) := by
  unfold switchTo InPlace.switchTo
  split
  · rename_i hlt
    exact .of_ok (if_pos hlt) rfl
  · rename_i hge
    exact .of_error (if_neg hge)

theorem performs_readArg (index : Nat) :
    Performs (InPlace.readArg index) b (readArg index b) := by
  refine .check fun block _ => ?_
  split
  · rename_i hnone
    refine .of_error ?_
    rw [hnone]
  · rename_i t ht
    refine .of_ok (a := t) ?_ rfl
    rw [ht]

theorem performs_literal (value : Int32) :
    Performs (InPlace.literal value) b (literal value b) := .check fun _ _ => rfl

theorem performs_unary (op : UnaryOp) (operand : Reg) :
    Performs (InPlace.unary op operand) b (unary op operand b) :=
  .check fun _ _ => .check fun _ _ => rfl

theorem performs_binary (op : BinaryOp) (lhs rhs : Reg) :
    Performs (InPlace.binary op lhs rhs) b (binary op lhs rhs b) :=
  .check fun _ _ => .check fun _ _ => .check fun _ _ => rfl

theorem performs_call (callee : FuncId) (args : List Reg) :
    Performs (InPlace.call callee args) b (call callee args b) := by
  refine .check fun block _ => ?_
  split
  · rename_i hnone
    refine .of_error ?_
    rw [hnone]
  · rename_i f hf
    refine .of_ok (a := f.signature) (by rw [hf]) ?_
    dsimp only
    split
    · exact .of_error rfl
    · exact .of_ok rfl (.check fun _ _ => rfl)

theorem performs_stackAlloc (t : Ty) :
    Performs (InPlace.stackAlloc t) b (stackAlloc t b) := .check fun _ _ => rfl

theorem performs_load (pointer : Reg) (t : Ty) :
    Performs (InPlace.load pointer t) b (load pointer t b) :=
  .check fun _ _ => .check fun _ _ => rfl

theorem performs_store (pointer source : Reg) :
    Performs (InPlace.store pointer source) b (store pointer source b) :=
  .check fun _ _ => .check fun _ _ => .check fun _ _ => rfl

theorem performs_branch (target : BlockId) :
    Performs (InPlace.branch target) b (branch target b) := .check fun _ _ => rfl

theorem performs_condBranch (test : Reg) (thenBlock elseBlock : BlockId) :
    Performs (InPlace.condBranch test thenBlock elseBlock) b
      (condBranch test thenBlock elseBlock b) :=
  .check fun _ _ => .check fun _ _ => rfl

theorem performs_ret (value : Reg) : Performs (InPlace.ret value) b (ret value b) := by
  refine .check fun block _ => .check fun found _ => ?_
  dsimp only
  split
  · rename_i hcompatible
    exact .of_ok (if_pos hcompatible) rfl
  · rename_i hmismatch
    exact .of_error (if_neg hmismatch)

/-- Every step on a body checks all that it checks before it changes anything. -/
theorem performs_step (step : Builder.Step) : Performs step.inPlace b (step.perform b) := by
  have hreply : ∀ {α : Type} {x : InPlace Builder α} {y : Build α} (g : α → Reply),
      Performs x b (y b) → Performs (g <$> x) b ((g <$> y) b) := by
    intro α x y g h
    have hmap : (g <$> y) b = (y b).map fun (a, b') => (g a, b') := by
      show (y b >>= _) = _
      cases y b <;> rfl
    rw [hmap]
    exact h.map g
  cases step with
  | openBlock => exact hreply _ (performs_openBlock b)
  | switchTo block => exact hreply _ (performs_switchTo b block)
  | readArg index => exact hreply _ (performs_readArg b index)
  | literal value => exact hreply _ (performs_literal b value)
  | unary op operand => exact hreply _ (performs_unary b op operand)
  | binary op lhs rhs => exact hreply _ (performs_binary b op lhs rhs)
  | call callee args => exact hreply _ (performs_call b callee args)
  | stackAlloc t => exact hreply _ (performs_stackAlloc b t)
  | load pointer t => exact hreply _ (performs_load b pointer t)
  | store pointer source => exact hreply _ (performs_store b pointer source)
  | branch target => exact hreply _ (performs_branch b target)
  | condBranch test thenBlock elseBlock =>
    exact hreply _ (performs_condBranch b test thenBlock elseBlock)
  | ret value => exact hreply _ (performs_ret b value)

end Builder

/-! ## 2. Modules in place -/

theorem Module.defineStruct_eq_ok {m m' : Module} {size align : UInt32} {t : Ty}
    (h : m.defineStruct size align = .ok (t, m')) :
    m' = { m with types := ⟨m.types.defined.push t⟩ } := by
  unfold defineStruct Registry.define at h
  split at h
  · cases h
  · rename_i t' types htypes
    cases h
    split at htypes
    · cases htypes
    · split at htypes
      · cases htypes
      · split at htypes <;> cases htypes
        rfl

/-- A builder that has done nothing leaves the module as it was. -/
theorem Module.close_builder {m : Module} {f : FuncId} {b : Builder} (h : m.builder f = .ok b) :
    b.close = m := by
  obtain ⟨d, hd, rfl⟩ := builder_eq_ok h
  have hset : m.functions.setIfInBounds f.index (.defined d) = m.functions := by
    apply Array.ext_getElem?
    intro i
    rw [Array.getElem?_setIfInBounds]
    split
    · rename_i hi
      rw [← hi]
      have hd' : m.functions[f.index]? = some (.defined d) := hd
      rw [hd', if_pos (Array.getElem?_eq_some_iff.mp hd').1]
    · rfl
  show { m with functions := _ } = m
  rw [hset]

theorem Draft.ofBuilder_of_builder? {d : Draft} {b : Builder} (h : d.builder? = some b) :
    ofBuilder b = d := by
  unfold builder? at h
  split at h
  · cases h
  · rename_i f current hselected
    split at h
    · cases h
    · rename_i b₀ hb₀
      cases h
      obtain ⟨body, -, rfl⟩ := Module.builder_eq_ok hb₀
      have hclose := Module.close_builder hb₀
      obtain ⟨m, selected⟩ := d
      cases hselected
      exact congrArg (Draft.mk · _) hclose

/-- A step adds to the names that can be looked up the one that it declares. -/
theorem Draft.Regular.lookup?_perform {d d' : Draft} (h : d.Regular) {step : Draft.Step}
    {reply : Reply} (hp : step.perform d = .ok (reply, d')) (name : String) (f : FuncId) :
    d'.module.lookup? name = some f ↔
      d.module.lookup? name = some f ∨ step.declared? (.ok reply) = some (name, f) := by
  rw [(h.perform hp).names.lookup?_eq_some, h.names.lookup?_eq_some, h.sig?_perform hp]

namespace Workbench

open InPlace

variable {s : Workbench}

theorem performs_insert (s : Workbench) (f : Function) : Performs (insert f) s
    (if (s.symbols.lookup f.name).isSome then .error (.duplicateSymbol f.name)
      else .ok (⟨s.functions.size⟩, addSymbol f.name ⟨s.functions.size⟩ (addFunction f s))) := by
  split
  · rename_i htaken
    exact .of_error (if_pos htaken)
  · rename_i hfree
    exact .of_ok (if_neg hfree) rfl

theorem performs_defineStruct (hnext : s.nextId = s.types.size + 1) (size align : UInt32) :
    Performs (defineStruct size align) s ((s.draft.module.defineStruct size align).map
      fun (t, _) => (t, addType t (countType s))) := by
  unfold Module.defineStruct Registry.define
  cases hlog : Registry.log2? align with
  | none => exact .of_error (by rw [hlog])
  | some k =>
    refine .of_ok (a := k) (by rw [hlog]) ?_
    dsimp only
    by_cases hmultiple : size % align ≠ 0
    · simp only [if_pos hmultiple]
      exact .of_error rfl
    · simp only [if_neg hmultiple]
      refine .of_ok rfl ?_
      by_cases hlarge : size > maxStructSize
      · simp only [if_pos hlarge]
        exact .of_error rfl
      · simp only [if_neg hlarge]
        refine .of_ok rfl ?_
        -- The number that the registry gives is the one that was counted.
        have hid : Registry.nextId s.draft.module.types = s.nextId := hnext.symm
        dsimp only [Except.map]
        rw [hid]
        rfl

theorem performs_openBuilder (s : Workbench) (f : FuncId) : Performs (openBuilder f) s
    ((s.draft.module.builder f).map fun b => ((), select b.id b.current s)) := by
  have hfn : s.draft.module.function? f = s.functions[f.index]? := rfl
  unfold Module.builder
  rw [hfn]
  cases hf : s.functions[f.index]? with
  | none => exact .of_error (by rw [hf])
  | some fn =>
    cases fn with
    | external e => exact .of_error (by rw [hf])
    | defined d =>
      refine .of_ok (a := d) (by rw [hf]) ?_
      by_cases hempty : d.blocks.size = 0
      · have hnone : d.blocks.isEmpty = true := by simpa [Array.isEmpty] using hempty
        simp only [Except.map, hnone, hempty, Nat.lt_irrefl, if_true, if_false]
        rfl
      · have hsome : d.blocks.isEmpty = false := by simpa [Array.isEmpty] using hempty
        simp only [Except.map, hsome, Nat.pos_of_ne_zero hempty, if_true]
        rfl

theorem performs_onBody {α : Type} {b : Builder} (hb : s.draft.builder? = some b)
    {x : InPlace Builder α} {r : Except BuildError (α × Builder)} (h : Performs x b r) :
    Performs (onBody x) s (r.map fun (a, b') => (a, s.putBack b')) := by
  have hbody : onBody x s = ((x b).1, s.putBack (x b).2) := by
    rw [onBody, hb]
    rfl
  cases r with
  | error e =>
    have hx : x b = (.error e, b) := h
    have hsame : s.putBack b = s := by
      have hdraft := Draft.ofBuilder_of_builder? hb
      have hmodule : b.close = ⟨s.functions, ⟨s.types⟩⟩ := congrArg Draft.module hdraft
      have hselected : some (b.id, b.current) = s.selected := congrArg Draft.selected hdraft
      rw [putBack, hmodule, hselected]
    show onBody x s = _
    rw [hbody, hx, hsame]
  | ok y =>
    obtain ⟨a, b'⟩ := y
    have hx : x b = (.ok a, b') := h
    show onBody x s = _
    rw [hbody, hx]

/-- The tables of the module say what its functions and its aggregates say, and the module is one
that steps construct. -/
structure Consistent (s : Workbench) : Prop where
  symbols : ∀ name f, s.symbols.lookup name = some f ↔ s.draft.module.lookup? name = some f
  nextId : s.nextId = s.types.size + 1
  regular : s.draft.Regular

theorem consistent_empty : empty.Consistent := by
  refine ⟨?_, rfl, Draft.regular_empty⟩
  intro name f
  have hlookup : empty.draft.module.lookup? name = none := by
    simp [Module.lookup?, draft, empty]
  rw [hlookup]
  exact Iff.rfl

/-- The tables stay right when a step declares what the tables are told. -/
theorem Consistent.of_perform {s' : Workbench} (h : s.Consistent) {step : Draft.Step}
    {reply : Reply} (hp : step.perform s.draft = .ok (reply, s'.draft))
    (hsymbols : ∀ name f, s'.symbols.lookup name = some f ↔
      s.symbols.lookup name = some f ∨ step.declared? (.ok reply) = some (name, f))
    (hnext : s'.nextId = s'.types.size + 1) : s'.Consistent := by
  refine ⟨?_, hnext, h.regular.perform hp⟩
  intro name f
  rw [hsymbols, h.symbols, h.regular.lookup?_perform hp]

/-- What a step in place does to a module with right tables: what the step by value says, or
nothing. -/
def Agrees (step : Draft.Step) (s : Workbench) : Prop :=
  match step.perform s.draft with
  | .ok (reply, d) => ∃ s', step.inPlace s = (.ok reply, s') ∧ s'.draft = d ∧ s'.Consistent
  | .error e => step.inPlace s = (.error e, s)

theorem Consistent.agrees_of_performs (h : s.Consistent) {step : Draft.Step}
    {r : Except BuildError (Reply × Workbench)} (hplace : Performs step.inPlace s r)
    (hvalue : step.perform s.draft = r.map fun (reply, s') => (reply, s'.draft))
    (htables : ∀ reply s', r = .ok (reply, s') → s'.nextId = s'.types.size + 1 ∧
      ∀ name f, s'.symbols.lookup name = some f ↔
        s.symbols.lookup name = some f ∨ step.declared? (.ok reply) = some (name, f)) :
    s.Agrees step := by
  unfold Agrees
  rw [hvalue]
  cases r with
  | error e => exact hplace
  | ok x =>
    obtain ⟨reply, s'⟩ := x
    obtain ⟨hnext, hsymbols⟩ := htables reply s' rfl
    exact ⟨s', hplace, rfl, h.of_perform hvalue hsymbols hnext⟩

theorem Consistent.agrees_insert (h : s.Consistent) {step : Draft.Step} {f : Function}
    (hvalue : ∀ d : Draft, step.perform d = (d.module.declareFunction f).map
      fun (id, m) => (.function id, { d with module := m }))
    (hplace : step.inPlace = .function <$> insert f)
    (hdeclared : ∀ id, step.declared? (.ok (.function id)) = some (f.name, id)) :
    s.Agrees step := by
  have htable : s.symbols.lookup f.name = s.draft.module.lookup? f.name :=
    Option.ext fun id => h.symbols f.name id
  have hinsert := (performs_insert s f).map Reply.function
  rw [← hplace] at hinsert
  refine h.agrees_of_performs hinsert ?_ ?_
  · rw [hvalue, Module.declareFunction, htable]
    split <;> rfl
  · intro reply s' hr
    split at hr
    · cases hr
    · rename_i hfree
      cases hr
      refine ⟨h.nextId, ?_⟩
      intro name g
      have hnone := Option.not_isSome_iff_eq_none.mp hfree
      show ((f.name, (⟨s.functions.size⟩ : FuncId)) :: s.symbols).lookup name = some g ↔ _
      rw [hdeclared, List.lookup_cons]
      by_cases hname : name = f.name
      · simp [hname, hnone]
      · have hbeq : (name == f.name) = false := by simpa using hname
        simp [hbeq, Ne.symm hname]

theorem Consistent.agrees (h : s.Consistent) (step : Draft.Step) : s.Agrees step := by
  cases step with
  | defineStruct size align =>
    refine h.agrees_of_performs ((performs_defineStruct h.nextId size align).map Reply.type) ?_ ?_
    · show (s.draft.module.defineStruct size align).map _ = _
      cases hm : s.draft.module.defineStruct size align with
      | error e => rfl
      | ok x =>
        obtain ⟨t, m⟩ := x
        rw [Module.defineStruct_eq_ok hm]
        rfl
    · intro reply s' hr
      cases hm : s.draft.module.defineStruct size align with
      | error e =>
        rw [hm] at hr
        cases hr
      | ok x =>
        rw [hm] at hr
        cases hr
        refine ⟨?_, fun name g => by simp [Draft.Step.declared?, addType, countType]⟩
        show s.nextId + 1 = (s.types.push x.1).size + 1
        rw [Array.size_push, h.nextId]
  | declare signature => exact h.agrees_insert (fun _ => rfl) rfl fun _ => rfl
  | declareExternal signature symbol => exact h.agrees_insert (fun _ => rfl) rfl fun _ => rfl
  | select f =>
    refine h.agrees_of_performs ((performs_openBuilder s f).map fun _ => Reply.done) ?_ ?_
    · show (s.draft.module.builder f).map _ = _
      cases hb : s.draft.module.builder f with
      | error e => rfl
      | ok b => 
        show Except.ok (_, Draft.ofBuilder b) = _
        rw [Draft.ofBuilder, Module.close_builder hb]
        rfl
    · intro reply s' hr
      cases hb : s.draft.module.builder f with
      | error e =>
        rw [hb] at hr
        cases hr
      | ok b =>
        rw [hb] at hr
        cases hr
        exact ⟨h.nextId, fun name g => by simp [Draft.Step.declared?, select]⟩
  | body step =>
    cases hb : s.draft.builder? with
    | none =>
      have hrefused : Performs (onBody step.inPlace) s (.error .noFunctionSelected) := by
        show onBody step.inPlace s = _
        rw [onBody, hb]
      refine h.agrees_of_performs hrefused ?_ fun reply s' hr => by cases hr
      rw [Draft.Step.perform, hb]
      rfl
    | some b =>
      refine h.agrees_of_performs (performs_onBody hb (b.performs_step step)) ?_ ?_
      · rw [Draft.Step.perform, hb]
        dsimp only
        cases hp : step.perform b with
        | error e => rfl
        | ok x =>
          -- A step on a body keeps the aggregates.
          obtain ⟨-, hregular, hmodule⟩ := h.regular.builder? hb
          obtain ⟨-, hmodule', -⟩ := hregular.grows (Builder.grows_of_perform hp)
          have htypes : x.2.close.types = ⟨s.types⟩ := by
            show x.2.module.types = _
            rw [hmodule', hmodule]
            rfl
          show Except.ok (x.1, Draft.ofBuilder x.2) = .ok (x.1, (s.putBack x.2).draft)
          rw [Draft.ofBuilder, draft, putBack, ← htypes]
      · intro reply s' hr
        cases hp : step.perform b with
        | error e =>
          rw [hp] at hr
          cases hr
        | ok x =>
          rw [hp] at hr
          cases hr
          exact ⟨h.nextId, fun name g => by simp [Draft.Step.declared?, putBack]⟩

/-! ## 3. Scripts in place -/

/-- A step that fails leaves the module where it stands as it was. -/
theorem Consistent.inPlace_of_error (h : s.Consistent) {step : Draft.Step} {e : BuildError}
    (he : (step.inPlace s).1 = .error e) : step.inPlace s = (.error e, s) := by
  have hagrees := h.agrees step
  unfold Agrees at hagrees
  split at hagrees
  · obtain ⟨s', hs', -⟩ := hagrees
    rw [hs'] at he
    cases he
  · rw [hagrees] at he ⊢
    cases he
    rfl

theorem Consistent.inPlace (h : s.Consistent) (step : Draft.Step) :
    (step.inPlace s).2.Consistent := by
  have hagrees := h.agrees step
  unfold Agrees at hagrees
  split at hagrees
  · obtain ⟨s', hs', -, hconsistent⟩ := hagrees
    rw [hs']
    exact hconsistent
  · rw [hagrees]
    exact h

theorem run_cons (s : Workbench) (step : Draft.Step) (steps : List Draft.Step) :
    s.run (step :: steps) = ((step.inPlace s).1 :: ((step.inPlace s).2.run steps).1,
      ((step.inPlace s).2.run steps).2) := rfl

/-- The steps of a script that succeed, given the answers to all of them. -/
def accepted (script : List Draft.Step) (replies : List (Except BuildError Reply)) :
    List Draft.Step :=
  ((script.zip replies).filter (·.2.isOk)).map (·.1)

/-- Without the steps that fail a script gets the same answers to the others, and the same module. -/
theorem Consistent.run_accepted (h : s.Consistent) (script : List Draft.Step) :
    s.run (accepted script (s.run script).1) =
      ((s.run script).1.filter (·.isOk), (s.run script).2) := by
  induction script generalizing s with
  | nil => rfl
  | cons step steps ih =>
    have hrest := ih (h.inPlace step)
    rw [run_cons]
    cases hreply : (step.inPlace s).1 with
    | error e =>
      -- The rest of the script finds the same module with the step and without it.
      have hsame : (step.inPlace s).2 = s := by rw [h.inPlace_of_error hreply]
      rw [hsame] at hrest ⊢
      exact hrest
    | ok reply =>
      show s.run (step :: accepted steps _) = (.ok reply :: _, _)
      rw [run_cons, hrest, hreply]

/-- In place and by value a script gets the same answers and constructs the same draft. -/
theorem Consistent.run (h : s.Consistent) (script : List Draft.Step) :
    (s.run script).2.Consistent ∧ (s.run script).1 = (s.draft.run script).1 ∧
      (s.run script).2.draft = (s.draft.run script).2 := by
  induction script generalizing s with
  | nil => exact ⟨h, rfl, rfl⟩
  | cons step steps ih =>
    have hagrees := h.agrees step
    unfold Agrees at hagrees
    rw [run_cons, Draft.run]
    cases hp : step.perform s.draft with
    | error e =>
      rw [hp] at hagrees
      obtain ⟨hconsistent, hreplies, hdraft⟩ := ih h
      rw [hagrees]
      exact ⟨hconsistent, congrArg _ hreplies, hdraft⟩
    | ok x =>
      obtain ⟨reply, d⟩ := x
      rw [hp] at hagrees
      obtain ⟨s', hs', rfl, hs⟩ := hagrees
      obtain ⟨hconsistent, hreplies, hdraft⟩ := ih hs
      rw [hs']
      exact ⟨hconsistent, congrArg _ hreplies, hdraft⟩

/-- Construction works in place, but a step that fails leaves no trace: without the steps of a script
that fail, every other step gets the answer that it got, and the functions, the symbol table, the
aggregates with their next number, and the open builder are in the end the same.  What is done in
place is what the scripts of drafts say, and the tables are right. -/
theorem refused_steps_leave_no_trace (script : List Draft.Step) :
    let (replies, s) := empty.run script
    empty.run (accepted script replies) = (replies.filter (·.isOk), s) ∧
      Draft.empty.run script = (replies, s.draft) ∧
      (∀ name, s.symbols.lookup name = s.draft.module.lookup? name) ∧
      s.nextId = s.draft.module.types.nextId := by
  obtain ⟨hconsistent, hreplies, hdraft⟩ := consistent_empty.run script
  refine ⟨consistent_empty.run_accepted script, ?_, ?_, hconsistent.nextId⟩
  · exact Prod.ext hreplies.symm hdraft.symm
  · exact fun name => Option.ext (hconsistent.symbols name)

end Workbench

end RegIR
