import RegIR.Proofs.SingleAssignment
/-!
# Constructed modules

Whatever script of accepted and refused steps constructs a module, its names are those that the
script declared, each found under the number of its function, and its bodies are well-typed and in
single assignment form.
-/

namespace RegIR

/-! ## 1. Names -/

namespace Module

/-- No two functions have one name. -/
def NamesUnique (m : Module) : Prop :=
  ∀ f g s s', m.sig? f = some s → m.sig? g = some s' → s.name = s'.name → f = g

variable {m : Module}

/-- A name finds the function that has it. -/
theorem NamesUnique.lookup?_eq_some (h : m.NamesUnique) {name : String} {f : FuncId} :
    m.lookup? name = some f ↔ ∃ s, m.sig? f = some s ∧ s.name = name := by
  unfold lookup?
  rw [Option.map_eq_some_iff]
  constructor
  · rintro ⟨i, hi, rfl⟩
    obtain ⟨hlt, hname, -⟩ := Array.findIdx?_eq_some_iff_getElem.mp hi
    refine ⟨m.functions[i].signature, ?_, by simpa [Function.name] using hname⟩
    rw [sig?, function?, Array.getElem?_eq_getElem hlt]
    rfl
  · rintro ⟨s, hs, hname⟩
    obtain ⟨fn, hfn, rfl⟩ := Option.map_eq_some_iff.mp hs
    obtain ⟨hlt, hget⟩ := Array.getElem?_eq_some_iff.mp hfn
    refine ⟨f.index, Array.findIdx?_eq_some_iff_getElem.mpr ⟨hlt, ?_, ?_⟩, rfl⟩
    · simpa [hget, Function.name] using hname
    · -- An earlier function of that name would be the same function.
      intro j hj hname'
      have hjlt : j < m.functions.size := Nat.lt_trans hj hlt
      have hj' : m.sig? ⟨j⟩ = some m.functions[j].signature := by
        rw [sig?, function?, Array.getElem?_eq_getElem hjlt]
        rfl
      have hsame := h ⟨j⟩ f _ _ hj' hs (by simpa [Function.name, hname] using hname')
      rw [← hsame] at hj
      exact Nat.lt_irrefl _ hj

theorem lookup?_eq_none {name : String} :
    m.lookup? name = none ↔ ∀ f s, m.sig? f = some s → s.name ≠ name := by
  unfold lookup?
  rw [Option.map_eq_none_iff, Array.findIdx?_eq_none_iff]
  constructor
  · intro h f s hs
    obtain ⟨fn, hfn, rfl⟩ := Option.map_eq_some_iff.mp hs
    simpa [Function.name] using h fn (Array.mem_of_getElem? hfn)
  · intro h fn hfn
    obtain ⟨i, hi⟩ := Array.mem_iff_getElem?.mp hfn
    have hs : m.sig? ⟨i⟩ = some fn.signature := by
      rw [sig?, function?, hi]
      rfl
    simpa [Function.name] using h ⟨i⟩ _ hs

/-- A declaration takes a free name and puts the function behind the others. -/
theorem declareFunction_eq_ok {m' : Module} {fn : Function} {id : FuncId}
    (h : m.declareFunction fn = .ok (id, m')) :
    m.lookup? fn.name = none ∧ id = ⟨m.functions.size⟩ ∧
      ∀ f, m'.function? f = if f = id then some fn else m.function? f := by
  unfold declareFunction at h
  split at h
  · cases h
  · rename_i hfree
    cases h
    refine ⟨by simpa using hfree, rfl, ?_⟩
    intro f
    unfold function?
    rw [Array.getElem?_push]
    by_cases hf : f = ⟨m.functions.size⟩
    · rw [hf, if_pos rfl]
      exact (if_pos rfl).symm
    · rw [if_neg fun heq => hf (congrArg FuncId.mk heq)]
      exact (if_neg hf).symm

theorem sig?_of_declareFunction {m' : Module} {fn : Function} {id : FuncId}
    (h : m.declareFunction fn = .ok (id, m')) (f : FuncId) :
    m'.sig? f = if f = id then some fn.signature else m.sig? f := by
  rw [sig?, (declareFunction_eq_ok h).2.2 f]
  split <;> rfl

theorem NamesUnique.declareFunction {m' : Module} (hm : m.NamesUnique) {fn : Function}
    {id : FuncId} (h : m.declareFunction fn = .ok (id, m')) : m'.NamesUnique := by
  have hfree := lookup?_eq_none.mp (declareFunction_eq_ok h).1
  intro f g s s' hs hs' hname
  rw [sig?_of_declareFunction h] at hs hs'
  split at hs
  · rename_i hf
    split at hs'
    · rename_i hg
      exact hf.trans hg.symm
    · cases hs
      exact absurd hname.symm (hfree g s' hs')
  · split at hs'
    · cases hs'
      exact absurd hname (hfree f s hs)
    · exact hm f g s s' hs hs' hname

theorem builder_eq_ok {f : FuncId} {b : Builder} (h : m.builder f = .ok b) :
    ∃ d, m.function? f = some (.defined d) ∧
      b = ⟨m, f, d, if d.blocks.isEmpty then none else some ⟨d.blocks.size - 1⟩⟩ := by
  unfold builder at h
  split at h
  · cases h
  · cases h
  · rename_i d hd
    cases h
    exact ⟨d, hd, rfl⟩

end Module

theorem Builder.WellTyped.function?_close {b : Builder} (h : b.WellTyped) (f : FuncId) :
    b.close.function? f = if f = b.id then some (.defined b.body) else b.module.function? f := by
  obtain ⟨d, hd, -⟩ := h.owner
  have hlt := (Array.getElem?_eq_some_iff.mp hd).1
  unfold close Module.function?
  rw [Array.getElem?_setIfInBounds]
  by_cases hf : f = b.id
  · rw [if_pos hf, hf, if_pos rfl, if_pos hlt]
  · rw [if_neg hf, if_neg fun heq => hf (congrArg FuncId.mk heq.symm)]

/-! ## 2. Drafts -/

namespace Draft

/-- What every step of a script keeps. -/
structure Regular (d : Draft) : Prop where
  sound : d.module.Sound
  names : d.module.NamesUnique
  bodies : ∀ f body, d.module.function? f = some (.defined body) → body.SingleAssignment
  selected : ∀ f current, d.selected = some (f, current) →
    ∃ body, d.module.function? f = some (.defined body) ∧
      ∀ block, current = some block → block.index < body.blocks.size

theorem regular_empty : Draft.empty.Regular := by
  refine ⟨Module.sound_empty, ?_, ?_, ?_⟩
  · intro f g s s' hs
    cases hs
  · intro f body hbody
    cases hbody
  · intro f current hselected
    cases hselected

/-- Putting a builder back. -/
theorem regular_ofBuilder {b : Builder} (hb : b.WellTyped) (hbody : b.Regular)
    (hnames : b.module.NamesUnique)
    (hbodies : ∀ f body, b.module.function? f = some (.defined body) → body.SingleAssignment) :
    (ofBuilder b).Regular := by
  refine ⟨hb.sound_close, ?_, ?_, ?_⟩
  · intro f g s s' hs hs'
    rw [ofBuilder, hb.sig?_close] at hs hs'
    exact hnames f g s s' hs hs'
  · intro f body hf
    rw [ofBuilder, hb.function?_close] at hf
    split at hf
    · cases hf
      exact hbody.body
    · exact hbodies f body hf
  · intro f current hselected
    cases hselected
    exact ⟨b.body, by rw [ofBuilder, hb.function?_close, if_pos rfl], hbody.current⟩

namespace Regular

variable {d d' : Draft} (h : d.Regular)
include h

theorem declareFunction {fn : Function} {id : FuncId} {m : Module}
    (hfn : ∀ body, fn = .defined body → body = .ofSignature body.signature)
    (hm : d.module.declareFunction fn = .ok (id, m)) : Regular { d with module := m } := by
  obtain ⟨-, hid, hfunction⟩ := Module.declareFunction_eq_ok hm
  refine ⟨?_, h.names.declareFunction hm, ?_, ?_⟩
  · refine h.sound.declareFunction ?_ hm
    intro body hbody
    rw [hfn body hbody]
    rfl
  · intro f body hf
    rw [hfunction] at hf
    split at hf
    · -- The new function has no operations, registers or slots yet.
      rw [hfn body (Option.some.inj hf)]
      exact ⟨Definition.numbers_empty rfl _, Definition.numbers_empty rfl _⟩
    · exact h.bodies f body hf
  · intro f current hselected
    obtain ⟨body, hf, hcurrent⟩ := h.selected f current hselected
    refine ⟨body, ?_, hcurrent⟩
    have hlt := (Array.getElem?_eq_some_iff.mp hf).1
    rw [hfunction, if_neg ?_, hf]
    intro heq
    rw [heq, hid] at hlt
    exact Nat.lt_irrefl _ hlt

theorem defineStruct {size align : UInt32} {t : Ty} {m : Module}
    (hm : d.module.defineStruct size align = .ok (t, m)) : Regular { d with module := m } := by
  have hsound := h.sound.defineStruct hm
  unfold Module.defineStruct at hm
  split at hm
  · cases hm
  · cases hm
    exact ⟨hsound, h.names, h.bodies, h.selected⟩

theorem select {f : FuncId} {b : Builder} (hb : d.module.builder f = .ok b) :
    (ofBuilder b).Regular := by
  have hwell := Builder.WellTyped.of_builder h.sound hb
  obtain ⟨body, hf, rfl⟩ := Module.builder_eq_ok hb
  refine regular_ofBuilder hwell ⟨h.bodies f body hf, ?_⟩ h.names h.bodies
  intro block hblock
  -- Work goes on in the last block, if there is one.
  dsimp only at hblock ⊢
  split at hblock
  · cases hblock
  · rename_i hempty
    cases hblock
    have hne : body.blocks.size ≠ 0 := by simpa using hempty
    dsimp only
    omega

/-- The builder at the selected place. -/
theorem builder? {b : Builder} (hb : d.builder? = some b) :
    b.WellTyped ∧ b.Regular ∧ b.module = d.module := by
  unfold Draft.builder? at hb
  split at hb
  · cases hb
  · rename_i f current hselected
    split at hb
    · cases hb
    · rename_i b₀ hb₀
      cases hb
      have hwell := Builder.WellTyped.of_builder h.sound hb₀
      obtain ⟨body, hf, rfl⟩ := Module.builder_eq_ok hb₀
      obtain ⟨body', hf', hcurrent⟩ := h.selected f current hselected
      rw [hf] at hf'
      cases hf'
      exact ⟨⟨hwell.module, hwell.owner, hwell.body⟩, ⟨h.bodies f body hf, hcurrent⟩, rfl⟩

/-- A step that is not refused keeps the draft regular, and adds the name that it declares. -/
theorem perform {step : Draft.Step} {reply : Reply} (hp : step.perform d = .ok (reply, d')) :
    d'.Regular := by
  cases step with
  | defineStruct size align =>
    obtain ⟨⟨t, m⟩, hm, hp⟩ := Except.map_eq_ok.mp hp
    cases hp
    exact h.defineStruct hm
  | declare s =>
    obtain ⟨⟨f, m⟩, hm, hp⟩ := Except.map_eq_ok.mp hp
    cases hp
    refine h.declareFunction ?_ hm
    intro body hbody
    cases hbody
    rfl
  | declareExternal s symbol =>
    obtain ⟨⟨f, m⟩, hm, hp⟩ := Except.map_eq_ok.mp hp
    cases hp
    refine h.declareFunction ?_ hm
    intro body hbody
    cases hbody
  | select f =>
    obtain ⟨b, hb, hp⟩ := Except.map_eq_ok.mp hp
    cases hp
    exact h.select hb
  | body step =>
    simp only [Draft.Step.perform] at hp
    split at hp
    · cases hp
    · rename_i b hb
      obtain ⟨⟨r, b'⟩, hm, hp⟩ := Except.map_eq_ok.mp hp
      cases hp
      obtain ⟨hwell, hregular, hmodule⟩ := h.builder? hb
      obtain ⟨hregular', hmodule', -⟩ := hregular.grows (Builder.grows_of_perform hm)
      refine regular_ofBuilder (hwell.perform hm) hregular' ?_ ?_
      · rw [hmodule', hmodule]
        exact h.names
      · rw [hmodule', hmodule]
        exact h.bodies

end Regular

/-- The name that a step declares, with the number that it answers. -/
def Step.declared? : Draft.Step → Except BuildError Reply → Option (String × FuncId)
  | .declare s, .ok (.function f) => some (s.name, f)
  | .declareExternal s _, .ok (.function f) => some (s.name, f)
  | _, _ => none

/-- The names that the steps of a script declare, given the answers to the steps. -/
def declarations (script : List Draft.Step) (replies : List (Except BuildError Reply)) :
    List (String × FuncId) :=
  (script.zip replies).filterMap fun (step, reply) => step.declared? reply

theorem Regular.sig?_perform {d d' : Draft} (h : d.Regular) {step : Draft.Step} {reply : Reply}
    (hp : step.perform d = .ok (reply, d')) (name : String) (f : FuncId) :
    (∃ s, d'.module.sig? f = some s ∧ s.name = name) ↔
      (∃ s, d.module.sig? f = some s ∧ s.name = name) ∨
        step.declared? (.ok reply) = some (name, f) := by
  have hdeclare : ∀ {fn : Function} {id : FuncId} {m : Module},
      d.module.declareFunction fn = .ok (id, m) → ((∃ s, m.sig? f = some s ∧ s.name = name) ↔
        (∃ s, d.module.sig? f = some s ∧ s.name = name) ∨
          some (fn.signature.name, id) = some (name, f)) := by
    intro fn id m hm
    obtain ⟨-, hid, -⟩ := Module.declareFunction_eq_ok hm
    rw [Module.sig?_of_declareFunction hm]
    by_cases hf : f = id
    · -- The number is new, so no older function has it.
      have hnone : d.module.sig? id = none := by
        rw [hid, Module.sig?, Module.function?, Array.getElem?_eq_none (Nat.le_refl _)]
        rfl
      simp [hf, hnone]
    · simp [hf, Ne.symm hf]
  cases step with
  | defineStruct size align =>
    obtain ⟨⟨t, m⟩, hm, hp⟩ := Except.map_eq_ok.mp hp
    cases hp
    unfold Module.defineStruct at hm
    split at hm
    · cases hm
    · cases hm
      simp [Step.declared?, Module.sig?, Module.function?]
  | declare s =>
    obtain ⟨⟨g, m⟩, hm, hp⟩ := Except.map_eq_ok.mp hp
    cases hp
    exact hdeclare hm
  | declareExternal s symbol =>
    obtain ⟨⟨g, m⟩, hm, hp⟩ := Except.map_eq_ok.mp hp
    cases hp
    exact hdeclare hm
  | select g =>
    obtain ⟨b, hb, hp⟩ := Except.map_eq_ok.mp hp
    cases hp
    have hwell := Builder.WellTyped.of_builder h.sound hb
    obtain ⟨body, -, rfl⟩ := Module.builder_eq_ok hb
    rw [ofBuilder, hwell.sig?_close]
    simp [Step.declared?]
  | body step =>
    simp only [Draft.Step.perform] at hp
    split at hp
    · cases hp
    · rename_i b hb
      obtain ⟨⟨r, b'⟩, hm, hp⟩ := Except.map_eq_ok.mp hp
      cases hp
      obtain ⟨hwell, hregular, hmodule⟩ := h.builder? hb
      obtain ⟨-, hmodule', -⟩ := hregular.grows (Builder.grows_of_perform hm)
      rw [ofBuilder, (hwell.perform hm).sig?_close, hmodule', hmodule]
      simp [Step.declared?]

/-! ## 3. Scripts -/

/-- Along a script the draft stays regular, and the names grow by those that are declared. -/
theorem Regular.run {d : Draft} (h : d.Regular) (script : List Draft.Step) :
    (d.run script).2.Regular ∧ ∀ name f,
      (∃ s, (d.run script).2.module.sig? f = some s ∧ s.name = name) ↔
        (∃ s, d.module.sig? f = some s ∧ s.name = name) ∨
          (name, f) ∈ declarations script (d.run script).1 := by
  -- A refused step leaves the draft as it was and declares nothing.
  induction script generalizing d with
  | nil => exact ⟨h, fun name f => by simp [Draft.run, declarations]⟩
  | cons step steps ih =>
    rw [Draft.run]
    split
    · rename_i e he
      obtain ⟨hregular, hnames⟩ := ih h
      refine ⟨hregular, fun name f => ?_⟩
      have hnone : step.declared? (.error e) = none := by cases step <;> rfl
      simpa only [declarations, List.zip_cons_cons, List.filterMap_cons, hnone] using hnames name f
    · rename_i reply d₁ hp
      obtain ⟨hregular, hnames⟩ := ih (h.perform hp)
      refine ⟨hregular, fun name f => ?_⟩
      rw [hnames, h.sig?_perform hp]
      simp only [declarations, List.zip_cons_cons, List.filterMap_cons, or_assoc]
      cases hdeclared : step.declared? (.ok reply) with
      | none => simp
      | some p => simp [eq_comm]

end Draft

theorem Module.Built.singleAssignment {m : Module} (h : m.Built) {f : FuncId} {d : Definition}
    (hd : m.function? f = some (.defined d)) : d.SingleAssignment := by
  obtain ⟨script, rfl⟩ := h
  exact (Draft.regular_empty.run script).1.bodies f d hd

/-- The registers that a well-typed operation reads exist. -/
theorem Operation.WellTyped.lt_size_of_mem_uses {sig? : FuncId → Option Signature} {d : Definition}
    {op : Operation} (h : op.WellTyped sig? d) {r : Reg} (hr : r ∈ op.uses) :
    r.index < d.regTypes.size := by
  have hlt : ∀ {r : Reg} {t : Ty}, d.regType? r = some t → r.index < d.regTypes.size :=
    fun ht => (Array.getElem?_eq_some_iff.mp ht).1
  have hkind : ∀ {r : Reg} {k : Kind}, d.HasKind r k → r.index < d.regTypes.size :=
    fun ⟨_, ht, _⟩ => hlt ht
  cases op with
  | readArg target index => cases hr
  | literal target value => cases hr
  | stackAlloc target slot => cases hr
  | branch target => cases hr
  | unary target op x =>
    cases List.mem_singleton.mp hr
    exact hkind h.2
  | binary target op l r' =>
    rcases List.mem_pair.mp hr with rfl | rfl
    · exact hkind h.2.1
    · exact hkind h.2.2
  | load target p =>
    cases List.mem_singleton.mp hr
    exact hkind h.2
  | store p source =>
    rcases List.mem_pair.mp hr with rfl | rfl
    · exact hkind h.1
    · obtain ⟨-, t, ht⟩ := h
      exact hlt ht
  | call target callee args =>
    obtain ⟨s, -, -, hargs⟩ := h
    obtain ⟨i, hi⟩ := List.mem_iff_getElem?.mp hr
    obtain ⟨t, -, hrt⟩ := getElem?_of_forall₂ hargs hi
    exact hkind hrt
  | condBranch test thenBlock elseBlock =>
    cases List.mem_singleton.mp hr
    exact hkind h
  | ret value =>
    cases List.mem_singleton.mp hr
    exact hkind h

/-- After any script, of steps that succeed and steps that are refused, the symbol table has the
declared names, each with the number of the function of that name.  Every register and every slot
of every body has one operation that makes it, and every operation is well-typed. -/
theorem Draft.constructs_single_assignment (script : List Draft.Step) :
    (∀ name f, (Draft.empty.run script).2.module.lookup? name = some f ↔
      (name, f) ∈ declarations script (Draft.empty.run script).1) ∧
    (∀ name f, (Draft.empty.run script).2.module.lookup? name = some f ↔
      ∃ fn, (Draft.empty.run script).2.module.function? f = some fn ∧ fn.name = name) ∧
    ∀ f d, (Draft.empty.run script).2.module.function? f = some (.defined d) →
      d.SingleAssignment ∧ ∀ block pos op, d.OpAt block pos op →
        op.WellTyped (Draft.empty.run script).2.module.sig? d ∧
          ∀ r ∈ op.uses, r.index < d.regTypes.size := by
  obtain ⟨hregular, hnames⟩ := Draft.regular_empty.run script
  refine ⟨?_, ?_, ?_⟩
  · intro name f
    rw [hregular.names.lookup?_eq_some, hnames]
    constructor
    · rintro (⟨s, hs, -⟩ | hdeclared)
      · cases hs
      · exact hdeclared
    · exact Or.inr
  · intro name f
    rw [hregular.names.lookup?_eq_some]
    simp [Module.sig?, Function.name]
  · intro f d hd
    refine ⟨hregular.bodies f d hd, ?_⟩
    intro block pos op hop
    have hwell := hregular.sound.bodies f d hd block pos op hop
    exact ⟨hwell, fun r hr => hwell.lt_size_of_mem_uses hr⟩

/-- A script with refused steps, a reopened function and blocks filled in turn. -/
def Draft.interleaved : List Draft.Step :=
  [.declare ⟨"f", [.int], .int⟩, .declareExternal ⟨"h", [.int], .int⟩ "h",
    .declare ⟨"f", [], .pointer⟩, .select ⟨0⟩, .body (.literal 1), .body .openBlock,
    .body (.readArg 0), .body .openBlock, .body (.stackAlloc .int), .body (.switchTo ⟨0⟩),
    .body (.store ⟨0⟩ ⟨0⟩), .select ⟨1⟩, .select ⟨0⟩, .body (.store ⟨1⟩ ⟨0⟩),
    .body (.call ⟨1⟩ [⟨0⟩]), .body (.ret ⟨2⟩), .body (.switchTo ⟨0⟩), .body (.branch ⟨1⟩)]

/-- What the script makes of its first function. -/
def Draft.interleavedBody : Definition :=
  ⟨⟨"f", [.int], .int⟩,
    #[#[.readArg ⟨0⟩ 0, .branch ⟨1⟩],
      #[.stackAlloc ⟨1⟩ ⟨0⟩, .store ⟨1⟩ ⟨0⟩, .call ⟨2⟩ ⟨1⟩ [⟨0⟩], .ret ⟨2⟩]],
    #[.int, .pointer, .int], #[.int]⟩

theorem Draft.constructs_single_assignment_interleaved :
    (Draft.empty.run Draft.interleaved).2.module.lookup? "h" = some ⟨1⟩ ∧
      (Draft.empty.run Draft.interleaved).2.module.function? ⟨0⟩ =
        some (.defined Draft.interleavedBody) ∧
      Draft.interleavedBody.SingleAssignment ∧
      (Operation.ret ⟨2⟩).WellTyped (Draft.empty.run Draft.interleaved).2.module.sig?
        Draft.interleavedBody := by
  obtain ⟨hdeclared, -, hbodies⟩ := Draft.constructs_single_assignment Draft.interleaved
  have hbody : (Draft.empty.run Draft.interleaved).2.module.function? ⟨0⟩ =
      some (.defined Draft.interleavedBody) := by decide +kernel
  obtain ⟨hsingle, hops⟩ := hbodies ⟨0⟩ Draft.interleavedBody hbody
  refine ⟨(hdeclared "h" ⟨1⟩).mpr ?_, hbody, hsingle, (hops 1 3 _ ⟨_, rfl, rfl⟩).1⟩
  have hlist : declarations Draft.interleaved (Draft.empty.run Draft.interleaved).1 =
      [("f", ⟨0⟩), ("h", ⟨1⟩)] := by decide +kernel
  rw [hlist]
  exact List.mem_cons_of_mem _ List.mem_cons_self

end RegIR
