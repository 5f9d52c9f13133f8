import RegIR.Module.Script
import RegIR.Proofs.Checked
import RegIR.Proofs.Typing
/-!
# Construction keeps bodies well-typed

Every step of a script checks its operands before it appends.  So whatever the steps are and in
whatever order they come, each body of the module is well-typed and the registry numbers its
aggregates in order.
-/

namespace RegIR

/-! ## 1. Places of a growing body -/

namespace Definition

theorem OpAt.of_push {d : Definition} {block pos : Nat} {op : Operation}
    (h : ({ d with blocks := d.blocks.push #[] } : Definition).OpAt block pos op) :
    d.OpAt block pos op := by
  obtain ⟨b, hb, hop⟩ := h
  rw [Array.getElem?_push] at hb
  split at hb
  · cases hb
    cases hop
  · exact ⟨b, hb, hop⟩

theorem OpAt.of_modify {d : Definition} {i : Nat} {new : Operation} {block pos : Nat}
    {op : Operation}
    (h : ({ d with blocks := d.blocks.modify i (·.push new) } : Definition).OpAt block pos op) :
    d.OpAt block pos op ∨ op = new := by
  obtain ⟨b, hb, hop⟩ := h
  rw [Array.getElem?_modify] at hb
  split at hb
  · obtain ⟨old, hold, rfl⟩ := Option.map_eq_some_iff.mp hb
    rw [Array.getElem?_push] at hop
    split at hop
    · exact Or.inr (Option.some.inj hop).symm
    · exact Or.inl ⟨old, hold, hop⟩
  · exact Or.inl ⟨b, hb, hop⟩

theorem extends_pushReg (d : Definition) (t : Ty) (blocks : Array Block) :
    d.Extends { d with regTypes := d.regTypes.push t, blocks } := by
  refine ⟨rfl, ?_, id⟩
  intro r u hr
  have hlt := (Array.getElem?_eq_some_iff.mp hr).1
  rw [regType?, Array.getElem?_push, if_neg (by omega)]
  exact hr

theorem extends_pushSlot (d : Definition) (t : Ty) :
    d.Extends { d with slotTypes := d.slotTypes.push t } := by
  refine ⟨rfl, id, ?_⟩
  intro i u hi
  have hlt := (Array.getElem?_eq_some_iff.mp hi).1
  rw [Array.getElem?_push, if_neg (by omega)]
  exact hi

theorem regType?_pushReg (d : Definition) (t : Ty) (blocks : Array Block) :
    ({ d with regTypes := d.regTypes.push t, blocks } : Definition).regType? ⟨d.regTypes.size⟩ =
      some t :=
  Array.getElem?_push_size

end Definition

/-! ## 2. Builders -/

namespace Builder

/-- The body fits the module that it was taken out of. -/
structure WellTyped (b : Builder) : Prop where
  module : b.module.Sound
  owner : ∃ d, b.module.function? b.id = some (.defined d) ∧ b.body.signature = d.signature
  body : b.body.WellTyped b.module.sig?

variable {b b' : Builder}

theorem WellTyped.append (h : b.WellTyped) {block : BlockId} {op : Operation}
    (hop : op.WellTyped b.module.sig? b.body) : (b.append block op).WellTyped := by
  refine ⟨h.module, h.owner, ?_⟩
  intro i pos op' hat
  -- Older operations see an extended body; the new one was checked in it.
  have hext : b.body.Extends (b.append block op).body := ⟨rfl, fun h => h, fun h => h⟩
  rcases Definition.OpAt.of_modify hat with hold | rfl
  · exact (h.body _ _ _ hold).mono (fun h => h) hext
  · exact hop.mono (fun h => h) hext

theorem WellTyped.appendValue (h : b.WellTyped) {block : BlockId} {t : Ty} {op : Reg → Operation}
    {r : Reg} (hb : b.appendValue block t op = (r, b'))
    (hop : ∀ d : Definition, b.body.Extends d → d.regType? ⟨b.body.regTypes.size⟩ = some t →
      (op ⟨b.body.regTypes.size⟩).WellTyped b.module.sig? d) : b'.WellTyped := by
  cases hb
  refine ⟨h.module, h.owner, ?_⟩
  intro i pos op' hat
  have hext := b.body.extends_pushReg t
    (b.body.blocks.modify block.index (·.push (op ⟨b.body.regTypes.size⟩)))
  rcases Definition.OpAt.of_modify hat with hold | rfl
  · exact (h.body _ _ _ hold).mono (fun h => h) hext
  · exact hop _ hext (b.body.regType?_pushReg t _)

theorem hasKind_of_expectType {r : Reg} {t : Ty} {u : Unit} (h : b.expectType r t = .ok u) :
    b.body.HasKind r t.kind := by
  obtain ⟨found, htype, h⟩ := Except.bind_eq_ok.mp h
  split at h
  · rename_i hcompat
    unfold typeOf at htype
    split at htype
    · cases htype
    · rename_i hr
      cases htype
      exact ⟨found, hr, Ty.compatible_iff.mp hcompat⟩
  · cases h

theorem regType?_of_typeOf {r : Reg} {t : Ty} (h : b.typeOf r = .ok t) :
    b.body.regType? r = some t := by
  unfold typeOf at h
  split at h
  · cases h
  · rename_i hr
    cases h
    exact hr

theorem forall₂_of_checkArgs {callee : String} {position : Nat} {args : List Reg}
    {types : List Ty} {u : Unit} (hlen : args.length = types.length)
    (h : b.checkArgs callee position args types = .ok u) :
    List.Forall₂ (fun r t => b.body.HasKind r t.kind) args types := by
  -- The check walks both lists at once; their lengths were compared before.
  induction args generalizing types position with
  | nil =>
    cases types with
    | nil => exact .nil
    | cons t ts => cases hlen
  | cons r rs ih =>
    cases types with
    | nil => cases hlen
    | cons t ts =>
      rw [checkArgs] at h
      obtain ⟨found, htype, h⟩ := Except.bind_eq_ok.mp h
      split at h
      · rename_i hcompat
        exact .cons ⟨found, regType?_of_typeOf htype, Ty.compatible_iff.mp hcompat⟩
          (ih (Nat.succ.inj hlen) h)
      · cases h

/-- A step answers through a function of its value. -/
theorem map_eq_ok {α β : Type} {x : Build α} {f : α → β} {y : β} :
    (f <$> x) b = .ok (y, b') ↔ ∃ a, x b = .ok (a, b') ∧ f a = y := by
  change (x b >>= fun p => pure (f p.1, p.2)) = .ok (y, b') ↔ _
  rw [Except.bind_eq_ok]
  constructor
  · rintro ⟨⟨a, b₁⟩, hx, hp⟩
    cases hp
    exact ⟨a, hx, rfl⟩
  · rintro ⟨a, hx, rfl⟩
    exact ⟨(a, b'), hx, rfl⟩

/-- A step keeps the body well-typed, or it is refused. -/
theorem WellTyped.perform (h : b.WellTyped) {step : Builder.Step} {reply : Reply}
    (hp : step.perform b = .ok (reply, b')) : b'.WellTyped := by
  -- In each case the checks that passed are what the appended operation needs to be well-typed.
  cases step with
  | openBlock =>
    obtain ⟨_, hp, -⟩ := map_eq_ok.mp hp
    cases hp
    exact ⟨h.module, h.owner, fun _ _ _ hat => h.body _ _ _ hat.of_push⟩
  | switchTo block =>
    obtain ⟨_, hp, -⟩ := map_eq_ok.mp hp
    unfold switchTo at hp
    split at hp
    · cases hp
      exact ⟨h.module, h.owner, h.body⟩
    · cases hp
  | readArg index =>
    obtain ⟨_, hp, -⟩ := map_eq_ok.mp hp
    obtain ⟨block, -, hp⟩ := Except.bind_eq_ok.mp hp
    split at hp
    · cases hp
    · rename_i t harg
      refine h.appendValue (Except.ok.inj hp) fun d hd ht => ⟨t, ?_, ht⟩
      rw [hd.signature]
      exact harg
  | literal value =>
    obtain ⟨_, hp, -⟩ := map_eq_ok.mp hp
    obtain ⟨block, -, hp⟩ := Except.bind_eq_ok.mp hp
    exact h.appendValue (Except.ok.inj hp) fun d hd ht => ht
  | unary op operand =>
    obtain ⟨_, hp, -⟩ := map_eq_ok.mp hp
    obtain ⟨block, -, hp⟩ := Except.bind_eq_ok.mp hp
    obtain ⟨_, hx, hp⟩ := Except.bind_eq_ok.mp hp
    exact h.appendValue (Except.ok.inj hp) fun d hd ht =>
      ⟨ht, hd.hasKind (hasKind_of_expectType hx)⟩
  | binary op lhs rhs =>
    obtain ⟨_, hp, -⟩ := map_eq_ok.mp hp
    obtain ⟨block, -, hp⟩ := Except.bind_eq_ok.mp hp
    obtain ⟨_, hl, hp⟩ := Except.bind_eq_ok.mp hp
    obtain ⟨_, hr, hp⟩ := Except.bind_eq_ok.mp hp
    exact h.appendValue (Except.ok.inj hp) fun d hd ht =>
      ⟨ht, hd.hasKind (hasKind_of_expectType hl), hd.hasKind (hasKind_of_expectType hr)⟩
  | call callee args =>
    obtain ⟨_, hp, -⟩ := map_eq_ok.mp hp
    obtain ⟨block, -, hp⟩ := Except.bind_eq_ok.mp hp
    split at hp
    · cases hp
    · rename_i f hf
      dsimp only at hp
      split at hp
      · cases hp
      · rename_i hlen
        obtain ⟨_, hargs, hp⟩ := Except.bind_eq_ok.mp hp
        have hsig : b.module.sig? callee = some f.signature := by rw [Module.sig?, hf]; rfl
        have hkinds := forall₂_of_checkArgs (Decidable.not_not.mp hlen) hargs
        exact h.appendValue (Except.ok.inj hp) fun d hd ht =>
          ⟨f.signature, hsig, ht, hkinds.imp fun _ _ hr => hd.hasKind hr⟩
  | stackAlloc t =>
    obtain ⟨_, hp, -⟩ := map_eq_ok.mp hp
    obtain ⟨block, -, hp⟩ := Except.bind_eq_ok.mp hp
    -- The slot is there before the operation that takes its address.
    let b₁ : Builder := { b with body := { b.body with slotTypes := b.body.slotTypes.push t } }
    have h₁ : b₁.WellTyped := by
      refine ⟨h.module, h.owner, ?_⟩
      intro i pos op hat
      exact (h.body _ _ _ hat).mono (fun h => h) (b.body.extends_pushSlot t)
    refine h₁.appendValue (Except.ok.inj hp) fun d hd ht => ⟨ht, t, hd.slotType ?_⟩
    exact Array.getElem?_push_size
  | load pointer t =>
    obtain ⟨_, hp, -⟩ := map_eq_ok.mp hp
    obtain ⟨block, -, hp⟩ := Except.bind_eq_ok.mp hp
    obtain ⟨_, hx, hp⟩ := Except.bind_eq_ok.mp hp
    exact h.appendValue (Except.ok.inj hp) fun d hd ht =>
      ⟨⟨t, ht⟩, hd.hasKind (hasKind_of_expectType hx)⟩
  | store pointer source =>
    obtain ⟨_, hp, -⟩ := map_eq_ok.mp hp
    obtain ⟨block, -, hp⟩ := Except.bind_eq_ok.mp hp
    obtain ⟨_, hx, hp⟩ := Except.bind_eq_ok.mp hp
    obtain ⟨t, ht, hp⟩ := Except.bind_eq_ok.mp hp
    cases hp
    exact h.append ⟨hasKind_of_expectType hx, t, regType?_of_typeOf ht⟩
  | branch target =>
    obtain ⟨_, hp, -⟩ := map_eq_ok.mp hp
    obtain ⟨block, -, hp⟩ := Except.bind_eq_ok.mp hp
    cases hp
    exact h.append trivial
  | condBranch test thenBlock elseBlock =>
    obtain ⟨_, hp, -⟩ := map_eq_ok.mp hp
    obtain ⟨block, -, hp⟩ := Except.bind_eq_ok.mp hp
    obtain ⟨_, hx, hp⟩ := Except.bind_eq_ok.mp hp
    cases hp
    exact h.append (hasKind_of_expectType hx)
  | ret value =>
    obtain ⟨_, hp, -⟩ := map_eq_ok.mp hp
    obtain ⟨block, -, hp⟩ := Except.bind_eq_ok.mp hp
    obtain ⟨t, ht, hp⟩ := Except.bind_eq_ok.mp hp
    dsimp only at hp
    split at hp
    · rename_i hcompat
      cases hp
      exact h.append ⟨t, regType?_of_typeOf ht, Ty.compatible_iff.mp hcompat⟩
    · cases hp

/-! ## 3. Modules -/

theorem WellTyped.of_builder {m : Module} (hm : m.Sound) {f : FuncId}
    (h : m.builder f = .ok b) : b.WellTyped := by
  unfold Module.builder at h
  split at h
  · cases h
  · cases h
  · rename_i d hd
    cases h
    exact ⟨hm, ⟨d, hd, rfl⟩, hm.bodies _ _ hd⟩

/-- Putting the body back changes no signature. -/
theorem WellTyped.sig?_close (h : b.WellTyped) : b.close.sig? = b.module.sig? := by
  obtain ⟨d, hd, hsig⟩ := h.owner
  funext f
  unfold Module.sig? Module.function? close
  rw [Array.getElem?_setIfInBounds]
  -- Only the function that was taken out is replaced, and its signature is the old one.
  split
  · rename_i hid
    rw [← hid]
    unfold Module.function? at hd
    rw [hd, if_pos (Array.getElem?_eq_some_iff.mp hd).1]
    exact congrArg some hsig
  · rfl

theorem WellTyped.sound_close (h : b.WellTyped) : b.close.Sound := by
  refine ⟨?_, h.module.types⟩
  intro f d hd
  rw [h.sig?_close]
  unfold Module.function? close at hd
  rw [Array.getElem?_setIfInBounds] at hd
  split at hd
  · split at hd
    · cases hd
      exact h.body
    · cases hd
  · exact h.module.bodies f d hd

end Builder

namespace Module

theorem sound_empty : Module.empty.Sound := by
  refine ⟨?_, ?_⟩
  · intro f d hd
    cases hd
  · intro i t hi
    cases hi

/-- A declared function has no body yet, and earlier functions keep their numbers. -/
theorem Sound.declareFunction {m m' : Module} (h : m.Sound) {f : Function} {id : FuncId}
    (hf : ∀ d, f = .defined d → d.blocks = #[]) (hd : m.declareFunction f = .ok (id, m')) :
    m'.Sound := by
  unfold Module.declareFunction at hd
  split at hd
  · cases hd
  · cases hd
    have hsig : ∀ {g : FuncId} {s : Signature}, m.sig? g = some s →
        ({ m with functions := m.functions.push f } : Module).sig? g = some s := by
      intro g s hs
      obtain ⟨fn, hfn, rfl⟩ := Option.map_eq_some_iff.mp hs
      have hlt := (Array.getElem?_eq_some_iff.mp hfn).1
      rw [Module.sig?, function?, Array.getElem?_push, if_neg (by omega), ← function?, hfn]
      rfl
    refine ⟨?_, h.types⟩
    intro g d hg
    rw [function?, Array.getElem?_push] at hg
    intro block pos op hat
    split at hg
    · -- The new function: no operation stands anywhere in it.
      obtain ⟨b, hb, -⟩ := hat
      rw [hf d (Option.some.inj hg)] at hb
      cases hb
    · exact (h.bodies g d hg block pos op hat).mono hsig (.refl d)

theorem Sound.defineStruct {m m' : Module} (h : m.Sound) {size align : UInt32} {t : Ty}
    (hd : m.defineStruct size align = .ok (t, m')) : m'.Sound := by
  unfold Module.defineStruct Registry.define at hd
  split at hd
  · cases hd
  · rename_i t types htypes
    cases hd
    refine ⟨h.bodies, ?_⟩
    -- Past the checks of size and alignment the new aggregate goes to the end of the registry.
    split at htypes
    · cases htypes
    · split at htypes
      · cases htypes
      · split at htypes
        · cases htypes
        · cases htypes
          intro i u hu
          rw [Array.getElem?_push] at hu
          split at hu
          · rename_i hi
            cases hu
            rw [hi]
            rfl
          · exact h.types i u hu

end Module

/-! ## 4. Scripts -/

namespace Draft

theorem sound_of_perform {d d' : Draft} (h : d.module.Sound) {step : Draft.Step} {reply : Reply}
    (hp : step.perform d = .ok (reply, d')) : d'.module.Sound := by
  cases step with
  | defineStruct size align =>
    obtain ⟨⟨t, m⟩, hm, hp⟩ := Except.map_eq_ok.mp hp
    cases hp
    exact h.defineStruct hm
  | declare s =>
    obtain ⟨⟨f, m⟩, hm, hp⟩ := Except.map_eq_ok.mp hp
    cases hp
    refine h.declareFunction ?_ hm
    intro d hd
    cases hd
    rfl
  | declareExternal s symbol =>
    obtain ⟨⟨f, m⟩, hm, hp⟩ := Except.map_eq_ok.mp hp
    cases hp
    refine h.declareFunction ?_ hm
    intro d hd
    cases hd
  | select f =>
    obtain ⟨b, hb, hp⟩ := Except.map_eq_ok.mp hp
    cases hp
    exact (Builder.WellTyped.of_builder h hb).sound_close
  | body step =>
    simp only [Draft.Step.perform] at hp
    split at hp
    · cases hp
    · rename_i b hb
      obtain ⟨⟨r, b'⟩, hm, hp⟩ := Except.map_eq_ok.mp hp
      cases hp
      have hwt : b.WellTyped := by
        unfold builder? at hb
        split at hb
        · cases hb
        · split at hb
          · cases hb
          · rename_i b₀ hb₀
            cases hb
            have h₀ := Builder.WellTyped.of_builder h hb₀
            exact ⟨h₀.module, h₀.owner, h₀.body⟩
      exact (hwt.perform hm).sound_close

/-- Whatever the steps of a script, accepted or refused, its module is sound. -/
theorem sound_run {d : Draft} (h : d.module.Sound) (script : List Draft.Step) :
    (d.run script).2.module.Sound := by
  -- A refused step leaves the draft as it was.
  induction script generalizing d with
  | nil => exact h
  | cons step steps ih =>
    rw [run]
    split
    · exact ih h
    · rename_i hp
      exact ih (sound_of_perform h hp)

end Draft

/-- The modules that scripts construct. -/
def Module.Built (m : Module) : Prop :=
  ∃ script : List Draft.Step, (Draft.empty.run script).2.module = m

theorem Module.Built.sound {m : Module} (h : m.Built) : m.Sound := by
  obtain ⟨script, rfl⟩ := h
  exact Draft.sound_run Module.sound_empty script

end RegIR
