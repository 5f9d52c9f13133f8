import Mathlib.Logic.ExistsUnique
import RegIR.Proofs.Construction
/-!
# Single assignment

Construction numbers registers and slots densely, and each of them belongs to the one operation
that made it.  The names of a module are distinct, so looking up a declared name finds the number
that the declaration answered with.
-/

namespace RegIR

/-! ## 1. Numbered operations -/

/-- The slot whose address the operation takes. -/
def Operation.slot? : Operation → Option SlotId
  | stackAlloc _ slot => some slot
  | _ => none

namespace Definition

/-- Each number below `n` belongs to an operation at exactly one place, and no operation has
another number. -/
structure Numbers (d : Definition) (number? : Operation → Option Nat) (n : Nat) : Prop where
  unique : ∀ i < n, ∃! place : Nat × Nat, ∃ op, d.OpAt place.1 place.2 op ∧ number? op = some i
  below : ∀ {block pos : Nat} {op : Operation} {i : Nat}, d.OpAt block pos op →
    number? op = some i → i < n

/-- Every register is the target of one operation, and every slot is reserved by one. -/
structure SingleAssignment (d : Definition) : Prop where
  regs : d.Numbers (·.target?.map Reg.index) d.regTypes.size
  slots : d.Numbers (·.slot?.map SlotId.index) d.slotTypes.size

/-- Targets exist, and no register has two of them. -/
structure SinglyDefined (d : Definition) : Prop where
  exists_reg : ∀ {block pos : Nat} {op : Operation} {r : Reg}, d.OpAt block pos op →
    op.target? = some r → r.index < d.regTypes.size
  unique : ∀ {block pos block' pos' : Nat} {op op' : Operation} {r : Reg}, d.OpAt block pos op →
    d.OpAt block' pos' op' → op.target? = some r → op'.target? = some r →
    block = block' ∧ pos = pos'

theorem SingleAssignment.singlyDefined {d : Definition} (h : d.SingleAssignment) :
    d.SinglyDefined := by
  have hlt : ∀ {block pos : Nat} {op : Operation} {r : Reg}, d.OpAt block pos op →
      op.target? = some r → r.index < d.regTypes.size :=
    fun hop hr => h.regs.below hop (by simp only [hr, Option.map_some])
  refine ⟨hlt, ?_⟩
  intro block pos block' pos' op op' r hop hop' hr hr'
  obtain ⟨place, -, honly⟩ := h.regs.unique r.index (hlt hop hr)
  have hplace := honly (block, pos) ⟨op, hop, by simp only [hr, Option.map_some]⟩
  have hplace' := honly (block', pos') ⟨op', hop', by simp only [hr', Option.map_some]⟩
  exact Prod.mk.inj (hplace.trans hplace'.symm)

theorem numbers_empty {d : Definition} (hd : d.blocks = #[]) (number? : Operation → Option Nat) :
    d.Numbers number? 0 := by
  refine ⟨fun i hi => absurd hi (Nat.not_lt_zero i), ?_⟩
  rintro block pos op i ⟨b, hb, -⟩ -
  rw [hd] at hb
  cases hb

/-! ## 2. One operation more -/

/-- `d'` has the operations of `d`, and `new` at a place where `d` has none. -/
def AddsOp (d d' : Definition) (new : Operation) : Prop :=
  ∃ place : Nat × Nat, (∀ op, ¬ d.OpAt place.1 place.2 op) ∧
    ∀ block pos op, d'.OpAt block pos op ↔ d.OpAt block pos op ∨ (block, pos) = place ∧ op = new

theorem addsOp_of_modify {d d' : Definition} {i : Nat} {new : Operation} (hi : i < d.blocks.size)
    (hd' : d'.blocks = d.blocks.modify i (·.push new)) : d.AddsOp d' new := by
  have hblock : d.blocks[i]? = some d.blocks[i] := Array.getElem?_eq_getElem hi
  refine ⟨(i, d.blocks[i].size), ?_, ?_⟩
  · rintro op ⟨b, hb, hop⟩
    rw [hblock] at hb
    cases hb
    rw [Array.getElem?_eq_none (Nat.le_refl _)] at hop
    cases hop
  · intro block pos op
    unfold OpAt
    rw [hd', Array.getElem?_modify]
    by_cases hb : i = block
    · -- In the block itself the new operation stands behind all others.
      subst hb
      rw [if_pos rfl, hblock]
      simp only [Option.map_some, Option.some.injEq, exists_eq_left', Array.getElem?_push,
        Prod.mk.injEq, true_and]
      by_cases hpos : pos = d.blocks[i].size
      · rw [if_pos hpos, hpos, Array.getElem?_eq_none (Nat.le_refl _)]
        simp [eq_comm]
      · rw [if_neg hpos]
        simp [hpos]
    · rw [if_neg hb]
      simp [Ne.symm hb]

namespace Numbers

variable {d d' : Definition} {number? : Operation → Option Nat} {n : Nat}

theorem of_opAt_iff (h : d.Numbers number? n)
    (hd' : ∀ block pos op, d'.OpAt block pos op ↔ d.OpAt block pos op) : d'.Numbers number? n := by
  refine ⟨?_, fun hop hi => h.below ((hd' _ _ _).mp hop) hi⟩
  intro i hi
  simpa only [hd'] using h.unique i hi

/-- An operation without a number changes nothing. -/
theorem skip (h : d.Numbers number? n) {new : Operation} (hadd : d.AddsOp d' new)
    (hnew : number? new = none) : d'.Numbers number? n := by
  obtain ⟨place, -, hat⟩ := hadd
  have hnumbered : ∀ block pos op i, d'.OpAt block pos op ∧ number? op = some i ↔
      d.OpAt block pos op ∧ number? op = some i := by
    intro block pos op i
    rw [hat]
    constructor
    · rintro ⟨hop | ⟨-, rfl⟩, hi⟩
      · exact ⟨hop, hi⟩
      · rw [hnew] at hi
        cases hi
    · exact fun ⟨hop, hi⟩ => ⟨Or.inl hop, hi⟩
  refine ⟨?_, fun hop hi => ?_⟩
  · intro i hi
    simpa only [hnumbered] using h.unique i hi
  · obtain ⟨hop, hi⟩ := (hnumbered _ _ _ _).mp ⟨hop, hi⟩
    exact h.below hop hi

/-- An operation with the next number takes its place behind the others. -/
theorem next (h : d.Numbers number? n) {new : Operation} (hadd : d.AddsOp d' new)
    (hnew : number? new = some n) : d'.Numbers number? (n + 1) := by
  obtain ⟨place, hfree, hat⟩ := hadd
  refine ⟨?_, ?_⟩
  · intro i hi
    by_cases hin : i = n
    · -- Only the new operation has the new number, since the old ones are below it.
      subst hin
      refine ⟨place, ⟨new, (hat _ _ _).mpr (Or.inr ⟨rfl, rfl⟩), hnew⟩, ?_⟩
      rintro q ⟨op, hop, hnum⟩
      rcases (hat _ _ _).mp hop with hold | ⟨hq, -⟩
      · exact absurd (h.below hold hnum) (Nat.lt_irrefl i)
      · exact hq
    · obtain ⟨p, ⟨op, hop, hnum⟩, honly⟩ := h.unique i (by omega)
      refine ⟨p, ⟨op, (hat _ _ _).mpr (Or.inl hop), hnum⟩, ?_⟩
      rintro q ⟨op', hop', hnum'⟩
      rcases (hat _ _ _).mp hop' with hold | ⟨-, rfl⟩
      · exact honly q ⟨op', hold, hnum'⟩
      · rw [hnew] at hnum'
        exact absurd (Option.some.inj hnum').symm hin
  · intro block pos op i hop hi
    rcases (hat _ _ _).mp hop with hold | ⟨-, rfl⟩
    · exact Nat.lt_succ_of_lt (h.below hold hi)
    · rw [hnew] at hi
      cases hi
      exact Nat.lt_succ_self n

end Numbers

end Definition

/-! ## 3. What a step of a builder does -/

namespace Builder

/-- The five ways in which a step changes its builder. -/
inductive Grows (b : Builder) : Builder → Prop
  | opened : Grows b { b with
      body := { b.body with blocks := b.body.blocks.push #[] }
      current := some ⟨b.body.blocks.size⟩ }
  | switched {block : BlockId} (hlt : block.index < b.body.blocks.size) :
      Grows b { b with current := some block }
  | effect {block : BlockId} {op : Operation} (hcurrent : b.current = some block)
      (htarget : op.target? = none) (hslot : op.slot? = none) : Grows b (b.append block op)
  | value {block : BlockId} {t : Ty} {op : Reg → Operation} (hcurrent : b.current = some block)
      (htarget : ∀ r, (op r).target? = some r) (hslot : ∀ r, (op r).slot? = none) :
      Grows b (b.appendValue block t op).2
  | reserve {block : BlockId} {t : Ty} (hcurrent : b.current = some block) :
      Grows b ({ b with body := { b.body with slotTypes := b.body.slotTypes.push t } }.appendValue
        block .pointer (.stackAlloc · ⟨b.body.slotTypes.size⟩)).2

variable {b b' : Builder}

theorem current_of_openedBlock {block : BlockId} (h : b.openedBlock = .ok block) :
    b.current = some block := by
  unfold openedBlock at h
  split at h
  · cases h
  · rename_i hcurrent
    cases h
    exact hcurrent

theorem grows_of_appendValue {block : BlockId} {t : Ty} {op : Reg → Operation} {r : Reg}
    (hopen : b.openedBlock = .ok block) (htarget : ∀ r, (op r).target? = some r)
    (hslot : ∀ r, (op r).slot? = none)
    (h : (.ok (b.appendValue block t op) : Except BuildError (Reg × Builder)) = .ok (r, b')) :
    b.Grows b' := by
  cases h
  exact .value (current_of_openedBlock hopen) htarget hslot

theorem grows_of_perform {step : Builder.Step} {reply : Reply}
    (hp : step.perform b = .ok (reply, b')) : b.Grows b' := by
  -- Past its checks a step appends to the open block; only the first two steps append nothing.
  cases step with
  | openBlock =>
    obtain ⟨_, hp, -⟩ := map_eq_ok.mp hp
    cases hp
    exact .opened
  | switchTo block =>
    obtain ⟨_, hp, -⟩ := map_eq_ok.mp hp
    unfold switchTo at hp
    split at hp
    · rename_i hlt
      cases hp
      exact .switched hlt
    · cases hp
  | readArg index =>
    obtain ⟨_, hp, -⟩ := map_eq_ok.mp hp
    obtain ⟨block, hopen, hp⟩ := Except.bind_eq_ok.mp hp
    split at hp
    · cases hp
    · exact grows_of_appendValue hopen (fun _ => rfl) (fun _ => rfl) hp
  | literal value =>
    obtain ⟨_, hp, -⟩ := map_eq_ok.mp hp
    obtain ⟨block, hopen, hp⟩ := Except.bind_eq_ok.mp hp
    exact grows_of_appendValue hopen (fun _ => rfl) (fun _ => rfl) hp
  | unary op operand =>
    obtain ⟨_, hp, -⟩ := map_eq_ok.mp hp
    obtain ⟨block, hopen, hp⟩ := Except.bind_eq_ok.mp hp
    obtain ⟨_, -, hp⟩ := Except.bind_eq_ok.mp hp
    exact grows_of_appendValue hopen (fun _ => rfl) (fun _ => rfl) hp
  | binary op lhs rhs =>
    obtain ⟨_, hp, -⟩ := map_eq_ok.mp hp
    obtain ⟨block, hopen, hp⟩ := Except.bind_eq_ok.mp hp
    obtain ⟨_, -, hp⟩ := Except.bind_eq_ok.mp hp
    obtain ⟨_, -, hp⟩ := Except.bind_eq_ok.mp hp
    exact grows_of_appendValue hopen (fun _ => rfl) (fun _ => rfl) hp
  | call callee args =>
    obtain ⟨_, hp, -⟩ := map_eq_ok.mp hp
    obtain ⟨block, hopen, hp⟩ := Except.bind_eq_ok.mp hp
    split at hp
    · cases hp
    · dsimp only at hp
      split at hp
      · cases hp
      · obtain ⟨_, -, hp⟩ := Except.bind_eq_ok.mp hp
        exact grows_of_appendValue hopen (fun _ => rfl) (fun _ => rfl) hp
  | stackAlloc t =>
    obtain ⟨_, hp, -⟩ := map_eq_ok.mp hp
    obtain ⟨block, hopen, hp⟩ := Except.bind_eq_ok.mp hp
    cases hp
    exact .reserve (current_of_openedBlock hopen)
  | load pointer t =>
    obtain ⟨_, hp, -⟩ := map_eq_ok.mp hp
    obtain ⟨block, hopen, hp⟩ := Except.bind_eq_ok.mp hp
    obtain ⟨_, -, hp⟩ := Except.bind_eq_ok.mp hp
    exact grows_of_appendValue hopen (fun _ => rfl) (fun _ => rfl) hp
  | store pointer source =>
    obtain ⟨_, hp, -⟩ := map_eq_ok.mp hp
    obtain ⟨block, hopen, hp⟩ := Except.bind_eq_ok.mp hp
    obtain ⟨_, -, hp⟩ := Except.bind_eq_ok.mp hp
    obtain ⟨_, -, hp⟩ := Except.bind_eq_ok.mp hp
    cases hp
    exact .effect (current_of_openedBlock hopen) rfl rfl
  | branch target =>
    obtain ⟨_, hp, -⟩ := map_eq_ok.mp hp
    obtain ⟨block, hopen, hp⟩ := Except.bind_eq_ok.mp hp
    cases hp
    exact .effect (current_of_openedBlock hopen) rfl rfl
  | condBranch test thenBlock elseBlock =>
    obtain ⟨_, hp, -⟩ := map_eq_ok.mp hp
    obtain ⟨block, hopen, hp⟩ := Except.bind_eq_ok.mp hp
    obtain ⟨_, -, hp⟩ := Except.bind_eq_ok.mp hp
    cases hp
    exact .effect (current_of_openedBlock hopen) rfl rfl
  | ret value =>
    obtain ⟨_, hp, -⟩ := map_eq_ok.mp hp
    obtain ⟨block, hopen, hp⟩ := Except.bind_eq_ok.mp hp
    obtain ⟨_, -, hp⟩ := Except.bind_eq_ok.mp hp
    dsimp only at hp
    split at hp
    · cases hp
      exact .effect (current_of_openedBlock hopen) rfl rfl
    · cases hp

/-- The body is in single assignment form, and the selected block is one of its blocks. -/
structure Regular (b : Builder) : Prop where
  body : b.body.SingleAssignment
  current : ∀ block, b.current = some block → block.index < b.body.blocks.size

theorem Regular.grows (h : b.Regular) (hg : b.Grows b') :
    b'.Regular ∧ b'.module = b.module ∧ b'.id = b.id ∧ b'.body.signature = b.body.signature := by
  refine ⟨?_, ?_⟩
  · cases hg with
    | opened =>
      have hat : ∀ block pos op, ({ b.body with blocks := b.body.blocks.push #[] } :
          Definition).OpAt block pos op ↔ b.body.OpAt block pos op := by
        refine fun block pos op => ⟨.of_push, ?_⟩
        rintro ⟨blk, hblk, hop⟩
        have hlt := (Array.getElem?_eq_some_iff.mp hblk).1
        exact ⟨blk, by rw [Array.getElem?_push, if_neg (by omega)]; exact hblk, hop⟩
      refine ⟨⟨h.body.regs.of_opAt_iff hat, h.body.slots.of_opAt_iff hat⟩, ?_⟩
      intro block hblock
      cases hblock
      exact Nat.lt_of_lt_of_eq (Nat.lt_succ_self _) (Array.size_push _).symm
    | switched hlt =>
      refine ⟨h.body, ?_⟩
      intro block hblock
      cases hblock
      exact hlt
    | @effect block op hcurrent htarget hslot =>
      have hadd : b.body.AddsOp (b.append block op).body op :=
        Definition.addsOp_of_modify (h.current block hcurrent) rfl
      refine ⟨⟨h.body.regs.skip hadd ?_, h.body.slots.skip hadd ?_⟩, ?_⟩
      · simp only [htarget, Option.map_none]
      · simp only [hslot, Option.map_none]
      · intro block' hblock'
        exact Nat.lt_of_lt_of_eq (h.current block' hblock') Array.size_modify.symm
    | @value block t op hcurrent htarget hslot =>
      have hadd : b.body.AddsOp (b.appendValue block t op).2.body (op ⟨b.body.regTypes.size⟩) :=
        Definition.addsOp_of_modify (h.current block hcurrent) rfl
      refine ⟨⟨?_, h.body.slots.skip hadd ?_⟩, ?_⟩
      · have hnext := h.body.regs.next hadd (by simp only [htarget, Option.map_some])
        exact (Array.size_push t).symm ▸ hnext
      · simp only [hslot, Option.map_none]
      · intro block' hblock'
        exact Nat.lt_of_lt_of_eq (h.current block' hblock') Array.size_modify.symm
    | @reserve block t hcurrent =>
      let b₁ : Builder := { b with body := { b.body with slotTypes := b.body.slotTypes.push t } }
      have hadd : b.body.AddsOp (b₁.appendValue block .pointer
          (.stackAlloc · ⟨b.body.slotTypes.size⟩)).2.body
          (.stackAlloc ⟨b.body.regTypes.size⟩ ⟨b.body.slotTypes.size⟩) :=
        Definition.addsOp_of_modify (h.current block hcurrent) rfl
      -- The operation has the next number in both series.
      refine ⟨⟨?_, ?_⟩, ?_⟩
      · exact (Array.size_push Ty.pointer).symm ▸ h.body.regs.next hadd rfl
      · exact (Array.size_push t).symm ▸ h.body.slots.next hadd rfl
      · intro block' hblock'
        exact Nat.lt_of_lt_of_eq (h.current block' hblock') Array.size_modify.symm
  · cases hg <;> exact ⟨rfl, rfl, rfl⟩

end Builder

end RegIR
