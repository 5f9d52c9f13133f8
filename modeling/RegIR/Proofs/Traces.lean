import RegIR.Proofs.Discipline
/-!
# Traces

A trace lists the states that a run has left.  It tells what was executed before a state, and what
was executed since one of its activations started.
-/

namespace RegIR.Machine

/-- The runs from a state, each with the states that it has left, latest first. -/
inductive Trace {H : Type} (env : Env H) (s₀ : State) : List State → State → Prop
  | start : Trace env s₀ [] s₀
  | step {us : List State} {s t : State} (h : Trace env s₀ us s) (hst : Advances env s t) :
      Trace env s₀ (s :: us) t

/-- A run has a trace. -/
theorem exists_trace {H : Type} {env : Env H} {s₀ s : State} (h : Reaches env s₀ s) :
    ∃ us, Trace env s₀ us s := by
  induction h with
  | refl => exact ⟨[], .start⟩
  | tail _ h ih =>
    obtain ⟨us, hus⟩ := ih
    exact ⟨_, hus.step h⟩

theorem Trace.reaches {H : Type} {env : Env H} {s₀ s : State} {us : List State}
    (h : Trace env s₀ us s) : Reaches env s₀ s := by
  induction h with
  | start => exact .refl
  | step _ hst ih => exact ih.tail hst

/-- What holds at the start and is kept by every step holds along every trace. -/
theorem Trace.invariant {H : Type} {env : Env H} {P : List State → State → Prop} {s₀ s : State}
    {us : List State} (hp : env.program.Laid) (hs₀ : Stacked env.program s₀) (h₀ : P [] s₀)
    (hnext : ∀ us s t, Stacked env.program s → Next env.program s t → P us s → P (s :: us) t)
    (h : Trace env s₀ us s) : Stacked env.program s ∧ P us s := by
  induction h with
  | start => exact ⟨hs₀, h₀⟩
  | step _ hst ih =>
    obtain ⟨hs, hP⟩ := ih
    obtain ⟨hn, ht⟩ := hs.advances hp hst
    exact ⟨ht, hnext _ _ _ hs hn hP⟩

theorem Trace.stacked_of_mem {H : Type} {env : Env H} {s₀ s w : State} {us : List State}
    (hp : env.program.Laid) (hs₀ : Stacked env.program s₀) (h : Trace env s₀ us s)
    (hw : w ∈ us) : Stacked env.program w := by
  refine (h.invariant (P := fun us _ => ∀ w ∈ us, Stacked env.program w) hp hs₀ ?_ ?_).2 w hw
  · intro w hw
    cases hw
  · intro us s t hs _ hbefore w hw
    rcases List.mem_cons.mp hw with rfl | hw
    · exact hs
    · exact hbefore w hw

/-- The states of a trace since the activation with `depth` older ones started: that activation was
live in all of them. -/
def since (depth : Nat) (us : List State) : List State :=
  us.takeWhile fun s => depth ≤ s.calls.below.size

theorem since_cons_of_le {depth : Nat} {s : State} {us : List State}
    (h : depth ≤ s.calls.below.size) : since depth (s :: us) = s :: since depth us :=
  List.takeWhile_cons_of_pos (decide_eq_true h)

theorem since_cons_of_lt {depth : Nat} {s : State} {us : List State}
    (h : s.calls.below.size < depth) : since depth (s :: us) = [] :=
  List.takeWhile_cons_of_neg (by simpa using h)

end RegIR.Machine
