import RegIR.Proofs.Traces
import RegIR.Proofs.Variables
/-!
# Where pointers come from

No pointer is forged: in an invocation that starts without pointers, every pointer that a variable
holds is zero or an address that the same invocation has taken of a slot.  Integers, the bytes of
aggregates, padding and what released frames leave behind are never read as a pointer.
-/

namespace RegIR.Machine

open Memory

/-- The operation at the cursor takes the address of a slot. -/
inductive State.Mints (s : State) : UInt64 → Prop
  | intro {target : Reg} {slot : SlotId} {u : Ty} {x : Nat}
      (hop : s.calls.top.operation? = some (.stackAlloc target slot))
      (hslot : s.calls.Binds (s.calls.own (.slot slot)) u x) : Mints s (addressOf x)

/-- The word is zero or an address that some of the states took. -/
def Minted (us : List State) (w : UInt64) : Prop := w = 0 ∨ ∃ u ∈ us, u.Mints w

theorem Minted.cons {us : List State} {w : UInt64} (s : State) (h : Minted us w) :
    Minted (s :: us) w := by
  rcases h with rfl | ⟨u, hu, hw⟩
  · exact Or.inl rfl
  · exact Or.inr ⟨u, List.mem_cons_of_mem s hu, hw⟩

/-- Every pointer that a variable of the state holds was taken by one of the states before. -/
def Genuine (us : List State) (s : State) : Prop :=
  ∀ v t x, s.calls.Binds v t x → t.kind = .pointer →
    ∃ w, s.stack.word64? x = some w ∧ Minted us w

section Steps

variable {p : Program} (hsound : p.Sound) (hone : p.OneRegistry)
include hsound hone

theorem genuine_of_enter {f : FuncId} {args : List Bytes} {returnSize : Nat} {stats : Stats}
    {s : State} (h : enter p f args returnSize stats = .ok s) (hnull : NullPointers p f args) :
    Genuine [] s := by
  rintro v t x ⟨a, ha, hcell⟩ ht
  exact ⟨0, word64?_of_enter hsound hone h hnull ha hcell ht, Or.inl rfl⟩

/-- A step moves pointers around and takes at most one new address. -/
theorem Genuine.next {us : List State} {s t : State} (hs : Stacked p s) (h : Genuine us s)
    (hn : Next p s t) : Genuine (s :: us) t := by
  have ht := hs.next hn
  obtain ⟨op, hop, heffect⟩ := hn.effect hsound hone hs
  intro w u y hw hu
  have hsize := hone.size_of_pointer (ht.binds_mentions hw) hu
  cases heffect.origin hsound.laid hs ht hn hw with
  | kept hold hsame =>
    rw [hsize] at hsame
    obtain ⟨word, hword, hminted⟩ := h w u y hold hu
    exact ⟨word, by rw [word64?_congr hsame, hword], hminted.cons s⟩
  | copied hcopy hv hsame =>
    rw [hsize] at hsame
    obtain ⟨word, hword, hminted⟩ := h _ u _ hv hu
    exact ⟨word, by rw [word64?_congr hsame, hword], hminted.cons s⟩
  | int hw' hint =>
    rw [hint] at hu
    cases hu
  | address hop' hw' hpointer hslot hword =>
    subst hop'
    exact ⟨_, hword, Or.inr ⟨s, List.mem_cons_self, .intro hop hslot⟩⟩
  | zero hdepth hzero =>
    exact ⟨0, word64?_eq_zero fun k hk => hzero k (by omega), Or.inl rfl⟩

end Steps

/-- In every state that an invocation without pointers among its arguments reaches, every pointer
that a variable holds is zero or the address that an earlier step of the invocation took of a slot,
and so is every address that is read from a pointer register. -/
theorem pointers_minted {H : Type} {env : Env H} {m : Module} (hbuilt : m.Built)
    (hm : m.finalize = .ok env.program) (hone : env.program.OneRegistry) {f : FuncId}
    {args : List Bytes} {returnSize : Nat} {stats : Stats} {s₀ s : State}
    (henter : enter env.program f args returnSize stats = .ok s₀)
    (hnull : NullPointers env.program f args) (h : Reaches env s₀ s) :
    (∃ us, Trace env s₀ us s) ∧
    ∀ us, Trace env s₀ us s →
      (∀ v t x, s.calls.Binds v t x → t.kind = .pointer →
        ∃ w, s.stack.word64? x = some w ∧ (w = 0 ∨ ∃ u ∈ us, u.Mints w)) ∧
      ∀ i a r w, s.calls.activation? i = some a → a.code.definition.HasKind r .pointer →
        a.readPointer s.stack r = .ok w → w = 0 ∨ ∃ u ∈ us, u.Mints w := by
  have hsound := hbuilt.sound.finalize hm
  refine ⟨exists_trace h, ?_⟩
  intro us hus
  have hgenuine : Genuine us s := (hus.invariant hsound.laid (Stacked.of_enter hsound.laid henter)
    (genuine_of_enter hsound hone henter hnull)
    fun _ _ _ hs hn hgenuine => hgenuine.next hsound hone hs hn).2
  refine ⟨hgenuine, ?_⟩
  intro i a r w ha hkind hread
  obtain ⟨t, ht, hpointer⟩ := hkind
  obtain ⟨e, he, hword⟩ := Activation.readPointer_eq_ok hread
  obtain ⟨w', hword', hminted⟩ := hgenuine ⟨i, .reg r⟩ t _ ⟨a, ha, .reg ht he⟩ hpointer
  rw [hword] at hword'
  cases hword'
  exact hminted

/-- The pointer that `leak` leaves in its caller is an address that `leak` took. -/
theorem pointers_minted_trailing :
    ∃ s₀ s us, enter trailingEnv.program ⟨1⟩ [] 4 .zero = .ok s₀ ∧ Trace trailingEnv s₀ us s ∧
      s.stack.word64? 16 = some 65604 ∧ ∃ u ∈ us, u.Mints 65604 := by
  have hone := (Module.Built.sound ⟨_, rfl⟩).oneRegistry ownTypes_trailing finalize_trailing
  obtain ⟨s₀, s, henter, -, hafter, hcalls, hword⟩ := run_trailing
  obtain ⟨⟨us, hus⟩, hminted⟩ := pointers_minted ⟨_, rfl⟩ finalize_trailing hone henter
    nullPointers_trailing (reaches_of_addressable (reachesAddressable_of_after? hafter))
  refine ⟨s₀, s, us, henter, hus, hword, ?_⟩
  -- The slot of the caller starts at offset 16.
  have hslot : s.calls.Binds ⟨0, .slot ⟨0⟩⟩ .pointer (0 + 16) := by
    rw [hcalls]
    exact ⟨_, rfl, .slot (e := ⟨16, 8⟩) rfl rfl⟩
  obtain ⟨w, hw, hzero⟩ := (hminted us hus).1 _ _ _ hslot rfl
  rw [Nat.zero_add, hword] at hw
  cases hw
  exact hzero.resolve_left (by decide)

end RegIR.Machine
