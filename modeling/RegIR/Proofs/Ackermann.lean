import Mathlib.Computability.Ackermann
import RegIR.CommandLine
import RegIR.Proofs.CallDepth
/-!
# The Ackermann function, end to end

Where the value of the Ackermann function is a word, the sample program returns it, and the number
of activations that it keeps alive is the value plus the first argument less one.
-/

namespace RegIR

theorem ackermann_eq_ack (m n : Nat) : ackermann m n = ack m n := by
  induction m, n using ackermann.induct with
  | case1 n => rw [ackermann, ack_zero]
  | case2 m ih => rw [ackermann, ih, ack_succ_zero]
  | case3 m n ih₁ ih₂ =>
    rw [ih₁] at ih₂
    rw [ackermann, ih₁, ih₂, ack_succ_succ]

theorem add_lt_ackermann (m n : Nat) : m + n < ackermann m n := by
  rw [ackermann_eq_ack]
  exact add_lt_ack m n

namespace Ackermann

open Reference

/-! ## 1. The program -/

/-- The function that is built. -/
def definition : Definition :=
  ⟨signature,
    #[#[.readArg ⟨0⟩ 0, .literal ⟨1⟩ 0, .binary ⟨2⟩ .eq ⟨0⟩ ⟨1⟩, .condBranch ⟨2⟩ ⟨1⟩ ⟨2⟩],
      #[.readArg ⟨3⟩ 1, .literal ⟨4⟩ 1, .binary ⟨5⟩ .add ⟨3⟩ ⟨4⟩, .ret ⟨5⟩],
      #[.readArg ⟨6⟩ 1, .literal ⟨7⟩ 0, .binary ⟨8⟩ .eq ⟨6⟩ ⟨7⟩, .condBranch ⟨8⟩ ⟨3⟩ ⟨4⟩],
      #[.readArg ⟨9⟩ 0, .literal ⟨10⟩ 1, .binary ⟨11⟩ .sub ⟨9⟩ ⟨10⟩,
        .call ⟨12⟩ ⟨0⟩ [⟨11⟩, ⟨10⟩], .ret ⟨12⟩],
      #[.readArg ⟨13⟩ 0, .readArg ⟨14⟩ 1, .literal ⟨15⟩ 1, .binary ⟨16⟩ .sub ⟨14⟩ ⟨15⟩,
        .call ⟨17⟩ ⟨0⟩ [⟨13⟩, ⟨16⟩], .binary ⟨18⟩ .sub ⟨13⟩ ⟨15⟩, .call ⟨19⟩ ⟨0⟩ [⟨18⟩, ⟨17⟩],
        .ret ⟨19⟩]],
    Array.replicate 20 .int, #[]⟩

def constructed : Module := ⟨#[.defined definition], .empty⟩

def program : Program :=
  ⟨#[.code ⟨definition, ⟨⟨Array.ofFn fun k : Fin 20 => ⟨4 * k.val, 4⟩, 80, 4⟩, 20⟩,
    ⟨#[⟨0, 4⟩, ⟨4, 4⟩], 8, 4⟩⟩]⟩

theorem build_empty : build .empty = .ok (⟨0⟩, constructed) := by decide +kernel

theorem finalize_constructed : constructed.finalize = .ok program :=
  Module.finalize_eq_ok_iff.mpr ⟨by decide +kernel, by cbv, by decide +kernel⟩

/-- A script that builds the function. -/
def script : List Draft.Step :=
  [.declare signature, .select ⟨0⟩, .body .openBlock, .body .openBlock, .body .openBlock,
    .body .openBlock, .body .openBlock,
    .body (.switchTo ⟨0⟩), .body (.readArg 0), .body (.literal 0), .body (.binary .eq ⟨0⟩ ⟨1⟩),
    .body (.condBranch ⟨2⟩ ⟨1⟩ ⟨2⟩),
    .body (.switchTo ⟨1⟩), .body (.readArg 1), .body (.literal 1), .body (.binary .add ⟨3⟩ ⟨4⟩),
    .body (.ret ⟨5⟩),
    .body (.switchTo ⟨2⟩), .body (.readArg 1), .body (.literal 0), .body (.binary .eq ⟨6⟩ ⟨7⟩),
    .body (.condBranch ⟨8⟩ ⟨3⟩ ⟨4⟩),
    .body (.switchTo ⟨3⟩), .body (.readArg 0), .body (.literal 1), .body (.binary .sub ⟨9⟩ ⟨10⟩),
    .body (.call ⟨0⟩ [⟨11⟩, ⟨10⟩]), .body (.ret ⟨12⟩),
    .body (.switchTo ⟨4⟩), .body (.readArg 0), .body (.readArg 1), .body (.literal 1),
    .body (.binary .sub ⟨14⟩ ⟨15⟩), .body (.call ⟨0⟩ [⟨13⟩, ⟨16⟩]),
    .body (.binary .sub ⟨13⟩ ⟨15⟩), .body (.call ⟨0⟩ [⟨18⟩, ⟨17⟩]), .body (.ret ⟨19⟩)]

theorem built : constructed.Built := ⟨script, by decide +kernel⟩

theorem intOnly : program.IntOnly := by
  rintro t ⟨⟨_ | k⟩, fn, hfn, ht⟩
  · obtain rfl : Function.defined definition = fn := Option.some.inj hfn
    cases ht with
    | arg ht => simpa [Function.signature, definition, signature] using ht
    | ret => rfl
    | reg ht =>
      have ht' : t ∈ Array.replicate 20 Ty.int := ht
      exact (Array.mem_replicate.mp ht').2
    | slot ht => exact absurd ht (Array.not_mem_empty t)
  · cases hfn

/-! ## 2. The evaluation of the function -/

/-- No host function is bound. -/
def hosts : Hosts := fun _ => none

/-- A call of the function. -/
def start (m n : Int32) : Call := .start definition [m, n]

theorem truth_eq_zero {m : Int32} (hm : m ≠ 0) : truth (m == 0) = 0 := by simp [truth, hm]

theorem peaks_zero (n : Int32) : Peaks program hosts (start 0 n) (n + 1) 1 := by
  refine .go rfl (.go rfl (.go rfl (.go rfl ?_)))
  exact .go rfl (.go rfl (.go rfl (.done rfl)))

variable {m n v w : Int32} {k l : Nat}

theorem peaks_at_zero (hm : m ≠ 0) (h : Peaks program hosts (start (m - 1) 1) v k) :
    Peaks program hosts (start m 0) v (max (k + 1) 1) := by
  refine .go rfl (.go rfl (.go rfl (.go rfl ?_)))
  rw [truth_eq_zero hm]
  refine .go rfl (.go rfl (.go rfl (.go rfl ?_)))
  exact .go rfl (.go rfl (.go rfl (.call rfl h (.done rfl))))

theorem peaks_of_ne (hm : m ≠ 0) (hn : n ≠ 0) (hv : Peaks program hosts (start m (n - 1)) v k)
    (hw : Peaks program hosts (start (m - 1) v) w l) :
    Peaks program hosts (start m n) w (max (k + 1) (max (l + 1) 1)) := by
  refine .go rfl (.go rfl (.go rfl (.go rfl ?_)))
  rw [truth_eq_zero hm]
  refine .go rfl (.go rfl (.go rfl (.go rfl ?_)))
  rw [truth_eq_zero hn]
  refine .go rfl (.go rfl (.go rfl (.go rfl ?_)))
  exact .call rfl hv (.go rfl (.call rfl hw (.done rfl)))

/-! ## 3. Values and depths -/

/-- The number of activations that are live at the peak. -/
def depth (m n : Nat) : Nat := if m = 0 then 1 else ackermann m n + m - 1

/-- Without an argument the first call is the deepest. -/
theorem depth_succ_zero (m : Nat) : depth (m + 1) 0 = max (depth m 1 + 1) 1 := by
  have hlt := add_lt_ackermann m 1
  cases m with
  | zero => simp [depth, ackermann]
  | succ m =>
    rw [depth, depth, if_neg (Nat.succ_ne_zero _), if_neg (Nat.succ_ne_zero _), ackermann]
    omega

/-- The inner call is the deepest, unless the outer one is, which it is as long as it nests. -/
theorem depth_succ_succ (m n : Nat) : depth (m + 1) (n + 1) =
    max (depth (m + 1) n + 1) (max (depth m (ackermann (m + 1) n) + 1) 1) := by
  have hlt := add_lt_ackermann m (ackermann (m + 1) n)
  have hpos := add_lt_ackermann (m + 1) n
  cases m with
  | zero =>
    simp only [depth, ackermann, if_pos, if_neg (Nat.succ_ne_zero 0)]
    omega
  | succ m =>
    rw [depth, depth, depth, if_neg (Nat.succ_ne_zero _), if_neg (Nat.succ_ne_zero _),
      if_neg (Nat.succ_ne_zero _), ackermann]
    omega

section Words

variable {m n : Nat}

theorem ofNat_succ_sub_one (m : Nat) : Int32.ofNat (m + 1) - 1 = .ofNat m := by
  rw [Int32.ofNat_add]
  exact Int32.add_sub_cancel _ _

theorem ofNat_succ_ne_zero (h : m < 2147483647) : Int32.ofNat (m + 1) ≠ 0 := by
  intro h0
  have hint : (Int32.ofNat (m + 1)).toInt = ((m + 1 : Nat) : Int) :=
    Int32.toInt_ofNat_of_lt (by omega)
  rw [h0, Int32.toInt_zero] at hint
  omega

/-- The function that is built evaluates to the Ackermann function, as long as the value is a word:
then all arguments and values on the way are. -/
theorem peaks_ofNat (h : ackermann m n ≤ 2147483647) :
    Peaks program hosts (start (.ofNat m) (.ofNat n)) (.ofNat (ackermann m n)) (depth m n) := by
  induction m, n using ackermann.induct with
  | case1 n =>
    rw [ackermann, Int32.ofNat_add]
    exact peaks_zero (.ofNat n)
  | case2 m ih =>
    rw [ackermann] at h ⊢
    have hlt := add_lt_ackermann m 1
    rw [depth_succ_zero]
    refine peaks_at_zero (ofNat_succ_ne_zero (by omega)) ?_
    rw [ofNat_succ_sub_one]
    exact ih h
  | case3 m n ihinner ihouter =>
    rw [ackermann] at h ⊢
    have hinner := add_lt_ackermann (m + 1) n
    have houter := add_lt_ackermann m (ackermann (m + 1) n)
    have hv := ihinner (by omega)
    have hw := ihouter h
    rw [← ofNat_succ_sub_one n] at hv
    rw [← ofNat_succ_sub_one m] at hw
    rw [depth_succ_succ]
    exact peaks_of_ne (ofNat_succ_ne_zero (by omega)) (ofNat_succ_ne_zero (by omega)) hv hw

/-- So does the function on words. -/
theorem onWords_ofNat (h : ackermann m n ≤ 2147483647) :
    onWords (.ofNat m) (.ofNat n) = .ofNat (ackermann m n) := by
  induction m, n using ackermann.induct with
  | case1 n =>
    rw [onWords, ackermann, Int32.ofNat_add]
    exact if_pos rfl
  | case2 m ih =>
    rw [ackermann] at h ⊢
    have hlt := add_lt_ackermann m 1
    rw [onWords, if_neg (ofNat_succ_ne_zero (by omega)), if_pos (show Int32.ofNat 0 = 0 from rfl),
      ofNat_succ_sub_one]
    exact ih h
  | case3 m n ihinner ihouter =>
    rw [ackermann] at h ⊢
    have hinner := add_lt_ackermann (m + 1) n
    have houter := add_lt_ackermann m (ackermann (m + 1) n)
    rw [onWords, if_neg (ofNat_succ_ne_zero (by omega)), if_neg (ofNat_succ_ne_zero (by omega)),
      ofNat_succ_sub_one, ofNat_succ_sub_one, ihinner (by omega)]
    exact ihouter h

end Words

end Ackermann

/-! ## 4. The command -/

namespace CommandLine

open Interpreter NativeEntry

theorem sample_eq : sample = .ok (⟨0⟩, Ackermann.program) := by
  rw [sample, Ackermann.build_empty]
  dsimp only
  rw [Ackermann.finalize_constructed]

namespace Options

variable {o : Options} {f : FuncId} {p : Program} {c : Except Error Int32}

theorem exists_interpreted_iff : (∃ fuel, o.interpreted fuel f p = some c) ↔
    ∃ a, (fresh p o.config .empty).Answers f [o.m, o.n] none a ∧ c = a.mapError .call := by
  unfold interpreted Interpreter.Answers
  constructor
  · rintro ⟨fuel, h⟩
    split at h
    · cases h
    · rename_i v i slot hcall
      cases h
      exact ⟨_, ⟨fuel, i, slot, hcall⟩, rfl⟩
    · rename_i e i slot hcall
      cases h
      exact ⟨_, ⟨fuel, i, slot, hcall⟩, rfl⟩
  · rintro ⟨a, ⟨fuel, i, slot, hcall⟩, rfl⟩
    refine ⟨fuel, ?_⟩
    rw [hcall]
    cases a <;> rfl

/-- What the command makes of a checked call. -/
def ofChecked : Except CallError Int32 → Except Error Int32
  | .ok v => .ok v
  | .error (.entry e) => .error (.entry e)
  | .error (.fault f) => .error (.call (.fault f))

theorem exists_entered_iff {e : NativeEntry} (he : p.entry f o.config .empty = .ok e)
    (harity : e.arity = 2) : (∃ fuel, o.entered fuel f p = some c) ↔
      ∃ a, e.interpreter.Answers e.func [o.m, o.n] none a ∧ c = ofChecked (reported a) := by
  have hentered : ∀ fuel, o.entered fuel f p =
      (e.invoke fuel [o.m, o.n] none).map fun w => ofChecked w.1 := by
    intro fuel
    rw [entered, he]
    dsimp only
    cases e.invoke fuel [o.m, o.n] none with
    | none => rfl
    | some w => obtain ⟨⟨e | f⟩ | v, slot⟩ := w <;> rfl
  have hlength : [o.m, o.n].length = e.arity := harity.symm
  have hchecked : e.arity ≤ maxCheckedArity := by
    rw [harity]
    decide
  have hinvoke : ∀ w, (∃ fuel, e.invoke fuel [o.m, o.n] none = some w) ↔
      ∃ a, e.interpreter.Answers e.func [o.m, o.n] none a ∧ w = (reported a, none) :=
    fun w => exists_invoke_iff hlength hchecked
  simp only [hentered, Option.map_eq_some_iff]
  constructor
  · rintro ⟨fuel, w, hw, rfl⟩
    obtain ⟨a, ha, rfl⟩ := (hinvoke w).mp ⟨fuel, hw⟩
    exact ⟨a, ha, rfl⟩
  · rintro ⟨a, ha, rfl⟩
    obtain ⟨fuel, hw⟩ := (hinvoke _).mpr ⟨a, ha, rfl⟩
    exact ⟨fuel, _, hw, rfl⟩

/-- The command reports the answer of the interpreter, by itself or through an entry point. -/
theorem exists_computed_iff {r : Except Fault Int32}
    (h : (fresh Ackermann.program o.config .empty).Answers ⟨0⟩ [o.m, o.n] none (r.mapError .fault)) :
    (∃ fuel, o.computed fuel = some c) ↔ c = r.mapError fun f => .call (.fault f) := by
  have hentry : Ackermann.program.entry ⟨0⟩ o.config .empty =
      .ok (.mk Ackermann.program ⟨0⟩ Ackermann.signature o.config .empty) := rfl
  have hinterpreted : (r.mapError Failure.fault).mapError Error.call =
      r.mapError fun f => .call (.fault f) := by cases r <;> rfl
  have hentered : ofChecked (reported (r.mapError Failure.fault)) =
      r.mapError fun f => .call (.fault f) := by cases r <;> rfl
  simp only [computed, sample_eq]
  cases hmode : o.interpreterOnly with
  | true =>
    simp only [if_true, exists_interpreted_iff]
    constructor
    · rintro ⟨a, ha, rfl⟩
      rw [ha.unique h, hinterpreted]
    · rintro rfl
      exact ⟨_, h, hinterpreted.symm⟩
  | false =>
    simp only [Bool.false_eq_true, if_false, exists_entered_iff hentry rfl]
    constructor
    · rintro ⟨a, ha, rfl⟩
      rw [ha.unique h, hentered]
    · rintro rfl
      exact ⟨_, h, hentered.symm⟩

end Options

theorem exists_run_iff {args : List String} {o : Options} (ho : Request.ofArgs args = .run o)
    {r : Except Fault Int32}
    (h : (fresh Ackermann.program o.config .empty).Answers ⟨0⟩ [o.m, o.n] none (r.mapError .fault))
    {expectedTime computedTime : String} {report : Report} :
    (∃ fuel, run fuel args expectedTime computedTime = some report) ↔
      report = o.report o.expected expectedTime (r.mapError fun f => .call (.fault f))
        computedTime := by
  have hcomputed : ∀ c, (∃ fuel, o.computed fuel = some c) ↔
      c = r.mapError fun f => .call (.fault f) := fun c => Options.exists_computed_iff h
  have hrun : ∀ fuel, run fuel args expectedTime computedTime = (o.computed fuel).map fun c =>
      o.report o.expected expectedTime c computedTime := by
    intro fuel
    rw [run, ho]
    dsimp only
    cases o.computed fuel <;> rfl
  simp only [hrun, Option.map_eq_some_iff]
  constructor
  · rintro ⟨fuel, c, hc, rfl⟩
    rw [(hcomputed c).mp ⟨fuel, hc⟩]
  · rintro rfl
    obtain ⟨fuel, hc⟩ := (hcomputed _).mpr rfl
    exact ⟨fuel, _, hc, rfl⟩

end CommandLine

namespace Ackermann

variable {m n : Nat}

/-- The interpreter answers the value, or the fault of a limit below the depth. -/
theorem answers_ofNat (h : ackermann m n ≤ 2147483647) (capacity : Nat) (slot : Option Fault) :
    (∃ fuel i slot', (Interpreter.fresh program ⟨none, capacity⟩ .empty).callInts fuel ⟨0⟩
      [.ofNat m, .ofNat n] slot = some (.ok (.ofNat (ackermann m n)), i, slot') ∧
        i.stats.maxDepth = depth m n) ∧
    ∀ limit, (Interpreter.fresh program ⟨some limit, capacity⟩ .empty).Answers ⟨0⟩
      [.ofNat m, .ofNat n] slot (if depth m n ≤ max limit 1 then .ok (.ofNat (ackermann m n))
        else .error (.fault (.callDepthExceeded limit))) := by
  have hsound : program.Sound := built.sound.finalize finalize_constructed
  have hhosts : HostTable.empty.Computes hosts := fun _ => .none
  have hnew : Stats.zero.maxDepth ≤ 1 := Nat.zero_le 1
  exact Interpreter.answers_of_peaks (i := .fresh program ⟨none, capacity⟩ .empty) hsound intOnly
    hhosts hnew rfl rfl (peaks_ofNat h) slot

/-- What the machine makes of the command's options. -/
def outcome (limit m n : Nat) : Except Fault Int32 :=
  if limit = 0 ∨ depth m n ≤ limit then .ok (.ofNat (ackermann m n))
  else .error (.callDepthExceeded limit)

theorem answers_config (h : ackermann m n ≤ 2147483647) {o : CommandLine.Options}
    (hm : o.m = .ofNat m) (hn : o.n = .ofNat n) :
    (Interpreter.fresh program o.config .empty).Answers ⟨0⟩ [o.m, o.n] none
      ((outcome o.maxCallDepth m n).mapError .fault) := by
  obtain ⟨hunlimited, hlimited⟩ := answers_ofNat h Config.default.stackCapacity none
  rw [hm, hn, outcome, CommandLine.Options.config]
  by_cases hzero : o.maxCallDepth = 0
  · rw [if_pos hzero, if_pos (Or.inl hzero)]
    obtain ⟨fuel, i, slot, hcall, -⟩ := hunlimited
    exact ⟨fuel, i, slot, hcall⟩
  · -- A limit that is not zero is at least one.
    have hmax : max o.maxCallDepth 1 = o.maxCallDepth := by omega
    have hanswers := hlimited o.maxCallDepth
    rw [hmax] at hanswers
    rw [if_neg hzero]
    by_cases hle : depth m n ≤ o.maxCallDepth
    · rw [if_pos hle] at hanswers
      rw [if_pos (Or.inr hle)]
      exact hanswers
    · rw [if_neg hle] at hanswers
      rw [if_neg (by tauto)]
      exact hanswers

theorem exitCode_eq_zero_iff (h : ackermann m n ≤ 2147483647) {o : CommandLine.Options}
    (hm : o.m = .ofNat m) (hn : o.n = .ofNat n) (expectedTime computedTime : String) :
    (o.report o.expected expectedTime
      ((outcome o.maxCallDepth m n).mapError fun f => .call (.fault f)) computedTime).exitCode = 0 ↔
        o.maxCallDepth = 0 ∨ depth m n ≤ o.maxCallDepth := by
  have hexpected : o.expected = .ofNat (ackermann m n) := by
    rw [CommandLine.Options.expected, hm, hn, onWords_ofNat h]
  rw [hexpected, outcome]
  split
  · rename_i hallowed
    exact iff_of_true (if_pos rfl) hallowed
  · rename_i hrefused
    exact iff_of_false (show (1 : UInt32) ≠ 0 by decide) hrefused

/-- The sample program, from its construction to the exit code of the command.  Where the value of
the Ackermann function is a word, an unlimited interpreter returns it, which the function on words
does as well, and counts the depth; a limited one returns it if the limit allows that depth, and
fails with the fault of the limit if not.  Hence the command, in either mode and whatever else its
arguments ask for, ends with exit code 0 exactly if its limit is zero or at least the depth. -/
theorem sample_computes_ackermann :
    ∃ f m p, build .empty = .ok (f, m) ∧ m.finalize = .ok p ∧
      ∀ m n : Nat, ackermann m n ≤ 2147483647 →
        (Int32.ofNat (ackermann m n)).toInt = ackermann m n ∧
        onWords (.ofNat m) (.ofNat n) = .ofNat (ackermann m n) ∧
        (∀ capacity slot, ∃ fuel i slot', (Interpreter.fresh p ⟨none, capacity⟩ .empty).callInts fuel
          f [.ofNat m, .ofNat n] slot = some (.ok (.ofNat (ackermann m n)), i, slot') ∧
            i.stats.maxDepth = depth m n) ∧
        (∀ limit capacity slot, (Interpreter.fresh p ⟨some limit, capacity⟩ .empty).Answers f
          [.ofNat m, .ofNat n] slot (if depth m n ≤ max limit 1 then .ok (.ofNat (ackermann m n))
            else .error (.fault (.callDepthExceeded limit)))) ∧
        ∀ args o expectedTime computedTime, CommandLine.Request.ofArgs args = .run o →
          o.m = .ofNat m → o.n = .ofNat n →
            (∃ fuel r, CommandLine.run fuel args expectedTime computedTime = some r) ∧
            ∀ fuel r, CommandLine.run fuel args expectedTime computedTime = some r →
              (r.exitCode = 0 ↔ o.maxCallDepth = 0 ∨ depth m n ≤ o.maxCallDepth) := by
  refine ⟨⟨0⟩, constructed, program, build_empty, finalize_constructed, ?_⟩
  intro m n h
  refine ⟨Int32.toInt_ofNat_of_lt (by omega), onWords_ofNat h,
    fun c slot => (answers_ofNat h c slot).1, fun limit c slot => (answers_ofNat h c slot).2 limit,
    ?_⟩
  intro args o expectedTime computedTime ho hm hn
  have hanswers := answers_config h hm hn
  have hexit := exitCode_eq_zero_iff h hm hn expectedTime computedTime
  constructor
  · obtain ⟨fuel, hrun⟩ := (CommandLine.exists_run_iff ho hanswers).mpr rfl
    exact ⟨fuel, _, hrun⟩
  · intro fuel r hrun
    rw [(CommandLine.exists_run_iff ho hanswers).mp ⟨fuel, hrun⟩]
    exact hexit

/-- The value at 2 and 3 is 9, and the depth is 10. -/
theorem sample_computes_ackermann_two_three :
    (∃ fuel r, CommandLine.run fuel ["2", "3", "--max-call-depth", "10"] "" "" = some r ∧
      r.exitCode = 0) ∧
    ∃ fuel r, CommandLine.run fuel ["2", "3", "--interpreter-only", "--max-call-depth=9"] "" "" =
      some r ∧ r.exitCode ≠ 0 := by
  have hvalue : ackermann 2 3 = 9 := by rw [ackermann_eq_ack, ack_two]
  have hdepth : depth 2 3 = 10 := by rw [depth, hvalue]; rfl
  obtain ⟨f, m, p, -, -, h⟩ := sample_computes_ackermann
  obtain ⟨-, -, -, -, hrun⟩ := h 2 3 (by rw [hvalue]; decide)
  rw [hdepth] at hrun
  constructor
  · obtain ⟨⟨fuel, r, hr⟩, hexit⟩ := hrun ["2", "3", "--max-call-depth", "10"]
      ⟨2, 3, false, 10, false⟩ "" "" (by decide +kernel) rfl rfl
    exact ⟨fuel, r, hr, (hexit fuel r hr).mpr (by decide)⟩
  · obtain ⟨⟨fuel, r, hr⟩, hexit⟩ := hrun ["2", "3", "--interpreter-only", "--max-call-depth=9"]
      ⟨2, 3, false, 9, true⟩ "" "" (by decide +kernel) rfl rfl
    exact ⟨fuel, r, hr, fun h0 => absurd ((hexit fuel r hr).mp h0) (by decide)⟩

end Ackermann

end RegIR
