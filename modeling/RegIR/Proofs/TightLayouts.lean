import RegIR.Proofs.Placement
/-!
# Tight layouts

A layout wastes no byte that an alignment does not ask for: every value starts at the least
multiple of its alignment that is not below the end of the value before.  There is no layout only
if this placement leaves the 32-bit words.
-/

namespace RegIR

/-! ## 1. The greedy placement -/

/-- The values of the types lie behind an offset one after the other, in unbounded numbers: each
at the least multiple of its alignment that is not below the end of the one before. -/
inductive Greedy : Nat → List Ty → List Extent → Prop
  | nil {o : Nat} : Greedy o [] []
  | cons {o : Nat} {t : Ty} {ts : List Ty} {e : Extent} {es : List Extent}
      (start : IsLeast {x | o ≤ x ∧ t.align.toNat ∣ x} e.start) (size : e.size = t.size.toNat)
      (rest : Greedy e.stop ts es) : Greedy o (t :: ts) (e :: es)

/-- The least place for a value behind an offset. -/
def Ty.behind (t : Ty) (o : Nat) : Extent := ⟨roundUp o t.align.toNat, t.size.toNat⟩

def greedy (o : Nat) : List Ty → List Extent
  | [] => []
  | t :: ts => t.behind o :: greedy (t.behind o).stop ts

theorem greedy_iff {ts : List Ty} {o : Nat} {es : List Extent} :
    Greedy o ts es ↔ es = greedy o ts := by
  constructor
  · intro h
    induction h with
    | nil => rfl
    | @cons o t ts e es start size rest ih =>
      have hstart : e.start = roundUp o t.align.toNat :=
        start.unique (isLeast_roundUp t.toNat_align_pos)
      have he : e = t.behind o := by
        cases e
        cases hstart
        cases size
        rfl
      rw [ih, he]
      rfl
  · rintro rfl
    induction ts generalizing o with
    | nil => exact .nil
    | cons t ts ih => exact .cons (isLeast_roundUp t.toNat_align_pos) rfl ih

@[simp] theorem length_greedy (ts : List Ty) (o : Nat) : (greedy o ts).length = ts.length := by
  induction ts generalizing o with
  | nil => rfl
  | cons t ts ih => rw [greedy, List.length_cons, List.length_cons, ih]

/-- Every value starts at a multiple of its alignment. -/
theorem Greedy.dvd_start {o : Nat} {ts : List Ty} {es : List Extent} (h : Greedy o ts es) {i : Nat}
    {t : Ty} {e : Extent} (ht : ts[i]? = some t) (he : es[i]? = some e) :
    t.align.toNat ∣ e.start := by
  induction h generalizing i with
  | nil => cases ht
  | cons start size rest ih =>
    cases i with
    | zero =>
      cases ht
      cases he
      exact start.1.2
    | succ i => exact ih ht he

/-! ## 2. Placing one value, and several -/

/-- The value starts or ends behind the last word. -/
def Extent.Overflows (e : Extent) : Prop := 2 ^ 32 - 1 < e.start ∨ 2 ^ 32 - 1 < e.stop

/-- A word can be rounded up exactly if the result is a word: the words end at a multiple of every
alignment. -/
theorem alignUp?_eq_none_iff {v : UInt32} {t : Ty} :
    alignUp? v t.alignMask = none ↔ 2 ^ 32 ≤ roundUp v.toNat t.align.toNat := by
  have hpos := t.toNat_align_pos
  have hdvd : t.align.toNat ∣ 2 ^ 32 := by
    rw [t.align_toNat]
    exact Nat.pow_dvd_pow 2 (Nat.le_of_lt t.alignLog.isLt)
  rw [le_roundUp_iff hpos hdvd, alignUp?, alignMask_toNat, t.align_toNat]
  rw [t.align_toNat] at hpos
  show (if _ < 2 ^ 32 then _ else _) = none ↔ _
  split
  · simp
    omega
  · simp
    omega

namespace Layout

variable {l l' : Layout} {t : Ty} {ts us : List Ty}

theorem push?_eq_none_iff : l.push? t = none ↔ (t.behind l.size.toNat).Overflows := by
  have hnone := alignUp?_eq_none_iff (v := l.size) (t := t)
  show _ ↔ 2 ^ 32 - 1 < roundUp _ _ ∨ 2 ^ 32 - 1 < roundUp _ _ + t.size.toNat
  unfold push?
  split
  · rename_i halign
    have hle := hnone.mp halign
    simp only [true_iff]
    omega
  · rename_i start halign
    have hstart := alignUp?_toNat halign
    have hlt : ¬ 2 ^ 32 ≤ roundUp l.size.toNat t.align.toNat := by
      rw [← hnone, halign]
      exact Option.some_ne_none _
    rw [← hstart] at hlt ⊢
    show (if _ < 2 ^ 32 then _ else _) = none ↔ _
    split
    · simp
      omega
    · simp
      omega

theorem push?_eq_some (h : l.push? t = some l') :
    l'.extents = l.extents.push (t.behind l.size.toNat) ∧
      l'.size.toNat = (t.behind l.size.toNat).stop ∧
      l'.align.toNat = max l.align.toNat t.align.toNat := by
  unfold push? at h
  split at h
  · cases h
  · rename_i start halign
    split at h
    · rename_i hfit
      cases h
      rw [Ty.behind, ← alignUp?_toNat halign]
      refine ⟨rfl, ?_, UInt32.toNat_max _ _⟩
      rw [UInt32.toNat_add, Nat.mod_eq_of_lt hfit]
      rfl
    · cases h

theorem append?_eq_none_iff :
    l.append? ts = none ↔ ∃ e ∈ greedy l.size.toNat ts, e.Overflows := by
  -- The first value that has no place ends the search; the others have theirs in the next layout.
  induction ts generalizing l with
  | nil => simp [append?, greedy]
  | cons t ts ih =>
    have hpush := push?_eq_none_iff (l := l) (t := t)
    rw [append?, greedy]
    split
    · rename_i hnone
      simp [hpush.mp hnone]
    · rename_i l' hsome
      rw [ih, (push?_eq_some hsome).2.1]
      rw [hsome] at hpush
      simp [← hpush]

/-- The end of the last of some values behind an offset. -/
def endOf (o : Nat) (es : List Extent) : Nat := (es.getLast?.map Extent.stop).getD o

theorem append?_eq_some (h : l.append? ts = some l') :
    l'.extents.toList = l.extents.toList ++ greedy l.size.toNat ts ∧
      l'.size.toNat = endOf l.size.toNat (greedy l.size.toNat ts) ∧
      IsGreatest (insert l.align.toNat {a | ∃ t ∈ ts, t.align.toNat = a}) l'.align.toNat := by
  induction ts generalizing l with
  | nil =>
    cases h
    simp [greedy, endOf, IsGreatest, upperBounds]
  | cons t ts ih =>
    rw [append?] at h
    split at h
    · cases h
    · rename_i l₁ hpush
      obtain ⟨hextents, hsize, halign⟩ := push?_eq_some hpush
      obtain ⟨hextents', hsize', hmem, hupper⟩ := ih h
      rw [hextents', hsize', hextents, hsize]
      refine ⟨by simp [greedy], by simp [greedy, endOf, List.getLast?_cons], ?_, ?_⟩
      · rcases hmem with hmem | ⟨u, hu, hmem⟩
        · rw [hmem, halign]
          rcases Nat.le_total t.align.toNat l.align.toNat with hle | hle
          · exact Or.inl (Nat.max_eq_left hle)
          · exact Or.inr ⟨t, List.mem_cons_self, (Nat.max_eq_right hle).symm⟩
        · exact Or.inr ⟨u, List.mem_cons_of_mem t hu, hmem⟩
      · have hle := hupper (Set.mem_insert ..)
        rw [halign] at hle
        rintro a (rfl | ⟨u, hu, rfl⟩)
        · exact Nat.le_trans (Nat.le_max_left ..) hle
        · rcases List.mem_cons.mp hu with rfl | hu
          · exact Nat.le_trans (Nat.le_max_right ..) hle
          · exact hupper (Or.inr ⟨u, hu, rfl⟩)

theorem append?_append : l.append? (ts ++ us) = (l.append? ts).bind (·.append? us) := by
  induction ts generalizing l with
  | nil => rfl
  | cons t ts ih =>
    rw [List.cons_append, append?, append?]
    cases l.push? t with
    | none => rfl
    | some l' => exact ih

/-! ## 3. Layouts -/

/-- The layout is the given placement of the types: each value has its area, behind the areas
before it and at a multiple of its alignment; the layout ends with the last area and is aligned as
the strictest of them; and the first types alone are placed as they are in front of the others. -/
structure Tight (l : Layout) (ts : List Ty) (es : List Extent) : Prop where
  extents : l.extents.toList = es
  places : l.Places ts
  aligned : ∀ (i : Nat) (t : Ty) (e : Extent), ts[i]? = some t → es[i]? = some e →
    t.align.toNat ∣ e.start
  size : l.size.toNat = endOf 0 es
  align : IsGreatest (insert 1 {a | ∃ t ∈ ts, t.align.toNat = a}) l.align.toNat
  take : ∀ n, ∃ l', ofTypes? (ts.take n) = some l' ∧ l'.extents.toList = es.take n

theorem ofTypes?_eq_none_iff : ofTypes? ts = none ↔ ∃ e ∈ greedy 0 ts, e.Overflows :=
  append?_eq_none_iff

theorem extents_of_ofTypes? (h : ofTypes? ts = some l) : l.extents.toList = greedy 0 ts :=
  (append?_eq_some h).1

/-- The types that come first have their places whatever follows them. -/
theorem exists_ofTypes?_take (h : ofTypes? ts = some l) (n : Nat) :
    ∃ l', ofTypes? (ts.take n) = some l' ∧ l'.extents.toList = l.extents.toList.take n := by
  have hsplit := h
  rw [ofTypes?, ← List.take_append_drop n ts, append?_append] at hsplit
  obtain ⟨l', htake, hdrop⟩ := Option.bind_eq_some_iff.mp hsplit
  refine ⟨l', htake, ?_⟩
  have hlen : l'.extents.toList.length = min n ts.length := by
    rw [extents_of_ofTypes? htake, length_greedy, List.length_take]
  have hfull : l.extents.toList.length = ts.length := by
    rw [extents_of_ofTypes? h, length_greedy]
  rw [(append?_eq_some hdrop).1] at hfull ⊢
  rw [List.length_append] at hfull
  by_cases hn : n ≤ ts.length
  · rw [List.take_append_of_le_length (by omega), List.take_of_length_le (by omega)]
  · rw [List.drop_eq_nil_of_le (by omega), greedy, List.append_nil,
      List.take_of_length_le (by omega)]

theorem tight_of_ofTypes? (h : ofTypes? ts = some l) : l.Tight ts (greedy 0 ts) where
  extents := extents_of_ofTypes? h
  places := .of_ofTypes? h
  aligned _ _ _ := (greedy_iff.mpr rfl).dvd_start
  size := (append?_eq_some h).2.1
  align := (append?_eq_some h).2.2
  take n := extents_of_ofTypes? h ▸ exists_ofTypes?_take h n

end Layout

/-! ## 4. Frames -/

namespace FrameLayout

/-- The registers of the definition have the first areas of the placement and its slots those
behind them.  There is no other register and no other slot. -/
structure Tight (f : FrameLayout) (d : Definition) (es : List Extent) : Prop where
  layout : f.layout.Tight (d.regTypes.toList ++ d.slotTypes.toList) es
  reg : ∀ i < d.regTypes.size, ∃ e, es[i]? = some e ∧ f.regExtent? ⟨i⟩ = some e
  slot : ∀ j < d.slotTypes.size, ∃ e, es[d.regTypes.size + j]? = some e ∧
    f.slotExtent? ⟨j⟩ = some e
  noReg : ∀ i, d.regTypes.size ≤ i → f.regExtent? ⟨i⟩ = none
  noSlot : ∀ j, d.slotTypes.size ≤ j → f.slotExtent? ⟨j⟩ = none

variable {f : FrameLayout} {d : Definition}

theorem ofDefinition?_eq_none_iff : ofDefinition? d = none ↔
    Layout.ofTypes? (d.regTypes.toList ++ d.slotTypes.toList) = none := by
  unfold ofDefinition?
  cases Layout.ofTypes? (d.regTypes.toList ++ d.slotTypes.toList) <;> simp

theorem ofDefinition?_eq_some_iff : ofDefinition? d = some f ↔
    Layout.ofTypes? (d.regTypes.toList ++ d.slotTypes.toList) = some f.layout ∧
      f.regCount = d.regTypes.size := by
  unfold ofDefinition?
  cases Layout.ofTypes? (d.regTypes.toList ++ d.slotTypes.toList) with
  | none => simp
  | some l =>
    cases f
    simp [eq_comm]

theorem tight_of_ofDefinition? (h : ofDefinition? d = some f) :
    f.Tight d (greedy 0 (d.regTypes.toList ++ d.slotTypes.toList)) := by
  obtain ⟨hlayout, hcount⟩ := ofDefinition?_eq_some_iff.mp h
  have htight := Layout.tight_of_ofTypes? hlayout
  have hlen : (greedy 0 (d.regTypes.toList ++ d.slotTypes.toList)).length =
      d.regTypes.size + d.slotTypes.size := by simp
  -- The areas of the layout are those of the placement, under the same numbers.
  have hextent : ∀ i, f.layout.extent? i =
      (greedy 0 (d.regTypes.toList ++ d.slotTypes.toList))[i]? := by
    intro i
    rw [Layout.extent?, ← Array.getElem?_toList, htight.extents]
  refine ⟨htight, ?_, ?_, ?_, ?_⟩
  · intro i hi
    refine ⟨_, List.getElem?_eq_getElem (by omega), ?_⟩
    rw [regExtent?, if_pos (by rwa [hcount]), hextent]
    exact List.getElem?_eq_getElem _
  · intro j hj
    refine ⟨_, List.getElem?_eq_getElem (by omega), ?_⟩
    rw [slotExtent?, hcount, hextent]
    exact List.getElem?_eq_getElem _
  · intro i hi
    rw [regExtent?, if_neg (by rw [hcount]; exact Nat.not_lt.mpr hi)]
  · intro j hj
    rw [slotExtent?, hcount, hextent]
    exact List.getElem?_eq_none (by show _ ≤ _ + j; omega)

end FrameLayout

/-- There is one greedy placement of a list of types.  A layout of the types, or of a frame with
them as its registers and slots, fails exactly when a value of the placement starts or ends behind
the last word, and otherwise it is the placement. -/
theorem layouts_exact (ts : List Ty) : ∃ es, (∀ fs, Greedy 0 ts fs ↔ fs = es) ∧
    (Layout.ofTypes? ts = none ↔ ∃ e ∈ es, e.Overflows) ∧
    (∀ l, Layout.ofTypes? ts = some l → l.Tight ts es) ∧
    ∀ d : Definition, d.regTypes.toList ++ d.slotTypes.toList = ts →
      (FrameLayout.ofDefinition? d = none ↔ ∃ e ∈ es, e.Overflows) ∧
      ∀ f, FrameLayout.ofDefinition? d = some f → f.Tight d es := by
  refine ⟨greedy 0 ts, fun _ => greedy_iff, Layout.ofTypes?_eq_none_iff,
    fun _ => Layout.tight_of_ofTypes?, ?_⟩
  rintro d rfl
  refine ⟨?_, fun _ => FrameLayout.tight_of_ofDefinition?⟩
  rw [FrameLayout.ofDefinition?_eq_none_iff]
  exact Layout.ofTypes?_eq_none_iff

/-- A pointer behind an integer leaves four bytes out. -/
theorem layouts_exact_padding :
    (∃ l, Layout.ofTypes? [.int, .pointer, .int] = some l ∧
      l.Tight [.int, .pointer, .int] [⟨0, 4⟩, ⟨8, 8⟩, ⟨16, 4⟩]) ∧
    Layout.ofTypes? [.int, ⟨.struct 1, 4294967288, 3⟩] = none := by
  constructor
  · obtain ⟨es, hes, -, htight, -⟩ := layouts_exact [.int, .pointer, .int]
    rw [(hes [⟨0, 4⟩, ⟨8, 8⟩, ⟨16, 4⟩]).mp (greedy_iff.mpr (by decide))]
    exact ⟨⟨#[⟨0, 4⟩, ⟨8, 8⟩, ⟨16, 4⟩], 20, 8⟩, by decide, htight _ (by decide)⟩
  · obtain ⟨es, hes, hnone, -⟩ := layouts_exact [.int, ⟨.struct 1, 4294967288, 3⟩]
    rw [hnone, ← (hes [⟨0, 4⟩, ⟨8, 4294967288⟩]).mp (greedy_iff.mpr (by decide))]
    exact ⟨⟨8, 4294967288⟩, by decide, Or.inr (by decide)⟩

end RegIR
