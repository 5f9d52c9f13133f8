import RegIR.Program.Listing
/-!
# Separators

A text in front of a separator is found again when it lacks the first character of the separator.
So a row of such texts can be read off its elements with commas between them, or off its lines.
-/

namespace RegIR

/-! ## 1. Lists -/

/-- A list falls apart in one way where its elements stop to have a property. -/
theorem append_inj_of_forall {α : Type} {P : α → Prop} {xs xs' ys ys' : List α}
    (hxs : ∀ x ∈ xs, P x) (hxs' : ∀ x ∈ xs', P x) (hys : ∀ y, ys.head? = some y → ¬ P y)
    (hys' : ∀ y, ys'.head? = some y → ¬ P y) (h : xs ++ ys = xs' ++ ys') : xs = xs' ∧ ys = ys' := by
  -- What one part has more than the other would be the start of a rest.
  rcases List.append_eq_append_iff.mp h with ⟨zs, rfl, rfl⟩ | ⟨zs, rfl, rfl⟩
  · cases zs with
    | nil => exact ⟨(List.append_nil xs).symm, rfl⟩
    | cons z zs => exact absurd (hxs' z (by simp)) (hys z rfl)
  · cases zs with
    | nil => exact ⟨List.append_nil xs', rfl⟩
    | cons z zs => exact absurd (hxs z (by simp)) (hys' z rfl)

theorem eq_of_map_eq_map {α β : Type} {f g : α → β} {xs ys : List α}
    (hfg : ∀ x ∈ xs, ∀ y ∈ ys, f x = g y → x = y) (h : xs.map f = ys.map g) : xs = ys := by
  induction xs generalizing ys with
  | nil => exact (List.map_eq_nil_iff.mp h.symm).symm
  | cons x xs ih =>
    obtain ⟨y, ys, rfl⟩ := List.exists_cons_of_ne_nil (l := ys) fun hys => by
      rw [hys] at h
      cases h
    obtain ⟨hhead, htail⟩ := List.cons.inj h
    rw [hfg x List.mem_cons_self y List.mem_cons_self hhead,
      ih (fun x hx y hy => hfg x (List.mem_cons_of_mem _ hx) y (List.mem_cons_of_mem _ hy)) htail]

/-! ## 2. Texts -/

/-- The character does not occur in the text. -/
def Lacks (c : Char) (s : String) : Prop := c ∉ s.toList

instance (c : Char) (s : String) : Decidable (Lacks c s) :=
  inferInstanceAs (Decidable (c ∉ s.toList))

section
variable {c : Char} {s s' t t' : String}

@[simp] theorem lacks_append : Lacks c (s ++ t) ↔ Lacks c s ∧ Lacks c t := by
  simp only [Lacks, String.toList_append, List.mem_append, not_or]

theorem lacks_repr (hc : c.isDigit = false) (n : Nat) : Lacks c n.repr := by
  intro hmem
  rw [Nat.repr_eq_ofList_toDigits, String.toList_ofList] at hmem
  rw [Nat.isDigit_of_mem_toDigits (by decide) (by decide) hmem] at hc
  cases hc

theorem lacks_repr_int (hc : c.isDigit = false) (hminus : c ≠ '-') (z : Int) : Lacks c z.repr := by
  rw [Int.repr_eq_if]
  split
  · exact lacks_repr hc _
  · exact lacks_append.mpr ⟨by simpa [Lacks] using hminus, lacks_repr hc _⟩

/-- A numeral reads back. -/
theorem repr_nat_inj {m n : Nat} : m.repr = n.repr ↔ m = n := by
  refine ⟨fun h => ?_, congrArg Nat.repr⟩
  have hdigits := congrArg (fun s => Nat.ofDigitChars 10 s.toList 0) h
  simpa only [Nat.toList_repr, Nat.ofDigitChars_ten_toDigits] using hdigits

theorem repr_int_inj {y z : Int} (h : y.repr = z.repr) : y = z := by
  have hsign : ∀ m n : Nat, m.repr ≠ "-" ++ n.repr := fun m n hmn =>
    (lacks_append.mp (hmn ▸ lacks_repr (c := '-') (by decide) m)).1 (by decide)
  rw [Int.repr_eq_if, Int.repr_eq_if] at h
  split at h <;> split at h
  · have hnat := repr_nat_inj.mp h
    omega
  · exact absurd h (hsign _ _)
  · exact absurd h.symm (hsign _ _)
  · have hnat := repr_nat_inj.mp ((String.append_right_inj _).mp h)
    omega

/-- The text in front of a separator ends where the separator starts for the first time. -/
theorem append_separator_inj {sep : String} (hsep : sep.toList.head? = some c) (hs : Lacks c s)
    (hs' : Lacks c s') (h : s ++ (sep ++ t) = s' ++ (sep ++ t')) : s = s' ∧ t = t' := by
  have hlist := congrArg String.toList h
  simp only [String.toList_append] at hlist
  have hhead : ∀ (u : List Char) (y : Char), (sep.toList ++ u).head? = some y → ¬ y ≠ c := by
    intro u y hy hne
    rw [List.head?_append, hsep, Option.some_or] at hy
    exact hne (Option.some.inj hy).symm
  obtain ⟨hfront, hback⟩ := append_inj_of_forall (P := (· ≠ c))
    (fun x hx heq => hs (heq ▸ hx)) (fun x hx heq => hs' (heq ▸ hx)) (hhead _) (hhead _) hlist
  exact ⟨String.toList_inj.mp hfront, String.toList_inj.mp (List.append_cancel_left hback)⟩

theorem append_separator_ne_empty {sep : String} (hsep : sep.toList.head? = some c) :
    s ++ (sep ++ t) ≠ "" := by
  intro h
  have hlist := congrArg String.toList h
  simp only [String.toList_append, String.toList_empty, List.append_eq_nil_iff] at hlist
  rw [hlist.2.1] at hsep
  cases hsep

end

/-! ## 3. Rows -/

theorem commaSeparated_cons_cons (x y : String) (xs : List String) :
    commaSeparated (x :: y :: xs) = x ++ (", " ++ commaSeparated (y :: xs)) := by
  rw [commaSeparated, String.intercalate_cons_cons, String.append_assoc]
  rfl

theorem ne_commaSeparated_cons_cons {x y z : String} {ys : List String} (hx : Lacks ',' x) :
    x ≠ commaSeparated (y :: z :: ys) := by
  rintro rfl
  rw [commaSeparated_cons_cons, lacks_append, lacks_append] at hx
  exact absurd hx.2.1 (by decide)

/-- A row of texts without commas is found again, if none of them is empty. -/
theorem commaSeparated_inj {xs ys : List String} (hxs : ∀ x ∈ xs, x ≠ "" ∧ Lacks ',' x)
    (hys : ∀ y ∈ ys, y ≠ "" ∧ Lacks ',' y) (h : commaSeparated xs = commaSeparated ys) : xs = ys := by
  induction xs generalizing ys with
  | nil =>
    match ys with
    | [] => rfl
    | [y] => exact absurd h.symm (hys y List.mem_cons_self).1
    | y :: z :: ys => exact absurd h (ne_commaSeparated_cons_cons (by decide))
  | cons x xs ih =>
    obtain ⟨hx, hxs'⟩ := List.forall_mem_cons.mp hxs
    match ys with
    | [] =>
      cases xs with
      | nil => exact absurd h hx.1
      | cons => exact absurd h.symm (ne_commaSeparated_cons_cons (by decide))
    | [y] =>
      cases xs with
      | nil => exact congrArg ([·]) h
      | cons => exact absurd h.symm (ne_commaSeparated_cons_cons (hys y List.mem_cons_self).2)
    | y :: z :: ys =>
      obtain ⟨hy, hys'⟩ := List.forall_mem_cons.mp hys
      cases xs with
      | nil => exact absurd h (ne_commaSeparated_cons_cons hx.2)
      | cons x' xs =>
        rw [commaSeparated_cons_cons, commaSeparated_cons_cons] at h
        obtain ⟨rfl, hrest⟩ := append_separator_inj rfl hx.2 hy.2 h
        rw [ih hxs' hys' hrest]

theorem lacks_commaSeparated {c : Char} (hc : Lacks c ", ") {xs : List String}
    (hxs : ∀ x ∈ xs, Lacks c x) : Lacks c (commaSeparated xs) := by
  induction xs with
  | nil => exact List.not_mem_nil
  | cons x xs ih =>
    obtain ⟨hx, hxs'⟩ := List.forall_mem_cons.mp hxs
    cases xs with
    | nil => exact hx
    | cons y xs =>
      rw [commaSeparated_cons_cons, lacks_append, lacks_append]
      exact ⟨hx, hc, ih hxs'⟩

/-- Lines are found again in the text that they make. -/
theorem join_lines_inj {xs ys : List String} (hxs : ∀ x ∈ xs, Lacks '\n' x)
    (hys : ∀ y ∈ ys, Lacks '\n' y)
    (h : String.join (xs.map (· ++ "\n")) = String.join (ys.map (· ++ "\n"))) : xs = ys := by
  induction xs generalizing ys with
  | nil =>
    cases ys with
    | nil => rfl
    | cons y ys =>
      rw [List.map_cons, String.join_cons, String.append_assoc] at h
      exact absurd h.symm (append_separator_ne_empty rfl)
  | cons x xs ih =>
    cases ys with
    | nil =>
      rw [List.map_cons, String.join_cons, String.append_assoc] at h
      exact absurd h (append_separator_ne_empty rfl)
    | cons y ys =>
      rw [List.map_cons, List.map_cons, String.join_cons, String.join_cons, String.append_assoc,
        String.append_assoc] at h
      obtain ⟨hx, hxs'⟩ := List.forall_mem_cons.mp hxs
      obtain ⟨hy, hys'⟩ := List.forall_mem_cons.mp hys
      obtain ⟨rfl, hrest⟩ := append_separator_inj rfl hx hy h
      rw [ih hxs' hys' hrest]

end RegIR
