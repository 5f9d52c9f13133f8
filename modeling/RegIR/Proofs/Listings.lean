import RegIR.Proofs.Declarations
import RegIR.Proofs.Linking
import RegIR.Proofs.Separators
/-!
# Listings

The listing of a function tells everything about it but the types of its registers and slots and
the sizes of its aggregates: functions of programs with one table of names that print the same
have the same name, the same kinds of arguments and result, and the same operations in the same
blocks.
-/

namespace RegIR

/-! ## 1. Names of parts -/

theorem Reg.name_eq (r : Reg) : r.name = "%" ++ r.index.repr := rfl

theorem BlockId.name_eq (b : BlockId) : b.name = "bb" ++ b.index.repr := rfl

theorem Reg.name_inj {r s : Reg} (h : r.name = s.name) : r = s := by
  rw [name_eq, name_eq, String.append_right_inj, repr_nat_inj] at h
  exact congrArg Reg.mk h

theorem BlockId.name_inj {b c : BlockId} (h : b.name = c.name) : b = c := by
  rw [name_eq, name_eq, String.append_right_inj, repr_nat_inj] at h
  exact congrArg BlockId.mk h

theorem Reg.lacks_name {c : Char} (hc : c.isDigit = false) (hlit : Lacks c "%") (r : Reg) :
    Lacks c r.name :=
  lacks_append.mpr ⟨hlit, lacks_repr hc _⟩

theorem BlockId.lacks_name {c : Char} (hc : c.isDigit = false) (hlit : Lacks c "bb")
    (b : BlockId) : Lacks c b.name :=
  lacks_append.mpr ⟨hlit, lacks_repr hc _⟩

theorem Reg.name_ne_empty (r : Reg) : r.name ≠ "" := by
  rw [name_eq, Ne, String.append_eq_empty_iff]
  exact fun h => absurd h.1 (by decide)

theorem Ty.name_struct {t : Ty} {id : Nat} (h : t.kind = .struct id) :
    t.name = "struct." ++ id.repr := by
  rw [name, h]
  rfl

theorem Ty.lacks_name {c : Char} (hc : c.isDigit = false)
    (hlit : Lacks c "i32" ∧ Lacks c "ptr" ∧ Lacks c "struct.") (t : Ty) : Lacks c t.name := by
  cases h : t.kind with
  | int =>
    rw [name, h]
    exact hlit.1
  | pointer =>
    rw [name, h]
    exact hlit.2.1
  | struct id =>
    rw [name_struct h]
    exact lacks_append.mpr ⟨hlit.2.2, lacks_repr hc _⟩

theorem Ty.name_ne_empty (t : Ty) : t.name ≠ "" := by
  cases h : t.kind with
  | int => rw [name, h]; decide
  | pointer => rw [name, h]; decide
  | struct id =>
    rw [name_struct h, Ne, String.append_eq_empty_iff]
    exact fun h => absurd h.1 (by decide)

/-- The first character of the names of a kind. -/
def Kind.initial : Kind → Char
  | int => 'i'
  | pointer => 'p'
  | struct _ => 's'

theorem Ty.head?_name (t : Ty) : t.name.toList.head? = some t.kind.initial := by
  cases h : t.kind with
  | int =>
    rw [name, h]
    rfl
  | pointer =>
    rw [name, h]
    rfl
  | struct id =>
    rw [name_struct h, String.toList_append]
    rfl

/-- Types with one name have one kind. -/
theorem Ty.kind_eq_of_name {t u : Ty} (h : t.name = u.name) : t.kind = u.kind := by
  have hinitial : t.kind.initial = u.kind.initial := by
    have hhead := t.head?_name
    rw [h, u.head?_name] at hhead
    exact (Option.some.inj hhead).symm
  -- The first characters tell the kinds apart, and the number tells the aggregates apart.
  cases ht : t.kind <;> cases hu : u.kind <;> rw [ht, hu] at hinitial
  case struct.struct =>
    rw [name_struct ht, name_struct hu, String.append_right_inj, repr_nat_inj] at h
    rw [h]
  all_goals first | rfl | simp [Kind.initial] at hinitial

/-! ## 2. Texts of operations -/

/-- The form of an operation, with its operator. -/
inductive Form where
  | readArg | literal | stackAlloc | load | store | call | branch | condBranch | ret
  | unary (op : UnaryOp)
  | binary (op : BinaryOp)
  deriving DecidableEq, Repr

namespace Form

/-- The word that stands for a form in listings. -/
def keyword : Form → String
  | readArg => "arg"
  | literal => "const"
  | stackAlloc => "alloca"
  | load => "load"
  | store => "store"
  | call => "call"
  | branch => "br"
  | condBranch => "condbr"
  | ret => "ret"
  | unary op => op.mnemonic
  | binary op => op.mnemonic

def all : List Form :=
  [readArg, literal, stackAlloc, load, store, call, branch, condBranch, ret] ++
    UnaryOp.all.map unary ++ BinaryOp.all.map binary

/-- The form with a given keyword. -/
def ofKeyword? (s : String) : Option Form := all.find? (·.keyword == s)

theorem ofKeyword?_keyword (f : Form) : ofKeyword? f.keyword = some f := by
  cases f with
  | unary op => cases op <;> rfl
  | binary op => cases op <;> rfl
  | _ => rfl

theorem keyword_inj {f g : Form} (h : f.keyword = g.keyword) : f = g := by
  have hf := f.ofKeyword?_keyword
  rw [h, g.ofKeyword?_keyword] at hf
  exact (Option.some.inj hf).symm

theorem lacks_keyword (f : Form) : Lacks ' ' f.keyword ∧ Lacks '\n' f.keyword ∧
    f.keyword.toList.head? ≠ some '%' := by
  cases f with
  | unary op => cases op <;> decide
  | binary op => cases op <;> decide
  | _ => decide

end Form

namespace Operation

def form : Operation → Form
  | readArg .. => .readArg
  | literal .. => .literal
  | unary _ op _ => .unary op
  | binary _ op _ _ => .binary op
  | stackAlloc .. => .stackAlloc
  | load .. => .load
  | store .. => .store
  | call .. => .call
  | branch _ => .branch
  | condBranch .. => .condBranch
  | ret _ => .ret

end Operation

namespace Program

/-- What stands behind the keyword of an operation. -/
def operandsText (p : Program) (t : String) : Operation → String
  | .readArg _ i => i.repr ++ (" : " ++ t)
  | .literal _ v => v.toInt.repr
  | .unary _ _ x => x.name
  | .binary _ _ x y => x.name ++ (", " ++ y.name)
  | .stackAlloc _ s => "slot" ++ s.index.repr
  | .load _ q => t ++ (", " ++ q.name)
  | .store q x => x.name ++ (", " ++ q.name)
  | .call _ f args =>
    "@" ++ (p.calleeName f ++ ("(" ++ (commaSeparated (args.map Reg.name) ++ ")")))
  | .branch b => b.name
  | .condBranch x b c => x.name ++ (", " ++ (b.name ++ (", " ++ c.name)))
  | .ret x => x.name

/-- What stands in front of the keyword of an operation. -/
def targetText : Option Reg → String
  | none => ""
  | some r => r.name ++ (" " ++ "= ")

/-- The text of an operation names its register, if it has one, its form and its operands. -/
theorem operationText_eq (p : Program) (t : String) (op : Operation) :
    p.operationText t op =
      targetText op.target? ++ (op.form.keyword ++ (" " ++ p.operandsText t op)) := by
  apply String.toList_inj.mp
  cases op <;> simp [operationText, operandsText, targetText, Operation.target?, Operation.form,
    Form.keyword, toString]

/-! ## 3. Names of functions -/

/-- The two programs have one table of names, in which each name stands once. -/
structure SameNames (p q : Program) : Prop where
  table : p.functions.map Linked.name = q.functions.map Linked.name
  unique : ∀ f g l l', p.linked? f = some l → p.linked? g = some l' → l.name = l'.name → f = g

/-- No name contains the character that ends names in listings, or a line feed. -/
def PlainNames (p : Program) : Prop := ∀ l ∈ p.functions, Lacks '(' l.name ∧ Lacks '\n' l.name

end Program

/-- If the operation calls a function, it is one of the program. -/
def Operation.Resolves (p : Program) (op : Operation) : Prop :=
  ∀ r f args, op = .call r f args → ∃ l, p.linked? f = some l

namespace Program

variable {p q : Program} {t u : String} {op op' : Operation}

theorem calleeName_of_linked? {f : FuncId} {l : Linked} (h : p.linked? f = some l) :
    p.calleeName f = l.name := by
  rw [calleeName, h]

theorem linked?_of_table (h : p.functions.map Linked.name = q.functions.map Linked.name)
    {f : FuncId} {l : Linked} (hl : q.linked? f = some l) :
    ∃ l', p.linked? f = some l' ∧ l'.name = l.name := by
  have hget := congrArg (·[f.index]?) h
  rw [Array.getElem?_map, Array.getElem?_map, show q.functions[f.index]? = some l from hl] at hget
  exact Option.map_eq_some_iff.mp hget

theorem SameNames.eq_of_calleeName (hnames : p.SameNames q) {f g : FuncId}
    (hf : ∃ l, p.linked? f = some l) (hg : ∃ l, q.linked? g = some l)
    (h : p.calleeName f = q.calleeName g) : f = g := by
  obtain ⟨l, hl⟩ := hf
  obtain ⟨l', hl'⟩ := hg
  obtain ⟨l'', hl'', hname⟩ := linked?_of_table hnames.table hl'
  rw [calleeName_of_linked? hl, calleeName_of_linked? hl'] at h
  exact hnames.unique f g l l'' hl hl'' (h.trans hname.symm)

theorem PlainNames.of_table (hplain : p.PlainNames)
    (h : p.functions.map Linked.name = q.functions.map Linked.name) : q.PlainNames := by
  intro l hl
  obtain ⟨i, hi⟩ := Array.getElem?_of_mem hl
  obtain ⟨l', hl', hname⟩ := linked?_of_table h (f := ⟨i⟩) hi
  rw [← hname]
  exact hplain l' (Array.mem_of_getElem? hl')

/-- The character may stand in a name of letters, digits and underscores. -/
def isWordChar (c : Char) : Bool := c.isAlphanum || c == '_'

theorem plainNames_of_words
    (h : ∀ l ∈ p.functions, l.name.toList.all isWordChar = true) : p.PlainNames := by
  have hlacks : ∀ c, isWordChar c = false → ∀ l ∈ p.functions, Lacks c l.name := by
    intro c hc l hl hmem
    rw [List.all_eq_true.mp (h l hl) c hmem] at hc
    cases hc
  exact fun l hl => ⟨hlacks '(' rfl l hl, hlacks '\n' rfl l hl⟩

theorem PlainNames.calleeName (hplain : p.PlainNames) (f : FuncId) :
    Lacks '(' (p.calleeName f) ∧ Lacks '\n' (p.calleeName f) := by
  unfold Program.calleeName
  split
  · decide
  · rename_i l hl
    exact hplain l (Array.mem_of_getElem? hl)

/-! ## 4. Operations with one text -/

theorem commaSeparated_names_inj {rs ss : List Reg}
    (h : commaSeparated (rs.map Reg.name) = commaSeparated (ss.map Reg.name)) : rs = ss := by
  have hlacks : ∀ (rs : List Reg), ∀ x ∈ rs.map Reg.name, x ≠ "" ∧ Lacks ',' x := by
    intro rs x hx
    obtain ⟨r, -, rfl⟩ := List.mem_map.mp hx
    exact ⟨r.name_ne_empty, r.lacks_name rfl (by decide)⟩
  exact eq_of_map_eq_map (fun r _ s _ => Reg.name_inj) (commaSeparated_inj (hlacks rs) (hlacks ss) h)

/-- Operations of one form with one target that spell the same operands are equal. -/
theorem operandsText_inj (hnames : p.SameNames q) (hp : p.PlainNames) (ht : Lacks ',' t)
    (hu : Lacks ',' u) (hop : op.Resolves p) (hop' : op'.Resolves q) (hform : op.form = op'.form)
    (htarget : op.target? = op'.target?) (h : p.operandsText t op = q.operandsText u op') :
    op = op' := by
  have hcomma : ∀ r : Reg, Lacks ',' r.name := fun r => r.lacks_name rfl (by decide)
  -- One case for each form: two operations of different forms are none.
  cases op <;> cases op' <;> cases hform
  case readArg.readArg.refl r i r' i' =>
    cases htarget
    obtain ⟨hi, -⟩ := append_separator_inj rfl (lacks_repr rfl i) (lacks_repr rfl i') h
    rw [repr_nat_inj.mp hi]
  case literal.literal.refl r v r' v' =>
    cases htarget
    rw [Int32.toInt_inj.mp (repr_int_inj h)]
  case unary.unary.refl r o x r' x' =>
    cases htarget
    rw [Reg.name_inj h]
  case binary.binary.refl r o x y r' x' y' =>
    cases htarget
    obtain ⟨hx, hy⟩ := append_separator_inj rfl (hcomma x) (hcomma x') h
    rw [Reg.name_inj hx, Reg.name_inj hy]
  case stackAlloc.stackAlloc.refl r s r' s' =>
    cases htarget
    rw [operandsText, operandsText, String.append_right_inj, repr_nat_inj] at h
    obtain ⟨i⟩ := s
    rw [show i = s'.index from h]
  case load.load.refl r x r' x' =>
    cases htarget
    rw [Reg.name_inj (append_separator_inj rfl ht hu h).2]
  case store.store.refl x y x' y' =>
    obtain ⟨hy, hx⟩ := append_separator_inj rfl (hcomma y) (hcomma y') h
    rw [Reg.name_inj hx, Reg.name_inj hy]
  case call.call.refl r f args r' f' args' =>
    cases htarget
    rw [operandsText, operandsText, String.append_right_inj] at h
    obtain ⟨hf, hargs⟩ := append_separator_inj rfl (hp.calleeName f).1
      ((hp.of_table hnames.table).calleeName f').1 h
    rw [String.append_left_inj] at hargs
    rw [hnames.eq_of_calleeName (hop _ _ _ rfl) (hop' _ _ _ rfl) hf, commaSeparated_names_inj hargs]
  case branch.branch.refl b b' =>
    rw [BlockId.name_inj h]
  case condBranch.condBranch.refl x b c x' b' c' =>
    have hblock : ∀ b : BlockId, Lacks ',' b.name := fun b => b.lacks_name rfl (by decide)
    obtain ⟨hx, hrest⟩ := append_separator_inj rfl (hcomma x) (hcomma x') h
    obtain ⟨hb, hc⟩ := append_separator_inj rfl (hblock b) (hblock b') hrest
    rw [Reg.name_inj hx, BlockId.name_inj hb, BlockId.name_inj hc]
  case ret.ret.refl x x' =>
    rw [Reg.name_inj h]

/-- The first word of an operation is its register or its keyword. -/
theorem targetText_inj {a b : Option Reg} {f g : Form} {s s' : String}
    (h : targetText a ++ (f.keyword ++ (" " ++ s)) = targetText b ++ (g.keyword ++ (" " ++ s'))) :
    a = b ∧ f.keyword ++ (" " ++ s) = g.keyword ++ (" " ++ s') := by
  have hspace : ∀ r : Reg, Lacks ' ' r.name := fun r => r.lacks_name rfl (by decide)
  have hne : ∀ (f : Form) (r : Reg), f.keyword ≠ r.name := by
    intro f r heq
    refine f.lacks_keyword.2.2 ?_
    rw [heq, Reg.name_eq, String.toList_append]
    rfl
  cases a with
  | none =>
    cases b with
    | none => exact ⟨rfl, h⟩
    | some r =>
      rw [targetText, targetText, String.empty_append, String.append_assoc, String.append_assoc] at h
      exact absurd (append_separator_inj rfl f.lacks_keyword.1 (hspace r) h).1 (hne f r)
  | some r =>
    cases b with
    | none =>
      rw [targetText, targetText, String.empty_append, String.append_assoc, String.append_assoc] at h
      exact absurd (append_separator_inj rfl (hspace r) g.lacks_keyword.1 h).1.symm (hne g r)
    | some r' =>
      rw [targetText, targetText, String.append_assoc, String.append_assoc, String.append_assoc,
        String.append_assoc] at h
      obtain ⟨hr, hrest⟩ := append_separator_inj rfl (hspace r) (hspace r') h
      exact ⟨congrArg some (Reg.name_inj hr), (String.append_right_inj _).mp hrest⟩

/-- Operations with one text are equal. -/
theorem operationText_inj (hnames : p.SameNames q) (hp : p.PlainNames) (ht : Lacks ',' t)
    (hu : Lacks ',' u) (hop : op.Resolves p) (hop' : op'.Resolves q)
    (h : p.operationText t op = q.operationText u op') : op = op' := by
  rw [operationText_eq, operationText_eq] at h
  obtain ⟨htarget, hrest⟩ := targetText_inj h
  obtain ⟨hform, hoperands⟩ :=
    append_separator_inj rfl op.form.lacks_keyword.1 op'.form.lacks_keyword.1 hrest
  exact operandsText_inj hnames hp ht hu hop hop' (Form.keyword_inj hform) htarget hoperands

theorem lacks_operationText (hp : p.PlainNames) (ht : Lacks '\n' t) (op : Operation) :
    Lacks '\n' (p.operationText t op) := by
  have hreg : ∀ r : Reg, Lacks '\n' r.name := fun r => r.lacks_name rfl (by decide)
  have hblock : ∀ b : BlockId, Lacks '\n' b.name := fun b => b.lacks_name rfl (by decide)
  have hlit : Lacks '\n' " " ∧ Lacks '\n' "= " ∧ Lacks '\n' ", " ∧ Lacks '\n' " : " ∧
    Lacks '\n' "slot" ∧ Lacks '\n' "@" ∧ Lacks '\n' "(" ∧ Lacks '\n' ")" := by decide
  rw [operationText_eq, lacks_append, lacks_append, lacks_append]
  refine ⟨?_, op.form.lacks_keyword.2.1, hlit.1, ?_⟩
  · cases op.target? with
    | none => exact List.not_mem_nil
    | some r => simp only [targetText, lacks_append, hreg, hlit, and_self]
  · cases op
    case call r f args =>
      have hargs : Lacks '\n' (commaSeparated (args.map Reg.name)) := by
        apply lacks_commaSeparated hlit.2.2.1
        simp only [List.mem_map]
        rintro x ⟨r, -, rfl⟩
        exact hreg r
      simp only [operandsText, lacks_append, hargs, hp.calleeName, hlit, and_self]
    all_goals
      simp only [operandsText, lacks_append, lacks_repr (c := '\n') rfl,
        lacks_repr_int (c := '\n') rfl (by decide), hreg, hblock, hlit, ht, and_self]

/-! ## 5. Lines of definitions -/

theorem lacks_targetTypeText {c : Char} (hc : c.isDigit = false)
    (hlit : Lacks c "i32" ∧ Lacks c "ptr" ∧ Lacks c "struct.") (d : Definition) (op : Operation) :
    Lacks c (targetTypeText d op) := by
  unfold targetTypeText
  split
  · exact List.not_mem_nil
  · split
    · exact List.not_mem_nil
    · exact Ty.lacks_name hc hlit _

/-- The line of an operation. -/
def operationLine (p : Program) (d : Definition) (op : Operation) : String :=
  "    " ++ p.operationText (targetTypeText d op) op

/-- The lines of some blocks, the first of which has the number `k`. -/
def bodyLines (p : Program) (d : Definition) (k : Nat) (bs : List Block) : List String :=
  (bs.zipIdx k).flatMap fun (block, b) => p.blockLines d ⟨b⟩ block

section
variable {d e : Definition} {k : Nat} {bs bs' : List Block}

theorem bodyLines_cons (b : Block) : p.bodyLines d k (b :: bs) =
    (BlockId.name ⟨k⟩ ++ ":") :: (b.toList.map (p.operationLine d) ++ p.bodyLines d (k + 1) bs) :=
  rfl

theorem definitionLines_eq (p : Program) (d : Definition) : p.definitionLines d =
    ("define " ++ signatureText d.signature ++ " \x7b") ::
      (p.bodyLines d 0 d.blocks.toList ++ ["\x7d"]) := rfl

theorem head?_label (b : BlockId) : (b.name ++ ":").toList.head? = some 'b' := by
  rw [BlockId.name_eq, String.append_assoc, String.toList_append]
  rfl

theorem head?_operationLine (p : Program) (d : Definition) (op : Operation) :
    (p.operationLine d op).toList.head? = some ' ' := by
  rw [operationLine, String.toList_append]
  rfl

/-- What follows the operations of a block is not indented as they are. -/
theorem head?_bodyLines {line : String} (h : (p.bodyLines d k bs ++ ["\x7d"]).head? = some line) :
    line.toList.head? ≠ some ' ' := by
  cases bs with
  | nil =>
    cases h
    decide
  | cons b bs =>
    rw [bodyLines_cons] at h
    cases h
    rw [head?_label]
    decide

theorem operationLine_inj (hnames : p.SameNames q) (hp : p.PlainNames) (hop : op.Resolves p)
    (hop' : op'.Resolves q) (h : p.operationLine d op = q.operationLine e op') : op = op' := by
  refine operationText_inj hnames hp ?_ ?_ hop hop' ((String.append_right_inj _).mp h)
  · exact lacks_targetTypeText rfl (by decide) d op
  · exact lacks_targetTypeText rfl (by decide) e op'

/-- Blocks with the same lines are equal. -/
theorem bodyLines_inj (hnames : p.SameNames q) (hp : p.PlainNames)
    (hbs : ∀ b ∈ bs, ∀ op ∈ b.toList, op.Resolves p)
    (hbs' : ∀ b ∈ bs', ∀ op ∈ b.toList, op.Resolves q)
    (h : p.bodyLines d k bs ++ ["\x7d"] = q.bodyLines e k bs' ++ ["\x7d"]) : bs = bs' := by
  have hlabel : ∀ k : Nat, "\x7d" ≠ BlockId.name ⟨k⟩ ++ ":" := by
    intro k heq
    have hhead := head?_label ⟨k⟩
    rw [← heq] at hhead
    exact absurd hhead (by decide)
  have hindented : ∀ (p : Program) (d : Definition) (b : Block),
      ∀ line ∈ b.toList.map (p.operationLine d), line.toList.head? = some ' ' := by
    intro p d b line hline
    obtain ⟨op, -, rfl⟩ := List.mem_map.mp hline
    exact p.head?_operationLine d op
  induction bs generalizing k bs' with
  | nil =>
    cases bs' with
    | nil => rfl
    | cons b' bs' => exact absurd (List.cons.inj h).1 (hlabel k)
  | cons b bs ih =>
    cases bs' with
    | nil => exact absurd (List.cons.inj h).1.symm (hlabel k)
    | cons b' bs' =>
      obtain ⟨hb, hrest⟩ := List.forall_mem_cons.mp hbs
      obtain ⟨hb', hrest'⟩ := List.forall_mem_cons.mp hbs'
      rw [bodyLines_cons, bodyLines_cons, List.cons_append, List.cons_append, List.append_assoc,
        List.append_assoc] at h
      obtain ⟨hops, hbody⟩ := append_inj_of_forall (hindented p d b) (hindented q e b')
        (fun _ => head?_bodyLines) (fun _ => head?_bodyLines) (List.cons.inj h).2
      have hblock : b.toList = b'.toList := eq_of_map_eq_map
        (fun op hop op' hop' => operationLine_inj hnames hp (hb op hop) (hb' op' hop')) hops
      rw [Array.toList_inj.mp hblock, ih hrest hrest' hbody]

theorem signatureText_eq (s : Signature) : signatureText s =
    s.ret.name ++ (" @" ++ (s.name ++ ("(" ++ (commaSeparated (s.args.map Ty.name) ++ ")")))) := by
  apply String.toList_inj.mp
  simp [signatureText, toString]

/-- A signature tells the name of its function and the kinds of its arguments and its result. -/
theorem signatureText_inj {s s' : Signature} (hs : Lacks '(' s.name) (hs' : Lacks '(' s'.name)
    (h : signatureText s = signatureText s') :
    s.name = s'.name ∧ s.args.map Ty.kind = s'.args.map Ty.kind ∧ s.ret.kind = s'.ret.kind := by
  have hspace : ∀ t : Ty, Lacks ' ' t.name := fun t => t.lacks_name rfl (by decide)
  have hargs : ∀ ts : List Ty, ∀ x ∈ ts.map Ty.name, x ≠ "" ∧ Lacks ',' x := by
    intro ts x hx
    obtain ⟨t, -, rfl⟩ := List.mem_map.mp hx
    exact ⟨t.name_ne_empty, t.lacks_name rfl (by decide)⟩
  rw [signatureText_eq, signatureText_eq] at h
  obtain ⟨hret, hrest⟩ := append_separator_inj rfl (hspace s.ret) (hspace s'.ret) h
  obtain ⟨hname, hrest⟩ := append_separator_inj rfl hs hs' hrest
  rw [String.append_left_inj] at hrest
  have hnames := commaSeparated_inj (hargs s.args) (hargs s'.args) hrest
  refine ⟨hname, ?_, Ty.kind_eq_of_name hret⟩
  rw [← List.forall₂_eq_eq_eq, List.forall₂_map_left_iff, List.forall₂_map_right_iff] at hnames ⊢
  exact hnames.imp fun _ _ => Ty.kind_eq_of_name

theorem lacks_signatureText {s : Signature} (hs : Lacks '\n' s.name) :
    Lacks '\n' (signatureText s) := by
  have hty : ∀ t : Ty, Lacks '\n' t.name := fun t => t.lacks_name rfl (by decide)
  have hargs : Lacks '\n' (commaSeparated (s.args.map Ty.name)) := by
    apply lacks_commaSeparated (by decide)
    simp only [List.mem_map]
    rintro x ⟨t, -, rfl⟩
    exact hty t
  have hlit : Lacks '\n' " @" ∧ Lacks '\n' "(" ∧ Lacks '\n' ")" := by decide
  simp only [signatureText_eq, lacks_append, hty, hs, hargs, hlit, and_self]

theorem mem_bodyLines {line : String} (h : line ∈ p.bodyLines d k bs) :
    (∃ b : BlockId, line = b.name ++ ":") ∨ ∃ op, line = p.operationLine d op := by
  obtain ⟨⟨block, b⟩, -, hline⟩ := List.mem_flatMap.mp h
  rcases List.mem_cons.mp hline with rfl | hline
  · exact Or.inl ⟨⟨b⟩, rfl⟩
  · obtain ⟨op, -, rfl⟩ := List.mem_map.mp hline
    exact Or.inr ⟨op, rfl⟩

/-- No line of a definition contains a line feed. -/
theorem lacks_of_mem_definitionLines (hp : p.PlainNames) (hd : Lacks '\n' d.name) {line : String}
    (hline : line ∈ p.definitionLines d) : Lacks '\n' line := by
  have hlit : Lacks '\n' "define " ∧ Lacks '\n' " \x7b" ∧ Lacks '\n' ":" ∧ Lacks '\n' "    " := by
    decide
  rw [definitionLines_eq, List.mem_cons, List.mem_append, List.mem_singleton] at hline
  rcases hline with rfl | hbody | rfl
  · exact lacks_append.mpr ⟨lacks_append.mpr ⟨hlit.1, lacks_signatureText hd⟩, hlit.2.1⟩
  · rcases mem_bodyLines hbody with ⟨b, rfl⟩ | ⟨op, rfl⟩
    · exact lacks_append.mpr ⟨b.lacks_name rfl (by decide), hlit.2.2.1⟩
    · refine lacks_append.mpr ⟨hlit.2.2.2, lacks_operationText hp ?_ op⟩
      exact lacks_targetTypeText rfl (by decide) d op
  · decide

end

/-! ## 6. Listings of functions -/

theorem exists_linked?_of_function? {f : FuncId} {fn : Function} (h : p.function? f = some fn) :
    ∃ l, p.linked? f = some l ∧ l.function = fn :=
  Option.map_eq_some_iff.mp h

theorem sameNames_of_built {m : Module} (hm : m.Built) (hp : m.finalize = .ok p)
    (htable : p.functions.map Linked.name = q.functions.map Linked.name) : p.SameNames q := by
  have hsig : ∀ {f : FuncId} {l : Linked}, p.linked? f = some l →
      m.sig? f = some l.function.signature := by
    intro f l hl
    rw [Module.sig?, ← Module.function?_of_finalize hp, function?, hl]
    rfl
  obtain ⟨script, rfl⟩ := hm
  refine ⟨htable, ?_⟩
  intro f g l l' hl hl' hname
  exact (Draft.regular_empty.run script).1.names f g _ _ (hsig hl) (hsig hl') hname

theorem resolves_of_built {m : Module} (hm : m.Built) (hp : m.finalize = .ok p) {f : FuncId}
    {d : Definition} (hd : p.function? f = some (.defined d)) :
    ∀ b ∈ d.blocks.toList, ∀ op ∈ b.toList, op.Resolves p := by
  rintro b hb op hop r callee args rfl
  obtain ⟨l, hl, hfn⟩ := exists_linked?_of_function? hd
  cases l with
  | external _ _ => cases hfn
  | code c =>
    cases hfn
    obtain ⟨i, hi⟩ := Array.getElem?_of_mem (Array.mem_toList_iff.mp hb)
    obtain ⟨j, hj⟩ := Array.getElem?_of_mem (Array.mem_toList_iff.mp hop)
    obtain ⟨s, hs, -⟩ := (hm.sound.finalize hp).wellTyped f c hl i j _ ⟨b, hi, hj⟩
    obtain ⟨fn, hcallee, -⟩ := Option.map_eq_some_iff.mp hs
    obtain ⟨l', hl', -⟩ := exists_linked?_of_function? hcallee
    exact ⟨l', hl'⟩

theorem PlainNames.name (hplain : p.PlainNames) {f : FuncId} {d : Definition}
    (hd : p.function? f = some (.defined d)) : Lacks '(' d.name ∧ Lacks '\n' d.name := by
  obtain ⟨l, hl, hfn⟩ := exists_linked?_of_function? hd
  have hname : l.name = d.name := congrArg Function.name hfn
  rw [← hname]
  exact hplain l (Array.mem_of_getElem? hl)

theorem listing_of_defined {f : FuncId} {d : Definition} (hd : p.function? f = some (.defined d)) :
    p.listing f = String.join ((p.definitionLines d).map (· ++ "\n")) := by
  rw [listing, hd]

/-- Two functions that print the same have the same name, the same kinds of arguments and result,
and the same operations in the same blocks, if their programs have one table of names and no name
contains what ends a name in a listing. -/
theorem listing_faithful {m n : Module} (hm : m.Built) (hn : n.Built)
    (hp : m.finalize = .ok p) (hq : n.finalize = .ok q)
    (htable : p.functions.map Linked.name = q.functions.map Linked.name) (hplain : p.PlainNames)
    {f g : FuncId} {d e : Definition} (hd : p.function? f = some (.defined d))
    (he : q.function? g = some (.defined e)) (h : p.listing f = q.listing g) :
    d.name = e.name ∧ d.signature.args.map Ty.kind = e.signature.args.map Ty.kind ∧
      d.signature.ret.kind = e.signature.ret.kind ∧ d.blocks = e.blocks := by
  have hnames := sameNames_of_built hm hp htable
  have hplain' := hplain.of_table htable
  have hdname := hplain.name hd
  have hename := hplain'.name he
  rw [listing_of_defined hd, listing_of_defined he] at h
  have hlines := join_lines_inj (fun _ => lacks_of_mem_definitionLines hplain hdname.2)
    (fun _ => lacks_of_mem_definitionLines hplain' hename.2) h
  rw [definitionLines_eq, definitionLines_eq] at hlines
  obtain ⟨hhead, hbody⟩ := List.cons.inj hlines
  rw [String.append_left_inj, String.append_right_inj] at hhead
  obtain ⟨hname, hargs, hret⟩ := signatureText_inj hdname.1 hename.1 hhead
  refine ⟨hname, hargs, hret, Array.toList_inj.mp ?_⟩
  exact bodyLines_inj hnames hplain (resolves_of_built hm hp hd) (resolves_of_built hn hq he) hbody

/-- Two aggregates that are spelled the same. -/
def slimTy : Ty := { Ty.int with kind := .struct 1 }

def wideTy : Ty := { slimTy with size := 8 }

/-- A function that returns the aggregate that it is given, on one of two ways. -/
def picking (t : Ty) : Module :=
  (Draft.empty.run
    [.defineStruct t.size t.align, .declare ⟨"pick_1", [.int, t], t⟩,
      .declareExternal ⟨"tick", [.int], .int⟩ "host_tick", .select ⟨0⟩, .body .openBlock,
      .body .openBlock, .body .openBlock, .body (.switchTo ⟨0⟩), .body (.readArg 0),
      .body (.readArg 1), .body (.call ⟨1⟩ [⟨0⟩]), .body (.condBranch ⟨2⟩ ⟨1⟩ ⟨2⟩),
      .body (.switchTo ⟨1⟩), .body (.ret ⟨1⟩), .body (.switchTo ⟨2⟩), .body (.literal (-7)),
      .body (.binary .mul ⟨3⟩ ⟨0⟩), .body (.branch ⟨1⟩)]).2.module

def pick (t : Ty) : Definition :=
  ⟨⟨"pick_1", [.int, t], t⟩,
    #[#[.readArg ⟨0⟩ 0, .readArg ⟨1⟩ 1, .call ⟨2⟩ ⟨1⟩ [⟨0⟩], .condBranch ⟨2⟩ ⟨1⟩ ⟨2⟩], #[.ret ⟨1⟩],
      #[.literal ⟨3⟩ (-7), .binary ⟨4⟩ .mul ⟨3⟩ ⟨0⟩, .branch ⟨1⟩]],
    #[.int, t, .int, .int, .int], #[]⟩

def tick : Linked := .external ⟨⟨"tick", [.int], .int⟩, "host_tick"⟩ ⟨#[⟨0, 4⟩], 4, 4⟩

def slimProgram : Program :=
  ⟨#[.code ⟨pick slimTy, ⟨⟨#[⟨0, 4⟩, ⟨4, 4⟩, ⟨8, 4⟩, ⟨12, 4⟩, ⟨16, 4⟩], 20, 4⟩, 5⟩,
    ⟨#[⟨0, 4⟩, ⟨4, 4⟩], 8, 4⟩⟩, tick]⟩

def wideProgram : Program :=
  ⟨#[.code ⟨pick wideTy, ⟨⟨#[⟨0, 4⟩, ⟨4, 8⟩, ⟨12, 4⟩, ⟨16, 4⟩, ⟨20, 4⟩], 24, 4⟩, 5⟩,
    ⟨#[⟨0, 4⟩, ⟨4, 8⟩], 12, 4⟩⟩, tick]⟩

/-- The two programs differ, but not in what their functions print, and so not in their blocks. -/
theorem listing_faithful_picking :
    (picking slimTy).finalize = .ok slimProgram ∧ (picking wideTy).finalize = .ok wideProgram ∧
      slimProgram.functions.map Linked.name = wideProgram.functions.map Linked.name ∧
      slimProgram.PlainNames ∧ slimProgram ≠ wideProgram ∧
      slimProgram.listing ⟨0⟩ = wideProgram.listing ⟨0⟩ ∧
      (pick slimTy).signature.args.map Ty.kind = (pick wideTy).signature.args.map Ty.kind ∧
      (pick slimTy).blocks = (pick wideTy).blocks := by
  have hslim : (picking slimTy).finalize = .ok slimProgram :=
    Module.finalize_eq_ok_iff.mpr ⟨by decide +kernel, by cbv, by decide +kernel⟩
  have hwide : (picking wideTy).finalize = .ok wideProgram :=
    Module.finalize_eq_ok_iff.mpr ⟨by decide +kernel, by cbv, by decide +kernel⟩
  have htable : slimProgram.functions.map Linked.name = wideProgram.functions.map Linked.name := by
    decide +kernel
  have hplain : slimProgram.PlainNames := plainNames_of_words (by decide +kernel)
  have hlisting : slimProgram.listing ⟨0⟩ = wideProgram.listing ⟨0⟩ := by decide +kernel
  obtain ⟨-, hargs, -, hblocks⟩ := listing_faithful (d := pick slimTy) (e := pick wideTy) ⟨_, rfl⟩
    ⟨_, rfl⟩ hslim hwide htable hplain rfl rfl hlisting
  exact ⟨hslim, hwide, htable, hplain, by decide, hlisting, hargs, hblocks⟩

end Program

end RegIR
