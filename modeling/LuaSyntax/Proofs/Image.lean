import LuaSyntax.Proofs.Language
import LuaSyntax.Proofs.Spelling

/-!
The programs that a parser can give. Every phrase stands for a well-formed tree, and every
well-formed program is read back from its spelling.
-/
namespace LuaSyntax

def Formula.WellFormed (f : Formula) : Prop :=
  f.first.primary.WellFormed ∧ ∀ x ∈ f.rest, x.2.primary.WellFormed

def Chain.WellFormed (c : Chain) : Prop :=
  c.expr.WellFormed ∧ ∀ x, c.target? = some x → x.WellFormedTarget false

def Arm.WellFormed (a : Arm) : Prop := a.cond.WellFormed ∧ WellFormedBlock a.body

/-- The tree that the phrase stands for is well formed. A list that the grammar does not leave empty
is not. -/
def Phrase.WellFormed : Phrase → Prop
  | .names ns => ns ≠ []
  | .primary e _ | .expr e _ => e.WellFormed
  | .operand a _ => a.primary.WellFormed
  | .formula f _ => f.WellFormed
  | .exprs es _ => es ≠ [] ∧ WellFormedExprs es
  | .chain c => c.WellFormed
  | .arguments es | .returned es => WellFormedExprs es
  | .field e => e.WellFormed
  | .fields es | .table es => WellFormedEntries es
  | .function _ b | .block b => WellFormedBlock b
  | .targets es => es ≠ [] ∧ WellFormedTargets false es
  | .condition as => ∀ a ∈ as, a.WellFormed
  | .arms as => as ≠ [] ∧ ∀ a ∈ as, a.WellFormed
  | .statement ss _ | .statements ss _ => WellFormedStmts ss
  | .parameters _ | .functionKeyword _ | .path _ | .signature _ _ => True

theorem Token.literal_wellFormed {t : Token} {e : Expr} (h : t.literal? = some e) :
    e.WellFormed := by
  unfold literal? at h
  split at h <;> simp at h <;> subst h <;> trivial

theorem UnaryOp.apply_wellFormed {e : Expr} (op : UnaryOp) (h : e.WellFormed) :
    (op.apply e).WellFormed := by
  cases op with
  | not => exact h
  | minus =>
    cases hn : e.isNumber with
    | true =>
      cases e with
      | number x => trivial
      | _ => cases hn
    | false =>
      have hneg : UnaryOp.minus.apply e = .neg e := by cases e <;> first | rfl | cases hn
      rw [hneg]
      exact ⟨hn, h⟩

/-- The operators put nothing but their operands into the tree. -/
theorem OperatorTree.expr_wellFormed {t : OperatorTree} (h : t.formula.WellFormed) :
    t.expr.WellFormed := by
  induction t with
  | primary e => exact h.1
  | unary op t ih => exact op.apply_wellFormed (ih h)
  | binary l op r ihl ihr =>
    obtain ⟨hfirst, hrest⟩ := h
    have hl : l.formula.WellFormed := ⟨hfirst, fun x hx => hrest x (by simp [formula, hx])⟩
    have hr : r.formula.WellFormed := by
      refine ⟨hrest (op, r.formula.first) (by simp [formula]), fun x hx => hrest x ?_⟩
      simp [formula, hx]
    exact ⟨ihl hl, ihr hr⟩

theorem Formula.WellFormed.expr {f : Formula} (h : f.WellFormed) : f.tree.expr.WellFormed := by
  refine OperatorTree.expr_wellFormed ?_
  rw [f.formula_tree]
  exact h

theorem Chain.WellFormed.index {c : Chain} {e : Expr} (h : c.WellFormed) (he : e.WellFormed) :
    (Chain.place (.index c.expr e)).WellFormed := by
  refine ⟨⟨h.1, he⟩, fun x hx => ?_⟩
  obtain rfl : Expr.index c.expr e = x := by simpa [target?] using hx
  exact ⟨rfl, h.1, he⟩

theorem Chain.wellFormed_name (p : String) : (Chain.place (.name p)).WellFormed := by
  refine ⟨trivial, fun x hx => ?_⟩
  obtain rfl : Expr.var p = x := by simpa [target?] using hx
  trivial

theorem Chain.wellFormed_call {f : Expr} {es : List Expr} (hf : f.WellFormed)
    (hes : WellFormedExprs es) : (Chain.call f es).WellFormed :=
  ⟨⟨hf, hes⟩, fun x hx => by simp [target?] at hx⟩

theorem Chain.wellFormed_parens {e : Expr} (h : e.WellFormed) : (Chain.parens e).WellFormed :=
  ⟨h, fun x hx => by simp [target?] at hx⟩

theorem Chain.WellFormed.member {c : Chain} (h : c.WellFormed) (n : String) :
    (c.member n).WellFormed := by
  unfold Chain.member
  split
  · exact Chain.wellFormed_name _
  · exact h.index trivial

/-- The statements of a conditional: one, if it has any arm. -/
theorem wellFormed_conditional {arms : List Arm} {b : List Stmt} (hne : arms ≠ [])
    (h : ∀ a ∈ arms, a.WellFormed) (hb : WellFormedBlock b) :
    WellFormedStmts (conditional arms b) := by
  induction arms with
  | nil => exact absurd rfl hne
  | cons a arms ih =>
    have ha := h a (by simp)
    have hrest : WellFormedBlock (conditional arms b) := by
      cases arms with
      | nil => exact hb
      | cons a' arms => exact (ih (by simp) fun x hx => h x (by simp [hx])).block
    exact .single ⟨ha.1, ha.2, hrest⟩ rfl

theorem WellFormedStmts.returning {ss : List Stmt} {es : List Expr} (h : WellFormedStmts ss)
    (hes : WellFormedExprs es) : WellFormedBlock (ss ++ [.return es]) :=
  h.block_append ⟨hes, fun _ => rfl, trivial⟩

/-- Names declared without values. -/
theorem wellFormed_declaration {ns : List String} (h : ns ≠ []) :
    (Assignment.assignment true (ns.map .var) (ns.map fun _ => .nil)).WellFormed := by
  have hnil : WellFormedExprs (ns.map fun _ => .nil) := by
    clear h
    induction ns with
    | nil => trivial
    | cons n ns ih => exact ⟨trivial, ih⟩
  exact ⟨by simpa using h, by simp, wellFormedTargets_names ns, hnil⟩

theorem wellFormed_numericFor {n : String} {e₁ e₂ e₃ : Expr} {b : List Stmt} (h₁ : e₁.WellFormed)
    (h₂ : e₂.WellFormed) (h₃ : e₃.WellFormed) (hb : WellFormedBlock b) :
    WellFormedStmts [ParserState.numericFor n e₁ e₂ e₃ b] := by
  have hstart : (Assignment.assignment true [.var n] [e₁]).WellFormed :=
    ⟨by simp, rfl, ⟨trivial, trivial⟩, h₁, trivial⟩
  exact .single ⟨rfl, hstart, h₂, h₃, hb⟩ rfl

theorem Derives.wellFormed {beside : Juxtaposition} {p : Phrase} {ts : List Token}
    (h : Derives beside p ts) : p.WellFormed := by
  induction h with
  | name => simp [Phrase.WellFormed]
  | names => simp [Phrase.WellFormed]
  | literal h => exact Token.literal_wellFormed (e := _) h
  | anonymous _ _ ih => exact ih
  | tableValue _ ih => exact ih
  | chainValue _ ih => exact ih.1
  | unsigned _ ih => exact ih
  | signed _ _ ih => exact ih
  | formula _ ih => exact ⟨ih, by simp [Formula.single]⟩
  | operator _ _ _ ihf iha =>
    refine ⟨ihf.1, fun x hx => ?_⟩
    rcases List.mem_append.mp hx with hx | hx
    · exact ihf.2 x hx
    · obtain rfl := List.mem_singleton.mp hx
      exact iha
  | expr _ ih => exact ih.expr
  | exprList _ ih => exact ⟨by simp, ih, trivial⟩
  | exprs _ _ _ ihs ih => exact ⟨by simp, wellFormedExprs_append.mpr ⟨ihs.2, ih, trivial⟩⟩
  | «variable» => exact Chain.wellFormed_name _
  | parens _ _ _ ih => exact Chain.wellFormed_parens ih
  | member _ _ _ ih => exact ih.member _
  | subscript _ _ _ _ ihc ih => exact ihc.index ih
  | call _ _ ihc ih => exact Chain.wellFormed_call ihc.1 ih
  | noArguments => trivial
  | arguments _ _ _ ih => exact ih.2
  | tableArgument _ ih => exact ⟨ih, trivial⟩
  | namedField _ _ _ ih => exact ⟨trivial, ih⟩
  | keyedField _ _ _ _ _ ihk ih => exact ⟨ihk, ih⟩
  | fieldList _ ih => exact ⟨ih, trivial⟩
  | fields _ _ _ ihs ih => exact wellFormedEntries_append.mpr ⟨ihs, ih, trivial⟩
  | emptyTable => trivial
  | table _ _ _ ih => exact ih
  | tableComma _ _ _ _ ih => exact ih
  | noParameters => trivial
  | parameters => trivial
  | function _ _ _ _ ih => exact ih
  | globalFunction => trivial
  | localFunction => trivial
  | pathName => trivial
  | path => trivial
  | signature => trivial
  | method => trivial
  | target _ hx ih => exact ⟨by simp, ih.2 _ hx, trivial⟩
  | targets _ _ _ hx ihs ih =>
    exact ⟨by simp, wellFormedTargets_append.mpr ⟨ihs.2, ih.2 _ hx, trivial⟩⟩
  | ifCondition => simp [Phrase.WellFormed]
  | elseifCondition _ _ ih => exact ih.2
  | arm _ _ _ _ ihs ihe ihb =>
    refine ⟨by simp, fun a ha => ?_⟩
    rcases List.mem_append.mp ha with ha | ha
    · exact ihs a ha
    · obtain rfl := List.mem_singleton.mp ha
      exact ⟨ihe, ihb⟩
  | «break» => exact .single trivial rfl
  | «do» _ _ _ ih => exact .single ih rfl
  | «while» _ _ _ _ _ ihc ihb => exact .single ⟨ihc, ihb⟩ rfl
  | «repeat» _ _ _ _ ihb ihc => exact .single ⟨ihb, ihc⟩ rfl
  | conditional _ _ ih => exact wellFormed_conditional ih.1 ih.2 trivial
  | conditionalElse _ _ _ _ ih ihb => exact wellFormed_conditional ih.1 ih.2 ihb
  | numericFor _ _ _ _ _ _ _ _ _ ih₁ ih₂ ihb => exact wellFormed_numericFor ih₁ ih₂ trivial ihb
  | numericForStep _ _ _ _ _ _ _ _ _ _ _ ih₁ ih₂ ih₃ ihb =>
    exact wellFormed_numericFor ih₁ ih₂ ih₃ ihb
  | genericFor _ _ _ _ _ _ _ ihn ih ihb => exact .single ⟨ihn, ih.1, ih.2, ihb⟩ rfl
  | definition _ _ _ ih => exact .single ih rfl
  | declaration _ _ ih => exact .single (wellFormed_declaration ih) rfl
  | localAssignment _ _ _ _ hlen ihn ih =>
    refine .single ⟨?_, ?_, wellFormedTargets_names _, ih.2⟩ rfl
    · simpa [Phrase.WellFormed] using ihn
    · simpa using hlen
  | assignment _ _ _ hlen ihx ih => exact .single ⟨ihx.1, hlen, ihx.2, ih.2⟩ rfl
  | callStatement _ ih => exact .single ih.1 rfl
  | noStatements => exact .nil
  | semicolon _ _ ih => exact ih
  | statements _ _ _ ihs ih => exact ihs.append ih
  | returnNothing => trivial
  | returnValues _ _ ih => exact ih.2
  | block _ ih => exact ih.block
  | returningBlock _ _ ihs ih => exact ihs.returning ih
  | returningBlockSemicolon _ _ _ ihs ih => exact ihs.returning ih

/-- The programs that a parser gives are the well-formed ones. -/
theorem parse_image_iff (p : Program) : (∃ ts, parse ts = .ok p) ↔ WellFormedBlock p := by
  constructor
  · rintro ⟨ts, h⟩
    exact (parse_eq_ok_iff.mp h).wellFormed
  · intro h
    exact ⟨spellBlock p, parse_eq_ok_iff.mpr (derives_spell h)⟩

end LuaSyntax
