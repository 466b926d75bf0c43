import LuaSyntax.Proofs.Leads
import LuaSyntax.Proofs.Quote
import LuaSyntax.Proofs.WellFormed

/-!
Spelling a tree as tokens. Every operand that an operator or a suffix stands at is parenthesized and
every statement ends in a semicolon, so that no two parts of the tree can run together.
-/
namespace LuaSyntax

def Token.ofString (v : String) : Token := ⟨.string, StringLiteral.quote v, 1⟩

def Token.ofNumber (x : Binary64) : Token := ⟨.number (.float x), "", 1⟩

def BinaryOp.token : BinaryOp → Token
  | .or => .ofKeyword .or
  | .and => .ofKeyword .and
  | .less => .ofSymbol .less
  | .greater => .ofSymbol .greater
  | .lessEqual => .ofSymbol .lessEqual
  | .greaterEqual => .ofSymbol .greaterEqual
  | .notEqual => .ofSymbol .notEqual
  | .equal => .ofSymbol .equal
  | .concat => .ofSymbol .concat
  | .add => .ofSymbol .plus
  | .sub => .ofSymbol .minus
  | .mul => .ofSymbol .star
  | .div => .ofSymbol .slash
  | .mod => .ofSymbol .percent
  | .pow => .ofSymbol .caret

theorem BinaryOp.ofToken?_token (op : BinaryOp) : ofToken? op.token.kind = some op := by
  cases op <;> rfl

def parenthesized (ts : List Token) : List Token :=
  .ofSymbol .openParen :: (ts ++ [.ofSymbol .closeParen])

/-- The names, each after a comma. -/
def commaNames : List String → List Token
  | [] => []
  | n :: ns => .ofSymbol .comma :: .ofName n :: commaNames ns

mutual

def Expr.spell : Expr → List Token
  | .nil => [.ofKeyword .nil]
  | .boolean true => [.ofKeyword .true]
  | .boolean false => [.ofKeyword .false]
  | .number x => [.ofNumber x]
  | .string v => [.ofString v]
  | .name p | .var p => [.ofName p]
  | .not e => parenthesized (.ofKeyword .not :: e.spell)
  | .neg e => parenthesized (.ofSymbol .minus :: e.spell)
  | .binary l op r => parenthesized (l.spell ++ op.token :: r.spell)
  | .table es => .ofSymbol .openBrace :: (spellEntries es ++ [.ofSymbol .closeBrace])
  | .index t k =>
    parenthesized t.spell ++ .ofSymbol .openBracket :: (k.spell ++ [.ofSymbol .closeBracket])
  | .call f es => parenthesized f.spell ++ parenthesized (commaExprs es).tail
  | .function ps body =>
    .ofKeyword .function ::
      (parenthesized (commaNames ps).tail ++ (spellBlock body ++ [.ofKeyword .end]))

/-- The expressions, each after a comma. -/
def commaExprs : List Expr → List Token
  | [] => []
  | e :: es => .ofSymbol .comma :: (e.spell ++ commaExprs es)

def Entry.spell : Entry → List Token
  | .entry k v =>
    .ofSymbol .openBracket :: (k.spell ++ .ofSymbol .closeBracket :: .ofSymbol .assign :: v.spell)

/-- The entries, each before a comma. -/
def spellEntries : List Entry → List Token
  | [] => []
  | e :: es => e.spell ++ .ofSymbol .comma :: spellEntries es

def Assignment.spell : Assignment → List Token
  | .assignment _ targets values =>
    (commaExprs targets).tail ++ .ofSymbol .assign :: (commaExprs values).tail

def Stmt.spell : Stmt → List Token
  | .assign (.assignment true targets values) =>
    .ofKeyword .local :: (Assignment.assignment true targets values).spell
  | .assign (.assignment false targets values) => (Assignment.assignment false targets values).spell
  | .call f es => parenthesized f.spell ++ parenthesized (commaExprs es).tail
  | .block body => .ofKeyword .do :: (spellBlock body ++ [.ofKeyword .end])
  | .while cond body =>
    .ofKeyword .while :: (cond.spell ++ .ofKeyword .do :: (spellBlock body ++ [.ofKeyword .end]))
  | .repeat body cond => .ofKeyword .repeat :: (spellBlock body ++ .ofKeyword .until :: cond.spell)
  | .if cond body alternative =>
    .ofKeyword .if :: (cond.spell ++ .ofKeyword .then :: spellBlock body) ++
      .ofKeyword .else :: (spellBlock alternative ++ [.ofKeyword .end])
  | .numericFor start limit step body =>
    .ofKeyword .for :: (start.spell ++ .ofSymbol .comma :: (limit.spell ++ .ofSymbol .comma ::
      (step.spell ++ .ofKeyword .do :: (spellBlock body ++ [.ofKeyword .end]))))
  | .genericFor names values body =>
    .ofKeyword .for :: ((commaNames names).tail ++ .ofKeyword .in :: ((commaExprs values).tail ++
      .ofKeyword .do :: (spellBlock body ++ [.ofKeyword .end])))
  | .definition true path ps body =>
    .ofKeyword .local :: .ofKeyword .function :: .ofName path ::
      (parenthesized (commaNames ps).tail ++ (spellBlock body ++ [.ofKeyword .end]))
  | .definition false path ps body =>
    .ofKeyword .function :: .ofName path ::
      (parenthesized (commaNames ps).tail ++ (spellBlock body ++ [.ofKeyword .end]))
  | .return values => .ofKeyword .return :: (commaExprs values).tail
  | .break => [.ofKeyword .break]

def spellBlock : List Stmt → List Token
  | [] => []
  | s :: ss => s.spell ++ .ofSymbol .semicolon :: spellBlock ss

end

-- Every proof below opens a spelling at one constructor.
attribute [grind =] Expr.spell Assignment.spell Stmt.spell

theorem commaExprs_names (ns : List String) : commaExprs (ns.map .var) = commaNames ns := by
  induction ns with
  | nil => rfl
  | cons n ns ih => simp [commaExprs, commaNames, Expr.spell, ih]

/-- The spelling of an expression is derived as an operand. -/
def Expr.Spelled (e : Expr) : Prop := ∃ o, Derives .longest (.primary e o) e.spell

def Expr.SpelledTarget (e : Expr) : Prop :=
  ∃ c : Chain, Derives .longest (.chain c) e.spell ∧ c.target? = some e

/-- A `return` is derived as the end of a block. -/
def Stmt.Spelled : Stmt → Prop
  | .return es => Derives .longest (.returned es) (Stmt.return es).spell
  | s => ∃ o, Derives .longest (.statement [s] o) s.spell

variable {e : Expr} {es xs : List Expr} {o : Bool} {ts : List Token}

theorem derives_parenthesized (h : Derives .longest (.expr e o) ts) :
    Derives .longest (.chain (.parens e)) (parenthesized ts) := .parens rfl h rfl

theorem derives_expr (h : Derives .longest (.primary e o) ts) : Derives .longest (.expr e o) ts :=
  .expr (.formula (.unsigned h))

theorem derives_commaNames {ms : List String} (h : Derives .longest (.names ms) ts)
    (ns : List String) : Derives .longest (.names (ms ++ ns)) (ts ++ commaNames ns) := by
  induction ns generalizing ms ts with
  | nil => simpa [commaNames] using h
  | cons n ns ih =>
    have hn := Derives.names h (c := .ofSymbol .comma) rfl (n := .ofName n) rfl
    simpa [commaNames, Token.ofName] using ih hn

theorem derives_names {ns : List String} (h : ns ≠ []) :
    Derives .longest (.names ns) (commaNames ns).tail := by
  cases ns with
  | nil => exact absurd rfl h
  | cons n ns => exact derives_commaNames (.name (n := .ofName n) rfl) ns

theorem derives_parameters (ps : List String) :
    Derives .longest (.parameters ps) (parenthesized (commaNames ps).tail) := by
  cases ps with
  | nil => exact .noParameters rfl rfl
  | cons p ps => exact .parameters rfl (derives_names (by simp)) rfl

theorem derives_commaExprs {ds : List Expr} (h : Derives .longest (.exprs ds o) ts)
    (hes : ∀ e ∈ es, e.Spelled) :
    ∃ o', Derives .longest (.exprs (ds ++ es) o') (ts ++ commaExprs es) := by
  induction es generalizing ds ts o with
  | nil => exact ⟨o, by simpa [commaExprs] using h⟩
  | cons e es ih =>
    obtain ⟨o', he⟩ := hes e (by simp)
    have hd := Derives.exprs h (c := .ofSymbol .comma) rfl (derives_expr he)
    simpa [commaExprs] using ih hd fun x hx => hes x (by simp [hx])

theorem derives_exprs (hne : es ≠ []) (hes : ∀ e ∈ es, e.Spelled) :
    ∃ o, Derives .longest (.exprs es o) (commaExprs es).tail := by
  cases es with
  | nil => exact absurd rfl hne
  | cons e es =>
    obtain ⟨o, he⟩ := hes e (by simp)
    exact derives_commaExprs (.exprList (derives_expr he)) fun x hx => hes x (by simp [hx])

theorem derives_arguments (hes : ∀ e ∈ es, e.Spelled) :
    Derives .longest (.arguments es) (parenthesized (commaExprs es).tail) := by
  by_cases hne : es = []
  · subst hne
    exact .noArguments rfl rfl
  · obtain ⟨o, h⟩ := derives_exprs hne hes
    exact .arguments rfl h rfl

theorem derives_commaTargets {ys : List Expr} (h : Derives .longest (.targets ys) ts)
    (hxs : ∀ x ∈ xs, x.SpelledTarget) :
    Derives .longest (.targets (ys ++ xs)) (ts ++ commaExprs xs) := by
  induction xs generalizing ys ts with
  | nil => simpa [commaExprs] using h
  | cons x xs ih =>
    obtain ⟨c, hc, hx⟩ := hxs x (by simp)
    have ht := Derives.targets h (c := .ofSymbol .comma) rfl hc hx
    simpa [commaExprs] using ih ht fun y hy => hxs y (by simp [hy])

theorem derives_targets (hne : xs ≠ []) (hxs : ∀ x ∈ xs, x.SpelledTarget) :
    Derives .longest (.targets xs) (commaExprs xs).tail := by
  cases xs with
  | nil => exact absurd rfl hne
  | cons x xs =>
    obtain ⟨c, hc, hx⟩ := hxs x (by simp)
    exact derives_commaTargets (.target hc hx) fun y hy => hxs y (by simp [hy])

theorem listed_spellEntries {fs es : List Entry} (h : ListedFields fs ts)
    (hes : ∀ e ∈ es, Derives .longest (.field e) e.spell) :
    ListedFields (fs ++ es) (ts ++ spellEntries es) := by
  induction es generalizing fs ts with
  | nil => simpa [spellEntries] using h
  | cons e es ih =>
    have he : ListedFields _ _ := .some (h.fields (hes e (by simp))) (c := .ofSymbol .comma) rfl
    simpa [spellEntries] using ih he fun x hx => hes x (by simp [hx])

theorem derives_table {es : List Entry} (hes : ∀ e ∈ es, Derives .longest (.field e) e.spell) :
    Derives .longest (.table es) (Expr.table es).spell := by
  have hl : ListedFields es (spellEntries es) := by simpa using listed_spellEntries .none hes
  rw [Expr.spell]
  generalize spellEntries es = ts at hl
  cases hl with
  | none => exact .emptyTable rfl rfl
  | some h hc =>
    rw [List.append_assoc]
    exact .tableComma rfl h hc rfl

theorem derives_spellBlock {rs ss : List Stmt} (h : Derives .longest (.statements rs false) ts)
    (hwf : WellFormedBlock ss) (hss : ∀ s ∈ ss, s.Spelled) :
    Derives .longest (.block (rs ++ ss)) (ts ++ spellBlock ss) := by
  induction ss generalizing rs ts with
  | nil => simpa [spellBlock] using Derives.block h
  | cons s ss ih =>
    have hs := hss s (by simp)
    cases hr : s.isReturn with
    | true =>
      obtain rfl := hwf.2.1 hr
      cases s with
      | «return» es => exact .returningBlockSemicolon h hs rfl
      | _ => cases hr
    | false =>
      obtain ⟨o, hx⟩ : ∃ o, Derives .longest (.statement [s] o) s.spell := by
        cases s <;> first | exact hs | cases hr
      have hstmt := Derives.statements h hx (Juxtaposition.longest_closed _)
      have hnext := hstmt.semicolon (s := .ofSymbol .semicolon) rfl
      simpa [spellBlock] using ih hnext hwf.2.2 fun x hx => hss x (by simp [hx])

theorem spelled_not (h : e.Spelled) : (Expr.not e).Spelled := by
  obtain ⟨o, h⟩ := h
  have hsign := Derives.signed (t := .ofKeyword .not) rfl (.unsigned h)
  rw [Expr.Spelled, Expr.spell]
  exact ⟨true, .chainValue (derives_parenthesized (.expr (.formula hsign)))⟩

/-- The operand is not a number, so the sign stays in front of it. -/
theorem spelled_neg (hn : e.isNumber = false) (h : e.Spelled) : (Expr.neg e).Spelled := by
  obtain ⟨o, h⟩ := h
  have hsign := Derives.expr (.formula (.signed (t := .ofSymbol .minus) rfl (.unsigned h)))
  have hneg : (Formula.single (Operand.sign .minus ⟨[], e⟩)).tree.expr = .neg e := by
    cases e <;> first | rfl | cases hn
  rw [hneg] at hsign
  rw [Expr.Spelled, Expr.spell]
  exact ⟨true, .chainValue (derives_parenthesized hsign)⟩

theorem spelled_binary {l r : Expr} (op : BinaryOp) (hl : l.Spelled) (hr : r.Spelled) :
    (Expr.binary l op r).Spelled := by
  obtain ⟨_, hl⟩ := hl
  obtain ⟨_, hr⟩ := hr
  have hop := Derives.operator (.formula (.unsigned hl)) op.ofToken?_token (.unsigned hr)
  rw [Expr.Spelled, Expr.spell]
  exact ⟨true, .chainValue (derives_parenthesized (.expr hop))⟩

theorem derives_index {t k : Expr} (ht : t.Spelled) (hk : k.Spelled) :
    Derives .longest (.chain (.place (.index t k))) (Expr.index t k).spell := by
  obtain ⟨_, ht⟩ := ht
  obtain ⟨_, hk⟩ := hk
  rw [Expr.spell]
  exact .subscript (derives_parenthesized (derives_expr ht)) rfl (derives_expr hk) rfl

theorem derives_call {f : Expr} (hf : f.Spelled) (hes : ∀ e ∈ es, e.Spelled) :
    Derives .longest (.chain (.call f es)) (Expr.call f es).spell := by
  obtain ⟨_, hf⟩ := hf
  rw [Expr.spell]
  exact .call (derives_parenthesized (derives_expr hf)) (derives_arguments hes)

theorem derives_block {b : List Stmt} (h : WellFormedBlock b) (hb : ∀ s ∈ b, s.Spelled) :
    Derives .longest (.block b) (spellBlock b) := derives_spellBlock .noStatements h hb

theorem derives_function {b : List Stmt} (ps : List String) (h : WellFormedBlock b)
    (hb : ∀ s ∈ b, s.Spelled) :
    Derives .longest (.function ps b)
      (parenthesized (commaNames ps).tail ++ (spellBlock b ++ [.ofKeyword .end])) :=
  .function (derives_parameters ps) (derives_block h hb) rfl

theorem spelled_function {b : List Stmt} (ps : List String) (h : WellFormedBlock b)
    (hb : ∀ s ∈ b, s.Spelled) : (Expr.function ps b).Spelled := by
  rw [Expr.Spelled, Expr.spell]
  exact ⟨false, .anonymous rfl (derives_function ps h hb)⟩

theorem spelled_local {xs : List Expr} (h : (Assignment.assignment true xs es).WellFormed)
    (hes : ∀ e ∈ es, e.Spelled) : (Stmt.assign (.assignment true xs es)).Spelled := by
  rw [Assignment.WellFormed] at h
  obtain ⟨hne, hlen, hxs, -⟩ := h
  obtain ⟨ns, rfl⟩ := hxs.exists_names
  have hnames : ns ≠ [] := by simpa using hne
  have hvalues : es ≠ [] := by rintro rfl; simp_all
  obtain ⟨o, hes⟩ := derives_exprs hvalues hes
  refine ⟨o, ?_⟩
  rw [Stmt.spell, Assignment.spell, commaExprs_names]
  exact .localAssignment rfl (derives_names hnames) rfl hes (by simpa using hlen)

theorem spelled_assign {xs : List Expr} (h : (Assignment.assignment false xs es).WellFormed)
    (hxs : ∀ x ∈ xs, x.SpelledTarget) (hes : ∀ e ∈ es, e.Spelled) :
    (Stmt.assign (.assignment false xs es)).Spelled := by
  rw [Assignment.WellFormed] at h
  obtain ⟨hne, hlen, -⟩ := h
  have hvalues : es ≠ [] := by rintro rfl; simp_all
  obtain ⟨o, hes⟩ := derives_exprs hvalues hes
  refine ⟨o, ?_⟩
  rw [Stmt.spell, Assignment.spell]
  exact .assignment (derives_targets hne hxs) rfl hes hlen

theorem spelled_callStatement {f : Expr} (hf : f.Spelled) (hes : ∀ e ∈ es, e.Spelled) :
    (Stmt.call f es).Spelled := by
  have hcall := derives_call hf hes
  rw [Expr.spell] at hcall
  refine ⟨true, ?_⟩
  rw [Stmt.spell]
  exact .callStatement hcall

theorem spelled_block {b : List Stmt} (h : WellFormedBlock b) (hb : ∀ s ∈ b, s.Spelled) :
    (Stmt.block b).Spelled := by
  refine ⟨false, ?_⟩
  rw [Stmt.spell]
  exact .do rfl (derives_block h hb) rfl

theorem spelled_while {b : List Stmt} (he : e.Spelled) (h : WellFormedBlock b)
    (hb : ∀ s ∈ b, s.Spelled) : (Stmt.while e b).Spelled := by
  obtain ⟨_, he⟩ := he
  refine ⟨false, ?_⟩
  rw [Stmt.spell]
  exact .while rfl (derives_expr he) rfl (derives_block h hb) rfl

theorem spelled_repeat {b : List Stmt} (h : WellFormedBlock b) (hb : ∀ s ∈ b, s.Spelled)
    (he : e.Spelled) : (Stmt.repeat b e).Spelled := by
  obtain ⟨o, he⟩ := he
  refine ⟨o, ?_⟩
  rw [Stmt.spell]
  exact .repeat rfl (derives_block h hb) rfl (derives_expr he)

theorem spelled_if {b a : List Stmt} (he : e.Spelled) (h : WellFormedBlock b)
    (hb : ∀ s ∈ b, s.Spelled) (h' : WellFormedBlock a) (ha : ∀ s ∈ a, s.Spelled) :
    (Stmt.if e b a).Spelled := by
  obtain ⟨_, he⟩ := he
  have harm := Derives.arm (.ifCondition (i := .ofKeyword .if) rfl) (derives_expr he)
    (t := .ofKeyword .then) rfl (derives_block h hb)
  refine ⟨false, ?_⟩
  rw [Stmt.spell]
  exact .conditionalElse harm rfl (derives_block h' ha) rfl

theorem spelled_numericFor {b : List Stmt} {x : String} {e₁ e₂ e₃ : Expr} (h₁ : e₁.Spelled)
    (h₂ : e₂.Spelled) (h₃ : e₃.Spelled) (h : WellFormedBlock b) (hb : ∀ s ∈ b, s.Spelled) :
    (Stmt.numericFor (.assignment true [.var x] [e₁]) e₂ e₃ b).Spelled := by
  obtain ⟨_, h₁⟩ := h₁
  obtain ⟨_, h₂⟩ := h₂
  obtain ⟨_, h₃⟩ := h₃
  have hfor : Derives .longest (.statement [ParserState.numericFor x e₁ e₂ e₃ b] false)
      (.ofKeyword .for :: .ofName x :: .ofSymbol .assign :: (e₁.spell ++ .ofSymbol .comma ::
        (e₂.spell ++ .ofSymbol .comma :: (e₃.spell ++ .ofKeyword .do ::
          (spellBlock b ++ [.ofKeyword .end]))))) :=
    .numericForStep rfl (n := .ofName x) rfl rfl (derives_expr h₁) rfl (derives_expr h₂) rfl
      (derives_expr h₃) rfl (derives_block h hb) rfl
  refine ⟨false, ?_⟩
  rw [Stmt.spell, Assignment.spell]
  simpa [commaExprs, Expr.spell, ParserState.numericFor] using hfor

theorem spelled_genericFor {b : List Stmt} {ns : List String} (hns : ns ≠ []) (hne : es ≠ [])
    (hes : ∀ e ∈ es, e.Spelled) (h : WellFormedBlock b) (hb : ∀ s ∈ b, s.Spelled) :
    (Stmt.genericFor ns es b).Spelled := by
  obtain ⟨_, hes⟩ := derives_exprs hne hes
  refine ⟨false, ?_⟩
  rw [Stmt.spell]
  exact .genericFor rfl (derives_names hns) rfl hes rfl (derives_block h hb) rfl

theorem spelled_definition {b : List Stmt} (isLocal : Bool) (p : String) (ps : List String)
    (h : WellFormedBlock b) (hb : ∀ s ∈ b, s.Spelled) :
    (Stmt.definition isLocal p ps b).Spelled := by
  have hpath : Derives .longest (.path p) [.ofName p] := .pathName (n := .ofName p) rfl
  refine ⟨false, ?_⟩
  cases isLocal with
  | true =>
    have hkey :
        Derives .longest (.functionKeyword true) [.ofKeyword .local, .ofKeyword .function] :=
      .localFunction rfl rfl
    rw [Stmt.spell]
    exact .definition (.signature hkey hpath) (derives_function ps h hb)
  | false =>
    have hkey : Derives .longest (.functionKeyword false) [.ofKeyword .function] :=
      .globalFunction rfl
    rw [Stmt.spell]
    exact .definition (.signature hkey hpath) (derives_function ps h hb)

theorem spelled_return (hes : ∀ e ∈ es, e.Spelled) : (Stmt.return es).Spelled := by
  rw [Stmt.Spelled, Stmt.spell]
  by_cases hne : es = []
  · subst hne
    exact .returnNothing rfl
  · obtain ⟨_, h⟩ := derives_exprs hne hes
    exact .returnValues rfl h

mutual

theorem Expr.spelled (e : Expr) (h : e.WellFormed) : e.Spelled := by
  match e, h with
  | .nil, _ | .boolean true, _ | .boolean false, _ | .number x, _ => exact ⟨false, .literal rfl⟩
  | .string v, _ =>
    refine ⟨false, .literal ?_⟩
    simp [Token.literal?, Token.ofString, StringLiteral.value_quote]
  | .name p, _ => exact ⟨true, .chainValue (.ofName .longest p)⟩
  | .not e, h => exact spelled_not (e.spelled h)
  | .neg e, h => exact spelled_neg h.1 (e.spelled h.2)
  | .binary l op r, h => exact spelled_binary op (l.spelled h.1) (r.spelled h.2)
  | .table es, h => exact ⟨false, .tableValue (derives_table (derives_fields es h))⟩
  | .index t k, h => exact ⟨true, .chainValue (derives_index (t.spelled h.1) (k.spelled h.2))⟩
  | .call f es, h => exact ⟨true, .chainValue (derives_call (f.spelled h.1) (spelled_exprs es h.2))⟩
  | .function ps b, h => exact spelled_function ps h (spelled_stmts b h)

theorem spelled_exprs (es : List Expr) (h : WellFormedExprs es) : ∀ e ∈ es, e.Spelled := by
  match es, h with
  | [], _ => simp
  | e :: es, h => simpa using ⟨e.spelled h.1, spelled_exprs es h.2⟩

theorem Entry.derives_spell (e : Entry) (h : e.WellFormed) :
    Derives .longest (.field e) e.spell := by
  match e, h with
  | .entry k v, h =>
    obtain ⟨_, hk⟩ := k.spelled h.1
    obtain ⟨_, hv⟩ := v.spelled h.2
    rw [Entry.spell]
    exact .keyedField rfl (derives_expr hk) rfl rfl (derives_expr hv)

theorem derives_fields (es : List Entry) (h : WellFormedEntries es) :
    ∀ e ∈ es, Derives .longest (.field e) e.spell := by
  match es, h with
  | [], _ => simp
  | e :: es, h => simpa using ⟨e.derives_spell h.1, derives_fields es h.2⟩

theorem Expr.spelledTarget (e : Expr) (h : e.WellFormedTarget false) : e.SpelledTarget := by
  match e, h with
  | .var p, _ => exact ⟨.place (.name p), .ofName .longest p, rfl⟩
  | .index t k, h =>
    exact ⟨.place (.index t k), derives_index (t.spelled h.2.1) (k.spelled h.2.2), rfl⟩

theorem spelled_targets (xs : List Expr) (h : WellFormedTargets false xs) :
    ∀ x ∈ xs, x.SpelledTarget := by
  match xs, h with
  | [], _ => simp
  | x :: xs, h => simpa using ⟨x.spelledTarget h.1, spelled_targets xs h.2⟩

theorem Assignment.spelled (a : Assignment) (h : a.WellFormed) : (Stmt.assign a).Spelled := by
  match a, h with
  | .assignment true xs es, h => exact spelled_local h (spelled_exprs es h.2.2.2)
  | .assignment false xs es, h =>
    exact spelled_assign h (spelled_targets xs h.2.2.1) (spelled_exprs es h.2.2.2)

theorem Stmt.spelled (s : Stmt) (h : s.WellFormed) : s.Spelled := by
  match s, h with
  | .assign a, h => exact a.spelled h
  | .call f es, h => exact spelled_callStatement (f.spelled h.1) (spelled_exprs es h.2)
  | .block b, h => exact spelled_block h (spelled_stmts b h)
  | .while e b, h => exact spelled_while (e.spelled h.1) h.2 (spelled_stmts b h.2)
  | .repeat b e, h => exact spelled_repeat h.1 (spelled_stmts b h.1) (e.spelled h.2)
  | .if e b a, h =>
    exact spelled_if (e.spelled h.1) h.2.1 (spelled_stmts b h.2.1) h.2.2 (spelled_stmts a h.2.2)
  | .numericFor (.assignment true [.var x] [e₁]) e₂ e₃ b, h =>
    obtain ⟨-, h₁, h₂, h₃, hb⟩ := h
    exact spelled_numericFor (e₁.spelled h₁.2.2.2.1) (e₂.spelled h₂) (e₃.spelled h₃) hb
      (spelled_stmts b hb)
  | .genericFor ns es b, h =>
    exact spelled_genericFor h.1 h.2.1 (spelled_exprs es h.2.2.1) h.2.2.2 (spelled_stmts b h.2.2.2)
  | .definition isLocal p ps b, h => exact spelled_definition isLocal p ps h (spelled_stmts b h)
  | .return es, h => exact spelled_return (spelled_exprs es h)
  | .break, _ => exact ⟨false, .break rfl⟩

theorem spelled_stmts (ss : List Stmt) (h : WellFormedBlock ss) : ∀ s ∈ ss, s.Spelled := by
  match ss, h with
  | [], _ => simp
  | s :: ss, h => simpa using ⟨s.spelled h.1, spelled_stmts ss h.2.2⟩

end

/-- Spelling a well-formed program and parsing it gives the program back. -/
theorem derives_spell {p : Program} (h : WellFormedBlock p) :
    Derives .longest (.block p) (spellBlock p) := derives_block h (spelled_stmts p h)

end LuaSyntax
