import LuaSyntax.Proofs.Leaves
import LuaSyntax.Proofs.Picture

/-!
Where the data of a tree come from. Each path in a tree of a program is written somewhere in its
tokens, each name that stands alone is one of them, and each number is that of a token but for its
sign, or the step of a loop in which none is written.
-/
namespace LuaSyntax

/-- The node and all nodes below it have a property. -/
inductive Part.Everywhere (P : Part → Prop) : Part → Prop
  | intro {x : Part} : P x → (∀ y ∈ x.children, Everywhere P y) → Everywhere P x

namespace Part.Everywhere

variable {P Q : Part → Prop} {x y : Part}

theorem self (h : x.Everywhere P) : P x := by
  obtain ⟨hx, -⟩ := h
  exact hx

theorem child (h : x.Everywhere P) (hy : y ∈ x.children) : y.Everywhere P := by
  obtain ⟨-, hchildren⟩ := h
  exact hchildren y hy

theorem imp (h : x.Everywhere P) (hPQ : ∀ y, P y → Q y) : x.Everywhere Q := by
  induction h with
  | intro hx _ ih => exact .intro (hPQ _ hx) ih

end Part.Everywhere

/-- How a path is written: names with a dot between each two, the last one of a function after a
colon perhaps, and any front part of it in parentheses. -/
inductive SpellsPath : List Token → String → Prop
  | name {n : Token} : n.kind = .name → SpellsPath [n] n.text
  | parens {ts : List Token} {path : String} {l r : Token} :
      l.kind = .symbol .openParen → SpellsPath ts path → r.kind = .symbol .closeParen →
      SpellsPath (l :: (ts ++ [r])) path
  | longer {ts : List Token} {path : String} {d n : Token} :
      SpellsPath ts path → d.kind = .symbol .dot ∨ d.kind = .symbol .colon → n.kind = .name →
      SpellsPath (ts ++ [d, n]) (extendPath path n.text)

section

variable (all : List Token)

/-- The path is written among the tokens, in one stretch. -/
def HasPath (path : String) : Prop := ∃ ts, ts <:+: all ∧ SpellsPath ts path

def HasName (name : String) : Prop := ∃ t ∈ all, t.kind = .name ∧ t.text = name

/-- Numbers count without their signs here, which a parse may change. -/
def HasNumber (x : Binary64) : Prop :=
  x.abs = .one ∨ ∃ t ∈ all, ∃ n, t.kind = .number n ∧ x.abs = n.toBinary64.abs

/-- What a node says itself is said by the tokens. -/
def Part.SaidBy : Part → Prop
  | expr _ (.number x) => HasNumber all x
  | expr _ (.name path) | expr _ (.var path) => HasPath all path
  | expr _ (.function params _) => ∀ n ∈ params, HasName all n
  | stmt (.assign (.assignment true targets _)) =>
    ∃ ns : List String, targets = ns.map .var ∧ ∀ n ∈ ns, HasName all n
  | stmt (.numericFor (.assignment _ targets _) _ _ _) =>
    ∃ n, targets = [.var n] ∧ HasName all n
  | stmt (.genericFor names _ _) => ∀ n ∈ names, HasName all n
  | _ => True

def Part.ReadFrom (x : Part) : Prop := x.Everywhere (Part.SaidBy all)

def Expr.ReadFrom (e : Expr) : Prop := ∀ role, (Part.expr role e).ReadFrom all

def BlockReadFrom (ss : List Stmt) : Prop := ∀ s ∈ ss, (Part.stmt s).ReadFrom all

structure Arm.ReadFrom (a : Arm) : Prop where
  cond : a.cond.ReadFrom all
  body : BlockReadFrom all a.body

structure Formula.ReadFrom (f : Formula) : Prop where
  first : f.first.primary.ReadFrom all
  rest : ∀ x ∈ f.rest, x.2.primary.ReadFrom all

end

def Expr.isPath : Expr → Bool
  | .name _ => true
  | _ => false

/-- Where the expression is a path, the tokens write it. -/
def Expr.SpelledBy (ts : List Token) (e : Expr) : Prop :=
  ∀ path, e = .name path → SpellsPath ts path

/-- What a phrase stands for is read from all tokens, and where it is no more than a path, that is
written by the tokens of the phrase. -/
def Phrase.ReadFrom (all ts : List Token) : Phrase → Prop
  | .names ns | .parameters ns => ∀ n ∈ ns, HasName all n
  | .primary e _ | .expr e _ => e.ReadFrom all ∧ e.SpelledBy ts
  | .operand a _ => a.primary.ReadFrom all ∧ (a.signs = [] → a.primary.SpelledBy ts)
  | .formula f _ => f.ReadFrom all ∧ ∀ path, f = .single ⟨[], .name path⟩ → SpellsPath ts path
  | .chain c => c.expr.ReadFrom all ∧ c.expr.SpelledBy ts
  | .exprs es _ | .arguments es | .targets es | .returned es => ∀ e ∈ es, e.ReadFrom all
  | .field e => (Part.entry e).ReadFrom all
  | .fields es | .table es => ∀ e ∈ es, (Part.entry e).ReadFrom all
  | .function ps b => (∀ n ∈ ps, HasName all n) ∧ BlockReadFrom all b
  | .functionKeyword _ => True
  | .path p => SpellsPath ts p
  | .signature _ p => HasPath all p
  | .condition as | .arms as => ∀ a ∈ as, a.ReadFrom all
  | .statement ss _ | .statements ss _ | .block ss => BlockReadFrom all ss

section

variable {all ts us : List Token} {t : Token}

theorem infix_left (h : ts ++ us <:+: all) : ts <:+: all :=
  (List.prefix_append ts us).isInfix.trans h

theorem infix_right (h : ts ++ us <:+: all) : us <:+: all :=
  (List.suffix_append ts us).isInfix.trans h

theorem infix_tail (h : t :: ts <:+: all) : ts <:+: all := (List.suffix_cons t ts).isInfix.trans h

theorem HasName.of_stretch (h : t :: ts <:+: all) (ht : t.kind = .name) : HasName all t.text :=
  ⟨t, h.subset List.mem_cons_self, ht, rfl⟩

theorem HasName.path {n : String} (h : HasName all n) : HasPath all n := by
  obtain ⟨t, ht, hkind, rfl⟩ := h
  obtain ⟨us, vs, rfl⟩ := List.append_of_mem ht
  exact ⟨[t], ⟨us, vs, by simp⟩, .name hkind⟩

theorem HasNumber.neg {x : Binary64} (h : HasNumber all x) : HasNumber all x.neg := by
  unfold HasNumber
  rwa [Binary64.abs_neg]

theorem Part.readFrom_names (role : Role) {ns : List String} (h : ∀ n ∈ ns, HasName all n) :
    ∀ y ∈ Part.names role ns, y.ReadFrom all :=
  List.forall_mem_map.mpr fun n hn => .intro (h n hn).path nofun

theorem Part.readFrom_exprs (role : Role) {es : List Expr} (h : ∀ e ∈ es, e.ReadFrom all) :
    ∀ y ∈ es.map (Part.expr role), y.ReadFrom all :=
  List.forall_mem_map.mpr fun e he => h e he role

theorem Part.readFrom_local {ns : List String} {es : List Expr} (hns : ∀ n ∈ ns, HasName all n)
    (hes : ∀ e ∈ es, e.ReadFrom all) :
    (Part.stmt (.assign (.assignment true (ns.map .var) es))).ReadFrom all := by
  have htargets : ∀ y ∈ (ns.map Expr.var).map (Part.expr .none), y.ReadFrom all := by
    rw [List.map_map]
    exact List.forall_mem_map.mpr fun n hn => .intro (hns n hn).path nofun
  exact .intro ⟨ns, rfl, hns⟩ (List.forall_mem_append.mpr ⟨htargets, readFrom_exprs .none hes⟩)

theorem BlockReadFrom.parts {ss : List Stmt} (h : BlockReadFrom all ss) :
    ∀ y ∈ ss.map Part.stmt, y.ReadFrom all := List.forall_mem_map.mpr h

theorem BlockReadFrom.append {ss rs : List Stmt} (hs : BlockReadFrom all ss)
    (hr : BlockReadFrom all rs) : BlockReadFrom all (ss ++ rs) :=
  List.forall_mem_append.mpr ⟨hs, hr⟩

theorem BlockReadFrom.single {s : Stmt} (h : (Part.stmt s).ReadFrom all) : BlockReadFrom all [s] :=
  List.forall_mem_singleton.mpr h

namespace Expr

variable {e l r : Expr}

theorem spelledBy_of_not_path (h : e.isPath = false) : e.SpelledBy ts := by
  rintro path rfl
  cases h

theorem readFrom_name {path : String} (h : HasPath all path) : (name path).ReadFrom all :=
  fun _ => .intro h nofun

theorem readFrom_number {x : Binary64} (h : HasNumber all x) : (number x).ReadFrom all :=
  fun _ => .intro h nofun

/-- A name in the place of a target. -/
theorem readFrom_target {c : Chain} (h : c.expr.ReadFrom all) (he : c.target? = some e) :
    e.ReadFrom all := by
  unfold Chain.target? at he
  split at he
  · obtain rfl := Option.some.inj he
    obtain ⟨hpath, -⟩ := h .none
    exact fun _ => .intro hpath nofun
  · obtain rfl := Option.some.inj he
    exact h
  · cases he

theorem ReadFrom.apply (h : e.ReadFrom all) (op : UnaryOp) : (op.apply e).ReadFrom all := by
  have hoperand : ∀ y ∈ [Part.expr .none e], y.ReadFrom all :=
    List.forall_mem_singleton.mpr (h .none)
  cases op with
  | not => exact fun _ => .intro trivial hoperand
  | minus =>
    cases e with
    | number x =>
      obtain ⟨hx, -⟩ := h .none
      exact readFrom_number (HasNumber.neg hx)
    | _ => exact fun _ => .intro trivial hoperand

theorem ReadFrom.binary (hl : l.ReadFrom all) (op : BinaryOp) (hr : r.ReadFrom all) :
    (Expr.binary l op r).ReadFrom all := fun _ =>
  .intro trivial (List.forall_mem_cons.mpr ⟨hl .none, List.forall_mem_singleton.mpr (hr .none)⟩)

theorem ReadFrom.index (hl : l.ReadFrom all) (hr : r.ReadFrom all) :
    (Expr.index l r).ReadFrom all := fun _ =>
  .intro trivial (List.forall_mem_cons.mpr ⟨hl .table, List.forall_mem_singleton.mpr (hr .field)⟩)

theorem ReadFrom.call {es : List Expr} (h : e.ReadFrom all) (hes : ∀ a ∈ es, a.ReadFrom all) :
    (Expr.call e es).ReadFrom all := fun _ =>
  .intro trivial (List.forall_mem_cons.mpr ⟨h .call, Part.readFrom_exprs .arg hes⟩)

theorem readFrom_table {es : List Entry} (h : ∀ e ∈ es, (Part.entry e).ReadFrom all) :
    (table es).ReadFrom all := fun _ => .intro trivial (List.forall_mem_map.mpr h)

theorem readFrom_function {ps : List String} {b : List Stmt} (hps : ∀ n ∈ ps, HasName all n)
    (hb : BlockReadFrom all b) : (function ps b).ReadFrom all := fun _ =>
  .intro hps (List.forall_mem_append.mpr ⟨Part.readFrom_names .param hps, hb.parts⟩)

theorem readFrom_literal (ht : t ∈ all) (h : t.literal? = some e) :
    e.ReadFrom all ∧ ∀ path, e ≠ .name path := by
  unfold Token.literal? at h
  split at h <;> cases h
  case h_4 n hkind => exact ⟨readFrom_number (.inr ⟨t, ht, n, hkind, rfl⟩), nofun⟩
  all_goals exact ⟨fun _ => .intro trivial nofun, nofun⟩

end Expr

/-- Operators put nothing but their operands into a tree. -/
theorem OperatorTree.readFrom_expr {u : OperatorTree} (h : u.formula.ReadFrom all) :
    u.expr.ReadFrom all := by
  induction u with
  | primary e => exact h.first
  | unary op u ih => exact (ih ⟨h.first, h.rest⟩).apply op
  | binary l op r ihl ihr =>
    obtain ⟨hfirst, hrest⟩ := h
    have hl : l.formula.ReadFrom all := ⟨hfirst, fun x hx => hrest x (by simp [formula, hx])⟩
    have hr : r.formula.ReadFrom all := by
      refine ⟨hrest (op, r.formula.first) (by simp [formula]), fun x hx => hrest x ?_⟩
      simp [formula, hx]
    exact (ihl hl).binary op (ihr hr)

/-- A tree that is no more than a path has no operators. -/
theorem Formula.eq_single {f : Formula} {path : String} (h : f.tree.expr = .name path) :
    f = .single ⟨[], .name path⟩ := by
  rw [← f.formula_tree]
  cases hu : f.tree with
  | primary e =>
    rw [hu] at h
    obtain rfl : e = .name path := h
    rfl
  | unary op u =>
    rw [hu] at h
    change op.apply u.expr = .name path at h
    cases op with
    | not => cases h
    | minus => cases hexpr : u.expr <;> rw [hexpr] at h <;> cases h
  | binary l op r =>
    rw [hu] at h
    cases h

namespace Chain

variable {c : Chain}

theorem spelled_member {d n : Token} (h : c.expr.SpelledBy ts) (hd : d.kind = .symbol .dot)
    (hn : n.kind = .name) : (c.member n.text).expr.SpelledBy (ts ++ [d, n]) := by
  intro path hpath
  unfold member at hpath
  split at hpath
  · rename_i front hfront
    obtain rfl : extendPath front n.text = path := Expr.name.inj hpath
    exact .longer (h front hfront) (.inl hd) hn
  · cases hpath

theorem readFrom_member (h : c.expr.ReadFrom all) {n : String}
    (hpath : ∀ path, (c.member n).expr = .name path → HasPath all path) :
    (c.member n).expr.ReadFrom all := by
  unfold member at hpath ⊢
  split
  · rename_i front hfront
    rw [hfront] at hpath
    exact Expr.readFrom_name (hpath _ rfl)
  · exact h.index fun _ => .intro trivial nofun

end Chain

/-- The statements of a conditional, one inside the other. -/
theorem readFrom_conditional {arms : List Arm} {b : List Stmt} (h : ∀ a ∈ arms, a.ReadFrom all)
    (hb : BlockReadFrom all b) : BlockReadFrom all (conditional arms b) := by
  induction arms with
  | nil => exact hb
  | cons a arms ih =>
    obtain ⟨ha, hrest⟩ := List.forall_mem_cons.mp h
    have hhead : ∀ y ∈ Part.expr .cond a.cond :: a.body.map .stmt, y.ReadFrom all :=
      List.forall_mem_cons.mpr ⟨ha.cond .cond, ha.body.parts⟩
    exact .single (.intro trivial (List.forall_mem_append.mpr ⟨hhead, (ih hrest).parts⟩))

namespace BlockReadFrom

variable {b : List Stmt} {c : Expr} {es xs : List Expr} {ns : List String} {n : String}

theorem ofBlock (h : BlockReadFrom all b) : BlockReadFrom all [.block b] :=
  .single (.intro trivial h.parts)

theorem ofWhile (hc : c.ReadFrom all) (h : BlockReadFrom all b) : BlockReadFrom all [.while c b] :=
  .single (.intro trivial (List.forall_mem_cons.mpr ⟨hc .cond, h.parts⟩))

theorem ofRepeat (h : BlockReadFrom all b) (hc : c.ReadFrom all) :
    BlockReadFrom all [.repeat b c] :=
  .single (.intro trivial (List.forall_mem_append.mpr
    ⟨h.parts, List.forall_mem_singleton.mpr (hc .cond)⟩))

theorem ofReturn (h : ∀ e ∈ es, e.ReadFrom all) : BlockReadFrom all [.return es] :=
  .single (.intro trivial (Part.readFrom_exprs .none h))

theorem ofCall (h : (Expr.call c es).ReadFrom all) : BlockReadFrom all [.call c es] := by
  obtain ⟨-, hparts⟩ := h .none
  exact .single (.intro trivial hparts)

theorem ofAssignment (hxs : ∀ x ∈ xs, x.ReadFrom all) (hes : ∀ e ∈ es, e.ReadFrom all) :
    BlockReadFrom all [.assign (.assignment false xs es)] :=
  .single (.intro trivial (List.forall_mem_append.mpr
    ⟨Part.readFrom_exprs .none hxs, Part.readFrom_exprs .none hes⟩))

theorem ofNumericFor {start limit step : Expr} (hn : HasName all n) (h₁ : start.ReadFrom all)
    (h₂ : limit.ReadFrom all) (h₃ : step.ReadFrom all) (hb : BlockReadFrom all b) :
    BlockReadFrom all [ParserState.numericFor n start limit step b] := by
  have hstart : (Part.stmt (.assign (.assignment true [.var n] [start]))).ReadFrom all :=
    Part.readFrom_local (List.forall_mem_singleton.mpr hn) (List.forall_mem_singleton.mpr h₁)
  have hparts : ∀ y ∈ Part.expr .none limit :: Part.expr .none step :: b.map .stmt,
      y.ReadFrom all :=
    List.forall_mem_cons.mpr ⟨h₂ .none, List.forall_mem_cons.mpr ⟨h₃ .none, hb.parts⟩⟩
  exact .single (.intro ⟨n, rfl, hn⟩ (List.forall_mem_cons.mpr ⟨hstart, hparts⟩))

theorem ofGenericFor (hns : ∀ n ∈ ns, HasName all n) (hes : ∀ e ∈ es, e.ReadFrom all)
    (hb : BlockReadFrom all b) : BlockReadFrom all [.genericFor ns es b] := by
  have hhead : ∀ y ∈ Part.names .none ns ++ es.map (.expr .none), y.ReadFrom all :=
    List.forall_mem_append.mpr ⟨Part.readFrom_names .none hns, Part.readFrom_exprs .none hes⟩
  exact .single (.intro hns (List.forall_mem_append.mpr ⟨hhead, hb.parts⟩))

theorem ofDefinition {path : String} (isLocal : Bool) (hpath : HasPath all path)
    (hns : ∀ n ∈ ns, HasName all n) (hb : BlockReadFrom all b) :
    BlockReadFrom all [.definition isLocal path ns b] := by
  have hfunction : (Part.function path ns b).ReadFrom all :=
    .intro trivial (List.forall_mem_cons.mpr ⟨Expr.readFrom_name hpath .func,
      List.forall_mem_singleton.mpr (Expr.readFrom_function hns hb .none)⟩)
  exact .single (.intro trivial (List.forall_mem_singleton.mpr hfunction))

end BlockReadFrom

end

/-- By induction on the derivation. Its tokens stand in one stretch among all tokens, so that those
of each part do as well. -/
theorem Derives.readFrom {beside : Juxtaposition} {p : Phrase} {all ts : List Token}
    (h : Derives beside p ts) (hts : ts <:+: all) : p.ReadFrom all ts := by
  induction h with
  | name hn => exact List.forall_mem_singleton.mpr (.of_stretch hts hn)
  | names _ hc hn ih =>
    have hname := HasName.of_stretch (infix_tail (infix_right hts)) hn
    exact List.forall_mem_append.mpr ⟨ih (infix_left hts), List.forall_mem_singleton.mpr hname⟩
  | literal h =>
    obtain ⟨he, hname⟩ := Expr.readFrom_literal (hts.subset (List.mem_singleton_self _)) h
    exact ⟨he, fun path hpath => absurd hpath (hname path)⟩
  | anonymous _ _ ih =>
    obtain ⟨hps, hb⟩ := ih (infix_tail hts)
    exact ⟨Expr.readFrom_function hps hb, Expr.spelledBy_of_not_path rfl⟩
  | tableValue _ ih => exact ⟨Expr.readFrom_table (ih hts), Expr.spelledBy_of_not_path rfl⟩
  | chainValue _ ih => exact ih hts
  | unsigned _ ih => exact ⟨(ih hts).1, fun _ => (ih hts).2⟩
  | signed _ _ ih => exact ⟨(ih (infix_tail hts)).1, fun h => absurd h (List.cons_ne_nil _ _)⟩
  | formula _ ih =>
    obtain ⟨ha, hspelled⟩ := ih hts
    refine ⟨⟨ha, List.forall_mem_nil _⟩, fun path hpath => ?_⟩
    obtain rfl := congrArg Formula.first hpath
    exact hspelled rfl path rfl
  | operator _ _ _ ihf iha =>
    obtain ⟨hf, -⟩ := ihf (infix_left hts)
    obtain ⟨ha, -⟩ := iha (infix_tail (infix_right hts))
    refine ⟨⟨hf.first, ?_⟩, fun path hpath => ?_⟩
    · exact List.forall_mem_append.mpr ⟨hf.rest, List.forall_mem_singleton.mpr ha⟩
    · exact absurd (congrArg Formula.rest hpath) (by simp [Formula.append, Formula.single])
  | expr _ ih =>
    obtain ⟨hf, hspelled⟩ := ih hts
    refine ⟨OperatorTree.readFrom_expr ?_, fun path hpath => ?_⟩
    · rwa [Formula.formula_tree]
    · exact hspelled path (Formula.eq_single hpath)
  | exprList _ ih => exact List.forall_mem_singleton.mpr (ih hts).1
  | exprs _ _ _ ihs ih =>
    have he := (ih (infix_tail (infix_right hts))).1
    exact List.forall_mem_append.mpr ⟨ihs (infix_left hts), List.forall_mem_singleton.mpr he⟩
  | «variable» hn =>
    refine ⟨Expr.readFrom_name (HasName.of_stretch hts hn).path, fun path hpath => ?_⟩
    obtain rfl := Expr.name.inj hpath
    exact .name hn
  | parens hl _ hr ih =>
    obtain ⟨he, hspelled⟩ := ih (infix_left (infix_tail hts))
    exact ⟨he, fun path hpath => .parens hl (hspelled path hpath) hr⟩
  | member _ hd hn ih =>
    obtain ⟨hc, hspelled⟩ := ih (infix_left hts)
    have hmember := Chain.spelled_member hspelled hd hn
    exact ⟨Chain.readFrom_member hc fun path hpath => ⟨_, hts, hmember path hpath⟩, hmember⟩
  | subscript _ _ _ _ ihc ih =>
    have he := (ih (infix_left (infix_tail (infix_right hts)))).1
    exact ⟨(ihc (infix_left hts)).1.index he, Expr.spelledBy_of_not_path rfl⟩
  | call _ _ ihc ih =>
    have hargs := ih (infix_right hts)
    exact ⟨(ihc (infix_left hts)).1.call hargs, Expr.spelledBy_of_not_path rfl⟩
  | noArguments => exact List.forall_mem_nil _
  | arguments _ _ _ ih => exact ih (infix_left (infix_tail hts))
  | tableArgument _ ih => exact List.forall_mem_singleton.mpr (Expr.readFrom_table (ih hts))
  | namedField hn _ _ ih =>
    have hkey := Expr.readFrom_name (HasName.of_stretch hts hn).path
    have hvalue := (ih (infix_tail (infix_tail hts))).1
    exact .intro trivial
      (List.forall_mem_cons.mpr ⟨hkey .none, List.forall_mem_singleton.mpr (hvalue .none)⟩)
  | keyedField _ _ _ _ _ ihk ih =>
    have hkey := (ihk (infix_left (infix_tail hts))).1
    have hvalue := (ih (infix_tail (infix_tail (infix_right (infix_tail hts))))).1
    exact .intro trivial
      (List.forall_mem_cons.mpr ⟨hkey .none, List.forall_mem_singleton.mpr (hvalue .none)⟩)
  | fieldList _ ih => exact List.forall_mem_singleton.mpr (ih hts)
  | fields _ _ _ ihs ih =>
    have hfield := ih (infix_tail (infix_right hts))
    exact List.forall_mem_append.mpr ⟨ihs (infix_left hts), List.forall_mem_singleton.mpr hfield⟩
  | emptyTable => exact List.forall_mem_nil _
  | table _ _ _ ih => exact ih (infix_left (infix_tail hts))
  | tableComma _ _ _ _ ih => exact ih (infix_left (infix_tail hts))
  | noParameters => exact List.forall_mem_nil _
  | parameters _ _ _ ih => exact ih (infix_left (infix_tail hts))
  | function _ _ _ ihp ihb => exact ⟨ihp (infix_left hts), ihb (infix_left (infix_right hts))⟩
  | globalFunction => trivial
  | localFunction => trivial
  | pathName hn => exact .name hn
  | path _ hd hn ih => exact .longer (ih (infix_left hts)) (.inl hd) hn
  | signature _ _ _ ihp => exact ⟨_, infix_right hts, ihp (infix_right hts)⟩
  | method _ _ hc hn _ ihp =>
    have hpath := infix_right hts
    exact ⟨_, hpath, .longer (ihp (infix_left hpath)) (.inr hc) hn⟩
  | target _ hx ih => exact List.forall_mem_singleton.mpr (Expr.readFrom_target (ih hts).1 hx)
  | targets _ _ _ hx ihs ih =>
    have he := Expr.readFrom_target (ih (infix_tail (infix_right hts))).1 hx
    exact List.forall_mem_append.mpr ⟨ihs (infix_left hts), List.forall_mem_singleton.mpr he⟩
  | ifCondition => exact List.forall_mem_nil _
  | elseifCondition _ _ ih => exact ih (infix_left hts)
  | arm _ _ _ _ ihs ihe ihb =>
    have harm := infix_right hts
    have hlast : Arm.ReadFrom all ⟨_, _⟩ :=
      ⟨(ihe (infix_left harm)).1, ihb (infix_tail (infix_right harm))⟩
    exact List.forall_mem_append.mpr ⟨ihs (infix_left hts), List.forall_mem_singleton.mpr hlast⟩
  | «break» => exact .single (.intro trivial (List.forall_mem_nil _))
  | «do» _ _ _ ih => exact .ofBlock (ih (infix_left (infix_tail hts)))
  | «while» _ _ _ _ _ ihc ihb =>
    have hbody := infix_left (infix_tail (infix_right (infix_tail hts)))
    exact .ofWhile (ihc (infix_left (infix_tail hts))).1 (ihb hbody)
  | «repeat» _ _ _ _ ihb ihc =>
    have hcond := infix_tail (infix_right (infix_tail hts))
    exact .ofRepeat (ihb (infix_left (infix_tail hts))) (ihc hcond).1
  | conditional _ _ ih => exact readFrom_conditional (ih (infix_left hts)) (List.forall_mem_nil _)
  | conditionalElse _ _ _ _ ih ihb =>
    have hlast := infix_left (infix_tail (infix_right hts))
    exact readFrom_conditional (ih (infix_left hts)) (ihb hlast)
  | numericFor _ hn _ _ _ _ _ _ _ ih₁ ih₂ ihb =>
    have hvar := infix_tail hts
    have hstart := infix_tail (infix_tail hvar)
    have hlimit := infix_tail (infix_right hstart)
    have hbody := infix_left (infix_tail (infix_right hlimit))
    exact .ofNumericFor (.of_stretch hvar hn) (ih₁ (infix_left hstart)).1
      (ih₂ (infix_left hlimit)).1 (Expr.readFrom_number (.inl rfl)) (ihb hbody)
  | numericForStep _ hn _ _ _ _ _ _ _ _ _ ih₁ ih₂ ih₃ ihb =>
    have hvar := infix_tail hts
    have hstart := infix_tail (infix_tail hvar)
    have hlimit := infix_tail (infix_right hstart)
    have hstep := infix_tail (infix_right hlimit)
    have hbody := infix_left (infix_tail (infix_right hstep))
    exact .ofNumericFor (.of_stretch hvar hn) (ih₁ (infix_left hstart)).1
      (ih₂ (infix_left hlimit)).1 (ih₃ (infix_left hstep)).1 (ihb hbody)
  | genericFor _ _ _ _ _ _ _ ihn ih ihb =>
    have hnames := infix_tail hts
    have hvalues := infix_tail (infix_right hnames)
    have hbody := infix_left (infix_tail (infix_right hvalues))
    exact .ofGenericFor (ihn (infix_left hnames)) (ih (infix_left hvalues)) (ihb hbody)
  | definition _ _ ihs ih =>
    obtain ⟨hps, hb⟩ := ih (infix_right hts)
    exact .ofDefinition _ (ihs (infix_left hts)) hps hb
  | declaration _ _ ih =>
    have hnil : Expr.nil.ReadFrom all := fun _ => .intro trivial (List.forall_mem_nil _)
    have hnames := ih (infix_tail hts)
    exact .single (Part.readFrom_local hnames (List.forall_mem_map.mpr fun _ _ => hnil))
  | localAssignment _ _ _ _ _ ihn ih =>
    have hnames := infix_tail hts
    have hvalues := infix_tail (infix_right hnames)
    exact .single (Part.readFrom_local (ihn (infix_left hnames)) (ih hvalues))
  | assignment _ _ _ _ ihx ih =>
    exact .ofAssignment (ihx (infix_left hts)) (ih (infix_tail (infix_right hts)))
  | callStatement _ ih => exact .ofCall (ih hts).1
  | noStatements => exact List.forall_mem_nil _
  | semicolon _ _ ih => exact ih (infix_left hts)
  | statements _ _ _ ihs ih => exact (ihs (infix_left hts)).append (ih (infix_right hts))
  | returnNothing => exact List.forall_mem_nil _
  | returnValues _ _ ih => exact ih (infix_tail hts)
  | block _ ih => exact ih hts
  | returningBlock _ _ ihs ih =>
    exact (ihs (infix_left hts)).append (.ofReturn (ih (infix_right hts)))
  | returningBlockSemicolon _ _ _ ihs ih =>
    have hreturn := infix_left (infix_right hts)
    exact (ihs (infix_left hts)).append (.ofReturn (ih hreturn))

/-- All data in a program that is parsed are in the tokens. -/
theorem readFrom_of_parse {ts : List Token} {p : Program} (h : parse ts = .ok p) :
    (Part.program p).ReadFrom ts := by
  have hblock : BlockReadFrom ts p := (parse_eq_ok_iff.mp h).readFrom (List.infix_refl ts)
  exact .intro trivial hblock.parts

end LuaSyntax
