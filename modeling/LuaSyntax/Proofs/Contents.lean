import LuaSyntax.Proofs.Leads
import LuaSyntax.Proofs.Relabeling

/-!
The contents of tokens: their kinds, and the texts of names and strings. What tokens derive depends
on their contents alone, and where they lead on their lines besides.
-/
namespace LuaSyntax

/-- What a parse takes from a token. The text of one that is neither a name nor a string means
nothing. -/
def Token.content (t : Token) : TokenKind × String :=
  (t.kind, if t.kind = .name ∨ t.kind = .string then t.text else "")

theorem Token.content_eq_iff {t u : Token} : t.content = u.content ↔
    t.kind = u.kind ∧ (t.kind = .name ∨ t.kind = .string → t.text = u.text) := by
  rw [content, content, Prod.mk.injEq]
  refine and_congr_right fun hkind => ?_
  rw [← hkind]
  split <;> simp_all

theorem Juxtaposition.longest.map {g : Token → Token} {o : Bool} {ts : List Token}
    (h : longest o ts) (hg : ∀ t, (g t).kind = t.kind) : longest o (ts.map g) := by
  intro ho t ht
  rw [List.head?_map] at ht
  obtain ⟨u, hu, rfl⟩ := Option.map_eq_some_iff.mp ht
  rw [hg]
  exact h ho u hu

/-- Tokens are replaced by such with the same contents. -/
abbrev KeepsContents (g : Token → Token) : Prop := ∀ t, (g t).content = t.content

namespace KeepsContents

variable {g : Token → Token} {t : Token}

theorem kind (hg : KeepsContents g) (t : Token) : (g t).kind = t.kind :=
  (Token.content_eq_iff.mp (hg t)).1

theorem of_kind (hg : KeepsContents g) {kind : TokenKind} (h : t.kind = kind) :
    (g t).kind = kind := (hg.kind t).trans h

theorem name (hg : KeepsContents g) (h : t.kind = .name) : t.text = (g t).text :=
  ((Token.content_eq_iff.mp (hg t)).2 (.inl (hg.of_kind h))).symm

theorem literal? (hg : KeepsContents g) (t : Token) : (g t).literal? = t.literal? := by
  obtain ⟨hkind, htext⟩ := Token.content_eq_iff.mp (hg t)
  unfold Token.literal?
  rw [hkind] at htext ⊢
  split <;> simp_all

theorem longest {o : Bool} {ts : List Token} (hg : KeepsContents g)
    (h : Juxtaposition.longest o ts) : Juxtaposition.longest o (ts.map g) :=
  h.map hg.kind

end KeepsContents

/-- What tokens spell is found in their contents. -/
theorem Derives.map {g : Token → Token} (hg : KeepsContents g) {q : Phrase} {ts : List Token}
    (h : Derives .longest q ts) : Derives .longest q (ts.map g) := by
  induction h with
  | name hn =>
    rw [hg.name hn]
    exact .name (hg.of_kind hn)
  | names _ hc hn ih =>
    rw [hg.name hn, List.map_append]
    exact .names ih (hg.of_kind hc) (hg.of_kind hn)
  | literal ht => exact .literal ((hg.literal? _).trans ht)
  | anonymous hf _ ih => exact .anonymous (hg.of_kind hf) ih
  | tableValue _ ih => exact .tableValue ih
  | chainValue _ ih => exact .chainValue ih
  | unsigned _ ih => exact .unsigned ih
  | signed ht _ ih => exact .signed (by rwa [hg.kind]) ih
  | formula _ ih => exact .formula ih
  | operator _ ht _ ihf iha => simpa using Derives.operator ihf (by rwa [hg.kind]) iha
  | expr _ ih => exact .expr ih
  | exprList _ ih => exact .exprList ih
  | exprs _ hc _ ihes ihe => simpa using Derives.exprs ihes (hg.of_kind hc) ihe
  | «variable» hn =>
    rw [hg.name hn]
    exact .variable (hg.of_kind hn)
  | parens hl _ hr ih => simpa using Derives.parens (hg.of_kind hl) ih (hg.of_kind hr)
  | member _ hd hn ih =>
    rw [hg.name hn, List.map_append]
    exact .member ih (hg.of_kind hd) (hg.of_kind hn)
  | subscript _ hl _ hr ihc ihe =>
    simpa using Derives.subscript ihc (hg.of_kind hl) ihe (hg.of_kind hr)
  | call _ _ ihc ihes => simpa using Derives.call ihc ihes
  | noArguments hl hr => exact .noArguments (hg.of_kind hl) (hg.of_kind hr)
  | arguments hl _ hr ih => simpa using Derives.arguments (hg.of_kind hl) ih (hg.of_kind hr)
  | tableArgument _ ih => exact .tableArgument ih
  | namedField hn ha _ ih =>
    rw [hg.name hn]
    exact .namedField (hg.of_kind hn) (hg.of_kind ha) ih
  | keyedField hl _ hr ha _ ihk ihe =>
    simpa using Derives.keyedField (hg.of_kind hl) ihk (hg.of_kind hr) (hg.of_kind ha) ihe
  | fieldList _ ih => exact .fieldList ih
  | fields _ hc _ ihes ihe => simpa using Derives.fields ihes (hg.of_kind hc) ihe
  | emptyTable hl hr => exact .emptyTable (hg.of_kind hl) (hg.of_kind hr)
  | table hl _ hr ih => simpa using Derives.table (hg.of_kind hl) ih (hg.of_kind hr)
  | tableComma hl _ hc hr ih =>
    simpa using Derives.tableComma (hg.of_kind hl) ih (hg.of_kind hc) (hg.of_kind hr)
  | noParameters hl hr => exact .noParameters (hg.of_kind hl) (hg.of_kind hr)
  | parameters hl _ hr ih => simpa using Derives.parameters (hg.of_kind hl) ih (hg.of_kind hr)
  | function _ _ he ihps ihb => simpa using Derives.function ihps ihb (hg.of_kind he)
  | globalFunction hf => exact .globalFunction (hg.of_kind hf)
  | localFunction hl hf => exact .localFunction (hg.of_kind hl) (hg.of_kind hf)
  | pathName hn =>
    rw [hg.name hn]
    exact .pathName (hg.of_kind hn)
  | path _ hd hn ih =>
    rw [hg.name hn, List.map_append]
    exact .path ih (hg.of_kind hd) (hg.of_kind hn)
  | signature _ _ ihw ihp => simpa using Derives.signature ihw ihp
  | method _ _ hc hn ihw ihp =>
    rw [hg.name hn, List.map_append, List.map_append]
    exact .method ihw ihp (hg.of_kind hc) (hg.of_kind hn)
  | target _ hx ih => exact .target ih hx
  | targets _ hc _ hx ihxs ih => simpa using Derives.targets ihxs (hg.of_kind hc) ih hx
  | ifCondition hi => exact .ifCondition (hg.of_kind hi)
  | elseifCondition _ hi ih => simpa using Derives.elseifCondition ih (hg.of_kind hi)
  | arm _ _ ht _ ihas ihe ihb => simpa using Derives.arm ihas ihe (hg.of_kind ht) ihb
  | «break» hb => exact .break (hg.of_kind hb)
  | «do» hd _ he ih => simpa using Derives.do (hg.of_kind hd) ih (hg.of_kind he)
  | «while» hw _ hd _ he ihc ihb =>
    simpa using Derives.while (hg.of_kind hw) ihc (hg.of_kind hd) ihb (hg.of_kind he)
  | «repeat» hr _ hu _ ihb ihc =>
    simpa using Derives.repeat (hg.of_kind hr) ihb (hg.of_kind hu) ihc
  | conditional _ he ih => simpa using Derives.conditional ih (hg.of_kind he)
  | conditionalElse _ hl _ he ihas ihb =>
    simpa using Derives.conditionalElse ihas (hg.of_kind hl) ihb (hg.of_kind he)
  | numericFor hf hn ha _ hc _ hd _ he ihs ihl ihb =>
    rw [hg.name hn]
    simpa using Derives.numericFor (hg.of_kind hf) (hg.of_kind hn) (hg.of_kind ha) ihs
      (hg.of_kind hc) ihl (hg.of_kind hd) ihb (hg.of_kind he)
  | numericForStep hf hn ha _ hc _ hc' _ hd _ he ihs ihl iht ihb =>
    rw [hg.name hn]
    simpa using Derives.numericForStep (hg.of_kind hf) (hg.of_kind hn) (hg.of_kind ha) ihs
      (hg.of_kind hc) ihl (hg.of_kind hc') iht (hg.of_kind hd) ihb (hg.of_kind he)
  | genericFor hf _ hi _ hd _ he ihns ihes ihb =>
    simpa using Derives.genericFor (hg.of_kind hf) ihns (hg.of_kind hi) ihes (hg.of_kind hd) ihb
      (hg.of_kind he)
  | definition _ _ ihs ihf => simpa using Derives.definition ihs ihf
  | declaration hl _ ih => exact .declaration (hg.of_kind hl) ih
  | localAssignment hl _ ha _ hlen ihns ihes =>
    simpa using Derives.localAssignment (hg.of_kind hl) ihns (hg.of_kind ha) ihes hlen
  | assignment _ ha _ hlen ihxs ihes =>
    simpa using Derives.assignment ihxs (hg.of_kind ha) ihes hlen
  | callStatement _ ih => exact .callStatement ih
  | noStatements => exact .noStatements
  | semicolon _ hs ih => simpa using Derives.semicolon ih (hg.of_kind hs)
  | statements _ _ hbeside ihss ihs =>
    simpa using Derives.statements ihss ihs (hg.longest hbeside)
  | returnNothing hr => exact .returnNothing (hg.of_kind hr)
  | returnValues hr _ ih => exact .returnValues (hg.of_kind hr) ih
  | block _ ih => exact .block ih
  | returningBlock _ _ ihss ihes => simpa using Derives.returningBlock ihss ihes
  | returningBlockSemicolon _ _ hs ihss ihes =>
    simpa using Derives.returningBlockSemicolon ihss ihes (hg.of_kind hs)

/-- A place has lines of tokens in it. -/
def Place.relabel (f : Relabeling) : Place → Place
  | state s => .state (s.relabel ⟨f, []⟩)
  | owner w => .owner (w.relabel ⟨f, []⟩)
  | block k o => .block (k.relabel ⟨f, []⟩) o
  | chain k o => .chain (k.relabel ⟨f, []⟩) o
  | table k => .table (k.relabel ⟨f, []⟩)

theorem BlockContext.relabel_block (f : Relabeling) (ss : List Stmt) (w : Owner) :
    (BlockContext.block ss w).relabel ⟨f, []⟩ = .block ss (w.relabel ⟨f, []⟩) := by
  cases w <;> rfl

theorem ExprContext.isOperator_relabel (f : Recasting) (k : ExprContext) :
    (k.relabel f).isOperator = k.isOperator := by
  cases k <;> rfl

theorem ChainContext.line?_relabel (f : Recasting) (k : ChainContext) :
    (k.relabel f).line? = k.line?.map f.line := by
  cases k <;> rfl

theorem OperatorTree.spine_relabel (f : Recasting) (t : OperatorTree) (k : ExprContext) :
    t.spine (k.relabel f) = ((t.spine k).1, (t.spine k).2.relabel f) := by
  induction t generalizing k with
  | primary e => rfl
  | unary op t ih => exact ih (.unary op k)
  | binary l op r _ ih => exact ih (.binary l.expr op k)

theorem Listed.map {α : Type} {derives : List α → List Token → Prop} {g : Token → Token}
    (hg : KeepsContents g) (hmap : ∀ xs ts, derives xs ts → derives xs (ts.map g)) {xs : List α}
    {ts : List Token} (h : Listed derives xs ts) : Listed derives xs (ts.map g) := by
  cases h with
  | none => exact .none
  | some h hc =>
    rw [List.map_append]
    exact .some (hmap _ _ h) (hg.of_kind hc)

variable {f : Relabeling} {g : Token → Token} {q : Phrase} {p : Place} {ts : List Token}

theorem ListedExprs.map {es : List Expr} (hg : KeepsContents g) (h : ListedExprs es ts) :
    ListedExprs es (ts.map g) := Listed.map hg (fun _ _ ⟨o, h⟩ => ⟨o, h.map hg⟩) h

theorem ListedFields.map {es : List Entry} (hg : KeepsContents g) (h : ListedFields es ts) :
    ListedFields es (ts.map g) := Listed.map hg (fun _ _ h => h.map hg) h

theorem StartsChain.map {k : ChainContext} {o : Bool} (hg : KeepsContents g)
    (hline : ∀ t, (g t).line = f.line t.line) (h : StartsChain k o ts) :
    StartsChain (k.relabel ⟨f, []⟩) o (ts.map g) where
  longest := hg.longest h.longest
  line t ht := by
    rw [List.head?_map] at ht
    obtain ⟨u, hu, rfl⟩ := Option.map_eq_some_iff.mp ht
    intro l hl
    rw [ChainContext.line?_relabel] at hl
    obtain ⟨line, hline', rfl⟩ := Option.map_eq_some_iff.mp hl
    rw [hline, h.line u hu line hline']

/-- Tokens with the same contents lead to the same places, with the lines of their own. -/
theorem Leads.map (hg : KeepsContents g) (hline : ∀ t, (g t).line = f.line t.line)
    (h : Leads p ts) : Leads (p.relabel f) (ts.map g) := by
  induction h with
  | program => exact .program
  | doBlock _ hd ih => exact .of_eq (.doBlock ih (hg.of_kind hd)) (by simp)
  | whileBlock _ hw he hd ih =>
    exact .of_eq (.whileBlock ih (hg.of_kind hw) (he.map hg) (hg.of_kind hd)) (by simp)
  | repeatBlock _ hr ih => exact .of_eq (.repeatBlock ih (hg.of_kind hr)) (by simp)
  | thenBlock _ harms hl he ht ih =>
    exact .of_eq (.thenBlock ih (harms.map hg) (hg.longest hl) (he.map hg) (hg.of_kind ht))
      (by simp)
  | elseBlock _ harms hl he ih =>
    exact .of_eq (.elseBlock ih (harms.map hg) (hg.longest hl) (hg.of_kind he)) (by simp)
  | numericForBlock _ hf hn ha hstart hc hlimit hd ih =>
    rw [hg.name hn]
    exact .of_eq (.numericForBlock ih (hg.of_kind hf) (hg.of_kind hn) (hg.of_kind ha)
      (hstart.map hg) (hg.of_kind hc) (hlimit.map hg) (hg.of_kind hd)) (by simp)
  | numericForStepBlock _ hf hn ha hstart hc hlimit hc' hstep hd ih =>
    rw [hg.name hn]
    exact .of_eq (.numericForStepBlock ih (hg.of_kind hf) (hg.of_kind hn) (hg.of_kind ha)
      (hstart.map hg) (hg.of_kind hc) (hlimit.map hg) (hg.of_kind hc') (hstep.map hg)
      (hg.of_kind hd)) (by simp)
  | genericForBlock _ hf hns hi hes hd ih =>
    exact .of_eq (.genericForBlock ih (hg.of_kind hf) (hns.map hg) (hg.of_kind hi) (hes.map hg)
      (hg.of_kind hd)) (by simp)
  | functionBlock _ hps ih => exact .of_eq (.functionBlock ih (hps.map hg)) (by simp)
  | block _ hss ih =>
    rw [Place.relabel, BlockContext.relabel_block]
    exact .of_eq (.block ih (hss.map hg)) (by simp)
  | statement _ ih => exact .statement ih
  | returning _ hr ih => exact .of_eq (.returning ih (hg.of_kind hr)) (by simp)
  | returned _ hss hes ih =>
    rw [Place.relabel, ParserState.relabel, BlockContext.relabel_block]
    exact .of_eq (.returned ih (hss.map hg) (hes.map hg)) (by simp)
  | closed _ hb ih =>
    rw [Place.relabel, ParserState.relabel, BlockContext.relabel_block]
    exact .of_eq (.closed ih (hb.map hg)) (by simp)
  | unary _ ht ih => exact .of_eq (.unary ih (by rwa [hg.kind])) (by simp)
  | binary hk _ hx ht hr ih =>
    rw [← ExprContext.isOperator_relabel ⟨f, []⟩] at hk
    refine .of_eq (.binary hk ih (hx.map hg) (by rwa [hg.kind]) ?_) (by simp)
    rw [OperatorTree.spine_relabel, reduce_relabel, hr]
  | parens _ hl hstart ih =>
    exact .of_eq (.parens ih (hg.of_kind hl) (hstart.map hg hline)) (by simp)
  | subscript _ hl ih => exact .of_eq (.subscript ih (hg.of_kind hl)) (by simp)
  | argument _ hl hes ih => exact .of_eq (.argument ih (hg.of_kind hl) (hes.map hg)) (by simp)
  | entryKey _ hl ih => exact .of_eq (.entryKey ih (hg.of_kind hl)) (by simp)
  | entryValue _ ha ih => exact .of_eq (.entryValue ih (hg.of_kind ha)) (by simp)
  | whileCond _ hw ih => exact .of_eq (.whileCond ih (hg.of_kind hw)) (by simp)
  | untilCond _ hr hb hu ih =>
    exact .of_eq (.untilCond ih (hg.of_kind hr) (hb.map hg) (hg.of_kind hu)) (by simp)
  | ifCond _ harms hl ih => exact .of_eq (.ifCond ih (harms.map hg) (hg.longest hl)) (by simp)
  | forStart _ hf hn ha ih =>
    rw [hg.name hn]
    exact .of_eq (.forStart ih (hg.of_kind hf) (hg.of_kind hn) (hg.of_kind ha)) (by simp)
  | forLimit _ hf hn ha hstart hc ih =>
    rw [hg.name hn]
    exact .of_eq (.forLimit ih (hg.of_kind hf) (hg.of_kind hn) (hg.of_kind ha) (hstart.map hg)
      (hg.of_kind hc)) (by simp)
  | forStep _ hf hn ha hstart hc hlimit hc' ih =>
    rw [hg.name hn]
    exact .of_eq (.forStep ih (hg.of_kind hf) (hg.of_kind hn) (hg.of_kind ha) (hstart.map hg)
      (hg.of_kind hc) (hlimit.map hg) (hg.of_kind hc')) (by simp)
  | forValue _ hf hns hi hes ih =>
    exact .of_eq (.forValue ih (hg.of_kind hf) (hns.map hg) (hg.of_kind hi) (hes.map hg)) (by simp)
  | returnValue _ hr hes ih =>
    exact .of_eq (.returnValue ih (hg.of_kind hr) (hes.map hg)) (by simp)
  | assigned _ ha hes ih =>
    have hassigned := Leads.assigned ih (hg.of_kind ha) (hes.map hg)
    rw [hline] at hassigned
    exact .of_eq hassigned (by simp)
  | localAssigned _ ha hes ih =>
    have hassigned := Leads.localAssigned ih (hg.of_kind ha) (hes.map hg)
    rw [hline] at hassigned
    exact .of_eq hassigned (by simp)
  | operator _ he ih => exact .of_eq (.operator ih (he.map hg)) (by simp)
  | operandChain _ ih => exact .operandChain ih
  | statementChain _ ih => exact .statementChain ih
  | targetChain _ ih => exact .targetChain ih
  | suffix _ hc hstart ih => exact .of_eq (.suffix ih (hc.map hg) (hstart.map hg hline)) (by simp)
  | member _ hd ih => exact .of_eq (.member ih (hg.of_kind hd)) (by simp)
  | firstArgument _ hl ih => exact .of_eq (.firstArgument ih (hg.of_kind hl)) (by simp)
  | afterTarget _ hxs hl ih =>
    exact .of_eq (.afterTarget ih (hxs.map hg) (hg.longest hl)) (by simp)
  | nextTarget _ hc ih => exact .of_eq (.nextTarget ih (hg.of_kind hc)) (by simp)
  | operandTable _ ih => exact .operandTable ih
  | argumentTable _ ih => exact .argumentTable ih
  | entry _ hl hes ih => exact .of_eq (.entry ih (hg.of_kind hl) (hes.map hg)) (by simp)
  | entryName _ hn ih =>
    rw [hg.name hn]
    exact .of_eq (.entryName ih (hg.of_kind hn)) (by simp)
  | entryExpr _ hl he hr ih =>
    exact .of_eq (.entryExpr ih (hg.of_kind hl) (he.map hg) (hg.of_kind hr)) (by simp)
  | firstLocal _ hl ih => exact .of_eq (.firstLocal ih (hg.of_kind hl)) (by simp)
  | afterLocal _ hns ih => exact .of_eq (.afterLocal ih (hns.map hg)) (by simp)
  | nextLocal _ hc ih => exact .of_eq (.nextLocal ih (hg.of_kind hc)) (by simp)
  | forVariable _ hf ih => exact .of_eq (.forVariable ih (hg.of_kind hf)) (by simp)
  | afterForVariable _ hn ih =>
    rw [hg.name hn]
    exact .of_eq (.afterForVariable ih (hg.of_kind hn)) (by simp)
  | afterForName _ hns ih => exact .of_eq (.afterForName ih (hns.map hg)) (by simp)
  | nextForName _ hc ih => exact .of_eq (.nextForName ih (hg.of_kind hc)) (by simp)
  | functionName _ hw hl ih =>
    exact .of_eq (.functionName ih (hw.map hg) (hg.longest hl)) (by simp)
  | functionPath _ hp ih => exact .of_eq (.functionPath ih (hp.map hg)) (by simp)
  | functionMember _ hd ih => exact .of_eq (.functionMember ih (hg.of_kind hd)) (by simp)
  | functionMethod _ hc ih => exact .of_eq (.functionMethod ih (hg.of_kind hc)) (by simp)
  | definition _ hsig hl ih =>
    exact .of_eq (.definition ih (hsig.map hg) (hg.longest hl)) (by simp)
  | anonymous _ hf ih => exact .of_eq (.anonymous ih (hg.of_kind hf)) (by simp)
  | firstParameter _ hl ih => exact .of_eq (.firstParameter ih (hg.of_kind hl)) (by simp)
  | afterParameter _ hps ih => exact .of_eq (.afterParameter ih (hps.map hg)) (by simp)
  | nextParameter _ hc ih => exact .of_eq (.nextParameter ih (hg.of_kind hc)) (by simp)

/-- A relabeling that need only be right for some tokens, with the texts of all others kept. -/
def Relabeling.within (f : Relabeling) (ts : List Token) (t : Token) : Token :=
  if t ∈ ts then t.relabel f else ⟨t.kind, t.text, f.line t.line⟩

theorem keepsContents_within (hts : ∀ t ∈ ts, t.Keeps f) : KeepsContents (f.within ts) := by
  intro t
  unfold Relabeling.within
  split
  · exact Token.content_eq_iff.mpr ⟨rfl, hts t ‹_›⟩
  · rfl

theorem line_within (f : Relabeling) (ts : List Token) (t : Token) :
    (f.within ts t).line = f.line t.line := by
  unfold Relabeling.within
  split <;> rfl

theorem map_within (f : Relabeling) (ts : List Token) :
    ts.map (f.within ts) = ts.map (Token.relabel f) := List.map_congr_left fun _ ht => if_pos ht

theorem Derives.relabel (hts : ∀ t ∈ ts, t.Keeps f) (h : Derives .longest q ts) :
    Derives .longest q (ts.map (Token.relabel f)) := by
  rw [← map_within]
  exact h.map (keepsContents_within hts)

theorem Leads.relabel (hts : ∀ t ∈ ts, t.Keeps f) (h : Leads p ts) :
    Leads (p.relabel f) (ts.map (Token.relabel f)) := by
  rw [← map_within]
  exact h.map (keepsContents_within hts) (line_within f ts)

end LuaSyntax
