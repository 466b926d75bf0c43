import LuaSyntax.Proofs.Language
import LuaSyntax.Proofs.Leaves
import LuaSyntax.Proofs.Lines
import LuaSyntax.Proofs.ParseOnDemand

/-!
The order of leaves. Whatever a phrase stands for, its tree has the leaves of its tokens in their
order; what the phrase opens it also closes, so that only the head of a numeric loop has its commas
counted.
-/
namespace LuaSyntax

/-- A token as a scan gives it: a name has no dot, and a number no sign. -/
structure Token.Plain (t : Token) : Prop where
  name : t.kind = .name → '.' ∉ t.text.toList
  number (n : Numeral) : t.kind = .number n → n.toBinary64.abs = n.toBinary64

/-- Tokens with these leaves, as long as they are plain, that lead from one nesting to another. -/
def Reads (k : Nesting) (ts : List Token) (ls : List Leaf) (k' : Nesting) : Prop :=
  (∀ t ∈ ts, t.Plain) → tokenLeaves k ts = ls ∧ k.through ts = k'

namespace Reads

variable {k k' k'' : Nesting} {t : Token} {ts us : List Token} {ls ms : List Leaf} {y : Symbol}
  {w : Keyword}

theorem nil (k : Nesting) : Reads k [] [] k := fun _ => ⟨rfl, rfl⟩

theorem append (h : Reads k ts ls k') (h' : Reads k' us ms k'') :
    Reads k (ts ++ us) (ls ++ ms) k'' := by
  intro hplain
  obtain ⟨hts, hus⟩ := List.forall_mem_append.mp hplain
  obtain ⟨rfl, rfl⟩ := h hts
  obtain ⟨rfl, rfl⟩ := h' hus
  exact ⟨tokenLeaves_append k ts us, List.foldl_append⟩

theorem token (h : t.Plain → t.leaves k = ls) : Reads k [t] ls (k.after t.kind) := by
  intro hplain
  refine ⟨?_, rfl⟩
  rw [tokenLeaves, tokenLeaves, List.append_nil]
  exact h (hplain t (List.mem_singleton_self t))

/-- Tokens that follow one without leaves. -/
theorem cons (h : Reads (k.after t.kind) ts ls k') (ht : t.leaves k = []) :
    Reads k (t :: ts) ls k' :=
  (token fun _ => ht).append h

/-- Tokens followed by some without leaves. -/
theorem close (h : Reads k ts ls k') (h' : Reads k' us [] k'') : Reads k (ts ++ us) ls k'' := by
  rw [← List.append_nil ls]
  exact h.append h'

theorem symbol (ht : t.kind = .symbol y) (h : Reads (k.after (.symbol y)) ts ls k') :
    Reads k (t :: ts) ls k' :=
  cons (ht ▸ h) (by rw [Token.leaves, ht])

theorem keyword (ht : t.kind = .keyword w) (hw : w ≠ .do)
    (h : Reads (k.after (.keyword w)) ts ls k') : Reads k (t :: ts) ls k' :=
  cons (ht ▸ h) (by rw [Token.leaves, ht]; cases w <;> first | rfl | exact absurd rfl hw)

/-- A symbol that changes nothing. -/
theorem idle (hk : k.after (.symbol y) = k) (ht : t.kind = .symbol y) (h : Reads k ts ls k') :
    Reads k (t :: ts) ls k' :=
  symbol ht (hk.symm ▸ h)

theorem thenSymbol (h : Reads k ts ls k') (ht : t.kind = .symbol y) :
    Reads k (ts ++ [t]) ls (k'.after (.symbol y)) :=
  h.close (symbol ht (nil _))

theorem thenKeyword (h : Reads k ts ls k') (ht : t.kind = .keyword w) (hw : w ≠ .do) :
    Reads k (ts ++ [t]) ls (k'.after (.keyword w)) :=
  h.close (keyword ht hw (nil _))

theorem «end» (h : Reads k ts ls (.body :: k')) (ht : t.kind = .keyword .end) :
    Reads k (ts ++ [t]) ls k' :=
  h.thenKeyword ht (by decide)

theorem doBlock (hk : k.InBody) (ht : t.kind = .keyword .do) (h : Reads (.body :: k) ts ls k') :
    Reads k (t :: ts) ls k' := by
  have hafter : k.after t.kind = .body :: k := by rw [ht, hk.after_do]
  exact cons (hafter ▸ h) (by simp only [Token.leaves, ht, if_neg (hk 2)])

/-- The end of the head of a loop that has no two expressions after an equals sign. -/
theorem doHead {n : Nat} (hn : n ≠ 2) (ht : t.kind = .keyword .do)
    (h : Reads (.body :: k) ts ls k') : Reads (.head n :: k) (t :: ts) ls k' := by
  have hafter : Nesting.after (.head n :: k) t.kind = .body :: k := by rw [ht]; rfl
  exact cons (hafter ▸ h) (by simp [Token.leaves, ht, hn])

/-- The end of the head of a numeric loop without a step. -/
theorem doStep (ht : t.kind = .keyword .do) (h : Reads (.body :: k) ts ls k') :
    Reads (.head 2 :: k) (t :: ts) (.number .one :: ls) k' := by
  have hstep : t.leaves (.head 2 :: k) = [.number .one] := by simp [Token.leaves, ht]
  have hafter : Nesting.after (.head 2 :: k) t.kind = .body :: k := by rw [ht]; rfl
  exact (token fun _ => hstep).append (hafter ▸ h)

theorem name (ht : t.kind = .name) : Reads k [t] (pathLeaves t.text) k := by
  have htoken : Reads k [t] (pathLeaves t.text) (k.after t.kind) := token fun hplain => by
    rw [Token.leaves, ht, pathLeaves_name (hplain.name ht)]
  rwa [ht] at htoken

theorem member {c : Chain} {d n : Token} (h : Reads k ts c.expr.leaves k')
    (hd : d.kind = .symbol .dot) (hn : n.kind = .name) :
    Reads k (ts ++ [d, n]) (c.member n.text).expr.leaves k' := by
  intro hplain
  have hname : '.' ∉ n.text.toList := (hplain n (by simp)).name hn
  rw [Chain.leaves_member hname]
  exact h.append (symbol hd (name hn)) hplain

theorem literal {e : Expr} (ht : t.literal? = some e) : Reads k [t] e.leaves k := by
  have hafter : k.after t.kind = k := by
    unfold Token.literal? at ht
    split at ht <;> simp_all [Nesting.after]
  have htoken : Reads k [t] e.leaves (k.after t.kind) := token fun hplain => by
    unfold Token.literal? at ht
    split at ht <;> cases ht <;> simp_all [Token.leaves, Expr.leaves, hplain.number]
  rwa [hafter] at htoken

theorem sign {op : UnaryOp} (ht : UnaryOp.ofToken? t.kind = some op) (h : Reads k ts ls k') :
    Reads k (t :: ts) ls k' := by
  unfold UnaryOp.ofToken? at ht
  split at ht
  · rename_i hkind
    exact symbol hkind h
  · rename_i hkind
    exact keyword hkind (by decide) h
  · cases ht

theorem operator {op : BinaryOp} (ht : BinaryOp.ofToken? t.kind = some op)
    (h : Reads k ts ls k') : Reads k (t :: ts) ls k' := by
  unfold BinaryOp.ofToken? at ht
  split at ht <;> rename_i hkind
  · exact keyword hkind (by decide) h
  · exact keyword hkind (by decide) h
  all_goals first | exact symbol hkind h | cases ht

end Reads

namespace Phrase

def leaves : Phrase → List Leaf
  | .names ns | .parameters ns => ns.flatMap pathLeaves
  | .primary e _ | .expr e _ => e.leaves
  | .operand a _ => a.primary.leaves
  | .formula f _ => f.leaves
  | .chain c => c.expr.leaves
  | .exprs es _ | .arguments es | .targets es | .returned es => exprLeaves es
  | .field e => e.leaves
  | .fields es | .table es => entryLeaves es
  | .function ps b => ps.flatMap pathLeaves ++ blockLeaves b
  | .functionKeyword _ => []
  | .path p | .signature _ p => pathLeaves p
  | .condition as | .arms as => as.flatMap Arm.leaves
  | .statement ss _ | .statements ss _ | .block ss => blockLeaves ss

/-- Where a phrase stands: commas between names or expressions do not count, and what has an equals
sign or begins with `do` is not in the head of a loop. -/
def Fits (k : Nesting) : Phrase → Prop
  | .names _ | .exprs _ _ => k.after (.symbol .comma) = k
  | .field _ | .fields _ | .targets _ | .returned _ => k.InBody
  | .statement _ _ | .statements _ _ | .block _ => k.InBody
  | _ => True

/-- A function body closes what its keyword has opened. -/
def before (k : Nesting) : Phrase → Nesting
  | .function _ _ => .body :: k
  | _ => k

def behind (k : Nesting) : Phrase → Nesting
  | .functionKeyword _ | .signature _ _ | .condition _ | .arms _ => .body :: k
  | _ => k

end Phrase

theorem leaves_numericFor (n : String) (start limit step : Expr) (b : List Stmt) :
    blockLeaves [ParserState.numericFor n start limit step b] =
      pathLeaves n ++ (start.leaves ++ (limit.leaves ++ (step.leaves ++ blockLeaves b))) := by
  simp [blockLeaves, ParserState.numericFor, Stmt.leaves, Assignment.leaves, exprLeaves,
    Expr.leaves]

/-- By induction on the derivation. A phrase is read in any nesting that it fits, so that each part
can be read in what the tokens before it have opened. -/
theorem Derives.reads {beside : Juxtaposition} {p : Phrase} {ts : List Token}
    (h : Derives beside p ts) (k : Nesting) (hk : p.Fits k) :
    Reads (p.before k) ts p.leaves (p.behind k) := by
  induction h generalizing k with
  | name hn =>
    rw [Phrase.leaves, List.flatMap_singleton]
    exact .name hn
  | names _ hc hn ih =>
    rw [Phrase.leaves, List.flatMap_append, List.flatMap_singleton]
    exact (ih k hk).append (.idle hk hc (.name hn))
  | literal h => exact .literal (e := _) h
  | anonymous hf _ ih => exact .keyword hf (by decide) (ih k trivial)
  | tableValue _ ih => exact ih k hk
  | chainValue _ ih => exact ih k hk
  | unsigned _ ih => exact ih k hk
  | signed hop _ ih => exact .sign hop (ih k hk)
  | formula _ ih =>
    rw [Phrase.leaves, Formula.leaves_single]
    exact ih k hk
  | operator _ hop _ ihf iha =>
    rw [Phrase.leaves, Formula.leaves_append]
    exact (ihf k hk).append (.operator hop (iha k hk))
  | expr _ ih =>
    rw [Phrase.leaves, Formula.leaves_tree]
    exact ih k hk
  | exprList _ ih =>
    rw [Phrase.leaves, exprLeaves_single]
    exact ih k trivial
  | exprs _ hc _ ihs ih =>
    rw [Phrase.leaves, exprLeaves_append, exprLeaves_single]
    exact (ihs k hk).append (.idle hk hc (ih k trivial))
  | «variable» hn => exact .name hn
  | parens hl _ hr ih => exact .symbol hl ((ih _ trivial).thenSymbol hr)
  | member _ hd hn ih => exact (ih k hk).member hd hn
  | subscript _ hl _ hr ihc ih =>
    exact (ihc k hk).append (.symbol hl ((ih _ trivial).thenSymbol hr))
  | call _ _ ihc ih => exact (ihc k hk).append (ih k trivial)
  | noArguments hl hr => exact .symbol hl (.symbol hr (.nil _))
  | arguments hl _ hr ih =>
    exact .symbol hl ((ih _ (Nesting.inBody_body k).after_comma).thenSymbol hr)
  | tableArgument _ ih =>
    rw [Phrase.leaves, exprLeaves_single]
    exact ih k hk
  | namedField hn ha _ ih =>
    exact (Reads.name hn).append (.idle hk.after_assign ha (ih k trivial))
  | keyedField hl _ hr ha _ ihk ih =>
    exact .symbol hl ((ihk _ trivial).append (.symbol hr (.idle hk.after_assign ha (ih k trivial))))
  | fieldList _ ih =>
    rw [Phrase.leaves, entryLeaves_single]
    exact ih k hk
  | fields _ hc _ ihs ih =>
    rw [Phrase.leaves, entryLeaves_append, entryLeaves_single]
    exact (ihs k hk).append (.idle hk.after_comma hc (ih k hk))
  | emptyTable hl hr => exact .symbol hl (.symbol hr (.nil _))
  | table hl _ hr ih => exact .symbol hl ((ih _ (Nesting.inBody_body k)).thenSymbol hr)
  | tableComma hl _ hc hr ih =>
    have hbody := Nesting.inBody_body k
    exact .symbol hl ((ih _ hbody).close (.idle hbody.after_comma hc (.symbol hr (.nil _))))
  | noParameters hl hr => exact .symbol hl (.symbol hr (.nil _))
  | parameters hl _ hr ih =>
    exact .symbol hl ((ih _ (Nesting.inBody_body k).after_comma).thenSymbol hr)
  | function _ _ he ihp ihb =>
    exact (ihp (.body :: k) trivial).append ((ihb _ (Nesting.inBody_body k)).end he)
  | globalFunction hf => exact .keyword hf (by decide) (.nil _)
  | localFunction hl hf => exact .keyword hl (by decide) (.keyword hf (by decide) (.nil _))
  | pathName hn => exact .name hn
  | path _ hd hn ih =>
    rw [Phrase.leaves, pathLeaves_extendPath]
    exact (ih k hk).append (.symbol hd (.name hn))
  | signature _ _ ihf ihp => exact (ihf k hk).append (ihp _ trivial)
  | method _ _ hc hn ihf ihp =>
    rw [Phrase.leaves, pathLeaves_extendPath]
    exact (ihf k hk).append ((ihp _ trivial).append (.symbol hc (.name hn)))
  | target _ hx ih =>
    rw [Phrase.leaves, exprLeaves_single, Chain.leaves_target hx]
    exact ih k trivial
  | targets _ hc _ hx ihs ih =>
    rw [Phrase.leaves, exprLeaves_append, exprLeaves_single, Chain.leaves_target hx]
    exact (ihs k hk).append (.idle hk.after_comma hc (ih k trivial))
  | ifCondition hi => exact .keyword hi (by decide) (.nil _)
  | elseifCondition _ hi ih => exact (ih k hk).thenKeyword hi (by decide)
  | arm _ _ ht _ ihs ihe ihb =>
    have hblock := ihb _ (Nesting.inBody_body k)
    rw [Phrase.leaves, List.flatMap_append, List.flatMap_singleton]
    exact (ihs k hk).append ((ihe _ trivial).append (.keyword ht (by decide) hblock))
  | «break» hb => exact .keyword hb (by decide) (.nil _)
  | «do» hd _ he ih =>
    have hblock := (ih _ (Nesting.inBody_body k)).end he
    rw [Phrase.leaves, blockLeaves_single]
    exact .doBlock hk hd hblock
  | «while» hw _ hd _ he ihc ihb =>
    have hbody := (ihb _ (Nesting.inBody_body k)).end he
    have hcond := (ihc (.head 0 :: k) trivial).append (.doHead (by decide) hd hbody)
    rw [Phrase.leaves, blockLeaves_single]
    exact .keyword hw (by decide) hcond
  | «repeat» hr _ hu _ ihb ihc =>
    have hbody := ihb _ (Nesting.inBody_body k)
    have hcond := hbody.append (.keyword hu (by decide) (ihc k trivial))
    rw [Phrase.leaves, blockLeaves_single]
    exact .keyword hr (by decide) hcond
  | conditional _ he ih =>
    rw [Phrase.leaves, blockLeaves_conditional, blockLeaves, List.append_nil]
    exact (ih k trivial).end he
  | conditionalElse _ hl _ he ih ihb =>
    have hblock := (ihb _ (Nesting.inBody_body k)).end he
    rw [Phrase.leaves, blockLeaves_conditional]
    exact (ih k trivial).append (.keyword hl (by decide) hblock)
  | numericFor hf hn ha _ hc _ hd _ he ih₁ ih₂ ihb =>
    have hbody := (ihb _ (Nesting.inBody_body k)).end he
    have hlimit := (ih₂ (.head 2 :: k) trivial).append (.doStep hd hbody)
    have hstart := (ih₁ (.head 1 :: k) trivial).append (.symbol hc hlimit)
    rw [Phrase.leaves, leaves_numericFor]
    exact .keyword hf (by decide) ((Reads.name hn).append (.symbol ha hstart))
  | numericForStep hf hn ha _ hc _ hc' _ hd _ he ih₁ ih₂ ih₃ ihb =>
    have hbody := (ihb _ (Nesting.inBody_body k)).end he
    have hstep := (ih₃ (.head 3 :: k) trivial).append (.doHead (by decide) hd hbody)
    have hlimit := (ih₂ (.head 2 :: k) trivial).append (.symbol hc' hstep)
    have hstart := (ih₁ (.head 1 :: k) trivial).append (.symbol hc hlimit)
    rw [Phrase.leaves, leaves_numericFor]
    exact .keyword hf (by decide) ((Reads.name hn).append (.symbol ha hstart))
  | genericFor hf _ hi _ hd _ he ihn ih ihb =>
    have hcomma : Nesting.after (.head 0 :: k) (.symbol .comma) = .head 0 :: k := rfl
    have hbody := (ihb _ (Nesting.inBody_body k)).end he
    have hvalues := (ih (.head 0 :: k) hcomma).append (.doHead (by decide) hd hbody)
    rw [Phrase.leaves, blockLeaves_single, Stmt.leaves, List.append_assoc]
    exact .keyword hf (by decide) ((ihn _ hcomma).append (.keyword hi (by decide) hvalues))
  | definition _ _ ihs ih =>
    rw [Phrase.leaves, blockLeaves_single, Stmt.leaves, List.append_assoc]
    exact (ihs k trivial).append (ih k trivial)
  | declaration hl _ ih =>
    rw [Phrase.leaves, blockLeaves_single, Stmt.leaves, Assignment.leaves, exprLeaves_vars,
      exprLeaves_nils, List.append_nil]
    exact .keyword hl (by decide) (ih k hk.after_comma)
  | localAssignment hl _ ha _ _ ihn ih =>
    have hvalues := Reads.idle hk.after_assign ha (ih k hk.after_comma)
    rw [Phrase.leaves, blockLeaves_single, Stmt.leaves, Assignment.leaves, exprLeaves_vars]
    exact .keyword hl (by decide) ((ihn k hk.after_comma).append hvalues)
  | assignment _ ha _ _ ihx ih =>
    rw [Phrase.leaves, blockLeaves_single]
    exact (ihx k hk).append (.idle hk.after_assign ha (ih k hk.after_comma))
  | callStatement _ ih =>
    rw [Phrase.leaves, blockLeaves_single]
    exact ih k trivial
  | noStatements => exact .nil k
  | semicolon _ hs ih => exact (ih k hk).thenSymbol hs
  | statements _ _ _ ihs ih =>
    rw [Phrase.leaves, blockLeaves_append]
    exact (ihs k hk).append (ih k hk)
  | returnNothing hr => exact .keyword hr (by decide) (.nil _)
  | returnValues hr _ ih => exact .keyword hr (by decide) (ih k hk.after_comma)
  | block _ ih => exact ih k hk
  | returningBlock _ _ ihs ih =>
    rw [Phrase.leaves, blockLeaves_append, blockLeaves_single]
    exact (ihs k hk).append (ih k hk)
  | returningBlockSemicolon _ _ hs ihs ih =>
    rw [Phrase.leaves, blockLeaves_append, blockLeaves_single]
    exact (ihs k hk).append ((ih k hk).thenSymbol hs)

/-- What a scan makes of a number has no sign. -/
theorem NumberLiteral.abs_value (x : NumberLiteral) :
    x.value.toBinary64.abs = x.value.toBinary64 := by
  have hint (n : Nat) : (Numeral.int n).toBinary64.abs = (Numeral.int n).toBinary64 := by
    simp [Numeral.toBinary64, Binary64.ofInt, Binary64.abs, Binary64.ofMagnitude]
  cases x with
  | hexadecimal digits =>
    unfold value
    dsimp only
    split
    · exact hint _
    · rfl
  | decimal whole fraction exponent =>
    unfold value
    dsimp only
    split
    · exact hint _
    · rfl

/-- A piece that is a plain token if it is one at all. -/
def Piece.Plain (p : Piece) : Prop :=
  ∀ line t, LocatedPiece.token? ⟨line, p⟩ = some t → t.Plain

theorem Piece.plain_lexeme {kind : TokenKind} {text : List Char}
    (hname : kind = .name → '.' ∉ text)
    (hnumber : ∀ n, kind = .number n → n.toBinary64.abs = n.toBinary64) :
    (lexeme kind text).Plain := by
  intro line t ht
  obtain rfl := Option.some.inj ht
  exact ⟨fun hkind => by rw [String.toList_ofList]; exact hname hkind, hnumber⟩

theorem Piece.plain_scan (c : Char) (s : List Char) : (scan c s).Plain := by
  refine scan_cases (motive := Plain) c s ?blank ?comment ?string ?number ?word ?symbol
  case blank => simp [Plain, LocatedPiece.token?]
  case comment =>
    intro r _ _
    unfold scanComment
    split <;> simp [Plain, LocatedPiece.token?]
  case string =>
    intro _
    unfold scanString
    split
    · exact plain_lexeme (by simp) (by simp)
    · simp [Plain, LocatedPiece.token?]
  case number =>
    intro _
    refine plain_lexeme (by simp) fun n hn => ?_
    obtain rfl := TokenKind.number.inj hn
    exact NumberLiteral.abs_value _
  case word =>
    intro _
    have hword : '.' ∉ (c :: s).takeWhile isWordChar := fun hmem =>
      absurd (List.all_eq_true.mp List.all_takeWhile _ hmem) (by decide)
    unfold scanWord
    dsimp only
    split
    · exact plain_lexeme (by simp) (by simp)
    · exact plain_lexeme (fun _ => hword) (by simp)
  case symbol =>
    intro _ _ _ _
    unfold scanSymbol
    split
    · exact plain_lexeme (by simp) (by simp)
    · simp [Plain, LocatedPiece.token?]

theorem plain_of_mem_tokenize {source : String} {t : Token} (h : t ∈ tokenize source) :
    t.Plain := by
  obtain ⟨p, hp, ht⟩ := List.mem_filterMap.mp h
  obtain ⟨ps, qs, hsplit⟩ := List.append_of_mem hp
  obtain ⟨c, r, -, rfl⟩ := locate_split hsplit
  exact Piece.plain_scan c r _ t ht

/-- A program has the leaves of its source in their order, and a one for each step that is not
written. -/
theorem leaves_parseInto {source : String} {log : Log} {p : Program}
    (h : (parseInto log source).1 = .ok p) : blockLeaves p = tokenLeaves [] (tokenize source) := by
  rw [result_parseInto] at h
  have hreads := (parse_eq_ok_iff.mp h).reads [] Nesting.inBody_nil
  exact (hreads fun t ht => plain_of_mem_tokenize ht).1.symm

/-- A loop with a signed start and no step. -/
theorem leaves_parseInto_loop : ∃ p,
    (parseInto .empty "for i = -1, a.b do f(x)['y'] = c end").1 = .ok p ∧ blockLeaves p =
      [.text "i", .number .one, .text "a", .text "b", .number .one, .text "f", .text "x", .text "y",
       .text "c"] := by
  have hparses : (parse (tokenize "for i = -1, a.b do f(x)['y'] = c end")).toBool = true := by
    decide +kernel
  cases h : parse (tokenize "for i = -1, a.b do f(x)['y'] = c end") with
  | error e => simp [h, Except.toBool] at hparses
  | ok p =>
    have hresult := (result_parseInto _ .empty).trans h
    exact ⟨p, hresult, (leaves_parseInto hresult).trans (by decide +kernel)⟩

end LuaSyntax
