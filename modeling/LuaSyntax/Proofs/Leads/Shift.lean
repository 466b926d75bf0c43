import LuaSyntax.Proofs.Leads.Settle

/-!
Reading a token keeps what the tokens before a state say about it, one lemma for each kind of state.
-/
namespace LuaSyntax

open ParserState

variable {k : ExprContext} {b : BlockContext} {e : Expr} {o : Bool} {t : Token}
  {s s' : ParserState} {ts us vs : List Token}

namespace Token

@[simp] theorem expect_eq_ok {kind : TokenKind} :
    t.expect kind s = .ok s' ↔ t.kind = kind ∧ s = s' := by
  unfold expect
  split <;> simp_all

@[simp] theorem expectKeyword_eq_ok {w : Keyword} :
    t.expectKeyword w s = .ok s' ↔ t.kind = .keyword w ∧ s = s' := expect_eq_ok

@[simp] theorem expectSymbol_eq_ok {y : Symbol} :
    t.expectSymbol y s = .ok s' ↔ t.kind = .symbol y ∧ s = s' := expect_eq_ok

theorem unexpected_ne_ok {α : Type} {x : α} : t.unexpected ≠ .ok x := by simp [unexpected]

end Token

/-- A statement ends with a token that no chain can go on after. -/
theorem Leads.push {added : List Stmt} (h : Leads (.block b o) ts)
    (hx : Derives .longest (.statement added false) us) (hl : Juxtaposition.longest o us) :
    Leads (.state (.statement (b.append added))) (ts ++ us) := .statement (h.append hx hl)

theorem leads_closeBlock {w : Owner} {ss : List Stmt} (hw : Leads (.owner w) ts)
    (hb : Derives .longest (.block ss) us) (hs : closeBlock t (.block ss w) = .ok s) :
    Leads (.state s) (ts ++ (us ++ [t])) := by
  cases hw with
  | program => exact absurd hs Token.unexpected_ne_ok
  | doBlock h hd =>
    obtain ⟨ht, rfl⟩ := Token.expectKeyword_eq_ok.mp hs
    have hx := Derives.do hd hb ht
    exact (h.push hx (Juxtaposition.longest_cons (by simp [hd]))).of_eq (by simp)
  | whileBlock h hk hc hd =>
    obtain ⟨ht, rfl⟩ := Token.expectKeyword_eq_ok.mp hs
    have hx := Derives.while hk hc hd hb ht
    exact (h.push hx (Juxtaposition.longest_cons (by simp [hk]))).of_eq (by simp)
  | repeatBlock h hr =>
    obtain ⟨ht, rfl⟩ := Token.expectKeyword_eq_ok.mp hs
    exact (Leads.untilCond h hr hb ht).of_eq (by simp)
  | thenBlock h hcond hl hc hthen =>
    have harms := Derives.arm hcond hc hthen hb
    have hl' := hcond.longest_append id hl
    simp only [closeBlock] at hs
    split at hs
    · rename_i ht
      cases hs
      refine (Leads.ifCond h (.elseifCondition harms ht) ?_).of_eq (by simp)
      rw [List.append_assoc]
      exact hl' _
    · rename_i ht
      cases hs
      have howner := Leads.elseBlock h harms (hl' _) ht
      exact ((howner.block .noStatements).statement).of_eq (by simp)
    · obtain ⟨ht, rfl⟩ := Token.expectKeyword_eq_ok.mp hs
      refine (h.push (.conditional harms ht) ?_).of_eq (by simp)
      rw [List.append_assoc]
      exact hl' _
  | elseBlock h harms hl helse =>
    obtain ⟨ht, rfl⟩ := Token.expectKeyword_eq_ok.mp hs
    have hx := Derives.conditionalElse harms helse hb ht
    have hl' := harms.longest_append id hl
    exact (h.push hx (hl' _)).of_eq (by simp)
  | numericForBlock h hf hn ha hstart hc hlimit hd =>
    obtain ⟨ht, rfl⟩ := Token.expectKeyword_eq_ok.mp hs
    have hx := Derives.numericFor hf hn ha hstart hc hlimit hd hb ht
    exact (h.push hx (Juxtaposition.longest_cons (by simp [hf]))).of_eq (by simp)
  | numericForStepBlock h hf hn ha hstart hc hlimit hc' hstep hd =>
    obtain ⟨ht, rfl⟩ := Token.expectKeyword_eq_ok.mp hs
    have hx := Derives.numericForStep hf hn ha hstart hc hlimit hc' hstep hd hb ht
    exact (h.push hx (Juxtaposition.longest_cons (by simp [hf]))).of_eq (by simp)
  | genericForBlock h hf hns hin hes hd =>
    obtain ⟨ht, rfl⟩ := Token.expectKeyword_eq_ok.mp hs
    have hx := Derives.genericFor hf hns hin hes hd hb ht
    exact (h.push hx (Juxtaposition.longest_cons (by simp [hf]))).of_eq (by simp)
  | functionBlock h hps =>
    cases h with
    | definition h hsig hl =>
      obtain ⟨ht, rfl⟩ := Token.expectKeyword_eq_ok.mp hs
      have hx := Derives.definition hsig (.function hps hb ht)
      have hl' := hsig.longest_append id hl
      exact (h.push hx (hl' _)).of_eq (by simp)
    | anonymous h hf =>
      obtain ⟨ht, rfl⟩ := Token.expectKeyword_eq_ok.mp hs
      exact (Leads.operator h (.anonymous hf (.function hps hb ht))).of_eq (by simp)

theorem leads_startChain {c : ChainContext} (h : Leads (.chain c o) ts)
    (hl : StartsChain c o [t]) (hs : startChain t c = .ok s) :
    Leads (.state s) (ts ++ [t]) := by
  unfold startChain at hs
  split at hs
  · rename_i ht
    cases hs
    exact h.suffix (.variable ht) hl
  · rename_i ht
    cases hs
    exact h.parens ht hl
  · exact absurd hs Token.unexpected_ne_ok

theorem leads_enter {w : Owner} (h : Leads (.owner w) ts) : Leads (.state (.enter w)) ts := by
  have hb := Leads.statement (h.block .noStatements)
  exact hb.of_eq (by simp)

theorem leads_shiftStatement (h : Leads (.block b o) ts)
    (hext : o = true → t.kind.extendsChain = false) (hs : shiftStatement t b = .ok s) :
    Leads (.state s) (ts ++ [t]) := by
  unfold shiftStatement at hs
  have hl : Juxtaposition.longest o [t] := by
    intro ho u hu
    cases hu
    intro ht
    simpa [ht, TokenKind.extendsChain] using hext ho
  split at hs
  case h_1 ht =>
    cases hs
    cases h with
    | block hw hss => exact (Leads.statement (hw.block (hss.semicolon ht))).of_eq (by simp)
  case h_2 ht =>
    cases hs
    exact h.returning ht
  case h_3 ht =>
    cases hs
    exact h.push (.break ht) hl
  case h_4 ht =>
    cases hs
    exact h.ifCond (.ifCondition ht) hl
  case h_5 ht =>
    cases hs
    exact h.whileCond ht
  case h_6 ht =>
    cases hs
    exact leads_enter (h.repeatBlock ht)
  case h_7 ht =>
    cases hs
    exact leads_enter (h.doBlock ht)
  case h_8 ht =>
    cases hs
    exact h.firstLocal ht
  case h_9 ht =>
    cases hs
    exact h.forVariable ht
  case h_10 ht =>
    cases hs
    exact h.functionName (.globalFunction ht) hl
  case h_11 =>
    split at hs
    · cases h with
      | block hw hss => exact (leads_closeBlock hw (.block hss) hs).of_eq (by simp)
    · exact leads_startChain (.statementChain h) ⟨hl, by simp [ChainContext.line?]⟩ hs

theorem leads_shiftOperand (h : Leads (.state (.operand k)) ts) (hs : shiftOperand t k = .ok s) :
    Leads (.state s) (ts ++ [t]) := by
  unfold shiftOperand at hs
  split at hs
  case h_1 ht | h_2 ht =>
    cases hs
    exact h.unary (by simp [ht, UnaryOp.ofToken?])
  case h_3 ht | h_4 ht | h_5 ht | h_6 ht | h_7 ht =>
    cases hs
    exact h.operator (.literal (by simp [Token.literal?, ht]))
  case h_8 ht =>
    cases hs
    exact h.anonymous ht
  case h_9 ht =>
    cases hs
    exact h.operandTable.entry ht .none
  case h_10 =>
    have hstart : StartsChain (.operand k) false [t] :=
      ⟨Juxtaposition.longest_closed _, by simp [ChainContext.line?]⟩
    exact leads_startChain h.operandChain hstart hs

theorem leads_shiftSuffix {c : Chain} {k : ChainContext} (h : Leads (.state (.suffix c k)) ts)
    (hs : shiftSuffix t c k = .ok s) : Leads (.state s) (ts ++ [t]) := by
  unfold shiftSuffix at hs
  split at hs
  case h_1 ht =>
    cases hs
    exact h.member ht
  case h_2 ht =>
    cases hs
    exact h.subscript ht
  case h_3 ht =>
    cases hs
    exact h.firstArgument ht
  case h_4 ht =>
    cases hs
    exact h.argumentTable.entry ht .none
  case h_5 => exact absurd hs Token.unexpected_ne_ok

theorem leads_shiftFunctionPath {isLocal : Bool} {p : String}
    (h : Leads (.state (.functionPath isLocal p b)) ts)
    (hs : shiftFunctionPath t isLocal p b = .ok s) : Leads (.state s) (ts ++ [t]) := by
  unfold shiftFunctionPath at hs
  split at hs
  · rename_i ht
    cases hs
    exact h.functionMember ht
  · rename_i ht
    cases hs
    exact h.functionMethod ht
  · obtain ⟨ht, rfl⟩ := Token.expectSymbol_eq_ok.mp hs
    cases h with
    | functionPath h hp =>
      cases h with
      | functionName h hk hl =>
        have hl' := hk.longest_append id hl
        have hhead := Leads.definition h (.signature hk hp) (hl' _)
        exact (hhead.firstParameter ht).of_eq (by simp)

theorem leads_closeTable {es : List Entry} {k : TableContext} (h : Leads (.table k) ts)
    (hes : Derives .longest (.table es) us) : Leads (.state (closeTable es k)) (ts ++ us) := by
  cases h with
  | operandTable h => exact h.operator (.tableValue hes)
  | argumentTable h =>
    cases h with
    | suffix h hc hl =>
      rw [List.append_assoc]
      exact h.suffix (.call hc (.tableArgument hes)) (hl.append hc _)

theorem leads_shiftEntry {es : List Entry} {k : TableContext} (h : Leads (.state (.entry es k)) ts)
    (hs : shiftEntry t es k = .ok s) : Leads (.state s) (ts ++ [t]) := by
  unfold shiftEntry at hs
  split at hs
  case h_1 ht =>
    cases hs
    cases h with
    | entry h hl hes =>
      cases hes with
      | none => exact (leads_closeTable h (.emptyTable hl ht)).of_eq (by simp)
      | some hes hc => exact (leads_closeTable h (.tableComma hl hes hc ht)).of_eq (by simp)
  case h_2 ht =>
    cases hs
    exact h.entryName ht
  case h_3 ht =>
    cases hs
    exact h.entryKey ht
  case h_4 => exact absurd hs Token.unexpected_ne_ok

/-- After the value of an entry the table has one more entry. -/
theorem leads_entryValue {es : List Entry} {key : Expr} {k : TableContext}
    (h : Leads (.state (.operand (.entryValue es key k))) ts)
    (he : Derives .longest (.expr e o) us) :
    ∃ ts' l vs, Leads (.table k) ts' ∧ l.kind = .symbol .openBrace ∧
      Derives .longest (.fields (es ++ [.entry key e])) vs ∧ ts ++ us = ts' ++ l :: vs := by
  cases h with
  | entryValue h ha =>
    cases h with
    | entryName h hn =>
      cases h with
      | entry h hl hes => exact ⟨_, _, _, h, hl, hes.fields (.namedField hn ha he), by simp⟩
    | entryExpr h hk hkey hr =>
      cases h with
      | entry h hl hes => exact ⟨_, _, _, h, hl, hes.fields (.keyedField hk hkey hr ha he), by simp⟩

/-- Reads what follows a complete expression. -/
theorem leads_endOperand (h : Leads (.state (.operand k)) ts) (he : Derives .longest (.expr e o) us)
    (hs : endOperand t e k = .ok s) : Leads (.state s) (ts ++ (us ++ [t])) := by
  cases h with
  | unary h ht => exact absurd hs Token.unexpected_ne_ok
  | binary hk h hf ht hr => exact absurd hs Token.unexpected_ne_ok
  | untilCond h hr hb hu => exact absurd hs Token.unexpected_ne_ok
  | parens h hl hlong =>
    obtain ⟨ht, rfl⟩ := Token.expectSymbol_eq_ok.mp hs
    exact (h.suffix (.parens hl he ht) ⟨hlong.longest, hlong.line⟩).of_eq (by simp)
  | subscript h hl =>
    obtain ⟨ht, rfl⟩ := Token.expectSymbol_eq_ok.mp hs
    cases h with
    | suffix h hc hlong =>
      have hc' := Derives.subscript hc hl he ht
      exact (h.suffix hc' (hlong.append hc _)).of_eq (by simp)
  | argument h hl hes =>
    simp only [endOperand] at hs
    split at hs
    · rename_i ht
      cases hs
      exact (h.argument hl (.some ⟨o, hes.exprs he⟩ ht)).of_eq (by simp)
    · obtain ⟨ht, rfl⟩ := Token.expectSymbol_eq_ok.mp hs
      cases h with
      | suffix h hc hlong =>
        have hc' := Derives.call hc (.arguments hl (hes.exprs he) ht)
        exact (h.suffix hc' (hlong.append hc _)).of_eq (by simp)
  | entryKey h hl =>
    obtain ⟨ht, rfl⟩ := Token.expectSymbol_eq_ok.mp hs
    exact (h.entryExpr hl he ht).of_eq (by simp)
  | entryValue h ha =>
    obtain ⟨ts', l, vs, htable, hl, hes, heq⟩ := leads_entryValue (.entryValue h ha) he
    rw [← List.append_assoc, heq]
    simp only [endOperand] at hs
    split at hs
    · rename_i ht
      cases hs
      exact (htable.entry hl (.some hes ht)).of_eq (by simp)
    · obtain ⟨ht, rfl⟩ := Token.expectSymbol_eq_ok.mp hs
      exact (leads_closeTable htable (.table hl hes ht)).of_eq (by simp)
  | whileCond h hw =>
    obtain ⟨ht, rfl⟩ := Token.expectKeyword_eq_ok.mp hs
    exact (leads_enter (h.whileBlock hw he ht)).of_eq (by simp)
  | ifCond h hcond hl =>
    obtain ⟨ht, rfl⟩ := Token.expectKeyword_eq_ok.mp hs
    exact (leads_enter (h.thenBlock hcond hl he ht)).of_eq (by simp)
  | forStart h hf hn ha =>
    obtain ⟨ht, rfl⟩ := Token.expectSymbol_eq_ok.mp hs
    exact (h.forLimit hf hn ha he ht).of_eq (by simp)
  | forLimit h hf hn ha hstart hc =>
    simp only [endOperand] at hs
    split at hs
    · rename_i ht
      cases hs
      exact (h.forStep hf hn ha hstart hc he ht).of_eq (by simp)
    · obtain ⟨ht, rfl⟩ := Token.expectKeyword_eq_ok.mp hs
      exact (leads_enter (h.numericForBlock hf hn ha hstart hc he ht)).of_eq (by simp)
  | forStep h hf hn ha hstart hc hlimit hc' =>
    obtain ⟨ht, rfl⟩ := Token.expectKeyword_eq_ok.mp hs
    have hw := h.numericForStepBlock hf hn ha hstart hc hlimit hc' he ht
    exact (leads_enter hw).of_eq (by simp)
  | forValue h hf hns hin hes =>
    simp only [endOperand] at hs
    split at hs
    · rename_i ht
      cases hs
      exact (h.forValue hf hns hin (.some ⟨o, hes.exprs he⟩ ht)).of_eq (by simp)
    · obtain ⟨ht, rfl⟩ := Token.expectKeyword_eq_ok.mp hs
      exact (leads_enter (h.genericForBlock hf hns hin (hes.exprs he) ht)).of_eq (by simp)
  | returnValue h hr hes =>
    obtain ⟨ht, rfl⟩ := Token.expectSymbol_eq_ok.mp hs
    exact (h.returnValue hr (.some ⟨o, hes.exprs he⟩ ht)).of_eq (by simp)
  | assigned h ha hes =>
    obtain ⟨ht, rfl⟩ := Token.expectSymbol_eq_ok.mp hs
    exact (h.assigned ha (.some ⟨o, hes.exprs he⟩ ht)).of_eq (by simp)
  | localAssigned h ha hes =>
    obtain ⟨ht, rfl⟩ := Token.expectSymbol_eq_ok.mp hs
    exact (h.localAssigned ha (.some ⟨o, hes.exprs he⟩ ht)).of_eq (by simp)

theorem leads_shiftOperator (h : (ParserState.operator e k).Settled (some t.kind) ts)
    (hs : shiftOperator t e k = .ok s) : Leads (.state s) (ts ++ [t]) := by
  unfold shiftOperator at hs
  simp only [Settled, Option.bind_some] at h
  split at hs
  · rename_i op hop
    cases hs
    simp only [hop] at h
    exact h t hop
  · rename_i hop
    simp only [hop] at h
    obtain ⟨o, us, vs, rfl, h, he⟩ := h
    rw [List.append_assoc]
    exact leads_endOperand h he hs

theorem leads_returned (h : Leads (.state (.returned b)) ts) (hs : shift t (.returned b) = .ok s) :
    Leads (.state s) (ts ++ [t]) := by
  cases h with
  | returned hw hss hret =>
    simp only [shift] at hs
    split at hs
    · rename_i ht
      cases hs
      exact (hw.closed (.returningBlockSemicolon hss hret ht)).of_eq (by simp)
    · exact (leads_closeBlock hw (.returningBlock hss hret) hs).of_eq (by simp)

theorem leads_member {c : Chain} {k : ChainContext} (h : Leads (.state (.member c k)) ts)
    (hs : shift t (.member c k) = .ok s) : Leads (.state s) (ts ++ [t]) := by
  obtain ⟨ht, rfl⟩ := Token.expect_eq_ok.mp hs
  cases h with
  | member h hd =>
    cases h with
    | suffix h hc hl =>
      exact (h.suffix (.member hc hd ht) (hl.append hc _)).of_eq (by simp)

theorem leads_firstArgument {k : ChainContext} (h : Leads (.state (.firstArgument e k)) ts)
    (hs : shift t (.firstArgument e k) = .ok s) : Leads (.state s) (ts ++ [t]) := by
  cases h with
  | firstArgument h hl =>
    simp only [shift] at hs
    split at hs
    · rename_i ht
      cases hs
      cases h with
      | suffix h hc hlong =>
        have hc' := Derives.call hc (.noArguments hl ht)
        exact (h.suffix hc' (hlong.append hc _)).of_eq (by simp)
    · exact leads_shiftOperand (h.argument hl .none) hs

theorem leads_afterTarget {xs : List Expr} (h : Leads (.state (.afterTarget xs b)) ts)
    (hs : shift t (.afterTarget xs b) = .ok s) : Leads (.state s) (ts ++ [t]) := by
  simp only [shift] at hs
  split at hs
  · rename_i ht
    cases hs
    exact h.nextTarget ht
  · obtain ⟨ht, rfl⟩ := Token.expectSymbol_eq_ok.mp hs
    exact h.assigned ht .none

theorem leads_firstLocal (h : Leads (.state (.firstLocal b)) ts)
    (hs : shift t (.firstLocal b) = .ok s) : Leads (.state s) (ts ++ [t]) := by
  simp only [shift] at hs
  split at hs
  · rename_i ht
    cases hs
    cases h with
    | firstLocal h hl =>
      have hk : Derives .longest (.functionKeyword true) _ := .localFunction hl ht
      exact (h.functionName hk (Juxtaposition.longest_cons (by simp [hl]))).of_eq (by simp)
  · obtain ⟨ht, rfl⟩ := Token.expect_eq_ok.mp hs
    exact h.afterLocal (.name ht)

theorem leads_nextLocal {ns : List String} (h : Leads (.state (.nextLocal ns b)) ts)
    (hs : shift t (.nextLocal ns b) = .ok s) : Leads (.state s) (ts ++ [t]) := by
  obtain ⟨ht, rfl⟩ := Token.expect_eq_ok.mp hs
  cases h with
  | nextLocal h hc =>
    cases h with
    | afterLocal h hns => exact (h.afterLocal (.names hns hc ht)).of_eq (by simp)

theorem leads_afterLocal {ns : List String} (h : Leads (.state (.afterLocal ns b)) ts)
    (hs : shift t (.afterLocal ns b) = .ok s) : Leads (.state s) (ts ++ [t]) := by
  simp only [shift] at hs
  split at hs
  · rename_i ht
    cases hs
    exact h.nextLocal ht
  · obtain ⟨ht, rfl⟩ := Token.expectSymbol_eq_ok.mp hs
    exact h.localAssigned ht .none

theorem leads_forValue {ns : List String} (h : Leads (.state (.forVariable b)) ts)
    (hns : Derives .longest (.names ns) us) (ht : t.kind = .keyword .in) :
    Leads (.state (.operand (.forValue ns [] b))) (ts ++ us ++ [t]) := by
  cases h with
  | forVariable h hf => exact (h.forValue hf hns ht .none).of_eq (by simp)

theorem leads_afterForVariable {n : String} (h : Leads (.state (.afterForVariable n b)) ts)
    (hs : shift t (.afterForVariable n b) = .ok s) : Leads (.state s) (ts ++ [t]) := by
  cases h with
  | afterForVariable h hn =>
    simp only [shift] at hs
    split at hs
    · rename_i ht
      cases hs
      cases h with
      | forVariable h hf => exact (h.forStart hf hn ht).of_eq (by simp)
    · split at hs
      · rename_i ht
        cases hs
        exact (h.afterForName (.name hn)).nextForName ht
      · obtain ⟨ht, rfl⟩ := Token.expectKeyword_eq_ok.mp hs
        exact leads_forValue h (.name hn) ht

theorem leads_nextForName {ns : List String} (h : Leads (.state (.nextForName ns b)) ts)
    (hs : shift t (.nextForName ns b) = .ok s) : Leads (.state s) (ts ++ [t]) := by
  obtain ⟨ht, rfl⟩ := Token.expect_eq_ok.mp hs
  cases h with
  | nextForName h hc =>
    cases h with
    | afterForName h hns => exact (h.afterForName (.names hns hc ht)).of_eq (by simp)

theorem leads_afterForName {ns : List String} (h : Leads (.state (.afterForName ns b)) ts)
    (hs : shift t (.afterForName ns b) = .ok s) : Leads (.state s) (ts ++ [t]) := by
  simp only [shift] at hs
  split at hs
  · rename_i ht
    cases hs
    exact h.nextForName ht
  · obtain ⟨ht, rfl⟩ := Token.expectKeyword_eq_ok.mp hs
    cases h with
    | afterForName h hns => exact leads_forValue h hns ht

theorem leads_functionMember {isLocal : Bool} {p : String}
    (h : Leads (.state (.functionMember isLocal p b)) ts)
    (hs : shift t (.functionMember isLocal p b) = .ok s) : Leads (.state s) (ts ++ [t]) := by
  obtain ⟨ht, rfl⟩ := Token.expect_eq_ok.mp hs
  cases h with
  | functionMember h hd =>
    cases h with
    | functionPath h hp => exact (h.functionPath (.path hp hd ht)).of_eq (by simp)

theorem leads_functionMethod {isLocal : Bool} {p : String}
    (h : Leads (.state (.functionMethod isLocal p b)) ts)
    (hs : shift t (.functionMethod isLocal p b) = .ok s) : Leads (.state s) (ts ++ [t]) := by
  obtain ⟨ht, rfl⟩ := Token.expect_eq_ok.mp hs
  cases h with
  | functionMethod h hc =>
    cases h with
    | functionPath h hp =>
      cases h with
      | functionName h hk hl =>
        have hsig := Derives.method hk hp hc ht
        exact (h.definition hsig (hk.longest_append id hl _)).of_eq (by simp)

theorem leads_firstParameter {head : FunctionHead} (h : Leads (.state (.firstParameter head)) ts)
    (hs : shift t (.firstParameter head) = .ok s) : Leads (.state s) (ts ++ [t]) := by
  simp only [shift] at hs
  split at hs
  · rename_i ht
    cases hs
    cases h with
    | firstParameter h hl =>
      exact (leads_enter (h.functionBlock (.noParameters hl ht))).of_eq (by simp)
  · obtain ⟨ht, rfl⟩ := Token.expect_eq_ok.mp hs
    exact h.afterParameter (.name ht)

theorem leads_nextParameter {head : FunctionHead} {ps : List String}
    (h : Leads (.state (.nextParameter head ps)) ts)
    (hs : shift t (.nextParameter head ps) = .ok s) : Leads (.state s) (ts ++ [t]) := by
  obtain ⟨ht, rfl⟩ := Token.expect_eq_ok.mp hs
  cases h with
  | nextParameter h hc =>
    cases h with
    | afterParameter h hps => exact (h.afterParameter (.names hps hc ht)).of_eq (by simp)

theorem leads_afterParameter {head : FunctionHead} {ps : List String}
    (h : Leads (.state (.afterParameter head ps)) ts)
    (hs : shift t (.afterParameter head ps) = .ok s) : Leads (.state s) (ts ++ [t]) := by
  simp only [shift] at hs
  split at hs
  · rename_i ht
    cases hs
    exact h.nextParameter ht
  · obtain ⟨ht, rfl⟩ := Token.expectSymbol_eq_ok.mp hs
    cases h with
    | afterParameter h hps =>
      cases h with
      | firstParameter h hl =>
        exact (leads_enter (h.functionBlock (.parameters hl hps ht))).of_eq (by simp)

/-- Reading a token in a settled state. -/
theorem leads_shift (h : s.Settled (some t.kind) ts) (hs : shift t s = .ok s') :
    Leads (.state s') (ts ++ [t]) := by
  cases s with
  | statement k =>
    obtain ⟨o, h, hext⟩ := h
    exact leads_shiftStatement h (by simpa using hext) hs
  | returning k => exact absurd hs Token.unexpected_ne_ok
  | returned k => exact leads_returned h hs
  | closed k =>
    cases h with
    | closed hw hb => exact (leads_closeBlock hw hb hs).of_eq (by simp)
  | operand k => exact leads_shiftOperand h hs
  | operator e k => exact leads_shiftOperator h hs
  | suffix c k => exact leads_shiftSuffix h hs
  | member c k => exact leads_member h hs
  | firstArgument f k => exact leads_firstArgument h hs
  | nextTarget xs k =>
    have hstart : StartsChain (.target xs t.line k) false [t] :=
      ⟨Juxtaposition.longest_closed _, by simp [ChainContext.line?]⟩
    exact leads_startChain (.targetChain h) hstart hs
  | afterTarget xs k => exact leads_afterTarget h hs
  | entry es k => exact leads_shiftEntry h hs
  | entryAssign es key k =>
    obtain ⟨ht, rfl⟩ := Token.expectSymbol_eq_ok.mp hs
    exact h.entryValue ht
  | firstLocal k => exact leads_firstLocal h hs
  | nextLocal ns k => exact leads_nextLocal h hs
  | afterLocal ns k => exact leads_afterLocal h hs
  | forVariable k =>
    obtain ⟨ht, rfl⟩ := Token.expect_eq_ok.mp hs
    exact h.afterForVariable ht
  | afterForVariable n k => exact leads_afterForVariable h hs
  | nextForName ns k => exact leads_nextForName h hs
  | afterForName ns k => exact leads_afterForName h hs
  | functionName isLocal k =>
    obtain ⟨ht, rfl⟩ := Token.expect_eq_ok.mp hs
    exact h.functionPath (.pathName ht)
  | functionPath isLocal p k => exact leads_shiftFunctionPath h hs
  | functionMember isLocal p k => exact leads_functionMember h hs
  | functionMethod isLocal p k => exact leads_functionMethod h hs
  | parameterList head =>
    obtain ⟨ht, rfl⟩ := Token.expectSymbol_eq_ok.mp hs
    exact h.firstParameter ht
  | firstParameter head => exact leads_firstParameter h hs
  | nextParameter head ps => exact leads_nextParameter h hs
  | afterParameter head ps => exact leads_afterParameter h hs

end LuaSyntax
