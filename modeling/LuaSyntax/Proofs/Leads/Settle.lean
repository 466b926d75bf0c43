import LuaSyntax.Proofs.Leads
import LuaSyntax.Proofs.Runs

/-!
Settling keeps what the tokens before a state say about it. A settled state also reflects the next
token: no operator is left that the token does not go on with, and no chain that it makes longer.
-/
namespace LuaSyntax

open ParserState

/-- The tokens lead to the end of a formula, given by its last leaf and the context of the leaf. -/
inductive EndsFormula (o : Bool) : Expr × ExprContext → List Token → Prop
  | intro {k : ExprContext} {ts us : List Token} {f : Formula} :
      k.isOperator = false → Leads (.state (.operand k)) ts → Derives .longest (.formula f o) us →
      EndsFormula o (f.tree.spine k) (ts ++ us)

variable {k : ExprContext} {b : BlockContext} {e : Expr} {f : Formula} {a : Operand} {o : Bool}
  {next : Option TokenKind} {s s' : ParserState} {ts us : List Token}

/-- A block with one more statement. -/
theorem Leads.append {added : List Stmt} {o' : Bool} (h : Leads (.block b o) ts)
    (hs : Derives .longest (.statement added o') us) (hl : Juxtaposition.longest o us) :
    Leads (.block (b.append added) o') (ts ++ us) := by
  cases h with
  | block hw hss =>
    rw [List.append_assoc]
    exact .block hw (.statements hss hs hl)

/-- The operators around an operand come from the formula that it ends. -/
theorem Leads.endsFormula (k : ExprContext) {ts us : List Token} {a : Operand}
    (h : Leads (.state (.operand k)) ts) (ha : Derives .longest (.operand a o) us) :
    EndsFormula o (a.tree.spine k) (ts ++ us) := by
  match k with
  | .unary op k =>
    cases h with
    | unary h ht =>
      rw [List.append_assoc]
      exact Leads.endsFormula k h (.signed ht ha)
  | .binary l op k =>
    cases h with
    | binary hk h hf ht hr =>
      have hend := EndsFormula.intro hk h (.operator hf ht ha)
      rw [Formula.spine_append _ op a (.inr (ExprContext.limit_lt hk op)), hr] at hend
      simpa using hend
  | .parens _ | .subscript _ _ | .argument _ _ _ | .entryKey _ _ | .entryValue _ _ _
  | .whileCond _ | .untilCond _ _ | .ifCond _ _ | .forStart _ _ | .forLimit _ _ _
  | .forStep _ _ _ _ | .forValue _ _ _ | .returned _ _ | .assigned _ _ _ _ _ =>
    exact .intro rfl h (.formula ha)

namespace ParserState

/-- The tokens lead to a state that has settled in view of the next one. Before a binary operator,
the state waits for the operand after it; otherwise a whole expression has been read. -/
def Settled (next : Option TokenKind) : ParserState → List Token → Prop
  | .statement k, ts =>
    ∃ o, Leads (.block k o) ts ∧ (o = true → next.any TokenKind.extendsChain = false)
  | .operator e k, ts =>
    match next.bind BinaryOp.ofToken? with
    | some op => ∀ t : Token, BinaryOp.ofToken? t.kind = some op →
        Leads (.state (.operand (.binary e op k))) (ts ++ [t])
    | none => ∃ o us vs, ts = us ++ vs ∧ Leads (.state (.operand k)) us ∧
        Derives .longest (.expr e o) vs
  | s, ts => Leads (.state s) ts

theorem settled_operator (h : Leads (.state (.operand k)) ts) (he : Derives .longest (.expr e o) us)
    (hnext : next.bind BinaryOp.ofToken? = none) :
    (ParserState.operator e k).Settled next (ts ++ us) := by
  simp only [Settled, hnext]
  exact ⟨o, ts, us, rfl, h, he⟩

theorem settled_push {x : Stmt} {o' : Bool} (h : Leads (.block b o) ts)
    (hx : Derives .longest (.statement [x] o') us) (hl : Juxtaposition.longest o us)
    (hnext : o' = true → next.any TokenKind.extendsChain = false) :
    (ParserState.statement (b.push x)).Settled next (ts ++ us) :=
  ⟨o', h.append hx hl, hnext⟩

theorem settled_assign {isLocal : Bool} {xs es : List Expr} {line : Nat}
    (h : Leads (.state (.operand (.assigned isLocal xs line es b))) ts)
    (he : Derives .longest (.expr e o) us)
    (hnext : o = true → next.any TokenKind.extendsChain = false)
    (hs : assign .equal isLocal xs line (es ++ [e]) b = .ok s) : s.Settled next (ts ++ us) := by
  unfold assign at hs
  split at hs
  · rename_i harity
    cases hs
    have hlen : xs.length = (es ++ [e]).length := by simpa [ArityRule.allows] using harity
    cases h with
    | assigned h ha hes =>
      cases h with
      | afterTarget h hxs hl =>
        have hx := Derives.assignment hxs ha (hes.exprs he) hlen
        simpa using settled_push h hx (hxs.longest_append id hl _) hnext
    | localAssigned h ha hes =>
      cases h with
      | afterLocal h hns =>
        cases h with
        | firstLocal h hl =>
          have hx := Derives.localAssignment hl hns ha (hes.exprs he) (by simpa using hlen)
          simpa using settled_push h hx (Juxtaposition.longest_cons (by simp [hl])) hnext
  · simp at hs

theorem settled_endExpression (h : Leads (.state (.operand k)) ts)
    (he : Derives .longest (.expr e o) us) (hnext : EndsExpr o next)
    (hs : endExpression .equal next e k = .ok s) : s.Settled next (ts ++ us) := by
  unfold endExpression at hs
  split at hs
  · cases hs
    cases h with
    | untilCond h hr hb hu =>
      have hx := Derives.repeat hr hb hu he
      simpa using settled_push h hx (Juxtaposition.longest_cons (by simp [hr])) hnext.2
  · split at hs
    · cases hs
      exact settled_operator h he hnext.1
    · cases hs
      cases h with
      | returnValue h hr hes =>
        cases h with
        | block hw hss =>
          have hret := Leads.returned hw hss (.returnValues hr (hes.exprs he))
          exact hret.of_eq (by simp)
  · split at hs
    · cases hs
      exact settled_operator h he hnext.1
    · exact settled_assign h he hnext.2 hs
  · cases hs
    exact settled_operator h he hnext.1

theorem settled_settleOperator {x : Expr × ExprContext} (h : EndsFormula o x ts)
    (hnext : o = true → next.any TokenKind.extendsChain = false)
    (hs : settleOperator .equal next x.1 x.2 = .ok s) : s.Settled next ts := by
  obtain ⟨hk, h, hf⟩ := h
  unfold settleOperator at hs
  split at hs
  · rename_i op hop
    cases hs
    simp only [Settled, hop]
    intro t ht
    exact (Leads.binary hk h hf ht rfl).of_eq (by simp)
  · rename_i hop
    rw [Formula.tree, OperatorTree.reduce_zero_spine _ hk] at hs
    exact settled_endExpression h (.expr hf) ⟨hop, hnext⟩ hs

theorem settled_addTarget {c : Chain} {xs : List Expr} {line : Nat} (h : Leads (.block b o) ts)
    (hl : Juxtaposition.longest o us)
    (hxs : ∀ x, c.target? = some x → Derives .longest (.targets (xs ++ [x])) us)
    (hs : addTarget c xs line b = .ok s) : s.Settled next (ts ++ us) := by
  unfold addTarget at hs
  split at hs
  · rename_i x hx
    cases hs
    exact Leads.afterTarget h (hxs x hx) hl
  · simp at hs

theorem settled_endChain {c : Chain} {k : ChainContext} (h : Leads (.chain k o) ts)
    (hc : Derives .longest (.chain c) us) (hl : StartsChain k o us)
    (hnext : next.any TokenKind.extendsChain = false) (hs : endChain .equal next c k = .ok s) :
    s.Settled next (ts ++ us) := by
  cases h with
  | operandChain h =>
    have hend := Leads.endsFormula _ h (.unsigned (.chainValue hc))
    exact settled_settleOperator hend (fun _ => hnext) hs
  | statementChain h =>
    have hx : ∀ x, c.target? = some x → Derives .longest (.targets ([] ++ [x])) us :=
      fun x hx => .target hc hx
    cases c with
    | call g es =>
      simp only [endChain] at hs
      split at hs
      · simp at hs
      · cases hs
        exact settled_push h (.callStatement hc) hl.longest fun _ => hnext
    | place x => exact settled_addTarget h hl.longest hx hs
    | parens x => exact settled_addTarget h hl.longest hx hs
  | targetChain h =>
    cases h with
    | nextTarget h hcomma =>
      cases h with
      | afterTarget h hxs hl' =>
        have hset : s.Settled next _ := settled_addTarget h (hxs.longest_append id hl' _)
          (fun x hx => .targets hxs hcomma hc hx) hs
        simpa using hset

theorem settled_declare {ns : List String} (h : Leads (.state (.afterLocal ns b)) ts) :
    (declare ns b).Settled next ts := by
  cases h with
  | afterLocal h hns =>
    cases h with
    | firstLocal h hl =>
      have hx := Derives.declaration hl hns
      rw [declare, List.append_assoc]
      exact settled_push h hx (Juxtaposition.longest_cons (by simp [hl])) (by simp)

theorem settled_returning (h : Leads (.state (.returning b)) ts)
    (hs : settle .equal next (.returning b) = .ok s) : s.Settled next ts := by
  cases h with
  | returning h hr =>
    simp only [settle] at hs
    split at hs
    · cases hs
      cases h with
      | block hw hss =>
        have hret := Leads.returned hw hss (.returnNothing hr)
        exact hret.of_eq (by simp)
    · cases hs
      exact Leads.returnValue h hr .none

/-- Settling reads no token. -/
theorem settled_settle (h : Leads (.state s) ts) (hs : settle .equal next s = .ok s') :
    s'.Settled next ts := by
  unfold settle at hs
  split at hs
  · split at hs
    · cases hs
      exact h
    · rename_i hext
      cases h with
      | suffix h hc hl => exact settled_endChain h hc hl (by simpa using hext) hs
  · cases h with
    | operator h he =>
      have hend := Leads.endsFormula _ h (.unsigned he)
      exact settled_settleOperator hend (by simp) hs
  · exact settled_returning h hs
  · split at hs
    · cases hs
      exact h
    · cases hs
      exact settled_declare h
  · cases hs
    unfold Settled
    split
    · cases h with
      | statement h => exact ⟨false, h, by simp⟩
    · simp_all
    · exact h

end ParserState

end LuaSyntax
