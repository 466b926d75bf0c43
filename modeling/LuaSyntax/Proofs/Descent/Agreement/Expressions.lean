import LuaSyntax.Proofs.Descent.Agreement
import LuaSyntax.Proofs.Runs.Expressions

/-!
The procedures for expressions, chains and tables, one after the other.
-/
namespace LuaSyntax.Descent

open ParserState

variable {x : Parsing Program} {ts us : List Token} {t : Token} {s : ParserState}

/-! ### The parser after an expression -/

theorem settle_operator {k : ExprContext} {next : Option TokenKind} (hk : k.isOperator = false)
    (hnext : NoOperator next) (e : Expr) :
    settle .equal next (.operator e k) = endExpression .equal next e k := by
  change settleOperator .equal next e k = _
  rw [settleOperator, hnext, reduce_of_not_isOperator hk]

/-- A complete expression that does not end its statement. -/
theorem parseFrom_operator {k : ExprContext} {e : Expr} (hnext : NoOperator (nextKind ts))
    (hk : k.isOperator = false)
    (hend : endExpression .equal (nextKind ts) e k = .ok (.operator e k)) :
    parseFrom (.operator e k) ts = parseNext (fun t => endOperand t e k) ts := by
  rw [parseFrom_eq_parseNext ((settle_operator hk hnext e).trans hend) rfl]
  cases ts with
  | nil => rfl
  | cons t us =>
    have hop : BinaryOp.ofToken? t.kind = none := hnext
    change (shiftOperator t e k).bind _ = _
    rw [shiftOperator, hop]
    rfl

/-- Operators that are complete before the next token are complete in view of it. -/
theorem parseFrom_reduce {k k' : ExprContext} {e e' : Expr}
    (hop : ∀ op ∈ (nextKind ts).bind BinaryOp.ofToken?,
      reduce op.leftPriority e k = reduce op.leftPriority e' k')
    (hend : reduce 0 e k = reduce 0 e' k') :
    parseFrom (.operator e k) ts = parseFrom (.operator e' k') ts := by
  refine parseFrom_congr ?_
  rw [settle, settle, settleOperator, settleOperator]
  cases h : (nextKind ts).bind BinaryOp.ofToken? with
  | none => simp only [hend]
  | some op => simp only [hop op h]

theorem parseFrom_binary {op : BinaryOp} {k : ExprContext} {left right : Expr}
    (h : Looser op.rightPriority (nextKind ts)) :
    parseFrom (.operator right (.binary left op k)) ts =
      parseFrom (.operator (.binary left op right) k) ts :=
  parseFrom_reduce (fun op' hop => reduce_binary (h op' hop) _ _ _)
    (reduce_binary (Nat.zero_le _) _ _ _)

theorem parseFrom_unary {op : UnaryOp} {k : ExprContext} {e : Expr}
    (h : Looser UnaryOp.priority (nextKind ts)) :
    parseFrom (.operator e (.unary op k)) ts = parseFrom (.operator (op.apply e) k) ts :=
  parseFrom_reduce (fun op' hop => reduce_unary (h op' hop) _ _ _)
    (reduce_unary (Nat.zero_le _) _ _ _)

/-- An operator that binds tighter than the context allows takes the operand. -/
theorem parseFrom_tighter {op : BinaryOp} {k : ExprContext} {e : Expr}
    (ht : BinaryOp.ofToken? t.kind = some op) (hk : k.limit < op.leftPriority) (us : List Token) :
    parseFrom (.operator e k) (t :: us) = parseFrom (.operand (.binary e op k)) us := by
  have hsettle : settle .equal (some t.kind) (.operator e k) = .ok (.operator e k) := by
    change settleOperator .equal _ e k = _
    rw [settleOperator, Option.bind_some, ht]
    simp only [reduce_of_limit_lt hk]
  refine parseFrom_of_shift hsettle ?_ us
  change shiftOperator t e k = _
  rw [shiftOperator, ht]

theorem settle_suffix {next : Option TokenKind} (h : NoSuffix next) (c : Chain)
    (k : ChainContext) : settle .equal next (.suffix c k) = endChain .equal next c k := by
  rw [settle, h]; rfl

theorem parseFrom_suffix_operand {c : Chain} {k : ExprContext} (h : NoSuffix (nextKind ts)) :
    parseFrom (.suffix c (.operand k)) ts = parseFrom (.operator c.expr k) ts :=
  parseFrom_congr (settle_suffix h c (.operand k))

theorem isComma_eq_false {next : Option TokenKind} (h : Lacks .comma next) :
    isComma next = false := decide_eq_false h

theorem closeTable_eq (es : List Entry) (k : TableContext) :
    closeTable es k = tableState (.table es) k := by
  cases k <;> rfl

theorem noOperator_of_looser {next : Option TokenKind} (h : Looser 0 next) : NoOperator next := by
  refine Option.eq_none_iff_forall_not_mem.mpr fun op hop => ?_
  have hle := h op hop
  have hlt : 0 < op.leftPriority := by cases op <;> decide
  omega

theorem limit_of_not_isOperator {k : ExprContext} (hk : k.isOperator = false) : k.limit = 0 := by
  cases k <;> first | rfl | cases hk

/-! ### Operators -/

section

variable {G : Expr → List Token → Prop}

theorem operatorRound_follows {limit : Nat} {e : Expr}
    (h : (Procedure.loop (.operators limit) e).Enters x ts G) :
    (operatorRound limit e).Follows x (Loop.Goes (.operators limit) x G) ts := by
  obtain ⟨k, hk, hx, hG⟩ := h
  refine follows_peekKind.mpr ?_
  split
  case h_1 hnone => exact hG e ts (fun op hop => by rw [hnone] at hop; cases hop) hx
  case h_2 op hop =>
    split
    case isTrue hle =>
      refine hG e ts (fun op' hop' => ?_) hx
      rw [hop] at hop'
      cases hop'
      exact hle
    case isFalse hlt =>
      cases ts with
      | nil => cases hop
      | cons t us =>
        rw [parseFrom_tighter hop (by omega)] at hx
        refine follows_skip.mpr (follows_call ⟨.binary e op k, rfl, hx, fun right vs hvs hx => ?_⟩)
        exact ⟨k, hk, hx.trans (parseFrom_binary hvs), hG⟩

theorem operand_follows {k : ExprContext} (hx : x = parseFrom (.operand k) ts)
    (hG : ∀ e us, x = parseFrom (.operator e k) us → G e us) : operand.Follows x G ts := by
  refine follows_peekKind.mpr ?_
  split
  case h_1 h =>
    obtain ⟨t, us, rfl, ht⟩ := nextKind_eq_some h
    have hstep : shift t (.operand k) = .ok (.operand (.unary .minus k)) := by
      simp [shift, shiftOperand, ht]
    rw [parseFrom_of_shift rfl hstep] at hx
    exact follows_skip.mpr (follows_call ⟨.unary .minus k, rfl, hx, fun e vs hvs hx =>
      hG _ vs (hx.trans (parseFrom_unary hvs))⟩)
  case h_2 h =>
    obtain ⟨t, us, rfl, ht⟩ := nextKind_eq_some h
    have hstep : shift t (.operand k) = .ok (.operand (.unary .not k)) := by
      simp [shift, shiftOperand, ht]
    rw [parseFrom_of_shift rfl hstep] at hx
    exact follows_skip.mpr (follows_call ⟨.unary .not k, rfl, hx, fun e vs hvs hx =>
      hG _ vs (hx.trans (parseFrom_unary hvs))⟩)
  case h_3 hminus hnot => exact ⟨k, hminus, hnot, hx, hG⟩

theorem subexpr_follows {limit : Nat} (h : (Procedure.subexpr limit).Enters x ts G) :
    (subexpr limit).Follows x G ts := by
  obtain ⟨k, hk, hx, hG⟩ := h
  refine (follows_bind _ ts).mpr (operand_follows hx fun e us hx => ?_)
  exact ⟨k, hk, hx, hG⟩

theorem expr_follows (h : Procedure.expr.Enters x ts G) : (call (.subexpr 0)).Follows x G ts := by
  obtain ⟨k, hk, hx, hG⟩ := h
  exact ⟨k, limit_of_not_isOperator hk, hx, fun e us hus => hG e us (noOperator_of_looser hus)⟩

theorem simpleExpr_follows (h : Procedure.simpleExpr.Enters x ts G) :
    simpleExpr.Follows x G ts := by
  obtain ⟨k, hminus, hnot, hx, hG⟩ := h
  rw [parseFrom_eq_parseNext rfl rfl] at hx
  have hchain (hx : x = parseNext (startChain · (.operand k)) ts) :
      (call .chain >>= fun c => pure c.expr).Follows x G ts :=
    follows_call ⟨.operand k, hx, fun c us hus hx =>
      hG _ us (hx.trans (parseFrom_suffix_operand hus))⟩
  refine follows_peekKind.mpr ?_
  split
  case h_1 h =>
    obtain ⟨t, us, rfl, ht⟩ := nextKind_eq_some h
    exact hchain (by simpa [parseNext, shift, shiftOperand, ht] using hx)
  case h_2 h =>
    obtain ⟨t, us, rfl, ht⟩ := nextKind_eq_some h
    exact hchain (by simpa [parseNext, shift, shiftOperand, ht] using hx)
  case h_3 hname hparen =>
    refine follows_nextToken hx fun t us hts hx => ?_
    subst hts
    change x = (shiftOperand t k).bind (parseFrom · us) at hx
    unfold shiftOperand at hx
    split
    case h_1 ht => exact hG _ us (by rw [hx, ht]; rfl)
    case h_2 ht => exact hG _ us (by rw [hx, ht]; rfl)
    case h_3 ht => exact hG _ us (by rw [hx, ht]; rfl)
    case h_4 n ht => exact hG _ us (by rw [hx, ht]; rfl)
    case h_5 ht => exact hG _ us (by rw [hx, ht]; rfl)
    case h_6 ht => exact follows_call ⟨.anonymous k, by rw [hx, ht]; rfl, fun f vs hx => hG _ vs hx⟩
    case h_7 ht => exact ⟨.operand k, by rw [hx, ht]; rfl, fun e vs hx => hG e vs hx⟩
    case h_8 =>
      change x = .error _
      rw [hx]
      split <;> simp_all [nextKind, startChain, Token.unexpected, Except.bind]

end

/-! ### Chains -/

/-- An expression, and the token that has to come next. -/
theorem follows_exprExpect {α : Type} {G : α → List Token → Prop} {k : ExprContext}
    {kind : TokenKind} {f : Expr → Script α} {g : Expr → ParserState}
    (hx : x = parseFrom (.operand k) ts) (hk : k.isOperator = false)
    (hend : ∀ next e, endExpression .equal next e k = .ok (.operator e k))
    (hclose : ∀ t e, endOperand t e k = t.expect kind (g e))
    (hf : ∀ e us, x = parseFrom (g e) us → (f e).Follows x G us) :
    (call .expr >>= fun e => expect kind >>= fun _ => f e).Follows x G ts := by
  refine follows_call ⟨k, hk, hx, fun e us hus hx => ?_⟩
  rw [parseFrom_operator hus hk (hend _ e)] at hx
  simp only [hclose] at hx
  exact follows_expect (s := fun _ => g e) hx fun _ vs hx => hf e vs hx

section

variable {G : Chain → List Token → Prop}

theorem suffixes_follows {c : Chain} (h : (Procedure.suffixes c).Enters x ts G) :
    (call (.loop .suffixes c)).Follows x G ts := h

theorem chain_follows (h : Procedure.chain.Enters x ts G) : chain.Follows x G ts := by
  obtain ⟨k, hx, hG⟩ := h
  refine follows_nextToken hx fun t us _ hx => ?_
  unfold startChain at hx
  split
  case h_1 ht =>
    rw [ht] at hx
    exact ⟨k, hx, hG⟩
  case h_2 ht =>
    rw [ht] at hx
    refine follows_exprExpect (k := .parens k) hx rfl (fun _ _ => rfl) (fun _ _ => rfl) ?_
    exact fun e vs hx => ⟨k, hx, hG⟩
  case h_3 hname hparen =>
    change x = .error _
    rw [hx]
    split
    case h_1 ht => exact absurd ht hname
    case h_2 ht => exact absurd ht hparen
    case h_3 => rfl

theorem parseFrom_extended {c : Chain} {k : ChainContext} (ht : t.kind.extendsChain = true)
    (hs : shiftSuffix t c k = .ok s) (us : List Token) :
    parseFrom (.suffix c k) (t :: us) = parseFrom s us :=
  parseFrom_of_feed ((feed_suffix ht c k).trans hs) us

theorem suffixRound_follows {c : Chain} (h : (Procedure.loop .suffixes c).Enters x ts G) :
    (suffixRound c).Follows x (Loop.Goes .suffixes x G) ts := by
  obtain ⟨k, hx, hG⟩ := h
  refine follows_peekKind.mpr ?_
  split
  case h_1 h =>
    obtain ⟨t, us, rfl, ht⟩ := nextKind_eq_some h
    rw [parseFrom_extended (s := .member c k) (by rw [ht]; rfl) (by rw [shiftSuffix, ht]),
      parseFrom_eq_parseNext rfl rfl] at hx
    refine follows_skip.mpr ?_
    refine follows_expectName (s := fun n => .suffix (c.member n) k) hx fun n vs hx => ?_
    exact ⟨k, hx, hG⟩
  case h_2 h =>
    obtain ⟨t, us, rfl, ht⟩ := nextKind_eq_some h
    rw [parseFrom_extended (s := .operand (.subscript c.expr k)) (by rw [ht]; rfl)
      (by rw [shiftSuffix, ht])] at hx
    refine follows_skip.mpr ?_
    refine follows_exprExpect hx rfl (fun _ _ => rfl) (fun _ _ => rfl) fun e vs hx => ?_
    exact ⟨k, hx, hG⟩
  case h_3 h =>
    obtain ⟨t, us, rfl, ht⟩ := nextKind_eq_some h
    rw [parseFrom_extended (s := .firstArgument c.expr k) (by rw [ht]; rfl)
      (by rw [shiftSuffix, ht])] at hx
    refine follows_skip.mpr (follows_call ⟨c.expr, k, hx, fun es vs hx => ?_⟩)
    exact ⟨k, hx, hG⟩
  case h_4 h =>
    obtain ⟨t, us, rfl, ht⟩ := nextKind_eq_some h
    rw [parseFrom_extended (s := .entry [] (.argument c.expr k)) (by rw [ht]; rfl)
      (by rw [shiftSuffix, ht])] at hx
    refine follows_skip.mpr (follows_call ⟨.argument c.expr k, hx, fun e vs hx => ?_⟩)
    exact ⟨k, hx, hG⟩
  case h_5 hdot hbracket hparen hbrace =>
    refine hG c ts ?_ hx
    unfold NoSuffix
    cases h : nextKind ts with
    | none => rfl
    | some kind =>
      change kind.extendsChain = false
      unfold TokenKind.extendsChain
      split <;> simp_all

end

/-! ### Lists of values -/

section

variable {G : List Expr → List Token → Prop}

theorem values_follows (h : Procedure.values.Enters x ts G) : values.Follows x G ts := by
  obtain ⟨k, hk, hx, hG⟩ := h
  refine follows_call ⟨k [], hk.notOperator [], hx, fun e us hus hx => ?_⟩
  exact ⟨k, [], e, rfl, hk, hus, hx, hG⟩

theorem valuesRound_follows {es : List Expr} (h : (Procedure.loop .values es).Enters x ts G) :
    (commaRound (call .expr) es).Follows x (Loop.Goes .values x G) ts := by
  obtain ⟨k, front, e, rfl, hk, hop, hx, hG⟩ := h
  refine follows_tryPop (fun t us hts ht => ?_) fun hcomma => hG front e ts hop hcomma hx
  subst hts
  have hfeed : feed .equal (.operator e (k front)) t = .ok (.operand (k (front ++ [e]))) := by
    have hsettle := settle_operator (hk.notOperator front) hop e
    exact (congrArg (Except.bind · (shift t)) hsettle).trans (hk.comma front e t ht)
  rw [parseFrom_of_feed hfeed] at hx
  refine follows_call ⟨k (front ++ [e]), hk.notOperator _, hx, fun e' vs hvs hx => ?_⟩
  exact ⟨k, front ++ [e], e', rfl, hk, hvs, hx, hG⟩

/-- The last value of a list, and what closes the list. -/
theorem parseFrom_lastValue {k : ExprContext} {e : Expr} {kind : TokenKind} {s s' : ParserState}
    (hk : k.isOperator = false)
    (hend : endExpression .equal (nextKind ts) e k = .ok (.operator e k))
    (hnext : ∀ t : Token, endOperand t e k =
      if t.kind = .symbol .comma then .ok s else t.expect kind s')
    (hop : NoOperator (nextKind ts)) (hcomma : Lacks .comma (nextKind ts)) :
    parseFrom (.operator e k) ts = parseNext (fun t => t.expect kind s') ts := by
  rw [parseFrom_operator hop hk hend]
  simp only [hnext]
  exact parseNext_of_ne hcomma

theorem arguments_follows (h : Procedure.arguments.Enters x ts G) : arguments.Follows x G ts := by
  obtain ⟨f, k, hx, hG⟩ := h
  refine follows_tryPop (fun t us hts ht => ?_) fun hleave => ?_
  · subst hts
    have hstep : shift t (.firstArgument f k) = .ok (.suffix (.call f []) k) := if_pos ht
    rw [parseFrom_of_shift rfl hstep] at hx
    exact hG [] us hx
  · have hoperand : parseFrom (.firstArgument f k) ts =
        parseFrom (.operand (.argument f [] k)) ts := by
      rw [parseFrom_eq_parseNext rfl rfl, parseFrom_eq_parseNext rfl rfl]
      exact parseNext_of_ne hleave
    rw [hoperand] at hx
    refine follows_call ⟨fun es => .argument f es k, listsExprs_argument f k, hx, ?_⟩
    intro front e us hop hcomma hx
    rw [parseFrom_lastValue rfl rfl (fun _ => rfl) hop hcomma] at hx
    exact follows_expect (s := fun _ => .suffix (.call f (front ++ [e])) k) hx fun _ vs hx =>
      hG _ vs hx

end

/-! ### Tables -/

theorem table_follows {G : Expr → List Token → Prop} (h : Procedure.table.Enters x ts G) :
    table.Follows x G ts := by
  obtain ⟨k, hx, hG⟩ := h
  refine follows_call ⟨k, hx, fun es us hx => ?_⟩
  refine follows_expect (s := fun _ => closeTable es k) hx fun _ vs hx => hG _ vs ?_
  rw [hx, closeTable_eq]

theorem entryRound_follows {es : List Entry} {G : List Entry → List Token → Prop}
    (h : (Procedure.loop .entries es).Enters x ts G) :
    (entryRound es).Follows x (Loop.Goes .entries x G) ts := by
  obtain ⟨k, hx, hG⟩ := h
  refine follows_peekKind.mpr ?_
  split
  case isTrue h =>
    obtain ⟨t, us, rfl, ht⟩ := nextKind_eq_some h
    refine hG es _ ?_
    rw [hx, parseFrom_eq_parseNext rfl rfl, parseNext, parseNext, shift, shiftEntry, ht,
      expectSymbol_ok ht]
  case isFalse h =>
    refine follows_call ⟨es, k, h, hx, fun key e us hop hx => ?_⟩
    refine follows_tryPop (fun t vs hvs ht => ?_) fun hcomma => ?_
    · subst hvs
      rw [parseFrom_operator hop rfl rfl] at hx
      exact ⟨k, hx.trans (parseNext_of_ok (if_pos ht) vs), hG⟩
    · exact hG _ us (hx.trans (parseFrom_lastValue rfl rfl (fun _ => rfl) hop hcomma))

/-- The key of an entry, in a table that does not end here. -/
theorem entryKey_follows {G : Expr → List Token → Prop} {es : List Entry} {k : TableContext}
    (hts : Lacks .closeBrace (nextKind ts)) (hx : x = parseFrom (.entry es k) ts)
    (hG : ∀ key us, x = parseFrom (.entryAssign es key k) us → G key us) :
    entryKey.Follows x G ts := by
  rw [parseFrom_eq_parseNext rfl rfl] at hx
  refine follows_nextToken hx fun t us hcons hx => ?_
  change x = (shiftEntry t es k).bind _ at hx
  unfold shiftEntry at hx
  split
  case h_1 ht => exact hG _ us (by rw [hx, ht]; rfl)
  case h_2 ht =>
    rw [ht] at hx
    exact follows_exprExpect (k := .entryKey es k) hx rfl (fun _ _ => rfl) (fun _ _ => rfl) hG
  case h_3 =>
    change x = .error _
    rw [hx]
    split <;> simp_all [Lacks, nextKind, Token.unexpected, Except.bind]

theorem entry_follows {G : Entry → List Token → Prop} (h : Procedure.entry.Enters x ts G) :
    entry.Follows x G ts := by
  obtain ⟨es, k, hts, hx, hG⟩ := h
  refine (follows_bind _ ts).mpr (entryKey_follows hts hx fun key us hx => ?_)
  rw [parseFrom_eq_parseNext rfl rfl] at hx
  refine follows_expect (s := fun _ => .operand (.entryValue es key k)) hx fun _ vs hx => ?_
  exact follows_call ⟨.entryValue es key k, rfl, hx, fun e ws hws hx => hG key e ws hws hx⟩

end LuaSyntax.Descent
