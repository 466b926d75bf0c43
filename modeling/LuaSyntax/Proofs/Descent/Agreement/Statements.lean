import LuaSyntax.Proofs.Descent.Agreement.Expressions
import LuaSyntax.Proofs.Runs.Statements

/-!
The procedures for functions, statements and blocks, and with them all procedures: a program that is
read from the top down is the one that the parser finds.
-/
namespace LuaSyntax.Descent

open ParserState

variable {x : Parsing Program} {ts us : List Token} {t : Token} {s s' : ParserState}

/-! ### Names and functions -/

theorem namesRound_follows {G : List String → List Token → Prop} {ns : List String}
    (h : (Procedure.loop .names ns).Enters x ts G) :
    (commaRound expectName ns).Follows x (Loop.Goes .names x G) ts := by
  obtain ⟨after, hafter, hx, hG⟩ := h
  refine follows_tryPop (fun t us hts ht => ?_) fun hcomma => hG ns ts hcomma hx
  subst hts
  rw [hafter ns t us ht] at hx
  refine follows_expectName (s := fun n => after (ns ++ [n])) hx fun n vs hx => ?_
  exact ⟨after, hafter, hx, hG⟩

theorem takesNames_of_feed {after next : List String → ParserState}
    (hcomma : ∀ ns t, t.kind = .symbol .comma → (after ns).feed .equal t = .ok (next ns))
    (hname : ∀ ns ts, parseFrom (next ns) ts =
      parseNext (fun t => t.expect .name (after (ns ++ [t.text]))) ts) : TakesNames after :=
  fun ns t ts ht => (parseFrom_of_feed (hcomma ns t ht) ts).trans (hname ns ts)

theorem takesNames_afterLocal (k : BlockContext) : TakesNames (.afterLocal · k) :=
  takesNames_of_feed (listsNames_locals k).comma fun _ _ => by
    rw [parseFrom_eq_parseNext rfl rfl]; rfl

theorem takesNames_afterParameter (h : FunctionHead) : TakesNames (.afterParameter h) :=
  takesNames_of_feed (listsNames_parameters h).comma fun _ _ => by
    rw [parseFrom_eq_parseNext rfl rfl]; rfl

theorem takesNames_afterForName (k : BlockContext) : TakesNames (.afterForName · k) := by
  have hcomma (ns : List String) (t : Token) (ht : t.kind = .symbol .comma) :
      feed .equal (.afterForName ns k) t = .ok (.nextForName ns k) :=
    feed_eq_ok.mpr ⟨_, rfl, if_pos ht⟩
  exact takesNames_of_feed hcomma fun _ _ => by rw [parseFrom_eq_parseNext rfl rfl]; rfl

theorem parameters_follows {G : List String → List Token → Prop}
    (h : Procedure.parameters.Enters x ts G) : parameters.Follows x G ts := by
  obtain ⟨h, hx, hG⟩ := h
  rw [parseFrom_eq_parseNext rfl rfl] at hx
  refine follows_expect (s := fun _ => .firstParameter h) hx fun _ us hx => ?_
  refine follows_tryPop (fun t vs hus ht => ?_) fun hleave => ?_
  · subst hus
    have hstep : shift t (.firstParameter h) = .ok (enterFunction h []) := if_pos ht
    exact hG [] vs (hx.trans (parseFrom_of_shift rfl hstep vs))
  · rw [parseFrom_eq_parseNext rfl rfl] at hx
    have hname := hx.trans (parseNext_of_ne (g := fun t => t.expect .name _) hleave)
    refine follows_expectName (s := fun n => .afterParameter h [n]) hname fun n vs hx => ?_
    refine follows_call ⟨_, takesNames_afterParameter h, hx, fun ns ws hws hx => ?_⟩
    rw [parseFrom_eq_parseNext rfl rfl] at hx
    have hclose := hx.trans (parseNext_of_ne (g := fun t => t.expectSymbol .closeParen _) hws)
    exact follows_expect (s := fun _ => enterFunction h ns) hclose fun _ zs hx => hG ns zs hx

theorem segmentRound_follows {G : String → List Token → Prop} {path : String}
    (h : (Procedure.loop .segments path).Enters x ts G) :
    (segmentRound path).Follows x (Loop.Goes .segments x G) ts := by
  obtain ⟨isLocal, k, hx, hG⟩ := h
  refine follows_tryPop (fun t us hts ht => ?_) fun hdot => hG path ts hdot hx
  subst hts
  have hstep : shift t (.functionPath isLocal path k) = .ok (.functionMember isLocal path k) := by
    rw [shift, shiftFunctionPath, ht]
  rw [parseFrom_of_shift rfl hstep, parseFrom_eq_parseNext rfl rfl] at hx
  refine follows_expectName (s := fun n => .functionPath isLocal (extendPath path n) k) hx ?_
  exact fun n vs hx => ⟨isLocal, k, hx, hG⟩

/-- A path that neither a dot nor a colon makes longer is followed by the parameters. -/
theorem parseFrom_functionPath {isLocal : Bool} {path : String} {k : BlockContext}
    (hdot : Lacks .dot (nextKind ts)) (hcolon : Lacks .colon (nextKind ts)) :
    parseFrom (.functionPath isLocal path k) ts =
      parseFrom (.parameterList (.definition isLocal path k)) ts := by
  rw [parseFrom_eq_parseNext rfl rfl, parseFrom_eq_parseNext rfl rfl]
  cases ts with
  | nil => rfl
  | cons t us =>
    refine congrArg (Except.bind · (parseFrom · us)) ?_
    change shiftFunctionPath t isLocal path k = _
    unfold shiftFunctionPath
    split
    case h_1 ht => exact absurd (congrArg some ht) hdot
    case h_2 ht => exact absurd (congrArg some ht) hcolon
    case h_3 => rfl

theorem functionPath_follows {G : String → List Token → Prop}
    (h : Procedure.functionPath.Enters x ts G) : functionPath.Follows x G ts := by
  obtain ⟨isLocal, k, hx, hG⟩ := h
  rw [parseFrom_eq_parseNext rfl rfl] at hx
  refine follows_expectName (s := fun n => .functionPath isLocal n k) hx fun first us hx => ?_
  refine follows_call ⟨isLocal, k, hx, fun path vs hdot hx => ?_⟩
  refine follows_tryPop (fun t ws hvs ht => ?_) fun hcolon => ?_
  · subst hvs
    have hstep : shift t (.functionPath isLocal path k) = .ok (.functionMethod isLocal path k) := by
      rw [shift, shiftFunctionPath, ht]
    rw [parseFrom_of_shift rfl hstep, parseFrom_eq_parseNext rfl rfl] at hx
    refine follows_expectName
      (s := fun n => .parameterList (.definition isLocal (extendPath path n) k)) hx ?_
    exact fun n zs hx => hG _ zs hx
  · exact hG path vs (hx.trans (parseFrom_functionPath hdot hcolon))

/-- What ends a block that is part of something. -/
theorem parseFrom_closed {ss : List Stmt} {w : Owner}
    (hw : program? (.block ss w) = .error .unexpectedEnd) :
    parseFrom (.closed (.block ss w)) ts =
      parseNext (fun t => closeBlock t (.block ss w)) ts := by
  have hwait : result (.closed (.block ss w)) = .error .unexpectedEnd := hw
  rw [parseFrom_eq_parseNext rfl hwait]
  rfl

/-- Statements, and the keyword that ends them. -/
theorem follows_block {α : Type} {G : α → List Token → Prop} {w : Owner} {kw : Keyword}
    {f : List Stmt → Script α} {g : List Stmt → ParserState} (hx : x = parseFrom (.enter w) ts)
    (hw : ∀ ss, program? (.block ss w) = .error .unexpectedEnd)
    (hclose : ∀ (t : Token) ss, closeBlock t (.block ss w) = t.expectKeyword kw (g ss))
    (hf : ∀ ss us, x = parseFrom (g ss) us → (f ss).Follows x G us) :
    (call .statements >>= fun ss => expect (.keyword kw) >>= fun _ => f ss).Follows x G ts := by
  refine follows_call ⟨w, hx, fun ss us hx => ?_⟩
  rw [parseFrom_closed (hw ss)] at hx
  simp only [hclose] at hx
  exact follows_expect (s := fun _ => g ss) hx fun _ vs hx => hf ss vs hx

theorem functionBody_follows {G : FunctionBody → List Token → Prop}
    (h : Procedure.functionBody.Enters x ts G) : functionBody.Follows x G ts := by
  obtain ⟨h, hx, hG⟩ := h
  refine follows_call ⟨h, hx, fun ps us hx => ?_⟩
  refine follows_block (g := fun ss => headState ⟨ps, ss⟩ h) hx (fun _ => rfl) (fun t ss => ?_)
    fun ss vs hx => hG ⟨ps, ss⟩ vs hx
  cases h <;> rfl

theorem function_follows {G : NamedFunction → List Token → Prop}
    (h : Procedure.function.Enters x ts G) : function.Follows x G ts := by
  obtain ⟨isLocal, k, hx, hG⟩ := h
  refine follows_call ⟨isLocal, k, hx, fun path us hx => ?_⟩
  exact follows_call ⟨.definition isLocal path k, hx, fun f vs hx => hG ⟨path, f⟩ vs hx⟩

/-! ### Statements -/

section

variable {G : Stmt → List Token → Prop}

theorem functionStatement_follows (h : Procedure.functionStatement.Enters x ts G) :
    functionStatement.Follows x G ts := by
  obtain ⟨k, -, hx, hG⟩ := h
  exact follows_skip.mpr (follows_call ⟨false, k, hx, fun f us hx => hG _ us hx⟩)

theorem doStatement_follows (h : Procedure.doStatement.Enters x ts G) :
    doStatement.Follows x G ts := by
  obtain ⟨k, -, hx, hG⟩ := h
  refine follows_skip.mpr (follows_block hx (fun _ => rfl) (fun _ _ => rfl) fun ss us hx => ?_)
  exact hG _ us hx

theorem whileStatement_follows (h : Procedure.whileStatement.Enters x ts G) :
    whileStatement.Follows x G ts := by
  obtain ⟨k, -, hx, hG⟩ := h
  refine follows_skip.mpr ?_
  refine follows_exprExpect hx rfl (fun _ _ => rfl) (fun _ _ => rfl) fun cond us hx => ?_
  exact follows_block hx (fun _ => rfl) (fun _ _ => rfl) fun ss vs hx => hG _ vs hx

theorem repeatStatement_follows (h : Procedure.repeatStatement.Enters x ts G) :
    repeatStatement.Follows x G ts := by
  obtain ⟨k, -, hx, hG⟩ := h
  refine follows_skip.mpr (follows_block hx (fun _ => rfl) (fun _ _ => rfl) fun ss us hx => ?_)
  refine follows_call ⟨.untilCond ss k, rfl, hx, fun cond vs hvs hx => hG _ vs ?_⟩
  rw [hx]
  exact parseFrom_of_settle (settle_operator rfl hvs cond) rfl

/-- The last arm of a conditional that has no alternative. -/
theorem closeBlock_lastArm {arms : List Arm} {cond : Expr} {body : List Stmt} {k : BlockContext}
    (helseif : t.kind ≠ .keyword .elseif) (helse : t.kind ≠ .keyword .else) :
    closeBlock t (.block body (.thenPart arms cond k)) = t.expectKeyword .end
      (.statement (k.append (conditional (arms ++ [⟨cond, body⟩]) []))) := by
  rw [closeBlock]
  split
  case h_1 ht => exact absurd ht helseif
  case h_2 ht => exact absurd ht helse
  case h_3 => rfl

theorem ifArm_follows (h : Procedure.ifArm.Enters x ts G) : ifArm.Follows x G ts := by
  obtain ⟨arms, k, hx, hG⟩ := h
  refine follows_exprExpect hx rfl (fun _ _ => rfl) (fun _ _ => rfl) fun cond us hx => ?_
  refine follows_call ⟨.thenPart arms cond k, hx, fun body vs hx => ?_⟩
  -- The parser nests the arms when the last one ends; here each arm holds what follows it.
  have happend (later : List Stmt) : conditional (arms ++ [⟨cond, body⟩]) later =
      conditional arms [.if cond body later] := List.foldr_append
  rw [parseFrom_closed (w := .thenPart arms cond k) rfl] at hx
  refine follows_peekKind.mpr ?_
  split
  case h_1 h =>
    obtain ⟨t, ws, rfl, ht⟩ := nextKind_eq_some h
    rw [parseNext_of_ok (s := .operand (.ifCond (arms ++ [⟨cond, body⟩]) k))
      (by rw [closeBlock, ht])] at hx
    refine follows_skip.mpr (follows_call ⟨_, k, hx, fun s zs hx => hG _ zs ?_⟩)
    rw [hx, happend]
  case h_2 h =>
    obtain ⟨t, ws, rfl, ht⟩ := nextKind_eq_some h
    rw [parseNext_of_ok (s := .enter (.elsePart (arms ++ [⟨cond, body⟩]) k))
      (by rw [closeBlock, ht])] at hx
    refine follows_skip.mpr (follows_block hx (fun _ => rfl) (fun _ _ => rfl) fun ss zs hx => ?_)
    exact hG _ zs (by rw [hx, happend])
  case h_3 helseif helse =>
    have hend : x = parseNext (fun t => t.expectKeyword .end
        (.statement (k.append (conditional (arms ++ [⟨cond, body⟩]) [])))) vs := by
      rw [hx]
      cases vs with
      | nil => rfl
      | cons t ws =>
        rw [parseNext, parseNext, closeBlock_lastArm (fun ht => helseif (congrArg some ht))
          fun ht => helse (congrArg some ht)]
    refine follows_expect (s := fun _ => _) hend fun _ zs hx => hG _ zs ?_
    rw [hx, happend]

theorem ifStatement_follows (h : Procedure.ifStatement.Enters x ts G) :
    ifStatement.Follows x G ts := by
  obtain ⟨k, -, hx, hG⟩ := h
  exact follows_skip.mpr ⟨[], k, hx, hG⟩

/-! Loops over numbers and over values. -/

/-- The step of a numeric loop, and the keyword after it. -/
theorem forStep_follows {G : Expr → List Token → Prop} {name : String} {start limit : Expr}
    {k : BlockContext} (hop : NoOperator (nextKind ts))
    (hx : x = parseFrom (.operator limit (.forLimit name start k)) ts)
    (hG : ∀ step us, x = parseNext (fun t => t.expectKeyword .do
      (.enter (.numericFor name start limit step k))) us → G step us) :
    forStep.Follows x G ts := by
  rw [parseFrom_operator hop rfl rfl] at hx
  refine follows_tryPop (fun t us hts ht => ?_) fun hcomma => ?_
  · subst hts
    rw [parseNext_of_ok (s := .operand (.forStep name start limit k)) (if_pos ht)] at hx
    refine ⟨.forStep name start limit k, rfl, hx, fun step vs hvs hx => hG step vs ?_⟩
    rw [hx, parseFrom_operator hvs rfl rfl]
    rfl
  · exact hG _ ts (hx.trans (parseNext_of_ne hcomma))

theorem numericFor_follows {name : String} (h : (Procedure.numericFor name).Enters x ts G) :
    (numericFor name).Follows x G ts := by
  obtain ⟨k, hx, hG⟩ := h
  refine follows_exprExpect hx rfl (fun _ _ => rfl) (fun _ _ => rfl) fun start us hx => ?_
  refine follows_call ⟨.forLimit name start k, rfl, hx, fun limit vs hvs hx => ?_⟩
  refine (follows_bind _ vs).mpr (forStep_follows hvs hx fun step ws hx => ?_)
  refine follows_expect (s := fun _ => .enter (.numericFor name start limit step k)) hx ?_
  intro _ zs hx
  exact follows_block hx (fun _ => rfl) (fun _ _ => rfl) fun body as hx => hG _ as hx

theorem genericFor_follows {name : String} (h : (Procedure.genericFor name).Enters x ts G) :
    (genericFor name).Follows x G ts := by
  obtain ⟨k, hx, hG⟩ := h
  refine follows_call ⟨_, takesNames_afterForName k, hx, fun ns us hcomma hx => ?_⟩
  rw [parseFrom_eq_parseNext rfl rfl] at hx
  have hin := hx.trans (parseNext_of_ne (g := fun t => t.expectKeyword .in _) hcomma)
  refine follows_expect (s := fun _ => .operand (.forValue ns [] k)) hin fun _ vs hx => ?_
  refine follows_call ⟨_, listsExprs_forValue ns k, hx, fun front e ws hop hcomma hx => ?_⟩
  rw [parseFrom_lastValue rfl rfl (fun _ => rfl) hop hcomma] at hx
  refine follows_expect (s := fun _ => .enter (.genericFor ns (front ++ [e]) k)) hx ?_
  intro _ zs hx
  exact follows_block hx (fun _ => rfl) (fun _ _ => rfl) fun body as hx => hG _ as hx

theorem forStatement_follows (h : Procedure.forStatement.Enters x ts G) :
    forStatement.Follows x G ts := by
  obtain ⟨k, -, hx, hG⟩ := h
  rw [parseFrom_eq_parseNext rfl rfl] at hx
  refine follows_skip.mpr ?_
  refine follows_expectName (s := fun n => .afterForVariable n k) hx fun name us hx => ?_
  refine follows_tryPop (fun t vs hus ht => ?_) fun hassign => ?_
  · subst hus
    have hstep : shift t (.afterForVariable name k) = .ok (.operand (.forStart name k)) := if_pos ht
    rw [parseFrom_of_shift rfl hstep] at hx
    exact ⟨k, hx, hG⟩
  · refine ⟨k, hx.trans ?_, hG⟩
    rw [parseFrom_eq_parseNext rfl rfl, parseFrom_eq_parseNext rfl rfl]
    exact parseNext_of_ne hassign

/-! Assignments. -/

/-- A chain that is no target ends an assignment; any other one is the next target. -/
theorem targetOf_follows {G : Expr → List Token → Prop} {c : Chain} {xs : List Expr} {line : Nat}
    {k : BlockContext} (hx : x = (addTarget c xs line k).bind (parseFrom · ts))
    (hG : ∀ e, x = parseFrom (.afterTarget (xs ++ [e]) k) ts → G e ts) :
    (targetOf c line).Follows x G ts := by
  unfold addTarget at hx
  unfold targetOf
  cases h : c.target? with
  | none => rw [h] at hx; exact hx
  | some e => rw [h] at hx; exact hG e hx

theorem parseFrom_of_settle_addTarget {c : Chain} {xs : List Expr} {line : Nat} {k : BlockContext}
    (h : settle .equal (nextKind ts) s = addTarget c xs line k) :
    parseFrom s ts = (addTarget c xs line k).bind (parseFrom · ts) := by
  unfold addTarget at h ⊢
  cases hc : c.target? with
  | none => rw [hc] at h; exact parseFrom_of_settle_error h
  | some e => rw [hc] at h; exact parseFrom_of_settle h rfl

theorem targetsRound_follows {G : List Expr → List Token → Prop} {xs : List Expr}
    (h : (Procedure.loop .targets xs).Enters x ts G) :
    (commaRound target xs).Follows x (Loop.Goes .targets x G) ts := by
  obtain ⟨k, hx, hG⟩ := h
  refine follows_tryPop (fun t us hts ht => ?_) fun hcomma => hG xs ts hcomma hx
  subst hts
  have hstep : shift t (.afterTarget xs k) = .ok (.nextTarget xs k) := if_pos ht
  rw [parseFrom_of_shift rfl hstep, parseFrom_eq_parseNext rfl rfl] at hx
  refine (follows_bind _ us).mpr ?_
  cases us with
  | nil => exact hx
  | cons t vs =>
    refine follows_call ⟨.target xs t.line k, hx, fun c ws hws hx => ?_⟩
    have hsettle := settle_suffix hws c (.target xs t.line k)
    refine targetOf_follows (hx.trans (parseFrom_of_settle_addTarget hsettle)) fun e hx => ?_
    exact ⟨k, hx, hG⟩

/-- The last value of an assignment is there, and the values are counted. -/
theorem checkArity_follows {α : Type} {G : α → List Token → Prop} {a : α} {isLocal : Bool}
    {xs front : List Expr} {e : Expr} {line : Nat} {k : BlockContext}
    (hop : NoOperator (nextKind ts)) (hcomma : Lacks .comma (nextKind ts))
    (hx : x = parseFrom (.operator e (.assigned isLocal xs line front k)) ts)
    (hG : x = parseFrom (.statement (k.push (.assign (.assignment isLocal xs (front ++ [e]))))) ts →
      G a ts) :
    (checkArity line xs (front ++ [e]) >>= fun _ => pure a).Follows x G ts := by
  have hsettle : settle .equal (nextKind ts) (.operator e (.assigned isLocal xs line front k)) =
      assign .equal isLocal xs line (front ++ [e]) k := by
    rw [settle_operator rfl hop, endExpression, isComma_eq_false hcomma]
    rfl
  refine (follows_bind _ ts).mpr ?_
  unfold assign ArityRule.allows at hsettle
  unfold checkArity
  split
  case isTrue h =>
    rw [if_pos (by simpa using h)] at hsettle
    exact hG (hx.trans (parseFrom_of_settle hsettle rfl))
  case isFalse h =>
    rw [if_neg (by simpa using h)] at hsettle
    exact hx.trans (parseFrom_of_settle_error hsettle)

theorem assignment_follows {first : Chain} {line : Nat}
    (h : (Procedure.assignment first line).Enters x ts G) :
    (assignment first line).Follows x G ts := by
  obtain ⟨k, hx, hG⟩ := h
  refine (follows_bind _ ts).mpr (targetOf_follows hx fun e hx => ?_)
  refine follows_call ⟨k, hx, fun xs us hcomma hx => ?_⟩
  rw [parseFrom_eq_parseNext rfl rfl] at hx
  have hassign := hx.trans (parseNext_of_ne (g := fun t => t.expectSymbol .assign _) hcomma)
  refine follows_expect (s := fun t => .operand (.assigned false xs t.line [] k)) hassign ?_
  intro t vs hx
  refine follows_call ⟨_, listsExprs_assigned false xs t.line k, hx, ?_⟩
  intro front e ws hop hws hx
  exact checkArity_follows hop hws hx fun hx => hG _ ws hx

theorem assignOrCall_follows (h : Procedure.assignOrCall.Enters x ts G) :
    assignOrCall.Follows x G ts := by
  obtain ⟨k, hx, hG⟩ := h
  cases ts with
  | nil => exact hx
  | cons t us =>
    refine follows_call (p := .chain) ⟨.statement t.line k, hx, fun c vs hvs hx => ?_⟩
    have hsuffix := settle_suffix hvs c (.statement t.line k)
    cases c with
    | call f args =>
      refine follows_peekKind.mpr ?_
      split
      -- A call that is followed as a target would be is read as one, and fails as one.
      case isTrue hnext =>
        have herror := hsuffix.trans (if_pos hnext)
        exact ⟨k, hx.trans (parseFrom_of_settle_error herror), hG⟩
      case isFalse hnext =>
        have hcall := hsuffix.trans (if_neg hnext)
        exact hG _ vs (hx.trans (parseFrom_of_settle hcall rfl))
    | place e => exact ⟨k, hx.trans (parseFrom_of_settle_addTarget hsuffix), hG⟩
    | parens e => exact ⟨k, hx.trans (parseFrom_of_settle_addTarget hsuffix), hG⟩

theorem localStatement_follows (h : Procedure.localStatement.Enters x ts G) :
    localStatement.Follows x G ts := by
  obtain ⟨k, -, hx, hG⟩ := h
  refine follows_skip.mpr (follows_tryPop (fun t us hts ht => ?_) fun hfunction => ?_)
  · have hstep : shift t (.firstLocal k) = .ok (.functionName true k) := if_pos ht
    rw [hts, parseFrom_of_shift rfl hstep] at hx
    exact follows_call ⟨true, k, hx, fun f vs hx => hG _ vs hx⟩
  · rw [parseFrom_eq_parseNext rfl rfl] at hx
    have hname := hx.trans (parseNext_of_ne (g := fun t => t.expect .name _) hfunction)
    refine follows_expectName (s := fun n => .afterLocal [n] k) hname fun first us hx => ?_
    refine follows_call ⟨_, takesNames_afterLocal k, hx, fun ns vs hcomma hx => ?_⟩
    refine follows_tryPop (fun t ws hvs ht => ?_) fun hassign => ?_
    · have hsettle : settle .equal (some t.kind) (.afterLocal ns k) = .ok (.afterLocal ns k) := by
        rw [settle, ht]; rfl
      have hstep : shift t (.afterLocal ns k) =
          .ok (.operand (.assigned true (ns.map .var) t.line [] k)) := by
        simp [shift, ht, expectSymbol_ok]
      rw [hvs, parseFrom_of_shift hsettle hstep] at hx
      refine follows_call ⟨_, listsExprs_assigned true (ns.map .var) t.line k, hx, ?_⟩
      intro front e zs hop hzs hx
      exact checkArity_follows hop hzs hx fun hx => hG _ zs hx
    · have hsettle : settle .equal (nextKind vs) (.afterLocal ns k) = .ok (declare ns k) := by
        rw [settle, isComma_eq_false hcomma, isAssign, decide_eq_false hassign]
        rfl
      exact hG _ vs (hx.trans (parseFrom_of_settle hsettle rfl))

/-- Only a semicolon tells a `return` that has its values from one that is over. -/
theorem parseFrom_returned {k : BlockContext} (h : Lacks .semicolon (nextKind ts)) :
    parseFrom (.returned k) ts = parseFrom (.closed k) ts := by
  cases ts with
  | nil => rfl
  | cons t us =>
    have hne : t.kind ≠ .symbol .semicolon := fun ht => h (congrArg some ht)
    have hfeed : feed .equal (.returned k) t = feed .equal (.closed k) t := if_neg hne
    rw [parseFrom_cons, parseFrom_cons, hfeed]

theorem returnStatement_follows (h : Procedure.returnStatement.Enters x ts G) :
    returnStatement.Follows x G ts := by
  obtain ⟨k, -, hx, hG⟩ := h
  have hsemicolon {es : List Expr} {us : List Token}
      (hx : x = parseFrom (.returned (k.push (.return es))) us) :
      (tryPop (.symbol .semicolon) >>= fun _ => pure (.return es)).Follows x G us := by
    refine follows_tryPop (fun t vs hus ht => ?_) fun hleave => ?_
    · have hstep : shift t (.returned (k.push (.return es))) =
          .ok (.closed (k.push (.return es))) := if_pos ht
      rw [hus, parseFrom_of_shift rfl hstep] at hx
      exact hG _ vs hx
    · exact hG _ us (hx.trans (parseFrom_returned hleave))
  refine follows_skip.mpr (follows_peekKind.mpr ?_)
  split
  case isTrue hend =>
    have hsettle : settle .equal (nextKind ts.tail) (.returning k) =
        .ok (.returned (k.push (.return []))) := if_pos hend
    exact hsemicolon (hx.trans (parseFrom_of_settle hsettle rfl))
  case isFalse hend =>
    have hsettle : settle .equal (nextKind ts.tail) (.returning k) =
        .ok (.operand (.returned [] k)) := if_neg hend
    rw [parseFrom_of_settle hsettle rfl] at hx
    refine follows_call ⟨_, listsExprs_returned k, hx, fun front e us hop hcomma hx => ?_⟩
    have hvalues : settle .equal (nextKind us) (.operator e (.returned front k)) =
        .ok (.returned (k.push (.return (front ++ [e])))) := by
      rw [settle_operator rfl hop, endExpression, isComma_eq_false hcomma]
      rfl
    exact hsemicolon (hx.trans (parseFrom_of_settle hvalues rfl))

end

/-! ### Blocks -/

theorem statementProcedure_enters {G : Stmt → List Token → Prop} {k : BlockContext}
    (hx : x = parseFrom (.statement k) (t :: us))
    (hsemicolon : t.kind ≠ .symbol .semicolon) (hreturn : t.kind ≠ .keyword .return)
    (hbreak : t.kind ≠ .keyword .break) (hclose : t.kind.closesBlock = false)
    (hG : ∀ s vs, x = parseFrom (.statement (k.push s)) vs → G s vs) :
    (statementProcedure t.kind).Enters x (t :: us) G := by
  have hnext : x = (shiftStatement t k).bind (parseFrom · us) := hx.trans (parseFrom_cons _ t us)
  unfold shiftStatement at hnext
  unfold statementProcedure
  split
  case h_1 ht => exact ⟨k, congrArg some ht, by rw [hnext, ht]; rfl, hG⟩
  case h_2 ht => exact ⟨k, congrArg some ht, by rw [hnext, ht]; rfl, hG⟩
  case h_3 ht => exact ⟨k, congrArg some ht, by rw [hnext, ht]; rfl, hG⟩
  case h_4 ht => exact ⟨k, congrArg some ht, by rw [hnext, ht]; rfl, hG⟩
  case h_5 ht => exact ⟨k, congrArg some ht, by rw [hnext, ht]; rfl, hG⟩
  case h_6 ht => exact ⟨k, congrArg some ht, by rw [hnext, ht]; rfl, hG⟩
  case h_7 ht => exact ⟨k, congrArg some ht, by rw [hnext, ht]; rfl, hG⟩
  case h_8 =>
    refine ⟨k, ?_, hG⟩
    rw [hnext]
    split <;> simp_all [parseNext]

theorem statementRound_follows {G : List Stmt → List Token → Prop} {ss : List Stmt}
    (h : (Procedure.loop .statements ss).Enters x ts G) :
    (statementRound ss).Follows x (Loop.Goes .statements x G) ts := by
  obtain ⟨w, hx, hG⟩ := h
  refine follows_peekKind.mpr ?_
  split
  case h_1 h =>
    cases ts with
    | nil => exact hG ss [] hx
    | cons t us => cases h
  case h_2 h =>
    obtain ⟨t, us, rfl, ht⟩ := nextKind_eq_some h
    have hstep : shift t (.statement (.block ss w)) = .ok (.statement (.block ss w)) := by
      simp [shift, shiftStatement, ht]
    exact ⟨w, hx.trans (parseFrom_of_shift rfl hstep us), hG⟩
  case h_3 h =>
    obtain ⟨t, us, rfl, ht⟩ := nextKind_eq_some h
    have hstep : shift t (.statement (.block ss w)) = .ok (.returning (.block ss w)) := by
      simp [shift, shiftStatement, ht]
    refine follows_call ⟨.block ss w, h, hx.trans (parseFrom_of_shift rfl hstep us), ?_⟩
    exact fun s vs hx => hG (ss ++ [s]) vs hx
  case h_4 h =>
    obtain ⟨t, us, rfl, ht⟩ := nextKind_eq_some h
    have hstep : shift t (.statement (.block ss w)) =
        .ok (.statement (.block (ss ++ [.break]) w)) := by
      simp [shift, shiftStatement, ht, BlockContext.push, BlockContext.append]
    exact ⟨w, hx.trans (parseFrom_of_shift rfl hstep us), hG⟩
  case h_5 kind hsemicolon hreturn hbreak h =>
    obtain ⟨t, us, rfl, rfl⟩ := nextKind_eq_some h
    split
    case isTrue hclose =>
      have hfeed : feed .equal (.statement (.block ss w)) t =
          feed .equal (.closed (.block ss w)) t := shiftStatement_of_closesBlock hclose _
      refine hG ss _ (hx.trans ?_)
      rw [parseFrom_cons, parseFrom_cons, hfeed]
    case isFalse hclose =>
      refine follows_call (statementProcedure_enters hx hsemicolon hreturn hbreak
        (Bool.not_eq_true _ ▸ hclose) fun s vs hx => ?_)
      exact ⟨w, hx, hG⟩

theorem program_follows {G : Program → List Token → Prop} (h : Procedure.program.Enters x ts G) :
    program.Follows x G ts := by
  obtain ⟨hx, hG⟩ := h
  refine follows_call ⟨.program, hx, fun ss us hx => ?_⟩
  cases us with
  | nil => exact hG ss [] hx
  | cons t us => exact hx

/-- What a procedure does is followed wherever its phrase may start. -/
theorem Procedure.body_follows {α : Type} {G : α → List Token → Prop} (p : Procedure α)
    (h : p.Enters x ts G) : p.body.Follows x G ts := by
  cases p with
  | program => exact program_follows h
  | statements => exact h
  | returnStatement => exact returnStatement_follows h
  | ifStatement => exact ifStatement_follows h
  | ifArm => exact ifArm_follows h
  | whileStatement => exact whileStatement_follows h
  | repeatStatement => exact repeatStatement_follows h
  | doStatement => exact doStatement_follows h
  | localStatement => exact localStatement_follows h
  | forStatement => exact forStatement_follows h
  | numericFor name => exact numericFor_follows h
  | genericFor name => exact genericFor_follows h
  | functionStatement => exact functionStatement_follows h
  | function => exact function_follows h
  | functionPath => exact functionPath_follows h
  | functionBody => exact functionBody_follows h
  | parameters => exact parameters_follows h
  | assignOrCall => exact assignOrCall_follows h
  | assignment first line => exact assignment_follows h
  | values => exact values_follows h
  | expr => exact expr_follows h
  | subexpr limit => exact subexpr_follows h
  | simpleExpr => exact simpleExpr_follows h
  | chain => exact chain_follows h
  | suffixes c => exact suffixes_follows h
  | table => exact table_follows h
  | entry => exact entry_follows h
  | arguments => exact arguments_follows h
  | loop l s =>
    refine follows_loop ?_
    cases l with
    | statements => exact statementRound_follows h
    | operators limit => exact operatorRound_follows h
    | suffixes => exact suffixRound_follows h
    | entries => exact entryRound_follows h
    | values => exact valuesRound_follows h
    | targets => exact targetsRound_follows h
    | names => exact namesRound_follows h
    | segments => exact segmentRound_follows h

theorem agrees_within (n : Nat) : Callee.Agrees (within n) := by
  induction n with
  | zero => exact fun _ p ts o x G ho => nomatch ho
  | succ n ih => exact fun _ p ts o x G ho h => (p.body_follows h).run ih ho

theorem agrees_answered : Callee.Agrees answered := fun _ p ts o x G ho h =>
  agrees_within _ p ts o x G ((within_of_weight_lt (Nat.lt_succ_self _)).trans ho) h

/-- Read from the top down, the tokens give the program that the parser gives, or the same error. -/
theorem read_program (ts : List Token) : (Procedure.program.read ts).1 = parse ts := by
  have h : (Procedure.program.read ts).Leads (parse ts) fun ss _ => parse ts = .ok ss :=
    agrees_answered .program ts _ _ _ rfl ⟨rfl, fun _ _ h => h⟩
  revert h
  obtain ⟨r, us⟩ := Procedure.program.read ts
  cases r with
  | ok ss => exact Eq.symm
  | error e => exact Eq.symm

end LuaSyntax.Descent
