import LuaSyntax.Proofs.Completion

/-!
Where a syntax error is. A token that does not fit is the first one that no program has in its
place: up to it the input can still go on to a program, and nothing after it is looked at.
-/
namespace LuaSyntax

/-- The line and the text of the token that does not fit. -/
def SyntaxError.offender? : SyntaxError → Option (Nat × String)
  | unexpected line text | expected line text _ => some (line, text)
  | _ => none

/-- The error is about an assignment and not about its last token. -/
def SyntaxError.inAssignment : SyntaxError → Bool
  | invalidTarget _ | arity _ _ _ => true
  | _ => false

theorem SyntaxError.offender_of_inAssignment {e : SyntaxError} (h : e.inAssignment = true) :
    e.offender? = none := by
  cases e <;> first | rfl | cases h

/-- An error is one about this token. -/
def Token.Blamed (t : Token) (r : Parsing ParserState) : Prop :=
  ∀ e, r = .error e → e.offender? = some (t.line, t.text)

namespace Token

variable {t : Token} {s : ParserState}

@[simp] theorem blamed_ok : t.Blamed (.ok s) := fun _ h => nomatch h

@[simp] theorem blamed_unexpected : t.Blamed t.unexpected := by
  intro e h
  obtain rfl : SyntaxError.unexpected _ _ = e := by simpa [unexpected] using h
  rfl

@[simp] theorem blamed_expect {kind : TokenKind} : t.Blamed (t.expect kind s) := by
  intro e h
  unfold expect at h
  split at h
  · cases h
  · cases h
    rfl

@[simp] theorem blamed_expectKeyword {w : Keyword} : t.Blamed (t.expectKeyword w s) := blamed_expect

@[simp] theorem blamed_expectSymbol {y : Symbol} : t.Blamed (t.expectSymbol y s) := blamed_expect

theorem blamed_ite {c : Prop} [Decidable c] {q r : Parsing ParserState} (hq : t.Blamed q)
    (hr : t.Blamed r) : t.Blamed (if c then q else r) := by
  split
  · exact hq
  · exact hr

end Token

namespace ParserState

variable {t : Token} {next : Option TokenKind} {rule : ArityRule} {e : SyntaxError}
  {s s' : ParserState} {ts us : List Token}

theorem blamed_closeBlock (k : BlockContext) : t.Blamed (closeBlock t k) := by
  obtain ⟨ss, w⟩ := k
  cases w with
  | thenPart arms c k =>
    unfold closeBlock
    dsimp only
    split <;> simp
  | function h ps => cases h <;> simp [closeBlock]
  | _ => simp [closeBlock]

theorem blamed_startChain (k : ChainContext) : t.Blamed (startChain t k) := by
  unfold startChain
  split <;> simp

theorem blamed_shiftStatement (k : BlockContext) : t.Blamed (shiftStatement t k) := by
  unfold shiftStatement
  split
  case h_11 => exact Token.blamed_ite (blamed_closeBlock k) (blamed_startChain _)
  all_goals exact Token.blamed_ok

theorem blamed_shiftOperand (k : ExprContext) : t.Blamed (shiftOperand t k) := by
  unfold shiftOperand
  split
  case h_10 => exact blamed_startChain _
  all_goals exact Token.blamed_ok

theorem blamed_endOperand (e : Expr) (k : ExprContext) : t.Blamed (endOperand t e k) := by
  cases k with
  | argument | entryValue | forLimit | forValue => exact Token.blamed_ite (by simp) (by simp)
  | _ => simp [endOperand]

theorem blamed_shiftOperator (e : Expr) (k : ExprContext) : t.Blamed (shiftOperator t e k) := by
  unfold shiftOperator
  split
  · exact Token.blamed_ok
  · exact blamed_endOperand e k

theorem blamed_shiftSuffix (c : Chain) (k : ChainContext) : t.Blamed (shiftSuffix t c k) := by
  unfold shiftSuffix
  split <;> simp

theorem blamed_shiftEntry (es : List Entry) (k : TableContext) : t.Blamed (shiftEntry t es k) := by
  unfold shiftEntry
  split <;> simp

theorem blamed_shiftFunctionPath (isLocal : Bool) (p : String) (k : BlockContext) :
    t.Blamed (shiftFunctionPath t isLocal p k) := by
  unfold shiftFunctionPath
  split <;> simp

/-- A state that has settled rejects a token by naming it. -/
theorem blamed_shift (t : Token) (s : ParserState) : t.Blamed (shift t s) := by
  cases s with
  | statement k => exact blamed_shiftStatement k
  | returned k => exact Token.blamed_ite Token.blamed_ok (blamed_closeBlock k)
  | closed k => exact blamed_closeBlock k
  | operand k => exact blamed_shiftOperand k
  | operator e k => exact blamed_shiftOperator e k
  | suffix c k => exact blamed_shiftSuffix c k
  | firstArgument f k => exact Token.blamed_ite Token.blamed_ok (blamed_shiftOperand _)
  | nextTarget xs k => exact blamed_startChain _
  | entry es k => exact blamed_shiftEntry es k
  | functionPath isLocal p k => exact blamed_shiftFunctionPath isLocal p k
  | afterForVariable n k =>
    exact Token.blamed_ite Token.blamed_ok (Token.blamed_ite Token.blamed_ok (by simp))
  | afterTarget | firstLocal | afterLocal | afterForName | firstParameter | afterParameter =>
    exact Token.blamed_ite Token.blamed_ok (by simp)
  | _ => simp [shift]

theorem assign_inAssignment {isLocal : Bool} {xs es : List Expr} {line : Nat} {k : BlockContext}
    (h : assign rule isLocal xs line es k = .error e) : e.inAssignment = true := by
  unfold assign at h
  split at h
  · cases h
  · cases h
    rfl

theorem endExpression_inAssignment {x : Expr} {k : ExprContext}
    (h : endExpression rule next x k = .error e) : e.inAssignment = true := by
  unfold endExpression at h
  split at h
  · cases h
  · split at h <;> cases h
  · split at h
    · cases h
    · exact assign_inAssignment h
  · cases h

theorem settleOperator_inAssignment {x : Expr} {k : ExprContext}
    (h : settleOperator rule next x k = .error e) : e.inAssignment = true := by
  unfold settleOperator at h
  split at h
  · cases h
  · exact endExpression_inAssignment h

theorem addTarget_inAssignment {c : Chain} {xs : List Expr} {line : Nat} {k : BlockContext}
    (h : addTarget c xs line k = .error e) : e.inAssignment = true := by
  unfold addTarget at h
  split at h
  · cases h
  · cases h
    rfl

theorem endChain_inAssignment {c : Chain} {k : ChainContext}
    (h : endChain rule next c k = .error e) : e.inAssignment = true := by
  unfold endChain at h
  split at h
  · exact settleOperator_inAssignment h
  · split at h
    · split at h
      · cases h
        rfl
      · cases h
    · exact addTarget_inAssignment h
  · exact addTarget_inAssignment h

/-- What the next token decides can only be wrong about an assignment. -/
theorem settle_inAssignment (h : settle rule next s = .error e) : e.inAssignment = true := by
  unfold settle at h
  split at h
  · split at h
    · cases h
    · exact endChain_inAssignment h
  · exact settleOperator_inAssignment h
  · split at h <;> cases h
  · split at h <;> cases h
  · cases h

/-- Where the number of values fits, it does so under any rule. -/
theorem endExpression_any {x : Expr} {k : ExprContext}
    (h : endExpression .equal next x k = .ok s) : endExpression .any next x k = .ok s := by
  unfold endExpression at h ⊢
  split at h
  · exact h
  · exact h
  · split at h
    · rename_i hcomma
      rw [if_pos hcomma]
      exact h
    · rename_i hcomma
      rw [if_neg hcomma]
      unfold assign at h ⊢
      split at h
      · exact h
      · cases h
  · simp_all

theorem settleOperator_any {x : Expr} {k : ExprContext}
    (h : settleOperator .equal next x k = .ok s) : settleOperator .any next x k = .ok s := by
  unfold settleOperator at h ⊢
  split at h
  · rename_i hop
    simpa [hop] using h
  · rename_i hop
    simpa [hop] using endExpression_any h

theorem endChain_any {c : Chain} {k : ChainContext} (h : endChain .equal next c k = .ok s) :
    endChain .any next c k = .ok s := by
  cases k with
  | operand k => exact settleOperator_any h
  | statement line k => exact h
  | target xs line k => exact h

theorem settle_any (h : settle .equal next s = .ok s') : settle .any next s = .ok s' := by
  cases s with
  | suffix c k =>
    simp only [settle] at h ⊢
    split at h
    · rename_i hext
      simpa [hext] using h
    · rename_i hext
      simpa [hext] using endChain_any h
  | operator x k => exact settleOperator_any h
  | _ => exact h

theorem feed_any (h : s.feed .equal t = .ok s') : s.feed .any t = .ok s' := by
  obtain ⟨s₁, hsettle, hshift⟩ := feed_eq_ok.mp h
  rw [feed_eq (settle_any hsettle), hshift]

theorem run_any (h : s.run .equal ts = .ok s') : s.run .any ts = .ok s' := by
  induction ts generalizing s with
  | nil => exact h
  | cons t ts ih =>
    obtain ⟨s₁, hfeed, hrun⟩ := run_cons_eq_ok.mp h
    rw [run_cons_ok (feed_any hfeed), ih hrun]

/-- A run fails at one token, after reading all those before it. -/
theorem exists_of_run_error (h : s.run rule ts = .error e) :
    ∃ i t s', ts[i]? = some t ∧ s.run rule (ts.take i) = .ok s' ∧ s'.feed rule t = .error e := by
  induction ts generalizing s with
  | nil => cases h
  | cons t ts ih =>
    rcases run_cons_eq_error.mp h with hfeed | ⟨s₁, hfeed, hrun⟩
    · exact ⟨0, t, s, rfl, rfl, hfeed⟩
    · obtain ⟨i, u, s', hu, htake, herr⟩ := ih hrun
      refine ⟨i + 1, u, s', by simpa using hu, ?_, herr⟩
      rw [List.take_succ_cons, run_cons_ok hfeed, htake]

/-- It fails in the same way whatever comes after that token. -/
theorem run_error_of_take {i : Nat} (ht : ts[i]? = some t) (h : s.run rule (ts.take i) = .ok s')
    (herr : s'.feed rule t = .error e) (hus : ts.take (i + 1) <+: us) :
    s.run rule us = .error e := by
  obtain ⟨vs, rfl⟩ := hus
  have htake : ts.take (i + 1) = ts.take i ++ [t] := by
    rw [List.take_add_one, ht]
    rfl
  rw [htake, List.append_assoc, run_append_ok h, List.singleton_append, run_cons, herr]
  rfl

theorem offender_of_feed_error {x : Nat × String} (h : s.feed rule t = .error e)
    (he : e.offender? = some x) : (t.line, t.text) = x := by
  rcases feed_eq_error.mp h with hsettle | ⟨s₁, hsettle, hshift⟩
  · have hnone := SyntaxError.offender_of_inAssignment (settle_inAssignment hsettle)
    simp [hnone] at he
  · have hblamed := blamed_shift t s₁ e hshift
    simpa [hblamed] using he

theorem feed_ne_unexpectedEnd : s.feed rule t ≠ .error .unexpectedEnd := by
  intro h
  rcases feed_eq_error.mp h with hsettle | ⟨s₁, hsettle, hshift⟩
  · cases settle_inAssignment hsettle
  · cases blamed_shift t s₁ _ hshift

theorem result_error (h : s.result = .error e) : e = .unexpectedEnd := by
  have hprogram : ∀ k, program? k = .error e → e = .unexpectedEnd := by
    rintro ⟨ss, w⟩ hk
    cases w <;> simp_all [program?]
  cases s with
  | statement k | returned k | closed k => exact hprogram k h
  | _ => simpa [result] using h.symm

theorem offender_of_finish_error (h : s.finish rule = .error e) : e.offender? = none := by
  rcases finish_eq_error.mp h with hsettle | ⟨s₁, -, hresult⟩
  · exact SyntaxError.offender_of_inAssignment (settle_inAssignment hsettle)
  · obtain rfl := result_error hresult
    rfl

theorem finish_any (h : s.finish .equal = .error .unexpectedEnd) :
    s.finish .any = .error .unexpectedEnd := by
  rcases finish_eq_error.mp h with hsettle | ⟨s₁, hsettle, hresult⟩
  · cases settle_inAssignment hsettle
  · rw [finish_eq (settle_any hsettle), hresult]

end ParserState

open ParserState

variable {ts : List Token} {s : ParserState}

/-- What is read can go on to a program if it is not checked how many values are assigned. -/
theorem exists_completion (h : ParserState.start.run .equal ts = .ok s) :
    ∃ ys p, parseWith .any (ts ++ ys) = .ok p := by
  obtain ⟨ys, p, hp⟩ := completable s
  obtain ⟨s', hrun, hfinish⟩ := Parsing.bind_eq_ok.mp hp
  refine ⟨ys, p, parseWith_eq_ok.mpr ⟨s', ?_, hfinish⟩⟩
  rw [run_append_ok (run_any h), hrun]

/-- An error about a token is found at the first token that no continuation of the ones before it
can have in its place; an error about the end of the input, where more could follow. -/
theorem parse_error_first_impossible (ts : List Token) :
    (∀ e x, parse ts = .error e → e.offender? = some x →
      ∃ i t, ts[i]? = some t ∧ (t.line, t.text) = x ∧
        (∃ ys p, parseWith .any (ts.take i ++ ys) = .ok p) ∧
        ∀ us, ts.take (i + 1) <+: us → parse us = .error e) ∧
    (parse ts = .error .unexpectedEnd →
      parseWith .any ts = .error .unexpectedEnd ∧ ∃ ys p, parseWith .any (ts ++ ys) = .ok p) := by
  constructor
  · intro e x h hx
    rcases parseWith_eq_error.mp h with hrun | ⟨s, hrun, hfinish⟩
    · obtain ⟨i, t, s, ht, htake, herr⟩ := exists_of_run_error hrun
      refine ⟨i, t, ht, offender_of_feed_error herr hx, exists_completion htake, fun us hus => ?_⟩
      exact parseWith_eq_error.mpr (Or.inl (run_error_of_take ht htake herr hus))
    · simp [offender_of_finish_error hfinish] at hx
  · intro h
    rcases parseWith_eq_error.mp h with hrun | ⟨s, hrun, hfinish⟩
    · obtain ⟨i, t, s, -, -, herr⟩ := exists_of_run_error hrun
      exact absurd herr feed_ne_unexpectedEnd
    · have hany := parseWith_eq_error.mpr (Or.inr ⟨s, run_any hrun, finish_any hfinish⟩)
      exact ⟨hany, exists_completion hrun⟩

/-- The second sign of `x = = y` is blamed, and a lone name may still become an assignment. -/
theorem parse_error_second_assign :
    (∃ i t, [Token.ofName "x", .ofSymbol .assign, .ofSymbol .assign, .ofName "y"][i]? = some t ∧
      (t.line, t.text) = (1, "=") ∧
      (∃ ys p, parseWith .any
        ([Token.ofName "x", .ofSymbol .assign, .ofSymbol .assign, .ofName "y"].take i ++ ys) =
          .ok p) ∧
      ∀ us,
        [Token.ofName "x", .ofSymbol .assign, .ofSymbol .assign, .ofName "y"].take (i + 1) <+: us →
        parse us = .error (.unexpected 1 "=")) ∧
      ∃ ys p, parseWith .any ([Token.ofName "x"] ++ ys) = .ok p :=
  ⟨(parse_error_first_impossible _).1 _ _ rfl rfl, ((parse_error_first_impossible _).2 rfl).2⟩

end LuaSyntax
