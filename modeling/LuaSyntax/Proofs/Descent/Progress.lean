import LuaSyntax.Descent

/-!
Why reading from the top down ends. A procedure takes a token, or calls only procedures of a lower
rank before it does. So the tokens that are left, and then the rank, go down from call to call, and
the calls that are open at a time are no more than both allow.
-/
namespace LuaSyntax.Descent

namespace Procedure

variable {α : Type}

/-- The keyword that the procedure passes over unseen. -/
def keyword? : Procedure α → Option Keyword
  | .returnStatement => some .return
  | .ifStatement => some .if
  | .whileStatement => some .while
  | .repeatStatement => some .repeat
  | .doStatement => some .do
  | .localStatement => some .local
  | .forStatement => some .for
  | .functionStatement => some .function
  | _ => none

/-- Whether a procedure that does not fail takes a token; `return` does where there is one. -/
def advances : Procedure α → Bool
  | .program | .statements | .suffixes _ | .loop _ _ => false
  | _ => true

/-- Procedures that are called with all tokens still there have a lower rank than the caller. Only
on no tokens at all does a statement go on to its parts with as many as it had. -/
def rank (ts : List Token) : Procedure α → Nat
  | .chain | .entry | .parameters | .functionPath => 0
  | .loop .statements _ => 2
  | .loop .entries _ => 1
  | .loop _ _ => 0
  | .simpleExpr | .suffixes _ | .functionBody | .function => 1
  | .genericFor _ | .assignment _ _ | .assignOrCall => 1
  | .subexpr _ | .table => 2
  | .expr | .statements => 3
  | .values | .ifArm | .numericFor _ | .program => 4
  | .arguments => 5
  | .returnStatement | .ifStatement | .whileStatement | .repeatStatement | .doStatement
  | .localStatement | .forStatement | .functionStatement => if ts.isEmpty then 5 else 0

/-- What goes down from a call to the calls in it. -/
def weight (p : Procedure α) (ts : List Token) : Nat := 6 * ts.length + p.rank ts

theorem rank_le (p : Procedure α) (ts : List Token) : p.rank ts ≤ 5 := by
  cases p with
  | loop l s => cases l <;> simp [rank]
  | _ => simp only [rank]; first | omega | (split <;> omega)

theorem le_weight (p : Procedure α) (ts : List Token) : 6 * ts.length ≤ p.weight ts :=
  Nat.le_add_right _ _

theorem weight_lt_of_length {us ts : List Token} (p : Procedure α) (h : us.length < ts.length) :
    p.weight us < 6 * ts.length := by
  have := p.rank_le us
  unfold weight
  omega

/-- What a procedure leaves if it does not fail. Behind a keyword that is not there all statements
fail but `return`, to which no values need belong. -/
structure Leaves (p : Procedure α) (ts us : List Token) : Prop where
  suffix : us <:+ ts
  shorter (hp : p.advances = true) (hreturn : p.keyword? = some .return → ts ≠ []) :
    us.length < ts.length

end Procedure

/-- Every call in the script weighs less than this, and the script ends so, as long as the
procedures that it calls leave what they should. -/
def Script.Checks (w : Nat) {α : Type} (Q : α → List Token → Prop) : Script α → List Token → Prop
  | done a, ts => Q a ts
  | fail _, _ => True
  | look k, ts => (k ts.head?).Checks w Q ts
  | take k, ts => (k ts.head?).Checks w Q ts.tail
  | invoke p k, ts => p.weight ts < w ∧ ∀ b us, p.Leaves ts us → (k b).Checks w Q us

namespace Script

variable {α β : Type} {w : Nat} {m : Script α} {f : α → Script β} {ts us : List Token}

theorem checks_bind {Q : β → List Token → Prop} (m : Script α) (ts : List Token) :
    (m >>= f).Checks w Q ts ↔ m.Checks w (fun a us => (f a).Checks w Q us) ts := by
  change (m.bind f).Checks w Q ts ↔ _
  induction m generalizing ts with
  | done a => rfl
  | fail e => rfl
  | look k ih => exact ih _ ts
  | take k ih => exact ih _ ts.tail
  | invoke p k ih => exact and_congr_right fun _ => forall₃_congr fun b us _ => ih b us

theorem Checks.imp {Q R : α → List Token → Prop} (h : m.Checks w Q ts)
    (hQ : ∀ a us, Q a us → R a us) : m.Checks w R ts := by
  induction m generalizing ts with
  | done a => exact hQ a ts h
  | fail e => trivial
  | look k ih => exact ih _ h
  | take k ih => exact ih _ h
  | invoke p k ih => exact ⟨h.1, fun b us hus => ih b (h.2 b us hus)⟩

/-- Once a token is taken, nothing is left to check. -/
theorem checks_of_length_lt (m : Script α) (h : 6 * us.length + 6 ≤ w) :
    m.Checks w (fun _ vs => vs <:+ us) us := by
  induction m generalizing us with
  | done a => exact List.suffix_rfl
  | fail e => trivial
  | look k ih => exact ih _ h
  | take k ih =>
    have hlength := us.length_tail
    exact (ih _ (by omega)).imp fun _ vs hvs => hvs.trans us.tail_suffix
  | invoke p k ih =>
    have hrank := p.rank_le us
    refine ⟨by unfold Procedure.weight; omega, fun b vs hvs => ?_⟩
    have hlength := hvs.suffix.length_le
    exact (ih b (by omega)).imp fun _ _ h => h.trans hvs.suffix

/-- The script takes no token that is not there, and its calls weigh less than this. -/
def Keeps (w : Nat) (m : Script α) (ts : List Token) : Prop := m.Checks w (fun _ us => us <:+ ts) ts

/-- The same for a script that takes a token if it does not fail. -/
def Takes (w : Nat) (m : Script α) (ts : List Token) : Prop :=
  m.Checks w (fun _ us => us <:+ ts ∧ us.length < ts.length) ts

theorem Takes.bind (h : m.Takes w ts) (hw : 6 * ts.length ≤ w) : (m >>= f).Takes w ts := by
  refine (checks_bind m ts).mpr (h.imp fun a us hus => ?_)
  exact (checks_of_length_lt (f a) (by omega)).imp fun _ vs hvs =>
    ⟨hvs.trans hus.1, Nat.lt_of_le_of_lt hvs.length_le hus.2⟩

theorem Keeps.bind (h : m.Keeps w ts) (hw : 6 * ts.length ≤ w)
    (hf : ∀ a us, 6 * us.length ≤ w → (f a).Takes w us) : (m >>= f).Takes w ts := by
  refine (checks_bind m ts).mpr (h.imp fun a us hus => ?_)
  have hlength := hus.length_le
  exact (hf a us (by omega)).imp fun _ vs hvs =>
    ⟨hvs.1.trans hus, Nat.lt_of_lt_of_le hvs.2 hlength⟩

end Script

open Script

section

variable {α β : Type} {w : Nat} {ts : List Token} {Q : α → List Token → Prop}

theorem takes_call {p : Procedure α} {q : Procedure β} (hp : p.advances = true)
    (hkw : p.keyword? = none) (hrank : p.rank ts < q.rank ts) : (call p).Takes (q.weight ts) ts := by
  refine ⟨Nat.add_lt_add_left hrank _, fun _ _ h => ⟨h.suffix, h.shorter hp fun hreturn => ?_⟩⟩
  rw [hkw] at hreturn
  cases hreturn

theorem keeps_call {p : Procedure α} {q : Procedure β} (hrank : p.rank ts < q.rank ts) :
    (call p).Keeps (q.weight ts) ts := ⟨Nat.add_lt_add_left hrank _, fun _ _ h => h.suffix⟩

theorem takes_nextToken : nextToken.Takes w ts := by
  cases ts with
  | nil => trivial
  | cons t ts => exact ⟨List.suffix_cons t ts, Nat.lt_succ_self _⟩

theorem takes_expect (kind : TokenKind) : (expect kind).Takes w ts := by
  cases ts with
  | nil => trivial
  | cons t ts =>
    change Script.Checks w _ (if t.kind = kind then Script.done t else Script.fail _) ts
    split
    · exact ⟨List.suffix_cons t ts, Nat.lt_succ_self _⟩
    · trivial

theorem takes_expectName : expectName.Takes w ts :=
  (checks_bind (expect .name) ts).mpr (takes_expect .name)

/-- A procedure that takes a token may be followed by anything. -/
theorem takes_call_bind {γ : Type} {p : Procedure α} {q : Procedure β} {f : α → Script γ}
    (hp : p.advances = true) (hkw : p.keyword? = none) (hrank : p.rank ts < q.rank ts) :
    (call p >>= f).Takes (q.weight ts) ts := (takes_call hp hkw hrank).bind (q.le_weight ts)

/-- So may a statement that is called where a token is left. -/
theorem takes_statement_bind {γ : Type} {p : Procedure Stmt} {q : Procedure β}
    {f : Stmt → Script γ} (hp : p.advances = true) (hts : ts ≠ [])
    (hrank : p.rank ts < q.rank ts) : (call p >>= f).Takes (q.weight ts) ts := by
  have hcall : (call p).Takes (q.weight ts) ts :=
    ⟨Nat.add_lt_add_left hrank _, fun _ _ h => ⟨h.suffix, h.shorter hp fun _ => hts⟩⟩
  exact hcall.bind (q.le_weight ts)

/-- One that may take none is followed by a token that has to be there. -/
theorem takes_call_expect {γ : Type} {p : Procedure α} {q : Procedure β} {kind : TokenKind}
    {f : α → Token → Script γ} (hrank : p.rank ts < q.rank ts) :
    (call p >>= fun a => expect kind >>= f a).Takes (q.weight ts) ts :=
  (keeps_call hrank).bind (q.le_weight ts) fun _ _ hus => (takes_expect kind).bind hus

theorem checks_peekKind {f : Option TokenKind → Script α} :
    (peekKind >>= f).Checks w Q ts ↔ (f (ts.head?.map Token.kind)).Checks w Q ts := Iff.rfl

theorem checks_tryPop {kind : TokenKind} {f : Option Token → Script α} :
    (tryPop kind >>= f).Checks w Q ts ↔
      if ts.head?.map Token.kind = some kind then (f ts.head?).Checks w Q ts.tail
      else (f none).Checks w Q ts := by
  rw [checks_bind]
  change Script.Checks w _ (if _ then next else pure none) ts ↔ _
  split <;> rfl

/-- What follows a token that is taken has nothing left to check. -/
theorem checks_tail {m : Script α} {t : Token} (hw : 6 * (t :: ts).length ≤ w) :
    m.Checks w (fun _ us => us <:+ t :: ts ∧ us.length < (t :: ts).length) ts := by
  rw [List.length_cons] at hw
  refine (checks_of_length_lt m (by omega)).imp fun _ us hus => ?_
  exact ⟨hus.trans (List.suffix_cons t ts), Nat.lt_succ_of_le hus.length_le⟩

/-- A token that is there is passed over. -/
theorem takes_skip {f : Unit → Script α} (hw : 6 * ts.length ≤ w)
    (hf : ts = [] → (f ()).Takes w []) : (skip >>= f).Takes w ts := by
  cases ts with
  | nil => exact hf rfl
  | cons t ts => exact checks_tail hw

/-- Either the token is taken, or the script goes on with all that are there. -/
theorem takes_tryPop {kind : TokenKind} {f : Option Token → Script α} (hw : 6 * ts.length ≤ w)
    (hf : (f none).Takes w ts) : (tryPop kind >>= f).Takes w ts := by
  refine checks_tryPop.mpr ?_
  split
  case isTrue h =>
    cases ts with
    | nil => cases h
    | cons t ts => exact checks_tail hw
  case isFalse => exact hf

end

/-! ### One procedure after the other -/

section

variable {ts : List Token}

theorem operand_takes (limit : Nat) : operand.Takes ((Procedure.subexpr limit).weight ts) ts := by
  refine checks_peekKind.mpr ?_
  split
  case h_1 h => exact takes_skip (Procedure.le_weight _ _) (by rintro rfl; cases h)
  case h_2 h => exact takes_skip (Procedure.le_weight _ _) (by rintro rfl; cases h)
  case h_3 => exact takes_call (p := .simpleExpr) rfl rfl (Nat.lt_succ_self 1)

theorem subexpr_takes (limit : Nat) :
    (subexpr limit).Takes ((Procedure.subexpr limit).weight ts) ts :=
  (operand_takes limit).bind (Procedure.le_weight _ _)

theorem simpleExpr_takes : simpleExpr.Takes (Procedure.simpleExpr.weight ts) ts := by
  refine checks_peekKind.mpr ?_
  split
  · exact takes_call_bind rfl rfl Nat.zero_lt_one
  · exact takes_call_bind rfl rfl Nat.zero_lt_one
  · exact takes_nextToken.bind (Procedure.le_weight _ _)

theorem chain_takes : chain.Takes (Procedure.chain.weight ts) ts :=
  takes_nextToken.bind (Procedure.le_weight _ _)

theorem entry_takes : entry.Takes (Procedure.entry.weight ts) ts :=
  Takes.bind (takes_nextToken.bind (Procedure.le_weight _ _)) (Procedure.le_weight _ _)

theorem table_takes : table.Takes (Procedure.table.weight ts) ts :=
  takes_call_expect (Nat.lt_succ_self 1)

theorem values_takes : values.Takes (Procedure.values.weight ts) ts :=
  takes_call_bind rfl rfl (Nat.lt_succ_self 3)

theorem arguments_takes : arguments.Takes (Procedure.arguments.weight ts) ts :=
  takes_tryPop (Procedure.le_weight _ _) (takes_call_bind rfl rfl (Nat.lt_succ_self 4))

theorem functionPath_takes : functionPath.Takes (Procedure.functionPath.weight ts) ts :=
  takes_expectName.bind (Procedure.le_weight _ _)

theorem parameters_takes : parameters.Takes (Procedure.parameters.weight ts) ts :=
  (takes_expect _).bind (Procedure.le_weight _ _)

theorem functionBody_takes : functionBody.Takes (Procedure.functionBody.weight ts) ts :=
  takes_call_bind rfl rfl Nat.zero_lt_one

theorem function_takes : function.Takes (Procedure.function.weight ts) ts :=
  takes_call_bind rfl rfl Nat.zero_lt_one

theorem assignOrCall_takes : assignOrCall.Takes (Procedure.assignOrCall.weight ts) ts := by
  cases ts with
  | nil => trivial
  | cons t ts => exact takes_call_bind (p := .chain) rfl rfl Nat.zero_lt_one

theorem assignment_takes (first : Chain) (line : Nat) :
    (assignment first line).Takes ((Procedure.assignment first line).weight ts) ts := by
  refine (checks_bind _ ts).mpr ?_
  unfold targetOf
  split
  · exact takes_call_expect (p := .loop .targets _) Nat.zero_lt_one
  · trivial

theorem ifArm_takes : ifArm.Takes (Procedure.ifArm.weight ts) ts :=
  takes_call_bind rfl rfl (Nat.lt_succ_self 3)

theorem numericFor_takes (name : String) :
    (numericFor name).Takes ((Procedure.numericFor name).weight ts) ts :=
  takes_call_bind rfl rfl (Nat.lt_succ_self 3)

theorem genericFor_takes (name : String) :
    (genericFor name).Takes ((Procedure.genericFor name).weight ts) ts :=
  takes_call_expect Nat.zero_lt_one

/-! On no tokens at all a statement goes on behind a keyword that is not there. -/

theorem ifStatement_takes : ifStatement.Takes (Procedure.ifStatement.weight ts) ts := by
  refine takes_skip (Procedure.le_weight _ _) ?_
  rintro rfl
  exact takes_call rfl rfl (Nat.lt_succ_self 4)

theorem whileStatement_takes : whileStatement.Takes (Procedure.whileStatement.weight ts) ts := by
  refine takes_skip (Procedure.le_weight _ _) ?_
  rintro rfl
  exact takes_call_bind rfl rfl (by decide : 3 < 5)

theorem functionStatement_takes :
    functionStatement.Takes (Procedure.functionStatement.weight ts) ts := by
  refine takes_skip (Procedure.le_weight _ _) ?_
  rintro rfl
  exact takes_call_bind rfl rfl (by decide : 1 < 5)

theorem repeatStatement_takes : repeatStatement.Takes (Procedure.repeatStatement.weight ts) ts := by
  refine takes_skip (Procedure.le_weight _ _) ?_
  rintro rfl
  exact takes_call_expect (by decide : 3 < 5)

theorem doStatement_takes : doStatement.Takes (Procedure.doStatement.weight ts) ts := by
  refine takes_skip (Procedure.le_weight _ _) ?_
  rintro rfl
  exact takes_call_expect (by decide : 3 < 5)

theorem localStatement_takes : localStatement.Takes (Procedure.localStatement.weight ts) ts :=
  takes_skip (Procedure.le_weight _ _) fun _ => trivial

theorem forStatement_takes : forStatement.Takes (Procedure.forStatement.weight ts) ts :=
  takes_skip (Procedure.le_weight _ _) fun _ => trivial

theorem returnStatement_leaves : returnStatement.Checks (Procedure.returnStatement.weight ts)
    (fun _ us => Procedure.returnStatement.Leaves ts us) ts := by
  cases ts with
  | nil => exact ⟨List.suffix_rfl, fun _ hreturn => absurd rfl (hreturn rfl)⟩
  | cons t ts =>
    exact (checks_tail (Procedure.le_weight _ _)).imp fun _ _ h => ⟨h.1, fun _ _ => h.2⟩

end

/-! ### Rounds of loops -/

section

variable {σ : Type} {w : Nat} {ts : List Token}

/-- A round takes a token if it goes on to the next. -/
def Script.Circles (w : Nat) (m : Script (Round σ)) (ts : List Token) : Prop :=
  m.Checks w (fun r us => us <:+ ts ∧ ∀ s, r = .again s → us.length < ts.length) ts

theorem Script.Takes.circles {m : Script (Round σ)} (h : m.Takes w ts) : m.Circles w ts :=
  h.imp fun _ _ h => ⟨h.1, fun _ _ => h.2⟩

theorem circles_done (s : σ) : (pure (.done s) : Script (Round σ)).Circles w ts :=
  ⟨List.suffix_rfl, fun _ h => nomatch h⟩

/-- A round that goes on just if it can take a token of some kind. -/
theorem circles_tryPop {kind : TokenKind} {f : Token → Script (Round σ)} {s : σ}
    (hw : 6 * ts.length ≤ w) : (tryPop kind >>= fun
      | some t => f t
      | none => pure (.done s)).Circles w ts := by
  refine checks_tryPop.mpr ?_
  split
  case isTrue h =>
    cases ts with
    | nil => cases h
    | cons t ts => exact (checks_tail hw).imp fun _ _ h => ⟨h.1, fun _ _ => h.2⟩
  case isFalse => exact circles_done s

theorem operatorRound_circles (limit : Nat) (e : Expr) (hw : 6 * ts.length ≤ w) :
    (operatorRound limit e).Circles w ts := by
  refine checks_peekKind.mpr ?_
  split
  case h_1 => exact circles_done e
  case h_2 op hop =>
    split
    · exact circles_done e
    · exact (takes_skip hw (by rintro rfl; cases hop)).circles

theorem suffixRound_circles (c : Chain) (hw : 6 * ts.length ≤ w) :
    (suffixRound c).Circles w ts := by
  refine checks_peekKind.mpr ?_
  split
  case h_5 => exact circles_done c
  all_goals exact (takes_skip hw (by rintro rfl; contradiction)).circles

theorem entryRound_circles (es : List Entry) :
    (entryRound es).Circles ((Procedure.loop .entries es).weight ts) ts := by
  refine checks_peekKind.mpr ?_
  split
  · exact circles_done es
  · exact Takes.circles (takes_call_bind (q := .loop .entries es) rfl rfl Nat.zero_lt_one)

theorem advances_statementProcedure (kind : TokenKind) :
    (statementProcedure kind).advances = true := by
  unfold statementProcedure
  split <;> rfl

theorem rank_statementProcedure (kind : TokenKind) (hts : ts ≠ []) :
    (statementProcedure kind).rank ts < 2 := by
  unfold statementProcedure
  split <;> simp [Procedure.rank, hts]

theorem statementRound_circles (ss : List Stmt) :
    (statementRound ss).Circles ((Procedure.loop .statements ss).weight ts) ts := by
  refine checks_peekKind.mpr ?_
  cases ts with
  | nil => exact circles_done ss
  | cons t ts =>
    have hw := Procedure.le_weight (.loop .statements ss) (t :: ts)
    have hts : t :: ts ≠ [] := List.cons_ne_nil t ts
    split
    case h_1 => exact circles_done ss
    case h_2 => exact (takes_skip hw (by rintro ⟨⟩)).circles
    case h_3 =>
      exact Takes.circles (takes_statement_bind (q := .loop .statements ss) rfl hts Nat.zero_lt_two)
    case h_4 => exact (takes_skip hw (by rintro ⟨⟩)).circles
    case h_5 kind _ _ _ _ =>
      split
      · exact circles_done ss
      · exact Takes.circles (takes_statement_bind (q := .loop .statements ss)
          (advances_statementProcedure kind) hts (rank_statementProcedure kind hts))

theorem Loop.round_circles (l : Loop σ) (s : σ) (ts : List Token) :
    (l.round s).Circles ((Procedure.loop l s).weight ts) ts := by
  have hw := Procedure.le_weight (.loop l s) ts
  cases l with
  | statements => exact statementRound_circles s
  | operators limit => exact operatorRound_circles limit s hw
  | suffixes => exact suffixRound_circles s hw
  | entries => exact entryRound_circles s
  | values => exact circles_tryPop hw
  | targets => exact circles_tryPop hw
  | names => exact circles_tryPop hw
  | segments => exact circles_tryPop hw

theorem loop_keeps (l : Loop σ) (s : σ) :
    (loop l s).Keeps ((Procedure.loop l s).weight ts) ts := by
  refine (checks_bind _ ts).mpr ((l.round_circles s ts).imp fun r us hus => ?_)
  cases r with
  | done s => exact hus.1
  | again s' =>
    have hlt := Procedure.weight_lt_of_length (.loop l s') (hus.2 s' rfl)
    have hw := Procedure.le_weight (.loop l s) ts
    exact ⟨by omega, fun _ vs hvs => hvs.suffix.trans hus.1⟩

end

section

variable {α : Type} {w : Nat} {m : Script α} {p : Procedure α} {ts : List Token}

theorem Script.Takes.leaves (h : m.Takes w ts) : m.Checks w (fun _ us => p.Leaves ts us) ts :=
  h.imp fun _ _ h => ⟨h.1, fun _ _ => h.2⟩

theorem Script.Keeps.leaves (h : m.Keeps w ts) (hp : p.advances = false) :
    m.Checks w (fun _ us => p.Leaves ts us) ts :=
  h.imp fun _ _ hus => ⟨hus, fun h => by rw [hp] at h; cases h⟩

end

theorem program_keeps (ts : List Token) : program.Keeps (Procedure.program.weight ts) ts := by
  have hstatements : (call .statements).Keeps (Procedure.program.weight ts) ts :=
    keeps_call (Nat.lt_succ_self 3)
  refine (checks_bind _ ts).mpr (hstatements.imp fun ss us hus => ?_)
  cases us with
  | nil => exact hus
  | cons t us => trivial

/-- What a procedure does lowers the weight from call to call, and leaves what it should. -/
theorem Procedure.checks {α : Type} (p : Procedure α) (ts : List Token) :
    p.body.Checks (p.weight ts) (fun _ us => p.Leaves ts us) ts := by
  cases p with
  | program => exact (program_keeps ts).leaves rfl
  | statements =>
    exact Keeps.leaves (keeps_call (q := .statements) (Nat.lt_succ_self 2)) rfl
  | suffixes c => exact Keeps.leaves (keeps_call (q := .suffixes c) Nat.zero_lt_one) rfl
  | loop l s => exact (loop_keeps l s).leaves rfl
  | returnStatement => exact returnStatement_leaves
  | ifStatement => exact ifStatement_takes.leaves
  | ifArm => exact ifArm_takes.leaves
  | whileStatement => exact whileStatement_takes.leaves
  | repeatStatement => exact repeatStatement_takes.leaves
  | doStatement => exact doStatement_takes.leaves
  | localStatement => exact localStatement_takes.leaves
  | forStatement => exact forStatement_takes.leaves
  | numericFor name => exact (numericFor_takes name).leaves
  | genericFor name => exact (genericFor_takes name).leaves
  | functionStatement => exact functionStatement_takes.leaves
  | function => exact function_takes.leaves
  | functionPath => exact functionPath_takes.leaves
  | functionBody => exact functionBody_takes.leaves
  | parameters => exact parameters_takes.leaves
  | assignOrCall => exact assignOrCall_takes.leaves
  | assignment first line => exact (assignment_takes first line).leaves
  | values => exact values_takes.leaves
  | expr =>
    exact Takes.leaves (takes_call (p := .subexpr 0) (q := .expr) rfl rfl (Nat.lt_succ_self 2))
  | subexpr limit => exact (subexpr_takes limit).leaves
  | simpleExpr => exact simpleExpr_takes.leaves
  | chain => exact chain_takes.leaves
  | table => exact table_takes.leaves
  | entry => exact entry_takes.leaves
  | arguments => exact arguments_takes.leaves

/-! ### All calls are answered -/

namespace Script

variable {α : Type} {answer : Callee} {w : Nat} {m : Script α} {ts us : List Token} {o : Outcome α}
  {Q : α → List Token → Prop}

theorem run_suffix (h : ∀ {β : Type} (p : Procedure β) ts o, answer p ts = some o → o.2 <:+ ts)
    (hrun : m.run answer ts = some o) : o.2 <:+ ts := by
  induction m generalizing ts with
  | done a => cases hrun; exact List.suffix_rfl
  | fail e => cases hrun; exact List.suffix_rfl
  | look k ih => exact ih _ hrun
  | take k ih => exact (ih _ hrun).trans ts.tail_suffix
  | invoke p k ih =>
    rw [run] at hrun
    split at hrun
    case h_1 b us hp => exact (ih b hrun).trans (h p ts _ hp)
    case h_2 e us hp => cases hrun; exact h p ts _ hp
    case h_3 => cases hrun

/-- A script that is checked ends as it should. -/
theorem Checks.run (hm : m.Checks w Q ts)
    (h : ∀ {β : Type} (p : Procedure β) ts b us, answer p ts = some (.ok b, us) → p.Leaves ts us)
    {a : α} (hrun : m.run answer ts = some (.ok a, us)) : Q a us := by
  induction m generalizing ts with
  | done b => cases hrun; exact hm
  | fail e => cases hrun
  | look k ih => exact ih _ hm hrun
  | take k ih => exact ih _ hm hrun
  | invoke p k ih =>
    rw [Script.run] at hrun
    split at hrun
    case h_1 b vs hp => exact ih b (hm.2 b vs (h p ts b vs hp)) hrun
    case h_2 => cases hrun
    case h_3 => cases hrun

theorem Checks.isSome (hm : m.Checks w Q ts)
    (h : ∀ {β : Type} (p : Procedure β) ts b us, answer p ts = some (.ok b, us) → p.Leaves ts us)
    (hsome : ∀ {β : Type} (p : Procedure β) ts, p.weight ts < w → (answer p ts).isSome = true) :
    (m.run answer ts).isSome = true := by
  induction m generalizing ts with
  | done b => rfl
  | fail e => rfl
  | look k ih => exact ih _ hm
  | take k ih => exact ih _ hm
  | invoke p k ih =>
    obtain ⟨o, hp⟩ := Option.isSome_iff_exists.mp (hsome p ts hm.1)
    obtain ⟨r, us⟩ := o
    rw [Script.run, hp]
    cases r with
    | ok b => exact ih b (hm.2 b us (h p ts b us hp))
    | error e => rfl

/-- Where more calls are answered, what has ended ends alike. -/
theorem run_mono {answer' : Callee}
    (h : ∀ {β : Type} (p : Procedure β) ts o, answer p ts = some o → answer' p ts = some o)
    (hrun : m.run answer ts = some o) : m.run answer' ts = some o := by
  induction m generalizing ts with
  | done b => exact hrun
  | fail e => exact hrun
  | look k ih => exact ih _ hrun
  | take k ih => exact ih _ hrun
  | invoke p k ih =>
    rw [run] at hrun ⊢
    split at hrun
    case h_1 b us hp =>
      rw [h p ts _ hp]
      exact ih b hrun
    case h_2 e us hp =>
      rw [h p ts _ hp]
      exact hrun
    case h_3 => cases hrun

end Script

section

variable {α : Type} {n m : Nat} {p : Procedure α} {ts us : List Token} {o : Outcome α}

theorem within_suffix (h : within n p ts = some o) : o.2 <:+ ts := by
  induction n generalizing α ts with
  | zero => cases h
  | succ n ih => exact run_suffix (fun _ _ _ => ih) h

theorem within_leaves {a : α} (h : within n p ts = some (.ok a, us)) : p.Leaves ts us := by
  induction n generalizing α ts us with
  | zero => cases h
  | succ n ih => exact (p.checks ts).run (fun _ _ _ _ => ih) h

theorem within_isSome (h : p.weight ts < n) : (within n p ts).isSome = true := by
  induction n generalizing α ts with
  | zero => cases h
  | succ n ih =>
    exact (p.checks ts).isSome (fun _ _ _ _ => within_leaves) fun q us hq => ih (by omega)

theorem within_mono (hnm : n ≤ m) (h : within n p ts = some o) : within m p ts = some o := by
  induction n generalizing α ts m with
  | zero => cases h
  | succ n ih =>
    cases m with
    | zero => cases hnm
    | succ m => exact run_mono (fun _ _ _ => ih (Nat.le_of_succ_le_succ hnm)) h

end

/-- How a procedure ends on these tokens, and what it leaves. -/
def Procedure.read {α : Type} (p : Procedure α) (ts : List Token) : Outcome α :=
  (within (p.weight ts + 1) p ts).get (within_isSome (Nat.lt_succ_self _))

section

variable {α : Type} {n : Nat} {p : Procedure α} {ts us : List Token} {o : Outcome α}

theorem within_eq_read (h : within n p ts = some o) : o = p.read ts := by
  have hread : within (p.weight ts + 1) p ts = some (p.read ts) := (Option.some_get _).symm
  rcases Nat.le_total n (p.weight ts + 1) with hle | hle
  · exact Option.some_inj.mp ((within_mono hle h).symm.trans hread)
  · exact Option.some_inj.mp (h.symm.trans (within_mono hle hread))

theorem within_of_weight_lt (h : p.weight ts < n) : within n p ts = some (p.read ts) := by
  obtain ⟨o, ho⟩ := Option.isSome_iff_exists.mp (within_isSome h)
  rw [ho, within_eq_read ho]

/-- Every call is answered. -/
def answered : Callee := fun _ p ts => some (p.read ts)

/-- A procedure does what its script does when every call is answered by its procedure. -/
theorem run_body (p : Procedure α) (ts : List Token) :
    p.body.run answered ts = some (p.read ts) := by
  have hread : within (p.weight ts + 1) p ts = some (p.read ts) :=
    within_of_weight_lt (Nat.lt_succ_self _)
  exact run_mono (fun _ _ _ h => congrArg some (within_eq_read h).symm) hread

theorem read_suffix (p : Procedure α) (ts : List Token) : (p.read ts).2 <:+ ts :=
  within_suffix (within_of_weight_lt (Nat.lt_succ_self _))

theorem read_leaves {a : α} (h : p.read ts = (.ok a, us)) : p.Leaves ts us :=
  within_leaves ((within_of_weight_lt (Nat.lt_succ_self _)).trans (congrArg some h))

-- Where there is no keyword to pass over, `return` ends with nothing taken.
example : Procedure.returnStatement.read [] = (.ok (.return []), []) := rfl

end

end LuaSyntax.Descent
