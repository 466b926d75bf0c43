import LuaSyntax.Proofs.Completion
import LuaSyntax.Proofs.Descent.Progress

/-!
Reading from the top down against the states of the parser. Where a procedure is called, the parser
is in a state that waits for its phrase, and after the call in the state behind the phrase. What the
parser makes of all the tokens is the same value all along; it is followed through the scripts.
-/
namespace LuaSyntax.Descent

open ParserState

/-! ### The parser from some state on -/

/-- The kind of the next token. -/
def nextKind (ts : List Token) : Option TokenKind := ts.head?.map Token.kind

/-- What comes of these tokens from this state on. -/
def parseFrom (s : ParserState) (ts : List Token) : Parsing Program := s.runToEnd .equal ts

/-- The same where the next token, which has to be there, leads to a state. -/
def parseNext (f : Token → Parsing ParserState) : List Token → Parsing Program
  | [] => .error .unexpectedEnd
  | t :: ts => (f t).bind (parseFrom · ts)

section

variable {s s' : ParserState} {t : Token} {ts : List Token} {e : SyntaxError}

theorem parseFrom_cons (s : ParserState) (t : Token) (ts : List Token) :
    parseFrom s (t :: ts) = (s.feed .equal t).bind (parseFrom · ts) := by
  rw [parseFrom, runToEnd, run_cons]
  cases s.feed .equal t <;> rfl

/-- A settled state in which no program ends waits for a token. -/
theorem parseFrom_eq_parseNext (h : settle .equal (nextKind ts) s = .ok s')
    (hs' : s'.result = .error .unexpectedEnd) :
    parseFrom s ts = parseNext (fun t => shift t s') ts := by
  cases ts with
  | nil => exact (finish_eq h).trans hs'
  | cons t ts => rw [parseFrom_cons, feed_eq h, parseNext]

theorem parseFrom_congr (h : settle .equal (nextKind ts) s = settle .equal (nextKind ts) s') :
    parseFrom s ts = parseFrom s' ts := runToEnd_congr h

theorem parseFrom_of_settle (h : settle .equal (nextKind ts) s = .ok s')
    (hs' : settle .equal (nextKind ts) s' = .ok s') : parseFrom s ts = parseFrom s' ts :=
  parseFrom_congr (h.trans hs'.symm)

theorem parseFrom_of_settle_error (h : settle .equal (nextKind ts) s = .error e) :
    parseFrom s ts = .error e := by
  cases ts with
  | nil => exact finish_eq_error.mpr (.inl h)
  | cons t ts => rw [parseFrom_cons, feed_eq_error.mpr (.inl h)]; rfl

theorem nextKind_eq_some {kind : TokenKind} (h : nextKind ts = some kind) :
    ∃ t us, ts = t :: us ∧ t.kind = kind := by
  cases ts with
  | nil => cases h
  | cons t us => exact ⟨t, us, rfl, Option.some_inj.mp h⟩

/-- What a token that is not there would lead to does not matter. -/
theorem parseNext_of_ne {kind : TokenKind} {f g : Token → Parsing ParserState}
    (h : nextKind ts ≠ some kind) :
    parseNext (fun t => if t.kind = kind then f t else g t) ts = parseNext g ts := by
  cases ts with
  | nil => rfl
  | cons t us =>
    have hne : t.kind ≠ kind := fun ht => h (congrArg some ht)
    rw [parseNext, parseNext, if_neg hne]

theorem parseNext_of_ok {f : Token → Parsing ParserState} (h : f t = .ok s) (us : List Token) :
    parseNext f (t :: us) = parseFrom s us := by
  rw [parseNext, h]; rfl

theorem parseFrom_of_feed (h : s.feed .equal t = .ok s') (us : List Token) :
    parseFrom s (t :: us) = parseFrom s' us := by
  rw [parseFrom_cons, h]; rfl

/-- A token that a state is settled before. -/
theorem parseFrom_of_shift (hs : settle .equal (some t.kind) s = .ok s)
    (h : shift t s = .ok s') (us : List Token) : parseFrom s (t :: us) = parseFrom s' us :=
  parseFrom_of_feed ((feed_eq hs).trans h) us

end

/-! ### Where the procedures are called -/

/-- No operator goes on with what has been read. -/
def NoOperator (next : Option TokenKind) : Prop := next.bind BinaryOp.ofToken? = none

/-- Every operator binds too loosely to take an operand that stands behind this limit. -/
def Looser (limit : Nat) (next : Option TokenKind) : Prop :=
  ∀ op ∈ next.bind BinaryOp.ofToken?, op.leftPriority ≤ limit

/-- No suffix goes on with what has been read. -/
def NoSuffix (next : Option TokenKind) : Prop := next.any TokenKind.extendsChain = false

/-- The next token is no such symbol. -/
def Lacks (y : Symbol) (next : Option TokenKind) : Prop := next ≠ some (.symbol y)

section

variable {α : Type}

/-- The answer `x` comes from a state before a phrase, and `G` holds where it comes from the state
after it. -/
structure Passes (x : Parsing Program) (ts : List Token) (s : ParserState) (next : α → ParserState)
    (G : α → List Token → Prop) : Prop where
  start : x = parseFrom s ts
  finish : ∀ a us, x = parseFrom (next a) us → G a us

/-- The same for a phrase that only ends before some kinds of tokens. -/
structure PassesUntil (stop : Option TokenKind → Prop) (x : Parsing Program) (ts : List Token)
    (s : ParserState) (next : α → ParserState) (G : α → List Token → Prop) : Prop where
  start : x = parseFrom s ts
  finish : ∀ a us, stop (nextKind us) → x = parseFrom (next a) us → G a us

/-- What comes after a name, and that a comma goes on with one more. -/
def TakesNames (after : List String → ParserState) : Prop :=
  ∀ ns t ts, t.kind = .symbol .comma →
    parseFrom (after ns) (t :: ts) = parseNext (fun t => t.expect .name (after (ns ++ [t.text]))) ts

end

/-- The state after the body of a function. -/
def headState (f : FunctionBody) : FunctionHead → ParserState
  | .definition isLocal path k => .statement (k.push (.definition isLocal path f.params f.body))
  | .anonymous k => .operator (.function f.params f.body) k

/-- The state after a table. -/
def tableState (e : Expr) : TableContext → ParserState
  | .operand k => .operator e k
  | .argument f k => .suffix (.call f [e]) k

/-- The answer `x` comes from a state in which the procedure's phrase may start, with these tokens
ahead, and `G` holds for what the procedure may read and leave. A statement's keyword has been read
in that state. -/
def Procedure.Enters (x : Parsing Program) (ts : List Token) :
    {α : Type} → Procedure α → (α → List Token → Prop) → Prop
  | _, .program, G => x = parse ts ∧ ∀ ss us, x = .ok ss → G ss us
  | _, .statements, G => ∃ w, Passes x ts (.enter w) (fun ss => .closed (.block ss w)) G
  | _, .returnStatement, G => ∃ k, nextKind ts = some (.keyword .return) ∧
      Passes x ts.tail (.returning k) (fun s => .closed (k.push s)) G
  | _, .ifStatement, G => ∃ k, nextKind ts = some (.keyword .if) ∧
      Passes x ts.tail (.operand (.ifCond [] k)) (fun s => .statement (k.push s)) G
  | _, .ifArm, G => ∃ arms k, Passes x ts (.operand (.ifCond arms k))
      (fun s => .statement (k.append (conditional arms [s]))) G
  | _, .whileStatement, G => ∃ k, nextKind ts = some (.keyword .while) ∧
      Passes x ts.tail (.operand (.whileCond k)) (fun s => .statement (k.push s)) G
  | _, .repeatStatement, G => ∃ k, nextKind ts = some (.keyword .repeat) ∧
      Passes x ts.tail (.enter (.repeat k)) (fun s => .statement (k.push s)) G
  | _, .doStatement, G => ∃ k, nextKind ts = some (.keyword .do) ∧
      Passes x ts.tail (.enter (.block k)) (fun s => .statement (k.push s)) G
  | _, .localStatement, G => ∃ k, nextKind ts = some (.keyword .local) ∧
      Passes x ts.tail (.firstLocal k) (fun s => .statement (k.push s)) G
  | _, .forStatement, G => ∃ k, nextKind ts = some (.keyword .for) ∧
      Passes x ts.tail (.forVariable k) (fun s => .statement (k.push s)) G
  | _, .numericFor name, G =>
    ∃ k, Passes x ts (.operand (.forStart name k)) (fun s => .statement (k.push s)) G
  | _, .genericFor name, G =>
    ∃ k, Passes x ts (.afterForName [name] k) (fun s => .statement (k.push s)) G
  | _, .functionStatement, G => ∃ k, nextKind ts = some (.keyword .function) ∧
      Passes x ts.tail (.functionName false k) (fun s => .statement (k.push s)) G
  | _, .function, G => ∃ isLocal k, Passes x ts (.functionName isLocal k)
      (fun f => headState f.body (.definition isLocal f.path k)) G
  | _, .functionPath, G => ∃ isLocal k, Passes x ts (.functionName isLocal k)
      (fun path => .parameterList (.definition isLocal path k)) G
  | _, .functionBody, G => ∃ h, Passes x ts (.parameterList h) (fun f => headState f h) G
  | _, .parameters, G => ∃ h, Passes x ts (.parameterList h) (enterFunction h) G
  | _, .assignOrCall, G => ∃ k : BlockContext,
      x = parseNext (fun t => startChain t (.statement t.line k)) ts ∧
        ∀ s us, x = parseFrom (.statement (k.push s)) us → G s us
  | _, .assignment first line, G => ∃ k : BlockContext,
      x = (addTarget first [] line k).bind (parseFrom · ts) ∧
        ∀ s us, x = parseFrom (.statement (k.push s)) us → G s us
  | _, .values, G => ∃ k, ListsExprs .equal k ∧ x = parseFrom (.operand (k [])) ts ∧
      ∀ front e us, NoOperator (nextKind us) → Lacks .comma (nextKind us) →
        x = parseFrom (.operator e (k front)) us → G (front ++ [e]) us
  | _, .expr, G => ∃ k, k.isOperator = false ∧
      PassesUntil NoOperator x ts (.operand k) (fun e => .operator e k) G
  | _, .subexpr limit, G => ∃ k, k.limit = limit ∧
      PassesUntil (Looser limit) x ts (.operand k) (fun e => .operator e k) G
  | _, .simpleExpr, G => ∃ k, nextKind ts ≠ some (.symbol .minus) ∧
      nextKind ts ≠ some (.keyword .not) ∧ Passes x ts (.operand k) (fun e => .operator e k) G
  | _, .chain, G => ∃ k, x = parseNext (startChain · k) ts ∧
      ∀ c us, NoSuffix (nextKind us) → x = parseFrom (.suffix c k) us → G c us
  | _, .suffixes c, G => ∃ k, PassesUntil NoSuffix x ts (.suffix c k) (fun c => .suffix c k) G
  | _, .table, G => ∃ k, Passes x ts (.entry [] k) (fun e => tableState e k) G
  | _, .entry, G => ∃ es k, Lacks .closeBrace (nextKind ts) ∧ x = parseFrom (.entry es k) ts ∧
      ∀ key e us, NoOperator (nextKind us) → x = parseFrom (.operator e (.entryValue es key k)) us →
        G (.entry key e) us
  | _, .arguments, G =>
    ∃ f k, Passes x ts (.firstArgument f k) (fun es => .suffix (.call f es) k) G
  | _, .loop .statements ss, G =>
    ∃ w, Passes x ts (.statement (.block ss w)) (fun ss => .closed (.block ss w)) G
  | _, .loop (.operators limit) e, G => ∃ k, k.limit = limit ∧
      PassesUntil (Looser limit) x ts (.operator e k) (fun e => .operator e k) G
  | _, .loop .suffixes c, G =>
    ∃ k, PassesUntil NoSuffix x ts (.suffix c k) (fun c => .suffix c k) G
  | _, .loop .entries es, G => ∃ k, x = parseFrom (.entry es k) ts ∧
      ∀ es us, x = parseNext (fun t => t.expectSymbol .closeBrace (closeTable es k)) us → G es us
  | _, .loop .values es, G => ∃ k front e, es = front ++ [e] ∧ ListsExprs .equal k ∧
      NoOperator (nextKind ts) ∧ x = parseFrom (.operator e (k front)) ts ∧
      ∀ front e us, NoOperator (nextKind us) → Lacks .comma (nextKind us) →
        x = parseFrom (.operator e (k front)) us → G (front ++ [e]) us
  | _, .loop .targets xs, G => ∃ k, PassesUntil (Lacks .comma) x ts (.afterTarget xs k)
      (fun xs => .afterTarget xs k) G
  | _, .loop .names ns, G => ∃ after, TakesNames after ∧
      PassesUntil (Lacks .comma) x ts (after ns) after G
  | _, .loop .segments path, G => ∃ isLocal k, PassesUntil (Lacks .dot) x ts
      (.functionPath isLocal path k) (fun path => .functionPath isLocal path k) G

/-! ### Following a script -/

/-- A procedure fails with the error that is the answer, or `G` holds for how it ends. -/
def Outcome.Leads {α : Type} (x : Parsing Program) (G : α → List Token → Prop) :
    Outcome α → Prop
  | (.ok a, us) => G a us
  | (.error e, _) => x = .error e

/-- All calls of the script are made where their phrases may start, and it fails with the error that
is the answer or ends so. -/
def Script.Follows (x : Parsing Program) {α : Type} (G : α → List Token → Prop) :
    Script α → List Token → Prop
  | done a, ts => G a ts
  | fail e, _ => x = .error e
  | look k, ts => (k ts.head?).Follows x G ts
  | take k, ts => (k ts.head?).Follows x G ts.tail
  | invoke p k, ts => p.Enters x ts fun b us => (k b).Follows x G us

/-- A round leaves a loop where it goes on, or where it ends. -/
def Loop.Goes {σ : Type} (l : Loop σ) (x : Parsing Program) (G : σ → List Token → Prop) :
    Round σ → List Token → Prop
  | .again s, us => (Procedure.loop l s).Enters x us G
  | .done s, us => G s us

/-- What answers as the parser does, if at all. -/
def Callee.Agrees (answer : Callee) : Prop :=
  ∀ ⦃α : Type⦄ (p : Procedure α) ts o x G, answer p ts = some o → p.Enters x ts G → o.Leads x G

section

variable {α β : Type} {x : Parsing Program} {ts : List Token} {G : α → List Token → Prop}

theorem Script.Follows.run {answer : Callee} {m : Script α} {o : Outcome α}
    (h : m.Follows x G ts) (hanswer : Callee.Agrees answer) (hrun : m.run answer ts = some o) :
    o.Leads x G := by
  induction m generalizing ts with
  | done a => cases hrun; exact h
  | fail e => cases hrun; exact h
  | look k ih => exact ih _ h hrun
  | take k ih => exact ih _ h hrun
  | invoke p k ih =>
    rw [Script.run] at hrun
    split at hrun
    case h_1 b us hp => exact ih b (hanswer p ts _ x _ hp h) hrun
    case h_2 e us hp => cases hrun; exact hanswer p ts _ x _ hp h
    case h_3 => cases hrun

theorem follows_bind {f : β → Script α} (m : Script β) (ts : List Token) :
    (m >>= f).Follows x G ts ↔ m.Follows x (fun b us => (f b).Follows x G us) ts := by
  change (m.bind f).Follows x G ts ↔ _
  induction m generalizing ts with
  | done b => rfl
  | fail e => rfl
  | look k ih => exact ih _ ts
  | take k ih => exact ih _ ts.tail
  | invoke p k ih =>
    refine iff_of_eq (congrArg (p.Enters x ts) ?_)
    exact funext fun b => funext fun us => propext (ih b us)

/-- A procedure is called in a state that its phrase may start in. -/
theorem follows_call {p : Procedure β} {f : β → Script α}
    (h : p.Enters x ts fun b us => (f b).Follows x G us) : (call p >>= f).Follows x G ts := h

theorem follows_loop {l : Loop α} {a : α} (h : (l.round a).Follows x (l.Goes x G) ts) :
    (loop l a).Follows x G ts := by
  refine (follows_bind _ ts).mpr ?_
  refine Eq.mpr (congrArg (fun H => (l.round a).Follows x H ts) ?_) h
  funext r us
  cases r <;> rfl

theorem follows_peekKind {f : Option TokenKind → Script α} :
    (peekKind >>= f).Follows x G ts ↔ (f (nextKind ts)).Follows x G ts := Iff.rfl

theorem follows_skip {f : Unit → Script α} :
    (skip >>= f).Follows x G ts ↔ (f ()).Follows x G ts.tail := Iff.rfl

theorem follows_nextToken {f : Token → Script α} {step : Token → Parsing ParserState}
    (hx : x = parseNext step ts)
    (hf : ∀ t us, ts = t :: us → x = (step t).bind (parseFrom · us) → (f t).Follows x G us) :
    (nextToken >>= f).Follows x G ts := by
  cases ts with
  | nil => exact hx
  | cons t us => exact hf t us rfl hx

theorem follows_expect {kind : TokenKind} {f : Token → Script α} {s : Token → ParserState}
    (hx : x = parseNext (fun t => t.expect kind (s t)) ts)
    (hf : ∀ t us, x = parseFrom (s t) us → (f t).Follows x G us) :
    (expect kind >>= f).Follows x G ts := by
  refine (follows_bind _ ts).mpr (follows_nextToken hx fun t us _ hx => ?_)
  unfold Token.expect at hx
  split
  case isTrue h => exact hf t us (by rw [hx, if_pos h]; rfl)
  case isFalse h => exact (by rw [hx, if_neg h]; rfl : x = .error _)

theorem follows_expectName {f : String → Script α} {s : String → ParserState}
    (hx : x = parseNext (fun t => t.expect .name (s t.text)) ts)
    (hf : ∀ n us, x = parseFrom (s n) us → (f n).Follows x G us) :
    (expectName >>= f).Follows x G ts := by
  refine (follows_bind _ ts).mpr ?_
  exact follows_expect (s := fun t => s t.text) hx fun t us hx => hf t.text us hx

theorem follows_tryPop {kind : TokenKind} {f : Option Token → Script α}
    (hpop : ∀ t us, ts = t :: us → t.kind = kind → (f (some t)).Follows x G us)
    (hleave : nextKind ts ≠ some kind → (f none).Follows x G ts) :
    (tryPop kind >>= f).Follows x G ts := by
  refine (follows_bind _ ts).mpr ?_
  change Script.Follows x _ (if nextKind ts = some kind then next else pure none) ts
  split
  case isTrue h =>
    cases ts with
    | nil => cases h
    | cons t us => exact hpop t us rfl (Option.some_inj.mp h)
  case isFalse h => exact hleave h

end

end LuaSyntax.Descent
