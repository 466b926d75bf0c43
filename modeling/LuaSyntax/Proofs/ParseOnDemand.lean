import LuaSyntax.Proofs.FirstError
import LuaSyntax.Proofs.OnDemand

/-!
Parsing on demand. A parse that asks for one token after the other ends as the parse of the whole
token list does, and it has asked for no more than the token that does not fit; so it reports the
errors up to there, and all of them if every token fits.
-/
namespace LuaSyntax

/-- What a lexer of the source gives and a parse of it reports, against its whole token list. -/
structure ReadsOnDemand (source : String) (log : Log) : Prop where
  /-- The lexer gives the tokens in turn, and then nothing for ever. -/
  tokens (n : Nat) : ((Lexer.start source log).pull n).1 =
    ((tokenize source).take n).map some ++ List.replicate (n - (tokenize source).length) none
  /-- Once it has given nothing all is reported, and asking again changes nothing. -/
  at_end (n : Nat) (x : Lexer) : (tokenize source).length < n →
    ((Lexer.start source log).pull n).2 = x →
    x.log = log.reportAll (diagnose source) ∧ x.next = (none, x)
  result : (parseInto log source).1 = parse (tokenize source)
  reported : ∃ ds, ds <+: diagnose source ∧ (parseInto log source).2 = log.reportAll ds
  /-- A parse that comes to the end of the source reports all. -/
  complete : (∃ p, (parseInto log source).1 = .ok p) ∨
      (parseInto log source).1 = .error .unexpectedEnd →
    (parseInto log source).2 = log.reportAll (diagnose source)
  /-- One that fails at a token reports what the lexer has when it gives that token, which is the
  first that no continuation of the ones before it can have in its place. -/
  offending (e : SyntaxError) (line : Nat) (text : String) : (parseInto log source).1 = .error e →
    e.offender? = some (line, text) →
    ∃ i t, (tokenize source)[i]? = some t ∧ t.line = line ∧ t.text = text ∧
      (∃ ys p, parseWith .any ((tokenize source).take i ++ ys) = .ok p) ∧
      (∀ us, (tokenize source).take (i + 1) <+: us → parse us = .error e) ∧
      (parseInto log source).2 = ((Lexer.start source log).pull (i + 1)).2.log

namespace ParserState

variable {s s' : ParserState} {x y : Lexer} {t : Token} {e : SyntaxError} {i : Nat}

theorem readFrom_of_none (h : x.next = (none, y)) : s.readFrom x = (s.finish .equal, y) := by
  rw [readFrom]
  split <;> simp_all

theorem readFrom_of_error (h : x.next = (some t, y)) (hfeed : s.feed .equal t = .error e) :
    s.readFrom x = (.error e, y) := by
  rw [readFrom]
  split <;> simp_all

theorem readFrom_of_ok (h : x.next = (some t, y)) (hfeed : s.feed .equal t = .ok s') :
    s.readFrom x = s'.readFrom y := by
  rw [readFrom]
  split <;> simp_all

/-- A parse that all the tokens fit has asked once more than there are tokens. -/
theorem readFrom_of_run_ok (h : s.run .equal x.tokens = .ok s') :
    s.readFrom x = (s'.finish .equal, (x.pull (x.tokens.length + 1)).2) := by
  generalize hts : x.tokens = ts at h ⊢
  induction ts generalizing s x with
  | nil =>
    obtain rfl : s = s' := Except.ok.inj h
    have hnext := Lexer.next_of_tokens_nil hts
    rw [readFrom_of_none hnext, List.length_nil, Lexer.pull_succ, hnext]
    rfl
  | cons t ts ih =>
    obtain ⟨s₁, hfeed, hrun⟩ := run_cons_eq_ok.mp h
    obtain ⟨y, hnext, hrest⟩ := Lexer.next_of_tokens_cons hts
    rw [readFrom_of_ok hnext hfeed, ih hrest hrun, List.length_cons, Lexer.pull_succ _ x, hnext]

/-- A parse that some token does not fit has asked up to this token. -/
theorem readFrom_of_feed_error (ht : x.tokens[i]? = some t)
    (h : s.run .equal (x.tokens.take i) = .ok s') (hfeed : s'.feed .equal t = .error e) :
    s.readFrom x = (.error e, (x.pull (i + 1)).2) := by
  generalize hts : x.tokens = ts at ht h
  induction i generalizing s x ts with
  | zero =>
    obtain ⟨us, rfl⟩ := List.head?_eq_some_iff.mp ((List.head?_eq_getElem?).trans ht)
    obtain rfl : s = s' := Except.ok.inj h
    obtain ⟨y, hnext, -⟩ := Lexer.next_of_tokens_cons hts
    rw [readFrom_of_error hnext hfeed, Lexer.pull_succ, hnext]
    rfl
  | succ i ih =>
    cases ts with
    | nil => cases ht
    | cons u ts =>
      obtain ⟨s₁, hfirst, hrun⟩ := run_cons_eq_ok.mp h
      obtain ⟨y, hnext, hrest⟩ := Lexer.next_of_tokens_cons hts
      rw [readFrom_of_ok hnext hfirst, Lexer.pull_succ, hnext]
      exact ih ts hrest (by simpa using ht) hrun

end ParserState

open ParserState

variable {source : String} {log : Log}

theorem log_pull_start (n : Nat) : ((Lexer.start source log).pull n).2.log =
    log.reportAll (diagnosticsOf (throughToken n (sourcePieces source))) := by
  rw [Lexer.pull_eq]
  rfl

theorem log_pull_all {n : Nat} (h : (tokenize source).length < n) :
    ((Lexer.start source log).pull n).2.log = log.reportAll (diagnose source) := by
  rw [log_pull_start, throughToken_of_lt h, diagnose]

/-- A parse reads all the tokens, or up to the one that does not fit. -/
theorem parseInto_cases (source : String) (log : Log) :
    (∃ s, ParserState.start.run .equal (tokenize source) = .ok s ∧
      parseInto log source = (s.finish .equal, log.reportAll (diagnose source))) ∨
    ∃ i t s e, (tokenize source)[i]? = some t ∧
      ParserState.start.run .equal ((tokenize source).take i) = .ok s ∧
      s.feed .equal t = .error e ∧
      parseInto log source = (.error e, ((Lexer.start source log).pull (i + 1)).2.log) := by
  rw [← Lexer.tokens_start source log]
  cases h : ParserState.start.run .equal (Lexer.start source log).tokens with
  | ok s =>
    have hall : ((Lexer.start source log).pull ((tokenize source).length + 1)).2.log =
        log.reportAll (diagnose source) := log_pull_all (Nat.lt_succ_self _)
    refine .inl ⟨s, rfl, ?_⟩
    rw [parseInto, readFrom_of_run_ok h]
    exact congrArg (s.finish .equal, ·) hall
  | error e =>
    obtain ⟨i, t, s, ht, htake, hfeed⟩ := exists_of_run_error h
    refine .inr ⟨i, t, s, e, ht, htake, hfeed, ?_⟩
    rw [parseInto, readFrom_of_feed_error ht htake hfeed]

theorem result_parseInto (source : String) (log : Log) :
    (parseInto log source).1 = parse (tokenize source) := by
  rcases parseInto_cases source log with ⟨s, hrun, hparse⟩ | ⟨i, t, s, e, ht, htake, hfeed, hparse⟩
  · rw [hparse, parse, parseWith, hrun]
    rfl
  · have hfails := run_error_of_take ht htake hfeed (List.take_prefix _ _)
    rw [hparse, parse, parseWith_eq_error.mpr (.inl hfails)]

theorem readsOnDemand (source : String) (log : Log) : ReadsOnDemand source log where
  tokens n := by
    rw [Lexer.pull_eq]
    exact takeTokens_eq n _
  at_end n x hn hx := by
    subst hx
    have hall : throughToken n (sourcePieces source) = sourcePieces source := throughToken_of_lt hn
    have hend : (Lexer.start source log).passAll (sourcePieces source) =
        ((Lexer.start source log).pull n).2 := by
      rw [Lexer.pull_eq, Lexer.pieces_start, hall]
    refine ⟨log_pull_all hn, ?_⟩
    rw [← hend]
    exact Lexer.next_of_passAll_pieces _
  result := result_parseInto source log
  reported := by
    rcases parseInto_cases source log with ⟨s, -, hparse⟩ | ⟨i, t, s, e, -, -, -, hparse⟩
    · exact ⟨diagnose source, List.prefix_rfl, congrArg Prod.snd hparse⟩
    · have hread := throughToken_prefix (i + 1) (sourcePieces source)
      exact ⟨_, diagnosticsOf_prefix hread, by rw [hparse, log_pull_start]⟩
  complete h := by
    rcases parseInto_cases source log with ⟨s, -, hparse⟩ | ⟨i, t, s, e, -, -, hfeed, hparse⟩
    · rw [hparse]
    · rw [hparse] at h
      rcases h with ⟨p, hp⟩ | hend
      · cases hp
      · obtain rfl := Except.error.inj hend
        exact absurd hfeed feed_ne_unexpectedEnd
  offending e line text h hoffender := by
    rcases parseInto_cases source log with ⟨s, -, hparse⟩ | ⟨i, t, s, f, ht, htake, hfeed, hparse⟩
    · have hfinish : s.finish .equal = .error e := by rw [← h, hparse]
      simp [offender_of_finish_error hfinish] at hoffender
    · obtain rfl : f = e := Except.error.inj (by rw [← h, hparse])
      obtain ⟨hline, htext⟩ := Prod.mk.inj (offender_of_feed_error hfeed hoffender)
      refine ⟨i, t, ht, hline, htext, exists_completion htake, fun us hus => ?_, by rw [hparse]⟩
      exact parseWith_eq_error.mpr (.inl (run_error_of_take ht htake hfeed hus))

/-- The second sign of `x = = $` does not fit, and what stands behind it is not reported. -/
theorem readsOnDemand_second_assign :
    parseInto .empty "x = = $" = (.error (.unexpected 1 "="), .empty) ∧
      diagnose "x = = $" = [⟨.illegalCharacter '$', 1⟩] := by
  have hreads := readsOnDemand "x = = $" .empty
  have hresult : (parseInto .empty "x = = $").1 = .error (.unexpected 1 "=") :=
    hreads.result.trans rfl
  obtain ⟨i, t, ht, -, -, -, -, hlog⟩ := hreads.offending _ _ _ hresult rfl
  obtain ⟨hi, -⟩ := List.getElem?_eq_some_iff.mp ht
  have hlength : (tokenize "x = = $").length = 3 := by decide
  have hempty : ((Lexer.start "x = = $" .empty).pull (i + 1)).2.log = .empty := by
    rw [log_pull_start]
    obtain rfl | rfl | rfl : i = 0 ∨ i = 1 ∨ i = 2 := by omega
    all_goals decide
  exact ⟨Prod.ext hresult (hlog.trans hempty), by decide⟩

end LuaSyntax
