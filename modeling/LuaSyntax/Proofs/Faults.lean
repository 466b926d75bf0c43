import LuaSyntax.Proofs.AssignmentError
import LuaSyntax.Proofs.Contents

/-!
Tokens with the same contents are parsed alike. Where two token lists agree in their kinds and in
the texts of names and strings, a parse of either gives the same program, or fails with the same
error about the token in the same place.
-/
namespace LuaSyntax

open ParserState

/-- A syntax error with the place of a token instead of the token. -/
inductive Fault
  | unexpected (place : Nat)
  | expected (place : Nat) (kind : TokenKind)
  | unexpectedEnd
  | invalidTarget (place : Nat)
  | arity (place targets values : Nat)

def SyntaxError.faultAt (place : Nat) : SyntaxError → Fault
  | unexpected _ _ => .unexpected place
  | expected _ _ kind => .expected place kind
  | unexpectedEnd => .unexpectedEnd
  | invalidTarget _ => .invalidTarget place
  | arity _ targets values => .arity place targets values

/-- The tokens before the place can go on to a program if it is not checked how many values are
assigned, and with the token there they all fail as these do. -/
structure Offends (ts : List Token) (place : Nat) : Prop where
  completion : ∃ us p, parseWith .any (ts.take place ++ us) = .ok p
  fails : ∀ us, ts.take (place + 1) <+: us → parse us = parse ts

/-- Tokens fail with the error because of the fault: a token does not fit, or an assignment that
they have is wrong. The error has the line of the token in that place. -/
inductive Fault.Causes (ts : List Token) : Fault → SyntaxError → Prop
  | unexpected {i : Nat} {t : Token} :
      ts[i]? = some t → Offends ts i → Causes ts (.unexpected i) (.unexpected t.line t.text)
  | expected {i : Nat} {t : Token} {kind : TokenKind} :
      ts[i]? = some t → Offends ts i → Causes ts (.expected i kind) (.expected t.line t.text kind)
  | unexpectedEnd : Causes ts .unexpectedEnd .unexpectedEnd
  | invalidTarget {i : Nat} {t : Token} {read rest : List Token} :
      ts[i]? = some t → ts = read ++ rest →
      Misassigns (rest.head?.map Token.kind) read i (.invalidTarget t.line) →
      Causes ts (.invalidTarget i) (.invalidTarget t.line)
  | arity {i targets values : Nat} {t : Token} {read rest : List Token} :
      ts[i]? = some t → ts = read ++ rest →
      Misassigns (rest.head?.map Token.kind) read i (.arity t.line targets values) →
      Causes ts (.arity i targets values) (.arity t.line targets values)

/-- However the tokens are relabeled, they fail with the error because of the fault. -/
def Fault.Persists (x : Fault) (ts : List Token) (e : SyntaxError) : Prop :=
  ∀ f : Relabeling, (∀ t ∈ ts, t.Keeps f) →
    x.Causes (ts.map (Token.relabel f)) (e.relabel f)

variable {f : Relabeling} {xs : List Expr} {ts us : List Token} {s : ParserState} {e : SyntaxError}
  {next : Option TokenKind} {i : Nat}

theorem SyntaxError.faultAt_relabel (f : Relabeling) (e : SyntaxError) (i : Nat) :
    (e.relabel f).faultAt i = e.faultAt i := by
  cases e <;> rfl

theorem offends_of_feed_error {t : Token} (ht : ts[i]? = some t)
    (hrun : ParserState.start.run .equal (ts.take i) = .ok s) (herr : s.feed .equal t = .error e) :
    Offends ts i where
  completion := exists_completion hrun
  fails us hus := by
    have hfails : ∀ vs, ts.take (i + 1) <+: vs → parse vs = .error e := fun vs hvs =>
      parseWith_eq_error.mpr (.inl (run_error_of_take ht hrun herr hvs))
    rw [hfails us hus, hfails ts (List.take_prefix _ _)]

theorem persists_of_feed_error {t : Token} {y : Nat × String} (ht : ts[i]? = some t)
    (hrun : ParserState.start.run .equal (ts.take i) = .ok s) (herr : s.feed .equal t = .error e)
    (he : e.offender? = some y) : (e.faultAt i).Persists ts e := by
  obtain rfl := offender_of_feed_error herr he
  have hplace (f : Relabeling) (hf : ∀ t ∈ ts, t.Keeps f) :
      (ts.map (Token.relabel f))[i]? = some (t.relabel f) ∧
        Offends (ts.map (Token.relabel f)) i := by
    have hkeeps : ∀ t ∈ ts.take i, t.Keeps f := fun t h => hf t (List.mem_of_mem_take h)
    have htake := run_relabel (f := ⟨f, []⟩) .equal hkeeps .start
    have hfeed := feed_relabel (f := ⟨f, []⟩) .equal (hf t (List.mem_of_getElem? ht)) s
    rw [hrun, List.map_take] at htake
    rw [herr] at hfeed
    have hi : (ts.map (Token.relabel f))[i]? = some (t.relabel f) := by
      rw [List.getElem?_map, ht]
      rfl
    exact ⟨hi, offends_of_feed_error hi htake hfeed⟩
  intro f hf
  rw [← SyntaxError.faultAt_relabel f]
  cases e with
  | unexpected line text =>
    cases he
    exact .unexpected (hplace f hf).1 (hplace f hf).2
  | expected line text kind =>
    cases he
    exact .expected (hplace f hf).1 (hplace f hf).2
  | _ => cases he

theorem StatementPosition.relabel (hts : ∀ t ∈ ts, t.Keeps f) (h : StatementPosition ts us) :
    StatementPosition (ts.map (Token.relabel f)) (us.map (Token.relabel f)) := by
  obtain ⟨k, o, hlead, hl⟩ := h
  exact ⟨_, o, hlead.relabel hts, hl.map fun _ => rfl⟩

theorem Assigned.relabel (hts : ∀ t ∈ ts, t.Keeps f) (h : Assigned xs ts) :
    Assigned xs (ts.map (Token.relabel f)) := by
  cases h with
  | targets hxs => exact .targets (hxs.relabel hts)
  | names hl hns => exact .names hl (hns.relabel (List.forall_mem_cons.mp hts).2)

theorem Misassigns.relabel (hts : ∀ t ∈ ts, t.Keeps f) (h : Misassigns next ts i e) :
    Misassigns next (ts.map (Token.relabel f)) i (e.relabel f) := by
  cases h with
  | arity hpos hxs ha hes hnext hcomma htargets hvalues hne =>
    have harity := Misassigns.arity (hpos.relabel fun t ht => hts t (by simp [ht]))
      (hxs.relabel fun t ht => hts t (by simp [ht])) (a := Token.relabel f _) ha
      (hes.relabel fun t ht => hts t (by simp [ht])) hnext hcomma htargets hvalues hne
    rw [List.length_map, List.length_map] at harity
    exact harity.of_eq (by simp)
  | firstTarget hpos hc hnext hx =>
    have hchain := hc.relabel fun t ht => hts t (List.mem_append_right _ ht)
    have hfirst := Misassigns.firstTarget (hpos.relabel fun t ht => hts t (by simp [ht])) hchain
      hnext hx
    rw [List.length_map] at hfirst
    exact hfirst.of_eq (by simp)
  | laterTarget hpos hxs hcomma hc hnext hx =>
    have hchain := hc.relabel fun t ht => hts t
      (List.mem_append_right _ (List.mem_append_right _ (List.mem_cons_of_mem _ ht)))
    have hlater := Misassigns.laterTarget (hpos.relabel fun t ht => hts t (by simp [ht]))
      (hxs.relabel fun t ht => hts t (by simp [ht])) (d := Token.relabel f _) hcomma hchain
      hnext hx
    rw [List.length_map, List.length_map] at hlater
    exact hlater.of_eq (by simp)

theorem Misassigns.exists_token (h : Misassigns next ts i e) : ∃ t, ts[i]? = some t ∧
    (e = .invalidTarget t.line ∨ ∃ targets values, e = .arity t.line targets values) := by
  cases h with
  | @arity _ _ _ a => exact ⟨a, by simp, .inr ⟨_, _, rfl⟩⟩
  | @firstTarget _ _ t => exact ⟨t, by simp, .inl rfl⟩
  | @laterTarget _ _ _ t => exact ⟨t, by simp, .inl rfl⟩

theorem Misassigns.causes (h : Misassigns (us.head?.map Token.kind) ts i e) :
    (e.faultAt i).Causes (ts ++ us) e := by
  obtain ⟨t, ht, he⟩ := h.exists_token
  have hi : i < ts.length := (List.getElem?_eq_some_iff.mp ht).1
  have hplace : (ts ++ us)[i]? = some t := by rw [List.getElem?_append_left hi, ht]
  rcases he with rfl | ⟨targets, values, rfl⟩
  · exact .invalidTarget hplace rfl h
  · exact .arity hplace rfl h

theorem Misassigns.persists (h : Misassigns (us.head?.map Token.kind) ts i e) :
    (e.faultAt i).Persists (ts ++ us) e := by
  intro f hf
  have hrelabel := h.relabel fun t ht => hf t (List.mem_append_left _ ht)
  have hkinds : (us.map (Token.relabel f)).head?.map Token.kind = us.head?.map Token.kind := by
    rw [List.head?_map, Option.map_map]
    rfl
  rw [← hkinds] at hrelabel
  rw [List.map_append, ← SyntaxError.faultAt_relabel f]
  exact hrelabel.causes

/-- The fault of a parse does not depend on lines, nor on the texts that mean nothing. -/
theorem exists_persists (h : parse ts = .error e) : ∃ x : Fault, x.Persists ts e := by
  cases hassign : e.inAssignment with
  | true =>
    obtain ⟨read, rest, s, rfl, hrun, hs⟩ := exists_settle_error h hassign
    obtain ⟨i, hi⟩ := misassigns_settle (leads_run leads_start hrun) hs
    exact ⟨_, hi.persists⟩
  | false =>
    cases hoffender : e.offender? with
    | none =>
      have hend : e = .unexpectedEnd := by
        cases e <;> simp_all [SyntaxError.inAssignment, SyntaxError.offender?]
      subst hend
      exact ⟨.unexpectedEnd, fun _ _ => .unexpectedEnd⟩
    | some y =>
      rcases parseWith_eq_error.mp h with hrun | ⟨s, -, hfinish⟩
      · obtain ⟨i, t, s, ht, htake, herr⟩ := exists_of_run_error hrun
        exact ⟨_, persists_of_feed_error ht htake herr hoffender⟩
      · simp [offender_of_finish_error hfinish] at hoffender

/-- Only the contents of the tokens, each token on a line of its own. -/
def numbered (ts : List Token) : List Token :=
  (ts.map Token.content).mapIdx fun i x => ⟨x.1, x.2, i⟩

/-- Takes the number of a line as the place of the token to copy. -/
def Relabeling.copying (ts : List Token) : Relabeling where
  line i := (ts[i]?.map Token.line).getD 0
  text i text := (ts[i]?.map Token.text).getD text

theorem map_relabel_numbered (ts : List Token) :
    (numbered ts).map (Token.relabel (.copying ts)) = ts := by
  refine List.ext_getElem? fun i => ?_
  rw [List.getElem?_map, numbered, List.getElem?_mapIdx, List.getElem?_map]
  cases hi : ts[i]? with
  | none => rfl
  | some t => simp [Token.relabel, Relabeling.copying, hi, Token.content]

theorem keeps_of_mem_numbered (ts : List Token) : ∀ t ∈ numbered ts, t.Keeps (.copying ts) := by
  intro t ht
  obtain ⟨i, hi⟩ := List.getElem?_of_mem ht
  rw [numbered, List.getElem?_mapIdx, List.getElem?_map] at hi
  cases htext : ts[i]? with
  | none => simp [htext] at hi
  | some u =>
    obtain rfl : (⟨u.content.1, u.content.2, i⟩ : Token) = t := by simpa [htext] using hi
    intro hkind
    have hkind : u.kind = .name ∨ u.kind = .string := hkind
    simp [Relabeling.copying, htext, Token.content, hkind]

/-- Two token lists with the same contents are read as the same program, or fail with errors that
have the same fault. -/
theorem parse_contents (h : ts.map Token.content = us.map Token.content) :
    (∃ p, parse ts = .ok p ∧ parse us = .ok p) ∨
      ∃ x e e', parse ts = .error e ∧ parse us = .error e' ∧ Fault.Causes ts x e ∧
        Fault.Causes us x e' := by
  have hsame : numbered us = numbered ts := by rw [numbered, numbered, h]
  have hts := parse_relabel (.copying ts) (keeps_of_mem_numbered ts)
  have hus := parse_relabel (.copying us) (keeps_of_mem_numbered us)
  rw [map_relabel_numbered] at hts hus
  rw [hsame] at hus
  cases hparse : parse (numbered ts) with
  | ok p =>
    rw [hparse] at hts hus
    exact .inl ⟨p, hts, hus⟩
  | error e =>
    rw [hparse] at hts hus
    obtain ⟨x, hx⟩ := exists_persists hparse
    have hxts := hx _ (keeps_of_mem_numbered ts)
    have hxus := hx _ (hsame ▸ keeps_of_mem_numbered us)
    rw [map_relabel_numbered] at hxts
    rw [← hsame, map_relabel_numbered] at hxus
    exact .inr ⟨x, _, _, hts, hus, hxts, hxus⟩

/-- The tokens of `x, f() =`, with a line for the call and a text for the symbols. -/
def callAsTarget (line : Nat) (text : String) : List Token :=
  [⟨.name, "x", 1⟩, ⟨.symbol .comma, text, 1⟩, ⟨.name, "f", line⟩, ⟨.symbol .openParen, text, line⟩,
    ⟨.symbol .closeParen, text, line⟩, ⟨.symbol .assign, text, line⟩]

theorem parse_contents_callAsTarget :
    ∃ x, Fault.Causes (callAsTarget 1 "") x (.invalidTarget 1) ∧
      Fault.Causes (callAsTarget 2 "?") x (.invalidTarget 2) := by
  have hparse (line : Nat) (text : String) :
      parse (callAsTarget line text) = .error (.invalidTarget line) := rfl
  have hcontents : (callAsTarget 1 "").map Token.content =
      (callAsTarget 2 "?").map Token.content := rfl
  rcases parse_contents hcontents with ⟨p, hp, -⟩ | ⟨x, e, e', he, he', hx, hx'⟩
  · rw [hparse] at hp
    cases hp
  · rw [hparse] at he he'
    cases he
    cases he'
    exact ⟨x, hx, hx'⟩

end LuaSyntax
