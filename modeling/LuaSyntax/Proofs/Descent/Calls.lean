import Mathlib.Data.List.Chain
import LuaSyntax.Proofs.Descent.Agreement.Statements

/-!
The calls that are open at a time. A call is made on what is left of the caller's tokens; it has
fewer of them or a lower rank. So calls within calls end, and no more than about six of them are
open for each token.
-/
namespace LuaSyntax.Descent

open Relation

/-- A procedure that is called, with the tokens ahead of it. -/
structure Request where
  {α : Type}
  procedure : Procedure α
  tokens : List Token

/-- The script makes this call, where the calls before it have not failed. -/
def Script.Calls (r : Request) {α : Type} : Script α → List Token → Prop
  | done _, _ => False
  | fail _, _ => False
  | look k, ts => (k ts.head?).Calls r ts
  | take k, ts => (k ts.head?).Calls r ts.tail
  | invoke p k, ts => r = ⟨p, ts⟩ ∨ ∃ b us, p.read ts = (.ok b, us) ∧ (k b).Calls r us

namespace Request

def weight (q : Request) : Nat := q.procedure.weight q.tokens

/-- One call is made while the other one is open, with none between them. -/
def Calls (q r : Request) : Prop := q.procedure.body.Calls r q.tokens

end Request

section

variable {α : Type} {w : Nat} {m : Script α} {Q G : α → List Token → Prop} {ts : List Token}
  {x : Parsing Program} {q r : Request}

theorem Script.Checks.of_calls (hm : m.Checks w Q ts) (h : m.Calls r ts) :
    r.weight < w ∧ r.tokens <:+ ts := by
  induction m generalizing ts with
  | done a => cases h
  | fail e => cases h
  | look k ih => exact ih _ hm h
  | take k ih => exact (ih _ hm h).imp_right fun hr => hr.trans ts.tail_suffix
  | invoke p k ih =>
    rcases h with rfl | ⟨b, us, hp, h⟩
    · exact ⟨hm.1, List.suffix_rfl⟩
    · have hleaves := read_leaves hp
      exact (ih b (hm.2 b us hleaves) h).imp_right fun hr => hr.trans hleaves.suffix

theorem Script.Follows.of_calls (hm : m.Follows x G ts) (h : m.Calls r ts) :
    ∃ H, r.procedure.Enters x r.tokens H := by
  induction m generalizing ts with
  | done a => cases h
  | fail e => cases h
  | look k ih => exact ih _ hm h
  | take k ih => exact ih _ hm h
  | invoke p k ih =>
    rcases h with rfl | ⟨b, us, hp, h⟩
    · exact ⟨_, hm⟩
    · exact ih b (agrees_answered p ts (.ok b, us) x _ (congrArg some hp) hm) h

namespace Request

theorem Calls.weight_lt (h : q.Calls r) : r.weight < q.weight :=
  ((q.procedure.checks q.tokens).of_calls h).1

theorem Calls.suffix (h : q.Calls r) : r.tokens <:+ q.tokens :=
  ((q.procedure.checks q.tokens).of_calls h).2

theorem wellFounded_calls : WellFounded fun r q : Request => q.Calls r :=
  Subrelation.wf Calls.weight_lt (measure weight).wf

theorem weight_lt_of_transGen (h : TransGen Calls q r) : r.weight < q.weight := by
  induction h with
  | single h => exact h.weight_lt
  | tail _ h ih => exact Nat.lt_trans h.weight_lt ih

theorem suffix_of_transGen (h : TransGen Calls q r) : r.tokens <:+ q.tokens := by
  induction h with
  | single h => exact h.suffix
  | tail _ h ih => exact h.suffix.trans ih

/-- Where no token is taken from one call to another within it, the rank goes down. -/
theorem shorter_or_rank_lt (h : TransGen Calls q r) : r.tokens.length < q.tokens.length ∨
    r.tokens = q.tokens ∧ r.procedure.rank q.tokens < q.procedure.rank q.tokens := by
  have hsuffix := suffix_of_transGen h
  have hweight := weight_lt_of_transGen h
  rcases Nat.lt_or_ge r.tokens.length q.tokens.length with hlt | hge
  · exact .inl hlt
  · have heq : r.tokens = q.tokens := hsuffix.eq_of_length_le hge
    refine .inr ⟨heq, ?_⟩
    unfold weight Procedure.weight at hweight
    rw [heq] at hweight
    omega

/-- Each call that is open weighs less than the one around it. -/
theorem length_le_of_isChain {calls : List Request} (h : (q :: calls).IsChain Calls) :
    calls.length ≤ q.weight := by
  induction calls generalizing q with
  | nil => exact Nat.zero_le _
  | cons r calls ih =>
    obtain ⟨hcall, hcalls⟩ := List.isChain_cons_cons.mp h
    have hle := ih hcalls
    have hlt := hcall.weight_lt
    rw [List.length_cons]
    omega

end Request

/-! ### Statements at their keywords -/

theorem Procedure.Enters.keyword {p : Procedure α} {kw : Keyword} (h : p.Enters x ts G)
    (hkw : p.keyword? = some kw) : nextKind ts = some (.keyword kw) := by
  cases p <;> cases hkw <;> exact h.choose_spec.1

/-- In a parse every call is made where the parser is in a state that waits for the phrase. -/
theorem enters_of_calls (h : ReflTransGen Request.Calls ⟨.program, ts⟩ r) :
    ∃ G, r.procedure.Enters (parse ts) r.tokens G := by
  induction h with
  | refl => exact ⟨fun ss _ => parse ts = .ok ss, rfl, fun _ _ h => h⟩
  | tail _ hcall ih =>
    obtain ⟨G, hG⟩ := ih
    exact (Procedure.body_follows _ hG).of_calls hcall

end

section

variable {α : Type} {p : Procedure α} {ts us : List Token} {kw : Keyword}

theorem nextKind_of_calls (h : ReflTransGen Request.Calls ⟨.program, ts⟩ ⟨p, us⟩)
    (hkw : p.keyword? = some kw) : nextKind us = some (.keyword kw) :=
  (enters_of_calls h).choose_spec.keyword hkw

theorem ne_nil_of_calls (h : ReflTransGen Request.Calls ⟨.program, ts⟩ ⟨p, us⟩)
    (hkw : p.keyword? = some kw) : us ≠ [] := by
  rintro rfl
  cases nextKind_of_calls h hkw

end

/-- How procedures go on from these tokens, and why they end. -/
structure MakesProgress (ts : List Token) : Prop where
  /-- A procedure ends with no more calls open at a time than these, rounds of loops counted too. -/
  ends {α : Type} (p : Procedure α) : within (6 * ts.length + 6) p ts = some (p.read ts)
  /-- It does what its script does when each call is answered by the procedure that is called. -/
  body {α : Type} (p : Procedure α) : p.body.run answered ts = some (p.read ts)
  /-- The whole gives what the parser gives. -/
  parses : (Procedure.program.read ts).1 = parse ts
  /-- A part leads the parser from a state before its phrase to the state after it. -/
  agrees {α : Type} (p : Procedure α) {x : Parsing Program} {G : α → List Token → Prop}
    (h : p.Enters x ts G) : (p.read ts).Leads x G
  /-- What a procedure leaves, after an error too, ends the tokens that it was given. -/
  suffix {α : Type} (p : Procedure α) : (p.read ts).2 <:+ ts
  /-- It leaves fewer if it does not fail. Only `return` on no tokens at all ends without one. -/
  shorter {α : Type} {p : Procedure α} {a : α} {us : List Token} (hp : p.advances = true)
    (hreturn : p.keyword? = some .return → ts ≠ []) (h : p.read ts = (.ok a, us)) :
    us.length < ts.length
  /-- A loop that goes round again has taken a token. -/
  round {σ : Type} {l : Loop σ} {s s' : σ} {us : List Token}
    (h : (l.round s).run answered ts = some (.ok (.again s'), us)) : us.length < ts.length
  /-- In a parse a statement is only read where its keyword is next. -/
  keyword {α : Type} {p : Procedure α} {us : List Token} {kw : Keyword}
    (h : ReflTransGen Request.Calls ⟨.program, ts⟩ ⟨p, us⟩) (hkw : p.keyword? = some kw) :
    nextKind us = some (.keyword kw)
  /-- So whatever is called in a parse leaves fewer tokens, a `return` too. -/
  called {α : Type} {p : Procedure α} {a : α} {us vs : List Token}
    (h : ReflTransGen Request.Calls ⟨.program, ts⟩ ⟨p, us⟩) (hp : p.advances = true)
    (hread : p.read us = (.ok a, vs)) : vs.length < us.length
  /-- A procedure that is called within itself has the same rank, and so fewer tokens are left. -/
  recursion {α β : Type} {p : Procedure α} {q : Procedure β} {us : List Token}
    (h : TransGen Request.Calls ⟨p, ts⟩ ⟨q, us⟩) (hrank : q.rank ts = p.rank ts) :
    us.length < ts.length
  wellFounded : WellFounded fun r q : Request => q.Calls r
  /-- The calls that are open at a time below that for the whole program. -/
  nesting {calls : List Request}
    (h : (⟨.program, ts⟩ :: calls : List Request).IsChain Request.Calls) :
    calls.length ≤ 6 * ts.length + 4

theorem makesProgress (ts : List Token) : MakesProgress ts where
  ends p := within_of_weight_lt <| by
    have hrank := p.rank_le ts
    unfold Procedure.weight
    omega
  body p := run_body p ts
  parses := read_program ts
  agrees p _ _ h := agrees_answered p ts _ _ _ rfl h
  suffix p := read_suffix p ts
  shorter hp hreturn h := (read_leaves h).shorter hp hreturn
  round {_ l s s' us} h := by
    have hleaves {α : Type} (p : Procedure α) ts b us (hp : answered p ts = some (.ok b, us)) :
        p.Leaves ts us := read_leaves (Option.some_inj.mp hp)
    exact ((l.round_circles s ts).run hleaves h).2 s' rfl
  keyword h hkw := nextKind_of_calls h hkw
  called h hp hread := (read_leaves hread).shorter hp fun hreturn => ne_nil_of_calls h hreturn
  recursion h hrank := (Request.shorter_or_rank_lt h).resolve_right fun hr => hr.2.ne hrank
  wellFounded := Request.wellFounded_calls
  nesting h := Request.length_le_of_isChain h

end LuaSyntax.Descent
