import LuaSyntax.Proofs.ParseOnDemand
import LuaSyntax.Session
import Mathlib.Data.List.DropRight

/-!
Several jobs that share one log. Whatever a lexer does, it does the same when there are earlier
entries in the log that it was lent, and leaves them in front of its own. So every job answers as it
would with an empty log, and the log holds what the jobs since it was last cleared would each have
left in an empty one.
-/
namespace LuaSyntax

namespace Log

/-- The entries of a log, and then those of a later one. -/
def followedBy (log later : Log) : Log := ⟨log.entries ++ later.entries⟩

theorem followedBy_empty (log : Log) : log.followedBy .empty = log :=
  congrArg Log.mk (List.append_nil _)

theorem reportAll_followedBy (log later : Log) (ds : List Diagnostic) :
    (log.followedBy later).reportAll ds = log.followedBy (later.reportAll ds) := by
  have hentries : ((log.followedBy later).reportAll ds).entries =
      (log.followedBy (later.reportAll ds)).entries := by
    rw [entries_reportAll, followedBy, followedBy, entries_reportAll, List.append_assoc]
  exact congrArg Log.mk hentries

end Log

namespace Lexer

variable (earlier : Log)

/-- The lexer with entries in its log that are earlier than all it has reported. -/
def after (x : Lexer) : Lexer := { x with log := earlier.followedBy x.log }

theorem start_after (source : String) : (start source .empty).after earlier = start source earlier :=
  congrArg (Lexer.mk _) earlier.followedBy_empty

theorem passAll_after (x : Lexer) (ps : List LocatedPiece) :
    (x.after earlier).passAll ps = (x.passAll ps).after earlier :=
  congrArg (Lexer.mk _) (earlier.reportAll_followedBy x.log _)

/-- The next token does not depend on the log, and neither does what is reported. -/
theorem next_after (x : Lexer) : (x.after earlier).next = (x.next.1, x.next.2.after earlier) := by
  rw [next_eq, next_eq x, passAll_after]
  rfl

theorem pull_after (n : Nat) (x : Lexer) :
    (x.after earlier).pull n = ((x.pull n).1, (x.pull n).2.after earlier) := by
  induction n generalizing x with
  | zero => rfl
  | succ n ih => rw [pull_succ, pull_succ, next_after, ih]

theorem collect_after (x : Lexer) :
    (x.after earlier).collect = (x.collect.1, x.collect.2.after earlier) := by
  induction x using collect.induct with
  | case1 x y hnext =>
    have hafter : (x.after earlier).next = (none, y.after earlier) := by rw [next_after, hnext]
    rw [collect_of_none hafter, collect_of_none hnext]
  | case2 x t y hnext _ _ _ ih =>
    have hafter : (x.after earlier).next = (some t, y.after earlier) := by rw [next_after, hnext]
    rw [collect_of_some hafter, collect_of_some hnext, ih]

end Lexer

namespace ParserState

theorem readFrom_after (earlier : Log) (s : ParserState) (x : Lexer) :
    s.readFrom (x.after earlier) = ((s.readFrom x).1, (s.readFrom x).2.after earlier) := by
  induction s, x using readFrom.induct with
  | case1 s x y hnext =>
    have hafter : (x.after earlier).next = (none, y.after earlier) := by
      rw [Lexer.next_after, hnext]
    rw [readFrom_of_none hafter, readFrom_of_none hnext]
  | case2 s x t y hnext e hfeed =>
    have hafter : (x.after earlier).next = (some t, y.after earlier) := by
      rw [Lexer.next_after, hnext]
    rw [readFrom_of_error hafter hfeed, readFrom_of_error hnext hfeed]
  | case3 s x t y hnext s' hfeed ih =>
    have hafter : (x.after earlier).next = (some t, y.after earlier) := by
      rw [Lexer.next_after, hnext]
    rw [readFrom_of_ok hafter hfeed, readFrom_of_ok hnext hfeed, ih]

end ParserState

namespace Job

def answer (j : Job) : JobAnswer := (j.run .empty).1

/-- The entries that a job leaves in an empty log. -/
def entries (j : Job) : List Diagnostic := (j.run .empty).2.entries

theorem run_after (log : Log) {j : Job} (h : j ≠ .clear) :
    j.run log = ((j.run .empty).1, log.followedBy (j.run .empty).2) := by
  cases j with
  | tokenize source =>
    simp only [run, tokenizeInto, ← Lexer.start_after log source, Lexer.collect_after]
    rfl
  | take source n =>
    simp only [run, ← Lexer.start_after log source, Lexer.pull_after]
    rfl
  | parse source =>
    simp only [run, parseInto, ← Lexer.start_after log source, ParserState.readFrom_after]
    rfl
  | report d => rfl
  | clear => exact absurd rfl h

theorem answer_eq (log : Log) (j : Job) : (j.run log).1 = j.answer := by
  by_cases h : j = .clear
  · rw [h]
    rfl
  · rw [run_after log h, answer]

/-- A job leaves the old entries in place and adds those it leaves in an empty log, unless it clears
the log. -/
theorem entries_run (log : Log) (j : Job) :
    (j.run log).2.entries = if j = .clear then [] else log.entries ++ j.entries := by
  split
  · rename_i h
    rw [h]
    rfl
  · rename_i h
    rw [run_after log h, entries]
    rfl

end Job

/-- The log that jobs leave. -/
def logAfter (log : Log) (js : List Job) : Log := js.foldl (fun log j => (j.run log).2) log

/-- The jobs behind the last one that clears the log. -/
def sinceClear (js : List Job) : List Job := js.rtakeWhile (· ≠ .clear)

/-- What jobs answer and leave in the log they share. -/
structure KeepsApart (log : Log) (js : List Job) : Prop where
  answers : (runJobs log js).map Prod.fst = js.map Job.answer
  /-- The log after so many jobs is the one that the last of them shows. -/
  logs (i : Nat) : i < js.length →
    (runJobs log js)[i]?.map Prod.snd = some (logAfter log (js.take (i + 1)))
  /-- Each job keeps what is there and adds its own entries. -/
  step (i : Nat) (j : Job) : js[i]? = some j →
    (logAfter log (js.take (i + 1))).entries =
      if j = .clear then [] else (logAfter log (js.take i)).entries ++ j.entries
  entries : (logAfter log js).entries =
    (if .clear ∈ js then [] else log.entries) ++ (sinceClear js).flatMap Job.entries

section

variable (log : Log) (js : List Job)

theorem logAfter_concat (j : Job) : logAfter log (js ++ [j]) = (j.run (logAfter log js)).2 := by
  rw [logAfter, List.foldl_append]
  rfl

theorem map_fst_runJobs : (runJobs log js).map Prod.fst = js.map Job.answer := by
  induction js generalizing log with
  | nil => rfl
  | cons j js ih => rw [runJobs, List.map_cons, List.map_cons, ih, j.answer_eq]

theorem getElem?_runJobs {i : Nat} (hi : i < js.length) :
    (runJobs log js)[i]?.map Prod.snd = some (logAfter log (js.take (i + 1))) := by
  induction js generalizing log i with
  | nil => cases hi
  | cons j js ih =>
    cases i with
    | zero => rfl
    | succ i => exact ih _ (Nat.lt_of_succ_lt_succ hi)

theorem sinceClear_concat (j : Job) :
    sinceClear (js ++ [j]) = if j = .clear then [] else sinceClear js ++ [j] := by
  rw [sinceClear, List.rtakeWhile_concat]
  by_cases h : j = .clear <;> simp [h, sinceClear]

theorem entries_logAfter : (logAfter log js).entries =
    (if .clear ∈ js then [] else log.entries) ++ (sinceClear js).flatMap Job.entries := by
  induction js using List.reverseRecOn with
  | nil => simp [logAfter, sinceClear]
  | append_singleton js j ih =>
    rw [logAfter_concat, Job.entries_run, sinceClear_concat]
    by_cases h : j = .clear
    · simp [h]
    · simp [h, Ne.symm h, ih]

end

/-- Whatever jobs share a log, none is affected by those before it, and the log holds the entries of
all since it was last cleared, each in its turn. -/
theorem runJobs_keepsApart (log : Log) (js : List Job) : KeepsApart log js where
  answers := map_fst_runJobs log js
  logs _ hi := getElem?_runJobs log js hi
  step i j hj := by
    have htake : js.take (i + 1) = js.take i ++ [j] := by rw [List.take_add_one, hj]; rfl
    rw [htake, logAfter_concat, Job.entries_run]
  entries := entries_logAfter log js

end LuaSyntax
