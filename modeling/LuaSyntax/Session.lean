import LuaSyntax.Parse

/-!
Several jobs that share one log. A job gives the same answer whatever the log holds; what it reports
is added at the end.
-/
namespace LuaSyntax

inductive Job
  | tokenize (source : String)
  | take (source : String) (n : Nat)
  | parse (source : String)
  | report (d : Diagnostic)
  | clear
deriving DecidableEq

inductive JobAnswer
  | tokens (ts : List Token)
  | taken (ts : List (Option Token))
  | parsed (result : Parsing Program)
  | done

/-- Only the part of a source that has been read is reported on. -/
def Job.run (log : Log) : Job → JobAnswer × Log
  | tokenize source =>
    let (ts, log) := tokenizeInto log source
    (.tokens ts, log)
  | take source n =>
    let (ts, x) := (Lexer.start source log).pull n
    (.taken ts, x.log)
  | parse source =>
    let (result, log) := parseInto log source
    (.parsed result, log)
  | report d => (.done, log.report d)
  | clear => (.done, .empty)

/-- Every job's answer, with the log as the job leaves it. -/
def runJobs (log : Log) : List Job → List (JobAnswer × Log)
  | [] => []
  | j :: js =>
    let r := j.run log
    r :: runJobs r.2 js

end LuaSyntax
