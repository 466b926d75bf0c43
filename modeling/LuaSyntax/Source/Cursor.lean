import LuaSyntax.Source.Scan

/-!
A place in a text, as a reader keeps it: what is ahead, how many bytes are behind, and the line. A
reader moves over one character at a time.
-/
namespace LuaSyntax

/-- The characters that take up the first so many bytes of a text. -/
def leadingBytes : Nat → List Char → List Char
  | 0, _ => []
  | _, [] => []
  | n, c :: s => c :: leadingBytes (n - c.utf8Size) s

structure Cursor where
  ahead : List Char
  offset : Nat
  line : Nat
deriving DecidableEq

namespace Cursor

def start (text : List Char) : Cursor := ⟨text, 0, 1⟩

/-- Moves over the next character, which ends the line if it is a line feed. -/
def step (k : Cursor) : Cursor :=
  match k.ahead with
  | [] => k
  | c :: s => ⟨s, k.offset + c.utf8Size, if c = '\n' then k.line + 1 else k.line⟩

def skip : Nat → Cursor → Cursor
  | 0, k => k
  | n + 1, k => skip n k.step

def skipWhile (p : Char → Bool) (k : Cursor) : Cursor := skip (k.ahead.takeWhile p).length k

/-- The text between a place and a later one. -/
def textTo (k later : Cursor) : List Char := leadingBytes (later.offset - k.offset) k.ahead

theorem ahead_step (k : Cursor) : k.step.ahead = k.ahead.tail := by
  unfold step
  split <;> simp [*]

theorem ahead_skip (n : Nat) (k : Cursor) : (skip n k).ahead = k.ahead.drop n := by
  induction n generalizing k with
  | zero => rfl
  | succ n ih => rw [skip, ih, ahead_step, List.drop_tail]

/-- Moves behind the first closing long bracket of any level, or to the end if there is none, and
tells which. -/
def skipLongComment (k : Cursor) : Bool × Cursor :=
  match _h : k.ahead with
  | [] => (false, k)
  | c :: s =>
    match longBracketLevel? ']' (c :: s) with
    | some level => (true, skip (level + 2) k)
    | none => skipLongComment k.step
termination_by k.ahead.length
decreasing_by simp [ahead_step, _h]

/-- Moves behind the closing quote of a string and counts its invalid escape sequences. Where the
line ends first there is no count. -/
def skipString (quote : Char) (invalid : Nat) (k : Cursor) : Option Nat × Cursor :=
  match h : k.ahead with
  | [] => (none, k)
  | c :: s =>
    if c = '\n' then (none, k)
    else if c = quote then (some invalid, k.step)
    else if c = '\\' then
      if s.head?.any StringLiteral.isEscape then skipString quote invalid k.step.step
      else skipString quote (invalid + 1) k.step
    else skipString quote invalid k.step
termination_by k.ahead.length
decreasing_by
  all_goals
    simp only [ahead_step, h, List.tail_cons, List.length_cons, List.length_tail]
    omega

theorem length_skip_le (n : Nat) (k : Cursor) : (skip n k).ahead.length ≤ k.ahead.length := by
  simp [ahead_skip]

theorem length_step_le (k : Cursor) : k.step.ahead.length ≤ k.ahead.length := length_skip_le 1 k

theorem length_skipLongComment_le (k : Cursor) :
    (skipLongComment k).2.ahead.length ≤ k.ahead.length := by
  fun_induction skipLongComment k with
  | case1 => exact Nat.le_refl _
  | case2 => exact length_skip_le _ _
  | case3 k c s h hlevel ih => exact Nat.le_trans ih k.length_step_le

theorem length_skipString_le (quote : Char) (invalid : Nat) (k : Cursor) :
    (skipString quote invalid k).2.ahead.length ≤ k.ahead.length := by
  fun_induction skipString quote invalid k with
  | case1 | case2 => exact Nat.le_refl _
  | case3 => exact length_step_le _
  | case4 invalid k s hline hquote h hescape ih => exact Nat.le_trans ih (length_skip_le 2 k)
  | case5 invalid k s hline hquote h hescape ih => exact Nat.le_trans ih k.length_step_le
  | case6 invalid k c s h hline hquote hbackslash ih => exact Nat.le_trans ih k.length_step_le

end Cursor

end LuaSyntax
