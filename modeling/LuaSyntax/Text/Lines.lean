/-!
Texts of several lines. Put one after the other with a line feed behind each, texts without line
feeds are the lines that the whole splits into.
-/
namespace LuaSyntax

def textLine (s : String) : String := s ++ "\n"

def textLines (ss : List String) : String := String.join (ss.map textLine)

/-- A text that has no line feed in it. -/
def OneLine (s : String) : Prop := '\n' ∉ s.toList

instance (s : String) : Decidable (OneLine s) := inferInstanceAs (Decidable (¬ _))

@[simp] theorem oneLine_append (s t : String) : OneLine (s ++ t) ↔ OneLine s ∧ OneLine t := by
  rw [OneLine, String.toList_append, List.mem_append, not_or]
  exact Iff.rfl

@[simp] theorem oneLine_repr (n : Nat) : OneLine n.repr := by
  intro hmem
  have hdigits : '\n' ∈ Nat.toDigits 10 n := by simpa using hmem
  have hdigit := Nat.isDigit_of_mem_toDigits (by decide) (by decide) hdigits
  cases hdigit

theorem textLines_cons (s : String) (ss : List String) :
    textLines (s :: ss) = textLine s ++ textLines ss := by
  rw [textLines, List.map_cons, String.join_cons, textLines]

theorem textLines_append (ss us : List String) :
    textLines (ss ++ us) = textLines ss ++ textLines us := by
  induction ss with
  | nil => simp [textLines]
  | cons s ss ih => rw [List.cons_append, textLines_cons, ih, textLines_cons, String.append_assoc]

theorem splitOn_textLines {ss : List String} (h : ∀ s ∈ ss, OneLine s) :
    (textLines ss).toList.splitOn '\n' = ss.map String.toList ++ [[]] := by
  induction ss with
  | nil => rfl
  | cons s ss ih =>
    obtain ⟨hs, hss⟩ := List.forall_mem_cons.mp h
    have htext : (textLines (s :: ss)).toList = s.toList ++ '\n' :: (textLines ss).toList := by
      simp [textLines_cons, textLine]
    have hfirst : ∀ c ∈ s.toList, (c == '\n') = false := by
      intro c hc
      simpa using ne_of_mem_of_not_mem hc hs
    rw [htext, List.splitOn, List.splitOnP_append_cons_of_forall_mem hfirst _ (by decide),
      ← List.splitOn, ih hss]
    rfl

end LuaSyntax
