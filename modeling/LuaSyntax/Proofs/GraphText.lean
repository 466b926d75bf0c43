import LuaSyntax.Proofs.Rebuild
import LuaSyntax.Text.Lines

/-!
Reading a graph back from its text. Each box and each edge has a line of its own, and a label ends
at the first quote that no backslash hides, whatever is written in it. So the text of a graph tells
its boxes and edges, and with them the drawing.
-/
namespace LuaSyntax

/-- The line of a box or an edge, without its line feed. -/
def GraphLine.row : GraphLine → String
  | node id box =>
    "\t" ++ nodeName id ++ " [label=\"" ++ labelText box.label ++ "\" color=" ++ box.color.text ++ "]"
  | edge source target => "\t" ++ nodeName source ++ " -> " ++ nodeName target

/-- The lines before the first box. -/
def graphHeader : List String :=
  ["digraph AST \x7b", "\tnode [shape=box style=filled color=lightblue2]"]

/-- A text up to its first quote that no backslash hides, and what comes after that quote. -/
def cutLabel : List Char → Option (List Char × List Char)
  | [] => none
  | c :: s =>
    if c = '"' then some ([], s)
    else if c = '\\' then
      match s with
      | [] => none
      | e :: r => (cutLabel r).map fun (label, rest) => (c :: e :: label, rest)
    else (cutLabel s).map fun (label, rest) => (c :: label, rest)

/-- A backslash and the letter n stand for a line feed; before any other character a backslash is
dropped. -/
def unescapeLabel : List Char → List Char
  | [] => []
  | c :: s =>
    if c = '\\' then
      match s with
      | [] => [c]
      | e :: r => (if e = 'n' then '\n' else e) :: unescapeLabel r
    else c :: unescapeLabel s

def Color.all : List Color :=
  [.green, .orange, .yellow, .cyan, .olive, .coral, .lightblue, .limegreen, .pink]

/-- The number of the name at the front of a text, and what comes after it. -/
def readName? : List Char → Option (Nat × List Char)
  | 'n' :: s => some (Nat.ofDigitChars 10 (s.takeWhile Char.isDigit) 0, s.dropWhile Char.isDigit)
  | _ => none

/-- The box whose label begins here. -/
def readBox? (s : List Char) : Option Box := do
  let (label, s) ← cutLabel s
  let s ← s.dropPrefix? " color=".toList
  let color ← Color.all.find? fun color => color.text.toList ++ [']'] = s
  return ⟨String.ofList (unescapeLabel label), color⟩

/-- What a line goes on with after the name that it begins with. -/
def GraphLine.readRest? (id : Nat) (s : List Char) : Option GraphLine :=
  match s.dropPrefix? " [label=\"".toList with
  | some s => (readBox? s).map (node id)
  | none => do
    let (target, rest) ← readName? (← s.dropPrefix? " -> ".toList)
    if rest = [] then return edge id target else none

def GraphLine.read? (row : List Char) : Option GraphLine := do
  let (id, s) ← readName? (← row.dropPrefix? ['\t'])
  readRest? id s

/-- The boxes and edges between the header and the closing brace. -/
def graphLines? (text : String) : Option (List GraphLine) :=
  ((text.toList.splitOn '\n').drop graphHeader.length).dropLast.dropLast.mapM GraphLine.read?

/-- The drawing whose graph has these lines. -/
def drawingOf? (lines : List GraphLine) : Option Drawing :=
  Canvas.tree? ⟨(declaredIn lines).length, lines⟩

/-- What can be read off the graph of a program, as it is written. -/
structure ReadsBack (p : Program) : Prop where
  /-- After the header each box and each edge has one line, and then comes the closing brace. -/
  lines : (Program.dot p).toList.splitOn '\n' =
    graphHeader.map String.toList ++ (Program.canvas p).lines.map (fun line => line.row.toList) ++
      [['\x7d'], []]
  /-- The label of a box is what stands before the first quote that is not escaped. -/
  label (id : Nat) (box : Box) : .node id box ∈ (Program.canvas p).lines → ∃ label,
    (GraphLine.node id box).row = "\t" ++ nodeName id ++ " [label=\"" ++ String.ofList label ++
      "\" color=" ++ box.color.text ++ "]" ∧
    cutLabel (label ++ ("\" color=" ++ box.color.text ++ "]").toList) =
      some (label, (" color=" ++ box.color.text ++ "]").toList) ∧
    unescapeLabel label = box.label.toList
  boxes_edges : graphLines? (Program.dot p) = some (Program.canvas p).lines
  drawing : (graphLines? (Program.dot p)).bind drawingOf? = some (Program.drawing p)
  /-- Two programs with the same text have the same graph. -/
  unique (q : Program) : Program.dot q = Program.dot p →
    (Program.canvas q).lines = (Program.canvas p).lines

section

variable {c : Char} {s rest : List Char}

theorem cutLabel_quote (s : List Char) : cutLabel ('"' :: s) = some ([], s) := by
  rw [cutLabel.eq_def]
  simp

theorem cutLabel_backslash (e : Char) (s : List Char) :
    cutLabel ('\\' :: e :: s) = (cutLabel s).map fun (label, rest) => ('\\' :: e :: label, rest) := by
  rw [cutLabel.eq_def]
  simp

theorem cutLabel_plain (hquote : c ≠ '"') (hslash : c ≠ '\\') (s : List Char) :
    cutLabel (c :: s) = (cutLabel s).map fun (label, rest) => (c :: label, rest) := by
  rw [cutLabel.eq_def]
  simp [hquote, hslash]

theorem unescapeLabel_backslash (e : Char) (s : List Char) :
    unescapeLabel ('\\' :: e :: s) = (if e = 'n' then '\n' else e) :: unescapeLabel s := by
  rw [unescapeLabel.eq_def]
  simp

theorem unescapeLabel_plain (h : c ≠ '\\') (s : List Char) :
    unescapeLabel (c :: s) = c :: unescapeLabel s := by
  rw [unescapeLabel.eq_def]
  simp [h]

/-- How a character is written in a label: after a backslash, or as it is. -/
theorem escapeLabel_cases (c : Char) :
    (∃ e, escapeLabel c = ['\\', e] ∧ e ≠ '\n' ∧ (if e = 'n' then '\n' else e) = c) ∨
      escapeLabel c = [c] ∧ c ≠ '"' ∧ c ≠ '\\' ∧ c ≠ '\n' := by
  by_cases hquote : c = '"'
  · exact .inl ⟨'"', by simp [escapeLabel, hquote]⟩
  by_cases hslash : c = '\\'
  · exact .inl ⟨'\\', by simp [escapeLabel, hslash]⟩
  by_cases hline : c = '\n'
  · exact .inl ⟨'n', by simp [escapeLabel, hline]⟩
  · exact .inr ⟨by simp [escapeLabel, hquote, hslash, hline], hquote, hslash, hline⟩

/-- A label ends where its quote stands, whatever it holds. -/
theorem cutLabel_escape (s rest : List Char) :
    cutLabel (s.flatMap escapeLabel ++ '"' :: rest) = some (s.flatMap escapeLabel, rest) := by
  induction s with
  | nil => exact cutLabel_quote rest
  | cons c s ih =>
    rw [List.flatMap_cons]
    rcases escapeLabel_cases c with ⟨e, hc, -, -⟩ | ⟨hc, hquote, hslash, -⟩
    · rw [hc, List.append_assoc, List.cons_append, List.singleton_append, cutLabel_backslash, ih]
      rfl
    · rw [hc, List.append_assoc, List.singleton_append, cutLabel_plain hquote hslash, ih]
      rfl

theorem unescapeLabel_escape (s : List Char) : unescapeLabel (s.flatMap escapeLabel) = s := by
  induction s with
  | nil => rfl
  | cons c s ih =>
    rw [List.flatMap_cons]
    rcases escapeLabel_cases c with ⟨e, hc, -, he⟩ | ⟨hc, -, hslash, -⟩
    · rw [hc, List.cons_append, List.singleton_append, unescapeLabel_backslash, he, ih]
    · rw [hc, List.singleton_append, unescapeLabel_plain hslash, ih]

theorem oneLine_labelText (label : String) : OneLine (labelText label) := by
  intro hmem
  rw [labelText, String.toList_ofList, List.mem_flatMap] at hmem
  obtain ⟨c, -, hc⟩ := hmem
  rcases escapeLabel_cases c with ⟨e, hescape, hline, -⟩ | ⟨hescape, -, -, hline⟩
  · simp [hescape, hline.symm] at hc
  · simp [hescape, hline.symm] at hc

theorem oneLine_nodeName (id : Nat) : OneLine (nodeName id) := by
  unfold nodeName
  split <;> simp +decide

theorem Color.oneLine_text (color : Color) : OneLine color.text := by
  cases color <;> decide

end

theorem exists_digits_nodeName (id : Nat) : ∃ digits, (nodeName id).toList = 'n' :: digits ∧
    (∀ c ∈ digits, c.isDigit = true) ∧ Nat.ofDigitChars 10 digits 0 = id := by
  have hdigits : ∀ c ∈ Nat.toDigits 10 id, c.isDigit = true := fun c hc =>
    Nat.isDigit_of_mem_toDigits (by decide) (by decide) hc
  have hread := ofDigitChars_nodeName id
  by_cases hid : id < 10
  · have hname : (nodeName id).toList = 'n' :: '0' :: Nat.toDigits 10 id := by
      simp [nodeName, hid]
    rw [hname] at hread
    exact ⟨_, hname, List.forall_mem_cons.mpr ⟨by decide, hdigits⟩, hread⟩
  · have hname : (nodeName id).toList = 'n' :: Nat.toDigits 10 id := by simp [nodeName, hid]
    rw [hname] at hread
    exact ⟨_, hname, hdigits, hread⟩

/-- A name is read through its last digit. -/
theorem readName?_append (id : Nat) {rest : List Char} (h : ∀ c ∈ rest.head?, c.isDigit = false) :
    readName? ((nodeName id).toList ++ rest) = some (id, rest) := by
  obtain ⟨digits, hname, hdigits, hread⟩ := exists_digits_nodeName id
  have htake : (digits ++ rest).takeWhile Char.isDigit = digits := by
    rw [List.takeWhile_append_of_pos hdigits]
    cases rest with
    | nil => simp
    | cons c rest => simp [h c rfl]
  have hdrop : (digits ++ rest).dropWhile Char.isDigit = rest := by
    rw [List.dropWhile_append_of_pos hdigits]
    cases rest with
    | nil => rfl
    | cons c rest => simp [h c rfl]
  rw [hname, List.cons_append, readName?, htake, hdrop, hread]

theorem Color.find?_all (color : Color) :
    Color.all.find? (fun other => other.text.toList ++ [']'] = color.text.toList ++ [']']) =
      some color := by
  cases color <;> decide

theorem dropPrefix?_append (t s : List Char) : (t ++ s).dropPrefix? t = some s :=
  List.dropPrefix?_append_of_beq s (by simp)

theorem readBox?_label (box : Box) :
    readBox? ((labelText box.label).toList ++ '"' :: (" color=".toList ++
      (box.color.text.toList ++ [']']))) = some box := by
  have hcut := cutLabel_escape box.label.toList (" color=".toList ++ (box.color.text.toList ++ [']']))
  rw [readBox?, labelText, String.toList_ofList, hcut]
  simp only [Option.bind_eq_bind, Option.bind_some, dropPrefix?_append, box.color.find?_all,
    unescapeLabel_escape, String.ofList_toList]
  rfl

namespace GraphLine

variable (line : GraphLine)

theorem text_eq : line.text = textLine line.row := by
  cases line <;> simp [text, textLine, row, String.append_assoc]

theorem oneLine_row : OneLine line.row := by
  cases line <;>
    simp +decide [row, oneLine_nodeName, oneLine_labelText, Color.oneLine_text]

theorem read?_name (id : Nat) {rest : List Char} (h : ∀ c ∈ rest.head?, c.isDigit = false) :
    read? ('\t' :: ((nodeName id).toList ++ rest)) = readRest? id rest := by
  have htab := dropPrefix?_append ['\t'] ((nodeName id).toList ++ rest)
  rw [List.singleton_append] at htab
  rw [read?, htab, Option.bind_eq_bind, Option.bind_some, readName?_append id h]
  rfl

theorem readRest?_label (id : Nat) (box : Box) :
    readRest? id (" [label=\"".toList ++ ((labelText box.label).toList ++ '"' ::
      (" color=".toList ++ (box.color.text.toList ++ [']'])))) = some (.node id box) := by
  simp only [readRest?, dropPrefix?_append, readBox?_label, Option.map_some]

theorem readRest?_arrow (id target : Nat) :
    readRest? id (" -> ".toList ++ (nodeName target).toList) = some (.edge id target) := by
  have hlabel (s : List Char) : (" -> ".toList ++ s).dropPrefix? " [label=\"".toList = none := rfl
  have hname : readName? ((nodeName target).toList ++ []) = some (target, []) :=
    readName?_append target (by simp)
  rw [List.append_nil] at hname
  simp only [readRest?, hlabel, dropPrefix?_append, Option.bind_eq_bind, Option.bind_some, hname]
  rfl

/-- What a line says is read back from it. -/
theorem read?_row : read? line.row.toList = some line := by
  cases line with
  | node id box =>
    have hrow : (node id box).row.toList = '\t' :: ((nodeName id).toList ++
        (" [label=\"".toList ++ ((labelText box.label).toList ++ '"' :: (" color=".toList ++
          (box.color.text.toList ++ [']']))))) := by
      simp [row]
    rw [hrow, read?_name id (by simp), readRest?_label]
  | edge source target =>
    have hrow : (edge source target).row.toList =
        '\t' :: ((nodeName source).toList ++ (" -> ".toList ++ (nodeName target).toList)) := by
      simp [row]
    rw [hrow, read?_name source (by simp), readRest?_arrow]

end GraphLine

namespace Canvas

variable (c : Canvas)

theorem text_eq : c.text = textLines (graphHeader ++ c.lines.map GraphLine.row ++ ["\x7d"]) := by
  have hlines : String.join (c.lines.map GraphLine.text) = textLines (c.lines.map GraphLine.row) := by
    rw [textLines, List.map_map]
    exact congrArg String.join (List.map_congr_left fun line _ => line.text_eq)
  have htext : c.text = textLines graphHeader ++ String.join (c.lines.map GraphLine.text) ++
      textLines ["\x7d"] := rfl
  rw [htext, hlines, textLines_append, textLines_append]

theorem splitOn_text : c.text.toList.splitOn '\n' = graphHeader.map String.toList ++
    c.lines.map (fun line => line.row.toList) ++ [['\x7d'], []] := by
  have hheader : ∀ s ∈ graphHeader, OneLine s := by decide
  have hrows : ∀ s ∈ c.lines.map GraphLine.row, OneLine s :=
    List.forall_mem_map.mpr fun line _ => line.oneLine_row
  have hall : ∀ s ∈ graphHeader ++ c.lines.map GraphLine.row ++ ["\x7d"], OneLine s :=
    List.forall_mem_append.mpr ⟨List.forall_mem_append.mpr ⟨hheader, hrows⟩, by decide⟩
  rw [text_eq, splitOn_textLines hall]
  simp

theorem graphLines?_text : graphLines? c.text = some c.lines := by
  have hrows : ((c.text.toList.splitOn '\n').drop graphHeader.length).dropLast.dropLast =
      c.lines.map fun line => line.row.toList := by
    rw [splitOn_text, List.append_assoc, List.drop_left' (by simp)]
    simp [List.dropLast_append_of_ne_nil]
  rw [graphLines?, hrows]
  induction c.lines with
  | nil => rfl
  | cons line lines ih =>
    rw [List.map_cons, List.mapM_cons, GraphLine.read?_row, ih]
    rfl

end Canvas

theorem drawingOf?_canvas (p : Program) :
    drawingOf? (Program.canvas p).lines = some (Program.drawing p) := by
  have hsize : (declaredIn (Program.canvas p).lines).length = (Program.canvas p).size := by
    have hlines : (Program.canvas p).lines = (Program.drawing p).lines 0 := by
      rw [Program.canvas_eq]
      rfl
    rw [hlines, Drawing.declaredIn_lines, List.length_range', Program.canvas_eq]
    exact (Nat.zero_add _).symm
  rw [drawingOf?, hsize, Program.canvas_eq]
  exact Canvas.tree?_add _

theorem dot_readsBack (p : Program) : ReadsBack p where
  lines := (Program.canvas p).splitOn_text
  label id box _ := by
    have hend : ("\" color=" ++ box.color.text ++ "]").toList =
        '"' :: (" color=" ++ box.color.text ++ "]").toList := by simp
    refine ⟨box.label.toList.flatMap escapeLabel, rfl, ?_, unescapeLabel_escape _⟩
    rw [hend]
    exact cutLabel_escape _ _
  boxes_edges := (Program.canvas p).graphLines?_text
  drawing := by
    rw [Program.dot, Canvas.graphLines?_text, Option.bind_some, drawingOf?_canvas]
  unique q h := by
    have hlines : some (Program.canvas q).lines = some (Program.canvas p).lines := by
      rw [← Canvas.graphLines?_text, ← Canvas.graphLines?_text]
      exact congrArg graphLines? h
    exact Option.some.inj hlines

end LuaSyntax
