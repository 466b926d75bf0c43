import LuaSyntax.Proofs.CommandOutcome
import LuaSyntax.Proofs.Paths

/-!
What a run does to the file it reads. The only thing written is a drawing, and without a path given
for it its path has the front of the path of the source and another last name; so the file stays as
it is, unless its name is that of a drawing already.
-/
namespace LuaSyntax

namespace Disk

variable {d d' : Disk} {place : List String} {path text : String}

theorem write_eq_ok : d.write path text = .ok d' ↔ ∃ place,
    d.locate (writePath path) = .ok place ∧ d.isDirectory place = false ∧
      d' = d.put place text.toUTF8 := by
  unfold write
  cases hplace : d.locate (writePath path) with
  | error e => exact ⟨nofun, nofun⟩
  | ok place =>
    change (if _ then _ else _) = Except.ok d' ↔ _
    constructor
    · intro h
      split at h
      · cases h
      · rename_i hfile
        exact ⟨place, rfl, by simpa using hfile, (Except.ok.inj h).symm⟩
    · rintro ⟨there, hthere, hfile, rfl⟩
      obtain rfl := Except.ok.inj hthere
      rw [hfile]
      rfl

section

variable (home : List String) (key other : List String) (entry : DiskEntry)
  (entries : List (List String × DiskEntry)) (bytes : ByteArray)

theorem bytes?_cons : bytes? ⟨home, (key, entry) :: entries⟩ place =
    match entry with
    | .file bytes => if key = place then some bytes else bytes? ⟨home, entries⟩ place
    | .directory => bytes? ⟨home, entries⟩ place := by
  cases entry with
  | directory => rfl
  | file bytes => by_cases hkey : key = place <;> simp [bytes?, hkey]

theorem put_cons : put ⟨home, (key, entry) :: entries⟩ other bytes =
    if key = other then put ⟨home, entries⟩ other bytes
    else ⟨home, (key, entry) :: (put ⟨home, entries⟩ other bytes).entries⟩ := by
  by_cases hkey : key = other <;> simp [put, hkey]

end

/-- What is put at a place is there, and everywhere else is what was there before. -/
theorem bytes?_put (d : Disk) (place other : List String) (bytes : ByteArray) :
    (d.put other bytes).bytes? place = if other = place then some bytes else d.bytes? place := by
  obtain ⟨home, entries⟩ := d
  induction entries with
  | nil => simp [put, bytes?]
  | cons x entries ih =>
    obtain ⟨key, entry⟩ := x
    rw [put_cons]
    by_cases hkey : key = other
    · subst hkey
      rw [if_pos rfl, ih, bytes?_cons]
      cases entry <;> split <;> simp_all
    · have hrest : bytes? ⟨home, (put ⟨home, entries⟩ other bytes).entries⟩ place =
          if other = place then some bytes else bytes? ⟨home, entries⟩ place := ih
      rw [if_neg hkey, bytes?_cons, bytes?_cons, hrest]
      cases entry with
      | directory => rfl
      | file old =>
        by_cases hplace : key = place
        · simp [hplace, Ne.symm (hplace ▸ hkey)]
        · simp [hplace]

/-- Reading leaves the disk as it is. -/
theorem run_read (path : String) : (files.read path).run d = (d.read path, d) := rfl

theorem run_write_eq (path text : String) : (files.write path text).run d =
    match d.write path text with
    | .ok d' => (.ok (), d')
    | .error e => (.error e, d) := by
  simp only [files, StateT.run_bind, StateT.run_get, pure_bind]
  cases d.write path text <;> rfl

end Disk

namespace Options

variable {d : Disk} {o : Options} {p : Program} {place : List String}

/-- The run draws the program that its file holds, and the file has the name of a drawing. -/
structure DrawsOverSource (o : Options) (d : Disk) (p : Program) : Prop where
  mode : o.mode = .showAst
  extension : Path.HasExtension ['d', 'o', 't'] o.file.toList
  source : ∃ s, d.read o.file = .ok s ∧ (parseInto .empty s).1 = .ok p

theorem run_drawing {s : String} (hmode : o.mode = .showAst) (hread : d.read o.file = .ok s)
    (hparse : (parseInto .empty s).1 = .ok p) : ((o.run Disk.files).run d).2 =
      match d.write o.outputPath (Program.dot p) with
      | .ok d' => d'
      | .error _ => d := by
  have hread' : (Disk.files.read o.file).run d = (.ok s, d) := by rw [Disk.run_read, hread]
  rw [run_of_read (by simp [hmode]) hread', runSource, if_neg (by simp [hmode])]
  simp only [runParse, parseSource, hparse, if_pos hmode, showTree, StateT.run_bind,
    Disk.run_write_eq]
  cases d.write o.outputPath (Program.dot p) <;> rfl

/-- All that a run does to the disk is to write the drawing of its source. -/
theorem run_disk (d : Disk) (o : Options) : ((o.run Disk.files).run d).2 = d ∨
    o.mode = .showAst ∧ ∃ s p, d.read o.file = .ok s ∧ (parseInto .empty s).1 = .ok p ∧
      d.write o.outputPath (Program.dot p) = .ok ((o.run Disk.files).run d).2 := by
  by_cases hrun : o.mode = .run
  · exact .inl (by rw [run, if_pos hrun]; rfl)
  cases hread : d.read o.file with
  | error e =>
    have hread' : (Disk.files.read o.file).run d = (.error e, d) := by rw [Disk.run_read, hread]
    left
    simp only [run, hrun, if_false, StateT.run_bind, hread']
    rfl
  | ok s =>
    have hread' : (Disk.files.read o.file).run d = (.ok s, d) := by rw [Disk.run_read, hread]
    by_cases hshow : o.mode = .showAst
    · cases hparse : (parseInto .empty s).1 with
      | error e =>
        left
        rw [run_of_read hrun hread', runSource, if_neg (by simp [hshow])]
        simp only [runParse, parseSource, hparse]
        rfl
      | ok p =>
        rw [run_drawing hshow hread hparse]
        cases hwrite : d.write o.outputPath (Program.dot p) with
        | error e => exact .inl rfl
        | ok d' => exact .inr ⟨hshow, s, p, rfl, hparse, hwrite⟩
    · left
      rw [run_of_read hrun hread', runSource]
      split
      · rfl
      · simp only [runParse, if_neg hshow]
        split <;> rfl

end Options

section

variable {file : String} {name : List Char} {front : List (List Char)}

theorem pathNames_eq (hpath : Path.names file.toList = front ++ [name]) :
    Disk.pathNames file = front.map String.ofList ++ [String.ofList name] := by
  rw [Disk.pathNames, hpath, List.map_append, List.map_singleton]

/-- The default path of a drawing has the front of the path of its source. -/
theorem names_defaultOutput (hpath : Path.names file.toList = front ++ [name])
    (hname : ¬ Path.IsStep name) : Path.names (defaultOutput file).toList =
      front ++ [Path.stem name ++ ['.', 'd', 'o', 't']] := by
  rw [defaultOutput, String.toList_ofList]
  exact Path.names_withExtension (by decide) hpath hname

/-- A path to a drawing does not end in a slash. -/
theorem writePath_eq {path : String} {s : List Char}
    (hpath : Path.names path.toList = front ++ [s ++ ['.', 'd', 'o', 't']]) :
    Disk.writePath path = path := by
  obtain ⟨r, hr⟩ := Path.exists_join front (s ++ ['.', 'd', 'o', 't'])
  have htext : path.toList = r ++ (s ++ ['.', 'd', 'o', 't']) := by
    rw [← hr, ← hpath, Path.join_names]
  simp [Disk.writePath, htext]

theorem not_isStep (s : List Char) : ¬ Path.IsStep (s ++ ['.', 'd', 'o', 't']) := by
  intro h
  have hlength : (s ++ ['.', 'd', 'o', 't']).length ≤ 2 := by
    rcases h with h | h | h <;> simp [h]
  simp at hlength

/-- A file has a last name, in the directory that the names before it lead to. -/
theorem exists_last {d : Disk} {place : List String} (hplace : d.locate file = .ok place)
    (hfile : d.isDirectory place = false) : ∃ front name here,
      Path.names file.toList = front ++ [name] ∧ ¬ Path.IsStep name ∧
        d.follow (front.map String.ofList) = .ok here ∧ place = here ++ [String.ofList name] := by
  obtain ⟨front, name, hpath⟩ : ∃ front name, Path.names file.toList = front ++ [name] :=
    ⟨_, _, (List.dropLast_concat_getLast (Path.names_ne_nil _)).symm⟩
  obtain ⟨here, hfront, hlast⟩ := Disk.locate_eq_ok hplace (pathNames_eq hpath)
  obtain ⟨hstep, heq⟩ := Disk.walk_last hlast hfile
  rw [String.toList_ofList] at hstep
  exact ⟨front, name, here, hpath, hstep, hfront, heq⟩

theorem hasExtension_of_stem (hpath : Path.names file.toList = front ++ [name])
    (h : Path.stem name ++ ['.', 'd', 'o', 't'] = name) :
    Path.HasExtension ['d', 'o', 't'] file.toList := by
  obtain ⟨s, hs, hname⟩ := (Path.stem_append_eq (by decide)).mp h
  exact ⟨front, s, hs, by rw [hpath, hname]⟩

theorem defaultOutput_eq (h : Path.HasExtension ['d', 'o', 't'] file.toList) :
    defaultOutput file = file := by
  obtain ⟨front, s, hs, hpath⟩ := h
  rw [defaultOutput, Path.withExtension_eq hpath (not_isStep s), Path.stem_append (by decide) hs,
    ← hpath, Path.join_names, String.ofList_toList]

section

variable {d : Disk} {place : List String}

theorem defaultOutput_eq_iff (hplace : d.locate file = .ok place)
    (hfile : d.isDirectory place = false) :
    defaultOutput file = file ↔ Path.HasExtension ['d', 'o', 't'] file.toList := by
  refine ⟨fun h => ?_, defaultOutput_eq⟩
  obtain ⟨front, name, -, hpath, hstep, -⟩ := exists_last hplace hfile
  have hdrawn := names_defaultOutput hpath hstep
  rw [h, hpath] at hdrawn
  exact hasExtension_of_stem hpath (List.singleton_inj.mp (List.append_cancel_left hdrawn)).symm

/-- A file whose drawing would take its place has the name of a drawing. -/
theorem hasExtension_of_locate (hplace : d.locate file = .ok place)
    (hfile : d.isDirectory place = false)
    (hout : d.locate (Disk.writePath (defaultOutput file)) = .ok place) :
    Path.HasExtension ['d', 'o', 't'] file.toList := by
  obtain ⟨front, name, here, hpath, hstep, hfront, heq⟩ := exists_last hplace hfile
  have hdrawn := names_defaultOutput hpath hstep
  rw [writePath_eq hdrawn] at hout
  obtain ⟨there, hfront', hlast⟩ := Disk.locate_eq_ok hout (pathNames_eq hdrawn)
  obtain ⟨-, heq'⟩ := Disk.walk_last hlast hfile
  -- both paths lead to the same directory first
  obtain rfl : here = there := Except.ok.inj (hfront.symm.trans hfront')
  have hnames := List.singleton_inj.mp (List.append_cancel_left (heq.symm.trans heq'))
  exact hasExtension_of_stem hpath (String.ofList_inj.mp hnames).symm

end

end

/-- A run without a path for the drawing leaves its file as it is, whatever comes of it, unless it
draws a program from a file that has the name of a drawing. There the path of the drawing is that of
the file, which is replaced. -/
theorem runCommand_keeps_source {d : Disk} {args : List String} {o : Options}
    (hargs : Options.ofArguments args = .ok o) (houtput : o.output = none) :
    (∀ e, d.read o.file = .error e → ((runCommand Disk.files args).run d).2 = d) ∧
    ∀ place, d.locate o.file = .ok place →
      ((¬ ∃ p, o.DrawsOverSource d p) →
        ((runCommand Disk.files args).run d).2.bytes? place = d.bytes? place) ∧
      (d.isDirectory place = false →
        (defaultOutput o.file = o.file ↔ Path.HasExtension ['d', 'o', 't'] o.file.toList) ∧
        ∀ p, o.DrawsOverSource d p →
          ((runCommand Disk.files args).run d).2.bytes? place = some (Program.dot p).toUTF8) := by
  have hpath : o.outputPath = defaultOutput o.file := by
    rw [Options.outputPath, houtput]
    rfl
  rw [runCommand, hargs]
  refine ⟨fun e he => ?_, fun place hplace => ⟨fun hother => ?_, fun hfile => ?_⟩⟩
  · rcases o.run_disk d with hsame | ⟨-, s, p, hread, -⟩
    · exact hsame
    · rw [he] at hread
      cases hread
  · rcases o.run_disk d with hsame | ⟨hmode, s, p, hread, hparse, hwrite⟩
    · exact congrArg (Disk.bytes? · place) hsame
    obtain ⟨there, hthere, hfile, hafter⟩ := Disk.write_eq_ok.mp hwrite
    change Disk.bytes? ((o.run Disk.files).run d).2 place = _
    rw [hafter, Disk.bytes?_put, if_neg]
    rintro rfl
    rw [hpath] at hthere
    exact hother ⟨p, hmode, hasExtension_of_locate hplace hfile hthere, s, hread, hparse⟩
  · refine ⟨defaultOutput_eq_iff hplace hfile, ?_⟩
    rintro p ⟨hmode, hextension, s, hread, hparse⟩
    have hsame := defaultOutput_eq hextension
    obtain ⟨front, stem, -, hnames⟩ := hextension
    have hwrite : d.write o.outputPath (Program.dot p) =
        .ok (d.put place (Program.dot p).toUTF8) := by
      rw [hpath, hsame, Disk.write_eq_ok, writePath_eq hnames]
      exact ⟨place, hplace, hfile, rfl⟩
    change Disk.bytes? ((o.run Disk.files).run d).2 place = _
    rw [Options.run_drawing hmode hread hparse, hwrite]
    exact (Disk.bytes?_put ..).trans (if_pos rfl)

/-- A name that begins with its only dot has no extension yet, so `.dot` is drawn beside itself. -/
theorem runCommand_keeps_source_hidden :
    let disk : Disk := ⟨[], [([".dot"], .file "x = 1".toUTF8)]⟩
    let after := ((runCommand Disk.files ["s", ".dot"]).run disk).2
    Options.ofArguments ["s", ".dot"] = .ok ⟨.showAst, ".dot", none⟩ ∧
      after.bytes? [".dot"] = disk.bytes? [".dot"] ∧ (after.bytes? [".dot.dot"]).isSome = true := by
  intro disk after
  have hargs : Options.ofArguments ["s", ".dot"] = .ok ⟨.showAst, ".dot", none⟩ :=
    Options.ofArguments_eq_ok (by decide +kernel)
  have hplace : disk.locate ".dot" = .ok [".dot"] := rfl
  have hother : ¬ ∃ p, Options.DrawsOverSource ⟨.showAst, ".dot", none⟩ disk p := by
    rintro ⟨p, -, ⟨front, stem, hstem, hnames⟩, -⟩
    have hname : [['.', 'd', 'o', 't']] = front ++ [stem ++ ['.', 'd', 'o', 't']] := hnames
    cases front with
    | nil => exact hstem (List.self_eq_append_left.mp (List.singleton_inj.mp hname))
    | cons first front => simp at hname
  obtain ⟨-, hkept⟩ := runCommand_keeps_source (d := disk) hargs rfl
  exact ⟨hargs, (hkept _ hplace).1 hother, by decide +kernel⟩

/-- The drawing of `x.dot` goes to `x.dot`. -/
theorem source_not_kept : (¬ ∀ (d : Disk) (args : List String) (o : Options) (place : List String),
    Options.ofArguments args = .ok o → o.output = none → d.locate o.file = .ok place →
      ((runCommand Disk.files args).run d).2.bytes? place = d.bytes? place) ∧
    ¬ ∀ file, defaultOutput file ≠ file := by
  refine ⟨fun h => ?_, fun h => h "x.dot" rfl⟩
  have hargs : Options.ofArguments ["s", "x.dot"] = .ok ⟨.showAst, "x.dot", none⟩ :=
    Options.ofArguments_eq_ok (by decide +kernel)
  have hkept := h ⟨[], [(["x.dot"], .file "x = 1".toUTF8)]⟩ _ _ ["x.dot"] hargs rfl rfl
  exact absurd hkept (by decide +kernel)

end LuaSyntax
