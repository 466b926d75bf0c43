import LuaSyntax.Command.Disk

/-!
Where paths lead. The last name of a path is all that its extension changes, and a path leads to the
directory that the names before it lead to, and there to what has that name.
-/
namespace LuaSyntax

namespace Path

variable {extension name path : List Char} {front ns : List (List Char)}

/-- The last name of the path is some text, a dot, and the extension. -/
def HasExtension (extension path : List Char) : Prop :=
  ∃ front stem, stem ≠ [] ∧ names path = front ++ [stem ++ '.' :: extension]

/-- A name that stands for a directory: the one it is in, or the one above. -/
def IsStep (name : List Char) : Prop := name = [] ∨ name = ['.'] ∨ name = ['.', '.']

theorem names_append_slash (h : '/' ∉ name) (s : List Char) :
    names (name ++ '/' :: s) = name :: names s := by
  induction name with
  | nil => simp [names]
  | cons c name ih =>
    obtain ⟨hc, hname⟩ := List.ne_and_not_mem_of_not_mem_cons h
    simp [names, hc.symm, ih hname]

theorem names_of_notMem (h : '/' ∉ name) : names name = [name] := by
  induction name with
  | nil => rfl
  | cons c name ih =>
    obtain ⟨hc, hname⟩ := List.ne_and_not_mem_of_not_mem_cons h
    simp [names, hc.symm, ih hname]

theorem slash_notMem (path : List Char) : ∀ name ∈ names path, '/' ∉ name := by
  induction path with
  | nil => simp [names]
  | cons c path ih =>
    by_cases hc : c = '/'
    · simpa [names, hc] using ih
    · cases hns : names path with
      | nil => exact absurd hns (names_ne_nil path)
      | cons name rest =>
        rw [hns] at ih
        obtain ⟨hname, hrest⟩ := List.forall_mem_cons.mp ih
        simpa [names, hc, hns] using ⟨⟨Ne.symm hc, hname⟩, hrest⟩

theorem join_cons (name : List Char) (hns : ns ≠ []) :
    join (name :: ns) = name ++ '/' :: join ns := by
  cases ns with
  | nil => contradiction
  | cons next rest => rfl

/-- Names that are joined are the names of the path. -/
theorem names_join (hne : ns ≠ []) (h : ∀ n ∈ ns, '/' ∉ n) : names (join ns) = ns := by
  induction ns with
  | nil => contradiction
  | cons name rest ih =>
    obtain ⟨hname, hrest⟩ := List.forall_mem_cons.mp h
    by_cases hnil : rest = []
    · rw [hnil]
      exact names_of_notMem hname
    · rw [join_cons name hnil, names_append_slash hname, ih hnil hrest]

theorem exists_join (front : List (List Char)) (name : List Char) :
    ∃ s, join (front ++ [name]) = s ++ name := by
  induction front with
  | nil => exact ⟨[], rfl⟩
  | cons first front ih =>
    obtain ⟨s, hs⟩ := ih
    exact ⟨first ++ '/' :: s, by rw [List.cons_append, join_cons first (by simp), hs]; simp⟩

theorem stem_append (hext : '.' ∉ extension) {s : List Char} (hs : s ≠ []) :
    stem (s ++ '.' :: extension) = s := by
  have hdot : ∀ c ∈ extension.reverse, decide (c ≠ '.') = true := fun c hc =>
    decide_eq_true (ne_of_mem_of_not_mem (List.mem_reverse.mp hc) hext)
  have hreverse : (s ++ '.' :: extension).reverse = extension.reverse ++ '.' :: s.reverse := by simp
  have hdrop : ((s ++ '.' :: extension).reverse.dropWhile (· ≠ '.')).tail.reverse = s := by
    rw [hreverse, List.dropWhile_append_of_pos hdot]
    simp
  rw [stem, hdrop]
  split
  · contradiction
  · rfl

theorem stem_ne_nil (h : name ≠ []) : stem name ≠ [] := by
  unfold stem
  split
  · exact h
  · assumption

theorem mem_of_mem_stem {c : Char} (h : c ∈ stem name) : c ∈ name := by
  unfold stem at h
  split at h
  · exact h
  · exact List.mem_reverse.mp
      ((List.dropWhile_suffix _).subset (List.mem_of_mem_tail (List.mem_reverse.mp h)))

/-- The extension is not changed just if it is the one to be put there. -/
theorem stem_append_eq (hext : '.' ∉ extension) : stem name ++ '.' :: extension = name ↔
    ∃ s, s ≠ [] ∧ name = s ++ '.' :: extension := by
  constructor
  · intro h
    have hne : name ≠ [] := by
      rw [← h]
      simp
    exact ⟨stem name, stem_ne_nil hne, h.symm⟩
  · rintro ⟨s, hs, rfl⟩
    rw [stem_append hext hs]

theorem withExtension_eq (hpath : names path = front ++ [name]) (hname : ¬ IsStep name) :
    withExtension extension path = join (front ++ [stem name ++ '.' :: extension]) := by
  obtain ⟨hempty, hdot, hdots⟩ : name ≠ [] ∧ name ≠ ['.'] ∧ name ≠ ['.', '.'] := by
    simpa [IsStep] using hname
  have hlast : (names path).reverse.dropWhile (fun n => n = [] || n = ['.']) =
      name :: front.reverse := by
    rw [hpath]
    simp [hempty, hdot]
  rw [withExtension, hlast]
  simp [hdots]

theorem names_withExtension (hext : '/' ∉ extension) (hpath : names path = front ++ [name])
    (hname : ¬ IsStep name) :
    names (withExtension extension path) = front ++ [stem name ++ '.' :: extension] := by
  rw [withExtension_eq hpath hname]
  have hslash := hpath ▸ slash_notMem path
  refine names_join (by simp) (List.forall_mem_append.mpr ⟨fun n hn => ?_, ?_⟩)
  · exact hslash n (List.mem_append_left _ hn)
  · have hstem : '/' ∉ stem name := fun h => hslash name (by simp) (mem_of_mem_stem h)
    simpa using ⟨hstem, hext⟩

end Path

namespace Disk

variable {d : Disk} {place here : List String} {path : String}

theorem enter_eq_ok (h : d.enter place = .ok here) : here = place ∧ d.isDirectory place = true := by
  unfold enter at h
  split at h
  · rename_i hdirectory
    exact ⟨(Except.ok.inj h).symm, hdirectory⟩
  · split at h <;> cases h

theorem walk_append (place ns ms : List String) :
    d.walk place (ns ++ ms) = (d.walk place ns).bind fun here => d.walk here ms := by
  induction ns generalizing place with
  | nil => rfl
  | cons name ns ih =>
    simp only [List.cons_append, walk, ih]
    cases d.enter place with
    | error e => rfl
    | ok here =>
      change (if _ then _ else _) = Except.bind (if _ then _ else _) _
      split
      · rfl
      · split
        · rfl
        · split <;> rfl

/-- Above a directory there are only directories. -/
theorem isDirectory_dropLast (h : d.isDirectory place = true) :
    d.isDirectory place.dropLast = true := by
  by_cases hne : place = []
  · rwa [hne] at h ⊢
  have hfront : place.dropLast <+: place := List.dropLast_prefix place
  have hshort : place.dropLast.length < place.length := by
    rw [List.length_dropLast]
    exact Nat.sub_lt (List.length_pos_iff.mpr hne) Nat.one_pos
  simp only [isDirectory, Bool.or_eq_true, List.any_eq_true, Bool.and_eq_true, decide_eq_true_eq,
    List.isPrefixOf_iff_prefix] at h ⊢
  rcases h with hhome | ⟨⟨key, entry⟩, hmem, ⟨rfl, -⟩ | ⟨hlt, hkey⟩⟩
  · exact .inl (hfront.trans hhome)
  · exact .inr ⟨⟨key, entry⟩, hmem, .inr ⟨hshort, hfront⟩⟩
  · exact .inr ⟨⟨key, entry⟩, hmem, .inr ⟨Nat.lt_trans hshort hlt, hfront.trans hkey⟩⟩

theorem isStep_toList {name : String} :
    Path.IsStep name.toList ↔ name = "" ∨ name = "." ∨ name = ".." := by
  have hempty : name.toList = "".toList ↔ name = "" := String.toList_inj
  have hdot : name.toList = ".".toList ↔ name = "." := String.toList_inj
  have hdots : name.toList = "..".toList ↔ name = ".." := String.toList_inj
  exact or_congr hempty (or_congr hdot hdots)

/-- What is no directory has the last name of a path to it. -/
theorem walk_last {name : String} (h : d.walk here [name] = .ok place)
    (hfile : d.isDirectory place = false) : ¬ Path.IsStep name.toList ∧ place = here ++ [name] := by
  rw [isStep_toList]
  simp only [walk] at h
  cases henter : d.enter here with
  | error e =>
    rw [henter] at h
    cases h
  | ok entered =>
    obtain ⟨rfl, hdirectory⟩ := enter_eq_ok henter
    rw [henter] at h
    change (if _ then _ else if _ then _ else if _ then _ else _) = Except.ok place at h
    split at h
    · obtain rfl := Except.ok.inj h
      rw [hdirectory] at hfile
      cases hfile
    split at h
    · obtain rfl := Except.ok.inj h
      rw [isDirectory_dropLast hdirectory] at hfile
      cases hfile
    split at h
    · cases h
    · simp_all

/-- Where names lead to from the root, if an empty one comes first, or from the home directory. -/
def follow (d : Disk) : List String → Except FileError (List String)
  | "" :: names => d.walk [] names
  | names => d.walk d.home names

theorem follow_of_head {ns : List String} (h : ns.head? ≠ some "") :
    d.follow ns = d.walk d.home ns := by
  unfold follow
  split
  · exact absurd rfl h
  · rfl

theorem follow_append {front : List String} {name : String} (h : front ≠ [] ∨ name ≠ "") :
    d.follow (front ++ [name]) = (d.follow front).bind fun here => d.walk here [name] := by
  cases front with
  | nil =>
    have hname : name ≠ "" := by simpa using h
    exact follow_of_head (by simpa using hname)
  | cons first rest =>
    by_cases hfirst : first = ""
    · subst hfirst
      exact d.walk_append [] rest [name]
    · rw [follow_of_head (by simpa using hfirst), follow_of_head (by simpa using hfirst),
        walk_append]

theorem toList_eq (path : String) :
    path.toList = Path.join ((pathNames path).map String.toList) := by
  rw [pathNames, List.map_map]
  simp [Function.comp_def, Path.join_names]

theorem locate_eq_follow (h : d.locate path = .ok place) :
    d.follow (pathNames path) = .ok place := by
  unfold locate at h
  split at h
  · cases h
  split at h
  · cases h
  exact h

theorem locate_eq_ok {front : List String} {name : String} (h : d.locate path = .ok place)
    (hpath : pathNames path = front ++ [name]) :
    ∃ here, d.follow front = .ok here ∧ d.walk here [name] = .ok place := by
  have hname : front ≠ [] ∨ name ≠ "" := by
    by_cases hnil : front = []
    · refine .inr ?_
      rintro rfl
      obtain rfl : path = "" := by
        rw [← String.toList_inj, toList_eq, hpath, hnil]
        rfl
      cases h
    · exact .inl hnil
  have hfollow := locate_eq_follow h
  rw [hpath, follow_append hname] at hfollow
  cases hfront : d.follow front with
  | error e =>
    rw [hfront] at hfollow
    cases hfollow
  | ok here =>
    rw [hfront] at hfollow
    exact ⟨here, rfl, hfollow⟩

end Disk

end LuaSyntax
