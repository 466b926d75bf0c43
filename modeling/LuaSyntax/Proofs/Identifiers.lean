import LuaSyntax.Proofs.LeafOrder
import LuaSyntax.Proofs.LongestLexeme
import LuaSyntax.Proofs.Provenance
import LuaSyntax.Proofs.Respacing

/-!
The names in a tree. A path is made of identifiers with one dot between each two, and no identifier
has a dot in it; so a path that is split at its dots gives the names that it was made from.
-/
namespace LuaSyntax

/-- A word that is not reserved. -/
structure IsIdentifier (s : String) : Prop where
  word : s.toList ∈ Lexeme.word
  not_reserved : s ∉ Lexeme.reserved

/-- What stands between the dots of a path. -/
def pathSegments (path : String) : List String := (path.toList.splitOn '.').map String.ofList

/-- The texts of the names among some tokens. -/
def nameTexts (ts : List Token) : List String :=
  (ts.filter fun t => t.kind = .name).map Token.text

/-- A path that is made from the names among these tokens, which write it. -/
structure IsPathOf (ts : List Token) (path : String) : Prop where
  spelled : SpellsPath ts path
  names_ne_nil : nameTexts ts ≠ []
  identifiers : ∀ n ∈ nameTexts ts, IsIdentifier n
  joined : path = ".".intercalate (nameTexts ts)
  split : pathSegments path = nameTexts ts

/-- An identifier that stands alone and is the text of one of the tokens. -/
structure IsNameOf (all : List Token) (name : String) : Prop where
  token : HasName all name
  identifier : IsIdentifier name
  split : pathSegments name = [name]

/-- The names in a node itself. -/
def Part.NamedIn (all : List Token) : Part → Prop
  | expr _ (.name path) | expr _ (.var path) => ∃ ts, ts <:+: all ∧ IsPathOf ts path
  | expr _ (.function params _) => ∀ n ∈ params, IsNameOf all n
  | stmt (.assign (.assignment true targets _)) => ∀ x ∈ targets, ∃ n, x = .var n ∧ IsNameOf all n
  | stmt (.numericFor (.assignment _ targets _) _ _ _) => ∃ n, targets = [.var n] ∧ IsNameOf all n
  | stmt (.genericFor names _ _) => ∀ n ∈ names, IsNameOf all n
  | _ => True

theorem Lexeme.classifies_of_mem_tokenize {source : String} {t : Token} (h : t ∈ tokenize source)
    (hkind : t.kind ≠ .string) : Classifies t.text.toList t.kind := by
  obtain ⟨c, s, hscan⟩ := isLexeme_of_mem_tokenize h
  exact (scan_longest hscan hkind).2

theorem isIdentifier_of_mem_tokenize {source : String} {t : Token} (h : t ∈ tokenize source)
    (hname : t.kind = .name) : IsIdentifier t.text := by
  have hclass := Lexeme.classifies_of_mem_tokenize h (by simp [hname])
  rw [hname] at hclass
  have hreserved := hclass.reserved.not.mpr (by simp)
  exact ⟨hclass.word.mpr (.inl rfl), by rwa [String.ofList_toList] at hreserved⟩

theorem IsIdentifier.dot_notMem {s : String} (h : IsIdentifier s) : '.' ∉ s.toList := by
  intro hmem
  obtain ⟨c, r, hs, hc⟩ := Lexeme.head_word h.word
  have hword := h.word
  rw [hs] at hmem hword
  have hrest := (Lexeme.cons_mem_word.mp hword).2
  rcases List.mem_cons.mp hmem with rfl | hmem
  · cases hc
  · cases hrest '.' hmem

section

variable {ts : List Token} {path : String}

theorem nameTexts_append (ts us : List Token) :
    nameTexts (ts ++ us) = nameTexts ts ++ nameTexts us := by
  rw [nameTexts, List.filter_append, List.map_append]
  rfl

theorem SpellsPath.names_ne_nil (h : SpellsPath ts path) : nameTexts ts ≠ [] := by
  induction h with
  | name hn => simp [nameTexts, hn]
  | parens hl _ hr ih => simpa [nameTexts, hl, hr] using ih
  | longer _ _ hn _ => simp [nameTexts, hn]

/-- By induction on how the path is written. Only its last name is added to the ones before. -/
theorem SpellsPath.joined (h : SpellsPath ts path) : path = ".".intercalate (nameTexts ts) := by
  induction h with
  | name hn => simp [nameTexts, hn]
  | parens hl _ hr ih => simpa [nameTexts, hl, hr] using ih
  | @longer ts path d n hfront hd hn ih =>
    have hlast : nameTexts [d, n] = [n.text] := by
      rcases hd with hd | hd <;> simp [nameTexts, hd, hn]
    rw [nameTexts_append, hlast,
      String.intercalate_append_of_ne_nil hfront.names_ne_nil (List.cons_ne_nil _ _), ← ih,
      String.intercalate_singleton]
    rfl

/-- Where no name has a dot in it the dots of a path are those between its names. -/
theorem SpellsPath.split (h : SpellsPath ts path) (hnames : ∀ n ∈ nameTexts ts, '.' ∉ n.toList) :
    pathSegments path = nameTexts ts := by
  have hne : (nameTexts ts).map String.toList ≠ [] := by simpa using h.names_ne_nil
  have hdots : ∀ l ∈ (nameTexts ts).map String.toList, '.' ∉ l := List.forall_mem_map.mpr hnames
  have hlist : path.toList = ['.'].intercalate ((nameTexts ts).map String.toList) := by
    rw [h.joined, String.toList_intercalate]
    rfl
  rw [pathSegments, hlist, List.splitOn_intercalate '.' hdots hne, List.map_map]
  exact List.map_id'' (fun n => String.ofList_toList) _

end

section

variable {source : String}

theorem HasPath.isPathOf {path : String} (h : HasPath (tokenize source) path) :
    ∃ ts, ts <:+: tokenize source ∧ IsPathOf ts path := by
  obtain ⟨ts, hts, hspelled⟩ := h
  have hnames : ∀ n ∈ nameTexts ts, IsIdentifier n := by
    intro n hn
    obtain ⟨t, ht, rfl⟩ := List.mem_map.mp hn
    obtain ⟨ht, hkind⟩ := List.mem_filter.mp ht
    exact isIdentifier_of_mem_tokenize (hts.subset ht) (by simpa using hkind)
  exact ⟨ts, hts, hspelled, hspelled.names_ne_nil, hnames, hspelled.joined,
    hspelled.split fun n hn => (hnames n hn).dot_notMem⟩

theorem HasName.isNameOf {n : String} (h : HasName (tokenize source) n) :
    IsNameOf (tokenize source) n := by
  obtain ⟨t, ht, hkind, rfl⟩ := h
  have hname := isIdentifier_of_mem_tokenize ht hkind
  refine ⟨⟨t, ht, hkind, rfl⟩, hname, ?_⟩
  rw [pathSegments, List.splitOn_eq_singleton hname.dot_notMem, List.map_singleton,
    String.ofList_toList]

theorem Part.namedIn_of_saidBy {x : Part} (h : x.SaidBy (tokenize source)) :
    x.NamedIn (tokenize source) := by
  cases x with
  | expr role e =>
    cases e with
    | name path | var path => exact HasPath.isPathOf h
    | function params body => exact fun n hn => (h n hn).isNameOf
    | _ => trivial
  | stmt s =>
    cases s with
    | assign a =>
      obtain ⟨isLocal, targets, values⟩ := a
      cases isLocal with
      | false => trivial
      | true =>
        obtain ⟨ns, rfl, hns⟩ := h
        exact List.forall_mem_map.mpr fun n hn => ⟨n, rfl, (hns n hn).isNameOf⟩
    | numericFor start limit step body =>
      obtain ⟨isLocal, targets, values⟩ := start
      obtain ⟨n, htargets, hn⟩ := h
      exact ⟨n, htargets, hn.isNameOf⟩
    | genericFor names values body => exact fun n hn => (h n hn).isNameOf
    | _ => trivial
  | _ => trivial

end

/-- Every path in a program that is read from a source is made of identifiers with dots between
them, and split at the dots it gives the names that stand for it in the source; parameters,
variables of loops and local targets are one identifier each. So split, the names come in their
order. -/
theorem names_areIdentifiers {source : String} {log : Log} {p : Program}
    (h : (parseInto log source).1 = .ok p) :
    (Part.program p).Everywhere (Part.NamedIn (tokenize source)) ∧
      blockLeaves p = tokenLeaves [] (tokenize source) := by
  rw [result_parseInto] at h
  have hreads := (parse_eq_ok_iff.mp h).reads [] Nesting.inBody_nil
  exact ⟨(readFrom_of_parse h).imp fun _ => Part.namedIn_of_saidBy,
    (hreads fun t ht => plain_of_mem_tokenize ht).1.symm⟩

/-- A method, and a path that goes on behind parentheses, in a source with an illegal character. -/
theorem names_areIdentifiers_method : ∃ p,
    (parseInto .empty "function a.b:c(x) local y (p.q).r = x $ end").1 = .ok p ∧
      (Part.program p).Everywhere
        (Part.NamedIn (tokenize "function a.b:c(x) local y (p.q).r = x $ end")) ∧
      blockLeaves p = ["a", "b", "c", "x", "y", "p", "q", "r", "x"].map .text := by
  have hparses :
      (parse (tokenize "function a.b:c(x) local y (p.q).r = x $ end")).toBool = true := by
    decide +kernel
  cases h : parse (tokenize "function a.b:c(x) local y (p.q).r = x $ end") with
  | error e => simp [h, Except.toBool] at hparses
  | ok p =>
    have hresult := (result_parseInto _ .empty).trans h
    obtain ⟨hnames, hleaves⟩ := names_areIdentifiers hresult
    exact ⟨p, hresult, hnames, hleaves.trans (by decide +kernel)⟩

end LuaSyntax
