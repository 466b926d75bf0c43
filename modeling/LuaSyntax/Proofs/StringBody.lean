import LuaSyntax.Source.StringLiteral

/-!
The text of a string after its opening quote, as a grammar of its own. A scan finds the one body at
the front of a text, if there is any.
-/
namespace LuaSyntax.StringLiteral

/-- A text through the closing quote. A backslash hides the next character if the two are an escape
sequence; otherwise it stands for itself. -/
inductive Body (quote : Char) : List Char → Prop
  | close : Body quote [quote]
  | escape {e : Char} {s : List Char} :
      isEscape e = true → Body quote s → Body quote ('\\' :: e :: s)
  | backslash {s : List Char} :
      (∀ e ∈ s.head?, isEscape e = false) → Body quote s → Body quote ('\\' :: s)
  | plain {c : Char} {s : List Char} :
      c ≠ '\n' → c ≠ quote → c ≠ '\\' → Body quote s → Body quote (c :: s)

/-- A character that can open a string. -/
def IsQuote (c : Char) : Prop := c = '"' ∨ c = '\''

theorem IsQuote.ne_newline {c : Char} (h : IsQuote c) : c ≠ '\n' := by
  rcases h with rfl | rfl <;> decide

theorem IsQuote.ne_backslash {c : Char} (h : IsQuote c) : c ≠ '\\' := by
  rcases h with rfl | rfl <;> decide

theorem IsQuote.isQuoteSized {c : Char} (h : IsQuote c) : isQuoteSized c = true := by
  rcases h with rfl | rfl <;> decide

variable {quote c e : Char} {body s : List Char}

theorem scanBody?_quote (hq : IsQuote quote) (s : List Char) :
    scanBody? quote (quote :: s) = some [quote] := by
  rw [scanBody?.eq_def]
  simp [hq.ne_newline]

theorem scanBody?_escape (hq : IsQuote quote) (he : isEscape e = true) (s : List Char) :
    scanBody? quote ('\\' :: e :: s) = (scanBody? quote s).map fun body => '\\' :: e :: body := by
  rw [scanBody?.eq_def]
  simp [hq.ne_backslash.symm, he]

theorem scanBody?_backslash (hq : IsQuote quote) (hs : ∀ e ∈ s.head?, isEscape e = false) :
    scanBody? quote ('\\' :: s) = (scanBody? quote s).map ('\\' :: ·) := by
  rw [scanBody?.eq_def]
  cases s with
  | nil => simp [hq.ne_backslash.symm, scanBody?]
  | cons e s => simp [hq.ne_backslash.symm, hs e rfl]

theorem scanBody?_plain (hline : c ≠ '\n') (hquote : c ≠ quote) (hslash : c ≠ '\\')
    (s : List Char) : scanBody? quote (c :: s) = (scanBody? quote s).map (c :: ·) := by
  rw [scanBody?.eq_def]
  simp [hline, hquote, hslash]

theorem invalidEscapes_escape (he : isEscape e = true) (s : List Char) :
    invalidEscapes ('\\' :: e :: s) = invalidEscapes s := by
  rw [invalidEscapes.eq_def]
  simp [he]

theorem invalidEscapes_backslash (hs : ∀ e ∈ s.head?, isEscape e = false) :
    invalidEscapes ('\\' :: s) = invalidEscapes s + 1 := by
  rw [invalidEscapes.eq_def]
  cases s with
  | nil => rfl
  | cons e s => simp [hs e rfl]

theorem invalidEscapes_plain (hslash : c ≠ '\\') (s : List Char) :
    invalidEscapes (c :: s) = invalidEscapes s := by
  rw [invalidEscapes.eq_def]
  exact if_neg hslash

theorem Body.ne_nil (h : Body quote body) : body ≠ [] := by
  cases h <;> simp

theorem Body.exists_eq_append (h : Body quote body) : ∃ s, body = s ++ [quote] := by
  induction h with
  | close => exact ⟨[], rfl⟩
  | @escape e _ _ _ ih =>
    obtain ⟨s, rfl⟩ := ih
    exact ⟨'\\' :: e :: s, rfl⟩
  | backslash _ _ ih =>
    obtain ⟨s, rfl⟩ := ih
    exact ⟨'\\' :: s, rfl⟩
  | @plain c _ _ _ _ _ ih =>
    obtain ⟨s, rfl⟩ := ih
    exact ⟨c :: s, rfl⟩

theorem Body.of_escape (he : isEscape e = true) (h : Body quote ('\\' :: e :: s)) :
    Body quote s := by
  cases h with
  | escape _ h => exact h
  | backslash hs _ => simp [he] at hs
  | plain _ _ hslash _ => exact absurd rfl hslash

theorem Body.of_backslash (hq : IsQuote quote) (hs : ∀ e ∈ s.head?, isEscape e = false)
    (h : Body quote ('\\' :: s)) : Body quote s := by
  cases h with
  | close => exact absurd rfl hq.ne_backslash
  | escape he _ => simp [he] at hs
  | backslash _ h => exact h
  | plain _ _ hslash _ => exact absurd rfl hslash

theorem Body.of_plain (hslash : c ≠ '\\') (hs : s ≠ []) (h : Body quote (c :: s)) :
    Body quote s := by
  cases h with
  | close => exact absurd rfl hs
  | escape | backslash => exact absurd rfl hslash
  | plain _ _ _ h => exact h

/-- A string ends on the line it starts on. -/
theorem Body.newline_notMem (hq : IsQuote quote) (h : Body quote body) : '\n' ∉ body := by
  induction h with
  | close => simpa using hq.ne_newline.symm
  | @escape e s he _ ih =>
    have hne : '\n' ≠ e := by
      rintro rfl
      cases he
    simp [hne, ih]
  | backslash _ _ ih => simpa using ih
  | plain hline _ _ _ ih => simpa [hline.symm] using ih

theorem Body.scanBody?_append (hq : IsQuote quote) (h : Body quote body) (r : List Char) :
    scanBody? quote (body ++ r) = some body := by
  induction h with
  | close => exact scanBody?_quote hq r
  | escape he _ ih => simp [scanBody?_escape hq he, ih]
  | @backslash s he hs ih =>
    have hhead : ∀ e ∈ (s ++ r).head?, isEscape e = false := by
      cases s with
      | nil => exact absurd rfl hs.ne_nil
      | cons e s => exact he
    simp [scanBody?_backslash hq hhead, ih]
  | plain hline hquote hslash _ ih => simp [scanBody?_plain hline hquote hslash, ih]

theorem body_of_scanBody? (hq : IsQuote quote) (h : scanBody? quote s = some body) :
    Body quote body ∧ body <+: s := by
  induction s using scanBody?.induct quote generalizing body with
  | case1 => cases h
  | case2 r =>
    rw [scanBody?.eq_def] at h
    simp at h
  | case3 r =>
    rw [scanBody?_quote hq] at h
    cases h
    exact ⟨.close, r, rfl⟩
  | case4 =>
    rw [scanBody?_backslash hq (by simp)] at h
    cases h
  | case5 e r he _ _ ih =>
    rw [scanBody?_escape hq he, Option.map_eq_some_iff] at h
    obtain ⟨b, hb, rfl⟩ := h
    obtain ⟨hbody, t, rfl⟩ := ih hb
    exact ⟨.escape he hbody, t, rfl⟩
  | case6 e r he _ _ ih =>
    have hhead : ∀ e' ∈ (e :: r).head?, isEscape e' = false := by simpa using he
    rw [scanBody?_backslash hq hhead, Option.map_eq_some_iff] at h
    obtain ⟨b, hb, rfl⟩ := h
    obtain ⟨hbody, t, ht⟩ := ih hb
    refine ⟨.backslash ?_ hbody, t, by simpa using ht⟩
    cases b with
    | nil => exact absurd rfl hbody.ne_nil
    | cons e' b =>
      obtain rfl : e' = e := (List.cons.inj ht).1
      exact hhead
  | case7 c r hline hquote hslash ih =>
    rw [scanBody?_plain hline hquote hslash, Option.map_eq_some_iff] at h
    obtain ⟨b, hb, rfl⟩ := h
    obtain ⟨hbody, t, rfl⟩ := ih hb
    exact ⟨.plain hline hquote hslash hbody, t, rfl⟩

theorem scanBody?_eq_some (hq : IsQuote quote) :
    scanBody? quote s = some body ↔ Body quote body ∧ body <+: s := by
  refine ⟨body_of_scanBody? hq, ?_⟩
  rintro ⟨h, r, rfl⟩
  exact h.scanBody?_append hq r

theorem scanBody?_eq_none (hq : IsQuote quote) :
    scanBody? quote s = none ↔ ∀ body, Body quote body → ¬ body <+: s := by
  rw [Option.eq_none_iff_forall_ne_some]
  refine forall_congr' fun body => ?_
  rw [ne_eq, scanBody?_eq_some hq, not_and]

end LuaSyntax.StringLiteral
