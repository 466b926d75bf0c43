/-!
Paths: names set apart by slashes.
-/
namespace LuaSyntax.Path

/-- The names in a path. An empty name stands before a leading slash, between two slashes, and after
a trailing one. -/
def names : List Char → List (List Char)
  | [] => [[]]
  | c :: s =>
    if c = '/' then [] :: names s
    else
      match names s with
      | [] => [[c]]
      | name :: rest => (c :: name) :: rest

def join : List (List Char) → List Char
  | [] => []
  | [name] => name
  | name :: rest => name ++ '/' :: join rest

theorem names_ne_nil (s : List Char) : names s ≠ [] := by
  cases s with
  | nil => simp [names]
  | cons c s =>
    unfold names
    split
    · simp
    · split <;> simp

theorem join_names (s : List Char) : join (names s) = s := by
  induction s with
  | nil => rfl
  | cons c s ih =>
    cases hn : names s with
    | nil => exact absurd hn (names_ne_nil s)
    | cons name rest =>
      rw [hn] at ih
      by_cases h : c = '/'
      · simpa [names, h, hn, join] using ih
      · cases rest with
        | nil => simpa [names, h, hn, join] using ih
        | cons name' rest => simpa [names, h, hn, join] using ih

/-- What comes before the last dot, or everything if there is none or it is the first character. -/
def stem (name : List Char) : List Char :=
  match (name.reverse.dropWhile (· ≠ '.')).tail.reverse with
  | [] => name
  | before => before

/-- The path with the extension of its last name replaced, or added if it has none. Slashes after
that name are dropped, and single dots there; if it is two dots, or there is none, nothing changes. -/
def withExtension (extension path : List Char) : List Char :=
  match (names path).reverse.dropWhile fun name => name = [] || name = ['.'] with
  | [] => path
  | name :: front =>
    if name = ['.', '.'] then path
    else join (front.reverse ++ [stem name ++ '.' :: extension])

end LuaSyntax.Path
