import LuaSyntax.Proofs.Forest

/-!
A drawing is rebuilt from the lines of its graph. Under a box hang the boxes that its edges lead to,
in the order of the edges; where a drawing stands among the lines, what is found from its first box
on is the drawing.
-/
namespace LuaSyntax

def GraphLine.boxOf? (id : Nat) : GraphLine → Option Box
  | node other box => if other = id then some box else none
  | edge _ _ => none

/-- The box that is declared with a number. -/
def boxAt? (lines : List GraphLine) (id : Nat) : Option Box :=
  lines.findSome? (GraphLine.boxOf? id)

/-- The boxes that the edges of a box lead to, in the order of the edges. -/
def childrenAt (lines : List GraphLine) (id : Nat) : List Nat :=
  ((edgesIn lines).filter (·.1 = id)).map Prod.snd

/-- The drawing that is found from a box on, if it is not too deep. -/
def treeAt (lines : List GraphLine) : Nat → Nat → Option Drawing
  | 0, _ => none
  | depth + 1, id => do
    let box ← boxAt? lines id
    let ds ← (childrenAt lines id).mapM (treeAt lines depth)
    return .node box ds

/-- The drawing that starts with the first box. -/
def Canvas.tree? (c : Canvas) : Option Drawing := treeAt c.lines c.size 1

/-- The same is found in both for the numbers after `n` and up to `m`. -/
def Agree (n m : Nat) (xs ys : List GraphLine) : Prop :=
  ∀ id, n < id → id ≤ m → boxAt? xs id = boxAt? ys id ∧ childrenAt xs id = childrenAt ys id

section

variable {xs ys zs : List GraphLine} {id n m k : Nat}

theorem boxAt?_append : boxAt? (xs ++ ys) id = (boxAt? xs id).or (boxAt? ys id) :=
  List.findSome?_append

theorem childrenAt_append : childrenAt (xs ++ ys) id = childrenAt xs id ++ childrenAt ys id := by
  simp [childrenAt, edgesIn_append]

theorem childrenAt_eq_nil (h : ∀ e ∈ edgesIn xs, e.1 ≠ id) : childrenAt xs id = [] := by
  simpa [childrenAt] using h

theorem boxAt?_isSome : (boxAt? xs id).isSome ↔ id ∈ declaredIn xs := by
  induction xs with
  | nil => simp [boxAt?, declaredIn]
  | cons x xs ih =>
    cases x with
    | node other box =>
      by_cases h : other = id
      · simp [boxAt?, declaredIn, GraphLine.boxOf?, GraphLine.id?, h]
      · simpa [boxAt?, declaredIn, GraphLine.boxOf?, GraphLine.id?, h, Ne.symm h] using ih
    | edge source target => simpa [boxAt?, declaredIn, GraphLine.boxOf?, GraphLine.id?] using ih

/-- Lines that say nothing of these numbers make no difference behind others. -/
theorem Agree.left (h : Agree n m xs (ys ++ zs)) (hkm : k ≤ m)
    (hdeclared : ∀ id, n < id → id ≤ k → id ∈ declaredIn ys)
    (hsource : ∀ id, n < id → id ≤ k → ∀ e ∈ edgesIn zs, e.1 ≠ id) : Agree n k xs ys := by
  intro id hn hk
  obtain ⟨hbox, hchildren⟩ := h id hn (Nat.le_trans hk hkm)
  have hsome : (boxAt? ys id).isSome := boxAt?_isSome.mpr (hdeclared id hn hk)
  have hnone : childrenAt zs id = [] := childrenAt_eq_nil (hsource id hn hk)
  rw [hbox, hchildren, boxAt?_append, childrenAt_append, hnone, List.append_nil,
    Option.or_of_isSome hsome]
  exact ⟨rfl, rfl⟩

/-- And none in front of others. -/
theorem Agree.right (h : Agree n m xs (ys ++ zs)) (hnk : n ≤ k)
    (hdeclared : ∀ id, k < id → id ∉ declaredIn ys)
    (hsource : ∀ id, k < id → ∀ e ∈ edgesIn ys, e.1 ≠ id) : Agree k m xs zs := by
  intro id hk hm
  obtain ⟨hbox, hchildren⟩ := h id (Nat.lt_of_le_of_lt hnk hk) hm
  have hnone : boxAt? ys id = none := by
    rw [← Option.not_isSome_iff_eq_none, boxAt?_isSome]
    exact hdeclared id hk
  have hempty : childrenAt ys id = [] := childrenAt_eq_nil (hsource id hk)
  rw [hbox, hchildren, boxAt?_append, childrenAt_append, hnone, hempty]
  exact ⟨rfl, rfl⟩

end

namespace Drawing

/-- Only the parent and the boxes of the drawings have edges. -/
theorem source_childLines {parent n : Nat} (ds : List Drawing) :
    ∀ e ∈ edgesIn (childLines parent n ds), e.1 = parent ∨ n < e.1 := by
  induction ds generalizing n with
  | nil =>
    intro e he
    cases he
  | cons d ds ih =>
    intro e he
    rw [childLines, edgesIn_append, List.mem_append] at he
    rcases he with he | he
    · have h := d.forward_lines n e he
      omega
    rcases List.mem_cons.mp he with rfl | he
    · exact .inl rfl
    · have h := ih e he
      omega

section

variable {ls : List GraphLine} {parent n : Nat} {d : Drawing} {ds : List Drawing}

theorem agree_first (hparent : parent ≤ n)
    (h : Agree n (n + Rose.sizes (d :: ds)) ls (childLines parent n (d :: ds))) :
    Agree n (n + d.size) ls (d.lines n) := by
  rw [Rose.sizes] at h
  refine Agree.left h (by omega) (fun id hn hk => ?_) fun id hn hk e he => ?_
  · rw [declaredIn_lines, List.mem_range'_1]
    omega
  · rcases List.mem_cons.mp he with rfl | he
    · simp only
      omega
    · have hsource := source_childLines ds e he
      omega

theorem agree_rest (hparent : parent ≤ n)
    (h : Agree n (n + Rose.sizes (d :: ds)) ls (childLines parent n (d :: ds))) :
    Agree (n + d.size) (n + d.size + Rose.sizes ds) ls (childLines parent (n + d.size) ds) := by
  have hsplit : childLines parent n (d :: ds) =
      (d.lines n ++ [.edge parent (n + 1)]) ++ childLines parent (n + d.size) ds := by
    simp [childLines]
  rw [hsplit, Rose.sizes, ← Nat.add_assoc] at h
  refine Agree.right h (Nat.le_add_right n d.size) (fun id hk => ?_) fun id hk e he => ?_
  · have hdeclared : declaredIn (d.lines n ++ [.edge parent (n + 1)]) =
        List.range' (n + 1) d.size := by
      rw [declaredIn_append, declaredIn_lines]
      exact List.append_nil _
    rw [hdeclared, List.mem_range'_1]
    omega
  · rw [edgesIn_append, List.mem_append] at he
    rcases he with he | he
    · have hforward := d.forward_lines n e he
      omega
    · obtain rfl : e = (parent, n + 1) := List.mem_singleton.mp he
      simp only
      omega

theorem childrenAt_childLines_cons (hparent : parent ≤ n) :
    childrenAt (childLines parent n (d :: ds)) parent =
      (n + 1) :: childrenAt (childLines parent (n + d.size) ds) parent := by
  have hnone : childrenAt (d.lines n) parent = [] := by
    refine childrenAt_eq_nil fun e he => ?_
    have hforward := d.forward_lines n e he
    omega
  rw [childLines, childrenAt_append, hnone]
  simp [childrenAt, edgesIn, GraphLine.edge?]

end

mutual

/-- Where the lines agree with those of a drawing, the drawing is found. -/
theorem treeAt_lines {ls : List GraphLine} {n depth : Nat} : (d : Drawing) →
    Agree n (n + d.size) ls (d.lines n) → d.size ≤ depth → treeAt ls depth (n + 1) = some d
  | .node box ds => by
    intro h hdepth
    rw [Rose.size] at h hdepth
    obtain ⟨depth, rfl⟩ : ∃ k, depth = k + 1 := Nat.exists_eq_add_one_of_ne_zero (by omega)
    obtain ⟨hbox, hchildren⟩ := h (n + 1) (by omega) (by omega)
    have hfirst : boxAt? (lines n (.node box ds)) (n + 1) = some box := by
      simp [boxAt?, lines, GraphLine.boxOf?]
    have hbelow : Agree (n + 1) (n + 1 + Rose.sizes ds) ls (childLines (n + 1) (n + 1) ds) := by
      have hsplit : Agree n (n + 1 + Rose.sizes ds) ls
          ([.node (n + 1) box] ++ childLines (n + 1) (n + 1) ds) := by
        rwa [Nat.add_right_comm]
      refine hsplit.right (by omega) (fun id hid hmem => ?_) (fun _ _ => nofun)
      obtain rfl : id = n + 1 := List.mem_singleton.mp hmem
      omega
    have hrest := mapM_treeAt_childLines (Nat.le_refl (n + 1)) ds hbelow (by omega : _ ≤ depth)
    have hsame : childrenAt (lines n (.node box ds)) (n + 1) =
        childrenAt (childLines (n + 1) (n + 1) ds) (n + 1) := rfl
    rw [treeAt, hbox, hfirst, hchildren, hsame, hrest]
    rfl

theorem mapM_treeAt_childLines {ls : List GraphLine} {parent n depth : Nat}
    (hparent : parent ≤ n) : (ds : List Drawing) →
      Agree n (n + Rose.sizes ds) ls (childLines parent n ds) → Rose.sizes ds ≤ depth →
      (childrenAt (childLines parent n ds) parent).mapM (treeAt ls depth) = some ds
  | [] => fun _ _ => rfl
  | d :: ds => by
    intro h hdepth
    have hsizes : Rose.sizes (d :: ds) = d.size + Rose.sizes ds := rfl
    have hfirst := treeAt_lines d (agree_first hparent h) (by omega : d.size ≤ depth)
    have hrest := mapM_treeAt_childLines (by omega) ds (agree_rest hparent h)
      (by omega : Rose.sizes ds ≤ depth)
    rw [childrenAt_childLines_cons hparent, List.mapM_cons, hfirst, hrest]
    rfl

end

end Drawing

theorem Canvas.tree?_add (d : Drawing) : (Canvas.empty.add d).tree? = some d := by
  have hsize : (Canvas.empty.add d).size = d.size := Nat.zero_add _
  rw [tree?, hsize]
  exact Drawing.treeAt_lines d (fun _ _ _ => ⟨rfl, rfl⟩) (Nat.le_refl _)

end LuaSyntax
