import Scriptlet.Program.Tree

/-!
Reading a tree back from its drawing: the columns before a label tell its depth, and the labels
with their depths tell the tree. Labels may hold anything but a line break.
-/

namespace Scriptlet.Tree

mutual

/-- The labels of a tree with their depths, from the top down. -/
def rows (depth : Nat) : Tree → List (Nat × String)
  | node label children => (depth, label) :: rowsBelow (depth + 1) children

def rowsBelow (depth : Nat) : List Tree → List (Nat × String)
  | [] => []
  | t :: ts => t.rows depth ++ rowsBelow depth ts

end

mutual

def labels : Tree → List String
  | node label children => label :: labelsBelow children

def labelsBelow : List Tree → List String
  | [] => []
  | t :: ts => t.labels ++ labelsBelow ts

end

/-! ### From rows to trees -/

/-- The trees whose labels and depths are listed: below a row stand the deeper rows behind it. -/
def ofRows : List (Nat × String) → List Tree
  | [] => []
  | (depth, label) :: rows =>
    node label (ofRows (rows.takeWhile (depth < ·.1))) :: ofRows (rows.dropWhile (depth < ·.1))
termination_by rows => rows.length
decreasing_by
  · exact Nat.lt_succ_of_le (List.takeWhile_prefix _).length_le
  · exact Nat.lt_succ_of_le (List.dropWhile_suffix _).length_le

mutual

theorem le_of_mem_rows {row : Nat × String} {depth : Nat} :
    (t : Tree) → row ∈ t.rows depth → depth ≤ row.1
  | node label children, h => by
    rcases List.mem_cons.mp h with rfl | h
    · exact Nat.le_refl depth
    · have hbelow := le_of_mem_rowsBelow children h
      omega

theorem le_of_mem_rowsBelow {row : Nat × String} {depth : Nat} :
    (ts : List Tree) → row ∈ rowsBelow depth ts → depth ≤ row.1
  | t :: ts, h => by
    rcases List.mem_append.mp h with h | h
    · exact le_of_mem_rows t h
    · exact le_of_mem_rowsBelow ts h

end

/-- The next sibling is not deeper, so the deeper rows in front of it are exactly the children's. -/
theorem ofRows_rowsBelow : (depth : Nat) → (ts : List Tree) → ofRows (rowsBelow depth ts) = ts
  | depth, [] => by rw [rowsBelow, ofRows]
  | depth, node label children :: ts => by
    have hdeeper : ∀ row ∈ rowsBelow (depth + 1) children, decide (depth < row.1) = true :=
      fun row hrow => decide_eq_true (le_of_mem_rowsBelow children hrow)
    have hsibling : (rowsBelow depth ts).takeWhile (depth < ·.1) = [] ∧
        (rowsBelow depth ts).dropWhile (depth < ·.1) = rowsBelow depth ts := by
      cases ts with
      | nil => exact ⟨rfl, rfl⟩
      | cons t ts =>
        obtain ⟨label, children⟩ := t
        simp [rowsBelow, rows]
    rw [rowsBelow, rows, List.cons_append, ofRows, List.takeWhile_append_of_pos hdeeper,
      List.dropWhile_append_of_pos hdeeper, hsibling.1, hsibling.2, List.append_nil,
      ofRows_rowsBelow (depth + 1) children, ofRows_rowsBelow depth ts]

/-! ### From lines to rows -/

/-- The depth and the label that a line below the root shows. -/
def row : List Char → Nat × String
  | '+' :: '-' :: '-' :: label => (1, String.ofList label)
  | _ :: _ :: _ :: line => ((row line).1 + 1, (row line).2)
  | _ => (0, "")

/-- Columns that push what stands behind them `k` deeper. -/
def Columns (k : Nat) (margin : String) : Prop :=
  ∀ line, row (margin.toList ++ line) = ((row line).1 + k, (row line).2)

theorem columns_nil : Columns 0 "" := fun _ => rfl

theorem columns_bar : Columns 1 "|  " := fun _ => rfl

theorem columns_blank : Columns 1 "   " := fun _ => rfl

theorem Columns.append {k n : Nat} {margin column : String} (h : Columns k margin)
    (hcolumn : Columns n column) : Columns (k + n) (margin ++ column) := by
  intro line
  rw [String.toList_append, List.append_assoc, h, hcolumn, Nat.add_assoc, Nat.add_comm n k]

theorem Columns.row_label {k : Nat} {margin : String} (h : Columns k margin) (label : String) :
    row (margin ++ "+--" ++ label).toList = (k + 1, label) := by
  rw [String.toList_append, String.toList_append, List.append_assoc, h]
  show (1 + k, String.ofList label.toList) = _
  rw [String.ofList_toList, Nat.add_comm]

mutual

theorem map_row_lines {k : Nat} {margin below : String} (h : Columns k margin)
    (hbelow : Columns (k + 1) below) :
    (t : Tree) → (t.lines (margin ++ "+--") below).map (row ·.toList) = t.rows (k + 1)
  | node label children => by
    rw [lines, List.map_cons, h.row_label, map_row_linesBelow hbelow children, rows]

theorem map_row_linesBelow {k : Nat} {margin : String} (h : Columns k margin) :
    (ts : List Tree) → (linesBelow margin ts).map (row ·.toList) = rowsBelow (k + 1) ts
  | [] => rfl
  | [t] => by
    rw [linesBelow, map_row_lines h (h.append columns_blank) t, rowsBelow, rowsBelow,
      List.append_nil]
  | t :: u :: ts => by
    rw [linesBelow, List.map_append, map_row_lines h (h.append columns_bar) t,
      map_row_linesBelow h (u :: ts)]
    rfl

end

/-! ### From drawings to lines -/

def OneLine (text : String) : Prop := '\n' ∉ text.toList

instance (text : String) : Decidable (OneLine text) :=
  inferInstanceAs (Decidable ('\n' ∉ text.toList))

theorem OneLine.append {s t : String} (hs : OneLine s) (ht : OneLine t) : OneLine (s ++ t) := by
  rw [OneLine, String.toList_append, List.mem_append, not_or]
  exact ⟨hs, ht⟩

/-- No label of the tree has a line break in it. -/
def OneLined (t : Tree) : Prop := ∀ label ∈ t.labels, OneLine label

def OneLinedBelow (ts : List Tree) : Prop := ∀ label ∈ labelsBelow ts, OneLine label

theorem oneLined_node {label : String} {children : List Tree} :
    (node label children).OneLined ↔ OneLine label ∧ OneLinedBelow children :=
  List.forall_mem_cons

theorem oneLinedBelow_nil : OneLinedBelow [] := nofun

theorem oneLinedBelow_cons {t : Tree} {ts : List Tree} :
    OneLinedBelow (t :: ts) ↔ t.OneLined ∧ OneLinedBelow ts := List.forall_mem_append

theorem oneLinedBelow_map {γ : Type} {f : γ → Tree} {as : List γ}
    (h : ∀ a ∈ as, (f a).OneLined) : OneLinedBelow (as.map f) := by
  induction as with
  | nil => exact oneLinedBelow_nil
  | cons a as ih =>
    rw [List.forall_mem_cons] at h
    exact oneLinedBelow_cons.mpr ⟨h.1, ih h.2⟩

theorem oneLined_leaf {tag payload : String} (htag : OneLine tag) (h : OneLine payload) :
    (leaf tag payload).OneLined :=
  oneLined_node.mpr
    ⟨((htag.append (by decide)).append h).append (by decide), oneLinedBelow_nil⟩

mutual

theorem oneLine_lines {lead margin : String} (hlead : OneLine lead) (hmargin : OneLine margin) :
    (t : Tree) → t.OneLined → ∀ line ∈ t.lines lead margin, OneLine line
  | node label children, h => by
    rw [oneLined_node] at h
    rw [lines, List.forall_mem_cons]
    exact ⟨hlead.append h.1, oneLine_linesBelow hmargin children h.2⟩

theorem oneLine_linesBelow {margin : String} (hmargin : OneLine margin) :
    (ts : List Tree) → OneLinedBelow ts → ∀ line ∈ linesBelow margin ts, OneLine line
  | [], _ => nofun
  | [t], h => by
    rw [oneLinedBelow_cons] at h
    exact oneLine_lines (hmargin.append (by decide)) (hmargin.append (by decide)) t h.1
  | t :: u :: ts, h => by
    rw [oneLinedBelow_cons] at h
    rw [linesBelow, List.forall_mem_append]
    exact ⟨oneLine_lines (hmargin.append (by decide)) (hmargin.append (by decide)) t h.1,
      oneLine_linesBelow hmargin (u :: ts) h.2⟩

end

/-- The lines of a text whose last line ends with a line break. -/
def textLines (text : String) : List (List Char) := (text.toList.splitOn '\n').dropLast

theorem toList_join_lines (lines : List String) :
    (String.join (lines.map (· ++ "\n"))).toList =
      ['\n'].intercalate (lines.map String.toList ++ [[]]) := by
  induction lines with
  | nil => rfl
  | cons line lines ih =>
    rw [String.toList_join] at ih ⊢
    rw [List.map_cons, List.flatMap_cons, ih, String.toList_append, List.append_assoc]
    cases lines <;> rfl

theorem textLines_join {lines : List String} (h : ∀ line ∈ lines, OneLine line) :
    textLines (String.join (lines.map (· ++ "\n"))) = lines.map String.toList := by
  have hbreak : ∀ line ∈ lines.map String.toList ++ [[]], '\n' ∉ line := by
    rw [List.forall_mem_append, List.forall_mem_map]
    exact ⟨h, by decide⟩
  rw [textLines, toList_join_lines, List.splitOn_intercalate '\n' hbreak (by simp),
    List.dropLast_concat]

/-- The tree of a drawing: its first line is the root. -/
def ofDrawing? (text : String) : Option Tree :=
  match textLines text with
  | [] => none
  | root :: below => some (node (String.ofList root) (ofRows (below.map row)))

/-- A drawing shows its tree, if no label has a line break in it. -/
theorem ofDrawing?_draw {t : Tree} (h : t.OneLined) : ofDrawing? t.draw = some t := by
  have hempty : OneLine "" := by decide
  have hlines : textLines t.draw = (t.lines "" "").map String.toList :=
    textLines_join (oneLine_lines hempty hempty t h)
  obtain ⟨label, children⟩ := t
  have hbelow : ofRows ((linesBelow "" children).map (row ·.toList)) = children := by
    rw [map_row_linesBelow columns_nil children, ofRows_rowsBelow]
  rw [lines, String.empty_append, List.map_cons] at hlines
  simp only [ofDrawing?, hlines, List.map_map, String.ofList_toList]
  exact congrArg (fun ts => some (node label ts)) hbelow

end Scriptlet.Tree
