import InferenceOS.Lib.Program

/-! The grid of characters that a terminal shows: cells in rows and columns, and a cursor that may stand behind the last
    column. Text runs through the rows; at the last one it scrolls. -/

namespace InferenceOS
open Program Function

/-- A grid of cells, `none` where nothing was written since the cell was cleared, and the cursor. -/
@[ext] structure CharacterGrid (α : Type) where
  cells : Nat → Nat → Option α
  row : Nat
  column : Nat

namespace CharacterGrid
variable {α : Type} {rows columns : Nat} {g : CharacterGrid α}

/-- The grid with nothing on it. -/
def blank : CharacterGrid α := ⟨fun _ _ => none, 0, 0⟩

/-- The rows move up by one. -/
def scroll (rows : Nat) (cells : Nat → Nat → Option α) (r c : Nat) : Option α := if r + 1 < rows then cells (r + 1) c else none

/-- The cursor goes to the next row; the last row scrolls. -/
def newline (rows : Nat) (g : CharacterGrid α) : CharacterGrid α :=
  if g.row + 1 < rows then { g with row := g.row + 1, column := 0 }
  else { g with cells := scroll rows g.cells, column := 0 }

/-- A cursor behind the last column goes to the next row. -/
def wrap (rows columns : Nat) (g : CharacterGrid α) : CharacterGrid α := if columns ≤ g.column then g.newline rows else g

/-- A character at the cursor, which moves behind it. -/
def put (a : α) (g : CharacterGrid α) : CharacterGrid α :=
  { g with cells := update g.cells g.row (update (g.cells g.row) g.column (some a)), column := g.column + 1 }

/-- The cursor goes back to the first column. -/
def carriageReturn (g : CharacterGrid α) : CharacterGrid α := { g with column := 0 }

/-- The cursor goes back by a column. -/
def backspace (g : CharacterGrid α) : CharacterGrid α := { g with column := g.column - 1 }

/-- The cursor stands in the grid or behind its last column. -/
structure Within (rows columns : Nat) (g : CharacterGrid α) : Prop where
  row : g.row < rows
  column : g.column ≤ columns

theorem within_blank (hrows : 0 < rows) : Within rows columns (blank : CharacterGrid α) := ⟨hrows, Nat.zero_le _⟩

theorem newline_column : (g.newline rows).column = 0 := by
  unfold newline
  split <;> rfl

theorem wrap_column (hcolumns : 0 < columns) : (g.wrap rows columns).column < columns := by
  unfold CharacterGrid.wrap
  split
  · rwa [newline_column]
  · omega

theorem Within.put {a : α} (h : g.Within rows columns) (hcolumn : g.column < columns) : (g.put a).Within rows columns := ⟨h.row, hcolumn⟩

theorem Within.carriageReturn (h : g.Within rows columns) : g.carriageReturn.Within rows columns := ⟨h.row, Nat.zero_le _⟩

theorem Within.backspace (h : g.Within rows columns) : g.backspace.Within rows columns :=
  ⟨h.row, Nat.le_trans (Nat.sub_le _ _) h.column⟩

/-! ### Reading order -/

/-- The cells show a text from the first one on, the cells behind it are blank, and the cursor stands behind it. -/
structure Reads (space : α) (columns : Nat) (g : CharacterGrid α) (text : List α) : Prop where
  cursor : g.row * columns + g.column = text.length
  column : g.column ≤ columns
  shown : ∀ i a, text[i]? = some a → g.cells (i / columns) (i % columns) = some a
  rest : ∀ i, text.length ≤ i → g.cells (i / columns) (i % columns) = none ∨ g.cells (i / columns) (i % columns) = some space

variable {space a : α} {text : List α} {i n : Nat}

theorem reads_blank : Reads space columns blank [] where
  cursor := Nat.zero_mul _
  column := Nat.zero_le _
  shown := fun i a h => by cases h
  rest := fun i hi => Or.inl rfl

theorem put_cells (hcursor : g.row * columns + g.column = n) (hcolumn : g.column < columns) :
    (g.put a).cells (i / columns) (i % columns) = if i = n then some a else g.cells (i / columns) (i % columns) := by
  have hplace : i / columns = g.row ∧ i % columns = g.column ↔ i = n := by
    rw [Nat.div_mod_unique (Nat.zero_lt_of_lt hcolumn), Nat.mul_comm columns]
    omega
  unfold put
  dsimp only
  by_cases hi : i = n
  · obtain ⟨hrow, hcell⟩ := hplace.mpr hi
    rw [if_pos hi, hrow, hcell, update_self, update_self]
  · rw [if_neg hi]
    by_cases hrow : i / columns = g.row
    · rw [hrow, update_self, update_of_ne fun hcell => hi (hplace.mp ⟨hrow, hcell⟩)]
    · rw [update_of_ne hrow]

theorem Reads.wrap (h : g.Reads space columns text) (hroom : text.length < rows * columns) : (g.wrap rows columns).Reads space columns text := by
  obtain ⟨hcursor, hcolumn, hshown, hrest⟩ := h
  unfold CharacterGrid.wrap
  split
  · rename_i hlast
    have hend : (g.row + 1) * columns = text.length := by
      rw [Nat.succ_mul]
      omega
    have hnext : g.row + 1 < rows := Nat.lt_of_mul_lt_mul_right (hend.symm ▸ hroom)
    unfold CharacterGrid.newline
    rw [if_pos hnext]
    exact ⟨hend, Nat.zero_le _, hshown, hrest⟩
  · exact ⟨hcursor, hcolumn, hshown, hrest⟩

theorem Reads.put (h : g.Reads space columns text) (hcolumn : g.column < columns) : (g.put a).Reads space columns (text ++ [a]) where
  cursor := by
    rw [List.length_append, List.length_singleton, ← h.cursor]
    rfl
  column := hcolumn
  shown := fun i b hi => by
    rw [put_cells h.cursor hcolumn]
    split
    · rename_i hlast
      rwa [hlast, List.getElem?_concat_length] at hi
    · refine h.shown i b ?_
      rwa [List.getElem?_append_left] at hi
      have hlength := (List.getElem?_eq_some_iff.mp hi).1
      rw [List.length_append, List.length_singleton] at hlength
      omega
  rest := fun i hi => by
    rw [List.length_append, List.length_singleton] at hi
    rw [put_cells h.cursor hcolumn, if_neg (by omega)]
    exact h.rest i (by omega)

theorem Reads.erase (h : g.Reads space columns (text ++ [a])) (hcolumn : g.column ≠ 0) :
    (g.backspace.put space).backspace.Reads space columns text := by
  have hcursor := h.cursor
  rw [List.length_append, List.length_singleton] at hcursor
  have hplace : g.backspace.row * columns + g.backspace.column = text.length := by
    unfold CharacterGrid.backspace
    dsimp only
    omega
  have hback : g.backspace.column < columns := Nat.lt_of_lt_of_le (Nat.sub_one_lt hcolumn) h.column
  have hcells : ∀ {i}, (g.backspace.put space).backspace.cells (i / columns) (i % columns) =
      if i = text.length then some space else g.cells (i / columns) (i % columns) := put_cells hplace hback
  refine ⟨hplace, Nat.le_of_lt hback, fun i b hi => ?_, fun i hi => ?_⟩
  · have hlength := (List.getElem?_eq_some_iff.mp hi).1
    rw [hcells, if_neg (Nat.ne_of_lt hlength)]
    exact h.shown i b (by rwa [List.getElem?_append_left hlength])
  · rw [hcells]
    split
    · exact Or.inr rfl
    · refine h.rest i ?_
      rw [List.length_append, List.length_singleton]
      omega

end CharacterGrid
end InferenceOS
