import ApiClients.Manifest.Markdown
import ApiClients.Proofs.Casing
import Mathlib.Data.List.DropRight

/-!
# Cells and rows of tables

A row of a table is one line, and its cells stand between bars.  A bar right behind a backslash is
none that separates cells.  `Closed` says that a cell has no bar that does and no line feed; whatever
a value is, its cell is closed (`closed_cell`), and so is a text without bars and line feeds.  A
row of closed cells is intact: it is one line with one bar more than there are columns
(`intact_of_cells`).  The lines of a manifest are those of which it is made, if none of them has a
line feed inside (`split_join`).
-/

namespace ApiClients.Manifest

open ApiClients.Text

variable {cs rest : List Char} {c : Char} {escaped : Bool}

/-! ### Bars that separate cells -/

/-- The bars in some characters that are not right behind a backslash; `escaped` says whether the
first character is. -/
def openBars (escaped : Bool) : List Char → Nat
  | [] => 0
  | c :: rest => (if c = '|' ∧ escaped = false then 1 else 0) + openBars (c = '\\') rest

theorem openBars_cons_of_ne (h : c ≠ '|') (escaped : Bool) (rest : List Char) :
    openBars escaped (c :: rest) = openBars (c = '\\') rest := by
  simp [openBars, h]

theorem openBars_eq_zero (h : '|' ∉ cs) (escaped : Bool) : openBars escaped cs = 0 := by
  induction cs generalizing escaped with
  | nil => rfl
  | cons c cs ih =>
    rw [List.mem_cons, not_or] at h
    rw [openBars_cons_of_ne (Ne.symm h.1), ih h.2]

/-- Only a bar depends on the character before it. -/
theorem openBars_append (h : rest.head? ≠ some '|') (escaped : Bool) (cs : List Char) :
    openBars escaped (cs ++ rest) = openBars escaped cs + openBars false rest := by
  induction cs generalizing escaped with
  | nil =>
    cases rest with
    | nil => rfl
    | cons c rest =>
      have hc : c ≠ '|' := by simpa using h
      simp [openBars, hc]
  | cons c cs ih =>
    simp only [List.cons_append, openBars, ih]
    omega

theorem openBars_le_of_isPrefix {front : List Char} (h : front <+: cs) (escaped : Bool) :
    openBars escaped front ≤ openBars escaped cs := by
  induction front generalizing cs escaped with
  | nil => exact Nat.zero_le _
  | cons c front ih =>
    obtain ⟨cs, rfl, hrest⟩ := List.cons_prefix_iff.mp h
    have hle := ih hrest (c = '\\')
    simp only [openBars]
    omega

/-! ### Cells -/

/-- Characters that can stand in a cell. -/
structure Closed (cs : List Char) : Prop where
  oneLine : '\n' ∉ cs
  noBars : openBars false cs = 0

/-- Characters that mean nothing to a table. -/
def Plain (cs : List Char) : Prop := '|' ∉ cs ∧ '\n' ∉ cs

instance (cs : List Char) : Decidable (Plain cs) :=
  inferInstanceAs (Decidable ('|' ∉ cs ∧ '\n' ∉ cs))

theorem Plain.closed (h : Plain cs) : Closed cs := ⟨h.2, openBars_eq_zero h.1 false⟩

theorem Plain.append (h : Plain cs) (h' : Plain rest) : Plain (cs ++ rest) := by
  simp only [Plain, List.mem_append, not_or]
  exact ⟨⟨h.1, h'.1⟩, h.2, h'.2⟩

/-- Characters of a class to which neither the bar nor the line feed belongs. -/
theorem plain_of_forall {p : Char → Bool} (h : ∀ c ∈ cs, p c = true) (hbar : p '|' = false)
    (hfeed : p '\n' = false) : Plain cs := by
  constructor
  · intro hmem
    rw [h _ hmem] at hbar
    cases hbar
  · intro hmem
    rw [h _ hmem] at hfeed
    cases hfeed

theorem Closed.code {text : String} (h : Closed text.toList) : Closed (code text).toList := by
  have hcode : (Manifest.code text).toList = '`' :: (text.toList ++ ['`']) := by
    simp [Manifest.code, String.toList_append]
  rw [hcode]
  constructor
  · simp [h.oneLine]
  · rw [openBars_cons_of_ne (by decide), openBars_append (by decide)]
    exact h.noBars

theorem openBars_flatMap_cellChar (escaped : Bool) (cs : List Char) :
    openBars escaped (cs.flatMap cellChar) = 0 := by
  induction cs generalizing escaped with
  | nil => rfl
  | cons c cs ih =>
    rw [List.flatMap_cons, cellChar]
    split
    · simp [openBars, ih]
    · rename_i hbar
      split
      · simp [openBars, ih]
      · simp [openBars, hbar, ih]

theorem notMem_flatMap_cellChar (cs : List Char) : '\n' ∉ cs.flatMap cellChar := by
  intro h
  obtain ⟨c, -, hc⟩ := List.mem_flatMap.mp h
  rw [cellChar] at hc
  split at hc
  · simp at hc
  · split at hc
    · simp at hc
    · rename_i hfeed
      exact hfeed (List.mem_singleton.mp hc).symm

/-- No bar is lost to blanks in front of it, and none gets another character before it. -/
theorem openBars_dropWhile (cs : List Char) :
    openBars false (cs.dropWhile isBlank) = openBars false cs := by
  induction cs with
  | nil => rfl
  | cons c cs ih =>
    rw [List.dropWhile_cons]
    split
    · rename_i hblank
      have hbar : c ≠ '|' := by
        rintro rfl
        exact absurd hblank (by decide)
      have hbackslash : c ≠ '\\' := by
        rintro rfl
        exact absurd hblank (by decide)
      rw [ih, openBars_cons_of_ne hbar, decide_eq_false hbackslash]
    · rfl

/-- Stripping opens nothing: what is taken off are blanks, and a blank escapes no bar. -/
theorem Closed.stripBoth (h : Closed cs) : Closed (stripBoth cs) := by
  have hfront := List.rdropWhile_prefix isBlank (cs.dropWhile isBlank)
  constructor
  · intro hfeed
    exact h.oneLine (List.dropWhile_sublist _ |>.subset (hfront.subset hfeed))
  · have hle := openBars_le_of_isPrefix hfront false
    rw [openBars_dropWhile, h.noBars] at hle
    exact Nat.le_zero.mp hle

/-- Whatever a text is, it can stand in a cell when it is escaped. -/
theorem closed_textCell (text : String) : Closed (textCell text).toList := by
  rw [textCell, String.toList_ofList, cellChars]
  apply Closed.stripBoth
  exact ⟨notMem_flatMap_cellChar text.toList, openBars_flatMap_cellChar false text.toList⟩

theorem closed_cell (value : Json) : Closed (cell value).toList := by
  cases value with
  | null => exact ⟨by decide, rfl⟩
  | bool | int | real | str | arr | obj => exact closed_textCell _

/-! ### Rows -/

/-- The characters of a row with some cells. -/
def rowChars : List (List Char) → List Char
  | [] => ['|']
  | cell :: rest => '|' :: ' ' :: (cell ++ ' ' :: rowChars rest)

theorem openBars_rowChars {cells : List (List Char)} (h : ∀ cell ∈ cells, Closed cell) :
    openBars false (rowChars cells) = cells.length + 1 := by
  induction cells with
  | nil => rfl
  | cons cell cells ih =>
    have hcell := (h cell List.mem_cons_self).noBars
    have hcells := ih fun other hother => h other (List.mem_cons_of_mem cell hother)
    have hopen : openBars false (rowChars (cell :: cells)) =
        1 + (openBars false cell + openBars false (' ' :: rowChars cells)) := by
      rw [← openBars_append (by simp)]
      simp [rowChars, openBars]
    have hrest : openBars false (' ' :: rowChars cells) = openBars false (rowChars cells) := by
      simp [openBars]
    rw [hopen, hrest, hcell, hcells, List.length_cons]
    omega

theorem notMem_rowChars {cells : List (List Char)} (h : ∀ cell ∈ cells, Closed cell) :
    '\n' ∉ rowChars cells := by
  induction cells with
  | nil => decide
  | cons cell cells ih =>
    have hcell := (h cell List.mem_cons_self).oneLine
    have hcells := ih fun other hother => h other (List.mem_cons_of_mem cell hother)
    simp [rowChars, hcell, hcells]

/-- The columns of the table that has a header: the cells between its bars. -/
def columns (header : String) : Nat := (header.toList.splitOn '|').length - 2

/-- A row is one line and has the cells that its header has. -/
structure Intact (header row : String) : Prop where
  oneLine : '\n' ∉ row.toList
  bars : openBars false row.toList = columns header + 1

theorem intact_of_cells {header row : String} {cells : List (List Char)}
    (hrow : row.toList = rowChars cells) (hcolumns : columns header = cells.length)
    (h : ∀ cell ∈ cells, Closed cell) : Intact header row := by
  constructor
  · rw [hrow]
    exact notMem_rowChars h
  · rw [hrow, hcolumns]
    exact openBars_rowChars h

/-! ### Lines -/

theorem split_of_notMem {row : String} (h : '\n' ∉ row.toList) : split '\n' row = [row] := by
  rw [split, List.splitOn_eq_singleton h, List.map_singleton, String.ofList_toList]

/-- Texts with a line feed behind each of them have the lines of all of them. -/
theorem split_join (lines : List String) :
    split '\n' (String.join (lines.map (· ++ "\n"))) = lines.flatMap (split '\n') ++ [""] := by
  induction lines with
  | nil => rfl
  | cons line lines ih =>
    have htext : (String.join ((line :: lines).map (· ++ "\n"))).toList =
        line.toList ++ '\n' :: (String.join (lines.map (· ++ "\n"))).toList := by
      simp [String.toList_append]
    rw [split, htext, List.splitOn_append_cons_self, List.map_append, ← split, ← split, ih, List.flatMap_cons,
      List.append_assoc]

end ApiClients.Manifest
