import Mathlib.Data.List.DropRight
import Opcodes.Listing.Grid
import Opcodes.Proofs.LineReading

/-!
# Places in the grid

All lines of the grid are made of a margin and sixteen cells of one width. So
the cell of a byte is found by counting, whatever the mnemonics before it are,
as long as none is wider than its cell or breaks its line. The column is headed
by the low half of the byte and the row begins with its high half.
-/

namespace Opcodes.Proofs.GridGeometry

open Identifiers LineReading Listing Ownership PrintedText

/-! ## Cells of one width -/

/-- Blocks of one width are found by counting. -/
theorem take_drop_flatMap {Item : Type} {width : Nat} {block : Item → List Char}
    {items : List Item} (sized : ∀ item ∈ items, (block item).length = width) {place : Nat}
    (inside : place < items.length) :
    ((items.flatMap block).drop (width * place)).take width = block items[place] := by
  induction items generalizing place with
  | nil => cases inside
  | cons first rest ih =>
      have size := sized first List.mem_cons_self
      cases place with
      | zero => simp [← size]
      | succ place =>
          have later := ih (fun item member => sized item (List.mem_cons_of_mem _ member))
            (Nat.lt_of_succ_lt_succ inside)
          have beyond : width * (place + 1) = (block first).length + width * place := by
            rw [size, Nat.mul_succ, Nat.add_comm]
          rw [List.flatMap_cons, beyond, List.drop_length_add_append, List.getElem_cons_succ, later]

/-- A text at the left of a cell, filled up with blanks. -/
def filled (text : String) : List Char :=
  text.toList ++ List.replicate (8 - text.length) ' '

theorem length_filled {text : String} (fits : text.length ≤ 8) : (filled text).length = 8 := by
  rw [filled, List.length_append, List.length_replicate, String.length_toList]
  omega

/-! ## Lines -/

/-- A margin of two characters and sixteen cells. -/
def lineOf (margin : String) (cell : Nat → String) : String :=
  margin ++ String.join (Grid.places.map cell)

section

variable {margin : String} {cell : Nat → String}

theorem toList_lineOf (margin : String) (cell : Nat → String) :
    (lineOf margin cell).toList =
      margin.toList ++ Grid.places.flatMap fun column => (cell column).toList := by
  rw [lineOf, String.toList_append, String.toList_join, List.flatMap_map]

theorem length_lineOf (two : margin.length = 2) (sized : ∀ column, (cell column).length = 8) :
    (lineOf margin cell).length = 2 + 16 * 8 := by
  have cells : (Grid.places.flatMap fun column => (cell column).toList).length = 16 * 8 := by
    rw [List.length_flatMap, List.map_congr_left fun column _ =>
      (String.length_toList.trans (sized column) : (cell column).toList.length = 8)]
    rfl
  rw [← String.length_toList, toList_lineOf, List.length_append, String.length_toList, two, cells]

theorem take_lineOf (two : margin.length = 2) :
    (lineOf margin cell).toList.take 2 = margin.toList := by
  rw [toList_lineOf, ← two, ← String.length_toList, List.take_left]

theorem take_drop_lineOf (two : margin.length = 2) (sized : ∀ column, (cell column).length = 8)
    {column : Nat} (inside : column < 16) :
    ((lineOf margin cell).toList.drop (2 + 8 * column)).take 8 = (cell column).toList := by
  have wide : ∀ column ∈ Grid.places, (cell column).toList.length = 8 :=
    fun column _ => String.length_toList.trans (sized column)
  have found := take_drop_flatMap wide (show column < Grid.places.length from inside)
  rw [toList_lineOf, ← two, ← String.length_toList, List.drop_length_add_append, found]
  simp [Grid.places]

end

/-! ## The whole grid -/

def grid (table : Table) : String :=
  (Grid.document table).render .plain

/-- Mnemonics are no wider than a cell and do not break their line. -/
def Fits (table : Table) : Prop :=
  ∀ byte, ∀ mnemonic ∈ (table.instruction byte).mnemonic?,
    mnemonic.length ≤ 8 ∧ '\n' ∉ mnemonic.toList

def headerLine : String :=
  lineOf "  " fun column => (Grid.heading column).text

def rowLine (table : Table) (row : Nat) : String :=
  lineOf (Grid.label row ++ " ") fun column => (Grid.cell table (Grid.byteAt row column)).text

theorem render_spans (margin : Span) (cell : Nat → Span) :
    String.join ((margin :: Grid.places.map cell ++ [Span.lineEnd]).map (Span.render .plain)) =
      lineOf margin.text (fun column => (cell column).text) ++ "\n" := by
  have plain (span : Span) : span.render .plain = span.text := by
    cases span
    rfl
  simp only [List.cons_append, List.map_cons, List.map_append, String.join_cons,
    String.join_append, List.map_map, plain, lineOf, Function.comp_def, List.map_nil,
    String.join_nil, String.append_empty, Span.lineEnd, String.append_assoc]

theorem render_rows (table : Table) (rows : List Nat) :
    String.join ((rows.flatMap (Grid.row table)).map (Span.render .plain)) =
      unlines (rows.map (rowLine table)) := by
  induction rows with
  | nil => rfl
  | cons row rest ih =>
      rw [List.flatMap_cons, List.map_append, String.join_append, ih, List.map_cons, unlines_cons,
        Grid.row, render_spans]
      rfl

theorem grid_eq (table : Table) :
    grid table = unlines (headerLine :: Grid.places.map (rowLine table)) := by
  rw [grid, Document.render, Grid.document, List.map_append, String.join_append, render_rows,
    Grid.header, render_spans, unlines_cons]
  rfl

section

variable {table : Table}

theorem text_le (fits : Fits table) (byte : UInt8) :
    (table.instruction byte).text.length ≤ 8 ∧ '\n' ∉ (table.instruction byte).text.toList :=
  Instruction.text_of_mnemonic? (fun text => text.length ≤ 8 ∧ '\n' ∉ text.toList) (by decide)
    (fits byte)

theorem toList_text_cell (table : Table) (byte : UInt8) :
    (Grid.cell table byte).text.toList = filled (table.instruction byte).text :=
  Instruction.toList_cell (table.instruction byte)

theorem length_cell (fits : Fits table) (byte : UInt8) :
    (Grid.cell table byte).text.length = 8 := by
  rw [← String.length_toList, toList_text_cell, length_filled (text_le fits byte).1]

theorem toList_label (place : Nat) : (Grid.label place).toList = [Nat.digitChar place] :=
  String.toList_singleton _

theorem toList_heading (column : Nat) :
    (Grid.heading column).text.toList = Nat.digitChar column :: List.replicate 7 ' ' := by
  rw [Grid.heading, Text.Field.toList_fit_column, ← String.length_toList, toList_label]
  rfl

theorem length_heading (column : Nat) : (Grid.heading column).text.length = 8 := by
  rw [← String.length_toList, toList_heading]
  rfl

theorem toList_margin (row : Nat) : (Grid.label row ++ " ").toList = [Nat.digitChar row, ' '] := by
  rw [String.toList_append, toList_label]
  rfl

theorem length_margin (row : Nat) : (Grid.label row ++ " ").length = 2 := by
  rw [← String.length_toList, toList_margin]
  rfl

/-- Lines of narrow cells are lines. -/
theorem oneLine_lineOf {margin : String} {cell : Nat → String} (outer : '\n' ∉ margin.toList)
    (inner : ∀ column ∈ Grid.places, '\n' ∉ (cell column).toList) :
    '\n' ∉ (lineOf margin cell).toList := by
  rw [toList_lineOf, List.mem_append, List.mem_flatMap]
  rintro (inMargin | ⟨column, placed, inCell⟩)
  · exact outer inMargin
  · exact inner column placed inCell

theorem oneLine_filled {text : String} (oneLine : '\n' ∉ text.toList) : '\n' ∉ filled text := by
  rw [filled, List.mem_append, not_or]
  exact ⟨oneLine, fun member => absurd (List.eq_of_mem_replicate member) (by decide)⟩

theorem oneLine_label : ∀ place ∈ Grid.places, '\n' ∉ (Grid.label place).toList := by
  decide

theorem oneLine_headerLine : '\n' ∉ headerLine.toList := by
  refine oneLine_lineOf (by decide) fun column placed => ?_
  rw [Grid.heading, Text.Field.toList_fit_column]
  exact oneLine_filled (oneLine_label column placed)

theorem oneLine_rowLine (fits : Fits table) {row : Nat} (placed : row ∈ Grid.places) :
    '\n' ∉ (rowLine table row).toList := by
  refine oneLine_lineOf ?_ fun column _ => ?_
  · rw [String.toList_append, List.mem_append, not_or]
    exact ⟨oneLine_label row placed, by decide⟩
  · rw [toList_text_cell]
    exact oneLine_filled (text_le fits _).2

theorem holds_grid (fits : Fits table) :
    Holds (grid table) (headerLine :: Grid.places.map (rowLine table)) := by
  rw [grid_eq]
  refine holds_unlines fun line member => ?_
  rcases List.mem_cons.mp member with rfl | inRows
  · exact oneLine_headerLine
  · obtain ⟨row, placed, rfl⟩ := List.mem_map.mp inRows
    exact oneLine_rowLine fits placed

theorem length_line (fits : Fits table) :
    ∀ line ∈ headerLine :: Grid.places.map (rowLine table), line.length = 2 + 16 * 8 := by
  intro line member
  rcases List.mem_cons.mp member with rfl | inRows
  · exact length_lineOf rfl length_heading
  · obtain ⟨row, _, rfl⟩ := List.mem_map.mp inRows
    exact length_lineOf (length_margin row) fun column => length_cell fits _

/-! ## Places -/

/-- The characters of a text that stand in a line from a column on. -/
def excerpt (text : String) (line column width : Nat) : List Char :=
  (((lines text)[line]?.getD "").toList.drop column).take width

def rowOf (byte : UInt8) : Nat :=
  (byte >>> 4).toNat

def columnOf (byte : UInt8) : Nat :=
  (byte &&& 0x0f).toNat

theorem rowOf_eq (byte : UInt8) : rowOf byte = byte.toNat / 16 := by
  rw [rowOf, UInt8.toNat_shiftRight]
  exact Nat.shiftRight_eq_div_pow byte.toNat 4

theorem columnOf_eq (byte : UInt8) : columnOf byte = byte.toNat % 16 := by
  rw [columnOf, UInt8.toNat_and]
  exact Nat.and_two_pow_sub_one_eq_mod byte.toNat 4

theorem rowOf_lt (byte : UInt8) : rowOf byte < 16 := by
  rw [rowOf_eq]
  exact (HexText.digits_lt byte).1

theorem columnOf_lt (byte : UInt8) : columnOf byte < 16 := by
  rw [columnOf_eq]
  exact (HexText.digits_lt byte).2

theorem byteAt_eq (byte : UInt8) : Grid.byteAt (rowOf byte) (columnOf byte) = byte := by
  rw [Grid.byteAt, rowOf_eq, columnOf_eq, Nat.div_add_mod, UInt8.ofNat_toNat]

theorem getElem?_header (fits : Fits table) : (lines (grid table))[0]?.getD "" = headerLine := by
  rw [(holds_grid fits).lines]
  rfl

theorem getElem?_row (fits : Fits table) (byte : UInt8) :
    (lines (grid table))[1 + rowOf byte]?.getD "" = rowLine table (rowOf byte) := by
  rw [(holds_grid fits).lines, Nat.add_comm, List.getElem?_cons_succ, List.getElem?_map,
    Grid.places, List.getElem?_range (rowOf_lt byte)]
  rfl

/-- In the place of a byte stands its mnemonic, filled up with blanks. -/
theorem excerpt_cell (fits : Fits table) (byte : UInt8) :
    excerpt (grid table) (1 + rowOf byte) (2 + 8 * columnOf byte) 8 =
      filled (table.instruction byte).text := by
  rw [excerpt, getElem?_row fits, rowLine,
    take_drop_lineOf (length_margin _) (fun _ => length_cell fits _) (columnOf_lt byte),
    byteAt_eq, toList_text_cell]

theorem excerpt_heading (fits : Fits table) (byte : UInt8) :
    excerpt (grid table) 0 (2 + 8 * columnOf byte) 8 =
      Nat.digitChar (columnOf byte) :: List.replicate 7 ' ' := by
  rw [excerpt, getElem?_header fits, headerLine,
    take_drop_lineOf rfl length_heading (columnOf_lt byte), toList_heading]

theorem excerpt_margin (fits : Fits table) (byte : UInt8) :
    excerpt (grid table) (1 + rowOf byte) 0 2 = [Nat.digitChar (rowOf byte), ' '] := by
  rw [excerpt, getElem?_row fits, List.drop_zero, rowLine, take_lineOf (length_margin _),
    toList_margin]

end

/-! ## Cells read back -/

/-- What a cell shows: nothing, or a mnemonic without the blanks behind it. -/
def readCell? (cell : List Char) : Option String :=
  let shown := cell.rdropWhile fun character => character == ' '
  if shown = [] then none else some (String.ofList shown)

/-- A mnemonic that is not lost among the blanks behind it. -/
def Visible (mnemonic : String) : Prop :=
  mnemonic ≠ "" ∧ mnemonic.toList.getLast? ≠ some ' '

instance {mnemonic : String} : Decidable (Visible mnemonic) :=
  inferInstanceAs (Decidable (_ ∧ _))

theorem rdropWhile_filled (text : String) :
    (filled text).rdropWhile (fun character => character == ' ') =
      text.toList.rdropWhile fun character => character == ' ' := by
  have blanks : ∀ character ∈ List.replicate (8 - text.length) ' ', (character == ' ') = true := by
    intro character member
    rw [List.eq_of_mem_replicate member, beq_self_eq_true]
  rw [filled, List.rdropWhile, List.rdropWhile, List.reverse_append, List.reverse_replicate,
    List.dropWhile_append_of_pos blanks]

theorem readCell?_filled {mnemonic : Option String} (visible : ∀ name ∈ mnemonic, Visible name) :
    readCell? (filled (mnemonic.getD "")) = mnemonic := by
  unfold readCell?
  rw [rdropWhile_filled]
  cases mnemonic with
  | none => rfl
  | some name =>
      obtain ⟨something, ends⟩ := visible name rfl
      have kept : (name.toList.rdropWhile fun character => character == ' ') = name.toList := by
        refine List.rdropWhile_eq_self_iff.mpr fun nonempty blank => ends ?_
        rw [List.getLast?_eq_some_getLast nonempty, eq_of_beq blank]
      have shown : name.toList ≠ [] := mt String.toList_eq_nil_iff.mp something
      rw [Option.getD_some, kept]
      simp [shown]

/-- The grid is made of 17 ended lines of one length. In the place of a byte stands its mnemonic,
filled up with blanks to eight characters, below the digit of its low half and behind that of its
high half. A mnemonic that does not end in a blank is read back from there. -/
theorem grid_shows_bytes_in_place (table : Table) (fits : Fits table) :
    (∃ found, Holds (grid table) found ∧ found.length = 17 ∧
      ∀ line ∈ found, line.length = 2 + 16 * 8) ∧
    ∀ byte,
      excerpt (grid table) (1 + rowOf byte) (2 + 8 * columnOf byte) 8 =
        filled ((table.instruction byte).mnemonic?.getD "") ∧
      (∃ digit, digit? digit = some (columnOf byte) ∧
        excerpt (grid table) 0 (2 + 8 * columnOf byte) 8 = digit :: List.replicate 7 ' ') ∧
      (∃ digit, digit? digit = some (rowOf byte) ∧
        excerpt (grid table) (1 + rowOf byte) 0 2 = [digit, ' ']) ∧
      ((∀ mnemonic ∈ (table.instruction byte).mnemonic?, Visible mnemonic) →
        readCell? (excerpt (grid table) (1 + rowOf byte) (2 + 8 * columnOf byte) 8) =
          (table.instruction byte).mnemonic?) := by
  refine ⟨⟨_, holds_grid fits, rfl, length_line fits⟩, fun byte => ?_⟩
  have cell := excerpt_cell fits byte
  refine ⟨cell, ⟨_, ?_, excerpt_heading fits byte⟩, ⟨_, ?_, excerpt_margin fits byte⟩, ?_⟩
  · exact digit?_eq_some_iff.mpr ⟨columnOf_lt byte, rfl⟩
  · exact digit?_eq_some_iff.mpr ⟨rowOf_lt byte, rfl⟩
  · intro visible
    rw [cell]
    exact readCell?_filled visible

/-- A decoder with a mnemonic that takes its whole cell, and with one behind it. -/
def wide (byte : UInt8) : Resolution where
  byte := byte
  instruction :=
    if byte = 0x41 then .atomic "名 ÄÖÜßéñ" else if byte = 0x42 then .atomic "B" else .undefined
  rule := none

theorem wide_grid_shows_bytes_in_place :
    Fits (Table.build wide) ∧
      excerpt (grid (Table.build wide)) 5 10 8 = "名 ÄÖÜßéñ".toList ∧
      readCell? (excerpt (grid (Table.build wide)) 5 18 8) = some "B" ∧
      readCell? (excerpt (grid (Table.build wide)) 5 26 8) = none := by
  have defined : (Table.build wide).defined = [(0x41, "名 ÄÖÜßéñ"), (0x42, "B")] := by
    decide +kernel
  have fits : Fits (Table.build wide) := by
    refine forall_mnemonic_of_defined ?_
    rw [defined]
    decide
  have named : ((Table.build wide).instruction 0x41).mnemonic? = some "名 ÄÖÜßéñ" ∧
      ((Table.build wide).instruction 0x42).mnemonic? = some "B" ∧
      ((Table.build wide).instruction 0x43).mnemonic? = none := by
    decide +kernel
  obtain ⟨_, each⟩ := grid_shows_bytes_in_place _ fits
  refine ⟨fits, ?_, ?_, ?_⟩
  · have cell := (each 0x41).1
    rw [named.1] at cell
    exact cell
  · have read := (each 0x42).2.2.2
    rw [named.2.1] at read
    exact read (by decide)
  · have read := (each 0x43).2.2.2
    rw [named.2.2] at read
    exact read (by decide)

end Opcodes.Proofs.GridGeometry
