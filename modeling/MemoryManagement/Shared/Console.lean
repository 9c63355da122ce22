import MemoryManagement.Shared.Interpreter

/-!
# Console output

Translation of the console printer of `shared/lib.c` and of `app_printf` of `uspace/process.c`. A cell of
the console is stored through `putCell`, which fails outside the console. The cursor may rest behind the
last cell; it moves back before the next character, and so it is always on the console when a cell is
written (`console_output_inside`).
-/

set_option autoImplicit false

namespace MemoryManagement.Shared

abbrev CONSOLE_COLUMNS : Nat := 80

abbrev CONSOLE_ROWS : Nat := 25

/-- The number of cells. -/
abbrev CONSOLE_CELLS : Nat := CONSOLE_ROWS * CONSOLE_COLUMNS

def newline : UInt8 := 10

/-- `struct console_printer`: the cells of the console, and `cursor - console`. -/
structure ConsolePrinter where
  console : List UInt16
  cursor : Nat

/-- `c | color`, as a cell. -/
def cell (c : UInt8) (color : Int) : UInt16 := UInt16.ofNat c.toNat ||| UInt16.ofInt color

/-- `*cp->cursor++ = v`. -/
def putCell (cp : ConsolePrinter) (v : UInt16) : Outcome ConsolePrinter :=
  if cp.cursor < cp.console.length then .ok ⟨cp.console.set cp.cursor v, cp.cursor + 1⟩ else .error .outside

/-- The loop for a newline. -/
def fillRow (color : Int) : Nat → Nat → ConsolePrinter → Outcome ConsolePrinter
  | 0, _, _ => .error .endless
  | fuel + 1, pos, cp =>
      if pos ≠ 80 then do
        let cp ← putCell cp (cell (ch ' ') color)
        fillRow color fuel (pos + 1) cp
      else .ok cp

/-- The cursor of the printer, moved back if it is behind the last cell. -/
def ConsolePrinter.wrapped (cp : ConsolePrinter) : ConsolePrinter :=
  if CONSOLE_ROWS * CONSOLE_COLUMNS ≤ cp.cursor then { cp with cursor := 0 } else cp

/-- `console_putc(p, c, color)`. -/
def consolePutc (cp : ConsolePrinter) (c : UInt8) (color : Int) : Outcome ConsolePrinter :=
  let cp := cp.wrapped
  if c = newline then fillRow color (2 ^ 32) (cp.cursor % 80) cp else putCell cp (cell c color)

/-- The printer of `console_vprintf(cpos, …)`. -/
def consoleStart (console : List UInt16) (cpos : Int) : ConsolePrinter :=
  let cpos := if cpos < 0 ∨ (CONSOLE_ROWS * CONSOLE_COLUMNS : Nat) ≤ cpos then 0 else cpos
  ⟨console, cpos.toNat⟩

/-- `console_vprintf(cpos, color, format, val)`: the console, and the position. -/
def consoleVprintf (console : List UInt16) (cpos color : Int) (format : List UInt8) (val : Nat → Arg) :
    Outcome (List UInt16 × Nat) := do
  let cp ← printerVprintf consolePutc color format val (consoleStart console cpos)
  .ok (cp.console, cp.cursor)

/-- The colours of `app_printf`. -/
def col : List Int := [0x0E, 0x0F, 0x0C, 0x0A, 0x09]

/-- `CROW(cpos)`. -/
def crow (cpos : Nat) : Nat := cpos / 80

/-- `app_printf(colorid, format, …)`: the console, and `cursorpos` after it. -/
def appPrintf (console : List UInt16) (cursorpos colorid : Int) (format : List UInt8) (val : Nat → Arg) :
    Outcome (List UInt16 × Nat) := do
  let color := if colorid < 0 then 0x0700 else col.getD (colorid.toNat % col.length) 0 * 2 ^ 8
  let printed ← consoleVprintf console cursorpos color format val
  .ok (printed.1, if 23 ≤ crow printed.2 then 0 else printed.2)

/-! ## One character -/

/-- The cursor is on the console or right behind it. -/
structure OnConsole (cp : ConsolePrinter) : Prop where
  length : cp.console.length = CONSOLE_CELLS
  cursor : cp.cursor ≤ CONSOLE_CELLS

/-- The cells from `start` up to `stop` have the value `v`, the others are as before, and the cursor is at
`stop`. -/
structure Filled (cp cp' : ConsolePrinter) (v : UInt16) (start stop : Nat) : Prop where
  cursor : cp'.cursor = stop
  cells : ∀ i : Nat, cp'.console[i]? = if start ≤ i ∧ i < stop then some v else cp.console[i]?

/-- The start of the next row. -/
def nextRow (cursor : Nat) : Nat := CONSOLE_COLUMNS * (cursor / CONSOLE_COLUMNS + 1)

section Character

variable {cp cp' : ConsolePrinter} {color : Int}

theorem Filled.length {v : UInt16} {start stop : Nat} (h : Filled cp cp' v start stop)
    (hstop : stop ≤ cp.console.length) : cp'.console.length = cp.console.length := by
  have hout : ∀ i : Nat, i < cp'.console.length ↔ i < cp.console.length := by
    intro i
    rw [← not_iff_not, Nat.not_lt, Nat.not_lt, ← List.getElem?_eq_none_iff, ← List.getElem?_eq_none_iff,
      h.cells i]
    split
    · rename_i hin
      constructor
      · intro hnone
        cases hnone
      · intro hnone
        rw [List.getElem?_eq_none_iff] at hnone
        omega
    · exact Iff.rfl
  have h1 := hout cp.console.length
  have h2 := hout cp'.console.length
  omega

/-- A cell on the console. -/
theorem putCell_spec (h : cp.cursor < cp.console.length) (v : UInt16) :
    ∃ cp', putCell cp v = .ok cp' ∧ Filled cp cp' v cp.cursor (cp.cursor + 1) := by
  refine ⟨_, if_pos h, rfl, fun i => ?_⟩
  show (cp.console.set cp.cursor v)[i]? = _
  rw [List.getElem?_set]
  by_cases hi : cp.cursor = i
  · rw [if_pos hi, if_pos h, if_pos (by omega)]
  · rw [if_neg hi, if_neg (by omega)]

/-- The loop fills the cells that are left in the row. -/
theorem fillRow_spec (cp : ConsolePrinter) (color : Int) (fuel pos k : Nat) (hpos : pos + k = 80)
    (hroom : cp.cursor + k ≤ cp.console.length) (hfuel : k < fuel) : ∃ cp', fillRow color fuel pos cp = .ok cp' ∧
      Filled cp cp' (cell (ch ' ') color) cp.cursor (cp.cursor + k) := by
  induction k generalizing fuel pos cp with
  | zero =>
      obtain ⟨n, rfl⟩ : ∃ n, fuel = n + 1 := ⟨fuel - 1, by omega⟩
      refine ⟨cp, if_neg (not_not.2 hpos), rfl, fun i => ?_⟩
      rw [if_neg (by omega)]
  | succ k ih =>
      obtain ⟨n, rfl⟩ : ∃ n, fuel = n + 1 := ⟨fuel - 1, by omega⟩
      obtain ⟨cp₁, hput, hfirst⟩ := putCell_spec (by omega : cp.cursor < cp.console.length)
        (cell (ch ' ') color)
      have hlength := hfirst.length (by omega)
      have hcursor := hfirst.cursor
      obtain ⟨cp', hcode, hrest⟩ := ih cp₁ n (pos + 1) (by omega) (by omega) (by omega)
      refine ⟨cp', ?_, ?_, fun i => ?_⟩
      · rw [fillRow, if_pos (by omega), hput]
        exact hcode
      · rw [hrest.cursor]
        omega
      · rw [hrest.cells, hfirst.cells]
        by_cases hlater : cp₁.cursor ≤ i ∧ i < cp₁.cursor + k
        · rw [if_pos hlater, if_pos (by omega)]
        · rw [if_neg hlater]
          by_cases hhere : cp.cursor ≤ i ∧ i < cp.cursor + 1
          · rw [if_pos hhere, if_pos (by omega)]
          · rw [if_neg hhere, if_neg (by omega)]

theorem ConsolePrinter.wrapped_cursor (cp : ConsolePrinter) :
    cp.wrapped.console = cp.console ∧ cp.wrapped.cursor < CONSOLE_CELLS := by
  rw [ConsolePrinter.wrapped]
  split
  · exact ⟨rfl, show 0 < CONSOLE_CELLS by decide⟩
  · rename_i hlt
    exact ⟨rfl, Nat.not_le.1 hlt⟩

/-- One character on the console: a newline fills the rest of its row, anything else one cell. -/
theorem OnConsole.putc (h : OnConsole cp) (c : UInt8) (color : Int) :
    ∃ cp', consolePutc cp c color = .ok cp' ∧ OnConsole cp' ∧
      (c = newline → Filled cp cp' (cell (ch ' ') color) cp.wrapped.cursor (nextRow cp.wrapped.cursor)) ∧
      (c ≠ newline → Filled cp cp' (cell c color) cp.wrapped.cursor (cp.wrapped.cursor + 1)) := by
  obtain ⟨hsame, hlt⟩ := cp.wrapped_cursor
  have hlength : cp.wrapped.console.length = CONSOLE_CELLS := by rw [hsame, h.length]
  -- only the cells matter of what was before
  have hfrom : ∀ {cp' v start stop}, Filled cp.wrapped cp' v start stop → Filled cp cp' v start stop := by
    intro cp' v start stop hfilled
    refine ⟨hfilled.cursor, fun i => ?_⟩
    rw [hfilled.cells, hsame]
  rw [consolePutc]
  by_cases hc : c = newline
  · have hrow : cp.wrapped.cursor + (80 - cp.wrapped.cursor % 80) = nextRow cp.wrapped.cursor := by
      rw [nextRow, CONSOLE_COLUMNS]
      omega
    have hnext : nextRow cp.wrapped.cursor ≤ CONSOLE_CELLS := by
      have hcursor : cp.wrapped.cursor / 80 < 25 := Nat.div_lt_of_lt_mul hlt
      exact Nat.mul_le_mul_left 80 hcursor
    obtain ⟨cp', hcode, hfilled⟩ := fillRow_spec cp.wrapped color (2 ^ 32) (cp.wrapped.cursor % 80)
      (80 - cp.wrapped.cursor % 80) (by omega) (by omega) (by omega)
    rw [hrow] at hfilled
    refine ⟨cp', ?_, ⟨?_, ?_⟩, fun _ => hfrom hfilled, fun hne => absurd hc hne⟩
    · rw [if_pos hc]
      exact hcode
    · rw [hfilled.length (by omega), hlength]
    · rw [hfilled.cursor]
      exact hnext
  · obtain ⟨cp', hcode, hfilled⟩ := putCell_spec (by omega : cp.wrapped.cursor < cp.wrapped.console.length)
      (cell c color)
    refine ⟨cp', ?_, ⟨?_, ?_⟩, fun he => absurd he hc, fun _ => hfrom hfilled⟩
    · rw [if_neg hc]
      exact hcode
    · rw [hfilled.length (by omega), hlength]
    · rw [hfilled.cursor]
      omega

end Character

/-! ## Any output -/

theorem onConsole_start {console : List UInt16} (h : console.length = CONSOLE_CELLS) (cpos : Int) :
    OnConsole (consoleStart console cpos) := by
  refine ⟨h, ?_⟩
  show (if cpos < 0 ∨ (2000 : Int) ≤ cpos then 0 else cpos).toNat ≤ 2000
  split
  · exact Nat.zero_le _
  · omega

theorem OnConsole.emits {cp : ConsolePrinter} (h : OnConsole cp) (text : List (UInt8 × Int)) :
    ∃ cp', emit consolePutc text cp = .ok cp' ∧ OnConsole cp' := by
  induction text generalizing cp with
  | nil => exact ⟨cp, rfl, h⟩
  | cons x text ih =>
      obtain ⟨cp₁, hput, h₁, -⟩ := h.putc x.1 x.2
      obtain ⟨cp', hcode, h'⟩ := ih h₁
      refine ⟨cp', ?_, h'⟩
      rw [emit, List.foldlM_cons, hput]
      exact hcode

theorem consoleVprintf_returns {console : List UInt16} (h : console.length = CONSOLE_CELLS) (cpos color : Int)
    {chars : List UInt8} (hchars : 0 ∉ chars) (val : Nat → Arg) :
    ∃ console' pos, consoleVprintf console cpos color (chars ++ [0]) val = .ok (console', pos) ∧
      console'.length = CONSOLE_CELLS ∧ pos ≤ CONSOLE_CELLS := by
  obtain ⟨text, -, hemits⟩ := printerVprintf_emits hchars val color
  obtain ⟨cp, hcode, hon⟩ := (onConsole_start h cpos).emits text
  refine ⟨cp.console, cp.cursor, ?_, hon.length, hon.cursor⟩
  rw [consoleVprintf, hemits, hcode]
  rfl

/-- Wherever console output starts, and whatever is printed, all cells that are written are on the console,
a newline fills the rest of its row, and the position at the end is on the console or right behind it. -/
theorem console_output_inside {console : List UInt16} (h : console.length = CONSOLE_CELLS) (cpos : Int) :
    (∀ text : List (UInt8 × Int), ∃ cp, emit consolePutc text (consoleStart console cpos) = .ok cp ∧
      OnConsole cp ∧ ∀ c color, ∃ cp', consolePutc cp c color = .ok cp' ∧ OnConsole cp' ∧
        (c = newline → Filled cp cp' (cell (ch ' ') color) cp.wrapped.cursor (nextRow cp.wrapped.cursor)) ∧
        (c ≠ newline → Filled cp cp' (cell c color) cp.wrapped.cursor (cp.wrapped.cursor + 1))) ∧
    ∀ (chars : List UInt8) (val : Nat → Arg), 0 ∉ chars →
      (∀ color, ∃ console' pos, consoleVprintf console cpos color (chars ++ [0]) val = .ok (console', pos) ∧
        console'.length = CONSOLE_CELLS ∧ pos ≤ CONSOLE_CELLS) ∧
      ∀ colorid, ∃ console' pos, appPrintf console cpos colorid (chars ++ [0]) val = .ok (console', pos) ∧
        console'.length = CONSOLE_CELLS ∧ crow pos < 23 := by
  constructor
  · intro text
    obtain ⟨cp, hcode, hon⟩ := (onConsole_start h cpos).emits text
    exact ⟨cp, hcode, hon, hon.putc⟩
  · intro chars val hchars
    refine ⟨fun color => consoleVprintf_returns h cpos color hchars val, fun colorid => ?_⟩
    obtain ⟨console', pos, hcode, hlength, -⟩ := consoleVprintf_returns h cpos
      (if colorid < 0 then 0x0700 else col.getD (colorid.toNat % col.length) 0 * 2 ^ 8) hchars val
    refine ⟨console', if 23 ≤ crow pos then 0 else pos, ?_, hlength, ?_⟩
    · rw [appPrintf, hcode]
      rfl
    · split
      · decide
      · omega

/-- A position behind the console, as a user may leave it. -/
theorem console_output_inside_behind : ∃ console' pos,
    appPrintf (List.replicate 2000 0) 2000 (-1) ([ch 'a', newline] ++ [0]) (fun _ => ⟨0, [], List.not_mem_nil⟩) =
      .ok (console', pos) ∧ console'.length = 2000 ∧ crow pos < 23 :=
  ((console_output_inside (List.length_replicate ..) 2000).2 [ch 'a', newline] _ (by decide)).2 (-1)

end MemoryManagement.Shared
