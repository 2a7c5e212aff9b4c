import Reckoner.Session.Batch

/-!
# Tables of batches

The rows of a batch as a table of three columns.  Every column is as wide as its widest cell and is
set to the right; line breaks and tabs inside an expression are written out.  Results share one
format: six places without the zeros that all of them have at their end, or six places and an
exponent if one of them is too small or too large for that.
-/

namespace Reckoner.Table

/-- An expression as a cell, on one line. -/
def expressionCell (t : Text) : Text :=
  t.flatMap fun c =>
    if c = '\t' then ['\\', 't']
    else if c = '\r' then ['\\', 'r']
    else if c = '\n' then ['\\', 'n']
    else [c]

/-- The cell of a missing error, in a table with or without errors. -/
def missingError (anyError : Bool) : Text := (if anyError then "NaN" else "None").toList

/-- The value that a cell is judged by; the value that is no number counts as nothing. -/
def size (x : Float) : Float := if x.isNaN then 0.0 else x.abs

/-- A result as a cell, in a format. -/
def resultCell (format : Float → Text) (x : Float) : Text :=
  if x.isNaN then "NaN".toList else format x

/-- Is the cell a row of digits with a point, and not a name or a number with an exponent? -/
def hasPlaces (cell : Text) : Bool :=
  let body := match cell with
    | '-' :: cs => cs
    | cs => cs
  !(body.takeWhile Char.isDigit).isEmpty &&
    match body.dropWhile Char.isDigit with
    | '.' :: places => places.all Char.isDigit
    | _ => false

/-- The number of zeros at the end of a cell. -/
def zerosAtEnd (cell : Text) : Nat := (cell.reverse.takeWhile (· == '0')).length

/-- Cells without the zeros that all cells with places have at their end; one place is kept. -/
def trimZeros (cells : List Text) : List Text :=
  match ((cells.filter hasPlaces).map zerosAtEnd).min? with
  | none => cells
  | some n =>
    cells.map fun cell =>
      if hasPlaces cell then
        let cut := cell.take (cell.length - n)
        if cut.getLast? = some '.' then cut ++ ['0'] else cut
      else cell

/-- The width of the widest cell. -/
def width (cells : List Text) : Nat := (cells.map List.length).foldl max 0

/-- The results of a table as cells. -/
def resultCells (xs : List Float) : List Text :=
  let cells := trimZeros (xs.map (resultCell (Double.fixed 6)))
  if xs.any (fun x => 0.0 < size x && size x < 0.000001) ||
      (12 < width cells && xs.any fun x => 1000000.0 < size x) then
    xs.map (resultCell (Double.scientific 6))
  else cells

/-- A column of cells of the same width, set to the right. -/
def column (cells : List Text) : List Text :=
  let w := width cells
  cells.map fun cell => List.replicate (w - cell.length) ' ' ++ cell

/-- The table of a batch, line by line. -/
def lines (rows : List Row) : List Text :=
  let anyError := rows.any (·.error.isSome)
  let expressions := column ("expression".toList :: rows.map (expressionCell ·.text))
  let results := column (" result".toList :: resultCells (rows.map (·.result)))
  let errors := column ("error".toList :: rows.map fun r =>
    (r.error.map String.toList).getD (missingError anyError))
  (expressions.zip (results.zip errors)).map fun (a, b, c) => a ++ ' ' :: (b ++ ' ' :: c)

/-- The table of a batch. -/
def render (rows : List Row) : String :=
  String.ofList ((lines rows).flatMap (· ++ ['\n']))

end Reckoner.Table
