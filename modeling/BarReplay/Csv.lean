namespace BarReplay.Csv

-- Where reading stands in a row.
inductive Place where
  -- nothing of the row has been read
  | rowStart
  | fieldStart
  | plain
  | quoted
  -- behind a quote inside quotes, which ends them or stands for itself
  | afterQuote
  deriving DecidableEq

-- How a text of rows ends.
inductive Ending where
  | betweenRows
  -- inside a row, which has these fields so far
  | insideRow (row : List String)
  -- at a field that is too long
  | longField

-- The rows of a text that are complete, and what comes after them.
structure Reading where
  rows : List (List String)
  ending : Ending

-- A field has this many characters at most.
def fieldLimit : Nat := 131072

-- The row that is being read, last field first; the field, last character first; and how many
-- characters the field has room for.
structure Row where
  fields : List String
  field : List Char
  room : Nat

namespace Row

def start : Row := ⟨[], [], fieldLimit⟩

def close (r : Row) : Row :=
  ⟨String.ofList r.field.reverse :: r.fields, [], fieldLimit⟩

-- The fields of a row that ends here.
def finish (r : Row) : List String :=
  r.close.fields.reverse

end Row

def Reading.add (row : List String) (r : Reading) : Reading :=
  { r with rows := row :: r.rows }

-- Reads rows: fields with commas between them. Quotes at the front of a field go around all of
-- it, and inside them a quote is written twice; a character behind closing quotes goes on
-- with the field. Rows end with a line feed, a carriage return or both; a blank line is a row
-- without fields.
def readFrom (place : Place) (row : Row) : List Char → Reading
  | [] => ⟨[], if place = .rowStart then .betweenRows else .insideRow row.finish⟩
  | c :: rest =>
    let put (next : Place) : Reading :=
      match row.room with
      | 0 => ⟨[], .longField⟩
      | room + 1 => readFrom next ⟨row.fields, c :: row.field, room⟩ rest
    if place = .quoted then
      if c = '"' then readFrom .afterQuote row rest else put .quoted
    else if c = '"' ∧ place ≠ .plain then
      if place = .afterQuote then put .quoted else readFrom .quoted row rest
    else if c = ',' then readFrom .fieldStart row.close rest
    else if c = '\n' ∨ c = '\r' then
      let ended := if place = .rowStart then [] else row.finish
      match c, rest with
      | '\r', '\n' :: rest => (readFrom .rowStart .start rest).add ended
      | _, rest => (readFrom .rowStart .start rest).add ended
    else put .plain

def read (text : List Char) : Reading :=
  readFrom .rowStart .start text

-- A row under a header. Fields that the row lacks are known by name only, and come last;
-- fields beyond the header are dropped.
structure Record where
  fields : List (String × Option String)

namespace Record

def ofRow (header row : List String) : Record :=
  ⟨header.zip (row.map some) ++ (header.drop row.length).map fun name => (name, none)⟩

-- The field of a name, the last one of several.
def field? (r : Record) (name : String) : Option (Option String) :=
  r.fields.reverse.lookup name

end Record

-- Records of a text whose first row is the header. Blank lines below it do not count.
def records : List (List String) → List Record
  | [] => []
  | header :: rows => (rows.filter (!·.isEmpty)).map (Record.ofRow header)

end BarReplay.Csv
