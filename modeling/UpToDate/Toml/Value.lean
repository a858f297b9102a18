namespace UpToDate.Toml

inductive TableKind
  /-- On the way to the table of a header. -/
  | implied
  /-- On the way of a dotted key. -/
  | dotted
  | declared
  | inline
  deriving DecidableEq, Inhabited

inductive Value
  | text (s : String)
  | integer (n : Int)
  /-- The number as it is written, without underscores. -/
  | float (digits : String)
  | boolean (b : Bool)
  /-- A date, a time or both, in standard form. -/
  | datetime (s : String)
  | array (items : List Value)
  | table (kind : TableKind) (entries : List (String × Value))
  /-- Tables that headers in double brackets put in a row, the last one first. -/
  | tables (items : List Value)
  deriving Inhabited

end UpToDate.Toml
