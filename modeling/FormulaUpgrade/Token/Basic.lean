/-! # Tokens of formula text -/

namespace FormulaUpgrade

inductive Token.Kind where
  | number | string | name
  | and | or | not | xor | modulo
  | eq | ne | le | ge | lt | gt
  | plus | minus | times | divide | mod | pow | bang
  | question | colon | assign | comma | dot | semi
  | lparen | rparen | lbracket | rbracket | lbrace | rbrace
deriving DecidableEq, Repr

/-- The label of a kind in messages. -/
def Token.Kind.label : Token.Kind → String
  | .number => "NUMBER" | .string => "STRING" | .name => "NAME"
  | .and => "AND" | .or => "OR" | .not => "NOT" | .xor => "XOR" | .modulo => "MODULO"
  | .eq => "EQ" | .ne => "NE" | .le => "LE" | .ge => "GE" | .lt => "LT" | .gt => "GT"
  | .plus => "PLUS" | .minus => "MINUS" | .times => "TIMES" | .divide => "DIVIDE"
  | .mod => "MOD" | .pow => "POW" | .bang => "BANG"
  | .question => "QUESTION" | .colon => "COLON" | .assign => "ASSIGN"
  | .comma => "COMMA" | .dot => "DOT" | .semi => "SEMI"
  | .lparen => "LPAREN" | .rparen => "RPAREN" | .lbracket => "LBRACKET" | .rbracket => "RBRACKET"
  | .lbrace => "LBRACE" | .rbrace => "RBRACE"

/-- A token: its kind, its text as written, and the index of its first character. -/
structure Token where
  kind : Token.Kind
  text : String
  start : Nat
deriving DecidableEq, Repr

/-- The index just past the last character. -/
def Token.stop (t : Token) : Nat :=
  t.start + t.text.length

end FormulaUpgrade
