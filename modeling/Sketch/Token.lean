import Sketch.Number.Spelling
import Sketch.Position

/-!
The words of the sketch language: keywords, punctuation, names and literals.
-/

namespace Sketch

/-- Reserved words. The logical connectives can also be written as symbols. -/
inductive Keyword where
  | functionKw | endKw | ifKw | thenKw | elseKw | elseifKw | forKw | whileKw | doKw | returnKw | varKw
  | andKw | orKw | notKw | nilKw
deriving DecidableEq, Repr, Inhabited

namespace Keyword

def word : Keyword → String
  | .functionKw => "function"
  | .endKw => "end"
  | .ifKw => "if"
  | .thenKw => "then"
  | .elseKw => "else"
  | .elseifKw => "elseif"
  | .forKw => "for"
  | .whileKw => "while"
  | .doKw => "do"
  | .returnKw => "return"
  | .varKw => "var"
  | .andKw => "and"
  | .orKw => "or"
  | .notKw => "not"
  | .nilKw => "nil"

/-- The keyword that a word spells. Two of them have a second spelling. -/
def ofWord? : String → Option Keyword
  | "function" => some .functionKw
  | "end" => some .endKw
  | "if" => some .ifKw
  | "then" => some .thenKw
  | "else" => some .elseKw
  | "elseif" => some .elseifKw
  | "for" => some .forKw
  | "while" => some .whileKw
  | "do" => some .doKw
  | "return" => some .returnKw
  | "var" | "let" => some .varKw
  | "and" => some .andKw
  | "or" => some .orKw
  | "not" => some .notKw
  | "nil" | "null" => some .nilKw
  | _ => none

end Keyword

/-- Operators and brackets. -/
inductive Punct where
  | plus | minus | star | slash | percent
  | plusEq | minusEq | starEq | slashEq
  | eq | eqEq | bangEq | lt | ltEq | gt | gtEq
  | colon | comma | semicolon | dot
  | lparen | rparen | lbrace | rbrace | lbracket | rbracket
deriving DecidableEq, Repr, Inhabited

def Punct.symbol : Punct → String
  | .plus => "+"
  | .minus => "-"
  | .star => "*"
  | .slash => "/"
  | .percent => "%"
  | .plusEq => "+="
  | .minusEq => "-="
  | .starEq => "*="
  | .slashEq => "/="
  | .eq => "="
  | .eqEq => "=="
  | .bangEq => "!="
  | .lt => "<"
  | .ltEq => "<="
  | .gt => ">"
  | .gtEq => ">="
  | .colon => ":"
  | .comma => ","
  | .semicolon => ";"
  | .dot => "."
  | .lparen => "("
  | .rparen => ")"
  | .lbrace => "\x7b"
  | .rbrace => "\x7d"
  | .lbracket => "["
  | .rbracket => "]"

/-- What a token is, apart from where it stands. -/
inductive TokenKind where
  | number (value : Float)
  | bool (value : Bool)
  | string (text : String)
  | ident (name : String)
  | keyword (word : Keyword)
  | punct (symbol : Punct)
deriving DecidableEq, Repr, Inhabited

namespace TokenKind

/-- A word is a keyword, a truth value or a name. -/
def ofWord (word : String) : TokenKind :=
  match Keyword.ofWord? word with
  | some k => .keyword k
  | none =>
    if word = "true" then .bool true
    else if word = "false" then .bool false
    else .ident word

/-- How a diagnostic names a token. -/
def describe : TokenKind → String
  | .number value => s!"number `{Number.Spelling.plain.write value}`"
  | .bool value => s!"`{value}`"
  | .string _ => "string"
  | .ident name => s!"identifier `{name}`"
  | .keyword word => s!"`{word.word}`"
  | .punct symbol => s!"`{symbol.symbol}`"

end TokenKind

/-- A token and the place of its first character. -/
structure Token where
  kind : TokenKind
  pos : Pos
deriving DecidableEq, Repr, Inhabited

/-- The tokens of a text, and the place where the text ends. -/
structure TokenStream where
  tokens : List Token
  stop : Pos
deriving DecidableEq, Repr, Inhabited

end Sketch
