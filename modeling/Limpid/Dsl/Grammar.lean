import Limpid.Peg

/-!
# The grammar of expressions

The rules of `limpid.pest` that `expr` is made of.  A keyword is the rule `kw`, which is silent and
is its text; the grammar asks for no end of a word after it.

Whitespace and comments are skipped between the parts of a rule unless the rule is atomic; the
rules of words and numbers are.  The patterns are those of the file, in its order: a choice takes
the first alternative that matches.
-/

namespace Limpid.Dsl

open Peg (Pattern Kind Grammar)

/-- The rules of `limpid.pest` that expressions need. -/
inductive Rule where
  | kw (word : String)
  | ident | identPath
  | stringLit | stringFrag | stringInterp | stringPlain | stringPlainChar | escapeSeq
  | integerLit | floatLit | boolLit | nullLit
  | processLet | funcBody
  | expr | pipeTarget | pipeBareTarget | binExpr | unaryExpr | postfixExpr | unaryOp | binOp
  | atom | switchExpr | switchExprArm | funcCall | funcArgs | blockArg
  | hashLit | hashEntry | arrayLit
deriving DecidableEq

namespace Rule

/-- `{ … }`, `_{ … }`, `@{ … }`, `${ … }` and `!{ … }`. -/
def kind : Rule → Kind
  | kw _ | stringFrag => .silent
  | ident | integerLit | floatLit | stringPlain | escapeSeq => .atomic
  | stringLit => .compound
  | stringInterp => .nonAtomic
  | _ => .normal

/-- A text as it is. -/
def lit (s : String) : Pattern Rule := .text s.toList

/-- A sequence of parts. -/
def seqs : List (Pattern Rule) → Pattern Rule
  | [] => .empty
  | [part] => part
  | part :: rest => .seq part (seqs rest)

/-- The first pattern that matches. -/
def choices : List (Pattern Rule) → Pattern Rule
  | [] => .absent .empty
  | [part] => part
  | part :: rest => .choice part (choices rest)

/-- `ASCII_DIGIT`. -/
def digit : Pattern Rule := .one Char.isDigit

/-- The first character of an identifier. -/
def identStart (c : Char) : Bool := c.isAlpha || c = '_'

/-- A later character of an identifier. -/
def identChar (c : Char) : Bool := c.isAlphanum || c = '_'

/-- `ANY`. -/
def any : Pattern Rule := .one fun _ => true

/-- `NEWLINE`. -/
def newline : Pattern Rule := choices [lit "\n", lit "\r\n", lit "\r"]

/-- `p ~ ("," ~ p)*`. -/
def commaList (p : Pattern Rule) : Pattern Rule := .seq p (.many (.seq (lit ",") p))

/-- `(p ~ ("," ~ p)* ~ ","?)?`. -/
def trailingList (p : Pattern Rule) : Pattern Rule :=
  .opt (seqs [p, .many (.seq (lit ",") p), .opt (lit ",")])

/-- What a rule matches. -/
def body : Rule → Pattern Rule
  | kw word => lit word
  | ident => .seq (.one identStart) (.many (.one identChar))
  | identPath => .seq (.call ident) (.many (.seq (lit ".") (.call ident)))
  | stringLit => seqs [lit "\"", .many (.call stringFrag), lit "\""]
  | stringFrag => .choice (.call stringInterp) (.call stringPlain)
  | stringInterp => seqs [lit "$\x7b", .call expr, lit "\x7d"]
  | stringPlain => .many1 (.choice (.call escapeSeq) (.call stringPlainChar))
  | stringPlainChar => seqs [.absent (lit "\""), .absent (lit "$\x7b"), .absent (lit "\\"), any]
  | escapeSeq => .seq (lit "\\") any
  | integerLit => .seq (.opt (lit "-")) (.many1 digit)
  | floatLit => seqs [.opt (lit "-"), .many1 digit, lit ".", .many1 digit]
  | boolLit => .choice (.call (kw "true")) (.call (kw "false"))
  | nullLit => .call (kw "null")
  | processLet => seqs [.call (kw "let"), .call ident, lit "=", .call expr]
  | funcBody => .seq (.many (.call processLet)) (.call expr)
  | expr => .seq (.call binExpr) (.many (.seq (lit "|>") (.call pipeTarget)))
  | pipeTarget => .choice (.call funcCall) (.call pipeBareTarget)
  | pipeBareTarget => .seq (.call ident) (.opt (.call blockArg))
  | binExpr => .seq (.call unaryExpr) (.many (.seq (.call binOp) (.call unaryExpr)))
  | unaryExpr => .choice (.seq (.call unaryOp) (.call unaryExpr)) (.call postfixExpr)
  | postfixExpr => .seq (.call atom) (.many (.seq (lit ".") (.call ident)))
  | unaryOp => .choice (.call (kw "not")) (lit "-")
  | binOp => choices [lit "==", lit "!=", lit "<=", lit ">=", lit "<", lit ">",
      .call (kw "and"), .call (kw "or"), lit "+", lit "-", lit "*", lit "/", lit "%"]
  | atom => choices [seqs [lit "(", .call expr, lit ")"], .call switchExpr, .call hashLit,
      .call arrayLit, .call funcCall, .call floatLit, .call integerLit, .call stringLit,
      .call boolLit, .call nullLit, .call identPath]
  | switchExpr => seqs [.call (kw "switch"), .call expr, lit "\x7b", .many (.call switchExprArm),
      lit "\x7d"]
  | switchExprArm => .choice
      (seqs [.call (kw "default"), lit "\x7b", .call expr, lit "\x7d"])
      (seqs [.call expr, lit "\x7b", .call expr, lit "\x7d"])
  | funcCall => .choice
      (seqs [.call ident, lit ".", .call ident, lit "(", .call funcArgs, lit ")",
        .opt (.call blockArg)])
      (seqs [.call ident, lit "(", .call funcArgs, lit ")", .opt (.call blockArg)])
  | funcArgs => .opt (commaList (.call expr))
  | blockArg => seqs [lit "\x7b", lit "|", .call ident, .many (.seq (lit ",") (.call ident)),
      lit "|", .call funcBody, lit "\x7d"]
  | hashLit => seqs [lit "\x7b", trailingList (.call hashEntry), lit "\x7d"]
  | hashEntry => seqs [.call ident, lit ":", .call expr]
  | arrayLit => seqs [lit "[", trailingList (.call expr), lit "]"]

/-- `WHITESPACE`. -/
def whitespace : Pattern Rule := choices [lit " ", lit "\t", newline, lit ";"]

/-- `COMMENT`: to the end of the line. -/
def comment : Pattern Rule := .cat (lit "//") (.star (.cat (.absent newline) any))

end Rule

open Rule in
/-- `limpid.pest`.  Between two parts go white space and comments. -/
def grammar : Grammar Rule where
  kind := Rule.kind
  body := Rule.body
  space := .cat (.star whitespace) (.star (.cat comment (.star whitespace)))

end Limpid.Dsl
