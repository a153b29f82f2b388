import LoxLang.Tree.Parse

/-!
# The grammar

The rules of the language, as derivations of trees from token sequences, with `X*` for any number
of `X` and `X?` for an optional one:

* program: `declaration*`
* declaration: `class IDENT { function* }`, `fun function`, `var IDENT (= expression)? ;`, statement
* function: `IDENT ( (IDENT (, IDENT)*)? ) block`, with at most 255 parameters
* statement: `expression ;`, `print expression ;`, `return expression? ;`, block,
  `if ( expression ) statement (else statement)?`, `while ( expression ) statement`,
  `for ( (varDeclaration | expression ; | ;) expression? ; expression? ) statement`
* block: `{ declaration* }`
* expression: `(call .)? IDENT = expression`, or the loosest level of operators
* level: `operand (operator operand)*`; the tightest operand is `(! | -) unary` or a call
* call: `primary (( (expression (, expression)*)? ) | . IDENT)*`, with at most 255 arguments each
* primary: a literal, `this`, `IDENT`, `( expression )`

A statement derived from `statement true` ends in an `if` without an `else`, so that an `else` could
follow it.  The rules allow that `else` to belong to any of the `if`s it could belong to;
`Derives true` only keeps the derivations where it belongs to the nearest one.
-/

namespace LoxLang

namespace Grammar

open Parse (Level)

/-- What a rule derives. -/
inductive Nonterminal where
  | expression
  /-- The operators of a level, or without a level the prefix operators. -/
  | level (l? : Option Level)
  | call
  | primary
  | arguments
  | parameters
  /-- An expression that may be missing. -/
  | clause
  | varDeclaration
  | expressionStatement
  | initializer
  | statement (endsInIf : Bool)
  | block
  | function
  | functions
  | declaration
  | declarations

/-- The trees of a nonterminal. -/
@[reducible] def Nonterminal.Tree : Nonterminal → Type
  | expression | level _ | call | primary => Expr Unit
  | arguments => List (Expr Unit)
  | parameters => List Token
  | clause => Option (Expr Unit)
  | varDeclaration | expressionStatement | statement _ | declaration => Stmt Unit
  | initializer => Option (Stmt Unit)
  | block | declarations => List (Stmt Unit)
  | function => Function Unit
  | functions => List (Function Unit)

/-- The operands and the operators of each level. -/
def levelRule : Level → Option Level × List Symbol
  | .or => (some .and, [.orKw])
  | .and => (some .equality, [.andKw])
  | .equality => (some .comparison, [.bangEqual, .equalEqual])
  | .comparison => (some .term, [.greater, .greaterEqual, .less, .lessEqual])
  | .term => (some .factor, [.minus, .plus])
  | .factor => (none, [.slash, .star])

/-- The tree of two operands: `or` and `and` do not always evaluate the right one. -/
def levelTree : Level → Expr Unit → Token → Expr Unit → Expr Unit
  | .or => .logical
  | .and => .logical
  | _ => .binary

/-- The block and the `while` loop that a `for` loop stands for. -/
def loopTree (condition? : Option (Expr Unit)) (body : Stmt Unit) :
    Option (Stmt Unit) → Option (Expr Unit) → Stmt Unit
  | none, none => .whileLoop (condition?.getD (.literal (.bool true))) body
  | none, some increment =>
    .whileLoop (condition?.getD (.literal (.bool true))) (.block [body, .expr increment])
  | some initializer, none =>
    .block [initializer, .whileLoop (condition?.getD (.literal (.bool true))) body]
  | some initializer, some increment =>
    .block [initializer,
      .whileLoop (condition?.getD (.literal (.bool true))) (.block [body, .expr increment])]

/-- The token sequence is derived from the nonterminal, with the given tree.  If `nearest` holds,
every `else` belongs to the nearest `if`. -/
inductive Derives (nearest : Bool) : (n : Nonterminal) → List Token → n.Tree → Prop where
  -- expressions
  | assignName {name equals : Token} {w v} :
    name.is .identifier → equals.is .equal → Derives nearest .expression w v →
    Derives nearest .expression (name :: equals :: w) (.assign () name v)
  | assignField {dot name equals : Token} {u w object v} :
    Derives nearest .call u object → dot.is .dot → name.is .identifier → equals.is .equal →
    Derives nearest .expression w v →
    Derives nearest .expression (u ++ dot :: name :: equals :: w) (.set object name v)
  | loosest {w e} : Derives nearest (.level (some .or)) w e → Derives nearest .expression w e
  | operand {l w e} :
    Derives nearest (.level (levelRule l).1) w e → Derives nearest (.level (some l)) w e
  | operator {l} {op : Token} {u w left right} :
    Derives nearest (.level (some l)) u left → (levelRule l).2.any op.is →
    Derives nearest (.level (levelRule l).1) w right →
    Derives nearest (.level (some l)) (u ++ op :: w) (levelTree l left op right)
  | signed {op : Token} {w e} :
    op.is .bang ∨ op.is .minus → Derives nearest (.level none) w e →
    Derives nearest (.level none) (op :: w) (.unary op e)
  | unsigned {w e} : Derives nearest .call w e → Derives nearest (.level none) w e
  | callee {w e} : Derives nearest .primary w e → Derives nearest .call w e
  | callEmpty {lp rp : Token} {w f} :
    Derives nearest .call w f → lp.is .leftParen → rp.is .rightParen →
    Derives nearest .call (w ++ [lp, rp]) (.call f rp [])
  | call {lp rp : Token} {u w f args} :
    Derives nearest .call u f → lp.is .leftParen → Derives nearest .arguments w args →
    args.length ≤ 255 → rp.is .rightParen →
    Derives nearest .call (u ++ lp :: (w ++ [rp])) (.call f rp args)
  | property {dot name : Token} {w object} :
    Derives nearest .call w object → dot.is .dot → name.is .identifier →
    Derives nearest .call (w ++ [dot, name]) (.get object name)
  | lastArgument {w e} : Derives nearest .expression w e → Derives nearest .arguments w [e]
  | argument {comma : Token} {u w e es} :
    Derives nearest .expression u e → comma.is .comma → Derives nearest .arguments w es →
    Derives nearest .arguments (u ++ comma :: w) (e :: es)
  | number {t : Token} {x} :
    t.kind = .number x → Derives nearest .primary [t] (.literal (.number x))
  | string {t : Token} {s} :
    t.kind = .string s → Derives nearest .primary [t] (.literal (.string s))
  | trueLiteral {t : Token} : t.is .trueKw → Derives nearest .primary [t] (.literal (.bool true))
  | falseLiteral {t : Token} : t.is .falseKw → Derives nearest .primary [t] (.literal (.bool false))
  | nilLiteral {t : Token} : t.is .nilKw → Derives nearest .primary [t] (.literal .nil)
  | this {t : Token} : t.is .thisKw → Derives nearest .primary [t] (.thisRef () t)
  | name {t : Token} : t.is .identifier → Derives nearest .primary [t] (.var () t)
  | group {lp rp : Token} {w e} :
    lp.is .leftParen → Derives nearest .expression w e → rp.is .rightParen →
    Derives nearest .primary (lp :: (w ++ [rp])) (.group e)
  -- statements
  | noClause : Derives nearest .clause [] none
  | clause {w e} : Derives nearest .expression w e → Derives nearest .clause w (some e)
  | expressionStatement {semi : Token} {w e} :
    Derives nearest .expression w e → semi.is .semicolon →
    Derives nearest .expressionStatement (w ++ [semi]) (.expr e)
  | plain {w s} :
    Derives nearest .expressionStatement w s → Derives nearest (.statement false) w s
  | print {keyword semi : Token} {w e} :
    keyword.is .printKw → Derives nearest .expression w e → semi.is .semicolon →
    Derives nearest (.statement false) (keyword :: (w ++ [semi])) (.print e)
  | ret {keyword semi : Token} {w e?} :
    keyword.is .returnKw → Derives nearest .clause w e? → semi.is .semicolon →
    Derives nearest (.statement false) (keyword :: (w ++ [semi])) (.ret keyword e?)
  | blockStatement {w body} :
    Derives nearest .block w body → Derives nearest (.statement false) w (.block body)
  | whileLoop {o} {keyword lp rp : Token} {u w condition body} :
    keyword.is .whileKw → lp.is .leftParen → Derives nearest .expression u condition →
    rp.is .rightParen → Derives nearest (.statement o) w body →
    Derives nearest (.statement o) (keyword :: lp :: (u ++ rp :: w)) (.whileLoop condition body)
  | forLoop {o} {keyword lp semi rp : Token} {u v x w initializer? condition? increment? body} :
    keyword.is .forKw → lp.is .leftParen → Derives nearest .initializer u initializer? →
    Derives nearest .clause v condition? → semi.is .semicolon →
    Derives nearest .clause x increment? → rp.is .rightParen →
    Derives nearest (.statement o) w body →
    Derives nearest (.statement o) (keyword :: lp :: (u ++ (v ++ semi :: (x ++ rp :: w))))
      (loopTree condition? body initializer? increment?)
  | ifThen {o} {keyword lp rp : Token} {u w condition s} :
    keyword.is .ifKw → lp.is .leftParen → Derives nearest .expression u condition →
    rp.is .rightParen → Derives nearest (.statement o) w s →
    Derives nearest (.statement true) (keyword :: lp :: (u ++ rp :: w)) (.ifThen condition s)
  | ifElse {o o'} {keyword lp rp other : Token} {u w w' condition s s'} :
    keyword.is .ifKw → lp.is .leftParen → Derives nearest .expression u condition →
    rp.is .rightParen → Derives nearest (.statement o) w s → (nearest → o = false) →
    other.is .elseKw → Derives nearest (.statement o') w' s' →
    Derives nearest (.statement o') (keyword :: lp :: (u ++ rp :: (w ++ other :: w')))
      (.ifElse condition s s')
  | noInitializer {semi : Token} : semi.is .semicolon → Derives nearest .initializer [semi] none
  | varInitializer {w s} :
    Derives nearest .varDeclaration w s → Derives nearest .initializer w (some s)
  | expressionInitializer {w s} :
    Derives nearest .expressionStatement w s → Derives nearest .initializer w (some s)
  -- declarations
  | block {lb rb : Token} {w body} :
    lb.is .leftBrace → Derives nearest .declarations w body → rb.is .rightBrace →
    Derives nearest .block (lb :: (w ++ [rb])) body
  | lastParameter {t : Token} : t.is .identifier → Derives nearest .parameters [t] [t]
  | parameter {t comma : Token} {w ts} :
    t.is .identifier → comma.is .comma → Derives nearest .parameters w ts →
    Derives nearest .parameters (t :: comma :: w) (t :: ts)
  | functionEmpty {name lp rp : Token} {w body} :
    name.is .identifier → lp.is .leftParen → rp.is .rightParen → Derives nearest .block w body →
    Derives nearest .function (name :: lp :: rp :: w) ⟨(), name, [], body⟩
  | function {name lp rp : Token} {u w params body} :
    name.is .identifier → lp.is .leftParen → Derives nearest .parameters u params →
    params.length ≤ 255 → rp.is .rightParen → Derives nearest .block w body →
    Derives nearest .function (name :: lp :: (u ++ rp :: w)) ⟨(), name, params, body⟩
  | noFunction : Derives nearest .functions [] []
  | functions {u w f fs} :
    Derives nearest .function u f → Derives nearest .functions w fs →
    Derives nearest .functions (u ++ w) (f :: fs)
  | varEmpty {keyword name semi : Token} :
    keyword.is .varKw → name.is .identifier → semi.is .semicolon →
    Derives nearest .varDeclaration [keyword, name, semi] (.var name none)
  | var {keyword name equals semi : Token} {w e} :
    keyword.is .varKw → name.is .identifier → equals.is .equal →
    Derives nearest .expression w e → semi.is .semicolon →
    Derives nearest .varDeclaration (keyword :: name :: equals :: (w ++ [semi])) (.var name (some e))
  | classDeclaration {keyword name lb rb : Token} {w methods} :
    keyword.is .classKw → name.is .identifier → lb.is .leftBrace →
    Derives nearest .functions w methods → rb.is .rightBrace →
    Derives nearest .declaration (keyword :: name :: lb :: (w ++ [rb])) (.classDecl name methods)
  | functionDeclaration {keyword : Token} {w decl} :
    keyword.is .funKw → Derives nearest .function w decl →
    Derives nearest .declaration (keyword :: w) (.function decl)
  | varDeclaration {w s} :
    Derives nearest .varDeclaration w s → Derives nearest .declaration w s
  | statement {o w s} : Derives nearest (.statement o) w s → Derives nearest .declaration w s
  | noDeclaration : Derives nearest .declarations [] []
  | declarations {u w s ss} :
    Derives nearest .declaration u s → Derives nearest .declarations w ss →
    Derives nearest .declarations (u ++ w) (s :: ss)

end Grammar

end LoxLang
