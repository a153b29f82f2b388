import LoxLang.Tree.Fault

/-!
# Parsers

A `Parser` reads tokens from the front of a list.  It ends with a value or with a mistake that ends
the declaration, and on the way it may report mistakes that do not (`Parse.Reply`).  Parsers are
composed as a lawful monad; the parsers here take, expect or look at single tokens.

`Parse.recover` turns the mistake that ends a declaration into a reported one and skips to the next
statement boundary (`Parse.synchronize`), giving up at least one token (`synchronize_suffix_tail`).
-/

namespace LoxLang

namespace Parse

/-! ### Parsers -/

/-- A fault at a token, or at the end of the input. -/
structure Mistake where
  at? : Option Token
  fault : SyntaxFault
  deriving Repr

/-- How a parser ends: with a value or with a mistake that ends the declaration, each with the
tokens that are left and the mistakes reported on the way; or without the fuel to decide. -/
inductive Reply (α : Type) where
  | done (value : α) (rest : List Token) (reported : List Mistake)
  | failed (mistake : Mistake) (rest : List Token) (reported : List Mistake)
  | starved

end Parse

/-- A parser reads tokens from the front of a list. -/
def Parser (α : Type) := List Token → Parse.Reply α

namespace Parse

variable {α β : Type}

/-- The reply with mistakes reported before it. -/
def Reply.after (earlier : List Mistake) : Reply α → Reply α
  | .done a rest reported => .done a rest (earlier ++ reported)
  | .failed e rest reported => .failed e rest (earlier ++ reported)
  | .starved => .starved

instance : Monad Parser where
  pure a := fun tokens => .done a tokens []
  bind p f := fun tokens => match p tokens with
    | .done a rest reported => (f a rest).after reported
    | .failed e rest reported => .failed e rest reported
    | .starved => .starved

@[simp] theorem Reply.after_nil (r : Reply α) : r.after [] = r := by cases r <;> rfl

@[simp] theorem Reply.after_append (xs ys : List Mistake) (r : Reply α) :
    r.after (xs ++ ys) = (r.after ys).after xs := by cases r <;> simp [after]

theorem bind_apply (p : Parser α) (f : α → Parser β) (tokens : List Token) :
    (p >>= f) tokens = match p tokens with
      | .done a rest reported => (f a rest).after reported
      | .failed e rest reported => .failed e rest reported
      | .starved => .starved := rfl

@[simp] theorem pure_apply (a : α) (tokens : List Token) :
    (pure a : Parser α) tokens = .done a tokens [] := rfl

instance : LawfulMonad Parser :=
  LawfulMonad.mk' Parser
    (fun p => funext fun tokens => by
      change ((p >>= fun a => pure (id a)) : Parser _) tokens = p tokens
      rw [bind_apply]; cases p tokens <;> simp [Reply.after])
    (fun a f => funext fun tokens => by rw [bind_apply, pure_apply]; simp)
    (fun p f g => funext fun tokens => by
      simp only [bind_apply]
      cases p tokens with
      | done a rest reported =>
        dsimp only
        cases f a rest with
        | done b rest later => exact Reply.after_append reported later (g b rest)
        | failed e rest later => rfl
        | starved => rfl
      | failed e rest reported => rfl
      | starved => rfl)

/-- Out of fuel. -/
def starve : Parser α := fun _ => .starved

/-- Ends the declaration with a fault at the next token. -/
def fail (fault : SyntaxFault) : Parser α := fun tokens => .failed ⟨tokens.head?, fault⟩ tokens []

/-- Reports a fault at a token, or at the end of the input, and goes on. -/
def report (at? : Option Token) (fault : SyntaxFault) : Parser Unit :=
  fun tokens => .done () tokens [⟨at?, fault⟩]

/-- The next token, left where it is. -/
def peek? : Parser (Option Token) := fun tokens => .done tokens.head? tokens []

/-- Takes the next token if `f` makes something of it. -/
def take? (f : Token → Option α) : Parser (Option α)
  | [] => .done none [] []
  | t :: rest => match f t with
    | some a => .done (some a) rest []
    | none => .done none (t :: rest) []

/-- Takes the next token if it is one of the symbols. -/
def acceptAny (symbols : List Symbol) : Parser (Option Token) :=
  take? fun t => if symbols.any t.is then some t else none

/-- Takes the next token if it is the symbol `s`. -/
def accept (s : Symbol) : Parser (Option Token) := acceptAny [s]

/-- Takes the next token if it is the symbol `s`, and says whether it did. -/
def accepts (s : Symbol) : Parser Bool := return (← accept s).isSome

/-- Takes the next token, which has to be the symbol `s`. -/
def expect (s : Symbol) (what : Expectation) : Parser Token := do
  match ← accept s with
  | some t => pure t
  | none => fail (.expected what)

/-- Skips the next token, which has to be the symbol `s`. -/
def skip (s : Symbol) (what : Expectation) : Parser Unit := do
  let _ ← expect s what

/-- The next token is the symbol `s`. -/
def sees (s : Symbol) : Parser Bool := return (← peek?).any (·.is s)

/-- No token is left. -/
def atEnd : Parser Bool := return (← peek?).isNone

/-- No token is left, or the next one closes a block. -/
def atClose : Parser Bool := return (← peek?).all (·.is .rightBrace)

/-! ### Recovery -/

/-- The keywords that start a statement. -/
def statementStarts : List Symbol :=
  [.classKw, .funKw, .varKw, .forKw, .ifKw, .whileKw, .printKw, .returnKw]

/-- Skips tokens up to a statement boundary: the end, a token after a semicolon, or a keyword that
starts a statement.  `last` is the token skipped before. -/
def settle (last : Token) : List Token → List Token
  | [] => []
  | t :: rest =>
    if last.is .semicolon || statementStarts.any t.is then t :: rest else settle t rest

/-- Skips the token at which a mistake was found, and then up to a statement boundary. -/
def synchronize : List Token → List Token
  | [] => []
  | t :: rest => settle t rest

theorem settle_suffix (last : Token) (tokens : List Token) : settle last tokens <:+ tokens := by
  induction tokens generalizing last with
  | nil => exact List.suffix_refl _
  | cons t rest ih =>
    rw [settle]
    split
    · exact List.suffix_refl _
    · exact (ih t).trans (List.suffix_cons t rest)

/-- Recovery gives up the token at which the mistake was found, so it always moves on. -/
theorem synchronize_suffix_tail (tokens : List Token) : synchronize tokens <:+ tokens.tail := by
  cases tokens with
  | nil => exact List.suffix_refl _
  | cons t rest => exact settle_suffix t rest

/-- Reports the mistake that ends `p`, if one does, and skips to a statement boundary. -/
def recover (p : Parser α) : Parser (Option α) := fun tokens =>
  match p tokens with
  | .done a rest reported => .done (some a) rest reported
  | .failed e rest reported => .done none (synchronize rest) (reported ++ [e])
  | .starved => .starved

end Parse

end LoxLang
