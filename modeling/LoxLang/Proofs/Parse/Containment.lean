import LoxLang.Proofs.Parse.Continuation

/-!
# A semicolon contains an expression statement

Tokens before a semicolon that begin no block and no other kind of statement or declaration, however badly
they are formed, are one statement or mistakes among themselves, and what stands after the semicolon is
parsed as it would be on its own (`parse_contained`).  A closing brace does not matter.

The parsers of expressions never take a semicolon.  So wherever one of them ends in an `Enclosure`, it
leaves the semicolon and all that follows (`Enclosure.confines_expressions`), and from there
`synchronize` skips to the token after it (`Enclosure.synchronize_left`).
-/

namespace LoxLang

namespace Parse

variable {α β : Type}

/-! ### Expression statements -/

theorem skip_cons (s : Symbol) (what : Expectation) (t : Token) (rest : List Token) :
    skip s what (t :: rest) =
      if t.is s then .done () rest [] else .failed ⟨some t, .expected what⟩ (t :: rest) [] := by
  cases h : t.is s <;>
    simp [skip, expect, accept, acceptAny, take?, fail, bind_apply, h, Reply.after]

theorem bind_accept_of_stops {s : Symbol} {f : Option Token → Parser β} {tokens : List Token}
    (h : Stops [s] tokens) : (accept s >>= f) tokens = f none tokens := by
  rw [bind_apply, accept, acceptAny_of_stops h]
  exact Reply.after_nil _

theorem accepts_else {s : Symbol} {p q : Parser β} {tokens : List Token} (h : Stops [s] tokens) :
    (do if ← accepts s then p else q) tokens = q tokens := by
  rw [accepts, bind_assoc, bind_accept_of_stops h, pure_bind]
  rfl

/-- The symbols that begin a block, or a statement or declaration that is not just an expression. -/
def openers : List Symbol := .leftBrace :: statementStarts

/-- Where no declaration and no other statement begins, an expression statement is read. -/
theorem declaration_eq_expressionStatement {fuel : Nat} {tokens : List Token}
    (h : Stops openers tokens) :
    declaration (fuel + 2) tokens = expressionStatement fuel tokens := by
  have hno {s : Symbol} (hs : s ∈ openers) : Stops [s] tokens := h.not_is hs
  rw [declaration, accepts_else (hno (by decide)), accepts_else (hno (by decide)),
    accepts_else (hno (by decide)), statement, accepts_else (hno (by decide)),
    accepts_else (hno (by decide)), accepts_else (hno (by decide)), accepts_else (hno (by decide)),
    accepts_else (hno (by decide)), bind_accept_of_stops (hno (by decide))]

theorem settle_after {last : Token} (h : last.is .semicolon = true) (tokens : List Token) :
    settle last tokens = tokens := by
  cases tokens with
  | nil => rfl
  | cons t rest => simp [settle, h]

/-! ### Parsers before a semicolon -/

/-- The symbols that do not stand in an expression statement before its semicolon. -/
def boundaries : List Symbol := [.semicolon, .endOfInput] ++ openers

/-- Tokens that no boundary divides, the semicolon that follows them, and the tokens after it. -/
structure Enclosure where
  inner : List Token
  semicolon : Token
  outer : List Token
  undivided : ∀ t ∈ inner, boundaries.any t.is = false
  is_semicolon : semicolon.is .semicolon = true

namespace Enclosure

variable (F : Enclosure)

/-- Some of the tokens before the semicolon are still there, and all from the semicolon on. -/
def Left (tokens : List Token) : Prop :=
  ∃ inner, inner <:+ F.inner ∧ tokens = inner ++ F.semicolon :: F.outer

/-- The token stands before the semicolon, or is the semicolon. -/
def Holds (t : Token) : Prop := t ∈ F.inner ++ [F.semicolon]

/-- The mistake is found at a token up to the semicolon. -/
def Cites (m : Mistake) : Prop := ∃ t, F.Holds t ∧ m.at? = some t

/-- Before the semicolon `p` leaves the semicolon where it is, its mistakes are found there, and what it
yields satisfies `post`. -/
def Keeps (p : Parser α) (post : α → Prop) : Prop := ∀ tokens, F.Left tokens →
  match p tokens with
  | .done a rest reported => post a ∧ F.Left rest ∧ ∀ m ∈ reported, F.Cites m
  | .failed e rest reported => F.Left rest ∧ ∀ m ∈ reported ++ [e], F.Cites m
  | .starved => True

/-- As `Keeps`, whatever is yielded. -/
abbrev Confines (p : Parser α) : Prop := F.Keeps p fun _ => True

variable {F}

theorem Left.head {tokens : List Token} (h : F.Left tokens) :
    ∃ t ts, tokens = t :: ts ∧ F.Holds t ∧ (t.is .semicolon = false → F.Left ts) := by
  obtain ⟨inner, hsuffix, rfl⟩ := h
  cases inner with
  | nil =>
    refine ⟨F.semicolon, F.outer, rfl, List.mem_append_right _ (List.mem_singleton_self _), ?_⟩
    simp [F.is_semicolon]
  | cons t inner =>
    refine ⟨t, inner ++ F.semicolon :: F.outer, rfl, ?_, fun _ => ?_⟩
    · exact List.mem_append_left _ (hsuffix.subset List.mem_cons_self)
    · exact ⟨inner, (List.suffix_cons t inner).trans hsuffix, rfl⟩

namespace Keeps

variable {post : α → Prop} {post' : β → Prop}

protected theorem pure {a : α} (ha : post a) : F.Keeps (pure a) post :=
  fun _ h => ⟨ha, h, List.forall_mem_nil _⟩

/-- A value that does not matter. -/
theorem done (a : α) : F.Confines (pure a) := Keeps.pure trivial

theorem starve : F.Keeps (Parse.starve : Parser α) post := fun _ _ => trivial

theorem bind {p : Parser α} {f : α → Parser β} (hp : F.Keeps p post)
    (hf : ∀ a, post a → F.Keeps (f a) post') : F.Keeps (p >>= f) post' := by
  intro tokens h
  have hreply := hp tokens h
  rw [bind_apply]
  cases hr : p tokens with
  | done a mid earlier =>
    rw [hr] at hreply
    obtain ⟨ha, hmid, hearlier⟩ := hreply
    have hlater := hf a ha mid hmid
    dsimp only
    cases hr' : f a mid with
    | done b rest later =>
      rw [hr'] at hlater
      obtain ⟨hb, hrest, hlater⟩ := hlater
      exact ⟨hb, hrest, List.forall_mem_append.2 ⟨hearlier, hlater⟩⟩
    | failed e rest later =>
      rw [hr'] at hlater
      refine ⟨hlater.1, ?_⟩
      rw [List.append_assoc]
      exact List.forall_mem_append.2 ⟨hearlier, hlater.2⟩
    | starved => trivial
  | failed e rest reported =>
    rw [hr] at hreply
    exact hreply
  | starved => trivial

/-- After a parser whose value does not matter. -/
theorem next {p : Parser α} {f : α → Parser β} (hp : F.Keeps p post)
    (hf : ∀ a, F.Keeps (f a) post') : F.Keeps (p >>= f) post' := hp.bind fun a _ => hf a

theorem ite {c : Prop} [Decidable c] {p q : Parser α} (hp : F.Keeps p post)
    (hq : F.Keeps q post) : F.Keeps (if c then p else q) post := by
  split
  · exact hp
  · exact hq

theorem fail (fault : SyntaxFault) : F.Keeps (Parse.fail fault : Parser α) post := by
  intro tokens h
  obtain ⟨t, ts, rfl, ht, -⟩ := h.head
  exact ⟨h, List.forall_mem_singleton.2 ⟨t, ht, rfl⟩⟩

theorem report {at? : Option Token} (fault : SyntaxFault) (h : ∃ t, F.Holds t ∧ at? = some t) :
    F.Confines (Parse.report at? fault) :=
  fun _ hleft => ⟨trivial, hleft, List.forall_mem_singleton.2 h⟩

/-- There is a next token. -/
theorem peek? : F.Keeps Parse.peek? fun t? => ∃ t, F.Holds t ∧ t? = some t := by
  intro tokens h
  obtain ⟨t, ts, rfl, ht, -⟩ := h.head
  exact ⟨⟨t, ht, rfl⟩, h, List.forall_mem_nil _⟩

theorem sees (s : Symbol) : F.Confines (Parse.sees s) :=
  fun _ h => ⟨trivial, h, List.forall_mem_nil _⟩

/-- A parser that makes nothing of a semicolon. -/
theorem take? {f : Token → Option α} (hf : ∀ t, t.is .semicolon = true → f t = none)
    (hpost : ∀ t a, F.Holds t → f t = some a → post a) :
    F.Keeps (Parse.take? f) fun a? => ∀ a ∈ a?, post a := by
  intro tokens h
  obtain ⟨t, ts, rfl, ht, hts⟩ := h.head
  rw [Parse.take?]
  cases hft : f t with
  | none => exact ⟨by simp, h, List.forall_mem_nil _⟩
  | some a =>
    have hother : t.is .semicolon = false :=
      Bool.eq_false_iff.2 fun hsemi => by simp [hf t hsemi] at hft
    exact ⟨fun a' ha' => hpost t a' ht (hft.trans ha'), hts hother, List.forall_mem_nil _⟩

theorem acceptAny {symbols : List Symbol} (h : .semicolon ∉ symbols) :
    F.Keeps (Parse.acceptAny symbols) fun t? => ∀ t ∈ t?, F.Holds t := by
  refine take? (fun t hsemi => if_neg fun hany => ?_) fun t t' ht heq => ?_
  · obtain ⟨s, hs, his⟩ := List.any_eq_true.1 hany
    exact h (is_unique hsemi his ▸ hs)
  · obtain ⟨-, ht'⟩ := Option.ite_none_right_eq_some.1 heq
    exact Option.some_inj.1 ht' ▸ ht

theorem accept {s : Symbol} (h : s ≠ .semicolon) :
    F.Keeps (Parse.accept s) fun t? => ∀ t ∈ t?, F.Holds t :=
  acceptAny (by simpa using h.symm)

theorem accepts {s : Symbol} (h : s ≠ .semicolon) : F.Confines (Parse.accepts s) :=
  (accept h).bind fun _ _ => .done _

theorem expect {s : Symbol} (what : Expectation) (h : s ≠ .semicolon) :
    F.Confines (Parse.expect s what) :=
  (accept h).bind fun t? _ => by
    cases t? with
    | none => exact .fail _
    | some t => exact .done _

theorem skip {s : Symbol} (what : Expectation) (h : s ≠ .semicolon) :
    F.Confines (Parse.skip s what) :=
  (expect what h).next fun _ => .done _

end Keeps

/-! ### Expressions -/

/-- The parsers of expressions stay before the semicolon. -/
structure ExpressionsConfined (F : Enclosure) (fuel : Nat) : Prop where
  expression : F.Confines (Parse.expression fuel)
  operand : ∀ l?, F.Confines (Parse.operand fuel l?)
  operandRest : ∀ level left, F.Confines (Parse.operandRest fuel level left)
  unary : F.Confines (Parse.unary fuel)
  callRest : ∀ callee, F.Confines (Parse.callRest fuel callee)
  arguments : ∀ count, F.Confines (Parse.arguments fuel count)
  primary : F.Confines (Parse.primary fuel)

theorem confines_assignTo {target value : Expr Unit} {equals : Token} (h : F.Holds equals) :
    F.Confines (assignTo target equals value) := by
  cases target with
  | var label name => exact .done _
  | get object name => exact .done _
  | _ => exact (Keeps.report _ ⟨equals, h, rfl⟩).next fun _ => .done _

theorem atom?_semicolon {t : Token} (h : t.is .semicolon = true) : atom? t = none := by
  rw [Token.is, TokenKind.is_iff] at h
  rw [atom?, h]

theorem confines_expressions (F : Enclosure) (fuel : Nat) : ExpressionsConfined F fuel := by
  induction fuel with
  | zero => constructor <;> intros <;> exact Keeps.starve
  | succ fuel ih =>
    constructor
    case expression =>
      rw [Parse.expression]
      refine (ih.operand _).next fun target => (Keeps.accept (by decide)).bind fun equals? hequals => ?_
      cases equals? with
      | none => exact .done _
      | some equals => exact ih.expression.next fun _ => confines_assignTo (hequals equals rfl)
    case operand =>
      intro l?
      cases l? with
      | none => rw [Parse.operand]; exact ih.unary
      | some level =>
        rw [Parse.operand]
        exact (ih.operand _).next fun left => ih.operandRest level left
    case operandRest =>
      intro level left
      have hops : .semicolon ∉ level.operators := by cases level <;> decide
      rw [Parse.operandRest]
      refine (Keeps.acceptAny hops).bind fun op? _ => ?_
      cases op? with
      | none => exact .done _
      | some op => exact (ih.operand _).next fun right => ih.operandRest level _
    case unary =>
      rw [Parse.unary]
      refine (Keeps.acceptAny (by decide)).bind fun op? _ => ?_
      cases op? with
      | none => exact ih.primary.next fun callee => ih.callRest callee
      | some op => exact ih.unary.next fun operand => .done _
    case callRest =>
      intro callee
      have hcall (args : List (Expr Unit)) : F.Confines (do
          callRest fuel (.call callee (← Parse.expect .rightParen .argumentsEnd) args)) :=
        (Keeps.expect _ (by decide)).next fun paren => ih.callRest _
      rw [Parse.callRest]
      refine (Keeps.accepts (by decide)).next fun open? => .ite ?_ ?_
      · refine (Keeps.sees _).next fun empty? => .ite ?_ ?_
        · exact (Keeps.done _).next hcall
        · exact (ih.arguments 0).next hcall
      · refine (Keeps.accepts (by decide)).next fun dot? => .ite ?_ (.done _)
        exact (Keeps.expect _ (by decide)).next fun name => ih.callRest _
    case arguments =>
      intro count
      have hrest (arg : Expr Unit) : F.Confines (do
          if ← Parse.accepts .comma then return arg :: (← Parse.arguments fuel (count + 1))
          else return [arg]) :=
        (Keeps.accepts (by decide)).next fun _ =>
          .ite ((ih.arguments _).next fun args => .done _) (.done _)
      rw [Parse.arguments]
      refine .ite ?_ (ih.expression.next hrest)
      exact Keeps.peek?.bind fun next? hnext => (Keeps.report _ hnext).next fun _ =>
        ih.expression.next hrest
    case primary =>
      rw [Parse.primary]
      refine (Keeps.take? (fun t => atom?_semicolon) fun _ _ _ _ => trivial).next fun atom => ?_
      cases atom with
      | some e => exact .done _
      | none =>
        refine (Keeps.accepts (by decide)).next fun open? => .ite ?_ (.fail _)
        exact ih.expression.next fun inner => (Keeps.skip _ (by decide)).next fun _ => .done _

/-! ### The statement before the semicolon -/

theorem not_is_of_mem {t : Token} (ht : t ∈ F.inner) {s : Symbol} (hs : s ∈ boundaries) :
    t.is s = false := by
  simpa using List.any_eq_false.1 (F.undivided t ht) s hs

theorem Holds.not_end {t : Token} (h : F.Holds t) : t.isEnd = false := by
  rcases List.mem_append.1 h with ht | ht
  · exact F.not_is_of_mem ht (by decide)
  · obtain rfl := List.mem_singleton.1 ht
    exact Bool.eq_false_iff.2 fun hend => absurd (is_unique F.is_semicolon hend) (by decide)

/-- What is left does not begin with a block, or with a keyword of a statement or declaration. -/
theorem Left.stops {tokens : List Token} (h : F.Left tokens) : Stops openers tokens := by
  obtain ⟨inner, hinner, rfl⟩ := h
  cases inner with
  | nil => exact stops_of_is F.is_semicolon (by decide)
  | cons t inner =>
    rintro _ ⟨⟩
    refine List.any_eq_false.2 fun s hs => ?_
    simp [F.not_is_of_mem (hinner.subset List.mem_cons_self) (List.mem_append_right _ hs)]

/-- Recovery stops after the semicolon. -/
theorem settle_inner {last : Token} {inner : List Token} (hlast : last.is .semicolon = false)
    (hinner : inner <:+ F.inner) : settle last (inner ++ F.semicolon :: F.outer) = F.outer := by
  induction inner generalizing last with
  | nil =>
    have hstart : statementStarts.any F.semicolon.is = false :=
      any_is_eq_false F.is_semicolon (by decide)
    simp [settle, hlast, hstart, settle_after F.is_semicolon]
  | cons t inner ih =>
    have ht : t ∈ F.inner := hinner.subset List.mem_cons_self
    have hstart : statementStarts.any t.is = false := List.any_eq_false.2 fun s hs => by
      simp [F.not_is_of_mem ht (List.mem_append_right _ (.tail _ hs))]
    rw [List.cons_append, settle, hlast, hstart]
    exact ih (F.not_is_of_mem ht (by decide)) ((List.suffix_cons t inner).trans hinner)

theorem synchronize_left {tokens : List Token} (h : F.Left tokens) :
    synchronize tokens = F.outer := by
  obtain ⟨inner, hinner, rfl⟩ := h
  cases inner with
  | nil => exact settle_after F.is_semicolon F.outer
  | cons t inner =>
    exact settle_inner (F.not_is_of_mem (hinner.subset List.mem_cons_self) (by decide))
      ((List.suffix_cons t inner).trans hinner)

/-- The semicolon is taken, or another token before it is found in its place. -/
theorem skip_semicolon {tokens : List Token} (h : F.Left tokens) (what : Expectation) :
    skip .semicolon what tokens = .done () F.outer [] ∨
      ∃ e, F.Cites e ∧ skip .semicolon what tokens = .failed e tokens [] := by
  obtain ⟨inner, hinner, rfl⟩ := h
  cases inner with
  | nil =>
    refine .inl ?_
    rw [List.nil_append, skip_cons, if_pos F.is_semicolon]
  | cons t inner =>
    have ht : t ∈ F.inner := hinner.subset List.mem_cons_self
    refine .inr ⟨⟨some t, .expected what⟩, ⟨t, List.mem_append_left _ ht, rfl⟩, ?_⟩
    rw [List.cons_append, skip_cons, F.not_is_of_mem ht (by decide)]
    rfl

/-- An expression before the semicolon takes it, or the mistake is found before it or at it. -/
theorem recover_expressionStatement {fuel : Nat} {tokens : List Token}
    (h : F.Left tokens) (hfuel : expressionStatement fuel tokens ≠ .starved) :
    ∃ first? reported, recover (expressionStatement fuel) tokens = .done first? F.outer reported ∧
      (∀ m ∈ reported, F.Cites m) ∧ (first? = none → reported ≠ []) := by
  have hexpr := (confines_expressions F fuel).expression tokens h
  rw [expressionStatement, bind_apply] at hfuel
  rw [recover, expressionStatement, bind_apply]
  cases hr : expression fuel tokens with
  | done e rest reported =>
    rw [hr] at hexpr
    obtain ⟨-, hrest, hreported⟩ := hexpr
    dsimp only
    rw [bind_apply]
    rcases skip_semicolon hrest .expressionEnd with hskip | ⟨m, hm, hskip⟩
    · rw [hskip]
      refine ⟨some (.expr e), reported, ?_, hreported, by simp⟩
      simp [Reply.after]
    · rw [hskip]
      have hall := List.forall_mem_append.2 ⟨hreported, List.forall_mem_singleton.2 hm⟩
      refine ⟨none, reported ++ [m], ?_, hall, by simp⟩
      simp [Reply.after, synchronize_left hrest]
  | failed m rest reported =>
    rw [hr] at hexpr
    obtain ⟨hrest, hreported⟩ := hexpr
    refine ⟨none, reported ++ [m], ?_, hreported, by simp⟩
    simp [synchronize_left hrest]
  | starved => exact absurd (by rw [hr]) hfuel

end Enclosure

end Parse

open Parse

/-- Tokens before a semicolon, undivided by a boundary and otherwise of any kind, yield at most one
statement.  Their mistakes are found among them or at the semicolon, and there is one unless there is a
statement.  The tokens after the semicolon are parsed as they would be on their own. -/
theorem parse_contained {J : List Token} {semicolon : Token} (C : List Token)
    (hJ : ∀ t ∈ J, boundaries.any t.is = false) (hsemicolon : semicolon.is .semicolon = true) :
    ∃ (first? : Option (Stmt Unit)) (E : List SyntaxError),
      parse (J ++ [semicolon] ++ C) =
        ⟨first?.toList ++ (parse C).statements, E ++ (parse C).errors⟩ ∧
      (∀ e ∈ E, ∃ t ∈ J ++ [semicolon], e.site = t.site) ∧ (first? = none → E ≠ []) := by
  let F : Enclosure := ⟨J, semicolon, body C, hJ, hsemicolon⟩
  have hleft : F.Left (J ++ [semicolon] ++ body C) := ⟨J, List.suffix_refl J, List.append_assoc ..⟩
  have hopen : Stops openers (J ++ [semicolon] ++ body C) := hleft.stops
  have hends := declaration_ne_starved (J ++ [semicolon] ++ body C)
  rw [fuelFor, Nat.mul_succ, declaration_eq_expressionStatement hopen] at hends
  obtain ⟨first?, reported, hrecover, hcites, hnone⟩ := F.recover_expressionStatement hleft hends
  rw [recover, ← declaration_eq_expressionStatement hopen] at hrecover
  have hend : ∀ t, F.Holds t → t.isEnd = false := fun t ht => ht.not_end
  refine ⟨first?, reported.map (·.locate (endLine C)),
    parse_of_recover hend (by simp) hrecover, ?_, ?_⟩
  · rintro _ he
    obtain ⟨m, hm, rfl⟩ := List.mem_map.1 he
    obtain ⟨t, ht, hat⟩ := hcites m hm
    exact ⟨t, ht, by rw [Mistake.locate, hat]⟩
  · simpa using hnone

/-- A wrong target is reported, and the assignment goes on up to a brace that closes nothing. -/
theorem wrong_target_contained :
    let a : Token := ⟨.symbol .identifier, "a", 1⟩
    let semicolon : Token := ⟨.symbol .semicolon, ";", 1⟩
    let J : List Token := [⟨.symbol .leftParen, "(", 1⟩, a, ⟨.symbol .rightParen, ")", 1⟩,
      ⟨.symbol .equal, "=", 1⟩, a, ⟨.symbol .rightBrace, "\x7d", 1⟩, a]
    let C : List Token := [a, semicolon, ⟨.symbol .elseKw, "else", 2⟩]
    (∀ t ∈ J, boundaries.any t.is = false) ∧ semicolon.is .semicolon = true ∧
      parse C = ⟨[.expr (.var () a)], [⟨⟨2, some "else"⟩, .expected .expression⟩]⟩ ∧
      ∃ (first? : Option (Stmt Unit)) (E : List SyntaxError),
        parse (J ++ [semicolon] ++ C) =
          ⟨first?.toList ++ (parse C).statements, E ++ (parse C).errors⟩ ∧
        (∀ e ∈ E, ∃ t ∈ J ++ [semicolon], e.site = t.site) ∧ (first? = none → E ≠ []) := by
  intro a semicolon J C
  have hJ : ∀ t ∈ J, boundaries.any t.is = false := by decide
  exact ⟨hJ, rfl, rfl, parse_contained C hJ rfl⟩

end LoxLang
