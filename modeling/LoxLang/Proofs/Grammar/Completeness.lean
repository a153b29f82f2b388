import LoxLang.Proofs.Grammar.Soundness

/-!
# What is derived is read without a mistake

Every derivation that gives each `else` to the nearest `if` is followed by the parser, with enough
fuel, provided that what follows the derived tokens does not continue them (`completeness`).

The parser decides on the next token alone.  `starts` says which tokens a derivation can begin with,
and `Stops symbols rest` that none of the symbols is next in `rest`.
-/

namespace LoxLang

open Parse

/-! ### Parsers with enough fuel -/

namespace Parse

variable {α β : Type} {tokens rest : List Token}

/-- With enough fuel `p` reads up to `rest` without a mistake, and yields `a`. -/
def Settles (p : Nat → Parser α) (tokens : List Token) (a : α) (rest : List Token) : Prop :=
  ∃ n, ∀ fuel, n ≤ fuel → p fuel tokens = .done a rest []

/-- None of the symbols is next. -/
def Stops (symbols : List Symbol) (tokens : List Token) : Prop :=
  ∀ t, tokens.head? = some t → symbols.any t.is = false

theorem is_unique {t : Token} {s s' : Symbol} (h : t.is s = true) (h' : t.is s' = true) : s = s' := by
  rw [Token.is, TokenKind.is_iff] at h h'
  simpa [h] using h'

theorem any_is_eq_false {symbols : List Symbol} {t : Token} {s : Symbol} (ht : t.is s = true)
    (hs : s ∉ symbols) : symbols.any t.is = false :=
  List.any_eq_false.2 fun _ hs' ht' => hs (is_unique ht ht' ▸ hs')

theorem stops_of_is {symbols : List Symbol} {t : Token} {s : Symbol} (ht : t.is s = true)
    (hs : s ∉ symbols) : Stops symbols (t :: rest) := by
  rintro _ ⟨⟩
  exact any_is_eq_false ht hs

theorem Stops.not_is {symbols : List Symbol} {s : Symbol} (h : Stops symbols tokens)
    (hs : s ∈ symbols) : Stops [s] tokens := fun t ht => by
  have := List.any_eq_false.1 (h t ht) s hs
  simpa using this

theorem Stops.of_subset {symbols symbols' : List Symbol} (h : Stops symbols tokens)
    (hs : symbols' ⊆ symbols) : Stops symbols' tokens := fun t ht =>
  List.any_eq_false.2 fun s hs' => List.any_eq_false.1 (h t ht) s (hs hs')

theorem acceptAny_of_stops {symbols : List Symbol} (h : Stops symbols tokens) :
    acceptAny symbols tokens = .done none tokens [] := by
  cases tokens with
  | nil => rfl
  | cons t ts => rw [acceptAny, take?, if_neg (by simp [h t rfl])]

namespace Settles

theorem of_eq {p : Parser α} {a : α} (h : p tokens = .done a rest []) :
    Settles (fun _ => p) tokens a rest := ⟨0, fun _ _ => h⟩

protected theorem pure (a : α) : Settles (fun _ => pure a) tokens a tokens := of_eq rfl

theorem succ {p : Nat → Parser α} {a : α} (h : Settles (fun fuel => p (fuel + 1)) tokens a rest) :
    Settles p tokens a rest := by
  obtain ⟨n, hn⟩ := h
  refine ⟨n + 1, fun fuel hfuel => ?_⟩
  obtain ⟨fuel, rfl⟩ := Nat.exists_eq_succ_of_ne_zero (by omega : fuel ≠ 0)
  exact hn fuel (by omega)

theorem bind {p : Nat → Parser α} {f : Nat → α → Parser β} {mid : List Token} {a : α} {b : β}
    (hp : Settles p tokens a mid) (hf : Settles (fun fuel => f fuel a) mid b rest) :
    Settles (fun fuel => p fuel >>= f fuel) tokens b rest := by
  obtain ⟨n, hn⟩ := hp
  obtain ⟨m, hm⟩ := hf
  exact ⟨max n m, fun fuel hfuel => bind_eq_done.2
    ⟨a, mid, hn fuel (by omega), hm fuel (by omega)⟩⟩

theorem map {p : Nat → Parser α} {f : α → β} {a : α} (hp : Settles p tokens a rest) :
    Settles (fun fuel => f <$> p fuel) tokens (f a) rest := by
  obtain ⟨n, hn⟩ := hp
  exact ⟨n, fun fuel hfuel => map_eq_done.2 ⟨a, hn fuel hfuel, rfl⟩⟩

theorem recover {p : Nat → Parser α} {a : α} (hp : Settles p tokens a rest) :
    Settles (fun fuel => Parse.recover (p fuel)) tokens (some a) rest := by
  obtain ⟨n, hn⟩ := hp
  exact ⟨n, fun fuel hfuel => by simp only [Parse.recover, hn fuel hfuel]⟩

variable {b : β}

/-! The next token is one of the symbols. -/

theorem acceptAny {symbols : List Symbol} {f : Nat → Option Token → Parser β} {t : Token}
    (ht : symbols.any t.is = true) (hf : Settles (fun fuel => f fuel (some t)) tokens b rest) :
    Settles (fun fuel => Parse.acceptAny symbols >>= f fuel) (t :: tokens) b rest :=
  .bind (.of_eq (by rw [Parse.acceptAny, take?, if_pos ht])) hf

theorem accept {s : Symbol} {f : Nat → Option Token → Parser β} {t : Token} (ht : t.is s = true)
    (hf : Settles (fun fuel => f fuel (some t)) tokens b rest) :
    Settles (fun fuel => Parse.accept s >>= f fuel) (t :: tokens) b rest :=
  acceptAny (by simpa using ht) hf

theorem accepts {s : Symbol} {f : Nat → Bool → Parser β} {t : Token} (ht : t.is s = true)
    (hf : Settles (fun fuel => f fuel true) tokens b rest) :
    Settles (fun fuel => Parse.accepts s >>= f fuel) (t :: tokens) b rest :=
  .bind (p := fun _ => Parse.accepts s) (accept ht (.pure _)) hf

theorem expect {s : Symbol} {what : Expectation} {f : Nat → Token → Parser β} {t : Token}
    (ht : t.is s = true) (hf : Settles (fun fuel => f fuel t) tokens b rest) :
    Settles (fun fuel => Parse.expect s what >>= f fuel) (t :: tokens) b rest :=
  .bind (p := fun _ => Parse.expect s what) (accept ht (.pure _)) hf

theorem skip {s : Symbol} {what : Expectation} {f : Nat → Unit → Parser β} {t : Token}
    (ht : t.is s = true) (hf : Settles (fun fuel => f fuel ()) tokens b rest) :
    Settles (fun fuel => Parse.skip s what >>= f fuel) (t :: tokens) b rest :=
  .bind (p := fun _ => Parse.skip s what) (expect ht (.pure _)) hf

/-! The next token is none of the symbols. -/

theorem acceptAny_none {symbols : List Symbol} {f : Nat → Option Token → Parser β}
    (ht : Stops symbols tokens) (hf : Settles (fun fuel => f fuel none) tokens b rest) :
    Settles (fun fuel => Parse.acceptAny symbols >>= f fuel) tokens b rest :=
  .bind (.of_eq (acceptAny_of_stops ht)) hf

theorem accept_none {s : Symbol} {f : Nat → Option Token → Parser β} (ht : Stops [s] tokens)
    (hf : Settles (fun fuel => f fuel none) tokens b rest) :
    Settles (fun fuel => Parse.accept s >>= f fuel) tokens b rest :=
  acceptAny_none ht hf

theorem accepts_none {s : Symbol} {f : Nat → Bool → Parser β} (ht : Stops [s] tokens)
    (hf : Settles (fun fuel => f fuel false) tokens b rest) :
    Settles (fun fuel => Parse.accepts s >>= f fuel) tokens b rest :=
  .bind (p := fun _ => Parse.accepts s) (accept_none ht (.pure _)) hf

/-! Looking at the next token. -/

theorem sees {s : Symbol} {f : Nat → Bool → Parser β} {t : Token} (ht : t.is s = true)
    (hf : Settles (fun fuel => f fuel true) (t :: tokens) b rest) :
    Settles (fun fuel => Parse.sees s >>= f fuel) (t :: tokens) b rest :=
  .bind (p := fun _ => Parse.sees s) (.of_eq (congrArg (Reply.done · _ []) ht)) hf

theorem sees_none {s : Symbol} {f : Nat → Bool → Parser β} (ht : Stops [s] tokens)
    (hf : Settles (fun fuel => f fuel false) tokens b rest) :
    Settles (fun fuel => Parse.sees s >>= f fuel) tokens b rest := by
  refine .bind (p := fun _ => Parse.sees s) (.of_eq (congrArg (Reply.done · tokens []) ?_)) hf
  cases tokens with
  | nil => rfl
  | cons t ts => simpa using ht t rfl

end Settles

end Parse

namespace Grammar

variable {nearest : Bool}

/-! ### How derivations begin -/

/-- The symbols that can begin a primary or a call. -/
def callStarts : List Symbol := [.falseKw, .trueKw, .nilKw, .thisKw, .identifier, .leftParen]

/-- The symbols that can begin an expression. -/
def expressionStarts : List Symbol := [.bang, .minus] ++ callStarts

/-- The keywords that begin a statement, and the brace that begins a block. -/
def statementKeywords : List Symbol := [.forKw, .ifKw, .printKw, .whileKw, .leftBrace, .returnKw]

/-- The symbols that can begin what is derived from a nonterminal. -/
def firsts : Nonterminal → List Symbol
  | .call | .primary => callStarts
  | .expression | .level _ | .arguments | .clause | .expressionStatement => expressionStarts
  | .parameters | .function | .functions => [.identifier]
  | .varDeclaration => [.varKw]
  | .initializer => [.semicolon, .varKw] ++ expressionStarts
  | .block => [.leftBrace]
  | .statement _ => statementKeywords ++ expressionStarts
  | .declaration | .declarations => [.classKw, .funKw, .varKw] ++ statementKeywords ++ expressionStarts

/-- Nothing may be derived from the nonterminal. -/
def nullable : Nonterminal → Bool
  | .clause | .functions | .declarations => true
  | _ => false

/-- The sequence begins as one that is derived from `n` does.  Numbers and strings are not told
apart from the other tokens that begin an expression. -/
def Begins (n : Nonterminal) : List Token → Prop
  | [] => nullable n = true
  | t :: _ => ∀ s, t.is s = true → s ∈ firsts n

theorem begins_of_is {n : Nonterminal} {t : Token} {s : Symbol} {w : List Token}
    (ht : t.is s = true) (hs : s ∈ firsts n) : Begins n (t :: w) := fun _ hs' =>
  is_unique ht hs' ▸ hs

/-- A rule whose first part begins as `n` does. -/
theorem Begins.append {n n' : Nonterminal} {u : List Token} (h : Begins n u)
    (hn : nullable n = false) (hsub : firsts n ⊆ firsts n') (w : List Token) :
    Begins n' (u ++ w) := by
  cases u with
  | nil => simp [Begins, hn] at h
  | cons t u => exact fun s hs => hsub (h s hs)

theorem Begins.of_subset {n n' : Nonterminal} {u : List Token} (h : Begins n u)
    (hn : nullable n = false) (hsub : firsts n ⊆ firsts n') : Begins n' u := by
  simpa using h.append hn hsub []

theorem starts {n : Nonterminal} {w : List Token} {t : n.Tree} (h : Derives nearest n w t) :
    Begins n w := by
  induction h with
  | noClause | noFunction | noDeclaration => rfl
  | assignName hname => exact begins_of_is hname (by decide)
  | assignField _ _ _ _ _ ih => exact ih.append rfl (by decide) _
  | operator _ _ _ ih => exact ih.append rfl (List.Subset.refl _) _
  | signed hop _ _ =>
    rcases hop with hop | hop
    · exact begins_of_is hop (by decide)
    · exact begins_of_is hop (by decide)
  | callEmpty _ _ _ ih => exact ih.append rfl (List.Subset.refl _) _
  | call _ _ _ _ _ ih => exact ih.append rfl (List.Subset.refl _) _
  | property _ _ _ ih => exact ih.append rfl (List.Subset.refl _) _
  | argument _ _ _ ih => exact ih.append rfl (by decide) _
  | number hk => intro s hs; simp [Token.is, hk] at hs
  | string hk => intro s hs; simp [Token.is, hk] at hs
  | expressionStatement _ _ ih => exact ih.append rfl (by decide) _
  | functions _ _ ih => exact ih.append rfl (by decide) _
  | declarations _ _ ih => exact ih.append rfl (by decide) _
  | loosest _ ih | operand _ ih | lastArgument _ ih => exact ih
  | unsigned _ ih | callee _ ih | plain _ ih | blockStatement _ ih | varInitializer _ ih
    | expressionInitializer _ ih | varDeclaration _ ih | clause _ ih =>
    exact ih.of_subset rfl (by decide)
  | statement _ ih => exact ih.of_subset rfl (by rw [firsts]; decide)
  | whileLoop hk => exact begins_of_is hk (by rw [firsts]; decide)
  | forLoop hk => exact begins_of_is hk (by rw [firsts]; decide)
  | ifElse hk => exact begins_of_is hk (by rw [firsts]; decide)
  | _ => exact begins_of_is ‹_› (by decide)

theorem Begins.stops {n : Nonterminal} {u : List Token} {symbols : List Symbol} (h : Begins n u)
    (hn : nullable n = false) (hs : ∀ s ∈ symbols, s ∉ firsts n) (rest : List Token) :
    Stops symbols (u ++ rest) := by
  cases u with
  | nil => simp [Begins, hn] at h
  | cons t u =>
    rintro _ ⟨⟩
    exact List.any_eq_false.2 fun s hmem his => hs s hmem (h s his)

/-- Where nothing may be derived, what follows may be next. -/
theorem Begins.stops_append {n : Nonterminal} {u rest : List Token} {symbols : List Symbol}
    (h : Begins n u) (hs : ∀ s ∈ symbols, s ∉ firsts n) (hrest : Stops symbols rest) :
    Stops symbols (u ++ rest) := by
  cases u with
  | nil => exact hrest
  | cons t u =>
    rintro _ ⟨⟩
    exact List.any_eq_false.2 fun s hmem his => hs s hmem (h s his)

/-! ### What follows an expression -/

/-- The symbols that would continue an expression of a level. -/
def followers (l? : Option Level) : List Symbol :=
  [.leftParen, .dot] ++ match l? with
    | none => []
    | some .factor => [.slash, .star]
    | some .term => [.slash, .star, .minus, .plus]
    | some .comparison => [.slash, .star, .minus, .plus, .greater, .greaterEqual, .less, .lessEqual]
    | some .equality =>
      [.slash, .star, .minus, .plus, .greater, .greaterEqual, .less, .lessEqual, .bangEqual,
        .equalEqual]
    | some .and =>
      [.slash, .star, .minus, .plus, .greater, .greaterEqual, .less, .lessEqual, .bangEqual,
        .equalEqual, .andKw]
    | some .or =>
      [.slash, .star, .minus, .plus, .greater, .greaterEqual, .less, .lessEqual, .bangEqual,
        .equalEqual, .andKw, .orKw]

theorem followers_operands_subset (l : Level) : followers l.operands ⊆ followers (some l) := by
  cases l <;> decide

theorem operators_subset_followers (l : Level) : l.operators ⊆ followers (some l) := by
  cases l <;> decide

theorem operator_notMem_followers {l : Level} {s : Symbol} (h : s ∈ l.operators) :
    s ∉ followers l.operands := by
  cases l <;> revert s <;> decide

/-! ### What the parser does with a derivation -/

/-- The next token is the symbol `s`. -/
def Meets (s : Symbol) (tokens : List Token) : Prop := ∃ t ts, tokens = t :: ts ∧ t.is s = true

theorem meets_cons {s : Symbol} {t : Token} {ts : List Token} (h : t.is s = true) :
    Meets s (t :: ts) := ⟨t, ts, rfl, h⟩

theorem Meets.stops {s : Symbol} {tokens : List Token} (h : Meets s tokens) {symbols : List Symbol}
    (hs : s ∉ symbols) : Stops symbols tokens := by
  obtain ⟨t, ts, rfl, ht⟩ := h
  exact stops_of_is ht hs

/-- The parser of `n` reads what has been derived from it, and yields its tree, whatever follows as
long as it does not continue what has been derived.

Levels and calls are read from the left, where a derivation has its last part first: they are read
as far as the loop of their parser, which goes on with the tree. -/
def Accepted : (n : Nonterminal) → List Token → n.Tree → Prop
  | .expression, w, e => ∀ rest, Stops (.equal :: followers (some .or)) rest →
    Settles Parse.expression (w ++ rest) e rest
  | .level none, w, e => ∀ rest, Stops (followers none) rest → Settles unary (w ++ rest) e rest
  | .level (some l), w, e => ∀ rest e' rest', Stops (followers l.operands) rest →
    Settles (operandRest · l e) rest e' rest' → Settles (operand · (some l)) (w ++ rest) e' rest'
  | .call, w, e => ∀ rest e' rest', Settles (callRest · e) rest e' rest' →
    Settles (fun fuel => primary fuel >>= callRest fuel) (w ++ rest) e' rest'
  | .primary, w, e => ∀ rest, Settles primary (w ++ rest) e rest
  | .arguments, w, args => ∀ count rest, count + args.length ≤ 255 → Meets .rightParen rest →
    Settles (arguments · count) (w ++ rest) args rest
  | .parameters, w, params => ∀ count rest, count + params.length ≤ 255 → Meets .rightParen rest →
    Settles (parameters · count) (w ++ rest) params rest
  | .clause, w, e? => ∀ s rest, s = .semicolon ∨ s = .rightParen → Meets s rest →
    Settles (expressionBefore · s) (w ++ rest) e? rest
  | .varDeclaration, w, s => ∃ keyword u, w = keyword :: u ∧ keyword.is .varKw = true ∧
    ∀ rest, Settles Parse.varDeclaration (u ++ rest) s rest
  | .expressionStatement, w, s => ∀ rest, Settles Parse.expressionStatement (w ++ rest) s rest
  | .initializer, w, s? => ∀ rest, Settles forInitializer (w ++ rest) s? rest
  | .statement o, w, s => ∀ rest, (o = true → Stops [.elseKw] rest) →
    Settles Parse.statement (w ++ rest) s rest
  | .block, w, body => ∃ lb u, w = lb :: u ∧ lb.is .leftBrace = true ∧
    ∀ rest, Settles Parse.block (u ++ rest) body rest
  | .function, w, decl => ∀ kind rest, Settles (Parse.function · kind) (w ++ rest) decl rest
  | .functions, w, decls => ∀ rest, Meets .rightBrace rest →
    Settles methods (w ++ rest) decls rest
  | .declaration, w, s => ∀ rest, Stops [.elseKw] rest →
    Settles Parse.declaration (w ++ rest) s rest
  | .declarations, w, body => ∀ inBlock rest,
    (bif inBlock then Meets .rightBrace rest else rest = []) →
    Settles (Parse.declarations · inBlock) (w ++ rest) body rest

/-! ### Expressions -/

theorem accepted_operand {l? : Option Level} {w : List Token} {e : Expr Unit}
    (h : Accepted (.level l?) w e) {rest : List Token} (hrest : Stops (followers l?) rest) :
    Settles (operand · l?) (w ++ rest) e rest := by
  cases l? with
  | none => exact .succ (h rest hrest)
  | some l =>
    refine h rest e rest (hrest.of_subset (followers_operands_subset l)) (.succ ?_)
    exact .acceptAny_none (hrest.of_subset (operators_subset_followers l)) (.pure e)

theorem accepted_unsigned {w : List Token} {e : Expr Unit} (hw : Begins .call w)
    (h : Accepted .call w e) : Accepted (.level none) w e := by
  intro rest hrest
  refine .succ (.acceptAny_none (hw.stops rfl (by decide) rest) ?_)
  refine h rest e rest (.succ ?_)
  refine .accepts_none (hrest.not_is (by decide)) ?_
  exact .accepts_none (hrest.not_is (by decide)) (.pure e)

theorem accepted_signed {op : Token} {w : List Token} {e : Expr Unit}
    (hop : op.is .bang = true ∨ op.is .minus = true) (h : Accepted (.level none) w e) :
    Accepted (.level none) (op :: w) (.unary op e) := by
  intro rest hrest
  exact .succ (.acceptAny (by simpa using hop) (.bind (h rest hrest) (.pure _)))

theorem accepted_level {l : Level} {w : List Token} {e : Expr Unit}
    (h : Accepted (.level (levelRule l).1) w e) : Accepted (.level (some l)) w e := by
  intro rest e' rest' hrest hloop
  rw [← operands_eq] at h
  exact .succ (.bind (accepted_operand h hrest) hloop)

theorem accepted_operator {l : Level} {op : Token} {u w : List Token} {left right : Expr Unit}
    (hleft : Accepted (.level (some l)) u left) (hop : (levelRule l).2.any op.is = true)
    (hright : Accepted (.level (levelRule l).1) w right) :
    Accepted (.level (some l)) (u ++ op :: w) (levelTree l left op right) := by
  intro rest e' rest' hrest hloop
  rw [← operands_eq] at hright
  rw [← operators_eq] at hop
  rw [← node_eq] at hloop
  rw [List.append_assoc]
  have hstops : Stops (followers l.operands) (op :: w ++ rest) := by
    obtain ⟨s, hs, his⟩ := List.any_eq_true.1 hop
    exact stops_of_is his (operator_notMem_followers hs)
  refine hleft _ _ _ hstops (.succ (.acceptAny hop ?_))
  exact .bind (accepted_operand hright hrest) hloop

/-- A call is read on every level. -/
theorem accepted_of_call {w : List Token} {e : Expr Unit} (hw : Begins .call w)
    (h : Accepted .call w e) (l? : Option Level) : Accepted (.level l?) w e := by
  have hnone := accepted_unsigned hw h
  have hfactor : Accepted (.level (some .factor)) w e := accepted_level hnone
  have hterm : Accepted (.level (some .term)) w e := accepted_level hfactor
  have hcomparison : Accepted (.level (some .comparison)) w e := accepted_level hterm
  have hequality : Accepted (.level (some .equality)) w e := accepted_level hcomparison
  have hand : Accepted (.level (some .and)) w e := accepted_level hequality
  have hor : Accepted (.level (some .or)) w e := accepted_level hand
  match l? with
  | none => exact hnone
  | some .factor => exact hfactor
  | some .term => exact hterm
  | some .comparison => exact hcomparison
  | some .equality => exact hequality
  | some .and => exact hand
  | some .or => exact hor

theorem accepted_callee {w : List Token} {e : Expr Unit} (h : Accepted .primary w e) :
    Accepted .call w e := fun rest _ _ hloop => .bind (h rest) hloop

theorem accepted_callEmpty {lp rp : Token} {w : List Token} {f : Expr Unit}
    (h : Accepted .call w f) (hlp : lp.is .leftParen = true) (hrp : rp.is .rightParen = true) :
    Accepted .call (w ++ [lp, rp]) (.call f rp []) := by
  intro rest e' rest' hloop
  rw [List.append_assoc]
  refine h _ _ _ (.succ (.accepts hlp (.sees hrp ?_)))
  exact .bind (.pure []) (.expect hrp hloop)

theorem accepted_call {lp rp : Token} {u w : List Token} {f : Expr Unit} {args : List (Expr Unit)}
    (h : Accepted .call u f) (hlp : lp.is .leftParen = true) (hw : Begins .arguments w)
    (hargs : Accepted .arguments w args) (hlen : args.length ≤ 255)
    (hrp : rp.is .rightParen = true) :
    Accepted .call (u ++ lp :: (w ++ [rp])) (.call f rp args) := by
  intro rest e' rest' hloop
  simp only [List.append_assoc, List.cons_append, List.nil_append]
  refine h _ _ _ (.succ (.accepts hlp (.sees_none (hw.stops rfl (by decide) _) ?_)))
  exact .bind (hargs 0 _ (by omega) (meets_cons hrp)) (.expect hrp hloop)

theorem accepted_property {dot name : Token} {w : List Token} {object : Expr Unit}
    (h : Accepted .call w object) (hdot : dot.is .dot = true) (hname : name.is .identifier = true) :
    Accepted .call (w ++ [dot, name]) (.get object name) := by
  intro rest e' rest' hloop
  rw [List.append_assoc]
  refine h _ _ _ (.succ (.accepts_none (stops_of_is hdot (by decide)) ?_))
  exact .accepts hdot (.expect hname hloop)

theorem accepted_lastArgument {w : List Token} {e : Expr Unit} (h : Accepted .expression w e) :
    Accepted .arguments w [e] := by
  intro count rest hcount hrest
  have hfew : ¬ maxArity ≤ count := by
    rw [maxArity]
    simp only [List.length_singleton] at hcount
    omega
  refine .succ ?_
  simp only [Parse.arguments, if_neg hfew]
  refine .bind (h rest (hrest.stops (by decide))) ?_
  exact .accepts_none (hrest.stops (by decide)) (.pure [e])

theorem accepted_argument {comma : Token} {u w : List Token} {e : Expr Unit}
    {es : List (Expr Unit)} (he : Accepted .expression u e) (hcomma : comma.is .comma = true)
    (hes : Accepted .arguments w es) : Accepted .arguments (u ++ comma :: w) (e :: es) := by
  intro count rest hcount hrest
  rw [List.length_cons] at hcount
  have hfew : ¬ maxArity ≤ count := by rw [maxArity]; omega
  rw [List.append_assoc]
  refine .succ ?_
  simp only [Parse.arguments, if_neg hfew]
  refine .bind (he _ (stops_of_is hcomma (by decide))) (.accepts hcomma ?_)
  exact .bind (hes (count + 1) rest (by omega) hrest) (.pure _)

theorem accepted_atom {t : Token} {e : Expr Unit} (h : atom? t = some e) :
    Accepted .primary [t] e := by
  intro rest
  refine .succ (.bind (.of_eq (a := some e) ?_) (.pure e))
  simp only [List.cons_append, List.nil_append, take?, h]

theorem accepted_group {lp rp : Token} {w : List Token} {e : Expr Unit}
    (hlp : lp.is .leftParen = true) (he : Accepted .expression w e)
    (hrp : rp.is .rightParen = true) : Accepted .primary (lp :: (w ++ [rp])) (.group e) := by
  intro rest
  have hatom : atom? lp = none := by simp only [atom?, TokenKind.is_iff.1 hlp]
  have htake : take? atom? (lp :: (w ++ rp :: rest)) = .done none (lp :: (w ++ rp :: rest)) [] := by
    simp only [take?, hatom]
  simp only [List.append_assoc, List.cons_append, List.nil_append]
  refine .succ (.bind (.of_eq htake) (.accepts hlp ?_))
  exact .bind (he _ (stops_of_is hrp (by decide))) (.skip hrp (.pure _))

theorem accepted_loosest {w : List Token} {e : Expr Unit} (h : Accepted (.level (some .or)) w e) :
    Accepted .expression w e := by
  intro rest hrest
  refine .succ (.bind (accepted_operand h (hrest.of_subset (List.subset_cons_self _ _))) ?_)
  exact .accept_none (hrest.not_is (by decide)) (.pure e)

/-- An assignment, of which the target is read as an expression first. -/
theorem accepted_assign {equals : Token} {u w : List Token} {target v e : Expr Unit}
    (hu : Begins .call u) (htarget : Accepted .call u target) (heq : equals.is .equal = true)
    (hv : Accepted .expression w v) (he : assignTo target equals v = pure e) :
    Accepted .expression (u ++ equals :: w) e := by
  intro rest hrest
  rw [List.append_assoc]
  refine .succ (.bind (accepted_operand (accepted_of_call hu htarget (some .or))
    (stops_of_is heq (by decide))) (.accept heq ?_))
  refine .bind (hv rest hrest) ?_
  simp only [he]
  exact .pure e

/-! ### Statements -/

theorem accepted_clause {w : List Token} {e : Expr Unit} (hw : Begins .expression w)
    (he : Accepted .expression w e) : Accepted .clause w (some e) := by
  intro s rest hs hrest
  have hstops : Stops [s] (w ++ rest) := by
    rcases hs with rfl | rfl
    · exact hw.stops rfl (by decide) rest
    · exact hw.stops rfl (by decide) rest
  refine .sees_none hstops (.map (he rest ?_))
  rcases hs with rfl | rfl
  · exact hrest.stops (by decide)
  · exact hrest.stops (by decide)

theorem accepted_noClause : Accepted .clause [] none := by
  rintro s rest - ⟨t, ts, rfl, ht⟩
  exact .sees ht (.pure none)

theorem accepted_expressionStatement {semi : Token} {w : List Token} {e : Expr Unit}
    (he : Accepted .expression w e) (hsemi : semi.is .semicolon = true) :
    Accepted .expressionStatement (w ++ [semi]) (.expr e) := by
  intro rest
  rw [List.append_assoc]
  exact .bind (he _ (stops_of_is hsemi (by decide))) (.skip hsemi (.pure _))

theorem accepted_expressionInitializer {w : List Token} {s : Stmt Unit}
    (hw : Begins .expressionStatement w) (h : Accepted .expressionStatement w s) :
    Accepted .initializer w (some s) := by
  intro rest
  refine .accepts_none (hw.stops rfl (by decide) rest) ?_
  exact .accepts_none (hw.stops rfl (by decide) rest) (.map (h rest))

theorem accepted_varInitializer {w : List Token} {s : Stmt Unit}
    (h : Accepted .varDeclaration w s) : Accepted .initializer w (some s) := by
  intro rest
  obtain ⟨keyword, u, rfl, hk, hu⟩ := h
  exact .accepts_none (stops_of_is hk (by decide)) (.accepts hk (.map (hu rest)))

theorem accepted_plain {w : List Token} {s : Stmt Unit} (hw : Begins .expressionStatement w)
    (h : Accepted .expressionStatement w s) : Accepted (.statement false) w s := by
  intro rest _
  have hnone : Stops statementKeywords (w ++ rest) := hw.stops rfl (by decide) rest
  have hstops : ∀ s ∈ statementKeywords, Stops [s] (w ++ rest) := fun s hs => hnone.not_is hs
  refine .succ (.accepts_none (hstops _ (by decide)) ?_)
  refine .accepts_none (hstops _ (by decide)) (.accepts_none (hstops _ (by decide)) ?_)
  refine .accepts_none (hstops _ (by decide)) (.accepts_none (hstops _ (by decide)) ?_)
  exact .accept_none (hstops _ (by decide)) (h rest)

theorem accepted_print {keyword semi : Token} {w : List Token} {e : Expr Unit}
    (hk : keyword.is .printKw = true) (he : Accepted .expression w e)
    (hsemi : semi.is .semicolon = true) :
    Accepted (.statement false) (keyword :: (w ++ [semi])) (.print e) := by
  intro rest _
  simp only [List.append_assoc, List.cons_append, List.nil_append]
  refine .succ (.accepts_none (stops_of_is hk (by decide)) ?_)
  refine .accepts_none (stops_of_is hk (by decide)) (.accepts hk ?_)
  exact .bind (he _ (stops_of_is hsemi (by decide))) (.skip hsemi (.pure _))

theorem accepted_ret {keyword semi : Token} {w : List Token} {e? : Option (Expr Unit)}
    (hk : keyword.is .returnKw = true) (he : Accepted .clause w e?)
    (hsemi : semi.is .semicolon = true) :
    Accepted (.statement false) (keyword :: (w ++ [semi])) (.ret keyword e?) := by
  intro rest _
  simp only [List.append_assoc, List.cons_append, List.nil_append]
  refine .succ (.accepts_none (stops_of_is hk (by decide)) ?_)
  refine .accepts_none (stops_of_is hk (by decide)) ?_
  refine .accepts_none (stops_of_is hk (by decide)) ?_
  refine .accepts_none (stops_of_is hk (by decide)) ?_
  refine .accepts_none (stops_of_is hk (by decide)) (.accept hk ?_)
  exact .bind (he _ _ (.inl rfl) (meets_cons hsemi)) (.skip hsemi (.pure _))

theorem accepted_blockStatement {w : List Token} {body : List (Stmt Unit)}
    (h : Accepted .block w body) : Accepted (.statement false) w (.block body) := by
  intro rest _
  obtain ⟨lb, u, rfl, hlb, hu⟩ := h
  refine .succ (.accepts_none (stops_of_is hlb (by decide)) ?_)
  refine .accepts_none (stops_of_is hlb (by decide)) ?_
  refine .accepts_none (stops_of_is hlb (by decide)) ?_
  refine .accepts_none (stops_of_is hlb (by decide)) (.accepts hlb ?_)
  exact .bind (hu rest) (.pure _)

theorem accepted_while {o : Bool} {keyword lp rp : Token} {u w : List Token} {condition : Expr Unit}
    {body : Stmt Unit} (hk : keyword.is .whileKw = true) (hlp : lp.is .leftParen = true)
    (hu : Accepted .expression u condition) (hrp : rp.is .rightParen = true)
    (hw : Accepted (.statement o) w body) :
    Accepted (.statement o) (keyword :: lp :: (u ++ rp :: w)) (.whileLoop condition body) := by
  intro rest hrest
  simp only [List.append_assoc, List.cons_append]
  refine .succ (.accepts_none (stops_of_is hk (by decide)) ?_)
  refine .accepts_none (stops_of_is hk (by decide)) ?_
  refine .accepts_none (stops_of_is hk (by decide)) (.accepts hk (.skip hlp ?_))
  refine .bind (hu _ (stops_of_is hrp (by decide))) (.skip hrp ?_)
  exact .bind (hw rest hrest) (.pure _)

theorem accepted_for {o : Bool} {keyword lp semi rp : Token} {u v x w : List Token}
    {initializer? : Option (Stmt Unit)} {condition? increment? : Option (Expr Unit)}
    {body : Stmt Unit} (hk : keyword.is .forKw = true) (hlp : lp.is .leftParen = true)
    (hu : Accepted .initializer u initializer?) (hv : Accepted .clause v condition?)
    (hsemi : semi.is .semicolon = true) (hx : Accepted .clause x increment?)
    (hrp : rp.is .rightParen = true) (hw : Accepted (.statement o) w body) :
    Accepted (.statement o) (keyword :: lp :: (u ++ (v ++ semi :: (x ++ rp :: w))))
      (loopTree condition? body initializer? increment?) := by
  intro rest hrest
  simp only [List.append_assoc, List.cons_append]
  refine .succ (.accepts hk (.skip hlp (.bind (hu _) ?_)))
  refine .bind (hv .semicolon _ (.inl rfl) (meets_cons hsemi)) (.skip hsemi ?_)
  refine .bind (hx .rightParen _ (.inr rfl) (meets_cons hrp)) (.skip hrp ?_)
  rw [loopTree_eq]
  exact .bind (hw rest hrest) (.pure _)

theorem accepted_ifThen {o : Bool} {keyword lp rp : Token} {u w : List Token}
    {condition : Expr Unit} {s : Stmt Unit} (hk : keyword.is .ifKw = true)
    (hlp : lp.is .leftParen = true) (hu : Accepted .expression u condition)
    (hrp : rp.is .rightParen = true) (hw : Accepted (.statement o) w s) :
    Accepted (.statement true) (keyword :: lp :: (u ++ rp :: w)) (.ifThen condition s) := by
  intro rest hrest
  simp only [List.append_assoc, List.cons_append]
  refine .succ (.accepts_none (stops_of_is hk (by decide)) (.accepts hk (.skip hlp ?_)))
  refine .bind (hu _ (stops_of_is hrp (by decide))) (.skip hrp ?_)
  refine .bind (hw rest fun _ => hrest rfl) ?_
  exact .accepts_none (hrest rfl) (.pure _)

/-- An `else` is left to the parser of the nearest `if` by the statements inside it. -/
theorem accepted_ifElse {o' : Bool} {keyword lp rp other : Token} {u w w' : List Token}
    {condition : Expr Unit} {s s' : Stmt Unit} (hk : keyword.is .ifKw = true)
    (hlp : lp.is .leftParen = true) (hu : Accepted .expression u condition)
    (hrp : rp.is .rightParen = true) (hw : Accepted (.statement false) w s)
    (hother : other.is .elseKw = true) (hw' : Accepted (.statement o') w' s') :
    Accepted (.statement o') (keyword :: lp :: (u ++ rp :: (w ++ other :: w')))
      (.ifElse condition s s') := by
  intro rest hrest
  simp only [List.append_assoc, List.cons_append]
  refine .succ (.accepts_none (stops_of_is hk (by decide)) (.accepts hk (.skip hlp ?_)))
  refine .bind (hu _ (stops_of_is hrp (by decide))) (.skip hrp ?_)
  refine .bind (hw _ nofun) (.accepts hother ?_)
  exact .bind (hw' rest hrest) (.pure _)

/-! ### Declarations -/

theorem accepted_lastParameter {t : Token} (ht : t.is .identifier = true) :
    Accepted .parameters [t] [t] := by
  intro count rest hcount hrest
  have hfew : ¬ maxArity ≤ count := by
    rw [maxArity]
    simp only [List.length_singleton] at hcount
    omega
  refine .succ ?_
  simp only [Parse.parameters, if_neg hfew]
  exact .expect ht (.accept_none (hrest.stops (by decide)) (.pure [t]))

theorem accepted_parameter {t comma : Token} {w ts : List Token} (ht : t.is .identifier = true)
    (hcomma : comma.is .comma = true) (hts : Accepted .parameters w ts) :
    Accepted .parameters (t :: comma :: w) (t :: ts) := by
  intro count rest hcount hrest
  rw [List.length_cons] at hcount
  have hfew : ¬ maxArity ≤ count := by rw [maxArity]; omega
  refine .succ ?_
  simp only [Parse.parameters, if_neg hfew]
  refine .expect ht (.accept hcomma ?_)
  exact .bind (hts (count + 1) rest (by omega) hrest) (.pure _)

theorem accepted_varEmpty {keyword name semi : Token} (hk : keyword.is .varKw = true)
    (hname : name.is .identifier = true) (hsemi : semi.is .semicolon = true) :
    Accepted .varDeclaration [keyword, name, semi] (.var name none) := by
  refine ⟨keyword, _, rfl, hk, fun rest => .expect hname ?_⟩
  refine .accepts_none (stops_of_is hsemi (by decide)) ?_
  exact .bind (.pure none) (.skip hsemi (.pure _))

theorem accepted_var {keyword name equals semi : Token} {w : List Token} {e : Expr Unit}
    (hk : keyword.is .varKw = true) (hname : name.is .identifier = true)
    (heq : equals.is .equal = true) (he : Accepted .expression w e)
    (hsemi : semi.is .semicolon = true) :
    Accepted .varDeclaration (keyword :: name :: equals :: (w ++ [semi])) (.var name (some e)) := by
  refine ⟨keyword, _, rfl, hk, fun rest => ?_⟩
  simp only [List.append_assoc, List.cons_append, List.nil_append]
  refine .expect hname (.accepts heq ?_)
  refine .bind (.map (he _ (stops_of_is hsemi (by decide)))) ?_
  exact .skip hsemi (.pure _)

theorem accepted_block {lb rb : Token} {w : List Token} {body : List (Stmt Unit)}
    (hlb : lb.is .leftBrace = true) (hw : Accepted .declarations w body)
    (hrb : rb.is .rightBrace = true) : Accepted .block (lb :: (w ++ [rb])) body := by
  refine ⟨lb, _, rfl, hlb, fun rest => ?_⟩
  rw [List.append_assoc]
  exact .succ (.bind (hw true _ (meets_cons hrb)) (.skip hrb (.pure _)))

theorem accepted_functionEmpty {name lp rp : Token} {w : List Token} {body : List (Stmt Unit)}
    (hname : name.is .identifier = true) (hlp : lp.is .leftParen = true)
    (hrp : rp.is .rightParen = true) (hw : Accepted .block w body) :
    Accepted .function (name :: lp :: rp :: w) ⟨(), name, [], body⟩ := by
  obtain ⟨lb, u, rfl, hlb, hu⟩ := hw
  intro kind rest
  refine .succ (.expect hname (.skip hlp (.sees hrp (.bind (.pure []) ?_))))
  exact .skip hrp (.skip hlb (.bind (hu rest) (.pure _)))

theorem accepted_function {name lp rp : Token} {u w params : List Token} {body : List (Stmt Unit)}
    (hname : name.is .identifier = true) (hlp : lp.is .leftParen = true) (hu : Begins .parameters u)
    (hparams : Accepted .parameters u params) (hlen : params.length ≤ 255)
    (hrp : rp.is .rightParen = true) (hw : Accepted .block w body) :
    Accepted .function (name :: lp :: (u ++ rp :: w)) ⟨(), name, params, body⟩ := by
  obtain ⟨lb, v, rfl, hlb, hv⟩ := hw
  intro kind rest
  simp only [List.append_assoc, List.cons_append]
  refine .succ (.expect hname (.skip hlp (.sees_none (hu.stops rfl (by decide) _) ?_)))
  refine .bind (hparams 0 _ (by omega) (meets_cons hrp)) ?_
  exact .skip hrp (.skip hlb (.bind (hv rest) (.pure _)))

theorem accepted_noFunction : Accepted .functions [] [] := by
  intro rest hrest
  obtain ⟨rb, ts, rfl, hrb⟩ := hrest
  refine .succ (.bind (.of_eq (a := true) ?_) (.pure []))
  exact congrArg (Reply.done · _ []) hrb

theorem accepted_functions {u w : List Token} {f : Function Unit} {fs : List (Function Unit)}
    (hu : Begins .function u) (hf : Accepted .function u f) (hfs : Accepted .functions w fs) :
    Accepted .functions (u ++ w) (f :: fs) := by
  intro rest hrest
  have hnext : Stops [.rightBrace] (u ++ (w ++ rest)) := hu.stops rfl (by decide) _
  rw [List.append_assoc]
  refine .succ (.bind (.of_eq (a := false) ?_) (.bind (hf _ _) (.bind (hfs rest hrest) (.pure _))))
  cases u with
  | nil => simp [Begins, nullable] at hu
  | cons t u => exact congrArg (Reply.done · _ []) (by simpa using hnext t rfl)

theorem accepted_classDeclaration {keyword name lb rb : Token} {w : List Token}
    {fs : List (Function Unit)} (hk : keyword.is .classKw = true)
    (hname : name.is .identifier = true) (hlb : lb.is .leftBrace = true)
    (hw : Accepted .functions w fs) (hrb : rb.is .rightBrace = true) :
    Accepted .declaration (keyword :: name :: lb :: (w ++ [rb])) (.classDecl name fs) := by
  intro rest _
  simp only [List.append_assoc, List.cons_append, List.nil_append]
  refine .succ (.accepts hk (.expect hname (.skip hlb ?_)))
  exact .bind (hw _ (meets_cons hrb)) (.skip hrb (.pure _))

theorem accepted_functionDeclaration {keyword : Token} {w : List Token} {decl : Function Unit}
    (hk : keyword.is .funKw = true) (hw : Accepted .function w decl) :
    Accepted .declaration (keyword :: w) (.function decl) := by
  intro rest _
  refine .succ (.accepts_none (stops_of_is hk (by decide)) (.accepts hk ?_))
  exact .bind (hw _ rest) (.pure _)

theorem accepted_varDeclaration {w : List Token} {s : Stmt Unit}
    (hw : Accepted .varDeclaration w s) : Accepted .declaration w s := by
  intro rest _
  obtain ⟨keyword, u, rfl, hk, hu⟩ := hw
  refine .succ (.accepts_none (stops_of_is hk (by decide)) ?_)
  exact .accepts_none (stops_of_is hk (by decide)) (.accepts hk (hu rest))

theorem accepted_statement {o : Bool} {w : List Token} {s : Stmt Unit}
    (hw : Begins (.statement o) w) (h : Accepted (.statement o) w s) :
    Accepted .declaration w s := by
  intro rest hrest
  have hnone : Stops [.classKw, .funKw, .varKw] (w ++ rest) :=
    hw.stops rfl (by rw [firsts]; decide) rest
  refine .succ (.accepts_none (hnone.not_is (by decide)) ?_)
  refine .accepts_none (hnone.not_is (by decide)) ?_
  exact .accepts_none (hnone.not_is (by decide)) (h rest fun _ => hrest)

/-- The parser of declarations stops exactly at the end, or at the closing brace of a block. -/
theorem settles_close (close : Bool) {inBlock : Bool} {tokens rest : List Token}
    {p q : Nat → Parser (List (Stmt Unit))} {body : List (Stmt Unit)}
    (hclose : tokens.head?.all (fun t => inBlock && t.is .rightBrace) = close)
    (h : Settles (bif close then p else q) tokens body rest) :
    Settles (fun fuel => (if inBlock then atClose else atEnd) >>= fun close =>
      if close then p fuel else q fuel) tokens body rest := by
  have hdone : (if inBlock then atClose else atEnd) tokens = .done close tokens [] := by
    cases inBlock with
    | true => exact congrArg (Reply.done · _ []) (by simpa using hclose)
    | false =>
      refine congrArg (Reply.done · _ []) ?_
      cases tokens with
      | nil => simpa using hclose
      | cons t ts => simpa using hclose
  refine .bind (.of_eq hdone) ?_
  cases close with
  | true => exact h
  | false => exact h

theorem accepted_noDeclaration : Accepted .declarations [] [] := by
  intro inBlock rest hrest
  refine .succ (settles_close true ?_ (.pure []))
  cases inBlock with
  | true => obtain ⟨rb, ts, rfl, hrb⟩ := hrest; simpa using hrb
  | false => obtain rfl := hrest; rfl

theorem accepted_declarations {u w : List Token} {s : Stmt Unit} {ss : List (Stmt Unit)}
    (hu : Begins .declaration u) (hs : Accepted .declaration u s)
    (hw : Begins .declarations w) (hss : Accepted .declarations w ss) :
    Accepted .declarations (u ++ w) (s :: ss) := by
  intro inBlock rest hrest
  have hnext : Stops [.rightBrace] (u ++ (w ++ rest)) := hu.stops rfl (by decide) _
  have helse : Stops [.elseKw] rest := by
    cases inBlock with
    | true => exact Meets.stops hrest (by decide)
    | false => obtain rfl := hrest; nofun
  rw [List.append_assoc]
  refine .succ (settles_close false ?_ ?_)
  · cases u with
    | nil => simp [Begins, nullable] at hu
    | cons t u => simpa using fun _ => by simpa using hnext t rfl
  · have hfirst := hs _ (hw.stops_append (by decide) helse)
    exact .bind hfirst.recover (.bind (hss inBlock rest hrest) (.pure _))

/-- With enough fuel the parser of a nonterminal reads what has been derived from it. -/
theorem completeness {n : Nonterminal} {w : List Token} {t : n.Tree} (h : Derives true n w t) :
    Accepted n w t := by
  induction h with
  | @assignName name equals w v hname heq _ ih =>
    have htarget : Accepted .call [name] (.var () name) :=
      accepted_callee (accepted_atom (by simp only [atom?, TokenKind.is_iff.1 hname]))
    exact accepted_assign (begins_of_is hname (by decide)) htarget heq ih rfl
  | @assignField _ _ _ u w _ _ hobject hdot hname heq _ ih ih' =>
    have := accepted_assign (starts (hobject.property hdot hname)) (accepted_property ih hdot hname)
      heq ih' rfl
    simpa using this
  | loosest _ ih => exact accepted_loosest ih
  | operand _ ih => exact accepted_level ih
  | operator _ hop _ ih ih' => exact accepted_operator ih hop ih'
  | signed hop _ ih => exact accepted_signed hop ih
  | unsigned hw ih => exact accepted_unsigned (starts hw) ih
  | callee _ ih => exact accepted_callee ih
  | callEmpty _ hlp hrp ih => exact accepted_callEmpty ih hlp hrp
  | call _ hlp hargs hlen hrp ih ih' => exact accepted_call ih hlp (starts hargs) ih' hlen hrp
  | property _ hdot hname ih => exact accepted_property ih hdot hname
  | lastArgument _ ih => exact accepted_lastArgument ih
  | argument _ hcomma _ ih ih' => exact accepted_argument ih hcomma ih'
  | number hk => exact accepted_atom (by simp only [atom?, hk])
  | string hk => exact accepted_atom (by simp only [atom?, hk])
  | trueLiteral ht => exact accepted_atom (by simp only [atom?, TokenKind.is_iff.1 ht])
  | falseLiteral ht => exact accepted_atom (by simp only [atom?, TokenKind.is_iff.1 ht])
  | nilLiteral ht => exact accepted_atom (by simp only [atom?, TokenKind.is_iff.1 ht])
  | this ht => exact accepted_atom (by simp only [atom?, TokenKind.is_iff.1 ht])
  | name ht => exact accepted_atom (by simp only [atom?, TokenKind.is_iff.1 ht])
  | group hlp _ hrp ih => exact accepted_group hlp ih hrp
  | noClause => exact accepted_noClause
  | clause hw ih => exact accepted_clause (starts hw) ih
  | expressionStatement _ hsemi ih => exact accepted_expressionStatement ih hsemi
  | plain hw ih => exact accepted_plain (starts hw) ih
  | print hk _ hsemi ih => exact accepted_print hk ih hsemi
  | ret hk _ hsemi ih => exact accepted_ret hk ih hsemi
  | blockStatement _ ih => exact accepted_blockStatement ih
  | whileLoop hk hlp _ hrp _ ih ih' => exact accepted_while hk hlp ih hrp ih'
  | forLoop hk hlp _ _ hsemi _ hrp _ ihu ihv ihx ihw =>
    exact accepted_for hk hlp ihu ihv hsemi ihx hrp ihw
  | ifThen hk hlp _ hrp _ ih ih' => exact accepted_ifThen hk hlp ih hrp ih'
  -- the first branch cannot take the `else`, which the parser would give to it
  | ifElse hk hlp _ hrp _ hnearest hother _ ih ih' ih'' =>
    obtain rfl := hnearest rfl
    exact accepted_ifElse hk hlp ih hrp ih' hother ih''
  | noInitializer hsemi => exact fun rest => .accepts hsemi (.pure none)
  | varInitializer _ ih => exact accepted_varInitializer ih
  | expressionInitializer hw ih => exact accepted_expressionInitializer (starts hw) ih
  | block hlb _ hrb ih => exact accepted_block hlb ih hrb
  | lastParameter ht => exact accepted_lastParameter ht
  | parameter ht hcomma _ ih => exact accepted_parameter ht hcomma ih
  | functionEmpty hname hlp hrp _ ih => exact accepted_functionEmpty hname hlp hrp ih
  | function hname hlp hparams hlen hrp _ ih ih' =>
    exact accepted_function hname hlp (starts hparams) ih hlen hrp ih'
  | noFunction => exact accepted_noFunction
  | functions hf _ ih ih' => exact accepted_functions (starts hf) ih ih'
  | varEmpty hk hname hsemi => exact accepted_varEmpty hk hname hsemi
  | var hk hname heq _ hsemi ih => exact accepted_var hk hname heq ih hsemi
  | classDeclaration hk hname hlb _ hrb ih => exact accepted_classDeclaration hk hname hlb ih hrb
  | functionDeclaration hk _ ih => exact accepted_functionDeclaration hk ih
  | varDeclaration _ ih => exact accepted_varDeclaration ih
  | statement hw ih => exact accepted_statement (starts hw) ih
  | noDeclaration => exact accepted_noDeclaration
  | declarations hs hss ih ih' => exact accepted_declarations (starts hs) ih (starts hss) ih'

end Grammar

end LoxLang
