import LoxLang.Proofs.Grammar.Completeness
import LoxLang.Proofs.Parse.Fuel
import LoxLang.Proofs.Parse.Progress

/-!
# The parser accepts its grammar

`parse_iff_derives`: the parser finds no mistake exactly if the tokens before the end of the input are
derived by the grammar, and then its statements are the one tree that gives each `else` to the
nearest `if`.

The grammar also derives trees that give an `else` to another `if`, but no more token sequences:
`reassociate` turns each derivation into one that gives every `else` to the nearest `if`.
-/

namespace LoxLang

open Parse

namespace Grammar

variable {nearest nearest' : Bool}

/-! ### Giving an else to the nearest if -/

/-- An `else` after a statement that ends in an `if` without one goes to the innermost such `if`. -/
theorem Derives.attach_else {n : Nonterminal} {w w' : List Token} {s : n.Tree} {s' : Stmt Unit}
    {other : Token} {o' : Bool} (h : Derives nearest n w s) (hn : n = .statement true)
    (hother : other.is .elseKw) (h' : Derives nearest (.statement o') w' s') :
    ∃ o t, Derives nearest (.statement o) (w ++ other :: w') t := by
  induction h with
  | whileLoop hk hlp hu hrp hw _ ih =>
    cases hn
    obtain ⟨o, t, ht⟩ := ih rfl
    exact ⟨o, _, by simpa using .whileLoop hk hlp hu hrp ht⟩
  | forLoop hk hlp hu hv hsemi hx hrp hw _ _ _ ih =>
    cases hn
    obtain ⟨o, t, ht⟩ := ih rfl
    exact ⟨o, _, by simpa using .forLoop hk hlp hu hv hsemi hx hrp ht⟩
  | @ifThen o _ _ _ _ _ _ _ hk hlp hu hrp hw _ ih =>
    cases o with
    | true =>
      obtain ⟨o, t, ht⟩ := ih rfl
      exact ⟨true, _, by simpa using .ifThen hk hlp hu hrp ht⟩
    | false => exact ⟨o', _, by simpa using .ifElse hk hlp hu hrp hw (fun _ => rfl) hother h'⟩
  | ifElse hk hlp hu hrp hw hnearest hfirst hw' _ _ ih =>
    cases hn
    obtain ⟨o, t, ht⟩ := ih rfl
    exact ⟨o, _, by simpa using .ifElse hk hlp hu hrp hw hnearest hfirst ht⟩
  | _ => cases hn

/-- What is left of a derivation if every `else` may go to another `if`: the same tree as long as no
statement is part of it, and otherwise some tree. -/
def Reassociated (nearest : Bool) : (n : Nonterminal) → List Token → n.Tree → Prop
  | .statement _, w, _ => ∃ o t, Derives nearest (.statement o) w t
  | .block, w, _ => ∃ t, Derives nearest .block w t
  | .function, w, _ => ∃ t, Derives nearest .function w t
  | .functions, w, _ => ∃ t, Derives nearest .functions w t
  | .declaration, w, _ => ∃ t, Derives nearest .declaration w t
  | .declarations, w, _ => ∃ t, Derives nearest .declarations w t
  | n, w, t => Derives nearest n w t

/-- The choice among the `if`s that an `else` could belong to does not matter to what is derived. -/
theorem reassociate {n : Nonterminal} {w : List Token} {t : n.Tree} (h : Derives nearest n w t) :
    Reassociated nearest' n w t := by
  induction h with
  | assignName hname heq _ ih => exact .assignName hname heq ih
  | assignField _ hdot hname heq _ ih ih' => exact .assignField ih hdot hname heq ih'
  | loosest _ ih => exact .loosest ih
  | operand _ ih => exact .operand ih
  | operator _ hop _ ih ih' => exact .operator ih hop ih'
  | signed hop _ ih => exact .signed hop ih
  | unsigned _ ih => exact .unsigned ih
  | callee _ ih => exact .callee ih
  | callEmpty _ hlp hrp ih => exact .callEmpty ih hlp hrp
  | call _ hlp _ hlen hrp ih ih' => exact .call ih hlp ih' hlen hrp
  | property _ hdot hname ih => exact .property ih hdot hname
  | lastArgument _ ih => exact .lastArgument ih
  | argument _ hcomma _ ih ih' => exact .argument ih hcomma ih'
  | number hk => exact .number hk
  | string hk => exact .string hk
  | trueLiteral ht => exact .trueLiteral ht
  | falseLiteral ht => exact .falseLiteral ht
  | nilLiteral ht => exact .nilLiteral ht
  | this ht => exact .this ht
  | name ht => exact .name ht
  | group hlp _ hrp ih => exact .group hlp ih hrp
  | noClause => exact .noClause
  | clause _ ih => exact .clause ih
  | expressionStatement _ hsemi ih => exact .expressionStatement ih hsemi
  | plain _ ih => exact ⟨_, _, .plain ih⟩
  | print hk _ hsemi ih => exact ⟨_, _, .print hk ih hsemi⟩
  | ret hk _ hsemi ih => exact ⟨_, _, .ret hk ih hsemi⟩
  | blockStatement _ ih =>
    obtain ⟨body, hbody⟩ := ih
    exact ⟨_, _, .blockStatement hbody⟩
  | whileLoop hk hlp _ hrp _ ih ih' =>
    obtain ⟨o, s, hs⟩ := ih'
    exact ⟨o, _, .whileLoop hk hlp ih hrp hs⟩
  | forLoop hk hlp _ _ hsemi _ hrp _ ihu ihv ihx ihw =>
    obtain ⟨o, s, hs⟩ := ihw
    exact ⟨o, _, .forLoop hk hlp ihu ihv hsemi ihx hrp hs⟩
  -- a statement that ends with an `if` can take an `else` that follows it
  | ifThen hk hlp _ hrp _ ih ih' =>
    obtain ⟨o, s, hs⟩ := ih'
    exact ⟨true, _, .ifThen hk hlp ih hrp hs⟩
  | ifElse hk hlp _ hrp _ _ hother _ ih ih' ih'' =>
    obtain ⟨o, s, hs⟩ := ih'
    obtain ⟨o', s', hs'⟩ := ih''
    cases o with
    | true =>
      -- the branch takes the `else`
      obtain ⟨o, t, ht⟩ := hs.attach_else rfl hother hs'
      exact ⟨true, _, .ifThen hk hlp ih hrp ht⟩
    | false => exact ⟨o', _, .ifElse hk hlp ih hrp hs (fun _ => rfl) hother hs'⟩
  | noInitializer hsemi => exact .noInitializer hsemi
  | varInitializer _ ih => exact .varInitializer ih
  | expressionInitializer _ ih => exact .expressionInitializer ih
  | block hlb _ hrb ih =>
    obtain ⟨body, hbody⟩ := ih
    exact ⟨_, .block hlb hbody hrb⟩
  | lastParameter ht => exact .lastParameter ht
  | parameter ht hcomma _ ih => exact .parameter ht hcomma ih
  | functionEmpty hname hlp hrp _ ih =>
    obtain ⟨body, hbody⟩ := ih
    exact ⟨_, .functionEmpty hname hlp hrp hbody⟩
  | function hname hlp _ hlen hrp _ ih ih' =>
    obtain ⟨body, hbody⟩ := ih'
    exact ⟨_, .function hname hlp ih hlen hrp hbody⟩
  | noFunction => exact ⟨_, .noFunction⟩
  | functions _ _ ih ih' =>
    obtain ⟨f, hf⟩ := ih
    obtain ⟨fs, hfs⟩ := ih'
    exact ⟨_, .functions hf hfs⟩
  | varEmpty hk hname hsemi => exact .varEmpty hk hname hsemi
  | var hk hname heq _ hsemi ih => exact .var hk hname heq ih hsemi
  | classDeclaration hk hname hlb _ hrb ih =>
    obtain ⟨fs, hfs⟩ := ih
    exact ⟨_, .classDeclaration hk hname hlb hfs hrb⟩
  | functionDeclaration hk _ ih =>
    obtain ⟨decl, hdecl⟩ := ih
    exact ⟨_, .functionDeclaration hk hdecl⟩
  | varDeclaration _ ih => exact ⟨_, .varDeclaration ih⟩
  | statement _ ih =>
    obtain ⟨o, s, hs⟩ := ih
    exact ⟨_, .statement hs⟩
  | noDeclaration => exact ⟨_, .noDeclaration⟩
  | declarations _ _ ih ih' =>
    obtain ⟨s, hs⟩ := ih
    obtain ⟨ss, hss⟩ := ih'
    exact ⟨_, .declarations hs hss⟩

end Grammar

/-! ### Acceptance -/

/-- Whatever is read, the parser does not end with a mistake. -/
def NeverFails {α : Type} (p : Parser α) : Prop :=
  ∀ tokens e rest reported, p tokens ≠ .failed e rest reported

theorem NeverFails.bind {α β : Type} {p : Parser α} {f : α → Parser β} (hp : NeverFails p)
    (hf : ∀ a, NeverFails (f a)) : NeverFails (p >>= f) := by
  intro tokens e rest reported h
  rw [bind_apply] at h
  cases hr : p tokens with
  | done a mid earlier =>
    cases hf' : f a mid with
    | done b rest' later => simp [hr, hf', Reply.after] at h
    | failed e' rest' later => exact hf a mid e' rest' later hf'
    | starved => simp [hr, hf', Reply.after] at h
  | failed e' mid earlier => exact hp tokens e' mid earlier hr
  | starved => simp [hr] at h

theorem neverFails_pure {α : Type} (a : α) : NeverFails (pure a : Parser α) := by
  intro tokens e rest reported h
  cases h

theorem neverFails_starve {α : Type} : NeverFails (fun _ => .starved : Parser α) := by
  intro tokens e rest reported h
  cases h

theorem neverFails_recover {α : Type} (p : Parser α) : NeverFails (recover p) := by
  intro tokens e rest reported h
  unfold recover at h
  cases hr : p tokens with
  | done a mid earlier => rw [hr] at h; cases h
  | failed e' mid earlier => rw [hr] at h; cases h
  | starved => rw [hr] at h; cases h

/-- Declarations do not end with a mistake: what is found in them is recovered. -/
theorem neverFails_declarations (fuel : Nat) (inBlock : Bool) :
    NeverFails (declarations fuel inBlock) := by
  -- only the first parser of each round could fail, and it is recovered
  induction fuel with
  | zero => exact neverFails_starve
  | succ fuel ih =>
    have hclose : NeverFails (if inBlock then atClose else atEnd) := by
      cases inBlock <;> exact fun _ _ _ _ h => by cases h
    have hnext : NeverFails do
        return (← recover (declaration fuel)).toList ++ (← declarations fuel inBlock) :=
      (neverFails_recover _).bind fun first? => ih.bind fun more => neverFails_pure _
    rw [Parse.declarations]
    refine hclose.bind fun close => ?_
    split
    · exact neverFails_pure _
    · exact hnext

/-- The parser finds no mistake exactly if it reads up to the end without one. -/
theorem parse_eq_iff (tokens : List Token) (program : List (Stmt Unit)) :
    (parse tokens).errors = [] ∧ (parse tokens).statements = program ↔
      ∃ rest, declarations (fuelFor (tokens.takeWhile (!·.isEnd))) false
        (tokens.takeWhile (!·.isEnd)) = .done program rest [] := by
  simp only [parse]
  cases h : declarations (fuelFor (tokens.takeWhile (!·.isEnd))) false
      (tokens.takeWhile (!·.isEnd)) with
  | done statements rest reported =>
    simp only [List.map_eq_nil_iff, Reply.done.injEq]
    constructor
    · rintro ⟨rfl, rfl⟩; exact ⟨rest, rfl, rfl, rfl⟩
    · rintro ⟨_, rfl, -, rfl⟩; exact ⟨rfl, rfl⟩
  | failed e rest reported => exact absurd h (neverFails_declarations _ _ _ _ _ _)
  | starved => exact absurd h (declarations_ne_starved _ _)

/-- The trees that give each `else` to the nearest `if` are those that the parser yields. -/
theorem derives_iff_parse (tokens : List Token) (program : List (Stmt Unit)) :
    Grammar.Derives true .declarations (tokens.takeWhile (!·.isEnd)) program ↔
      (parse tokens).errors = [] ∧ (parse tokens).statements = program := by
  rw [parse_eq_iff]
  constructor
  · intro h
    obtain ⟨n, hn⟩ := Grammar.completeness h false [] rfl
    rw [List.append_nil] at hn
    -- enough fuel for the derivation and for the parser
    have hall := hn (max n (fuelFor (tokens.takeWhile (!·.isEnd)))) (by omega)
    refine ⟨[], ?_⟩
    rw [← hall]
    exact ((declarations_extend_of_le (by omega) false).eq_of_ne_starved
      (declarations_ne_starved _ _)).symm
  · rintro ⟨rest, h⟩
    obtain ⟨w, hw, hderives, hend⟩ := (Grammar.statements_sound _).declarations h
    rw [hw, hend rfl, List.append_nil]
    exact hderives

/-- The parser reports no mistake exactly for the token sequences that the grammar derives, and its
statements are then the tree that gives each `else` to the nearest `if`, which is the only one. -/
theorem parse_iff_derives (tokens : List Token) :
    ((parse tokens).errors = [] ↔
      ∃ program, Grammar.Derives false .declarations (tokens.takeWhile (!·.isEnd)) program) ∧
    ∀ program, Grammar.Derives true .declarations (tokens.takeWhile (!·.isEnd)) program ↔
      (parse tokens).errors = [] ∧ (parse tokens).statements = program := by
  refine ⟨⟨fun h => ?_, fun ⟨program, h⟩ => ?_⟩, derives_iff_parse tokens⟩
  · exact Grammar.reassociate ((derives_iff_parse tokens _).2 ⟨h, rfl⟩)
  · obtain ⟨program', h'⟩ : ∃ program', Grammar.Derives true .declarations _ program' :=
      Grammar.reassociate h
    exact ((derives_iff_parse tokens program').1 h').1

end LoxLang
