import LoxLang.Proofs.Session.Answers
import LoxLang.Proofs.Session.Gated

/-!
# Where errors are placed

Every error is placed at a token of the source: the parser has no other tokens, and the scope check and
the run have the tokens of the tree (`diagnostics_point_at_tokens`).  That a tree, a check or a run has no
tokens but those of the source is the case of their similarity in which both sides are the same.
-/

namespace LoxLang

open Scoping

/-! ### Tokens of a source -/

theorem Scan.exists_end (line skip : Nat) (cs : List Char) :
    ∃ t, .token t ∈ scanFrom line skip cs ∧ t.isEnd = true := by
  induction cs generalizing line skip with
  | nil => cases skip <;> exact ⟨_, List.mem_singleton_self _, rfl⟩
  | cons c cs ih =>
    cases skip with
    | succ skip => exact ih line skip
    | zero =>
      obtain ⟨t, ht, hend⟩ := ih (line + (munch c cs).text.count '\n')
        ((munch c cs).text.length - 1)
      refine ⟨t, ?_, hend⟩
      rw [scanFrom]
      cases (munch c cs).lexeme with
      | gap => exact ht
      | token kind => exact List.mem_cons_of_mem _ ht
      | fault f => exact List.mem_cons_of_mem _ ht

/-- The input of a source ends with a token. -/
theorem exists_end (source : String) : ∃ t ∈ tokensOf (scan source), t.isEnd = true := by
  obtain ⟨t, ht, hend⟩ := Scan.exists_end 1 0 source.toList
  exact ⟨t, List.mem_filterMap.2 ⟨_, ht, rfl⟩, hend⟩

/-- The place of a token is the end of the input, or the text of the token. -/
theorem Token.describe_site (t : Token) :
    t.site.describe = if t.isEnd then " at end" else s!" at '{t.lexeme}'" := by
  rw [Token.site]
  cases t.isEnd <;> rfl

/-! ### Syntax errors -/

/-- A token of the list, whatever the other one is. -/
def TokenOf (tokens : List Token) (t _ : Token) : Prop := t ∈ tokens

/-- A mistake found in tokens of which one is the end of the input is placed at one of them. -/
theorem Parse.Mistake.site_locate {tokens : List Token} (hend : ∃ t ∈ tokens, t.isEnd = true)
    {m : Mistake} (h : m.Similar (TokenOf tokens) m) :
    ∃ t ∈ tokens,
      (m.locate (((tokens.find? (·.isEnd)).map Token.line).getD 0)).site = t.site := by
  obtain ⟨at?, f⟩ := m
  obtain ⟨hat, -⟩ := h
  cases at? with
  | some t =>
    cases hat with
    | some ht => exact ⟨t, ht.place, rfl⟩
  | none =>
    obtain ⟨t, ht⟩ := Option.isSome_iff_exists.1 (List.find?_isSome.2 hend)
    refine ⟨t, List.mem_of_find?_eq_some ht, ?_⟩
    rw [ht, Token.site, List.find?_some ht]
    rfl

/-- The parser reports its errors at the tokens that it was given. -/
theorem parse_errors_site {tokens : List Token} (hend : ∃ t ∈ tokens, t.isEnd = true)
    {e : SyntaxError} (he : e ∈ (parse tokens).errors) : ∃ t ∈ tokens, e.site = t.site := by
  have hbody : List.Forall₂ (Token.Similar (TokenOf tokens)) (tokens.takeWhile (!·.isEnd))
      (tokens.takeWhile (!·.isEnd)) :=
    List.forall₂_same.2 fun t ht => ⟨(List.takeWhile_sublist _).subset ht, rfl, rfl⟩
  have hreply := (Parse.statements_alike (TokenOf tokens)
    (Parse.fuelFor (tokens.takeWhile (!·.isEnd)))).declarations false hbody
  have hlocate {reported : List Parse.Mistake}
      (h : List.Forall₂ (Parse.Mistake.Similar (TokenOf tokens)) reported reported)
      (he : e ∈ reported.map (·.locate (((tokens.find? (·.isEnd)).map Token.line).getD 0))) :
      ∃ t ∈ tokens, e.site = t.site := by
    obtain ⟨m, hm, rfl⟩ := List.mem_map.1 he
    exact Parse.Mistake.site_locate hend (List.forall₂_same.1 h m hm)
  unfold parse at he
  dsimp only at he
  generalize Parse.declarations _ _ (tokens.takeWhile (!·.isEnd)) = r at hreply he
  cases hreply with
  | done _ _ hreported => exact hlocate hreported he
  | failed _ _ hreported => exact hlocate hreported he
  | starved => cases he

/-! ### Errors of scoping and of running -/

theorem ScopeError.Similar.exists_site {K : Token → Token → Prop} {e e' : ScopeError}
    (h : e.Similar K e') : ∃ t, (∃ t', K t t') ∧ e.site = t.site := by
  cases h with
  | mk ht => exact ⟨_, ⟨_, ht.place⟩, rfl⟩

/-- The scope check reports its errors at tokens of the source. -/
theorem Session.check_errors_site (s : Session) {source : String} (hread : readErrors source = [])
    {e : ScopeError} (he : e ∈ (check (s.program source)).errors) :
    ∃ t ∈ tokensOf (scan source), e.site = t.site := by
  obtain ⟨k, -, -, hsimilar⟩ := programs_similar s s (read_same hread)
  have herrors := (check_similar (hsimilar (fun _ _ => True) fun _ _ => trivial)).errors
  obtain ⟨t, ⟨t', -, ht⟩, hsite⟩ := (List.forall₂_same.1 herrors e he).exists_site
  exact ⟨t, ht, hsite⟩

/-- The first run of a session ends with an error at a token of its source, if it ends with one. -/
theorem Session.run_error_line {limit? : Option Nat} {clock : Clock} {fuel : Nat} {source : String}
    (haccepts : (start limit? clock).accepts source = true) {line : Nat} {f : RuntimeFault}
    (he : .running (.fault line f) ∈ ((start limit? clock).run fuel source).1.errors) :
    ∃ t ∈ tokensOf (scan source), t.line = line := by
  -- the session is a twin of itself, and of its tokens only those of the source correspond
  have hread := read_same (accepts_iff.1 haccepts).1
  obtain ⟨d, hd, htwin, halike⟩ := (twin_start limit? clock).load hread (MovedDown 0 source)
  have herrors := (htwin.runLoaded haccepts haccepts (halike hread) fuel).2.errors
  obtain ⟨e, e', hrunning, -, hself⟩ := List.forall₂_same.1 herrors _ he
  have htoken {t t' : Token} (ht : d.tokens t t') : t ∈ tokensOf (scan source) :=
    ((hd.tokens ht).resolve_left id).2
  cases hrunning
  generalize he' : RunError.fault line f = e' at hself
  cases hself with
  | fault ht =>
    cases he'
    exact ⟨_, htoken ht, rfl⟩
  | undefined ht =>
    cases he'
    exact ⟨_, htoken ht, rfl⟩
  | sinkFull => cases he'

/-! ### All errors -/

/-- The diagnostic is placed at one of the tokens, if it is placed at a token at all: a part of the text
that is no token and a full sink are not. -/
def Diagnostic.PlacedIn (tokens : List Token) : Diagnostic → Prop
  | lexical _ => True
  | syntactic e => ∃ t ∈ tokens, e.site = t.site
  | scoping e => ∃ t ∈ tokens, e.site = t.site
  | running (.fault line _) => ∃ t ∈ tokens, t.line = line
  | running .sinkFull => True

/-- Whatever a session reports on its first source is placed at a token of it. -/
theorem Session.errors_placed {limit? : Option Nat} {clock : Clock} {fuel : Nat} {source : String}
    {d : Diagnostic} (hd : d ∈ ((start limit? clock).run fuel source).1.errors) :
    d.PlacedIn (tokensOf (scan source)) := by
  rcases mem_errors hd with ⟨e, -, rfl⟩ | ⟨e, he, rfl⟩ | ⟨hread, e, he, rfl⟩ | ⟨haccepts, e, rfl⟩
  · trivial
  · exact parse_errors_site (exists_end source) he
  · exact check_errors_site _ hread he
  · cases e with
    | fault line f => exact run_error_line haccepts hd
    | sinkFull => trivial

/-- Whatever a session reports on its first source names a line of it, or is about the sink. -/
theorem Session.errors_line {limit? : Option Nat} {clock : Clock} {fuel : Nat} {source : String}
    {d : Diagnostic} (hd : d ∈ ((start limit? clock).run fuel source).1.errors) :
    d = .running .sinkFull ∨ ∃ line, d.line? = some line ∧ 1 ≤ line ∧ line ≤ linesOf source := by
  have htoken {t : Token} (ht : t ∈ tokensOf (scan source)) : 1 ≤ t.line ∧ t.line ≤ linesOf source :=
    scan_line (mem_of_mem_tokensOf ht)
  have hplaced := errors_placed hd
  cases d with
  | lexical e =>
    rcases mem_errors hd with ⟨e, he, heq⟩ | ⟨e, -, heq⟩ | ⟨-, e, -, heq⟩ | ⟨-, e, heq⟩
    · cases heq
      obtain ⟨item, hitem, herror⟩ := List.mem_filterMap.1 he
      cases item with
      | token t => cases herror
      | error e' =>
        cases herror
        exact .inr ⟨_, rfl, scan_line hitem⟩
    all_goals cases heq
  | syntactic e =>
    obtain ⟨t, ht, hsite⟩ := hplaced
    exact .inr ⟨_, rfl, by rw [hsite]; exact htoken ht⟩
  | scoping e =>
    obtain ⟨t, ht, hsite⟩ := hplaced
    exact .inr ⟨_, rfl, by rw [hsite]; exact htoken ht⟩
  | running e =>
    cases e with
    | fault line f =>
      obtain ⟨t, ht, rfl⟩ := hplaced
      exact .inr ⟨_, rfl, htoken ht⟩
    | sinkFull => exact .inl rfl

/-- What a session reports on its first source.  An error of parsing or scoping names the line and the
text of a token of the source, and an error of running the line of such a token.  Every error but that of
a full sink names a line of the source. -/
theorem diagnostics_point_at_tokens (limit? : Option Nat) (clock : Clock) (fuel : Nat)
    (source : String) :
    let errors := ((Session.start limit? clock).run fuel source).1.errors
    (∀ e, .syntactic e ∈ errors → ∃ t ∈ tokensOf (scan source), e.site.line = t.line ∧
        e.site.describe = if t.isEnd then " at end" else s!" at '{t.lexeme}'") ∧
      (∀ e, .scoping e ∈ errors → ∃ t ∈ tokensOf (scan source), e.site.line = t.line ∧
        e.site.describe = if t.isEnd then " at end" else s!" at '{t.lexeme}'") ∧
      (∀ line f, .running (.fault line f) ∈ errors →
        ∃ t ∈ tokensOf (scan source), t.line = line) ∧
      ∀ d ∈ errors, d = .running .sinkFull ∨
        ∃ line, d.line? = some line ∧ 1 ≤ line ∧ line ≤ linesOf source := by
  refine ⟨fun e he => ?_, fun e he => ?_, fun line f he => Session.errors_placed he,
    fun d hd => Session.errors_line hd⟩
  · obtain ⟨t, ht, hsite⟩ := Session.errors_placed he
    exact ⟨t, ht, congrArg Site.line hsite, by rw [hsite, t.describe_site]⟩
  · obtain ⟨t, ht, hsite⟩ := Session.errors_placed he
    exact ⟨t, ht, congrArg Site.line hsite, by rw [hsite, t.describe_site]⟩

end LoxLang
