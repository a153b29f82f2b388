import LoxLang.Proofs.Parse.Unclosed

/-!
# Declarations that are broken off

A semicolon is taken out of derived tokens, where nothing follows it but a token that closes a block or
begins a statement (`Severed`).  Then either the whole is a statement that is not closed, or the
semicolon ended a declaration `inner` inside a block, and the parser reports it as missing and goes on
after `outer`, at the next statement boundary, as if `inner` were not there (`Interrupted`).

`cut_of_derives` shows this of all that is derived, with one lemma for each rule.  A rule reads what
stands before the part with the semicolon as it always does (`Leads`), and what it makes of the rest is
decided by the reply of that part, which differs by one mistake only.
-/

namespace LoxLang

namespace Parse

open Grammar

variable {α β : Type} {tokens rest : List Token}

/-! ### The semicolon of a statement -/

/-- The sequence has a semicolon before `R`, and if anything follows it there, a token that closes a
block or begins a statement. -/
structure Severed (w A : List Token) (semi : Token) (R : List Token) : Prop where
  eq : w = A ++ semi :: R
  is_semicolon : semi.is .semicolon = true
  resumes : R ≠ [] → Resumes R

/-- No semicolon is among the tokens. -/
def Plain (w : List Token) : Prop := ∀ t ∈ w, t.is .semicolon = false

@[simp] theorem plain_nil : Plain [] := List.forall_mem_nil _

@[simp] theorem plain_cons {t : Token} {w : List Token} :
    Plain (t :: w) ↔ t.is .semicolon = false ∧ Plain w := List.forall_mem_cons

@[simp] theorem plain_append {u w : List Token} : Plain (u ++ w) ↔ Plain u ∧ Plain w :=
  List.forall_mem_append

theorem not_semicolon {t : Token} {s : Symbol} (ht : t.is s = true) (hs : s ≠ .semicolon) :
    t.is .semicolon = false := Bool.eq_false_iff.2 fun h => hs (is_unique ht h)

/-- Only statements and variable declarations have semicolons. -/
theorem plain_of_derives {n : Nonterminal} {w : List Token} {t : n.Tree} (h : Derives true n w t) :
    match n with
    | .expression | .level _ | .call | .primary | .arguments | .parameters | .clause => Plain w
    | _ => True := by
  induction h with
  | assignName hname heq _ ih => simp [not_semicolon hname, not_semicolon heq, ih]
  | assignField _ hdot hname heq _ ih ih' =>
    simp [not_semicolon hdot, not_semicolon hname, not_semicolon heq, ih, ih']
  | loosest _ ih | operand _ ih | unsigned _ ih | callee _ ih | lastArgument _ ih | clause _ ih =>
    exact ih
  | @operator l op _ _ _ _ _ hop _ ih ih' =>
    obtain ⟨s, hs, his⟩ := List.any_eq_true.1 hop
    have hop : op.is .semicolon = false := not_semicolon his fun h => by
      subst h
      cases l <;> simp [levelRule] at hs
    simp [hop, ih, ih']
  | signed hop _ ih =>
    rcases hop with hop | hop <;> simp [not_semicolon hop, ih]
  | callEmpty _ hlp hrp ih => simp [not_semicolon hlp, not_semicolon hrp, ih]
  | call _ hlp _ _ hrp ih ih' => simp [not_semicolon hlp, not_semicolon hrp, ih, ih']
  | property _ hdot hname ih => simp [not_semicolon hdot, not_semicolon hname, ih]
  | argument _ hcomma _ ih ih' => simp [not_semicolon hcomma, ih, ih']
  | number hk | string hk => simp [Token.is, hk]
  | trueLiteral ht | falseLiteral ht | nilLiteral ht | this ht | name ht => simp [not_semicolon ht]
  | group hlp _ hrp ih => simp [not_semicolon hlp, not_semicolon hrp, ih]
  | noClause => exact plain_nil
  | lastParameter ht => simp [not_semicolon ht]
  | parameter ht hcomma _ ih => simp [not_semicolon ht, not_semicolon hcomma, ih]
  | _ => trivial

namespace Severed

variable {u w A R : List Token} {semi : Token}

theorem not_plain (h : Severed w A semi R) (hw : Plain w) : False := by
  have := hw semi (by simp [h.eq])
  simp [h.is_semicolon] at this

/-- Nothing that is derived begins with a semicolon, except for an initializer. -/
theorem ne_nil {n : Nonterminal} (h : Severed w A semi R) (hw : Begins n w)
    (hn : .semicolon ∉ firsts n) : A ≠ [] := by
  rintro rfl
  rw [h.eq] at hw
  exact hn (hw .semicolon h.is_semicolon)

/-- The semicolon is in one of two parts. -/
theorem split (h : Severed (u ++ w) A semi R) :
    (∃ A', A = u ++ A' ∧ Severed w A' semi R) ∨ ∃ R', R = R' ++ w ∧ Severed u A semi R' := by
  rcases List.append_eq_append_iff.1 h.eq with ⟨A', rfl, hw⟩ | ⟨R', rfl, hR⟩
  · exact .inl ⟨A', rfl, hw, h.is_semicolon, h.resumes⟩
  · cases R' with
    | nil => exact .inl ⟨[], by simp, hR.symm, h.is_semicolon, h.resumes⟩
    | cons t R' =>
      obtain ⟨rfl, rfl⟩ := List.cons.inj hR
      exact .inr ⟨R', rfl, rfl, h.is_semicolon, fun hne =>
        (h.resumes (List.append_ne_nil_of_left_ne_nil hne w)).of_append hne⟩

/-- The semicolon is not among plain tokens. -/
theorem past (h : Severed (u ++ w) A semi R) (hu : Plain u) :
    ∃ A', A = u ++ A' ∧ Severed w A' semi R := by
  rcases h.split with h | ⟨R', -, h⟩
  · exact h
  · exact (h.not_plain hu).elim

theorem before (h : Severed (u ++ w) A semi R) (hw : Plain w) :
    ∃ R', R = R' ++ w ∧ Severed u A semi R' := by
  rcases h.split with ⟨A', -, h⟩ | h
  · exact (h.not_plain hw).elim
  · exact h

/-- The semicolon is the last token. -/
theorem last {t : Token} (h : Severed (w ++ [t]) A semi R) (hw : Plain w) :
    A = w ∧ R = [] ∧ semi = t := by
  obtain ⟨A', rfl, h⟩ := h.past hw
  have heq := h.eq
  cases A' with
  | nil => simp_all
  | cons t' A' => simp at heq

end Severed

/-! ### A statement that is broken off -/

/-- The tokens of `inner` and the semicolon are a declaration.  Without the semicolon `p` reports that it
is missing, and goes on at the next boundary as if the declaration were not there. -/
def Interrupted (p : Nat → Parser α) (outer inner : List Token) (semi : Token) (R : List Token) :
    Prop :=
  (∃ s, Derives true .declaration (inner ++ [semi]) s) ∧ ∃ what ∈ missing,
    ∀ rest, Resumes (R ++ rest) → Costs (Stops [.elseKw] (synchronize (R ++ rest)))
      ⟨(R ++ rest).head?, .expected what⟩ p (outer ++ (inner ++ (R ++ rest)))
      (outer ++ synchronize (R ++ rest))

namespace Interrupted

variable {outer inner R : List Token} {semi : Token}

theorem enter {p q : Nat → Parser α} (pre : List Token)
    (h : ∀ X, Leads (fun fuel => p (fuel + 1)) (pre ++ (outer ++ X)) q (outer ++ X))
    (hq : Interrupted q outer inner semi R) : Interrupted p (pre ++ outer) inner semi R := by
  obtain ⟨hs, what, hwhat, hcosts⟩ := hq
  refine ⟨hs, what, hwhat, fun rest hrest => ?_⟩
  rw [List.append_assoc, List.append_assoc]
  exact .enter (h _) (fun _ => h _) (hcosts rest hrest)

theorem bind {q : Nat → Parser α} {f : Nat → α → Parser β} (hq : Interrupted q outer inner semi R) :
    Interrupted (fun fuel => q fuel >>= f fuel) outer inner semi R := by
  obtain ⟨hs, what, hwhat, hcosts⟩ := hq
  exact ⟨hs, what, hwhat, fun rest hrest => (hcosts rest hrest).bind⟩

theorem recover {p : Nat → Parser α} (hp : Interrupted p outer inner semi R) :
    Interrupted (fun fuel => Parse.recover (p fuel)) outer inner semi R := by
  obtain ⟨hs, what, hwhat, hcosts⟩ := hp
  exact ⟨hs, what, hwhat, fun rest hrest => (hcosts rest hrest).recover⟩

/-- More tokens may follow. -/
theorem append {p : Nat → Parser α} (h : Interrupted p outer inner semi R) (w : List Token) :
    Interrupted p outer inner semi (R ++ w) := by
  obtain ⟨hs, what, hwhat, hcosts⟩ := h
  refine ⟨hs, what, hwhat, fun rest hrest => ?_⟩
  rw [List.append_assoc] at hrest ⊢
  exact hcosts (w ++ rest) hrest

end Interrupted

section

variable {n n' : Nonterminal} {p q : Nat → Parser α} {A R : List Token} {semi : Token}

/-- A declaration inside what is derived from `n` is broken off, and `n` derives the rest without it.
What stands before `pre` has been read before. -/
def Opened (n : Nonterminal) (pre : List Token) (p : Nat → Parser α) (A : List Token) (semi : Token)
    (R : List Token) : Prop :=
  ∃ outer inner, A = outer ++ inner ∧ (∃ t, Derives true n (pre ++ (outer ++ R)) t) ∧
    Interrupted p outer inner semi R

/-- The same of a declaration that something stands before. -/
def Within (n : Nonterminal) (p : Nat → Parser α) (A : List Token) (semi : Token) (R : List Token) :
    Prop :=
  ∃ outer inner, A = outer ++ inner ∧ outer ≠ [] ∧ (∃ t, Derives true n (outer ++ R) t) ∧
    Interrupted p outer inner semi R

/-- Without its semicolon a statement is not closed, or a declaration inside it is broken off. -/
def Broken (n : Nonterminal) (p : Nat → Parser α) (A : List Token) (semi : Token) (R : List Token) :
    Prop :=
  R = [] ∧ Unclosed p A ∨ Within n p A semi R

theorem Opened.bind {pre : List Token} {f : Nat → α → Parser β} (hq : Opened n pre q A semi R) :
    Opened n pre (fun fuel => q fuel >>= f fuel) A semi R := by
  obtain ⟨outer, inner, rfl, ht, hq⟩ := hq
  exact ⟨outer, inner, rfl, ht, hq.bind⟩

/-- What has been opened before stands before the declaration. -/
theorem Opened.within {pre opening : List Token} (hq : Opened n opening q A semi R) (hpre : pre ≠ [])
    (h : ∀ X, Leads (fun fuel => p (fuel + 1)) (pre ++ X) q X)
    (hn : ∀ w t, Derives true n (opening ++ w) t → ∃ t', Derives true n' (pre ++ w) t') :
    Within n' p (pre ++ A) semi R := by
  obtain ⟨outer, inner, rfl, ⟨t, ht⟩, hq⟩ := hq
  obtain ⟨t', ht'⟩ := hn _ t ht
  rw [← List.append_assoc] at ht'
  exact ⟨pre ++ outer, inner, (List.append_assoc ..).symm,
    List.append_ne_nil_of_left_ne_nil hpre _, ⟨t', ht'⟩, hq.enter pre fun _ => h _⟩

theorem Within.enter (pre : List Token) (h : ∀ X, Leads (fun fuel => p (fuel + 1)) (pre ++ X) q X)
    (hn : ∀ w t, Derives true n w t → ∃ t', Derives true n' (pre ++ w) t')
    (hq : Within n q A semi R) : Within n' p (pre ++ A) semi R := by
  obtain ⟨outer, inner, rfl, hne, ⟨t, ht⟩, hq⟩ := hq
  obtain ⟨t', ht'⟩ := hn _ t ht
  rw [← List.append_assoc] at ht'
  exact ⟨pre ++ outer, inner, (List.append_assoc ..).symm,
    List.append_ne_nil_of_right_ne_nil pre hne, ⟨t', ht'⟩, hq.enter pre fun _ => h _⟩

theorem Within.bind {f : Nat → α → Parser β} (hq : Within n q A semi R) :
    Within n (fun fuel => q fuel >>= f fuel) A semi R := by
  obtain ⟨outer, inner, rfl, hne, ht, hq⟩ := hq
  exact ⟨outer, inner, rfl, hne, ht, hq.bind⟩

theorem Broken.enter (pre : List Token) (h : ∀ X, Leads (fun fuel => p (fuel + 1)) (pre ++ X) q X)
    (hn : ∀ w t, Derives true n w t → ∃ t', Derives true n' (pre ++ w) t')
    (hq : Broken n q A semi R) : Broken n' p (pre ++ A) semi R :=
  hq.imp (fun hq => ⟨hq.1, hq.2.enter pre fun _ => h _⟩) (Within.enter pre h hn)

theorem Broken.bind {f : Nat → α → Parser β} (hq : Broken n q A semi R) :
    Broken n (fun fuel => q fuel >>= f fuel) A semi R :=
  hq.imp (fun hq => ⟨hq.1, hq.2.bind⟩) Within.bind

end

/-- What begins as something derived from `n` does. -/
theorem stops_of_begins {n : Nonterminal} {symbols : List Symbol} {A Y : List Token}
    (hA : Begins n (A ++ Y)) (hne : A ≠ []) (hs : ∀ s ∈ symbols, s ∉ firsts n) (X : List Token) :
    Stops symbols (A ++ X) := by
  cases A with
  | nil => exact absurd rfl hne
  | cons t A =>
    rintro _ ⟨⟩
    exact List.any_eq_false.2 fun s hmem his => hs s hmem (hA s his)

/-! ### Statements -/

section

variable {o : Bool} {keyword lp rp : Token} {u w A R : List Token} {semi : Token}
  {condition : Expr Unit}

theorem plain_condition {s : Symbol} (hk : keyword.is s = true) (hs : s ≠ .semicolon)
    (hlp : lp.is .leftParen = true) (hu : Derives true .expression u condition)
    (hrp : rp.is .rightParen = true) : Plain (keyword :: lp :: (u ++ [rp])) := by
  simp [not_semicolon hk hs, not_semicolon hlp, not_semicolon hrp, plain_of_derives hu]

theorem leads_while (hk : keyword.is .whileKw = true) (hlp : lp.is .leftParen = true)
    (hu : Derives true .expression u condition) (hrp : rp.is .rightParen = true) (X : List Token) :
    Leads (fun fuel => statement (fuel + 1)) (keyword :: lp :: (u ++ [rp]) ++ X)
      (fun fuel => do return .whileLoop condition (← statement fuel)) X := by
  simp only [List.append_assoc, List.cons_append, List.nil_append]
  refine .accepts_none (stops_of_is hk (by decide)) (.accepts_none (stops_of_is hk (by decide)) ?_)
  refine .accepts_none (stops_of_is hk (by decide)) (.accepts hk (.skip hlp ?_))
  exact .bind (completeness hu _ (stops_of_is hrp (by decide))) (.skip hrp .rfl)

theorem broken_while (hk : keyword.is .whileKw = true) (hlp : lp.is .leftParen = true)
    (hu : Derives true .expression u condition) (hrp : rp.is .rightParen = true)
    (h : Severed (keyword :: lp :: (u ++ rp :: w)) A semi R)
    (hw : ∀ A, Severed w A semi R → Broken (.statement o) statement A semi R) :
    Broken (.statement o) statement A semi R := by
  have h' : Severed (keyword :: lp :: (u ++ [rp]) ++ w) A semi R := by simpa using h
  obtain ⟨A', rfl, hbody⟩ := h'.past (plain_condition hk (by decide) hlp hu hrp)
  refine (hw A' hbody).bind.enter _ (leads_while hk hlp hu hrp) fun w s hs => ?_
  exact ⟨.whileLoop condition s, by simpa using .whileLoop hk hlp hu hrp hs⟩

theorem leads_if (hk : keyword.is .ifKw = true) (hlp : lp.is .leftParen = true)
    (hu : Derives true .expression u condition) (hrp : rp.is .rightParen = true) (X : List Token) :
    Leads (fun fuel => statement (fuel + 1)) (keyword :: lp :: (u ++ [rp]) ++ X) (fun fuel => do
      let thenBranch ← statement fuel
      if ← accepts .elseKw then
        return .ifElse condition thenBranch (← statement fuel)
      else
        return .ifThen condition thenBranch) X := by
  simp only [List.append_assoc, List.cons_append, List.nil_append]
  refine .accepts_none (stops_of_is hk (by decide)) (.accepts hk (.skip hlp ?_))
  exact .bind (completeness hu _ (stops_of_is hrp (by decide))) (.skip hrp .rfl)

theorem broken_ifThen (hk : keyword.is .ifKw = true) (hlp : lp.is .leftParen = true)
    (hu : Derives true .expression u condition) (hrp : rp.is .rightParen = true)
    (h : Severed (keyword :: lp :: (u ++ rp :: w)) A semi R)
    (hw : ∀ A, Severed w A semi R → Broken (.statement o) statement A semi R) :
    Broken (.statement true) statement A semi R := by
  have h' : Severed (keyword :: lp :: (u ++ [rp]) ++ w) A semi R := by simpa using h
  obtain ⟨A', rfl, hbranch⟩ := h'.past (plain_condition hk (by decide) hlp hu hrp)
  refine (hw A' hbranch).bind.enter _ (leads_if hk hlp hu hrp) fun w s hs => ?_
  exact ⟨.ifThen condition s, by simpa using .ifThen hk hlp hu hrp hs⟩

/-- An `else` neither closes a block nor begins a statement, so what ends before it is closed. -/
theorem broken_ifElse {o' : Bool} {other : Token} {w' : List Token} {s s' : Stmt Unit}
    (hk : keyword.is .ifKw = true) (hlp : lp.is .leftParen = true)
    (hu : Derives true .expression u condition) (hrp : rp.is .rightParen = true)
    (hs : Derives true (.statement false) w s) (hother : other.is .elseKw = true)
    (hs' : Derives true (.statement o') w' s')
    (h : Severed (keyword :: lp :: (u ++ rp :: (w ++ other :: w'))) A semi R)
    (hw : ∀ A R, Severed w A semi R → Broken (.statement false) statement A semi R)
    (hw' : ∀ A, Severed w' A semi R → Broken (.statement o') statement A semi R) :
    Broken (.statement o') statement A semi R := by
  have h' : Severed (keyword :: lp :: (u ++ [rp]) ++ (w ++ other :: w')) A semi R := by simpa using h
  obtain ⟨A', rfl, hbranches⟩ := h'.past (plain_condition hk (by decide) hlp hu hrp)
  rcases hbranches.split with ⟨A', rfl, hlast⟩ | ⟨R', rfl, hfirst⟩
  · -- in the second branch
    obtain ⟨A', rfl, hsecond⟩ := Severed.past (u := [other]) hlast
      (by simp [not_semicolon hother (by decide)])
    have hleads (X : List Token) : Leads (fun fuel => statement (fuel + 1))
        (keyword :: lp :: (u ++ [rp]) ++ (w ++ [other]) ++ X)
        (fun fuel => do return .ifElse condition s (← statement fuel)) X := by
      rw [List.append_assoc]
      refine (leads_if hk hlp hu hrp _).trans ?_
      rw [List.append_assoc]
      exact .bind (completeness hs _ nofun) (.accepts hother .rfl)
    simp only [← List.append_assoc] at hleads ⊢
    refine (hw' A' hsecond).bind.enter _ hleads fun w' s' hs' => ⟨.ifElse condition s s', ?_⟩
    simpa using Derives.ifElse hk hlp hu hrp hs (fun _ => rfl) hother hs'
  · -- in the first branch
    rcases hw A' R' hfirst with ⟨rfl, -⟩ | ⟨outer, inner, rfl, hne, ⟨t, ht⟩, hbroken⟩
    · have hresumes : Resumes (other :: w') := by simpa using hbranches.resumes (by simp)
      exact (hresumes.not_stops (stops_of_is hother (by decide))).elim
    · refine .inr ⟨_ ++ outer, inner, (List.append_assoc ..).symm, by simp, ⟨.ifElse condition t s', ?_⟩,
        (hbroken.bind.append _).enter _ fun _ => leads_if hk hlp hu hrp _⟩
      simpa using Derives.ifElse hk hlp hu hrp ht (fun _ => rfl) hother hs'

theorem severed_initializer {initializer? : Option (Stmt Unit)}
    (hu : Derives true .initializer u initializer?) (h : Severed u A semi R) : R = [] := by
  cases hu with
  | noInitializer => exact (Severed.last (w := []) h plain_nil).2.1
  | varInitializer hu =>
    cases hu with
    | @varEmpty keyword name _ hk hname =>
      have hplain : Plain [keyword, name] := by
        simp [not_semicolon hk (by decide), not_semicolon hname (by decide)]
      exact (Severed.last (w := [keyword, name]) h hplain).2.1
    | @var keyword name equals _ w _ hk hname heq he =>
      have hplain : Plain (keyword :: name :: equals :: w) := by
        simp [not_semicolon hk (by decide), not_semicolon hname (by decide),
          not_semicolon heq (by decide), plain_of_derives he]
      exact (Severed.last (w := keyword :: name :: equals :: w) h hplain).2.1
  | expressionInitializer hu =>
    cases hu with
    | expressionStatement he => exact (h.last (plain_of_derives he)).2.1

theorem leads_for {semi' : Token} {v x : List Token} {initializer? : Option (Stmt Unit)}
    {condition? increment? : Option (Expr Unit)} (hk : keyword.is .forKw = true)
    (hlp : lp.is .leftParen = true) (hu : Derives true .initializer u initializer?)
    (hv : Derives true .clause v condition?) (hsemi : semi'.is .semicolon = true)
    (hx : Derives true .clause x increment?) (hrp : rp.is .rightParen = true) (X : List Token) :
    Leads (fun fuel => statement (fuel + 1))
      ([keyword, lp] ++ (u ++ (v ++ ([semi'] ++ (x ++ [rp] ++ X)))))
      (fun fuel => do return .forLoop initializer? condition? increment? (← statement fuel)) X := by
  simp only [List.append_assoc, List.cons_append, List.nil_append]
  refine .accepts hk (.skip hlp (.bind (completeness hu _) ?_))
  refine .bind (completeness hv .semicolon _ (.inl rfl) (meets_cons hsemi)) (.skip hsemi ?_)
  exact .bind (completeness hx .rightParen _ (.inr rfl) (meets_cons hrp)) (.skip hrp .rfl)

/-- The semicolons between the clauses of a `for` loop are followed by clauses or by a parenthesis. -/
theorem broken_for {semi' : Token} {v x : List Token} {initializer? : Option (Stmt Unit)}
    {condition? increment? : Option (Expr Unit)} (hk : keyword.is .forKw = true)
    (hlp : lp.is .leftParen = true) (hu : Derives true .initializer u initializer?)
    (hv : Derives true .clause v condition?) (hsemi : semi'.is .semicolon = true)
    (hx : Derives true .clause x increment?) (hrp : rp.is .rightParen = true)
    (h : Severed (keyword :: lp :: (u ++ (v ++ semi' :: (x ++ rp :: w)))) A semi R)
    (hw : ∀ A, Severed w A semi R → Broken (.statement o) statement A semi R) :
    Broken (.statement o) statement A semi R := by
  have hclauses : Severed ([keyword, lp] ++ (u ++ (v ++ ([semi'] ++ (x ++ [rp] ++ w))))) A semi R := by
    simpa using h
  obtain ⟨A', rfl, h₁⟩ := hclauses.past
    (by simp [not_semicolon hk (by decide), not_semicolon hlp (by decide)])
  rcases h₁.split with ⟨A', rfl, h₂⟩ | ⟨R', rfl, hinitializer⟩
  · obtain ⟨A', rfl, h₃⟩ := h₂.past (plain_of_derives hv)
    rcases h₃.split with ⟨A', rfl, h₄⟩ | ⟨R', rfl, hcondition⟩
    · obtain ⟨A', rfl, hbody⟩ := h₄.past
        (by simp [plain_of_derives hx, not_semicolon hrp (by decide)])
      have hleads (X : List Token) := leads_for hk hlp hu hv hsemi hx hrp X
      simp only [← List.append_assoc] at hleads ⊢
      refine (hw A' hbody).bind.enter _ hleads fun w s hs => ?_
      refine ⟨loopTree condition? s initializer? increment?, ?_⟩
      simpa using Derives.forLoop hk hlp hu hv hsemi hx hrp hs
    · -- the semicolon after the condition
      obtain rfl := (Severed.last (w := []) hcondition plain_nil).2.1
      refine ((h₃.resumes (by simp)).not_stops ?_).elim
      simpa using (starts hx).stops_append (by decide) (stops_of_is hrp (by decide))
  · -- the semicolon of the initializer
    obtain rfl := severed_initializer hu hinitializer
    refine ((h₁.resumes (by simp)).not_stops ?_).elim
    simpa using (starts hv).stops_append (by decide) (stops_of_is hsemi (by decide))

end

/-! ### Blocks, functions and classes -/

section

variable {u w A R : List Token} {semi : Token}

theorem Severed.inside {lb rb : Token} (h : Severed (lb :: (w ++ [rb])) A semi R)
    (hlb : lb.is .leftBrace = true) (hrb : rb.is .rightBrace = true) :
    ∃ A' R', A = lb :: A' ∧ R = R' ++ [rb] ∧ Severed w A' semi R' := by
  obtain ⟨A', rfl, hinside⟩ := Severed.past (u := [lb]) h
    (by simp [not_semicolon hlb (by decide)])
  obtain ⟨R', rfl, hw⟩ := hinside.before (by simp [not_semicolon hrb (by decide)])
  exact ⟨A', R', rfl, rfl, hw⟩

theorem opened_block {lb rb : Token} (hlb : lb.is .leftBrace = true) (hrb : rb.is .rightBrace = true)
    (h : Severed (lb :: (w ++ [rb])) A semi R)
    (hw : ∀ A R, Severed w A semi R → Opened .declarations [] (declarations · true) A semi R) :
    ∃ A', A = lb :: A' ∧ Opened .block [lb] block A' semi R := by
  obtain ⟨A', R', rfl, rfl, hinside⟩ := h.inside hlb hrb
  obtain ⟨outer, inner, rfl, ⟨body, hbody⟩, hbroken⟩ := hw A' R' hinside
  refine ⟨_, rfl, outer, inner, rfl, ⟨body, ?_⟩, ?_⟩
  · simpa using Derives.block hlb hbody hrb
  · exact (hbroken.bind.append [rb]).enter [] fun _ => .rfl

theorem leads_block {lb : Token} (hlb : lb.is .leftBrace = true) (X : List Token) :
    Leads (fun fuel => statement (fuel + 1)) ([lb] ++ X)
      (fun fuel => do return .block (← block fuel)) X := by
  refine .accepts_none (stops_of_is hlb (by decide)) ?_
  refine .accepts_none (stops_of_is hlb (by decide)) ?_
  refine .accepts_none (stops_of_is hlb (by decide)) ?_
  exact .accepts_none (stops_of_is hlb (by decide)) (.accepts hlb .rfl)

theorem leads_functionEmpty {name lp rp lb : Token} (hname : name.is .identifier = true)
    (hlp : lp.is .leftParen = true) (hrp : rp.is .rightParen = true) (hlb : lb.is .leftBrace = true)
    (kind : FunctionKind) (X : List Token) :
    Leads (fun fuel => function (fuel + 1) kind) ([name, lp, rp, lb] ++ X)
      (fun fuel => do return ⟨(), name, [], ← block fuel⟩) X := by
  refine .expect hname (.skip hlp (.bind (settles_sees hrp) (.bind (.pure []) ?_)))
  exact .skip hrp (.skip hlb .rfl)

theorem leads_function {name lp rp lb : Token} {params : List Token}
    (hname : name.is .identifier = true) (hlp : lp.is .leftParen = true)
    (hu : Derives true .parameters u params) (hlen : params.length ≤ 255)
    (hrp : rp.is .rightParen = true) (hlb : lb.is .leftBrace = true) (kind : FunctionKind)
    (X : List Token) :
    Leads (fun fuel => function (fuel + 1) kind) (name :: lp :: (u ++ [rp, lb]) ++ X)
      (fun fuel => do return ⟨(), name, params, ← block fuel⟩) X := by
  simp only [List.append_assoc, List.cons_append, List.nil_append]
  have hsome : Stops [.rightParen] (u ++ rp :: lb :: X) := (starts hu).stops rfl (by decide) _
  refine .expect hname (.skip hlp (.bind (settles_sees_none hsome) ?_))
  exact .bind (completeness hu 0 _ (by omega) (meets_cons hrp)) (.skip hrp (.skip hlb .rfl))

/-- The body of a function is opened after its name and parameters. -/
abbrev OpensBlock (w A : List Token) (semi : Token) (R : List Token) : Prop :=
  Severed w A semi R → ∃ lb A', lb.is .leftBrace = true ∧ A = lb :: A' ∧
    Opened .block [lb] block A' semi R

theorem within_functionEmpty {name lp rp : Token} (hname : name.is .identifier = true)
    (hlp : lp.is .leftParen = true) (hrp : rp.is .rightParen = true)
    (h : Severed (name :: lp :: rp :: w) A semi R) (hw : ∀ A, OpensBlock w A semi R)
    (kind : FunctionKind) : Within .function (function · kind) A semi R := by
  obtain ⟨A', rfl, hblock⟩ := Severed.past (u := [name, lp, rp]) h
    (by simp [not_semicolon hname, not_semicolon hlp, not_semicolon hrp])
  obtain ⟨lb, A', hlb, rfl, hopened⟩ := hw A' hblock
  have hwithin : Within .function (function · kind) ([name, lp, rp, lb] ++ A') semi R :=
    hopened.bind.within (by simp) (leads_functionEmpty hname hlp hrp hlb kind)
      fun w t ht => ⟨⟨(), name, [], t⟩, .functionEmpty hname hlp hrp ht⟩
  exact hwithin

theorem within_function {name lp rp : Token} {params : List Token}
    (hname : name.is .identifier = true) (hlp : lp.is .leftParen = true)
    (hu : Derives true .parameters u params) (hlen : params.length ≤ 255)
    (hrp : rp.is .rightParen = true) (h : Severed (name :: lp :: (u ++ rp :: w)) A semi R)
    (hw : ∀ A, OpensBlock w A semi R) (kind : FunctionKind) :
    Within .function (function · kind) A semi R := by
  have h' : Severed (name :: lp :: (u ++ [rp]) ++ w) A semi R := by simpa using h
  obtain ⟨A', rfl, hblock⟩ := h'.past
    (by simp [not_semicolon hname, not_semicolon hlp, not_semicolon hrp, plain_of_derives hu])
  obtain ⟨lb, A', hlb, rfl, hopened⟩ := hw A' hblock
  have hwithin : Within .function (function · kind) (name :: lp :: (u ++ [rp, lb]) ++ A') semi R := by
    refine hopened.bind.within (by simp) (leads_function hname hlp hu hlen hrp hlb kind)
      fun w t ht => ⟨⟨(), name, params, t⟩, ?_⟩
    simpa using Derives.function hname hlp hu hlen hrp ht
  simpa using hwithin

/-- The next method, unless a brace closes the class. -/
theorem leads_methods (hne : tokens ≠ []) (h : Stops [.rightBrace] tokens) :
    Leads (fun fuel => methods (fuel + 1)) tokens (fun fuel => do
      let first ← function fuel .method
      return first :: (← methods fuel)) tokens := by
  have hclose : Settles (fun _ => atClose) tokens false tokens := by
    refine .of_eq (congrArg (Reply.done · tokens []) ?_)
    cases tokens with
    | nil => exact absurd rfl hne
    | cons t ts => simpa using h t rfl
  exact .bind hclose .rfl

theorem opened_functions {f : Function Unit} {fs : List (Function Unit)}
    (hu : Derives true .function u f) (hw : Derives true .functions w fs)
    (h : Severed (u ++ w) A semi R)
    (hfirst : ∀ R, Severed u A semi R → ∀ kind, Within .function (function · kind) A semi R)
    (hmore : ∀ A, Severed w A semi R → Opened .functions [] methods A semi R) :
    Opened .functions [] methods A semi R := by
  -- another method comes, if what it begins with is not broken off
  have hnext {u' Y : List Token} (hu' : u = u' ++ Y) (hne : u' ≠ []) (X : List Token) :
      Leads (fun fuel => methods (fuel + 1)) (u' ++ X) (fun fuel => do
        let first ← function fuel .method
        return first :: (← methods fuel)) (u' ++ X) := by
    refine leads_methods (List.append_ne_nil_of_left_ne_nil hne X) ?_
    exact stops_of_begins (hu' ▸ starts hu) hne (by decide) X
  rcases h.split with ⟨A', rfl, hlater⟩ | ⟨R', rfl, hnow⟩
  · obtain ⟨outer, inner, rfl, ⟨t, ht⟩, hbroken⟩ := hmore A' hlater
    have hne : u ≠ [] := by
      rintro rfl
      exact nomatch starts hu
    refine ⟨u ++ outer, inner, (List.append_assoc ..).symm, ⟨f :: t, ?_⟩,
      (hbroken.bind (f := fun _ fs => pure (f :: fs))).enter u fun X => ?_⟩
    · simpa using Derives.functions hu ht
    · exact (hnext (List.append_nil u).symm hne _).trans (.bind (completeness hu .method _) .rfl)
  · obtain ⟨outer, inner, rfl, hne, ⟨t, ht⟩, hbroken⟩ := hfirst R' hnow .method
    have hu' : u = outer ++ (inner ++ semi :: R') := by simpa using hnow.eq
    refine ⟨outer, inner, rfl, ⟨t :: fs, ?_⟩, (hbroken.bind.append w).enter [] (hnext hu' hne)⟩
    simpa using Derives.functions ht hw

theorem leads_class {keyword name lb : Token} (hk : keyword.is .classKw = true)
    (hname : name.is .identifier = true) (hlb : lb.is .leftBrace = true) (X : List Token) :
    Leads (fun fuel => declaration (fuel + 1)) ([keyword, name, lb] ++ X) (fun fuel => do
      let fs ← methods fuel
      skip .rightBrace .classEnd
      return .classDecl name fs) X :=
  .accepts hk (.expect hname (.skip hlb .rfl))

theorem within_class {keyword name lb rb : Token}
    (hk : keyword.is .classKw = true) (hname : name.is .identifier = true)
    (hlb : lb.is .leftBrace = true) (hrb : rb.is .rightBrace = true)
    (h : Severed (keyword :: name :: lb :: (w ++ [rb])) A semi R)
    (hw : ∀ A R, Severed w A semi R → Opened .functions [] methods A semi R) :
    Within .declaration declaration A semi R := by
  obtain ⟨A', rfl, hclass⟩ := Severed.past (u := [keyword, name]) h
    (by simp [not_semicolon hk (by decide), not_semicolon hname (by decide)])
  obtain ⟨A', R', rfl, rfl, hinside⟩ := hclass.inside hlb hrb
  obtain ⟨outer, inner, rfl, ⟨t, ht⟩, hbroken⟩ := hw A' R' hinside
  refine ⟨[keyword, name, lb] ++ outer, inner, by simp, by simp, ⟨.classDecl name t, ?_⟩,
    (hbroken.bind.append [rb]).enter _ fun X => leads_class hk hname hlb _⟩
  simpa using Derives.classDeclaration hk hname hlb ht hrb

theorem leads_fun {keyword : Token} (hk : keyword.is .funKw = true) (X : List Token) :
    Leads (fun fuel => declaration (fuel + 1)) ([keyword] ++ X)
      (fun fuel => do return .function (← function fuel .function)) X :=
  .accepts_none (stops_of_is hk (by decide)) (.accepts hk .rfl)

theorem within_fun {keyword : Token} (hk : keyword.is .funKw = true)
    (h : Severed (keyword :: w) A semi R)
    (hw : ∀ A, Severed w A semi R → ∀ kind, Within .function (function · kind) A semi R) :
    Within .declaration declaration A semi R := by
  obtain ⟨A', rfl, hfun⟩ := Severed.past (u := [keyword]) h (by simp [not_semicolon hk (by decide)])
  exact (hw A' hfun .function).bind.enter [keyword] (leads_fun hk) fun w t ht =>
    ⟨.function t, .functionDeclaration hk ht⟩

end

/-! ### Declarations -/

section

variable {u w A R : List Token} {semi : Token} {s : Stmt Unit} {ss : List (Stmt Unit)}
  (inBlock : Bool)

/-- The next declaration, unless a brace closes the block. -/
theorem leads_declarations (hne : tokens ≠ []) (h : Stops [.rightBrace] tokens) :
    Leads (fun fuel => declarations (fuel + 1) inBlock) tokens (fun fuel => do
      let first? ← recover (declaration fuel)
      return first?.toList ++ (← declarations fuel inBlock)) tokens := by
  have hclose : Settles (fun _ => if inBlock then atClose else atEnd) tokens false tokens := by
    cases tokens with
    | nil => exact absurd rfl hne
    | cons t ts =>
      cases inBlock with
      | false => exact .of_eq rfl
      | true => exact .of_eq (congrArg (Reply.done · (t :: ts) []) (by simpa using h t rfl))
  exact .bind hclose .rfl

theorem declarations_succ {fuel : Nat} (h : fuelFor tokens ≤ fuel) :
    declarations (fuel + 1) inBlock tokens = declarations fuel inBlock tokens := by
  have henough := declarations_ne_starved inBlock tokens
  have heq {fuel' : Nat} (h : fuelFor tokens ≤ fuel') :=
    (declarations_extend_of_le h inBlock).eq_of_ne_starved henough
  rw [heq h, heq (Nat.le_succ_of_le h)]

/-- A declaration that is given up costs what is skipped after it, and reading goes on from there. -/
theorem costs_declaration {c : Prop} {e : Mistake} (hne : tokens ≠ []) (h : Stops [.rightBrace] tokens)
    (hfails : Fails declaration tokens e rest) :
    Costs c e (declarations · inBlock) tokens (synchronize rest) := by
  obtain ⟨n, hn⟩ := leads_declarations inBlock hne h
  obtain ⟨m, hm⟩ := hfails
  refine ⟨max (max n m) (fuelFor (synchronize rest)) + 1, fun fuel hfuel => ?_⟩
  obtain ⟨fuel, rfl⟩ := Nat.exists_eq_succ_of_ne_zero (by omega : fuel ≠ 0)
  have hrecover : recover (declaration fuel) tokens = .done none (synchronize rest) [e] := by
    rw [recover, hm fuel (by omega)]
    rfl
  refine ⟨declarations fuel inBlock (synchronize rest), ?_, fun _ =>
    declarations_succ inBlock (by omega)⟩
  refine (hn fuel (by omega)).trans ((bind_done hrecover).trans ?_)
  simp

theorem opened_declarations (hs : Derives true .declaration u s)
    (hss : Derives true .declarations w ss) (h : Severed (u ++ w) A semi R)
    (hfirst : ∀ R, Severed u A semi R → Broken .declaration declaration A semi R)
    (hmore : ∀ A, Severed w A semi R →
      Opened .declarations [] (declarations · inBlock) A semi R) :
    Opened .declarations [] (declarations · inBlock) A semi R := by
  have hne : u ≠ [] := by
    rintro rfl
    exact nomatch starts hs
  -- another declaration comes, if what it begins with is not broken off
  have hnext {u' Y : List Token} (hu' : u = u' ++ Y) (hne : u' ≠ []) (X : List Token) :
      Stops [.rightBrace] (u' ++ X) := stops_of_begins (hu' ▸ starts hs) hne (by decide) X
  have hround {u' Y : List Token} (hu' : u = u' ++ Y) (hne : u' ≠ []) (X : List Token) :=
    leads_declarations inBlock (List.append_ne_nil_of_left_ne_nil hne X) (hnext hu' hne X)
  rcases h.split with ⟨A', rfl, hlater⟩ | ⟨R', rfl, hnow⟩
  · obtain ⟨outer, inner, rfl, ⟨t, ht⟩, hbroken⟩ := hmore A' hlater
    refine ⟨u ++ outer, inner, (List.append_assoc ..).symm, ⟨s :: t, ?_⟩, ?_⟩
    · simpa using Derives.declarations hs ht
    · obtain ⟨hs', what, hwhat, hcosts⟩ := hbroken
      refine ⟨hs', what, hwhat, fun rest hrest => ?_⟩
      have hbegins : Begins .declarations (outer ++ (inner ++ semi :: R)) := by
        rw [← List.append_assoc, ← hlater.eq]
        exact starts hss
      have helse {X : List Token} (hX : outer = [] → Stops [.elseKw] X) :
          Stops [.elseKw] (outer ++ X) := by
        by_cases houter : outer = []
        · subst houter
          exact hX rfl
        · exact stops_of_begins hbegins houter (by decide) X
      have hinner : outer = [] → Stops [.elseKw] (inner ++ (R ++ rest)) := by
        rintro rfl
        have hbegins : Begins .declarations (inner ++ semi :: R) := hbegins
        exact stops_of_begins hbegins (hlater.ne_nil (starts hss) (by decide)) (by decide) _
      rw [List.append_assoc, List.append_assoc]
      refine .enter (hround (List.append_nil u).symm hne _)
        (fun _ => hround (List.append_nil u).symm hne _) ?_
      exact .after (completeness hs _ (helse hinner)).recover
        (fun hc => (completeness hs _ (helse fun _ => hc)).recover) (hcosts rest hrest).bind
  · have hA : A ≠ [] := hnow.ne_nil (starts hs) (by decide)
    have hu : u = A ++ semi :: R' := hnow.eq
    rcases hfirst R' hnow with ⟨rfl, hunclosed⟩ | ⟨outer, inner, rfl, hne, ⟨t, ht⟩, hbroken⟩
    · -- the declaration itself is not closed
      obtain ⟨what, hwhat, hfails⟩ := hunclosed
      refine ⟨[], A, rfl, ⟨ss, hss⟩, ⟨s, hu ▸ hs⟩, what, hwhat, fun rest hrest => ?_⟩
      exact costs_declaration inBlock (List.append_ne_nil_of_left_ne_nil hA _) (hnext hu hA _)
        (hfails _ hrest)
    · -- a declaration inside it is broken off
      have hu : u = outer ++ (inner ++ semi :: R') := by simpa using hu
      refine ⟨outer, inner, rfl, ⟨t :: ss, ?_⟩,
        (hbroken.recover.bind.append w).enter [] (hround hu hne)⟩
      simpa using Derives.declarations ht hss

end

/-! ### All rules -/

/-- What becomes of a derivation from `n` when a semicolon is taken out of it. -/
def Cut : Nonterminal → List Token → Prop
  | .varDeclaration, w => ∀ A semi R, Severed w A semi R → R = [] ∧ Unclosed declaration A
  | .expressionStatement, w => ∀ A semi R, Severed w A semi R → R = [] ∧ Unclosed statement A
  | .statement o, w => ∀ A semi R, Severed w A semi R → Broken (.statement o) statement A semi R
  | .block, w => ∀ A semi R, OpensBlock w A semi R
  | .function, w => ∀ A semi R, Severed w A semi R →
    ∀ kind, Within .function (Parse.function · kind) A semi R
  | .functions, w => ∀ A semi R, Severed w A semi R → Opened .functions [] methods A semi R
  | .declaration, w => ∀ A semi R, Severed w A semi R → Broken .declaration declaration A semi R
  | .declarations, w => ∀ A semi R, Severed w A semi R →
    ∀ inBlock, Opened .declarations [] (declarations · inBlock) A semi R
  | _, _ => True

/-- A simple statement ends with its only semicolon. -/
theorem broken_last {o : Bool} {w A R : List Token} {semi t : Token}
    (h : Severed (w ++ [t]) A semi R) (hw : Plain w) (hunclosed : Unclosed statement w) :
    Broken (.statement o) statement A semi R := by
  obtain ⟨rfl, rfl, -⟩ := h.last hw
  exact .inl ⟨rfl, hunclosed⟩

theorem broken_statement {o : Bool} {w A R : List Token} {semi : Token} {s : Stmt Unit}
    (hw : Derives true (.statement o) w s) (h : Severed w A semi R)
    (hq : Broken (.statement o) statement A semi R) : Broken .declaration declaration A semi R := by
  have hA : A ≠ [] := h.ne_nil (starts hw) (by rw [firsts]; decide)
  -- no keyword of a declaration comes first
  have hleads {w' Y : List Token} (hw' : w = w' ++ Y) (hne : w' ≠ []) (X : List Token) :
      Leads (fun fuel => declaration (fuel + 1)) (w' ++ X) statement (w' ++ X) := by
    have hstops : Stops [.classKw, .funKw, .varKw] (w' ++ X) :=
      stops_of_begins (hw' ▸ starts hw) hne (by rw [firsts]; decide) X
    refine .accepts_none (hstops.not_is (by decide)) (.accepts_none (hstops.not_is (by decide)) ?_)
    exact .accepts_none (hstops.not_is (by decide)) .rfl
  rcases hq with ⟨hR, hq⟩ | ⟨outer, inner, rfl, hne, ⟨t, ht⟩, hq⟩
  · exact .inl ⟨hR, hq.enter [] (hleads h.eq hA)⟩
  · have hw' : w = outer ++ (inner ++ semi :: R) := by simpa using h.eq
    exact .inr ⟨outer, inner, rfl, hne, ⟨t, .statement ht⟩, hq.enter [] (hleads hw' hne)⟩

theorem cut_of_derives {n : Nonterminal} {w : List Token} {t : n.Tree} (h : Derives true n w t) :
    Cut n w := by
  induction h with
  | @expressionStatement semi w e he hsemi _ =>
    intro A semi R h
    obtain ⟨rfl, rfl, -⟩ := h.last (plain_of_derives he)
    exact ⟨rfl, unclosed_plain he⟩
  | plain _ ih =>
    intro A semi R h
    exact .inl (ih A semi R h)
  | @print keyword _ w _ hk he _ _ =>
    intro A semi R h
    refine broken_last (w := keyword :: w) h ?_ (unclosed_print hk he)
    simp [not_semicolon hk (by decide), plain_of_derives he]
  | @ret keyword _ w _ hk he _ _ =>
    intro A semi R h
    refine broken_last (w := keyword :: w) h ?_ (unclosed_return hk he)
    simp [not_semicolon hk (by decide), plain_of_derives he]
  | blockStatement _ ih =>
    intro A semi R h
    obtain ⟨lb, A', hlb, rfl, hopened⟩ := ih A semi R h
    exact .inr (hopened.bind.within (List.cons_ne_nil lb []) (leads_block hlb) fun w t ht =>
      ⟨.block t, .blockStatement ht⟩)
  | whileLoop hk hlp hu hrp _ _ ih =>
    intro A semi R h
    exact broken_while hk hlp hu hrp h (ih · semi R)
  | forLoop hk hlp hu hv hsemi hx hrp _ _ _ _ ih =>
    intro A semi R h
    exact broken_for hk hlp hu hv hsemi hx hrp h (ih · semi R)
  | ifThen hk hlp hu hrp _ _ ih =>
    intro A semi R h
    exact broken_ifThen hk hlp hu hrp h (ih · semi R)
  | ifElse hk hlp hu hrp hs hnearest hother hs' _ ih ih' =>
    intro A semi R h
    obtain rfl := hnearest rfl
    exact broken_ifElse hk hlp hu hrp hs hother hs' h (ih · semi ·) (ih' · semi R)
  | block hlb _ hrb ih =>
    intro A semi R h
    obtain ⟨A', hA, hopened⟩ := opened_block hlb hrb h fun A R h => ih A semi R h true
    exact ⟨_, A', hlb, hA, hopened⟩
  | functionEmpty hname hlp hrp _ ih =>
    intro A semi R h
    exact within_functionEmpty hname hlp hrp h (ih · semi R)
  | function hname hlp hu hlen hrp _ _ ih =>
    intro A semi R h
    exact within_function hname hlp hu hlen hrp h (ih · semi R)
  | noFunction =>
    intro A semi R h
    exact (h.not_plain plain_nil).elim
  | functions hu hw ih ih' =>
    intro A semi R h
    exact opened_functions hu hw h (ih A semi ·) (ih' · semi R)
  | @varEmpty keyword name semi hk hname hsemi =>
    intro A semi R h
    have hplain : Plain [keyword, name] := by
      simp [not_semicolon hk (by decide), not_semicolon hname (by decide)]
    obtain ⟨rfl, rfl, -⟩ := Severed.last (w := [keyword, name]) h hplain
    exact ⟨rfl, unclosed_varEmpty hk hname⟩
  | @var keyword name equals semi w e hk hname heq he hsemi _ =>
    intro A semi R h
    have hplain : Plain (keyword :: name :: equals :: w) := by
      simp [not_semicolon hk (by decide), not_semicolon hname (by decide),
        not_semicolon heq (by decide), plain_of_derives he]
    obtain ⟨rfl, rfl, -⟩ := Severed.last (w := keyword :: name :: equals :: w) h hplain
    exact ⟨rfl, unclosed_var hk hname heq he⟩
  | classDeclaration hk hname hlb _ hrb ih =>
    intro A semi R h
    exact .inr (within_class hk hname hlb hrb h (ih · semi ·))
  | functionDeclaration hk _ ih =>
    intro A semi R h
    exact .inr (within_fun hk h (ih · semi R))
  | varDeclaration _ ih =>
    intro A semi R h
    exact .inl (ih A semi R h)
  | statement hw ih =>
    intro A semi R h
    exact broken_statement hw h (ih A semi R h)
  | noDeclaration =>
    intro A semi R h
    exact (h.not_plain plain_nil).elim
  | declarations hs hss ih ih' =>
    intro A semi R h inBlock
    exact opened_declarations inBlock hs hss h (ih A semi ·) (ih' · semi R · inBlock)
  | _ => trivial

end Parse

end LoxLang
