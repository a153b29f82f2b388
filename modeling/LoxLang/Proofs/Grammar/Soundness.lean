import LoxLang.Proofs.Grammar.Rules
import Mathlib.Tactic.SplitIfs

/-!
# What is read without a mistake is derived

A parser that ends without a mistake, reported or not, has read a token sequence that the grammar
derives, and yields its tree (`expressions_sound`, `statements_sound`).  Reading is greedy: after a
statement that ends in an `if` without an `else` there is no `else`, so that every `else` that was
read belongs to the nearest `if`.
-/

namespace LoxLang

open Parse

/-! ### Parsers that end without a mistake -/

namespace Parse

variable {α β : Type} {tokens rest : List Token}

theorem bind_eq_done {p : Parser α} {f : α → Parser β} {b : β} :
    (p >>= f) tokens = .done b rest [] ↔
      ∃ a mid, p tokens = .done a mid [] ∧ f a mid = .done b rest [] := by
  rw [bind_apply]
  cases p tokens with
  | done a mid reported =>
    cases hf : f a mid with
    | done b' rest' later =>
      simp only [hf, Reply.after, Reply.done.injEq, List.append_eq_nil_iff]
      constructor
      · rintro ⟨rfl, rfl, rfl, rfl⟩
        exact ⟨a, mid, ⟨rfl, rfl, rfl⟩, by simp [hf]⟩
      · rintro ⟨a', mid', ⟨rfl, rfl, rfl⟩, hf'⟩
        rw [hf] at hf'
        injection hf' with hb hr hl
        exact ⟨hb, hr, rfl, hl⟩
    | failed e rest' later =>
      simp only [hf, Reply.after, Reply.done.injEq, reduceCtorEq, false_iff]
      rintro ⟨a', mid', ⟨rfl, rfl, -⟩, hf'⟩
      rw [hf] at hf'
      cases hf'
    | starved =>
      simp only [hf, Reply.after, Reply.done.injEq, reduceCtorEq, false_iff]
      rintro ⟨a', mid', ⟨rfl, rfl, -⟩, hf'⟩
      rw [hf] at hf'
      cases hf'
  | failed e mid reported => simp
  | starved => simp

theorem pure_eq_done {a b : α} :
    (pure a : Parser α) tokens = .done b rest [] ↔ a = b ∧ tokens = rest := by
  rw [pure_apply, Reply.done.injEq]
  simp

theorem map_eq_done {p : Parser α} {f : α → β} {b : β} :
    (f <$> p) tokens = .done b rest [] ↔ ∃ a, p tokens = .done a rest [] ∧ f a = b := by
  rw [← bind_pure_comp, bind_eq_done]
  simp only [pure_eq_done]
  constructor
  · rintro ⟨a, mid, hp, rfl, rfl⟩; exact ⟨a, hp, rfl⟩
  · rintro ⟨a, hp, rfl⟩; exact ⟨a, rest, hp, rfl, rfl⟩

theorem fail_ne_done {fault : SyntaxFault} {a : α} :
    (fail fault : Parser α) tokens ≠ .done a rest [] := nofun

theorem report_ne_done {at? : Option Token} {fault : SyntaxFault} {a : Unit} :
    report at? fault tokens ≠ .done a rest [] := nofun

theorem take?_done {f : Token → Option α} {o : Option α} (h : take? f tokens = .done o rest []) :
    (∃ t a, o = some a ∧ tokens = t :: rest ∧ f t = some a) ∨
      o = none ∧ rest = tokens ∧ ∀ t, tokens.head? = some t → f t = none := by
  cases tokens with
  | nil =>
    simp only [take?, Reply.done.injEq] at h
    obtain ⟨rfl, rfl, -⟩ := h
    exact .inr ⟨rfl, rfl, nofun⟩
  | cons t ts =>
    simp only [take?] at h
    cases hf : f t with
    | none =>
      simp only [hf, Reply.done.injEq] at h
      obtain ⟨rfl, rfl, -⟩ := h
      exact .inr ⟨rfl, rfl, by rintro t' ⟨⟩; exact hf⟩
    | some a =>
      simp only [hf, Reply.done.injEq] at h
      obtain ⟨rfl, rfl, -⟩ := h
      exact .inl ⟨t, a, rfl, rfl, hf⟩

theorem acceptAny_done {symbols : List Symbol} {o : Option Token}
    (h : acceptAny symbols tokens = .done o rest []) :
    (∃ t, o = some t ∧ tokens = t :: rest ∧ symbols.any t.is = true) ∨
      o = none ∧ rest = tokens ∧ ∀ t, tokens.head? = some t → symbols.any t.is = false := by
  rcases take?_done h with ⟨t, a, rfl, ht, hf⟩ | ⟨ho, hr, hf⟩
  · split_ifs at hf with hs
    obtain rfl := Option.some.inj hf
    exact .inl ⟨t, rfl, ht, hs⟩
  · refine .inr ⟨ho, hr, fun t ht => ?_⟩
    have := hf t ht
    split_ifs at this with hs
    exact Bool.eq_false_iff.2 hs

theorem accept_done {s : Symbol} {o : Option Token} (h : accept s tokens = .done o rest []) :
    (∃ t, o = some t ∧ tokens = t :: rest ∧ t.is s = true) ∨
      o = none ∧ rest = tokens ∧ ∀ t, tokens.head? = some t → t.is s = false := by
  simpa only [List.any_cons, List.any_nil, Bool.or_false] using acceptAny_done h

theorem accepts_done {s : Symbol} {b : Bool} (h : accepts s tokens = .done b rest []) :
    (∃ t, b = true ∧ tokens = t :: rest ∧ t.is s = true) ∨
      b = false ∧ rest = tokens ∧ ∀ t, tokens.head? = some t → t.is s = false := by
  simp only [accepts, bind_eq_done, pure_eq_done] at h
  obtain ⟨o, mid, ho, rfl, rfl⟩ := h
  rcases accept_done ho with ⟨t, rfl, ht, hs⟩ | ⟨rfl, hr, hs⟩
  · exact .inl ⟨t, rfl, ht, hs⟩
  · exact .inr ⟨rfl, hr, hs⟩

theorem expect_done {s : Symbol} {what : Expectation} {t : Token}
    (h : expect s what tokens = .done t rest []) : tokens = t :: rest ∧ t.is s = true := by
  simp only [expect, bind_eq_done] at h
  obtain ⟨o, mid, ho, h⟩ := h
  rcases accept_done ho with ⟨t', rfl, ht, hs⟩ | ⟨rfl, -, -⟩
  · obtain ⟨rfl, rfl⟩ := pure_eq_done.1 h
    exact ⟨ht, hs⟩
  · exact absurd h fail_ne_done

theorem skip_done {s : Symbol} {what : Expectation} {a : Unit}
    (h : skip s what tokens = .done a rest []) : ∃ t, tokens = t :: rest ∧ t.is s = true := by
  simp only [skip, bind_eq_done, pure_eq_done] at h
  obtain ⟨t, mid, ht, -, rfl⟩ := h
  exact ⟨t, expect_done ht⟩

theorem sees_done {s : Symbol} {b : Bool} (h : sees s tokens = .done b rest []) :
    rest = tokens ∧ b = tokens.head?.any (·.is s) := by
  change Reply.done _ _ _ = _ at h
  injection h with hb hr
  exact ⟨hr.symm, hb.symm⟩

theorem recover_done {p : Parser α} {o : Option α} (h : recover p tokens = .done o rest []) :
    ∃ a, o = some a ∧ p tokens = .done a rest [] := by
  unfold recover at h
  cases hp : p tokens with
  | done a mid reported =>
    rw [hp] at h
    injection h with ho hr hl
    exact ⟨a, ho.symm, by rw [hr, hl]⟩
  | failed e mid reported => rw [hp] at h; simp at h
  | starved => rw [hp] at h; cases h

theorem assignTo_done {target value e : Expr Unit} {equals : Token}
    (h : assignTo target equals value tokens = .done e rest []) :
    rest = tokens ∧ ((∃ name, target = .var () name ∧ e = .assign () name value) ∨
      ∃ object name, target = .get object name ∧ e = .set object name value) := by
  cases target with
  | var label name =>
    obtain ⟨rfl, rfl⟩ := pure_eq_done.1 h
    exact ⟨rfl, .inl ⟨name, rfl, rfl⟩⟩
  | get object name =>
    obtain ⟨rfl, rfl⟩ := pure_eq_done.1 h
    exact ⟨rfl, .inr ⟨object, name, rfl, rfl⟩⟩
  | _ =>
    obtain ⟨a, mid, ha, -⟩ := bind_eq_done.1 h
    exact absurd ha report_ne_done

end Parse

namespace Grammar

variable {nearest : Bool}

/-! ### Assignment targets -/

/-- A variable or a property among the expressions of a level has been derived as a call. -/
def TargetIsCall (nearest : Bool) : (n : Nonterminal) → List Token → n.Tree → Prop
  | .level _, w, .var () name => Derives nearest .call w (.var () name)
  | .level _, w, .get object name => Derives nearest .call w (.get object name)
  | _, _, _ => True

theorem targetIsCall {n : Nonterminal} {w : List Token} {t : n.Tree} (h : Derives nearest n w t) :
    TargetIsCall nearest n w t := by
  induction h with
  | @operand l w e h ih => cases e <;> exact ih
  | @operator l op u w left right h hop h' ih ih' => cases l <;> exact True.intro
  | @unsigned w e h ih => cases e <;> first | exact h | trivial
  | _ => trivial

theorem call_of_level_var {l? : Option Level} {w : List Token} {name : Token}
    (h : Derives nearest (.level l?) w (.var () name)) : w = [name] ∧ name.is .identifier = true := by
  have hcall : Derives nearest .call w (.var () name) := targetIsCall h
  cases hcall with
  | callee hprimary =>
    cases hprimary with
    | name hname => exact ⟨rfl, hname⟩

theorem call_of_level_get {l? : Option Level} {w : List Token} {object : Expr Unit} {name : Token}
    (h : Derives nearest (.level l?) w (.get object name)) :
    ∃ u dot, w = u ++ [dot, name] ∧ Derives nearest .call u object ∧ dot.is .dot = true ∧
      name.is .identifier = true := by
  have hcall : Derives nearest .call w (.get object name) := targetIsCall h
  cases hcall with
  | callee hprimary => cases hprimary
  | property hobject hdot hname => exact ⟨_, _, rfl, hobject, hdot, hname⟩

/-! ### Expressions -/

theorem operators_eq (l : Level) : l.operators = (levelRule l).2 := by cases l <;> rfl

theorem operands_eq (l : Level) : l.operands = (levelRule l).1 := by cases l <;> rfl

theorem node_eq (l : Level) : l.node = levelTree l := by
  funext left op right; cases l <;> rfl

theorem Derives.atom {t : Token} {e : Expr Unit} (h : atom? t = some e) :
    Derives nearest .primary [t] e := by
  unfold atom? at h
  have his : ∀ s, t.kind = .symbol s → t.is s = true := fun s hs => by
    rw [Token.is, hs]; exact beq_self_eq_true s
  split at h
  case h_1 x hk => cases h; exact .number hk
  case h_2 s hk => cases h; exact .string hk
  case h_3 hk => cases h; exact .falseLiteral (his _ hk)
  case h_4 hk => cases h; exact .trueLiteral (his _ hk)
  case h_5 hk => cases h; exact .nilLiteral (his _ hk)
  case h_6 hk => cases h; exact .this (his _ hk)
  case h_7 hk => cases h; exact .name (his _ hk)
  case h_8 => cases h

/-- Whatever `p` reads without a mistake is derived from `n`. -/
def Reads (n : Nonterminal) (p : Parser n.Tree) : Prop :=
  ∀ {tokens t rest}, p tokens = .done t rest [] →
    ∃ w, tokens = w ++ rest ∧ Derives true n w t

/-- What the parsers of expressions read without a mistake is derived. -/
structure ExpressionsSound (fuel : Nat) : Prop where
  expression : Reads .expression (Parse.expression fuel)
  operand : ∀ l?, Reads (.level l?) (Parse.operand fuel l?)
  operandRest : ∀ {l left u tokens e rest}, Derives true (.level (some l)) u left →
    Parse.operandRest fuel l left tokens = .done e rest [] →
    ∃ w, tokens = w ++ rest ∧ Derives true (.level (some l)) (u ++ w) e
  unary : Reads (.level none) (Parse.unary fuel)
  callRest : ∀ {callee u tokens e rest}, Derives true .call u callee →
    Parse.callRest fuel callee tokens = .done e rest [] →
    ∃ w, tokens = w ++ rest ∧ Derives true .call (u ++ w) e
  arguments : ∀ {count tokens args rest},
    Parse.arguments fuel count tokens = .done args rest [] →
    ∃ w, tokens = w ++ rest ∧ Derives true .arguments w args ∧ count + args.length ≤ 255
  primary : Reads .primary (Parse.primary fuel)

theorem expression_sound {fuel : Nat} (ih : ExpressionsSound fuel) :
    Reads .expression (expression (fuel + 1)) := by
  intro tokens e rest h
  simp only [expression, bind_eq_done] at h
  obtain ⟨target, mid, htarget, equals?, mid', hequals, h⟩ := h
  obtain ⟨u, rfl, hu⟩ := ih.operand _ htarget
  rcases accept_done hequals with ⟨equals, rfl, rfl, heq⟩ | ⟨rfl, rfl, -⟩
  · obtain ⟨value, mid, hvalue, hassign⟩ := bind_eq_done.1 h
    obtain ⟨w, rfl, hw⟩ := ih.expression hvalue
    obtain ⟨rfl, ⟨name, rfl, rfl⟩ | ⟨object, name, rfl, rfl⟩⟩ := assignTo_done hassign
    · obtain ⟨rfl, hname⟩ := call_of_level_var hu
      exact ⟨name :: equals :: w, by simp, .assignName hname heq hw⟩
    · obtain ⟨u, dot, rfl, hobject, hdot, hname⟩ := call_of_level_get hu
      exact ⟨u ++ dot :: name :: equals :: w, by simp, .assignField hobject hdot hname heq hw⟩
  · obtain ⟨rfl, rfl⟩ := pure_eq_done.1 h
    exact ⟨u, rfl, .loosest hu⟩

theorem operandRest_sound {fuel : Nat} (ih : ExpressionsSound fuel) {l : Level}
    {left e : Expr Unit} {u tokens rest : List Token} (hleft : Derives true (.level (some l)) u left)
    (h : operandRest (fuel + 1) l left tokens = .done e rest []) :
    ∃ w, tokens = w ++ rest ∧ Derives true (.level (some l)) (u ++ w) e := by
  simp only [operandRest, bind_eq_done] at h
  obtain ⟨op?, mid, haccept, h⟩ := h
  rcases acceptAny_done haccept with ⟨op, rfl, rfl, hop⟩ | ⟨rfl, rfl, -⟩
  · obtain ⟨right, mid', hright, hrest⟩ := bind_eq_done.1 h
    obtain ⟨w, rfl, hw⟩ := ih.operand _ hright
    rw [operators_eq] at hop
    rw [operands_eq] at hw
    rw [node_eq] at hrest
    obtain ⟨w', rfl, hw'⟩ := ih.operandRest (.operator hleft hop hw) hrest
    exact ⟨op :: (w ++ w'), by simp, by simpa using hw'⟩
  · obtain ⟨rfl, rfl⟩ := pure_eq_done.1 h
    exact ⟨[], rfl, by simpa using hleft⟩

theorem unary_sound {fuel : Nat} (ih : ExpressionsSound fuel) :
    Reads (.level none) (unary (fuel + 1)) := by
  intro tokens e rest h
  simp only [unary, bind_eq_done] at h
  obtain ⟨op?, mid, haccept, h⟩ := h
  rcases acceptAny_done haccept with ⟨op, rfl, rfl, hop⟩ | ⟨rfl, rfl, -⟩
  · obtain ⟨operand, mid', hoperand, hpure⟩ := bind_eq_done.1 h
    obtain ⟨rfl, rfl⟩ := pure_eq_done.1 hpure
    obtain ⟨w, rfl, hw⟩ := ih.unary hoperand
    simp only [List.any_cons, List.any_nil, Bool.or_false, Bool.or_eq_true] at hop
    exact ⟨op :: w, rfl, .signed hop hw⟩
  · obtain ⟨callee, mid', hcallee, hrest⟩ := bind_eq_done.1 h
    obtain ⟨u, rfl, hu⟩ := ih.primary hcallee
    obtain ⟨w, rfl, hw⟩ := ih.callRest (.callee hu) hrest
    exact ⟨u ++ w, by simp, .unsigned hw⟩

theorem callRest_sound {fuel : Nat} (ih : ExpressionsSound fuel) {callee e : Expr Unit}
    {u tokens rest : List Token} (hcallee : Derives true .call u callee)
    (h : callRest (fuel + 1) callee tokens = .done e rest []) :
    ∃ w, tokens = w ++ rest ∧ Derives true .call (u ++ w) e := by
  simp only [callRest, bind_eq_done] at h
  obtain ⟨open?, mid, hopen, h⟩ := h
  rcases accepts_done hopen with ⟨lp, rfl, rfl, hlp⟩ | ⟨rfl, rfl, -⟩
  · simp only [if_true, bind_eq_done] at h
    obtain ⟨empty?, mid', hempty, h⟩ := h
    obtain ⟨rfl, rfl⟩ := sees_done hempty
    split at h
    · simp only [bind_eq_done, pure_eq_done] at h
      obtain ⟨args, mid', ⟨rfl, rfl⟩, paren, mid, hparen, h⟩ := h
      obtain ⟨rfl, hrp⟩ := expect_done hparen
      obtain ⟨w, rfl, hw⟩ := ih.callRest (.callEmpty hcallee hlp hrp) h
      exact ⟨lp :: paren :: w, rfl, by simpa using hw⟩
    · simp only [bind_eq_done] at h
      obtain ⟨args, mid', hargs, paren, mid'', hparen, h⟩ := h
      obtain ⟨v, rfl, hv, hlen⟩ := ih.arguments hargs
      obtain ⟨rfl, hrp⟩ := expect_done hparen
      obtain ⟨w, rfl, hw⟩ := ih.callRest (.call hcallee hlp hv (by omega) hrp) h
      exact ⟨lp :: (v ++ paren :: w), by simp, by simpa using hw⟩
  · simp only [Bool.false_eq_true, if_false, bind_eq_done] at h
    obtain ⟨dot?, mid, haccept, h⟩ := h
    rcases accepts_done haccept with ⟨dot, rfl, rfl, hdot⟩ | ⟨rfl, rfl, -⟩
    · simp only [if_true, bind_eq_done] at h
      obtain ⟨name, mid', hexpect, h⟩ := h
      obtain ⟨rfl, hname⟩ := expect_done hexpect
      obtain ⟨w, rfl, hw⟩ := ih.callRest (.property hcallee hdot hname) h
      exact ⟨dot :: name :: w, rfl, by simpa using hw⟩
    · obtain ⟨rfl, rfl⟩ := pure_eq_done.1 h
      exact ⟨[], rfl, by simpa using hcallee⟩

theorem arguments_sound {fuel count : Nat} (ih : ExpressionsSound fuel)
    {args : List (Expr Unit)} {tokens rest : List Token}
    (h : arguments (fuel + 1) count tokens = .done args rest []) :
    ∃ w, tokens = w ++ rest ∧ Derives true .arguments w args ∧ count + args.length ≤ 255 := by
  rw [arguments] at h
  split at h
  · -- one argument too many is reported
    simp only [bind_eq_done] at h
    obtain ⟨_, _, -, _, _, hreport, -⟩ := h
    exact absurd hreport report_ne_done
  · rename_i hcount
    rw [maxArity] at hcount
    simp only [bind_eq_done] at h
    obtain ⟨arg, mid, harg, more?, mid', hmore, h⟩ := h
    obtain ⟨u, rfl, hu⟩ := ih.expression harg
    rcases accepts_done hmore with ⟨comma, rfl, rfl, hcomma⟩ | ⟨rfl, rfl, -⟩
    · simp only [if_true, bind_eq_done, pure_eq_done] at h
      obtain ⟨args, mid', hargs, rfl, rfl⟩ := h
      obtain ⟨w, rfl, hw, hlen⟩ := ih.arguments hargs
      exact ⟨u ++ comma :: w, by simp, .argument hu hcomma hw, by simp only [List.length_cons]; omega⟩
    · simp only [Bool.false_eq_true, if_false, pure_eq_done] at h
      obtain ⟨rfl, rfl⟩ := h
      exact ⟨u, rfl, .lastArgument hu, by simp only [List.length_singleton]; omega⟩

theorem primary_sound {fuel : Nat} (ih : ExpressionsSound fuel) :
    Reads .primary (primary (fuel + 1)) := by
  intro tokens e rest h
  rw [primary] at h
  obtain ⟨atom, mid, htake, hatom⟩ := bind_eq_done.1 h
  rcases take?_done htake with ⟨t, e', rfl, rfl, ht⟩ | ⟨rfl, rfl, -⟩
  · obtain ⟨rfl, rfl⟩ := pure_eq_done.1 hatom
    exact ⟨[t], rfl, .atom ht⟩
  · obtain ⟨open?, mid', hopen, hrest⟩ := bind_eq_done.1 hatom
    rcases accepts_done hopen with ⟨lp, rfl, rfl, hlp⟩ | ⟨rfl, rfl, -⟩
    · simp only [if_true, bind_eq_done, pure_eq_done] at hrest
      obtain ⟨inner, mid, hinner, _, mid'', hclose, rfl, rfl⟩ := hrest
      obtain ⟨w, rfl, hw⟩ := ih.expression hinner
      obtain ⟨rp, rfl, hrp⟩ := skip_done hclose
      exact ⟨lp :: (w ++ [rp]), by simp, .group hlp hw hrp⟩
    · exact absurd hrest fail_ne_done

theorem expressions_sound (fuel : Nat) : ExpressionsSound fuel := by
  induction fuel with
  | zero =>
    exact ⟨nofun, fun _ => nofun, fun _ => nofun, nofun, fun _ => nofun, nofun, nofun⟩
  | succ fuel ih =>
    constructor
    case expression => exact expression_sound ih
    case operand =>
      intro l? tokens e rest h
      cases l? with
      | none => exact ih.unary h
      | some l =>
        simp only [Parse.operand, bind_eq_done] at h
        obtain ⟨left, mid, hleft, h⟩ := h
        obtain ⟨u, rfl, hu⟩ := ih.operand _ hleft
        rw [operands_eq] at hu
        obtain ⟨w, rfl, hw⟩ := ih.operandRest (.operand hu) h
        exact ⟨u ++ w, by simp, hw⟩
    case operandRest => exact operandRest_sound ih
    case unary => exact unary_sound ih
    case callRest => exact callRest_sound ih
    case arguments => exact arguments_sound ih
    case primary => exact primary_sound ih

/-! ### Parts of statements -/

theorem parameters_sound {fuel count : Nat} {params tokens rest : List Token}
    (h : Parse.parameters fuel count tokens = .done params rest []) :
    ∃ w, tokens = w ++ rest ∧ Derives true .parameters w params ∧ count + params.length ≤ 255 := by
  induction fuel generalizing count params tokens with
  | zero => cases h
  | succ fuel ih =>
    rw [Parse.parameters] at h
    split at h
    · simp only [bind_eq_done] at h
      obtain ⟨_, _, -, _, _, hreport, -⟩ := h
      exact absurd hreport report_ne_done
    · rename_i hcount
      rw [maxArity] at hcount
      simp only [bind_eq_done] at h
      obtain ⟨name, mid, hexpect, comma?, mid', haccept, hmore⟩ := h
      obtain ⟨rfl, hname⟩ := expect_done hexpect
      rcases accept_done haccept with ⟨comma, rfl, rfl, hcomma⟩ | ⟨rfl, rfl, -⟩
      · obtain ⟨params', mid, hparams, hpure⟩ := bind_eq_done.1 hmore
        obtain ⟨rfl, rfl⟩ := pure_eq_done.1 hpure
        obtain ⟨w, rfl, hw, hlen⟩ := ih hparams
        exact ⟨name :: comma :: w, rfl, .parameter hname hcomma hw, by
          simp only [List.length_cons]; omega⟩
      · obtain ⟨rfl, rfl⟩ := pure_eq_done.1 hmore
        exact ⟨[name], rfl, .lastParameter hname, by simp only [List.length_singleton]; omega⟩

theorem varDeclaration_sound {fuel : Nat} {keyword : Token} {s : Stmt Unit}
    {tokens rest : List Token} (hkeyword : keyword.is .varKw)
    (h : Parse.varDeclaration fuel tokens = .done s rest []) :
    ∃ w, tokens = w ++ rest ∧ Derives true .varDeclaration (keyword :: w) s := by
  simp only [Parse.varDeclaration, bind_eq_done] at h
  obtain ⟨name, mid, hexpect, equals?, mid', haccept, hvalue?⟩ := h
  obtain ⟨rfl, hname⟩ := expect_done hexpect
  rcases accepts_done haccept with ⟨equals, rfl, rfl, heq⟩ | ⟨rfl, rfl, -⟩
  · simp only [if_true, map_eq_done, bind_eq_done, pure_eq_done] at hvalue?
    obtain ⟨_, _, ⟨value, hvalue, rfl⟩, _, _, hskip, rfl, rfl⟩ := hvalue?
    obtain ⟨w, rfl, hw⟩ := (expressions_sound fuel).expression hvalue
    obtain ⟨semi, rfl, hsemi⟩ := skip_done hskip
    exact ⟨name :: equals :: (w ++ [semi]), by simp, .var hkeyword hname heq hw hsemi⟩
  · simp only [Bool.false_eq_true, if_false, bind_eq_done, pure_eq_done] at hvalue?
    obtain ⟨_, _, ⟨rfl, rfl⟩, _, _, hskip, rfl, rfl⟩ := hvalue?
    obtain ⟨semi, rfl, hsemi⟩ := skip_done hskip
    exact ⟨[name, semi], rfl, .varEmpty hkeyword hname hsemi⟩

theorem expressionStatement_sound (fuel : Nat) :
    Reads .expressionStatement (Parse.expressionStatement fuel) := by
  intro tokens s rest h
  simp only [Parse.expressionStatement, bind_eq_done, pure_eq_done] at h
  obtain ⟨e, mid, he, _, _, hskip, rfl, rfl⟩ := h
  obtain ⟨w, rfl, hw⟩ := (expressions_sound fuel).expression he
  obtain ⟨semi, rfl, hsemi⟩ := skip_done hskip
  exact ⟨w ++ [semi], by simp, .expressionStatement hw hsemi⟩

theorem forInitializer_sound (fuel : Nat) : Reads .initializer (forInitializer fuel) := by
  intro tokens initializer? rest h
  rw [forInitializer] at h
  obtain ⟨semi?, mid, hsemi, hclause⟩ := bind_eq_done.1 h
  rcases accepts_done hsemi with ⟨semi, rfl, rfl, hs⟩ | ⟨rfl, rfl, -⟩
  · obtain ⟨rfl, rfl⟩ := pure_eq_done.1 hclause
    exact ⟨[semi], rfl, .noInitializer hs⟩
  · obtain ⟨var?, mid', hvar, hrest⟩ := bind_eq_done.1 hclause
    rcases accepts_done hvar with ⟨keyword, rfl, rfl, hk⟩ | ⟨rfl, rfl, -⟩
    · obtain ⟨s, hs, rfl⟩ := map_eq_done.1 hrest
      obtain ⟨w, rfl, hw⟩ := varDeclaration_sound hk hs
      exact ⟨keyword :: w, rfl, .varInitializer hw⟩
    · obtain ⟨s, hs, rfl⟩ := map_eq_done.1 hrest
      obtain ⟨w, rfl, hw⟩ := expressionStatement_sound fuel hs
      exact ⟨w, rfl, .expressionInitializer hw⟩

theorem expressionBefore_sound (fuel : Nat) (s : Symbol) :
    Reads .clause (expressionBefore fuel s) := by
  intro tokens e? rest h
  rw [expressionBefore] at h
  obtain ⟨missing?, mid, hsees, hclause⟩ := bind_eq_done.1 h
  obtain ⟨rfl, rfl⟩ := sees_done hsees
  split at hclause
  · obtain ⟨rfl, rfl⟩ := pure_eq_done.1 hclause
    exact ⟨[], rfl, .noClause⟩
  · obtain ⟨e, he, rfl⟩ := map_eq_done.1 hclause
    obtain ⟨w, rfl, hw⟩ := (expressions_sound fuel).expression he
    exact ⟨w, rfl, .clause hw⟩

/-! ### Statements -/

theorem loopTree_eq (initializer? : Option (Stmt Unit)) (condition? increment? : Option (Expr Unit))
    (body : Stmt Unit) :
    loopTree condition? body initializer? increment? =
      .forLoop initializer? condition? increment? body := by
  cases initializer? <;> cases increment? <;> rfl

/-- What the parsers of declarations read without a mistake is derived.  A statement is read as far
as it goes: what ends in an `if` without an `else` is not followed by one. -/
structure StatementsSound (fuel : Nat) : Prop where
  declarations : ∀ {inBlock tokens body rest},
    Parse.declarations fuel inBlock tokens = .done body rest [] →
    ∃ w, tokens = w ++ rest ∧ Derives true .declarations w body ∧ (inBlock = false → rest = [])
  declaration : Reads .declaration (Parse.declaration fuel)
  methods : Reads .functions (Parse.methods fuel)
  function : ∀ kind, Reads .function (Parse.function fuel kind)
  block : ∀ {lb tokens body rest}, lb.is .leftBrace →
    Parse.block fuel tokens = .done body rest [] →
    ∃ w, tokens = w ++ rest ∧ Derives true .block (lb :: w) body
  statement : ∀ {tokens s rest}, Parse.statement fuel tokens = .done s rest [] →
    ∃ w o, tokens = w ++ rest ∧ Derives true (.statement o) w s ∧
      (o = true → ∀ t, rest.head? = some t → t.is .elseKw = false)

theorem declarations_sound {fuel : Nat} (ih : StatementsSound fuel) {inBlock : Bool}
    {tokens rest : List Token} {body : List (Stmt Unit)}
    (h : Parse.declarations (fuel + 1) inBlock tokens = .done body rest []) :
    ∃ w, tokens = w ++ rest ∧ Derives true .declarations w body ∧ (inBlock = false → rest = []) := by
  rw [Parse.declarations] at h
  obtain ⟨close?, mid, hclose, hbody⟩ := bind_eq_done.1 h
  obtain ⟨rfl, hend⟩ : mid = tokens ∧ (close? = true → inBlock = false → tokens = []) := by
    cases inBlock with
    | false =>
      change Reply.done _ _ _ = _ at hclose
      injection hclose with hc hm
      subst hc
      exact ⟨hm.symm, fun h _ => by simpa using h⟩
    | true =>
      change Reply.done _ _ _ = _ at hclose
      injection hclose with hc hm
      exact ⟨hm.symm, nofun⟩
  split at hbody
  · rename_i hclosed
    obtain ⟨rfl, rfl⟩ := pure_eq_done.1 hbody
    exact ⟨[], rfl, .noDeclaration, hend hclosed⟩
  · simp only [bind_eq_done, pure_eq_done] at hbody
    obtain ⟨first?, mid', hrecover, rest', _, hrest, rfl, rfl⟩ := hbody
    obtain ⟨first, rfl, hfirst⟩ := recover_done hrecover
    obtain ⟨u, rfl, hu⟩ := ih.declaration hfirst
    obtain ⟨w, rfl, hw, hend⟩ := ih.declarations hrest
    exact ⟨u ++ w, by simp, .declarations hu hw, hend⟩

theorem methods_sound {fuel : Nat} (ih : StatementsSound fuel) :
    Reads .functions (Parse.methods (fuel + 1)) := by
  intro tokens fs rest h
  rw [Parse.methods] at h
  obtain ⟨close?, mid, hclose, hmethods⟩ := bind_eq_done.1 h
  obtain rfl : mid = tokens := by
    change Reply.done _ _ _ = _ at hclose
    injection hclose with hc hm
    exact hm.symm
  split at hmethods
  · obtain ⟨rfl, rfl⟩ := pure_eq_done.1 hmethods
    exact ⟨[], rfl, .noFunction⟩
  · simp only [bind_eq_done, pure_eq_done] at hmethods
    obtain ⟨first, mid', hfirst, rest', _, hrest, rfl, rfl⟩ := hmethods
    obtain ⟨u, rfl, hu⟩ := ih.function _ hfirst
    obtain ⟨w, rfl, hw⟩ := ih.methods hrest
    exact ⟨u ++ w, by simp, .functions hu hw⟩

theorem function_sound {fuel : Nat} (ih : StatementsSound fuel) (kind : FunctionKind) :
    Reads .function (Parse.function (fuel + 1) kind) := by
  intro tokens decl rest h
  simp only [Parse.function, bind_eq_done] at h
  obtain ⟨name, _, hexpect, _, _, hopen, empty?, mid, hsees, hparams⟩ := h
  obtain ⟨rfl, hname⟩ := expect_done hexpect
  obtain ⟨lp, rfl, hlp⟩ := skip_done hopen
  obtain ⟨rfl, rfl⟩ := sees_done hsees
  split at hparams
  · simp only [bind_eq_done, pure_eq_done] at hparams
    obtain ⟨params, _, ⟨rfl, rfl⟩, _, _, hclose, _, _, hbrace, body, _, hbody, rfl, rfl⟩ := hparams
    obtain ⟨rp, rfl, hrp⟩ := skip_done hclose
    obtain ⟨lb, rfl, hlb⟩ := skip_done hbrace
    obtain ⟨w, rfl, hw⟩ := ih.block hlb hbody
    exact ⟨name :: lp :: rp :: lb :: w, rfl, .functionEmpty hname hlp hrp hw⟩
  · simp only [bind_eq_done, pure_eq_done] at hparams
    obtain ⟨params, _, hlist, _, _, hclose, _, _, hbrace, body, _, hbody, rfl, rfl⟩ := hparams
    obtain ⟨u, rfl, hu, hlen⟩ := parameters_sound hlist
    obtain ⟨rp, rfl, hrp⟩ := skip_done hclose
    obtain ⟨lb, rfl, hlb⟩ := skip_done hbrace
    obtain ⟨w, rfl, hw⟩ := ih.block hlb hbody
    exact ⟨name :: lp :: (u ++ rp :: lb :: w), by simp,
      .function hname hlp hu (by omega) hrp hw⟩

theorem block_sound {fuel : Nat} (ih : StatementsSound fuel) {lb : Token}
    {tokens rest : List Token} {body : List (Stmt Unit)} (hlb : lb.is .leftBrace)
    (h : Parse.block (fuel + 1) tokens = .done body rest []) :
    ∃ w, tokens = w ++ rest ∧ Derives true .block (lb :: w) body := by
  simp only [Parse.block, bind_eq_done, pure_eq_done] at h
  obtain ⟨body, _, hbody, _, _, hclose, rfl, rfl⟩ := h
  obtain ⟨w, rfl, hw, -⟩ := ih.declarations hbody
  obtain ⟨rb, rfl, hrb⟩ := skip_done hclose
  exact ⟨w ++ [rb], by simp, .block hlb hw hrb⟩

theorem declaration_sound {fuel : Nat} (ih : StatementsSound fuel) :
    Reads .declaration (Parse.declaration (fuel + 1)) := by
  intro tokens s rest h
  rw [Parse.declaration] at h
  obtain ⟨class?, mid, hclass, h₁⟩ := bind_eq_done.1 h
  rcases accepts_done hclass with ⟨keyword, rfl, rfl, hk⟩ | ⟨rfl, rfl, -⟩
  · simp only [if_true, bind_eq_done, pure_eq_done] at h₁
    obtain ⟨name, _, hexpect, _, _, hopen, fs, _, hfs, _, _, hclose, rfl, rfl⟩ := h₁
    obtain ⟨rfl, hname⟩ := expect_done hexpect
    obtain ⟨lb, rfl, hlb⟩ := skip_done hopen
    obtain ⟨w, rfl, hw⟩ := ih.methods hfs
    obtain ⟨rb, rfl, hrb⟩ := skip_done hclose
    exact ⟨keyword :: name :: lb :: (w ++ [rb]), by simp, .classDeclaration hk hname hlb hw hrb⟩
  obtain ⟨fun?, mid', hfun, h₂⟩ := bind_eq_done.1 h₁
  rcases accepts_done hfun with ⟨keyword, rfl, rfl, hk⟩ | ⟨rfl, rfl, -⟩
  · simp only [if_true, bind_eq_done, pure_eq_done] at h₂
    obtain ⟨decl, _, hdecl, rfl, rfl⟩ := h₂
    obtain ⟨w, rfl, hw⟩ := ih.function _ hdecl
    exact ⟨keyword :: w, rfl, .functionDeclaration hk hw⟩
  obtain ⟨var?, mid, hvar, h₃⟩ := bind_eq_done.1 h₂
  rcases accepts_done hvar with ⟨keyword, rfl, rfl, hk⟩ | ⟨rfl, rfl, -⟩
  · obtain ⟨w, rfl, hw⟩ := varDeclaration_sound hk h₃
    exact ⟨keyword :: w, rfl, .varDeclaration hw⟩
  · obtain ⟨w, o, rfl, hw, -⟩ := ih.statement h₃
    exact ⟨w, rfl, .statement hw⟩

theorem statement_sound {fuel : Nat} (ih : StatementsSound fuel) {tokens rest : List Token}
    {s : Stmt Unit} (h : Parse.statement (fuel + 1) tokens = .done s rest []) :
    ∃ w o, tokens = w ++ rest ∧ Derives true (.statement o) w s ∧
      (o = true → ∀ t, rest.head? = some t → t.is .elseKw = false) := by
  rw [Parse.statement] at h
  obtain ⟨for?, mid, hfor, h₁⟩ := bind_eq_done.1 h
  rcases accepts_done hfor with ⟨keyword, rfl, rfl, hk⟩ | ⟨rfl, rfl, -⟩
  · simp only [if_true, bind_eq_done, pure_eq_done] at h₁
    obtain ⟨_, _, hopen, initializer?, _, hinitializer, condition?, _, hcondition, _, _, hsemi,
      increment?, _, hincrement, _, _, hclose, body, _, hbody, rfl, rfl⟩ := h₁
    obtain ⟨lp, rfl, hlp⟩ := skip_done hopen
    obtain ⟨u, rfl, hu⟩ := forInitializer_sound fuel hinitializer
    obtain ⟨v, rfl, hv⟩ := expressionBefore_sound fuel _ hcondition
    obtain ⟨semi, rfl, hs⟩ := skip_done hsemi
    obtain ⟨x, rfl, hx⟩ := expressionBefore_sound fuel _ hincrement
    obtain ⟨rp, rfl, hrp⟩ := skip_done hclose
    obtain ⟨w, o, rfl, hw, hend⟩ := ih.statement hbody
    exact ⟨keyword :: lp :: (u ++ (v ++ semi :: (x ++ rp :: w))), o, by simp,
      loopTree_eq .. ▸ .forLoop hk hlp hu hv hs hx hrp hw, hend⟩
  obtain ⟨if?, mid', hif, h₂⟩ := bind_eq_done.1 h₁
  rcases accepts_done hif with ⟨keyword, rfl, rfl, hk⟩ | ⟨rfl, rfl, -⟩
  · simp only [if_true, bind_eq_done] at h₂
    obtain ⟨_, _, hopen, condition, _, hcondition, _, _, hclose, s, _, hthen, else?, mid, helse,
      hbranch⟩ := h₂
    obtain ⟨lp, rfl, hlp⟩ := skip_done hopen
    obtain ⟨u, rfl, hu⟩ := (expressions_sound fuel).expression hcondition
    obtain ⟨rp, rfl, hrp⟩ := skip_done hclose
    obtain ⟨w, o, rfl, hw, hend⟩ := ih.statement hthen
    rcases accepts_done helse with ⟨other, rfl, rfl, ho⟩ | ⟨rfl, rfl, hno⟩
    · simp only [if_true, bind_eq_done, pure_eq_done] at hbranch
      obtain ⟨s', _, hother, rfl, rfl⟩ := hbranch
      obtain ⟨w', o', rfl, hw', hend'⟩ := ih.statement hother
      -- the `else` has been read here because the branch before it could not take it
      have hnearest : true = true → o = false := fun _ =>
        Bool.eq_false_iff.2 fun hopen => by simpa [ho] using hend hopen other rfl
      exact ⟨keyword :: lp :: (u ++ rp :: (w ++ other :: w')), o', by simp,
        .ifElse hk hlp hu hrp hw hnearest ho hw', hend'⟩
    · obtain ⟨rfl, rfl⟩ := pure_eq_done.1 hbranch
      exact ⟨keyword :: lp :: (u ++ rp :: w), true, by simp, .ifThen hk hlp hu hrp hw, fun _ => hno⟩
  obtain ⟨print?, mid, hprint, h₃⟩ := bind_eq_done.1 h₂
  rcases accepts_done hprint with ⟨keyword, rfl, rfl, hk⟩ | ⟨rfl, rfl, -⟩
  · simp only [if_true, bind_eq_done, pure_eq_done] at h₃
    obtain ⟨e, _, he, _, _, hsemi, rfl, rfl⟩ := h₃
    obtain ⟨w, rfl, hw⟩ := (expressions_sound fuel).expression he
    obtain ⟨semi, rfl, hs⟩ := skip_done hsemi
    exact ⟨keyword :: (w ++ [semi]), false, by simp, .print hk hw hs, nofun⟩
  obtain ⟨while?, mid', hwhile, h₄⟩ := bind_eq_done.1 h₃
  rcases accepts_done hwhile with ⟨keyword, rfl, rfl, hk⟩ | ⟨rfl, rfl, -⟩
  · simp only [if_true, bind_eq_done, pure_eq_done] at h₄
    obtain ⟨_, _, hopen, condition, _, hcondition, _, _, hclose, body, _, hbody, rfl, rfl⟩ := h₄
    obtain ⟨lp, rfl, hlp⟩ := skip_done hopen
    obtain ⟨u, rfl, hu⟩ := (expressions_sound fuel).expression hcondition
    obtain ⟨rp, rfl, hrp⟩ := skip_done hclose
    obtain ⟨w, o, rfl, hw, hend⟩ := ih.statement hbody
    exact ⟨keyword :: lp :: (u ++ rp :: w), o, by simp, .whileLoop hk hlp hu hrp hw, hend⟩
  obtain ⟨block?, mid, hblock, h₅⟩ := bind_eq_done.1 h₄
  rcases accepts_done hblock with ⟨lb, rfl, rfl, hlb⟩ | ⟨rfl, rfl, -⟩
  · simp only [if_true, bind_eq_done, pure_eq_done] at h₅
    obtain ⟨body, _, hbody, rfl, rfl⟩ := h₅
    obtain ⟨w, rfl, hw⟩ := ih.block hlb hbody
    exact ⟨lb :: w, false, rfl, .blockStatement hw, nofun⟩
  obtain ⟨return?, mid', hreturn, h₆⟩ := bind_eq_done.1 h₅
  rcases accept_done hreturn with ⟨keyword, rfl, rfl, hk⟩ | ⟨rfl, rfl, -⟩
  · simp only [bind_eq_done, pure_eq_done] at h₆
    obtain ⟨value?, _, hvalue, _, _, hsemi, rfl, rfl⟩ := h₆
    obtain ⟨w, rfl, hw⟩ := expressionBefore_sound fuel _ hvalue
    obtain ⟨semi, rfl, hs⟩ := skip_done hsemi
    exact ⟨keyword :: (w ++ [semi]), false, by simp, .ret hk hw hs, nofun⟩
  · obtain ⟨w, rfl, hw⟩ := expressionStatement_sound fuel h₆
    exact ⟨w, false, rfl, .plain hw, nofun⟩

theorem statements_sound (fuel : Nat) : StatementsSound fuel := by
  induction fuel with
  | zero => exact ⟨nofun, nofun, nofun, fun _ => nofun, fun _ => nofun, nofun⟩
  | succ fuel ih =>
    exact ⟨declarations_sound ih, declaration_sound ih, methods_sound ih, function_sound ih,
      block_sound ih, statement_sound ih⟩

end Grammar

end LoxLang
