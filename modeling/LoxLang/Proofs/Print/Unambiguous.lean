import Mathlib
import LoxLang.Proofs.Print.Matches
import LoxLang.Proofs.Print.Words

/-!
# Printed trees are unambiguous

Statements that are parsed from texts are printed alike exactly if they match: they are the same but for
labels, lines and numbers with the same text (`printed_form_is_unambiguous`).  String literals are left out,
since they are printed without their quotes, and so are infinite numbers, whose text is a name.

The text tells the form (`Form.eq_of_chars`), and the form tells which kind of tree it is that of: what
comes first in a list says so for most, and for the others what comes after it (`Expr.Legible.shape_form`).
-/

namespace LoxLang

/-- The literal is no string, and if it is a number, it is finite. -/
def Literal.Plain : Literal → Prop
  | nil | bool _ => True
  | number x => ∃ v, Decimal.Binary.ofFloat x = .finite v
  | string _ => False

section

variable {α β : Type}

/-- No literal in the statement is a string or a number that is not finite. -/
def Stmt.Plain (s : Stmt α) : Prop := s.Composed (fun _ _ => True) Literal.Plain

/-- The expression has plain literals, and tokens that were read from a text and stand where they may. -/
abbrev Expr.Legible (e : Expr α) : Prop := e.Composed (Parse.Placed Token.Lexed) Literal.Plain

/-- The statement has plain literals, and tokens that were read from a text and stand where they may. -/
abbrev Stmt.Legible (s : Stmt α) : Prop := s.Composed (Parse.Placed Token.Lexed) Literal.Plain

/-! ### Words of legible trees -/

/-- The words that no variable has for a name, and no number for a text. -/
def constants : List String := ["nil", "true", "false"]

/-- The text of a literal is a word that is no name. -/
theorem Literal.Plain.render {v : Literal} (h : v.Plain) :
    Form.IsWord v.render ∧ v.render ≠ "this" ∧
      (v.render ∈ constants ∨ v.render.toList.head?.any Scan.isNameStart = false) := by
  cases v with
  | nil => decide
  | bool b => cases b <;> decide
  | number x =>
    obtain ⟨v, hv⟩ := h
    have hnumeric := Number.literal_isNumeric hv
    refine ⟨hnumeric.isWord, fun hthis => ?_, .inr hnumeric.head⟩
    have hhead := hnumeric.head
    rw [Literal.render] at hthis
    rw [hthis] at hhead
    revert hhead
    decide
  | string s => exact absurd h id

/-- A name is a word that is neither a constant nor `this`. -/
theorem placed_name {t : Token} (h : Parse.Placed Token.Lexed [.identifier] t) :
    Form.IsWord t.lexeme ∧ t.lexeme ≠ "this" ∧ t.lexeme ∉ constants ∧
      t.lexeme.toList.head?.any Scan.isNameStart = true := by
  obtain ⟨hname, hnone⟩ := isName_of_identifier h
  have hkeywords : ∀ w ∈ "this" :: constants, ∃ s, (w, s) ∈ keywords := by
    have hlookup : ∀ w ∈ "this" :: constants, (keywords.lookup w).isSome = true := by decide
    intro w hw
    obtain ⟨s, hs⟩ := Option.isSome_iff_exists.1 (hlookup w hw)
    exact ⟨s, mem_of_lookup hs⟩
  have hother : t.lexeme ∉ "this" :: constants := fun hmem => by
    obtain ⟨s, hs⟩ := hkeywords _ hmem
    exact hnone s hs
  exact ⟨isWord_of_isName hname, fun h => hother (h ▸ List.mem_cons_self),
    fun h => hother (List.mem_cons_of_mem _ h), head_of_isName hname⟩

/-- The text of an operator is a word. -/
theorem isWord_operator {symbols : List Symbol} {t : Token} (h : Parse.Placed Token.Lexed symbols t)
    (hid : .identifier ∉ symbols) (hwords : ∀ w ∈ textsOf symbols, Form.IsWord w) :
    Form.IsWord t.lexeme := hwords _ (lexeme_mem_texts h hid)

theorem legibleEach_words {ps : List Token} (h : ∀ p ∈ ps, Parse.Placed Token.Lexed [.identifier] p) :
    Form.LegibleEach (ps.map (.word ·.lexeme)) := by
  induction ps with
  | nil => trivial
  | cons p ps ih =>
    obtain ⟨hp, hps⟩ := List.forall_mem_cons.1 h
    exact ⟨(placed_name hp).1, ih hps⟩

mutual

theorem Expr.Legible.form {e : Expr α} (h : e.Legible) : e.form.Legible := by
  cases e with
  | literal v => exact (Literal.Plain.render h).1
  | group inner => exact ⟨by decide, Expr.Legible.form (e := inner) h, trivial⟩
  | unary op operand =>
    exact ⟨isWord_operator h.1 (by decide) (by decide), Expr.Legible.form h.2, trivial⟩
  | binary left op right =>
    exact ⟨isWord_operator h.2.1 (by decide) (by decide), Expr.Legible.form h.1,
      Expr.Legible.form h.2.2, trivial⟩
  | logical left op right =>
    exact ⟨isWord_operator h.2.1 (by decide) (by decide), Expr.Legible.form h.1,
      Expr.Legible.form h.2.2, trivial⟩
  | var label name => exact (placed_name h).1
  | assign label name value =>
    exact ⟨by decide, (placed_name h.1).1, Expr.Legible.form h.2, trivial⟩
  | call callee paren args =>
    exact ⟨by decide, Expr.Legible.form h.1, Expr.Legible.forms h.2.2⟩
  | get object name => exact ⟨by decide, Expr.Legible.form h.1, (placed_name h.2).1, trivial⟩
  | set object name value =>
    exact ⟨by decide, ⟨by decide, Expr.Legible.form h.1, (placed_name h.2.1).1, trivial⟩,
      Expr.Legible.form h.2.2, trivial⟩
  | thisRef label keyword => exact (by decide : Form.IsWord "this")

theorem Expr.Legible.forms {es : List (Expr α)}
    (h : Expr.ComposedEach (Parse.Placed Token.Lexed) Literal.Plain es) :
    Form.LegibleEach (Expr.forms es) := by
  cases es with
  | nil => trivial
  | cons e es => exact ⟨Expr.Legible.form h.1, Expr.Legible.forms h.2⟩

end

theorem Expr.Legible.form? {e? : Option (Expr α)}
    (h : Expr.Composed? (Parse.Placed Token.Lexed) Literal.Plain e?) :
    Form.LegibleEach (Expr.form? e?) := by
  cases e? with
  | none => trivial
  | some e => exact ⟨Expr.Legible.form (e := e) h, trivial⟩

mutual

theorem Stmt.Legible.form {s : Stmt α} (h : s.Legible) : s.form.Legible := by
  cases s with
  | expr e | print e => exact ⟨by decide, Expr.Legible.form (e := e) h, trivial⟩
  | var name value? => exact ⟨by decide, (placed_name h.1).1, Expr.Legible.form? h.2⟩
  | block body => exact ⟨by decide, @Stmt.Legible.forms body h⟩
  | ifThen condition s =>
    exact ⟨by decide, Expr.Legible.form h.1, Stmt.Legible.form h.2, trivial⟩
  | ifElse condition s s' =>
    exact ⟨by decide, Expr.Legible.form h.1, Stmt.Legible.form h.2.1, Stmt.Legible.form h.2.2, trivial⟩
  | whileLoop condition body =>
    exact ⟨by decide, Expr.Legible.form h.1, Stmt.Legible.form h.2, trivial⟩
  | function decl => exact Stmt.Legible.functionForm (by decide) (d := decl) h
  | ret keyword value? => exact ⟨by decide, Expr.Legible.form? h.2⟩
  | classDecl name methods => exact ⟨by decide, (placed_name h.1).1, Stmt.Legible.methodForms h.2⟩

theorem Stmt.Legible.forms {ss : List (Stmt α)}
    (h : Stmt.ComposedEach (Parse.Placed Token.Lexed) Literal.Plain ss) :
    Form.LegibleEach (Stmt.forms ss) := by
  cases ss with
  | nil => trivial
  | cons s ss => exact ⟨Stmt.Legible.form h.1, Stmt.Legible.forms h.2⟩

theorem Stmt.Legible.functionForm {tag : String} (htag : Form.IsWord tag) {d : FunDecl α (Stmt α)}
    (h : Stmt.ComposedFunction (Parse.Placed Token.Lexed) Literal.Plain d) :
    (Stmt.functionForm tag d).Legible := by
  obtain ⟨label, name, params, body⟩ := d
  exact ⟨htag, (placed_name h.1).1, legibleEach_words h.2.1, Stmt.Legible.forms h.2.2⟩

theorem Stmt.Legible.methodForms {ds : List (FunDecl α (Stmt α))}
    (h : Stmt.ComposedFunctions (Parse.Placed Token.Lexed) Literal.Plain ds) :
    Form.LegibleEach (Stmt.methodForms ds) := by
  cases ds with
  | nil => trivial
  | cons d ds => exact ⟨Stmt.Legible.functionForm (by decide) h.1, Stmt.Legible.methodForms h.2⟩

end

/-! ### Which tree a form is that of -/

/-- The kinds of expressions. -/
inductive Expr.Shape where
  | literal | group | unary | binary | logical | var | assign | call | get | set | thisRef

/-- The kind of the expression. -/
def Expr.shape : Expr α → Expr.Shape
  | .literal _ => .literal
  | .group _ => .group
  | .unary _ _ => .unary
  | .binary _ _ _ => .binary
  | .logical _ _ _ => .logical
  | .var _ _ => .var
  | .assign _ _ _ => .assign
  | .call _ _ _ => .call
  | .get _ _ => .get
  | .set _ _ _ => .set
  | .thisRef _ _ => .thisRef

/-- An assignment is one to a property if its target is no word. -/
def Form.assignmentShape : List Form → Expr.Shape
  | .list _ :: _ => .set
  | _ => .assign

/-- An operator has one operand or two. -/
def Form.operatorShape : List Form → Expr.Shape
  | [_] => .unary
  | _ => .binary

/-- The kind of expression that a form is that of. -/
def Form.shape : Form → Expr.Shape
  | .word text =>
    if text = "this" then .thisRef
    else if text ∈ constants ∨ text.toList.head?.any Scan.isNameStart = false then .literal
    else .var
  | .list (.word head :: items) =>
    if head = "group" then .group
    else if head = "call" then .call
    else if head = "." then .get
    else if head = "=" then assignmentShape items
    else if head ∈ textsOf logicalOperators then .logical
    else operatorShape items
  | .list _ => .literal

/-- The words that stand first in a form and are no operators. -/
def heads : List String := ["group", "call", ".", "="]

/-- What stands first in a list is an operator, if it is none of the other words. -/
theorem Form.shape_of_notMem_heads {head : String} (h : head ∉ heads) (items : List Form) :
    (Form.list (.word head :: items)).shape =
      if head ∈ textsOf logicalOperators then .logical else operatorShape items := by
  simp only [heads, List.mem_cons, List.not_mem_nil, or_false, not_or] at h
  obtain ⟨hgroup, hcall, hdot, hequal⟩ := h
  rw [shape, if_neg hgroup, if_neg hcall, if_neg hdot, if_neg hequal]

/-- The text of an operator that is no logical one says only how many operands it may have. -/
theorem shape_operator {symbols : List Symbol} {op : Token} (h : Parse.Placed Token.Lexed symbols op)
    (hid : .identifier ∉ symbols)
    (hother : ∀ w ∈ textsOf symbols, w ∉ heads ∧ w ∉ textsOf logicalOperators) (items : List Form) :
    (Form.list (.word op.lexeme :: items)).shape = Form.operatorShape items := by
  obtain ⟨hhead, hlogical⟩ := hother _ (lexeme_mem_texts h hid)
  rw [Form.shape_of_notMem_heads hhead, if_neg hlogical]

/-- The form of a legible expression tells of which kind it is. -/
theorem Expr.Legible.shape_form {e : Expr α} (h : e.Legible) : e.form.shape = e.shape := by
  cases e with
  | literal v =>
    obtain ⟨-, hthis, hconstant⟩ := Literal.Plain.render h
    rw [Expr.form, Form.shape, if_neg hthis, if_pos hconstant]
    rfl
  | group _ | call _ _ _ | get _ _ | assign _ _ _ | set _ _ _ | thisRef _ _ => rfl
  | unary op operand => exact shape_operator h.1 (by decide) (by decide) _
  | binary left op right => exact shape_operator h.2.1 (by decide) (by decide) _
  | logical left op right =>
    have hmem : op.lexeme ∈ textsOf logicalOperators := lexeme_mem_texts h.2.1 (by decide)
    have hother : ∀ w ∈ textsOf logicalOperators, w ∉ heads := by decide
    rw [Expr.form, Form.shape_of_notMem_heads (hother _ hmem), if_pos hmem]
    rfl
  | var label name =>
    obtain ⟨-, hthis, hconstant, hstart⟩ := placed_name h
    rw [Expr.form, Form.shape, if_neg hthis, if_neg (by simp [hconstant, hstart])]
    rfl

/-- The word that stands first in the form of the statement. -/
def Stmt.head : Stmt α → String
  | .expr _ => ";"
  | .print _ => "print"
  | .var _ _ => "var"
  | .block _ => "block"
  | .ifThen _ _ => "if"
  | .ifElse _ _ _ => "if-else"
  | .whileLoop _ _ => "while"
  | .function _ => "fun"
  | .ret _ _ => "return"
  | .classDecl _ _ => "class"

/-- The word that stands first in a form. -/
def Form.head? : Form → Option String
  | .list (.word head :: _) => some head
  | _ => none

theorem Stmt.head_form (s : Stmt α) : s.form.head? = some s.head := by
  cases s with
  | function decl => obtain ⟨label, name, params, body⟩ := decl; rfl
  | _ => rfl

/-! ### The same form is that of matching trees -/

theorem Parse.Placed.matches_of_lexeme {symbols symbols' : List Symbol} {t t' : Token}
    (h : Placed Token.Lexed symbols t) (h' : Placed Token.Lexed symbols' t')
    (hlexeme : t.lexeme = t'.lexeme) : t.Matches t' :=
  ⟨h.1.kind_eq h'.1 hlexeme, hlexeme⟩

/-- There is only one text of such a token. -/
theorem Parse.Placed.matches {s : Symbol} {t t' : Token} (h : Placed Token.Lexed [s] t)
    (h' : Placed Token.Lexed [s] t') {text : String} (hid : .identifier ∉ [s])
    (htext : textsOf [s] = [text]) : t.Matches t' := by
  have hmem := lexeme_mem_texts h hid
  have hmem' := lexeme_mem_texts h' hid
  rw [htext, List.mem_singleton] at hmem hmem'
  exact h.matches_of_lexeme h' (hmem.trans hmem'.symm)

theorem Literal.Plain.notMem_constants {x : Float} (h : (Literal.number x).Plain) :
    (Literal.number x).render ∉ constants := by
  obtain ⟨v, hv⟩ := h
  have hstart : ∀ w ∈ constants, w.toList.head?.any Scan.isNameStart = true := by decide
  intro hmem
  exact Bool.false_ne_true ((Number.literal_isNumeric hv).head.symm.trans (hstart _ hmem))

theorem Literal.Plain.matches {v v' : Literal} (h : v.Plain) (h' : v'.Plain)
    (heq : v.render = v'.render) : v.Matches v' := by
  have hnil : Literal.nil.render ∈ constants := by decide
  have hbool (b : Bool) : (Literal.bool b).render ∈ constants := by cases b <;> decide
  cases v with
  | nil =>
    cases v' with
    | nil => exact .same
    | bool b => exact absurd heq (by cases b <;> decide)
    | number y => exact absurd (heq ▸ hnil) h'.notMem_constants
    | string s => exact absurd h' id
  | bool b =>
    cases v' with
    | nil => exact absurd heq (by cases b <;> decide)
    | bool b' =>
      obtain rfl : b = b' := by
        revert heq
        cases b <;> cases b' <;> decide
      exact .same
    | number y => exact absurd (heq ▸ hbool b) h'.notMem_constants
    | string s => exact absurd h' id
  | number x =>
    cases v' with
    | nil => exact absurd (heq ▸ hnil) h.notMem_constants
    | bool b => exact absurd (heq ▸ hbool b) h.notMem_constants
    | number y => exact .number heq
    | string s => exact absurd h' id
  | string s => exact absurd h id

theorem Parse.Placed.matches_words {ps ps' : List Token}
    (h : ∀ p ∈ ps, Placed Token.Lexed [.identifier] p)
    (h' : ∀ p ∈ ps', Placed Token.Lexed [.identifier] p)
    (heq : ps.map (Form.word ·.lexeme) = ps'.map (Form.word ·.lexeme)) :
    List.Forall₂ Token.Matches ps ps' := by
  induction ps generalizing ps' with
  | nil =>
    obtain rfl : ps' = [] := by simpa using heq.symm
    exact .nil
  | cons p ps ih =>
    cases ps' with
    | nil => cases heq
    | cons p' ps' =>
      obtain ⟨hp, hps⟩ := List.forall_mem_cons.1 h
      obtain ⟨hp', hps'⟩ := List.forall_mem_cons.1 h'
      obtain ⟨hword, hmore⟩ := List.cons.inj heq
      exact .cons (hp.matches_of_lexeme hp' (Form.word.inj hword)) (ih hps hps' hmore)

mutual

theorem Expr.Legible.matches {e : Expr α} {e' : Expr β} (h : e.Legible) (h' : e'.Legible)
    (heq : e.form = e'.form) : e.Matches e' := by
  have hshape : e.shape = e'.shape := by rw [← h.shape_form, heq, h'.shape_form]
  cases e with
  | literal v =>
    cases e' with
    | literal v' => exact .literal (Literal.Plain.matches h h' (Form.word.inj heq))
    | _ => cases hshape
  | group inner =>
    cases e' with
    | group inner' =>
      simp only [Expr.form, Form.list.injEq, List.cons.injEq, true_and, and_true] at heq
      exact .group (@Expr.Legible.matches inner inner' h h' heq)
    | _ => cases hshape
  | unary op operand =>
    cases e' with
    | unary op' operand' =>
      simp only [Expr.form, Form.list.injEq, List.cons.injEq, Form.word.injEq, and_true] at heq
      exact .unary (h.1.matches_of_lexeme h'.1 heq.1) (Expr.Legible.matches h.2 h'.2 heq.2)
    | _ => cases hshape
  | binary left op right =>
    cases e' with
    | binary left' op' right' =>
      simp only [Expr.form, Form.list.injEq, List.cons.injEq, Form.word.injEq, and_true] at heq
      exact .binary (Expr.Legible.matches h.1 h'.1 heq.2.1) (h.2.1.matches_of_lexeme h'.2.1 heq.1)
        (Expr.Legible.matches h.2.2 h'.2.2 heq.2.2)
    | _ => cases hshape
  | logical left op right =>
    cases e' with
    | logical left' op' right' =>
      simp only [Expr.form, Form.list.injEq, List.cons.injEq, Form.word.injEq, and_true] at heq
      exact .logical (Expr.Legible.matches h.1 h'.1 heq.2.1) (h.2.1.matches_of_lexeme h'.2.1 heq.1)
        (Expr.Legible.matches h.2.2 h'.2.2 heq.2.2)
    | _ => cases hshape
  | var label name =>
    cases e' with
    | var label' name' =>
      exact .var (Parse.Placed.matches_of_lexeme h h' (Form.word.inj heq))
    | _ => cases hshape
  | assign label name value =>
    cases e' with
    | assign label' name' value' =>
      simp only [Expr.form, Form.list.injEq, List.cons.injEq, Form.word.injEq, true_and, and_true] at heq
      exact .assign (h.1.matches_of_lexeme h'.1 heq.1) (Expr.Legible.matches h.2 h'.2 heq.2)
    | _ => cases hshape
  | call callee paren args =>
    cases e' with
    | call callee' paren' args' =>
      simp only [Expr.form, Form.list.injEq, List.cons.injEq, true_and] at heq
      exact .call (Expr.Legible.matches h.1 h'.1 heq.1) (h.2.1.matches h'.2.1 (by decide) rfl)
        (Expr.Legible.matchesEach h.2.2 h'.2.2 heq.2)
    | _ => cases hshape
  | get object name =>
    cases e' with
    | get object' name' =>
      simp only [Expr.form, Form.list.injEq, List.cons.injEq, Form.word.injEq, true_and, and_true] at heq
      exact .get (Expr.Legible.matches h.1 h'.1 heq.1) (h.2.matches_of_lexeme h'.2 heq.2)
    | _ => cases hshape
  | set object name value =>
    cases e' with
    | set object' name' value' =>
      simp only [Expr.form, Form.list.injEq, List.cons.injEq, Form.word.injEq, true_and, and_true] at heq
      exact .set (Expr.Legible.matches h.1 h'.1 heq.1.1) (h.2.1.matches_of_lexeme h'.2.1 heq.1.2)
        (Expr.Legible.matches h.2.2 h'.2.2 heq.2)
    | _ => cases hshape
  | thisRef label keyword =>
    cases e' with
    | thisRef label' keyword' => exact .thisRef (Parse.Placed.matches h h' (by decide) rfl)
    | _ => cases hshape

theorem Expr.Legible.matchesEach {es : List (Expr α)} {es' : List (Expr β)}
    (h : Expr.ComposedEach (Parse.Placed Token.Lexed) Literal.Plain es)
    (h' : Expr.ComposedEach (Parse.Placed Token.Lexed) Literal.Plain es')
    (heq : Expr.forms es = Expr.forms es') : Expr.MatchesEach es es' := by
  cases es with
  | nil =>
    cases es' with
    | nil => exact .nil
    | cons e' es' => cases heq
  | cons e es =>
    cases es' with
    | nil => cases heq
    | cons e' es' =>
      obtain ⟨hfirst, hothers⟩ := List.cons.inj heq
      exact .cons (Expr.Legible.matches h.1 h'.1 hfirst) (Expr.Legible.matchesEach h.2 h'.2 hothers)

end

theorem Expr.Legible.matches? {e? : Option (Expr α)} {e?' : Option (Expr β)}
    (h : Expr.Composed? (Parse.Placed Token.Lexed) Literal.Plain e?)
    (h' : Expr.Composed? (Parse.Placed Token.Lexed) Literal.Plain e?')
    (heq : Expr.form? e? = Expr.form? e?') : Expr.Matches? e? e?' := by
  cases e? with
  | none =>
    cases e?' with
    | none => exact .none
    | some e' => cases heq
  | some e =>
    cases e?' with
    | none => cases heq
    | some e' =>
      exact .some (@Expr.Legible.matches α β e e' h h' (List.singleton_inj.1 heq))

mutual

theorem Stmt.Legible.matches {s : Stmt α} {s' : Stmt β} (h : s.Legible) (h' : s'.Legible)
    (heq : s.form = s'.form) : s.Matches s' := by
  have hhead : s.head = s'.head := by
    rw [← Option.some_inj, ← s.head_form, heq, s'.head_form]
  cases s with
  | expr e =>
    cases s' with
    | expr e' =>
      simp only [Stmt.form, Form.list.injEq, List.cons.injEq, true_and, and_true] at heq
      exact .expr (@Expr.Legible.matches α β e e' h h' heq)
    | _ => simp [Stmt.head] at hhead
  | print e =>
    cases s' with
    | print e' =>
      simp only [Stmt.form, Form.list.injEq, List.cons.injEq, true_and, and_true] at heq
      exact .print (@Expr.Legible.matches α β e e' h h' heq)
    | _ => simp [Stmt.head] at hhead
  | var name value? =>
    cases s' with
    | var name' value?' =>
      simp only [Stmt.form, Form.list.injEq, List.cons.injEq, Form.word.injEq, true_and] at heq
      exact .var (h.1.matches_of_lexeme h'.1 heq.1) (Expr.Legible.matches? h.2 h'.2 heq.2)
    | _ => simp [Stmt.head] at hhead
  | block body =>
    cases s' with
    | block body' =>
      simp only [Stmt.form, Form.list.injEq, List.cons.injEq, true_and] at heq
      exact .block (@Stmt.Legible.matchesEach body body' h h' heq)
    | _ => simp [Stmt.head] at hhead
  | ifThen condition thenBranch =>
    cases s' with
    | ifThen condition' thenBranch' =>
      simp only [Stmt.form, Form.list.injEq, List.cons.injEq, true_and, and_true] at heq
      exact .ifThen (Expr.Legible.matches h.1 h'.1 heq.1) (Stmt.Legible.matches h.2 h'.2 heq.2)
    | _ => simp [Stmt.head] at hhead
  | ifElse condition thenBranch elseBranch =>
    cases s' with
    | ifElse condition' thenBranch' elseBranch' =>
      simp only [Stmt.form, Form.list.injEq, List.cons.injEq, true_and, and_true] at heq
      exact .ifElse (Expr.Legible.matches h.1 h'.1 heq.1) (Stmt.Legible.matches h.2.1 h'.2.1 heq.2.1)
        (Stmt.Legible.matches h.2.2 h'.2.2 heq.2.2)
    | _ => simp [Stmt.head] at hhead
  | whileLoop condition body =>
    cases s' with
    | whileLoop condition' body' =>
      simp only [Stmt.form, Form.list.injEq, List.cons.injEq, true_and, and_true] at heq
      exact .whileLoop (Expr.Legible.matches h.1 h'.1 heq.1) (Stmt.Legible.matches h.2 h'.2 heq.2)
    | _ => simp [Stmt.head] at hhead
  | function decl =>
    cases s' with
    | function decl' =>
      exact .function (@Stmt.Legible.matchesFunction _ decl decl' h h' heq)
    | _ => simp [Stmt.head] at hhead
  | ret keyword value? =>
    cases s' with
    | ret keyword' value?' =>
      simp only [Stmt.form, Form.list.injEq, List.cons.injEq, true_and] at heq
      exact .ret (h.1.matches h'.1 (by decide) rfl) (Expr.Legible.matches? h.2 h'.2 heq)
    | _ => simp [Stmt.head] at hhead
  | classDecl name methods =>
    cases s' with
    | classDecl name' methods' =>
      simp only [Stmt.form, Form.list.injEq, List.cons.injEq, Form.word.injEq, true_and] at heq
      exact .classDecl (h.1.matches_of_lexeme h'.1 heq.1) (Stmt.Legible.matchesFunctions h.2 h'.2 heq.2)
    | _ => simp [Stmt.head] at hhead

theorem Stmt.Legible.matchesEach {ss : List (Stmt α)} {ss' : List (Stmt β)}
    (h : Stmt.ComposedEach (Parse.Placed Token.Lexed) Literal.Plain ss)
    (h' : Stmt.ComposedEach (Parse.Placed Token.Lexed) Literal.Plain ss')
    (heq : Stmt.forms ss = Stmt.forms ss') : Stmt.MatchesEach ss ss' := by
  cases ss with
  | nil =>
    cases ss' with
    | nil => exact .nil
    | cons s' ss' => cases heq
  | cons s ss =>
    cases ss' with
    | nil => cases heq
    | cons s' ss' =>
      obtain ⟨hfirst, hothers⟩ := List.cons.inj heq
      exact .cons (Stmt.Legible.matches h.1 h'.1 hfirst) (Stmt.Legible.matchesEach h.2 h'.2 hothers)

theorem Stmt.Legible.matchesFunction {tag : String} {d : FunDecl α (Stmt α)} {d' : FunDecl β (Stmt β)}
    (h : Stmt.ComposedFunction (Parse.Placed Token.Lexed) Literal.Plain d)
    (h' : Stmt.ComposedFunction (Parse.Placed Token.Lexed) Literal.Plain d')
    (heq : Stmt.functionForm tag d = Stmt.functionForm tag d') : Stmt.MatchesFunction d d' := by
  obtain ⟨label, name, params, body⟩ := d
  obtain ⟨label', name', params', body'⟩ := d'
  simp only [Stmt.functionForm, Form.list.injEq, List.cons.injEq, Form.word.injEq, true_and] at heq
  obtain ⟨hname, hparams, hbody⟩ := heq
  exact .mk (h.1.matches_of_lexeme h'.1 hname) (Parse.Placed.matches_words h.2.1 h'.2.1 hparams)
    (Stmt.Legible.matchesEach h.2.2 h'.2.2 hbody)

theorem Stmt.Legible.matchesFunctions {ds : List (FunDecl α (Stmt α))}
    {ds' : List (FunDecl β (Stmt β))}
    (h : Stmt.ComposedFunctions (Parse.Placed Token.Lexed) Literal.Plain ds)
    (h' : Stmt.ComposedFunctions (Parse.Placed Token.Lexed) Literal.Plain ds')
    (heq : Stmt.methodForms ds = Stmt.methodForms ds') : Stmt.MatchesFunctions ds ds' := by
  cases ds with
  | nil =>
    cases ds' with
    | nil => exact .nil
    | cons d' ds' => cases heq
  | cons d ds =>
    cases ds' with
    | nil => cases heq
    | cons d' ds' =>
      obtain ⟨hfirst, hothers⟩ := List.cons.inj heq
      exact .cons (Stmt.Legible.matchesFunction h.1 h'.1 hfirst)
        (Stmt.Legible.matchesFunctions h.2 h'.2 hothers)

end

/-- Legible statements are printed alike exactly if they match. -/
theorem Stmt.Legible.render_eq_iff {s : Stmt α} {s' : Stmt β} (h : s.Legible) (h' : s'.Legible) :
    s.render = s'.render ↔ s.Matches s' := by
  rw [← String.toList_inj, Stmt.render_toList, Stmt.render_toList]
  constructor
  · intro heq
    have hnone : Form.Delimited [] := nofun
    rw [← List.append_nil s.form.chars, ← List.append_nil s'.form.chars] at heq
    exact h.matches h' (Form.eq_of_chars h.form h'.form hnone hnone heq).1
  · intro hmatches
    rw [hmatches.form_eq]

end

theorem Stmt.Plain.legible {source : String} {s : Stmt Unit} (h : s.Plain)
    (hs : s ∈ (parse (tokensOf (scan source))).statements) : s.Legible :=
  (composed_of_mem_parse (fun _ => lexed_of_mem_scan) hs).and h

/-- Two statements that are parsed from texts, and that have no string and no infinite number among their
literals, are printed alike exactly if they are the same but for labels, lines, and numbers with the same
text. -/
theorem printed_form_is_unambiguous {A B : String} {s t : Stmt Unit}
    (hs : s ∈ (parse (tokensOf (scan A))).statements) (ht : t ∈ (parse (tokensOf (scan B))).statements)
    (hplain : s.Plain) (hplain' : t.Plain) : s.render = t.render ↔ s.Matches t :=
  (hplain.legible hs).render_eq_iff (hplain'.legible ht)

/-- A negation, and the same one on another line after a mistake. -/
theorem negation_read_twice :
    let s (line : Nat) : Stmt Unit :=
      .expr (.unary ⟨.symbol .minus, "-", line⟩ (.var () ⟨.symbol .identifier, "a", line⟩))
    s 1 ∈ (parse (tokensOf (scan "-a;"))).statements ∧
      s 2 ∈ (parse (tokensOf (scan "var;\n- a;"))).statements ∧ (s 1).Plain ∧ (s 2).Plain ∧
      (s 1).render = (s 2).render ∧ (s 1).Matches (s 2) := by
  intro s
  have hfirst : (parse (tokensOf (scan "-a;"))).statements = [s 1] := by cbv
  have hsecond : (parse (tokensOf (scan "var;\n- a;"))).statements = [s 2] := by cbv
  have hs : s 1 ∈ (parse (tokensOf (scan "-a;"))).statements := hfirst ▸ List.mem_singleton_self _
  have ht : s 2 ∈ (parse (tokensOf (scan "var;\n- a;"))).statements :=
    hsecond ▸ List.mem_singleton_self _
  have hplain (line : Nat) : (s line).Plain := ⟨trivial, trivial⟩
  have hrender : (s 1).render = (s 2).render := rfl
  exact ⟨hs, ht, hplain 1, hplain 2, hrender,
    (printed_form_is_unambiguous hs ht (hplain 1) (hplain 2)).1 hrender⟩

end LoxLang
