import LoxLang.Tree.Print

/-!
# Printed trees as forms

A printed tree is a `Form`: a word, or forms between parentheses with a space between any two.  The text
of a form whose words are words tells the form, and where it ends (`Form.eq_of_chars`), since a word ends
before a delimiter and every list ends with its own parenthesis.

`Expr.form` and `Stmt.form` are the forms of trees, and their texts are the printed trees
(`Stmt.render_toList`).
-/

namespace LoxLang

/-- A word, or forms between parentheses. -/
inductive Form where
  | word (text : String)
  | list (items : List Form)

namespace Form

/-! ### The text of a form -/

mutual

/-- The characters of the form. -/
def chars : Form → List Char
  | word text => text.toList
  | list [] => ['(', ')']
  | list (first :: others) => '(' :: (first.chars ++ charsEach others)

/-- The characters of the forms, each after a space, and of the parenthesis after them. -/
def charsEach : List Form → List Char
  | [] => [')']
  | f :: fs => ' ' :: (f.chars ++ charsEach fs)

end

/-- What ends a word. -/
def delimiters : List Char := [' ', '(', ')']

/-- The text has characters, and no delimiter is among them. -/
def IsWord (text : String) : Prop := text.toList ≠ [] ∧ ∀ c ∈ text.toList, c ∉ delimiters

-- Given in full: the whole library also decides this by a search through all characters.
instance : DecidablePred IsWord := fun text =>
  @instDecidableAnd _ _ inferInstance (List.decidableBAll _ text.toList)

mutual

/-- Every word in the form is one. -/
def Legible : Form → Prop
  | word text => IsWord text
  | list items => LegibleEach items

/-- Every word in the forms is one. -/
def LegibleEach : List Form → Prop
  | [] => True
  | f :: fs => f.Legible ∧ LegibleEach fs

end

instance (text : String) : Decidable (word text).Legible := inferInstanceAs (Decidable (IsWord text))

/-! ### Reading a form off its text -/

/-- A delimiter comes first, if anything does. -/
def Delimited (cs : List Char) : Prop := ∀ c ∈ cs.head?, c ∈ delimiters

theorem delimited_charsEach (fs : List Form) (rest : List Char) : Delimited (charsEach fs ++ rest) := by
  cases fs with
  | nil => simp [Delimited, charsEach, delimiters]
  | cons f fs => simp [Delimited, charsEach, delimiters]

/-- A word ends where the first delimiter stands. -/
theorem takeWhile_word {text : String} (h : IsWord text) {rest : List Char} (hrest : Delimited rest) :
    (text.toList ++ rest).takeWhile (· ∉ delimiters) = text.toList := by
  rw [List.takeWhile_append_of_pos fun c hc => decide_eq_true (h.2 c hc)]
  cases rest with
  | nil => simp
  | cons c rest =>
    have hc : c ∈ delimiters := hrest c rfl
    simp [hc]

/-- No word starts with a delimiter. -/
theorem IsWord.ne_cons {text : String} (h : IsWord text) {d : Char} (hd : d ∈ delimiters)
    (rest cs : List Char) : text.toList ++ rest ≠ d :: cs := by
  obtain ⟨c, word, htext⟩ := List.exists_cons_of_ne_nil h.1
  intro heq
  rw [htext, List.cons_append] at heq
  obtain ⟨rfl, -⟩ := List.cons.inj heq
  exact h.2 c (htext ▸ List.mem_cons_self) hd

/-- A form does not start with a closing parenthesis. -/
theorem chars_ne_cons {f : Form} (hf : f.Legible) (rest cs : List Char) :
    f.chars ++ rest ≠ ')' :: cs := by
  cases f with
  | word text =>
    rw [Legible] at hf
    rw [chars]
    exact hf.ne_cons (by decide) rest cs
  | list items => cases items <;> simp [chars]

mutual

/-- The same text, up to what follows, is that of the same form. -/
theorem eq_of_chars {f g : Form} (hf : f.Legible) (hg : g.Legible) {rest rest' : List Char}
    (hrest : Delimited rest) (hrest' : Delimited rest') (h : f.chars ++ rest = g.chars ++ rest') :
    f = g ∧ rest = rest' := by
  match f, g with
  | word text, word text' =>
    rw [Legible] at hf hg
    rw [chars, chars] at h
    have htext : text.toList = text'.toList := by
      rw [← takeWhile_word hf hrest, h, takeWhile_word hg hrest']
    rw [htext] at h
    exact ⟨congrArg word (String.toList_inj.1 htext), List.append_cancel_left h⟩
  | word text, list items =>
    rw [Legible] at hf
    rw [chars] at h
    exact absurd h (by cases items <;> exact hf.ne_cons (by decide) rest _)
  | list items, word text =>
    rw [Legible] at hg
    rw [chars.eq_1 text] at h
    exact absurd h.symm (by cases items <;> exact hg.ne_cons (by decide) rest' _)
  | list [], list [] =>
    rw [chars] at h
    exact ⟨rfl, List.append_cancel_left h⟩
  | list [], list (g :: gs) =>
    rw [Legible, LegibleEach] at hg
    simp only [chars, List.cons_append, List.append_assoc, List.cons.injEq, true_and] at h
    exact absurd h.symm (chars_ne_cons hg.1 _ _)
  | list (f :: fs), list [] =>
    rw [Legible, LegibleEach] at hf
    simp only [chars, List.cons_append, List.append_assoc, List.cons.injEq, true_and] at h
    exact absurd h (chars_ne_cons hf.1 _ _)
  | list (f :: fs), list (g :: gs) =>
    rw [Legible, LegibleEach] at hf hg
    simp only [chars, List.cons_append, List.append_assoc, List.cons.injEq, true_and] at h
    obtain ⟨rfl, hothers⟩ :=
      eq_of_chars hf.1 hg.1 (delimited_charsEach fs rest) (delimited_charsEach gs rest') h
    obtain ⟨rfl, hafter⟩ := eq_of_charsEach hf.2 hg.2 hothers
    exact ⟨rfl, hafter⟩

/-- The same texts, up to what follows, are those of the same forms. -/
theorem eq_of_charsEach {fs gs : List Form} (hfs : LegibleEach fs) (hgs : LegibleEach gs)
    {rest rest' : List Char} (h : charsEach fs ++ rest = charsEach gs ++ rest') :
    fs = gs ∧ rest = rest' := by
  match fs, gs with
  | [], [] =>
    rw [charsEach] at h
    exact ⟨rfl, List.append_cancel_left h⟩
  | [], g :: gs => simp [charsEach] at h
  | f :: fs, [] => simp [charsEach] at h
  | f :: fs, g :: gs =>
    rw [LegibleEach] at hfs hgs
    simp only [charsEach, List.cons_append, List.append_assoc, List.cons.injEq, true_and] at h
    obtain ⟨rfl, hothers⟩ :=
      eq_of_chars hfs.1 hgs.1 (delimited_charsEach fs rest) (delimited_charsEach gs rest') h
    obtain ⟨rfl, hafter⟩ := eq_of_charsEach hfs.2 hgs.2 hothers
    exact ⟨rfl, hafter⟩

end

end Form

/-! ### The forms of trees -/

variable {α : Type}

mutual

/-- The form in which the expression is printed. -/
def Expr.form : Expr α → Form
  | .literal value => .word value.render
  | .group inner => .list [.word "group", inner.form]
  | .unary op operand => .list [.word op.lexeme, operand.form]
  | .binary left op right => .list [.word op.lexeme, left.form, right.form]
  | .logical left op right => .list [.word op.lexeme, left.form, right.form]
  | .var _ name => .word name.lexeme
  | .assign _ name value => .list [.word "=", .word name.lexeme, value.form]
  | .call callee _ args => .list (.word "call" :: callee.form :: Expr.forms args)
  | .get object name => .list [.word ".", object.form, .word name.lexeme]
  | .set object name value =>
    .list [.word "=", .list [.word ".", object.form, .word name.lexeme], value.form]
  | .thisRef _ _ => .word "this"

/-- The forms of the expressions. -/
def Expr.forms : List (Expr α) → List Form
  | [] => []
  | e :: es => e.form :: Expr.forms es

end

/-- The form of an expression that may be missing. -/
def Expr.form? : Option (Expr α) → List Form
  | none => []
  | some e => [e.form]

mutual

/-- The form in which the statement is printed. -/
def Stmt.form : Stmt α → Form
  | .expr e => .list [.word ";", e.form]
  | .print e => .list [.word "print", e.form]
  | .var name value? => .list (.word "var" :: .word name.lexeme :: Expr.form? value?)
  | .block body => .list (.word "block" :: Stmt.forms body)
  | .ifThen condition thenBranch => .list [.word "if", condition.form, thenBranch.form]
  | .ifElse condition thenBranch elseBranch =>
    .list [.word "if-else", condition.form, thenBranch.form, elseBranch.form]
  | .whileLoop condition body => .list [.word "while", condition.form, body.form]
  | .function decl => Stmt.functionForm "fun" decl
  | .ret _ value? => .list (.word "return" :: Expr.form? value?)
  | .classDecl name methods => .list (.word "class" :: .word name.lexeme :: Stmt.methodForms methods)

/-- The forms of the statements. -/
def Stmt.forms : List (Stmt α) → List Form
  | [] => []
  | s :: ss => s.form :: Stmt.forms ss

/-- The form of a function after the given tag: name, parameters, body. -/
def Stmt.functionForm (tag : String) : FunDecl α (Stmt α) → Form
  | ⟨_, name, params, body⟩ =>
    .list (.word tag :: .word name.lexeme :: .list (params.map (.word ·.lexeme)) :: Stmt.forms body)

/-- The forms of the methods. -/
def Stmt.methodForms : List (FunDecl α (Stmt α)) → List Form
  | [] => []
  | m :: ms => Stmt.functionForm "method" m :: Stmt.methodForms ms

end

/-! ### What is printed is the text of the form -/

mutual

theorem Expr.render_toList (e : Expr α) : e.render.toList = e.form.chars := by
  cases e with
  | literal _ | var _ _ | thisRef _ _ => rfl
  | group inner => simp [Expr.render, Expr.form, Form.chars, Form.charsEach, Expr.render_toList inner]
  | unary op operand =>
    simp [Expr.render, Expr.form, Form.chars, Form.charsEach, Expr.render_toList operand]
  | binary left op right | logical left op right =>
    simp [Expr.render, Expr.form, Form.chars, Form.charsEach, Expr.render_toList left,
      Expr.render_toList right]
  | assign label name value =>
    simp [Expr.render, Expr.form, Form.chars, Form.charsEach, Expr.render_toList value]
  | call callee paren args =>
    simp [Expr.render, Expr.form, Form.chars, Form.charsEach, Expr.render_toList callee,
      Expr.renderEach_toList args]
  | get object name =>
    simp [Expr.render, Expr.form, Form.chars, Form.charsEach, Expr.render_toList object]
  | set object name value =>
    simp [Expr.render, Expr.form, Form.chars, Form.charsEach, Expr.render_toList object,
      Expr.render_toList value]

theorem Expr.renderEach_toList (es : List (Expr α)) :
    (Expr.renderEach es).toList ++ [')'] = Form.charsEach (Expr.forms es) := by
  cases es with
  | nil => rfl
  | cons e es =>
    simp [Expr.renderEach, Expr.forms, Form.charsEach, Expr.render_toList e,
      ← Expr.renderEach_toList es]

end

/-- The parameters of a function between their parentheses. -/
theorem parameters_toList (params : List Token) :
    '(' :: ((" ".intercalate (params.map Token.lexeme)).toList ++ [')']) =
      (Form.list (params.map (.word ·.lexeme))).chars := by
  cases params with
  | nil => rfl
  | cons p ps =>
    rw [List.map_cons, List.map_cons, Form.chars, Form.chars]
    congr 1
    induction ps generalizing p with
    | nil => simp [Form.charsEach]
    | cons q qs ih =>
      rw [List.map_cons, List.map_cons, String.intercalate_cons_cons, Form.charsEach, Form.chars, ← ih]
      simp

mutual

theorem Stmt.render_toList (s : Stmt α) : s.render.toList = s.form.chars := by
  cases s with
  | expr e => simp [Stmt.render, Stmt.form, Form.chars, Form.charsEach, Expr.render_toList e]
  | print e => simp [Stmt.render, Stmt.form, Form.chars, Form.charsEach, Expr.render_toList e]
  | var name value? =>
    cases value? with
    | none => simp [Stmt.render, Stmt.form, Expr.form?, Form.chars, Form.charsEach]
    | some value =>
      simp [Stmt.render, Stmt.form, Expr.form?, Form.chars, Form.charsEach, Expr.render_toList value]
  | block body =>
    simp [Stmt.render, Stmt.form, Form.chars, Stmt.renderEach_toList body]
  | ifThen condition s =>
    simp [Stmt.render, Stmt.form, Form.chars, Form.charsEach, Expr.render_toList condition,
      Stmt.render_toList s]
  | ifElse condition s s' =>
    simp [Stmt.render, Stmt.form, Form.chars, Form.charsEach, Expr.render_toList condition,
      Stmt.render_toList s, Stmt.render_toList s']
  | whileLoop condition body =>
    simp [Stmt.render, Stmt.form, Form.chars, Form.charsEach, Expr.render_toList condition,
      Stmt.render_toList body]
  | function decl => exact Stmt.renderFunction_toList "fun" decl
  | ret keyword value? =>
    cases value? with
    | none => simp [Stmt.render, Stmt.form, Expr.form?, Form.chars, Form.charsEach]
    | some value =>
      simp [Stmt.render, Stmt.form, Expr.form?, Form.chars, Form.charsEach, Expr.render_toList value]
  | classDecl name methods =>
    simp [Stmt.render, Stmt.form, Form.chars, Form.charsEach, Stmt.renderMethods_toList methods]

theorem Stmt.renderEach_toList (ss : List (Stmt α)) :
    (Stmt.renderEach ss).toList ++ [')'] = Form.charsEach (Stmt.forms ss) := by
  cases ss with
  | nil => rfl
  | cons s ss =>
    simp [Stmt.renderEach, Stmt.forms, Form.charsEach, Stmt.render_toList s,
      ← Stmt.renderEach_toList ss]

theorem Stmt.renderFunction_toList (tag : String) (decl : FunDecl α (Stmt α)) :
    (Stmt.renderFunction tag decl).toList = (Stmt.functionForm tag decl).chars := by
  obtain ⟨label, name, params, body⟩ := decl
  simp [Stmt.renderFunction, Stmt.functionForm, Form.chars, Form.charsEach, ← parameters_toList,
    ← Stmt.renderEach_toList body]

theorem Stmt.renderMethods_toList (methods : List (FunDecl α (Stmt α))) :
    (Stmt.renderMethods methods).toList ++ [')'] = Form.charsEach (Stmt.methodForms methods) := by
  cases methods with
  | nil => rfl
  | cons m ms =>
    simp [Stmt.renderMethods, Stmt.methodForms, Form.charsEach, Stmt.renderFunction_toList "method" m,
      ← Stmt.renderMethods_toList ms]

end

end LoxLang
