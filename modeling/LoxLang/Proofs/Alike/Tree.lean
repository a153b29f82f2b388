import LoxLang.Proofs.Similar.Check
import LoxLang.Proofs.Tree.Proper
import Mathlib.Data.List.Forall2
import Mathlib.Tactic.SplitIfs

/-!
# Trees that run alike

A `Difference` tells how the second of two runs may differ from the first: which name occurrences and
which tokens correspond, the tables of distances, and a local variable that has another name.
`Stmt.Alike d marks s s'` says that the statements differ in no more than this.  Which scopes have the
variable is told by marks, one for each scope around the statement, innermost first: a mark says that
the variable `old` of the scope has the new name.  A use belongs to the scope at the distance that the
table has for it, so that nothing else of the scope check is needed here.

Similar trees are alike as long as no scope is marked (`Stmt.Similar.alike`), and alike trees stay so
under a difference that allows for more (`Stmt.Alike.mono`).
-/

namespace LoxLang

/-! ### Names -/

/-- The name of a variable after the renaming of `old` to `new`, if its scope is marked.  In a marked
scope nothing has been called `new` before. -/
def RenamedIf (old new : String) (marked : Bool) (n n' : String) : Prop :=
  (n' = if marked && n == old then new else n) ∧ (marked = true → n ≠ new)

section

variable {old new : String}

theorem RenamedIf.unmarked (n : String) : RenamedIf old new false n n := ⟨rfl, nofun⟩

/-- A name that is neither the old nor the new one stays as it is. -/
theorem RenamedIf.other {n : String} (hold : n ≠ old) (hnew : n ≠ new) (marked : Bool) :
    RenamedIf old new marked n n := ⟨by simp [hold], fun _ => hnew⟩

/-- Different names stay different. -/
theorem RenamedIf.eq_iff {marked : Bool} {n n' k k' : String} (hn : RenamedIf old new marked n n')
    (hk : RenamedIf old new marked k k') : k' = n' ↔ k = n := by
  obtain ⟨rfl, hn⟩ := hn
  obtain ⟨rfl, hk⟩ := hk
  cases marked with
  | false => simp
  | true =>
    have hn := hn rfl
    have hk := hk rfl
    by_cases hkold : k = old
    · by_cases hnold : n = old
      · simp [hkold, hnold]
      · simpa [hkold, hnold] using ⟨fun h => absurd h.symm hn, fun h => absurd h.symm hnold⟩
    · by_cases hnold : n = old
      · simpa [hkold, hnold] using hk
      · simp [hkold, hnold]

end

/-! ### Differences -/

/-- How the second of two runs may differ from the first. -/
structure Difference where
  /-- The distances that the first run knows. -/
  table : Bindings
  /-- The distances that the second run knows. -/
  table' : Bindings
  /-- Occurrences of names that correspond. -/
  labels : NodeId → NodeId → Prop
  /-- Tokens that correspond. -/
  tokens : Token → Token → Prop
  /-- The local variable that has another name, where its scope is marked. -/
  old : String
  /-- The name that this variable has in the second run. -/
  new : String
  distance : table.Agree labels table'
  old_ne_this : old ≠ thisName
  new_ne_this : new ≠ thisName

/-- The variable that an occurrence stands for lives in a marked scope. -/
def Bindings.marked (b : Bindings) (marks : List Bool) (id : NodeId) : Bool :=
  (b.distance? id).any fun d => marks[d]? == some true

section

variable (d : Difference)

/-- The tokens correspond and have the same text, but for the new name of a marked variable. -/
structure Token.Alike (marked : Bool) (t t' : Token) : Prop where
  place : d.tokens t t'
  kind : t'.kind = t.kind
  name : RenamedIf d.old d.new marked t.lexeme t'.lexeme

/-! ### Trees -/

mutual

/-- The expressions differ in no more than the difference allows. -/
inductive Expr.Alike : List Bool → Expr NodeId → Expr NodeId → Prop where
  | literal {marks l} : Expr.Alike marks (.literal l) (.literal l)
  | group {marks e e'} : Expr.Alike marks e e' → Expr.Alike marks (.group e) (.group e')
  | unary {marks op op' e e'} : op.Alike d false op' → Expr.Alike marks e e' →
    Expr.Alike marks (.unary op e) (.unary op' e')
  | binary {marks l l' op op' r r'} : Expr.Alike marks l l' → op.Alike d false op' →
    Expr.Alike marks r r' → Expr.Alike marks (.binary l op r) (.binary l' op' r')
  | logical {marks l l' op op' r r'} : Expr.Alike marks l l' → op.Alike d false op' →
    Expr.Alike marks r r' → Expr.Alike marks (.logical l op r) (.logical l' op' r')
  | var {marks id id' t t'} : d.labels id id' → t.Alike d (d.table.marked marks id) t' →
    Expr.Alike marks (.var id t) (.var id' t')
  | assign {marks id id' t t' e e'} : d.labels id id' → t.Alike d (d.table.marked marks id) t' →
    Expr.Alike marks e e' → Expr.Alike marks (.assign id t e) (.assign id' t' e')
  | call {marks f f' paren paren' es es'} : Expr.Alike marks f f' → paren.Alike d false paren' →
    Expr.AlikeEach marks es es' → Expr.Alike marks (.call f paren es) (.call f' paren' es')
  | get {marks e e' name name'} : Expr.Alike marks e e' → name.Alike d false name' →
    Expr.Alike marks (.get e name) (.get e' name')
  | set {marks o o' name name' e e'} : Expr.Alike marks o o' → name.Alike d false name' →
    Expr.Alike marks e e' → Expr.Alike marks (.set o name e) (.set o' name' e')
  | thisRef {marks id id' t t'} : d.labels id id' → t.Alike d (d.table.marked marks id) t' →
    Expr.Alike marks (.thisRef id t) (.thisRef id' t')

/-- The expressions differ one by one in no more than the difference allows. -/
inductive Expr.AlikeEach : List Bool → List (Expr NodeId) → List (Expr NodeId) → Prop where
  | nil {marks} : Expr.AlikeEach marks [] []
  | cons {marks e e' es es'} : Expr.Alike marks e e' → Expr.AlikeEach marks es es' →
    Expr.AlikeEach marks (e :: es) (e' :: es')

end

/-- Two expressions that may be missing are alike, or both missing. -/
def Expr.Alike? (marks : List Bool) : Option (Expr NodeId) → Option (Expr NodeId) → Prop :=
  Option.Rel (Expr.Alike d marks)

/-- A name that is declared in a scope, and is not given a new name there. -/
def KeepsName (marks : List Bool) (t : Token) : Prop :=
  marks.head? = some true → t.lexeme ≠ d.old ∧ t.lexeme ≠ d.new

mutual

/-- The statements differ in no more than the difference allows. -/
inductive Stmt.Alike : List Bool → Stmt NodeId → Stmt NodeId → Prop where
  | expr {marks e e'} : Expr.Alike d marks e e' → Stmt.Alike marks (.expr e) (.expr e')
  | print {marks e e'} : Expr.Alike d marks e e' → Stmt.Alike marks (.print e) (.print e')
  | var {marks t t' e? e?'} : t.Alike d (marks.head? == some true) t' →
    Expr.Alike? d marks e? e?' → Stmt.Alike marks (.var t e?) (.var t' e?')
  | block {marks mark body body'} : Stmt.AlikeEach (mark :: marks) body body' →
    Stmt.Alike marks (.block body) (.block body')
  | ifThen {marks e e' s s'} : Expr.Alike d marks e e' → Stmt.Alike marks s s' →
    Stmt.Alike marks (.ifThen e s) (.ifThen e' s')
  | ifElse {marks e e' s s' t t'} : Expr.Alike d marks e e' → Stmt.Alike marks s s' →
    Stmt.Alike marks t t' → Stmt.Alike marks (.ifElse e s t) (.ifElse e' s' t')
  | whileLoop {marks e e' s s'} : Expr.Alike d marks e e' → Stmt.Alike marks s s' →
    Stmt.Alike marks (.whileLoop e s) (.whileLoop e' s')
  | function {marks f f'} : KeepsName d marks f.name → Stmt.AlikeFunction marks f f' →
    Stmt.Alike marks (.function f) (.function f')
  | ret {marks keyword keyword' e? e?'} : Expr.Alike? d marks e? e?' →
    Stmt.Alike marks (.ret keyword e?) (.ret keyword' e?')
  | classDecl {marks t t' fs fs'} : KeepsName d marks t → t.Alike d false t' →
    Stmt.AlikeFunctions (false :: marks) fs fs' →
    Stmt.Alike marks (.classDecl t fs) (.classDecl t' fs')

/-- The statements differ one by one in no more than the difference allows. -/
inductive Stmt.AlikeEach : List Bool → List (Stmt NodeId) → List (Stmt NodeId) → Prop where
  | nil {marks} : Stmt.AlikeEach marks [] []
  | cons {marks s s' ss ss'} : Stmt.Alike marks s s' → Stmt.AlikeEach marks ss ss' →
    Stmt.AlikeEach marks (s :: ss) (s' :: ss')

/-- The functions differ in no more than the difference allows, their parameters included. -/
inductive Stmt.AlikeFunction : List Bool → Function NodeId → Function NodeId → Prop where
  | mk {marks mark label label' t t' ps ps' body body'} : t.Alike d false t' →
    List.Forall₂ (Token.Alike d mark) ps ps' → Stmt.AlikeEach (mark :: marks) body body' →
    Stmt.AlikeFunction marks ⟨label, t, ps, body⟩ ⟨label', t', ps', body'⟩

/-- The functions differ one by one in no more than the difference allows. -/
inductive Stmt.AlikeFunctions :
    List Bool → List (Function NodeId) → List (Function NodeId) → Prop where
  | nil {marks} : Stmt.AlikeFunctions marks [] []
  | cons {marks f f' fs fs'} : Stmt.AlikeFunction marks f f' → Stmt.AlikeFunctions marks fs fs' →
    Stmt.AlikeFunctions marks (f :: fs) (f' :: fs')

end

end

/-! ### What stays the same -/

section

variable {d : Difference} {marks : List Bool}

/-- The tokens have the same text where no variable is renamed. -/
theorem Token.Alike.lexeme {t t' : Token} (h : t.Alike d false t') : t'.lexeme = t.lexeme :=
  h.name.1

theorem Token.Alike.is_eq {marked : Bool} {t t' : Token} (h : t.Alike d marked t') (s : Symbol) :
    t'.is s = t.is s := by rw [Token.is, Token.is, h.kind]

theorem Stmt.AlikeFunction.name {f f' : Function NodeId} (h : Stmt.AlikeFunction d marks f f') :
    f.name.Alike d false f'.name := by
  cases h with
  | mk hname => exact hname

theorem Stmt.AlikeFunction.arity {f f' : Function NodeId} (h : Stmt.AlikeFunction d marks f f') :
    f'.arity = f.arity := by
  cases h with
  | mk _ hparams => exact hparams.length_eq.symm

theorem Stmt.AlikeFunction.isInitializer {f f' : Function NodeId}
    (h : Stmt.AlikeFunction d marks f f') : f'.isInitializer = f.isInitializer := by
  rw [FunDecl.isInitializer, FunDecl.isInitializer, h.name.lexeme]

end

/-! ### Further differences -/

/-- The second difference allows for what the first one allows for, and agrees with it on the distances
of the occurrences that correspond in it. -/
structure Difference.Within (d d₁ : Difference) : Prop where
  labels : ∀ {id id'}, d.labels id id' → d₁.labels id id'
  tokens : ∀ {t t'}, d.tokens t t' → d₁.tokens t t'
  old : d₁.old = d.old
  new : d₁.new = d.new
  table : ∀ {id id'}, d.labels id id' → d₁.table.distance? id = d.table.distance? id

/-- The same difference where the second run knows other distances. -/
def Difference.retable (d : Difference) (table' : Bindings) (h : d.table.Agree d.labels table') :
    Difference := { d with table', distance := h }

section

variable {d d₁ : Difference} {marks : List Bool}

theorem Difference.table_retable {table' : Bindings} (h : d.table.Agree d.labels table') :
    (d.retable table' h).table = d.table := rfl

theorem Difference.table'_retable {table' : Bindings} (h : d.table.Agree d.labels table') :
    (d.retable table' h).table' = table' := rfl

theorem Difference.within_retable {table' : Bindings} (h : d.table.Agree d.labels table') :
    d.Within (d.retable table' h) := ⟨id, id, rfl, rfl, fun _ => rfl⟩

/-- What the second run knows does not matter to further differences. -/
theorem Difference.Within.retable (hd : d.Within d₁) {table' : Bindings}
    (h : d.table.Agree d.labels table') : (d.retable table' h).Within d₁ :=
  ⟨hd.labels, hd.tokens, hd.old, hd.new, hd.table⟩

theorem Token.Alike.mono (hd : d.Within d₁) {marked : Bool} {t t' : Token}
    (h : t.Alike d marked t') : t.Alike d₁ marked t' where
  place := hd.tokens h.place
  kind := h.kind
  name := by rw [hd.old, hd.new]; exact h.name

theorem Token.Alike.mono_use (hd : d.Within d₁) {id id' : NodeId} (hid : d.labels id id')
    {t t' : Token} (h : t.Alike d (d.table.marked marks id) t') :
    t.Alike d₁ (d₁.table.marked marks id) t' := by
  rw [Bindings.marked, hd.table hid]
  exact h.mono hd

mutual

theorem Expr.Alike.mono (hd : d.Within d₁) {e e' : Expr NodeId} (h : Expr.Alike d marks e e') :
    Expr.Alike d₁ marks e e' := by
  cases e with
  | literal value => cases h with | literal => exact .literal
  | group inner => cases h with | group h => exact .group (h.mono hd)
  | unary op operand => cases h with | unary hop h => exact .unary (hop.mono hd) (h.mono hd)
  | binary left op right =>
    cases h with | binary hl hop hr => exact .binary (hl.mono hd) (hop.mono hd) (hr.mono hd)
  | logical left op right =>
    cases h with | logical hl hop hr => exact .logical (hl.mono hd) (hop.mono hd) (hr.mono hd)
  | var id name => cases h with | var hid ht => exact .var (hd.labels hid) (ht.mono_use hd hid)
  | assign id name value =>
    cases h with
    | assign hid ht h => exact .assign (hd.labels hid) (ht.mono_use hd hid) (h.mono hd)
  | call callee paren args =>
    cases h with | call hf hparen hes => exact .call (hf.mono hd) (hparen.mono hd) (hes.mono hd)
  | get object name => cases h with | get h hname => exact .get (h.mono hd) (hname.mono hd)
  | set object name value =>
    cases h with | set ho hname h => exact .set (ho.mono hd) (hname.mono hd) (h.mono hd)
  | thisRef id keyword =>
    cases h with | thisRef hid ht => exact .thisRef (hd.labels hid) (ht.mono_use hd hid)

theorem Expr.AlikeEach.mono (hd : d.Within d₁) {es es' : List (Expr NodeId)}
    (h : Expr.AlikeEach d marks es es') : Expr.AlikeEach d₁ marks es es' := by
  cases es with
  | nil => cases h with | nil => exact .nil
  | cons e es => cases h with | cons he hes => exact .cons (he.mono hd) (hes.mono hd)

end

theorem Expr.Alike?.mono (hd : d.Within d₁) {e? e?' : Option (Expr NodeId)}
    (h : Expr.Alike? d marks e? e?') : Expr.Alike? d₁ marks e? e?' := by
  cases h with
  | none => exact .none
  | some h => exact .some (h.mono hd)

theorem KeepsName.mono (hd : d.Within d₁) {t : Token} (h : KeepsName d marks t) :
    KeepsName d₁ marks t := by
  rw [KeepsName, hd.old, hd.new]
  exact h

mutual

theorem Stmt.Alike.mono {marks : List Bool} (hd : d.Within d₁) {s s' : Stmt NodeId}
    (h : Stmt.Alike d marks s s') : Stmt.Alike d₁ marks s s' := by
  cases s with
  | expr e => cases h with | expr h => exact .expr (h.mono hd)
  | print e => cases h with | print h => exact .print (h.mono hd)
  | var name value? => cases h with | var ht h => exact .var (ht.mono hd) (h.mono hd)
  | block body => cases h with | block h => exact .block (h.mono hd)
  | ifThen condition s => cases h with | ifThen he hs => exact .ifThen (he.mono hd) (hs.mono hd)
  | ifElse condition s t =>
    cases h with | ifElse he hs ht => exact .ifElse (he.mono hd) (hs.mono hd) (ht.mono hd)
  | whileLoop condition body =>
    cases h with | whileLoop he hs => exact .whileLoop (he.mono hd) (hs.mono hd)
  | function decl => cases h with | function hk h => exact .function (hk.mono hd) (h.mono hd)
  | ret keyword value? => cases h with | ret h => exact .ret (h.mono hd)
  | classDecl name methods =>
    cases h with
    | classDecl hk ht h => exact .classDecl (hk.mono hd) (ht.mono hd) (h.mono hd)
termination_by structural s

theorem Stmt.AlikeEach.mono {marks : List Bool} (hd : d.Within d₁) {ss ss' : List (Stmt NodeId)}
    (h : Stmt.AlikeEach d marks ss ss') : Stmt.AlikeEach d₁ marks ss ss' := by
  cases ss with
  | nil => cases h with | nil => exact .nil
  | cons s ss => cases h with | cons hs hss => exact .cons (hs.mono hd) (hss.mono hd)
termination_by structural ss

theorem Stmt.AlikeFunction.mono {marks : List Bool} (hd : d.Within d₁)
    {f f' : FunDecl NodeId (Stmt NodeId)} (h : Stmt.AlikeFunction d marks f f') :
    Stmt.AlikeFunction d₁ marks f f' := by
  obtain ⟨label, name, params, body⟩ := f
  cases h with
  | mk ht hps h => exact .mk (ht.mono hd) (hps.imp fun _ _ hp => hp.mono hd) (h.mono hd)
termination_by structural f

theorem Stmt.AlikeFunctions.mono {marks : List Bool} (hd : d.Within d₁)
    {fs fs' : List (FunDecl NodeId (Stmt NodeId))} (h : Stmt.AlikeFunctions d marks fs fs') :
    Stmt.AlikeFunctions d₁ marks fs fs' := by
  cases fs with
  | nil => cases h with | nil => exact .nil
  | cons f fs => cases h with | cons hf hfs => exact .cons (hf.mono hd) (hfs.mono hd)
termination_by structural fs

end

end

/-! ### Without marks -/

section

variable {d : Difference} {marks : List Bool} {L : NodeId → NodeId → Prop}
  {K : Token → Token → Prop}

theorem Bindings.marked_eq_false {b : Bindings} (h : true ∉ marks) (id : NodeId) :
    b.marked marks id = false := by
  rw [Bindings.marked, Option.any_eq_false]
  exact fun d _ => beq_false_of_ne fun hd => h (List.mem_of_getElem? hd)

theorem head?_ne_true (h : true ∉ marks) : marks.head? ≠ some true :=
  fun hhead => h (List.mem_of_mem_head? hhead)

theorem unmarked_cons (h : true ∉ marks) : true ∉ false :: marks := by simpa using h

theorem KeepsName.unmarked (h : true ∉ marks) (t : Token) : KeepsName d marks t := fun hhead =>
  absurd hhead (head?_ne_true h)

/-- The difference allows for labels and tokens that correspond. -/
structure Difference.Allows (d : Difference) (L : NodeId → NodeId → Prop)
    (K : Token → Token → Prop) : Prop where
  labels : ∀ {id id'}, L id id' → d.labels id id'
  tokens : ∀ {t t'}, K t t' → d.tokens t t'

theorem Token.Similar.alike (hd : d.Allows L K) {t t' : Token} (h : t.Similar K t') :
    t.Alike d false t' where
  place := hd.tokens h.place
  kind := h.kind
  name := by rw [h.lexeme]; exact .unmarked t.lexeme

/-- A use of a variable whose scope is not marked. -/
theorem Token.Similar.alike_use (hd : d.Allows L K) (hmarks : true ∉ marks) (id : NodeId)
    {t t' : Token} (h : t.Similar K t') : t.Alike d (d.table.marked marks id) t' := by
  rw [Bindings.marked_eq_false hmarks]
  exact h.alike hd

mutual

theorem Expr.Similar.alike (hd : d.Allows L K) (hmarks : true ∉ marks) {e e' : Expr NodeId}
    (h : Expr.Similar L K e e') : Expr.Alike d marks e e' := by
  cases e with
  | literal value => cases h with | literal => exact .literal
  | group inner => cases h with | group h => exact .group (h.alike hd hmarks)
  | unary op operand =>
    cases h with | unary hop h => exact .unary (hop.alike hd) (h.alike hd hmarks)
  | binary left op right =>
    cases h with
    | binary hl hop hr => exact .binary (hl.alike hd hmarks) (hop.alike hd) (hr.alike hd hmarks)
  | logical left op right =>
    cases h with
    | logical hl hop hr => exact .logical (hl.alike hd hmarks) (hop.alike hd) (hr.alike hd hmarks)
  | var id name =>
    cases h with | var hid ht => exact .var (hd.labels hid) (ht.alike_use hd hmarks id)
  | assign id name value =>
    cases h with
    | assign hid ht h =>
      exact .assign (hd.labels hid) (ht.alike_use hd hmarks id) (h.alike hd hmarks)
  | call callee paren args =>
    cases h with
    | call hf hparen hes => exact .call (hf.alike hd hmarks) (hparen.alike hd) (hes.alike hd hmarks)
  | get object name => cases h with | get h hname => exact .get (h.alike hd hmarks) (hname.alike hd)
  | set object name value =>
    cases h with
    | set ho hname h => exact .set (ho.alike hd hmarks) (hname.alike hd) (h.alike hd hmarks)
  | thisRef id keyword =>
    cases h with | thisRef hid ht => exact .thisRef (hd.labels hid) (ht.alike_use hd hmarks id)

theorem Expr.SimilarEach.alike (hd : d.Allows L K) (hmarks : true ∉ marks)
    {es es' : List (Expr NodeId)} (h : Expr.SimilarEach L K es es') :
    Expr.AlikeEach d marks es es' := by
  cases es with
  | nil => cases h with | nil => exact .nil
  | cons e es => cases h with | cons he hes => exact .cons (he.alike hd hmarks) (hes.alike hd hmarks)

end

theorem Expr.Similar?.alike (hd : d.Allows L K) (hmarks : true ∉ marks)
    {e? e?' : Option (Expr NodeId)} (h : Expr.Similar? L K e? e?') : Expr.Alike? d marks e? e?' := by
  cases h with
  | none => exact .none
  | some h => exact .some (h.alike hd hmarks)

theorem Token.Similar.alike_params (hd : d.Allows L K) {ps ps' : List Token}
    (h : List.Forall₂ (Token.Similar K) ps ps') : List.Forall₂ (Token.Alike d false) ps ps' :=
  h.imp fun _ _ hp => hp.alike hd

mutual

theorem Stmt.Similar.alike {marks : List Bool} (hd : d.Allows L K) (hmarks : true ∉ marks)
    {s s' : Stmt NodeId} (h : Stmt.Similar L K s s') : Stmt.Alike d marks s s' := by
  cases s with
  | expr e => cases h with | expr h => exact .expr (h.alike hd hmarks)
  | print e => cases h with | print h => exact .print (h.alike hd hmarks)
  | var name value? =>
    cases h with
    | var ht h =>
      refine .var ?_ (h.alike hd hmarks)
      rw [beq_false_of_ne (head?_ne_true hmarks)]
      exact ht.alike hd
  | block body => cases h with | block h => exact .block (h.alike hd (unmarked_cons hmarks))
  | ifThen condition s =>
    cases h with | ifThen he hs => exact .ifThen (he.alike hd hmarks) (hs.alike hd hmarks)
  | ifElse condition s s' =>
    cases h with
    | ifElse he hs ht =>
      exact .ifElse (he.alike hd hmarks) (hs.alike hd hmarks) (ht.alike hd hmarks)
  | whileLoop condition body =>
    cases h with | whileLoop he hs => exact .whileLoop (he.alike hd hmarks) (hs.alike hd hmarks)
  | function decl =>
    cases h with | function h => exact .function (.unmarked hmarks _) (h.alike hd hmarks)
  | ret keyword value? => cases h with | ret _ h => exact .ret (h.alike hd hmarks)
  | classDecl name methods =>
    cases h with
    | classDecl ht h =>
      exact .classDecl (.unmarked hmarks _) (ht.alike hd) (h.alike hd (unmarked_cons hmarks))

theorem Stmt.SimilarEach.alike {marks : List Bool} (hd : d.Allows L K) (hmarks : true ∉ marks)
    {ss ss' : List (Stmt NodeId)} (h : Stmt.SimilarEach L K ss ss') :
    Stmt.AlikeEach d marks ss ss' := by
  cases ss with
  | nil => cases h with | nil => exact .nil
  | cons s ss => cases h with | cons hs hss => exact .cons (hs.alike hd hmarks) (hss.alike hd hmarks)

theorem Stmt.SimilarFunction.alike {marks : List Bool} (hd : d.Allows L K) (hmarks : true ∉ marks)
    {f f' : FunDecl NodeId (Stmt NodeId)} (h : Stmt.SimilarFunction L K f f') :
    Stmt.AlikeFunction d marks f f' := by
  obtain ⟨label, name, params, body⟩ := f
  cases h with
  | mk _ ht hps h =>
    exact .mk (ht.alike hd) (Token.Similar.alike_params hd hps) (h.alike hd (unmarked_cons hmarks))

theorem Stmt.SimilarFunctions.alike {marks : List Bool} (hd : d.Allows L K) (hmarks : true ∉ marks)
    {fs fs' : List (FunDecl NodeId (Stmt NodeId))} (h : Stmt.SimilarFunctions L K fs fs') :
    Stmt.AlikeFunctions d marks fs fs' := by
  cases fs with
  | nil => cases h with | nil => exact .nil
  | cons f fs => cases h with | cons hf hfs => exact .cons (hf.alike hd hmarks) (hfs.alike hd hmarks)

end

/-! ### A tree and itself -/

/-- Every token is alike itself where no variable is renamed. -/
theorem Token.Alike.refl (hd : d.Allows Eq Eq) (t : Token) : t.Alike d false t :=
  (Token.Similar.refl (K := Eq) rfl).alike hd

theorem Expr.Alike.refl (hd : d.Allows Eq Eq) (h : true ∉ marks) (e : Expr NodeId) :
    Expr.Alike d marks e e := (Expr.Similar.refl e).alike hd h

theorem Stmt.Alike.refl (hd : d.Allows Eq Eq) (h : true ∉ marks) (s : Stmt NodeId) :
    Stmt.Alike d marks s s := (Stmt.Similar.refl s).alike hd h

theorem Stmt.AlikeEach.refl (hd : d.Allows Eq Eq) (h : true ∉ marks) (ss : List (Stmt NodeId)) :
    Stmt.AlikeEach d marks ss ss := (Stmt.SimilarEach.refl ss).alike hd h

theorem Stmt.AlikeFunction.refl (hd : d.Allows Eq Eq) (h : true ∉ marks) (f : Function NodeId) :
    Stmt.AlikeFunction d marks f f := (Stmt.SimilarFunction.refl f).alike hd h

theorem Stmt.AlikeFunctions.refl (hd : d.Allows Eq Eq) (h : true ∉ marks)
    (fs : List (Function NodeId)) : Stmt.AlikeFunctions d marks fs fs :=
  (Stmt.SimilarFunctions.refl fs).alike hd h

end

end LoxLang
