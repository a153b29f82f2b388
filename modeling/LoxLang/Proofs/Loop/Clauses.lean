import LoxLang.Proofs.Loop.Reference
import LoxLang.Proofs.Run.Tables
import LoxLang.Proofs.Scope.Agreement
import LoxLang.Proofs.Scope.Vacant

/-!
# The names in the clauses of a `for` loop

The condition of a `for` loop is checked with the scopes that there are directly after the initializer,
and the increment with one more, which is empty, whatever the body declares (`reaches_condition`,
`reaches_increment`).  So each name stands for what it would stand for directly after the initializer, and
a name of the increment has one scope more to go (`uses_push`).

An increment that is evaluated in the scope of the loop needs the distances from there.  It is given
labels of its own, and a table that has them besides (`AddsCopy`); no other code notices.  With it the
tree of the loop does what the loop is meant to do (`for_loop_keeps_meaning`).
-/

namespace LoxLang

/-- The use of a name, with one more scope between it and the declaration. -/
def NameUse.further (u : NameUse) : NameUse := { u with distance? := u.distance?.map (· + 1) }

namespace Scoping

mutual

/-- In a new scope the names are the same, and one scope further away. -/
theorem uses_push (inClass : Bool) (e : Expr NodeId) (scopes : Scopes) :
    (expr inClass e (∅ :: scopes)).2.uses = (expr inClass e scopes).2.uses.map NameUse.further := by
  have htrace (id : NodeId) (name : Token) :
      (trace id name (∅ :: scopes)).2.uses = (trace id name scopes).2.uses.map NameUse.further := by
    have hpush : distance? (∅ :: scopes) name.lexeme = (distance? scopes name.lexeme).map (· + 1) :=
      distance?_push rfl
    simp [trace, NameUse.further, hpush]
  cases e with
  | literal value => rfl
  | group inner => exact uses_push inClass inner scopes
  | unary op operand => exact uses_push inClass operand scopes
  | binary left op right | logical left op right =>
    simp only [expr, Pass.append_apply, scopes_expr, uses_push inClass left, uses_push inClass right,
      List.map_append]
  | var id name =>
    simp only [expr, Pass.append_apply, refuseIncomplete, Pass.scopes_faultIf, Pass.uses_faultIf,
      List.nil_append, htrace]
  | assign id name value =>
    simp only [expr, Pass.append_apply, scopes_expr, uses_push inClass value, htrace, List.map_append]
  | call callee paren args =>
    simp only [expr, Pass.append_apply, scopes_expr, uses_push inClass callee,
      uses_push_each inClass args, List.map_append]
  | get object name => exact uses_push inClass object scopes
  | set object name value =>
    simp only [expr, Pass.append_apply, scopes_expr, uses_push inClass value, uses_push inClass object,
      List.map_append]
  | thisRef id keyword =>
    cases inClass with
    | true => exact htrace id keyword
    | false => rfl

theorem uses_push_each (inClass : Bool) (es : List (Expr NodeId)) (scopes : Scopes) :
    (exprs inClass es (∅ :: scopes)).2.uses = (exprs inClass es scopes).2.uses.map NameUse.further := by
  cases es with
  | nil => rfl
  | cons e es =>
    simp only [exprs, Pass.append_apply, scopes_expr, uses_push inClass e, uses_push_each inClass es,
      List.map_append]

end

mutual

/-- Every occurrence of a name in an expression without faults is used. -/
theorem exists_use (inClass : Bool) (e : Expr NodeId) (scopes : Scopes)
    (h : (expr inClass e scopes).2.errors = []) {id : NodeId} (hid : id ∈ e.labels) :
    ∃ u ∈ (expr inClass e scopes).2.uses, u.id = id := by
  cases e with
  | literal value => cases hid
  | group inner => exact exists_use inClass inner scopes h hid
  | unary op operand => exact exists_use inClass operand scopes h hid
  | binary left op right | logical left op right =>
    simp only [expr, Pass.append_apply, scopes_expr, List.append_eq_nil_iff, List.mem_append] at h ⊢
    rcases List.mem_append.1 hid with hid | hid
    · obtain ⟨u, hu, rfl⟩ := exists_use inClass left scopes h.1 hid
      exact ⟨u, .inl hu, rfl⟩
    · obtain ⟨u, hu, rfl⟩ := exists_use inClass right scopes h.2 hid
      exact ⟨u, .inr hu, rfl⟩
  | var id' name =>
    obtain rfl := List.mem_singleton.1 hid
    simp [expr, Pass.append_apply, refuseIncomplete, trace]
  | assign id' name value =>
    simp only [expr, Pass.append_apply, scopes_expr, List.append_eq_nil_iff, List.mem_append] at h ⊢
    rcases List.mem_cons.1 hid with rfl | hid
    · exact ⟨_, .inr List.mem_cons_self, rfl⟩
    · obtain ⟨u, hu, rfl⟩ := exists_use inClass value scopes h.1 hid
      exact ⟨u, .inl hu, rfl⟩
  | call callee paren args =>
    simp only [expr, Pass.append_apply, scopes_expr, List.append_eq_nil_iff, List.mem_append] at h ⊢
    rcases List.mem_append.1 hid with hid | hid
    · obtain ⟨u, hu, rfl⟩ := exists_use inClass callee scopes h.1 hid
      exact ⟨u, .inl hu, rfl⟩
    · obtain ⟨u, hu, rfl⟩ := exists_use_each inClass args scopes h.2 hid
      exact ⟨u, .inr hu, rfl⟩
  | get object name => exact exists_use inClass object scopes h hid
  | set object name value =>
    simp only [expr, Pass.append_apply, scopes_expr, List.append_eq_nil_iff, List.mem_append] at h ⊢
    rcases List.mem_append.1 hid with hid | hid
    · obtain ⟨u, hu, rfl⟩ := exists_use inClass object scopes h.2 hid
      exact ⟨u, .inr hu, rfl⟩
    · obtain ⟨u, hu, rfl⟩ := exists_use inClass value scopes h.1 hid
      exact ⟨u, .inl hu, rfl⟩
  | thisRef id' keyword =>
    obtain rfl := List.mem_singleton.1 hid
    cases inClass with
    | true => exact ⟨_, List.mem_cons_self, rfl⟩
    | false => simp [expr, Pass.fault] at h

theorem exists_use_each (inClass : Bool) (es : List (Expr NodeId)) (scopes : Scopes)
    (h : (exprs inClass es scopes).2.errors = []) {id : NodeId} (hid : id ∈ Expr.labelsEach es) :
    ∃ u ∈ (exprs inClass es scopes).2.uses, u.id = id := by
  cases es with
  | nil => cases hid
  | cons e es =>
    simp only [exprs, Pass.append_apply, scopes_expr, List.append_eq_nil_iff, List.mem_append] at h ⊢
    rcases List.mem_append.1 hid with hid | hid
    · obtain ⟨u, hu, rfl⟩ := exists_use inClass e scopes h.1 hid
      exact ⟨u, .inl hu, rfl⟩
    · obtain ⟨u, hu, rfl⟩ := exists_use_each inClass es scopes h.2 hid
      exact ⟨u, .inr hu, rfl⟩

end

/-! ### Where the clauses are visited -/

/-- The labels of a part differ if those of the whole do. -/
theorem Visit.Reaches.nodup {v w : Visit} (h : Visit.Reaches v w) (hv : v.code.labels.Nodup) :
    w.code.labels.Nodup := by
  induction h with
  | refl => exact hv
  | part hmem _ ih => exact ih (nodup_of_mem hv hmem)

/-- The scopes directly after the initializer of a loop, which has a scope of its own. -/
def afterInitializer (ctx : Context) : Option (Stmt NodeId) → Scopes → Scopes
  | none, scopes => scopes
  | some s, scopes => (stmt ctx s (∅ :: scopes)).1

section

variable {ctx : Context} {scopes : Scopes} {s : Stmt NodeId} {ss : List (Stmt NodeId)}

theorem reaches_block : Visit.Reaches ⟨.stmt (.block ss), ctx, scopes⟩ ⟨.stmts ss, ctx, ∅ :: scopes⟩ :=
  .of_mem List.mem_cons_self

theorem reaches_first : Visit.Reaches ⟨.stmts (s :: ss), ctx, scopes⟩ ⟨.stmt s, ctx, scopes⟩ :=
  .of_mem List.mem_cons_self

theorem reaches_others :
    Visit.Reaches ⟨.stmts (s :: ss), ctx, scopes⟩ ⟨.stmts ss, ctx, (stmt ctx s scopes).1⟩ :=
  .of_mem (List.mem_cons_of_mem _ List.mem_cons_self)

theorem reaches_body {c : Expr NodeId} :
    Visit.Reaches ⟨.stmt (.whileLoop c s), ctx, scopes⟩ ⟨.stmt s, ctx, scopes⟩ := by
  refine .of_mem (List.mem_cons_of_mem _ ?_)
  rw [Code.pass, scopes_expr]
  exact List.mem_cons_self

variable {initializer? : Option (Stmt NodeId)} {condition? increment? : Option (Expr NodeId)}
  {body : Stmt NodeId}

/-- After the initializer the check comes to the `while` loop. -/
theorem reaches_while : Visit.Reaches
    ⟨.stmt (.forLoop initializer? condition? increment? body), ctx, scopes⟩
    ⟨.stmt (.whileLoop (Evaluation.conditionOf condition?) (body.withIncrement increment?)), ctx,
      afterInitializer ctx initializer? scopes⟩ := by
  cases initializer? with
  | none => exact .refl _
  | some s => exact (reaches_block.trans reaches_others).trans reaches_first

theorem reaches_condition {c : Expr NodeId} (hc : condition? = some c) : Visit.Reaches
    ⟨.stmt (.forLoop initializer? condition? increment? body), ctx, scopes⟩
    ⟨.expr c, ctx, afterInitializer ctx initializer? scopes⟩ := by
  subst hc
  exact reaches_while.trans (.of_mem List.mem_cons_self)

/-- The body is visited, in a scope of its own if there is an increment. -/
theorem exists_reaches_body : ∃ scopes', Visit.Reaches
    ⟨.stmt (.forLoop initializer? condition? increment? body), ctx, scopes⟩ ⟨.stmt body, ctx, scopes'⟩ := by
  cases increment? with
  | none => exact ⟨_, reaches_while.trans reaches_body⟩
  | some e =>
    have hwhile : Visit.Reaches ⟨.stmt (.forLoop initializer? condition? (some e) body), ctx, scopes⟩ _ :=
      reaches_while
    have hfirst : Visit.Reaches _ ⟨.stmt body, ctx, _⟩ :=
      (hwhile.trans reaches_body).trans (reaches_block.trans reaches_first)
    exact ⟨_, hfirst⟩

/-- The increment is visited in one more scope, in which the body has declared nothing. -/
theorem reaches_increment {e : Expr NodeId} (he : increment? = some e)
    (hproper : (Stmt.forLoop initializer? condition? increment? body).Proper)
    (hbody : body.declared? = none) : Visit.Reaches
    ⟨.stmt (.forLoop initializer? condition? increment? body), ctx, scopes⟩
    ⟨.expr e, ctx, ∅ :: afterInitializer ctx initializer? scopes⟩ := by
  subst he
  have hwhile : Visit.Reaches ⟨.stmt (.forLoop initializer? condition? (some e) body), ctx, scopes⟩ _ :=
    reaches_while
  have hscopes := scopes_stmt (hwhile.proper hproper).2.2.1 ctx
    (∅ :: afterInitializer ctx initializer? scopes)
  rw [hbody, declaring] at hscopes
  have hothers : Visit.Reaches _ ⟨.stmts [.expr e], ctx, _⟩ :=
    (hwhile.trans reaches_body).trans (reaches_block.trans reaches_others)
  rw [hscopes] at hothers
  exact (hothers.trans reaches_first).trans (.of_mem List.mem_cons_self)

end

end Scoping

/-! ### What the parser makes of a loop -/

namespace Grammar

/-- The words of a `for` loop and its clauses, with numbers as labels. -/
inductive WritesLoop : List Token → Option (Stmt NodeId) → Option (Expr NodeId) → Option (Expr NodeId) →
    Stmt NodeId → Prop where
  | intro {o : Bool} {keyword lp semi rp : Token} {u v x w initializer? condition? increment? body}
      (n n₁ n₂ n₃ : NodeId) :
    keyword.is .forKw → lp.is .leftParen → Derives true .initializer u initializer? →
    Derives true .clause v condition? → semi.is .semicolon → Derives true .clause x increment? →
    rp.is .rightParen → Derives true (.statement o) w body →
    WritesLoop (keyword :: lp :: (u ++ (v ++ semi :: (x ++ rp :: w))))
      (initializer?.map fun s => (s.relabel freshId n).1)
      (condition?.map fun e => (e.relabel freshId n₁).1)
      (increment?.map fun e => (e.relabel freshId n₃).1) (body.relabel freshId n₂).1

theorem declared?_loopTree (condition? : Option (Expr Unit)) (body : Stmt Unit)
    (initializer? : Option (Stmt Unit)) (increment? : Option (Expr Unit)) :
    (loopTree condition? body initializer? increment?).declared? = none := by
  cases initializer? <;> cases increment? <;> rfl

/-- A statement that is derived as one declares nothing. -/
theorem Derives.declared?_eq_none {nearest o : Bool} {w : List Token} {s : Stmt Unit}
    (h : Derives nearest (.statement o) w s) : s.declared? = none := by
  cases h with
  | plain h =>
    cases h with
    | expressionStatement => rfl
  | forLoop => exact declared?_loopTree ..
  | _ => rfl

end Grammar

/-- A loop is still a loop when its names are numbered. -/
theorem Stmt.relabel_forLoop (initializer? : Option (Stmt Unit)) (condition? increment? : Option (Expr Unit))
    (body : Stmt Unit) (n : NodeId) : ∃ n₁ n₂ n₃,
      ((forLoop initializer? condition? increment? body).relabel freshId n).1 =
        forLoop (initializer?.map fun s => (s.relabel freshId n).1)
          (condition?.map fun e => (e.relabel freshId n₁).1)
          (increment?.map fun e => (e.relabel freshId n₃).1) (body.relabel freshId n₂).1 := by
  -- the numbers of each clause begin where those of the one before end
  let n₁ := (initializer?.map fun s => (s.relabel freshId n).2).getD n
  let n₂ := (condition?.map fun e => (e.relabel freshId n₁).2).getD n₁
  refine ⟨n₁, n₂, (body.relabel freshId n₂).2, ?_⟩
  cases initializer? <;> cases condition? <;> cases increment? <;> rfl

/-- A statement that begins with `for` is a loop, and its body declares nothing. -/
theorem Grammar.Derives.exists_forLoop {o : Bool} {keyword : Token} {w : List Token} {s : Stmt Unit}
    (h : Derives true (.statement o) (keyword :: w) s) (hk : keyword.is .forKw = true) (n : NodeId) :
    ∃ initializer? condition? increment? body,
      WritesLoop (keyword :: w) initializer? condition? increment? body ∧
      (s.relabel freshId n).1 = .forLoop initializer? condition? increment? body ∧
      body.declared? = none := by
  generalize hw : keyword :: w = tokens at h
  have hne {t : Token} {u : List Token} {s : Symbol} (hu : keyword :: w = t :: u)
      (ht : t.is s = true) (hs : s ≠ .forKw) : False := by
    cases hu
    exact hs (Parse.is_unique ht hk)
  have hbegins {n : Nonterminal} (h : Begins n tokens) (hn : .forKw ∉ firsts n) : False :=
    hn (by subst hw; exact h _ hk)
  cases h with
  | plain h => exact (hbegins (starts h) (by decide)).elim
  | blockStatement h => exact (hbegins (starts h) (by decide)).elim
  | print ht | ret ht | whileLoop ht | ifThen ht | ifElse ht => exact (hne hw ht nofun).elim
  | forLoop hk hlp hu hv hsemi hx hrp hbody =>
    rw [loopTree_eq]
    obtain ⟨n₁, n₂, n₃, hloop⟩ := Stmt.relabel_forLoop _ _ _ _ n
    exact ⟨_, _, _, _, .intro n n₁ n₂ n₃ hk hlp hu hv hsemi hx hrp hbody, hloop,
      (Stmt.relabel_declared? freshId _ n₂).trans hbody.declared?_eq_none⟩

/-! ### The meaning of a loop -/

open Scoping Evaluation

/-- The uses of names in a clause, which may be missing. -/
def Scoping.clauseUses (inClass : Bool) (clause? : Option (Expr NodeId)) (scopes : Scopes) :
    List NameUse := clause?.elim [] fun e => (expr inClass e scopes).2.uses

/-- The table `b` says of all code the same as `b₀`, and has besides the names of a copy with the labels
that `f` gives: they stand for what has been found for them. -/
structure AddsCopy (b₀ b : Bindings) (f : NodeId → NodeId) (uses : List NameUse) (s : Stmt NodeId)
    (m : Machine) : Prop where
  statement : ∀ id ∈ s.labels, b₀.distance? id = b.distance? id
  heap : m.heap.Labelled fun id => b₀.distance? id = b.distance? id
  copy : ∀ u ∈ uses, b.distance? (f u.id) = u.distance?

/-- There is room for a copy of any expression. -/
theorem exists_addsCopy {b₀ : Bindings} {bound : Nat} (hunused : ∀ id, bound ≤ id → b₀.distance? id = none)
    {uses : List NameUse} (huses : (uses.map (·.id)).Nodup) (s : Stmt NodeId) (m : Machine) :
    ∃ b f, AddsCopy b₀ b f uses s m := by
  obtain ⟨n, hn⟩ := Heap.Labelled.exists_bound m.heap
  obtain ⟨k, hk⟩ := s.labels.toFinset.exists_nat_subset_range
  -- the labels of the copy are larger than all that there are
  let f (id : Nat) : Nat := id + (bound + n + k)
  let copies := uses.map fun u => { u with id := f u.id }
  have hids : copies.map (·.id) = (uses.map (·.id)).map f := by simp [copies]
  have hold {id : Nat} (hid : id < bound + n + k) :
      b₀.distance? id = (b₀.recordUses copies).distance? id := by
    refine (Bindings.distance?_recordUses_of_notMem (fun hmem => ?_) _).symm
    rw [hids, List.mem_map] at hmem
    obtain ⟨id', -, rfl⟩ := hmem
    exact Nat.not_lt_of_le (Nat.le_add_left _ _) hid
  refine ⟨b₀.recordUses copies, f, fun id hid => hold ?_,
    ⟨fun hc id hid => hold ?_, fun hc id hid => hold ?_⟩, fun u hu => ?_⟩
  · have hlt : id < k := Finset.mem_range.1 (hk (List.mem_toFinset.2 hid))
    exact Nat.lt_add_left _ hlt
  · exact Nat.lt_add_right k (Nat.lt_add_left bound (hn.functions hc id hid))
  · exact Nat.lt_add_right k (Nat.lt_add_left bound (hn.methods hc id hid))
  · have hnodup : (copies.map (·.id)).Nodup := by
      rw [hids]
      exact huses.map fun id id' h => Nat.add_right_cancel h
    exact Bindings.distance?_recordUses hnodup (u := { u with id := f u.id }) (List.mem_map_of_mem hu)
      (hunused _ (Nat.le_add_left_of_le (Nat.le_add_right_of_le (Nat.le_add_right bound n))))

section

variable {ctx : Context} {scopes : Scopes} {initializer? : Option (Stmt NodeId)}
  {condition? increment? : Option (Expr NodeId)} {body : Stmt NodeId} {b₀ b : Bindings}
  {f : NodeId → NodeId} {m : Machine}

/-- On the tree of a loop whose increment has been copied the run does what the loop is meant to do. -/
theorem AddsCopy.finishes_forLoop_iff {uses : List NameUse}
    (h : AddsCopy b₀ b f uses (.forLoop initializer? condition? increment? body) m)
    (hlabels : ∀ e ∈ increment?, ∀ id ∈ e.labels,
      id ∈ (Stmt.forLoop initializer? condition? increment? body).labels ∧
      ∃ u ∈ uses, u.id = id ∧ b₀.distance? id = u.distance?.map (· + 1))
    (r : EStateM.Result Unwind Machine Unit) :
    Finishes (exec b₀ · (.forLoop initializer? condition? increment? body)) m r ↔
      ForLoop b condition? (increment?.map (·.copy f)) body initializer? m r := by
  simp only [Finishes, Ends, exec_congr h.statement h.heap]
  refine Evaluation.finishes_forLoop_iff fun e he id hid => ?_
  obtain ⟨hmem, u, hu, rfl, hdistance⟩ := hlabels e he id hid
  rw [← h.statement u.id hmem, hdistance, h.copy u hu]

/-- The names in an expression of an accepted source have the distances that were found for them. -/
theorem Session.Sound.distance_of_label {programs : List (List (Stmt NodeId))} {s : Session}
    (hs : s.Sound programs) {source : String} (haccepts : s.accepts source = true) {e : Expr NodeId}
    (hvisit : Visit.Reaches (.program (s.program source)) ⟨.expr e, ctx, scopes⟩) {id : NodeId}
    (hid : id ∈ e.labels) :
    ∃ u ∈ (expr ctx.inClass e scopes).2.uses,
      u.id = id ∧ (s.bindingsFor source).distance? id = u.distance? := by
  have herrors := List.subset_nil.1 (check_program haccepts ▸ hvisit.errors_subset)
  obtain ⟨u, hu, rfl⟩ := exists_use ctx.inClass e scopes herrors hid
  exact ⟨u, hu, rfl, (hs.load haccepts).distance_of_use ⟨s.program source, by simp, hvisit⟩ hu⟩

end

/-- Each `for` statement of an accepted source, in a session of any earlier runs, has the clauses that its
words say.  The names in the condition stand for what they stand for directly after the initializer, and
so do those in the increment, which have one scope more to go.  From any machine, the tree that is run ends
as the loop is meant to, with the increment evaluated in the scope of the loop; for it a table with a copy
of the increment is needed, and there is one.  The loop ends in the scope where it began, and if the body
has a scope of its own, no variable is ever declared there. -/
theorem for_loop_keeps_meaning (limit? : Option Nat) (clock : Clock) (steps : List (Nat × String))
    (source : String) (s : Session) (hs : s = (Session.start limit? clock).runAll steps)
    (haccepts : s.accepts source = true) {o : Bool} {keyword : Token} {w : List Token}
    {tree : Stmt Unit} {n : NodeId} (hfor : Grammar.Derives true (.statement o) (keyword :: w) tree)
    (hk : keyword.is .forKw = true) {ctx : Context} {scopes : Scopes}
    (hvisit : Visit.Reaches (.program (s.program source))
      ⟨.stmt (tree.relabel freshId n).1, ctx, scopes⟩) :
    ∃ initializer? condition? increment? body,
      Grammar.WritesLoop (keyword :: w) initializer? condition? increment? body ∧
      (tree.relabel freshId n).1 = .forLoop initializer? condition? increment? body ∧
      (∀ id ∈ Expr.labels? condition?,
        ∃ u ∈ clauseUses ctx.inClass condition? (afterInitializer ctx initializer? scopes),
          u.id = id ∧ (s.bindingsFor source).distance? id = u.distance?) ∧
      (∀ id ∈ Expr.labels? increment?,
        ∃ u ∈ clauseUses ctx.inClass increment? (afterInitializer ctx initializer? scopes),
          u.id = id ∧ (s.bindingsFor source).distance? id = u.distance?.map (· + 1)) ∧
      ∀ m : Machine,
        (∃ b f, AddsCopy (s.bindingsFor source) b f
          (clauseUses ctx.inClass increment? (afterInitializer ctx initializer? scopes))
          (.forLoop initializer? condition? increment? body) m) ∧
        (∀ b f, AddsCopy (s.bindingsFor source) b f
            (clauseUses ctx.inClass increment? (afterInitializer ctx initializer? scopes))
            (.forLoop initializer? condition? increment? body) m →
          ∀ r, Finishes (exec (s.bindingsFor source) ·
              (.forLoop initializer? condition? increment? body)) m r ↔
            ForLoop b condition? (increment?.map (·.copy f)) body initializer? m r) ∧
        (∀ r, Finishes (exec (s.bindingsFor source) ·
            (.forLoop initializer? condition? increment? body)) m r → (finalMachine r).scope = m.scope) ∧
        ∀ r, Finishes (exec (s.bindingsFor source) · body) (inNewScope m) r → ∀ name,
          (finalMachine r).heap.frames.has (inNewScope m).scope name = false := by
  obtain ⟨initializer?, condition?, increment?, body, hwrites, htree, hbody⟩ := hfor.exists_forLoop hk n
  rw [htree] at hvisit ⊢
  refine ⟨initializer?, condition?, increment?, body, hwrites, rfl, ?_⟩
  have hsound := Session.sound_runAll (Session.sound_start limit? clock) steps
  rw [List.nil_append, ← hs] at hsound
  have hproper := hvisit.proper (Session.program_proper haccepts)
  have hcondition : ∀ id ∈ Expr.labels? condition?,
      ∃ u ∈ clauseUses ctx.inClass condition? (afterInitializer ctx initializer? scopes),
        u.id = id ∧ (s.bindingsFor source).distance? id = u.distance? := by
    intro id hid
    cases condition? with
    | none => cases hid
    | some c => exact hsound.distance_of_label haccepts (hvisit.trans (reaches_condition rfl)) hid
  have hincrement : ∀ id ∈ Expr.labels? increment?,
      ∃ u ∈ clauseUses ctx.inClass increment? (afterInitializer ctx initializer? scopes),
        u.id = id ∧ (s.bindingsFor source).distance? id = u.distance?.map (· + 1) := by
    intro id hid
    cases increment? with
    | none => cases hid
    | some e =>
      have hreaches := hvisit.trans (reaches_increment rfl hproper hbody)
      obtain ⟨u', hu', rfl, hdistance⟩ := hsound.distance_of_label haccepts hreaches hid
      -- in the scope of the body the declaration is one scope further away
      rw [uses_push] at hu'
      obtain ⟨u, hu, rfl⟩ := List.mem_map.1 hu'
      exact ⟨u, hu, rfl, hdistance⟩
  have hnodup : ((clauseUses ctx.inClass increment?
      (afterInitializer ctx initializer? scopes)).map (·.id)).Nodup := by
    cases increment? with
    | none => exact List.nodup_nil
    | some e =>
      have hreaches := hvisit.trans (reaches_increment rfl hproper hbody)
      have hlabels : e.labels.Nodup := hreaches.nodup (s.program_labels source).nodup
      exact Visit.uses_nodup (v := ⟨.expr e, ctx, afterInitializer ctx initializer? scopes⟩) hlabels
  refine ⟨hcondition, hincrement, fun m => ⟨?_, fun b f hcopy r => ?_, fun r hr => ?_, fun r hr name => ?_⟩⟩
  · exact exists_addsCopy (hsound.load haccepts).unused hnodup _ m
  · refine hcopy.finishes_forLoop_iff (fun e he id hid => ⟨?_, ?_⟩) r
    · have hreaches : Visit.Reaches
          ⟨.stmt (.forLoop initializer? condition? increment? body), ctx, scopes⟩ ⟨.expr e, ctx, _⟩ :=
        reaches_increment he hproper hbody
      exact hreaches.labels_subset hid
    · obtain rfl := Option.mem_def.1 he
      exact hincrement id hid
  · rw [← inScope_of_finishes hr]
    cases r <;> rfl
  · obtain ⟨scopes', hreaches⟩ : ∃ scopes', Visit.Reaches
        ⟨.stmt (.forLoop initializer? condition? increment? body), ctx, scopes⟩ ⟨.stmt body, ctx, scopes'⟩ :=
      exists_reaches_body
    have hdeclares : body.declares = [] := by
      rw [(hreaches.proper hproper : body.Proper).declares_eq, hbody, Option.toList_none]
    exact (vacant_of_finishes hdeclares (Frames.vacant_push _ _) hr).2 name

/-- The loop over a variable of its own does what it is meant to do. -/
theorem own_variable_loop_keeps_meaning :
    ∃ initializer? condition? increment? body,
      (Session.start none (.startingAt 0)).program "for (var a; a; a = nil) a;" =
        [.forLoop initializer? condition? increment? body] ∧
      ∀ m, ∃ b f, ∀ r,
        Finishes (exec ((Session.start none (.startingAt 0)).bindingsFor "for (var a; a; a = nil) a;") ·
          (.forLoop initializer? condition? increment? body)) m r ↔
        ForLoop b condition? (increment?.map (·.copy f)) body initializer? m r := by
  let token (kind : Symbol) (lexeme : String) : Token := ⟨.symbol kind, lexeme, 1⟩
  let a := token .identifier "a"
  have hprimary {w : List Token} {e : Expr Unit} (h : Grammar.Derives true .primary w e) :
      Grammar.Derives true .expression w e :=
    .loosest (.operand (.operand (.operand (.operand (.operand (.operand (.unsigned (.callee h))))))))
  have ha := hprimary (.name (t := a) rfl)
  have hfor : Grammar.Derives true (.statement false) (token .forKw "for" :: token .leftParen "(" ::
      ([token .varKw "var", a, token .semicolon ";"] ++ ([a] ++ token .semicolon ";" ::
        ([a, token .equal "=", token .nilKw "nil"] ++ token .rightParen ")" :: [a, token .semicolon ";"]))))
      _ :=
    .forLoop rfl rfl (.varInitializer (.varEmpty rfl rfl rfl)) (.clause ha) rfl
      (.clause (.assignName rfl rfl (hprimary (.nilLiteral rfl)))) rfl (.plain (.expressionStatement ha rfl))
  have hprogram : (Session.start none (.startingAt 0)).program "for (var a; a; a = nil) a;" =
      [.forLoop (some (.var a none)) (some (.var 0 a)) (some (.assign 2 a (.literal .nil)))
        (.expr (.var 1 a))] := by cbv
  obtain ⟨initializer?, condition?, increment?, body, -, hloop, -, -, hmeaning⟩ :=
    for_loop_keeps_meaning none (.startingAt 0) [] "for (var a; a; a = nil) a;" _ rfl (by decide +kernel)
      (n := 0) hfor rfl (hprogram ▸ reaches_first)
  refine ⟨initializer?, condition?, increment?, body,
    hprogram.trans (congrArg (List.cons · []) hloop), fun m => ?_⟩
  obtain ⟨⟨b, f, hcopy⟩, hruns, -⟩ := hmeaning m
  exact ⟨b, f, hruns b f hcopy⟩

end LoxLang
