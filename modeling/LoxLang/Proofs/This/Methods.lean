import LoxLang.Proofs.Scope.Visit

/-!
# Methods and what lies inside of them

The visit of a method lies in the scope that its class puts around its methods, and that scope has
`this`.  A part lies inside of a method, `w.Inside v`, if the scope check comes to it from there
without going into another class; the method then belongs to the innermost class around the part.

On the way in, each block and each function puts one more scope in front of the one with `this`
(`distance?_of_mem`), and nothing else declares a name in between that hides it.
-/

namespace LoxLang

namespace Scoping

/-- The part is the declaration of a class. -/
def Code.isClass : Code → Bool
  | stmt (.classDecl _ _) => true
  | _ => false

/-- How many scopes the parts have more than the part itself: blocks and functions open one. -/
def Code.opens : Code → Nat
  | stmt (.block _) | function _ _ => 1
  | _ => 0

namespace Visit

/-- The visit is that of a method, on the way through the declaration of its class. -/
def IsMethodOf (w cls : Visit) : Prop :=
  ∃ name methods decl, cls.code = .stmt (.classDecl name methods) ∧ decl ∈ methods ∧
    w = ⟨.function (methodKind decl) decl, ⟨cls.ctx.body, true⟩,
      thisScope :: (Pass.introduce name cls.scopes).1⟩

/-- The check comes from the method to the visit without going into another class. -/
inductive Inside (w : Visit) : Visit → Prop where
  | body {v : Visit} : v ∈ w.parts → Inside w v
  | part {v u : Visit} : Inside w v → v.code.isClass = false → u ∈ v.parts → Inside w u

end Visit

/-! ### Going in -/

namespace Visit

variable {v u : Visit}

/-- Outside of the declarations of classes, `this` is as far away in the parts as in the part itself,
but for the scope that a block or a function opens. -/
theorem distance?_of_mem (hproper : v.code.Proper) (hclass : v.code.isClass = false)
    (hu : u ∈ v.parts) :
    distance? u.scopes thisName = (distance? v.scopes thisName).map (· + v.code.opens) := by
  have same {scopes : Scopes} (h : distance? scopes thisName = distance? v.scopes thisName) :
      distance? scopes thisName = (distance? v.scopes thisName).map (· + 0) := by simpa using h
  obtain ⟨code, ctx, scopes⟩ := v
  cases code with
  | expr e =>
    cases e <;> simp only [parts, visits, List.mem_cons, List.not_mem_nil, or_false, Code.pass,
      scopes_expr] at hu
    case binary | logical | call | set => rcases hu with rfl | rfl <;> exact same rfl
    all_goals obtain rfl := hu; exact same rfl
  | exprs es =>
    cases es <;> simp only [parts, visits, List.mem_cons, List.not_mem_nil, or_false, Code.pass,
      scopes_expr] at hu
    case cons => rcases hu with rfl | rfl <;> exact same rfl
  | stmt s =>
    cases s with
    | expr e | print e => obtain rfl := List.mem_singleton.1 hu; exact same rfl
    | var name value? =>
      cases value? with
      | none => cases hu
      | some e =>
        obtain rfl := List.mem_singleton.1 hu
        exact same (distance?_declare hproper.1.symm scopes)
    | block body => obtain rfl := List.mem_singleton.1 hu; exact distance?_push rfl
    | ifThen condition s | whileLoop condition s =>
      simp only [parts, visits, List.mem_cons, List.not_mem_nil, or_false, Code.pass,
        scopes_expr] at hu
      rcases hu with rfl | rfl <;> exact same rfl
    | ifElse condition s s' =>
      simp only [parts, visits, List.mem_cons, List.not_mem_nil, or_false, Code.pass,
        scopes_expr] at hu
      rcases hu with rfl | rfl | rfl
      · exact same rfl
      · exact same rfl
      · exact same (distance?_stmt hproper.2.2.1 ctx scopes)
    | function decl =>
      obtain rfl := List.mem_singleton.1 hu
      exact same (distance?_introduce (ne_this_of_declared (s := .function decl) hproper rfl) scopes)
    | ret keyword value? =>
      cases value? with
      | none => cases hu
      | some e => obtain rfl := List.mem_singleton.1 hu; exact same rfl
    | classDecl name ms => cases hclass
  | stmts ss =>
    cases ss with
    | nil => cases hu
    | cons s ss =>
      simp only [parts, visits, List.mem_cons, List.not_mem_nil, or_false, Code.pass] at hu
      rcases hu with rfl | rfl
      · exact same rfl
      · exact same (distance?_stmt hproper.1 ctx scopes)
  | function kind decl =>
    obtain ⟨label, name, params, body⟩ := decl
    obtain rfl := List.mem_singleton.1 hu
    exact distance?_parameters (fun p hp => (hproper.2.1 p hp).symm) scopes
  | methods ms =>
    cases ms <;> simp only [parts, visits, List.mem_cons, List.not_mem_nil, or_false, Code.pass,
      scopes_function] at hu
    case cons => rcases hu with rfl | rfl <;> exact same rfl

/-- Parts lie inside of a class if what they are parts of does, or is one. -/
theorem inClass_of_mem (hclass : v.code.isClass = false) (hu : u ∈ v.parts) :
    u.ctx.inClass = v.ctx.inClass := by
  have of_visits {ctx : Context} {scopes : Scopes} {codes : List Code} {w : Visit}
      (hw : w ∈ visits ctx scopes codes) : w.ctx = ctx := by
    induction codes generalizing scopes with
    | nil => cases hw
    | cons c cs ih =>
      rcases List.mem_cons.1 hw with rfl | hw
      · rfl
      · exact ih hw
  obtain ⟨code, ctx, scopes⟩ := v
  cases code with
  | expr e => exact congrArg Context.inClass (of_visits hu)
  | stmt s =>
    cases s with
    | classDecl => cases hclass
    | var name value? | ret keyword value? =>
      cases value? with
      | none => cases hu
      | some e => exact congrArg Context.inClass (of_visits hu)
    | _ => exact congrArg Context.inClass (of_visits hu)
  | function kind decl =>
    have hctx : u.ctx = { ctx with body := kind } := of_visits hu
    rw [hctx]
  | exprs xs | stmts xs | methods xs =>
    cases xs with
    | nil => cases hu
    | cons => exact congrArg Context.inClass (of_visits hu)

/-- `this` stands in the scope around a method. -/
theorem IsMethodOf.distance? {w cls : Visit} (h : w.IsMethodOf cls) :
    distance? w.scopes thisName = some 0 := by
  obtain ⟨name, methods, decl, -, -, rfl⟩ := h
  rfl

end Visit

end Scoping

end LoxLang
