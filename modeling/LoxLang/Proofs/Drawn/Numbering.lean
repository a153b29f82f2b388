import LoxLang.Proofs.Similar.Tree
import LoxLang.Proofs.Tree.Numbering

/-!
# Numbering a tree that has labels already

A tree may be labelled already while a similar one is numbered.  Numbering takes as many labels as the
first tree has, and the two are similar again if the `i`-th number that is given out corresponds to the
`i`-th label (`Stmt.SimilarEach.numbered`).
-/

namespace LoxLang

/-- Numbering gives out as many labels as there are in `ls`, and what it yields is related to `a'` if the
labels given out are related to those in `ls`, in this order. -/
def NumberedLike {τ τ' : Type} (S : (NodeId → NodeId → Prop) → τ → τ' → Prop) (x : StateM NodeId τ)
    (ls : List NodeId) (a' : τ') : Prop :=
  ∀ n, (x n).2 = n + ls.length ∧
    ∀ L : NodeId → NodeId → Prop, (∀ i id, ls[i]? = some id → L (n + i) id) → S L (x n).1 a'

namespace NumberedLike

variable {τ τ' υ υ' : Type} {S : (NodeId → NodeId → Prop) → τ → τ' → Prop}
  {T : (NodeId → NodeId → Prop) → υ → υ' → Prop} {x : StateM NodeId τ} {ls ls' : List NodeId}

theorem pure {a : τ} {a' : τ'} (h : ∀ L, S L a a') : NumberedLike S (Pure.pure a) [] a' :=
  fun _ => ⟨rfl, fun L _ => h L⟩

theorem fresh {α : Type} (a : α) (id : NodeId) : NumberedLike (fun L => L) (freshId a) [id] id :=
  fun _ => ⟨rfl, fun _ hL => hL 0 id rfl⟩

/-- The second step may take for granted that the first one has yielded something related. -/
theorem bind {f : τ → StateM NodeId υ} {a' : τ'} {b' : υ'} (hx : NumberedLike S x ls a')
    (hf : ∀ a, NumberedLike (fun L b b' => S L a a' → T L b b') (f a) ls' b') :
    NumberedLike T (x >>= f) (ls ++ ls') b' := by
  intro n
  obtain ⟨hn, hS⟩ := hx n
  obtain ⟨hn', hT⟩ := hf (x n).1 (x n).2
  refine ⟨?_, fun L hL => hT L (fun i id hi => ?_) (hS L fun i id hi => ?_)⟩
  · rw [List.length_append, ← Nat.add_assoc, ← hn]
    exact hn'
  · rw [hn, Nat.add_assoc]
    exact hL _ id (by rw [List.getElem?_append_right (Nat.le_add_right _ _), Nat.add_sub_cancel_left, hi])
  · obtain ⟨hlt, -⟩ := List.getElem?_eq_some_iff.1 hi
    exact hL i id ((List.getElem?_append_left hlt).trans hi)

theorem map {f : τ → υ} {a' : τ'} {b' : υ'} (hx : NumberedLike S x ls a')
    (hf : ∀ L a, S L a a' → T L (f a) b') : NumberedLike T (f <$> x) ls b' :=
  fun n => ⟨(hx n).1, fun L hL => hf L _ ((hx n).2 L hL)⟩

/-- The last of several steps, after which no label is given out. -/
theorem bind_pure {f : τ → υ} {a' : τ'} {b' : υ'} (hx : NumberedLike S x ls a')
    (hf : ∀ L a, S L a a' → T L (f a) b') :
    NumberedLike T (x >>= fun a => Pure.pure (f a)) ls b' := hx.map hf

end NumberedLike

section

variable {α : Type} {M : α → NodeId → Prop} {K : Token → Token → Prop}

open NumberedLike

mutual

theorem Expr.Similar.numbered {e : Expr α} {e' : Expr NodeId} (h : Expr.Similar M K e e') :
    NumberedLike (fun L => Expr.Similar L K) (e.relabel freshId) e'.labels e' := by
  cases h with
  | literal => exact pure fun L => .literal
  | group h => exact h.numbered.map fun _ _ h => .group h
  | unary hop h => exact h.numbered.map fun _ _ h => .unary hop h
  | binary hl hop hr =>
    exact hl.numbered.bind fun _ => hr.numbered.bind_pure fun _ _ hr hl => .binary hl hop hr
  | logical hl hop hr =>
    exact hl.numbered.bind fun _ => hr.numbered.bind_pure fun _ _ hr hl => .logical hl hop hr
  | @var id id' _ _ _ ht => exact (fresh id id').bind_pure fun _ _ hid => .var hid ht
  | @assign id id' _ _ _ _ _ ht h =>
    exact (fresh id id').bind fun _ => h.numbered.bind_pure fun _ _ h hid => .assign hid ht h
  | call hf hparen hes =>
    exact hf.numbered.bind fun _ => hes.numbered.bind_pure fun _ _ hes hf => .call hf hparen hes
  | get h hname => exact h.numbered.bind_pure fun _ _ h => .get h hname
  | set ho hname h =>
    exact ho.numbered.bind fun _ => h.numbered.bind_pure fun _ _ h ho => .set ho hname h
  | @thisRef id id' _ _ _ ht => exact (fresh id id').bind_pure fun _ _ hid => .thisRef hid ht

theorem Expr.SimilarEach.numbered {es : List (Expr α)} {es' : List (Expr NodeId)}
    (h : Expr.SimilarEach M K es es') :
    NumberedLike (fun L => Expr.SimilarEach L K) (Expr.relabelEach freshId es) (Expr.labelsEach es')
      es' := by
  cases h with
  | nil => exact pure fun L => .nil
  | cons he hes =>
    exact he.numbered.bind fun _ => hes.numbered.bind_pure fun _ _ hes he => .cons he hes

end

theorem Expr.Similar?.numbered {e? : Option (Expr α)} {e?' : Option (Expr NodeId)}
    (h : Expr.Similar? M K e? e?') :
    NumberedLike (fun L => Expr.Similar? L K) (Expr.relabel? freshId e?) (Expr.labels? e?') e?' := by
  cases h with
  | none => exact pure fun L => .none
  | some h => exact h.numbered.map fun _ _ h => .some h

mutual

theorem Stmt.Similar.numbered {s : Stmt α} {s' : Stmt NodeId} (h : Stmt.Similar M K s s') :
    NumberedLike (fun L => Stmt.Similar L K) (s.relabel freshId) s'.labels s' := by
  cases h with
  | expr h => exact h.numbered.map fun _ _ h => .expr h
  | print h => exact h.numbered.map fun _ _ h => .print h
  | var ht h => exact h.numbered.map fun _ _ h => .var ht h
  | block h => exact h.numbered.map fun _ _ h => .block h
  | ifThen he hs =>
    exact he.numbered.bind fun _ => hs.numbered.bind_pure fun _ _ hs he => .ifThen he hs
  | ifElse he hs ht =>
    exact he.numbered.bind fun _ => hs.numbered.bind fun _ => ht.numbered.bind_pure
      fun _ _ ht hs he => .ifElse he hs ht
  | whileLoop he hs =>
    exact he.numbered.bind fun _ => hs.numbered.bind_pure fun _ _ hs he => .whileLoop he hs
  | function h => exact h.numbered.map fun _ _ h => .function h
  | ret hkeyword h => exact h.numbered.map fun _ _ h => .ret hkeyword h
  | classDecl ht h => exact h.numbered.map fun _ _ h => .classDecl ht h

theorem Stmt.SimilarEach.numbered {ss : List (Stmt α)} {ss' : List (Stmt NodeId)}
    (h : Stmt.SimilarEach M K ss ss') :
    NumberedLike (fun L => Stmt.SimilarEach L K) (Stmt.relabelEach freshId ss) (Stmt.labelsEach ss')
      ss' := by
  cases h with
  | nil => exact pure fun L => .nil
  | cons hs hss =>
    exact hs.numbered.bind fun _ => hss.numbered.bind_pure fun _ _ hss hs => .cons hs hss

theorem Stmt.SimilarFunction.numbered {f : FunDecl α (Stmt α)} {f' : FunDecl NodeId (Stmt NodeId)}
    (h : Stmt.SimilarFunction M K f f') :
    NumberedLike (fun L => Stmt.SimilarFunction L K) (Stmt.relabelFunction freshId f)
      (Stmt.labelsFunction f') f' := by
  cases h with
  | @mk id id' _ _ _ _ _ _ _ ht hps h =>
    exact (fresh id id').bind fun _ => h.numbered.bind_pure fun _ _ h hid => .mk hid ht hps h

theorem Stmt.SimilarFunctions.numbered {fs : List (FunDecl α (Stmt α))}
    {fs' : List (FunDecl NodeId (Stmt NodeId))} (h : Stmt.SimilarFunctions M K fs fs') :
    NumberedLike (fun L => Stmt.SimilarFunctions L K) (Stmt.relabelFunctions freshId fs)
      (Stmt.labelsFunctions fs') fs' := by
  cases h with
  | nil => exact pure fun L => .nil
  | cons hf hfs =>
    exact hf.numbered.bind fun _ => hfs.numbered.bind_pure fun _ _ hfs hf => .cons hf hfs

end

end

end LoxLang
