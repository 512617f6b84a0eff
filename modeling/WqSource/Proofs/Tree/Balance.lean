import WqSource.Proofs.Tree.Words

/-!
# Written trees close their brackets

A tree is written with as many closing brackets as opening ones, each pair around what stands
in it, and with no line for the host. So the number of open brackets is the same behind an
expression as in front of it.

## Main definitions

* `Token.Kind.Balanced`: tokens that leave as many brackets open as there were.

## Main statements

* `Expr.balanced`.
-/

namespace WqSource

namespace Token.Kind

/-- Whether a token is code: no line that is not, and not the end. -/
def isCode : Kind → Bool
  | shebang _ | magic _ | endOfInput => false
  | _ => true

/-- The number of open brackets behind some tokens. -/
def depthBehind (depth : Nat) (ks : List Kind) : Nat := ks.foldl (fun d k => k.depthAfter d) depth

/-- Tokens of code that leave as many brackets open as there were. -/
structure Balanced (ks : List Kind) : Prop where
  code : ∀ k ∈ ks, k.isCode = true
  depth : ∀ d, depthBehind d ks = d

namespace Balanced
variable {k : Kind} {ks ls : List Kind}

theorem nil : Balanced [] := ⟨nofun, fun _ => rfl⟩

theorem append (h : Balanced ks) (h' : Balanced ls) : Balanced (ks ++ ls) := by
  refine ⟨List.forall_mem_append.2 ⟨h.code, h'.code⟩, fun d => ?_⟩
  rw [depthBehind, List.foldl_append]
  exact (congrArg (depthBehind · ls) (h.depth d)).trans (h'.depth d)

/-- A token that is no bracket, in front of others. -/
theorem cons (h : Balanced ks) (hcode : k.isCode = true) (hdepth : ∀ d, k.depthAfter d = d) :
    Balanced (k :: ks) := by
  refine ⟨List.forall_mem_cons.2 ⟨hcode, h.code⟩, fun d => ?_⟩
  rw [depthBehind, List.foldl_cons, hdepth]
  exact h.depth d

theorem single (hcode : k.isCode = true) (hdepth : ∀ d, k.depthAfter d = d) : Balanced [k] :=
  nil.cons hcode hdepth

/-- Tokens in a pair of brackets. -/
theorem enclosed {o c : Punct} (h : Balanced ks) (ho : ∀ d, o.depthAfter d = d + 1)
    (hc : ∀ d, c.depthAfter d = d - 1) : Balanced (punct o :: (ks ++ [punct c])) := by
  refine ⟨List.forall_mem_cons.2 ⟨rfl, List.forall_mem_append.2 ⟨h.code, by simp [isCode]⟩⟩, ?_⟩
  intro d
  have hinside := h.depth (d + 1)
  rw [depthBehind] at hinside
  rw [depthBehind, List.foldl_cons, List.foldl_append, List.foldl_cons, List.foldl_nil]
  simp only [depthAfter, ho, hc] at hinside ⊢
  rw [hinside]
  omega

theorem flatMap {α : Type} {as : List α} {f : α → List Kind} (h : ∀ a ∈ as, Balanced (f a)) :
    Balanced (as.flatMap f) := by
  induction as with
  | nil => exact nil
  | cons a as ih =>
    rw [List.flatMap_cons]
    exact (h a (by simp)).append (ih fun b hb => h b (by simp [hb]))

/-- Tokens with a separator between every two of them. -/
theorem intercalate {kss : List (List Kind)} (hk : Balanced [k]) (h : ∀ ks ∈ kss, Balanced ks) :
    Balanced ([k].intercalate kss) := by
  cases kss with
  | nil => exact nil
  | cons ks kss =>
    rw [intercalate_cons_eq_flatMap]
    exact (h ks (by simp)).append (flatMap fun ls hls => hk.append (h ls (by simp [hls])))

end Balanced

theorem balanced_semicolon : Balanced [punct .semicolon] := .single rfl fun _ => rfl

theorem balanced_newline : Balanced [newline] := .single rfl fun _ => rfl

end Token.Kind

open Token.Kind (Balanced balanced_semicolon balanced_newline)

/-- Expressions with a separator between every two of them. -/
theorem Expr.balanced_list {k : Token.Kind} {es : List Expr} (hk : Balanced [k])
    (h : ∀ e ∈ es, Balanced e.kinds) : Balanced ([k].intercalate (es.map Expr.kinds)) :=
  .intercalate hk (by simpa using h)

/-- Statements of a branch with a separator between every two of them. -/
theorem Branch.balanced {b : Branch} {k : Token.Kind} (hb : b.WellShaped) (hk : Balanced [k])
    (h : ∀ e ∈ b.expressions, Balanced e.kinds) : Balanced (b.kinds [k]) := by
  refine .intercalate hk ?_
  intro ks hks
  obtain ⟨s, hs, rfl⟩ := List.mem_map.1 hks
  obtain ⟨e, he⟩ := Option.isSome_iff_exists.1 (hb.2 s hs)
  have hbalanced := h e (List.mem_filterMap.2 ⟨s, hs, he⟩)
  cases s with
  | expression => cases he; exact hbalanced
  | magic => cases he

theorem Param.balanced (params : List Param) : Balanced (Param.listKinds params) := by
  unfold Param.listKinds
  split
  · exact .nil
  · refine (Balanced.intercalate balanced_semicolon ?_).enclosed (fun _ => rfl) fun _ => rfl
    intro ks hks
    obtain ⟨p, -, rfl⟩ := List.mem_map.1 hks
    exact .single rfl fun _ => rfl

theorem Suffix.balanced {s : Suffix} (hindices : ∀ e ∈ s.indices, Balanced e.kinds)
    (hargument : ∀ e ∈ s.argument?, Balanced e.kinds) : Balanced s.kinds := by
  cases s with
  | index span args =>
    rw [Suffix.kinds_index]
    exact (Expr.balanced_list balanced_semicolon hindices).enclosed (fun _ => rfl) fun _ => rfl
  | apply arg =>
    rw [Suffix.kinds_apply]
    exact hargument arg rfl

theorem Entry.balanced {e : Entry} (h : Balanced e.value.kinds) : Balanced e.kinds := by
  obtain ⟨key, span, value⟩ := e
  rw [Entry.kinds_mk]
  exact (h.cons rfl fun _ => rfl).cons rfl fun _ => rfl

namespace Expr

/-- A condition and an arm in brackets. -/
theorem balanced_head {condition : Expr} {arm : Branch} (hcondition : Balanced condition.kinds)
    (hshape : arm.WellShaped) (harm : ∀ e ∈ arm.expressions, Balanced e.kinds) :
    Balanced (.punct .openBracket :: (condition.kinds ++ .punct .semicolon ::
      (arm.kinds [.punct .semicolon] ++ [.punct .closeBracket]))) := by
  have hall := hcondition.append
    ((Branch.balanced hshape balanced_semicolon harm).cons (k := .punct .semicolon) rfl fun _ => rfl)
  have henclosed := hall.enclosed (o := .openBracket) (c := .closeBracket) (fun _ => rfl) fun _ => rfl
  rwa [List.append_assoc, List.cons_append] at henclosed

/-- A regular tree closes the brackets that it opens. -/
theorem balanced {n : Nat} {e : Expr} (he : e.Regular n) : Balanced e.kinds := by
  refine he.induction (P := fun e => Balanced e.kinds) fun e hshape operands nested => ?_
  cases e with
  | assignment s target value =>
    rw [kinds_assignment]
    exact (operands target (by simp [Expr.operands])).append
      ((nested value (by simp [Expr.nested])).cons rfl fun _ => rfl)
  | pipe s stages =>
    rw [kinds_pipe]
    exact balanced_list (.single rfl fun _ => rfl) operands
  | join s elements =>
    rw [kinds_join]
    exact balanced_list (.single rfl fun _ => rfl) operands
  | binary s op left right =>
    rw [kinds_binary]
    refine (operands left (by simp [Expr.operands])).append
      ((operands right (by simp [Expr.operands])).cons rfl ?_)
    cases op <;> exact fun _ => rfl
  | unary s ops operand =>
    rw [kinds_unary, List.map_eq_flatMap]
    refine (Balanced.flatMap fun op _ => ?_).append (operands operand (by simp [Expr.operands]))
    cases op <;> exact .single rfl fun _ => rfl
  | power s base exponent =>
    rw [kinds_power]
    exact (operands base (by simp [Expr.operands])).append
      ((nested exponent (by simp [Expr.nested])).cons rfl fun _ => rfl)
  | chain s base suffixes =>
    rw [kinds_chain]
    refine (operands base (by simp [Expr.operands])).append
      (Balanced.flatMap fun t ht => Suffix.balanced ?_ ?_)
    · exact fun x hx => nested x (List.mem_flatMap.2 ⟨t, ht, hx⟩)
    · exact fun x hx => operands x (List.mem_cons_of_mem _ (List.mem_filterMap.2 ⟨t, ht, hx⟩))
  | literal s v =>
    rw [kinds_literal]
    cases v <;> exact .single rfl fun _ => rfl
  | name s name reserved =>
    rw [kinds_name]
    cases reserved <;> exact .single rfl fun _ => rfl
  | function s params body =>
    rw [kinds_function]
    refine ((Param.balanced params).append ?_).enclosed (fun _ => rfl) fun _ => rfl
    cases body with
    | none => exact .nil
    | some b => exact Branch.balanced (hshape b rfl) balanced_semicolon nested
  | unit s =>
    rw [kinds_unit]
    exact Balanced.nil.enclosed (fun _ => rfl) fun _ => rfl
  | list s items =>
    rw [kinds_list]
    exact (balanced_list balanced_semicolon nested).enclosed (fun _ => rfl) fun _ => rfl
  | dict s entries =>
    rw [kinds_dict]
    refine (Balanced.intercalate balanced_semicolon ?_).enclosed (fun _ => rfl) fun _ => rfl
    intro ks hks
    obtain ⟨x, hx, rfl⟩ := List.mem_map.1 hks
    exact Entry.balanced (nested _ (List.mem_map_of_mem hx))
  | conditional s condition thenArm elseArm =>
    obtain ⟨hthen, helse⟩ := hshape
    have hcondition := nested condition (by simp [Expr.nested])
    have hfirst := Branch.balanced hthen balanced_newline
      fun x hx => nested x (by simp [Expr.nested, hx])
    have hsecond := Branch.balanced helse balanced_semicolon
      fun x hx => nested x (by simp [Expr.nested, hx])
    have hall := hcondition.append ((hfirst.append
      (hsecond.cons (k := .punct .semicolon) rfl fun _ => rfl)).cons
        (k := .punct .semicolon) rfl fun _ => rfl)
    have hbrackets := hall.enclosed (o := .openBracket) (c := .closeBracket) (fun _ => rfl)
      fun _ => rfl
    rw [kinds_conditional]
    simp only [List.append_assoc, List.cons_append] at hbrackets
    exact hbrackets.cons rfl fun _ => rfl
  | guarded s condition arm =>
    rw [kinds_guarded]
    exact ((balanced_head (nested condition (by simp [Expr.nested])) hshape
      fun x hx => nested x (by simp [Expr.nested, hx])).cons rfl fun _ => rfl).cons rfl fun _ => rfl
  | whileLoop s condition body | countLoop s condition body =>
    simp only [kinds_whileLoop, kinds_countLoop]
    exact (balanced_head (nested condition (by simp [Expr.nested])) hshape
      fun x hx => nested x (by simp [Expr.nested, hx])).cons rfl fun _ => rfl
  | returning s value =>
    rw [kinds_returning]
    cases value with
    | none => exact .single rfl fun _ => rfl
    | some x => exact (nested x (by simp [Expr.nested])).cons rfl fun _ => rfl
  | breaking | continuing => exact .single rfl fun _ => rfl
  | asserting s x =>
    rw [kinds_asserting]
    exact (nested x (by simp [Expr.nested])).cons rfl fun _ => rfl
  | trying s x =>
    rw [kinds_trying]
    exact (nested x (by simp [Expr.nested])).cons rfl fun _ => rfl

end Expr
end WqSource
