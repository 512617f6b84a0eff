import WqSource.Proofs.Tree.Levels

/-!
# How high a tree is

The height of an expression is the number of expressions on the longest way down from it. The
ladder of forms limits how far a way goes before it comes to something nested, and the levels
limit how often that happens. There is one exception: operators between two operands are grouped
from the left, so each operator of a run of one tier stands higher than the one before it.

## Main definitions

* `Expr.height`.
* `Expr.run`, `Expr.RunsAtMost`: how many operators of one tier stand in a row.
* `Expr.room`: how far a way may go on without anything nested.
* `Expr.sum`: a sum of ones, which is one run.

## Main statements

* `Expr.room_lt_of_operand`: operands have less room.
* `Expr.height_le_of_regular`: levels and runs bound the height.
-/

namespace WqSource
open Grammar

namespace Expr
variable {n r : Nat} {e x : Expr}

/-- The number of expressions on the longest way from an expression through its parts. -/
def height (e : Expr) : Nat :=
  (e.operands.attach.map fun x => height x.1 + 1).foldr max
    ((e.nested.attach.map fun x => height x.1 + 1).foldr max 1)
termination_by sizeOf e
decreasing_by
  · exact sizeOf_lt_of_mem_nested x.2
  · exact sizeOf_lt_of_mem_operands x.2

theorem height_le_iff : e.height ≤ n ↔
    (∀ x ∈ e.operands, x.height + 1 ≤ n) ∧ (∀ x ∈ e.nested, x.height + 1 ≤ n) ∧ 1 ≤ n := by
  rw [height, foldr_max_le, foldr_max_le]
  simp

/-- The height does not depend on places. -/
@[simp] theorem height_erase (e : Expr) : e.erase.height = e.height := by
  induction e using induction_parts with
  | h e operands nested =>
    refine eq_of_forall_ge_iff fun n => ?_
    rw [height_le_iff, height_le_iff, operands_erase, nested_erase, List.forall_mem_map,
      List.forall_mem_map]
    refine and_congr (forall₂_congr fun x hx => ?_) (and_congr_left' (forall₂_congr fun x hx => ?_))
    · rw [operands x hx]
    · rw [nested x hx]

/-- The number of operators of one tier that stand in a row, up to the last one. -/
def run : Expr → Nat
  | binary _ op left _ => if left.rank = op.rank then left.run + 1 else 1
  | _ => 0

/-- No run in the tree is longer than `r`. -/
def RunsAtMost (r : Nat) (e : Expr) : Prop := e.Everywhere fun _ x => x.run ≤ r

end Expr

/-! ## Room -/

/-- How many expressions there can be from one of the given rank down to something nested, if no
run is longer than `r`. -/
def Rank.room (r : Nat) : Rank → Nat
  | primary => 1
  | chain | power => 5
  | unary => 6
  | multiplicative => r + 6
  | additive => 2 * r + 6
  | comparison => 3 * r + 6
  | join => 3 * r + 7
  | pipe => 3 * r + 8
  | assignment => 3 * r + 9

theorem Rank.room_le_of_le (r : Nat) {a b : Rank} (h : a ≤ b) : b.room r ≤ a.room r := by
  have hidx : a.ctorIdx ≤ b.ctorIdx := h
  cases a <;> cases b <;> first | (simp only [room]; omega) | exact absurd hidx (by decide)

/-- What is tighter than an operator has room for a run less. -/
theorem Rank.room_add_le (r : Nat) {op : BinaryOp} {a : Rank} (h : op.rank < a) :
    a.room r + r ≤ op.rank.room r := by
  have hidx : op.rank.ctorIdx < a.ctorIdx := h
  cases op <;> cases a <;>
    first | (simp only [BinaryOp.rank, room]; omega) | exact absurd hidx (by decide)

namespace Expr
variable {n r : Nat} {e x : Expr}

/-- How many expressions there can be from this one down to something nested, if no run is longer
than `r`. Arguments and what stands at a power have less room than others of their rank. -/
def room (r : Nat) (e : Expr) : Nat :=
  match e.rank with
  | .primary => 1
  | .chain => if e.isIndexed then 2 else 5
  | .power => 3
  | .unary => if e.isArgument then 4 else 6
  | .multiplicative => e.run + 6
  | .additive => e.run + (r + 6)
  | .comparison => e.run + (2 * r + 6)
  | .join => 3 * r + 7
  | .pipe => 3 * r + 8
  | .assignment => 3 * r + 9

theorem room_le_rank (hr : e.run ≤ r) : e.room r ≤ e.rank.room r := by
  unfold room
  split <;> simp only [*, Rank.room] <;> first | omega | (split <;> omega)

theorem room_pos : 1 ≤ e.room r := by
  unfold room
  split <;> first | omega | (split <;> omega)

theorem room_le_of_rank {a : Rank} (hr : e.run ≤ r) (h : a ≤ e.rank) : e.room r ≤ a.room r :=
  (room_le_rank hr).trans (Rank.room_le_of_le r h)

/-- There is no more room anywhere than below an assignment. -/
theorem room_le (hr : e.run ≤ r) : e.room r ≤ 3 * r + 9 :=
  room_le_of_rank (a := .assignment) hr (Nat.zero_le _)

theorem room_le_of_isIndexed (h : e.isIndexed = true) : e.room r ≤ 2 := by
  have hrank : e.rank = .chain ∨ e.rank = .primary := by
    unfold isIndexed at h
    split at h
    · exact .inl rfl
    · exact .inr (by simpa using h)
  unfold room
  rcases hrank with hrank | hrank <;> simp only [hrank]
  · rw [if_pos h]
  · omega

theorem room_le_of_isArgument (h : e.isArgument = true) : e.room r ≤ 4 := by
  cases e with
  | power => simp [room, rank]
  | unary s ops operand => simp [room, rank, h]
  | _ => exact (room_le_of_isIndexed (by simpa [isArgument] using h)).trans (by omega)

/-- The room of an operator is as large as the run up to it is long. -/
theorem room_of_rank_eq {op : BinaryOp} (h : e.rank = op.rank) :
    e.room r + r = e.run + op.rank.room r := by
  unfold room
  cases op <;> simp only [h, BinaryOp.rank, Rank.room] <;> omega

theorem run_binary_pos {s : Span} {op : BinaryOp} {left right : Expr} :
    1 ≤ (binary s op left right).run := by
  unfold run
  split <;> omega

/-- The operands of an operator have less room: one of the same tier ends a shorter run. -/
theorem room_lt_binary {s : Span} {op : BinaryOp} {left right : Expr}
    (he : (binary s op left right).WellShaped) (hx : x = left ∨ x = right) (hr : x.run ≤ r) :
    x.room r < (binary s op left right).room r := by
  have hroom := room_of_rank_eq (r := r) (e := binary s op left right) rfl
  have hpos : 1 ≤ (binary s op left right).run := run_binary_pos
  have tighter (h : op.rank < x.rank) : x.room r < (binary s op left right).room r := by
    have := Rank.room_add_le r h
    have := room_le_rank hr
    omega
  obtain ⟨hleft, hright, -⟩ := he
  rcases hx with rfl | rfl
  · rcases eq_or_lt_of_le hleft with hsame | hlt
    · have hx := room_of_rank_eq (r := r) hsame.symm
      have hrun : (binary s op x right).run = x.run + 1 := by
        rw [run, if_pos hsame.symm]
      omega
    · exact tighter hlt
  · exact tighter hright

/-- The suffixes of a chain that has an argument are not all in brackets. -/
theorem isIndexed_eq_false {s : Span} {base arg : Expr} {suffixes : List Suffix}
    (h : .apply arg ∈ suffixes) : (chain s base suffixes).isIndexed = false :=
  List.all_eq_false.2 ⟨_, h, by simp [Suffix.isIndex]⟩

/-- The operand of signs that stand in front of an argument. -/
theorem room_lt_of_isArgument {s : Span} {ops : List UnaryOp}
    (h : (unary s ops e).isArgument = true) : e.room r < 4 := by
  cases e with
  | power => exact Nat.lt_succ_self 3
  | _ =>
    simp only [isArgument, Bool.and_eq_true] at h
    exact (room_le_of_isIndexed h.2).trans_lt (by omega)

/-- Operands have less room. -/
theorem room_lt_of_operand (he : e.WellShaped) (hr : x.run ≤ r) (hx : x ∈ e.operands) :
    x.room r < e.room r := by
  cases e with
  | assignment s target value =>
    obtain rfl := List.mem_singleton.1 hx
    exact (room_le_of_rank (a := .pipe) hr (Nat.succ_le_of_lt he.1)).trans_lt (Nat.lt_succ_self _)
  | pipe s stages =>
    have hrank : Rank.join ≤ x.rank := Nat.succ_le_of_lt (he.2.1 x hx)
    exact (room_le_of_rank hr hrank).trans_lt (Nat.lt_succ_self _)
  | join s elements =>
    have hrank : Rank.comparison ≤ x.rank := Nat.succ_le_of_lt (he.2.1 x hx)
    exact (room_le_of_rank hr hrank).trans_lt (Nat.lt_succ_self _)
  | binary s op left right => exact room_lt_binary he (List.mem_pair.1 hx) hr
  | unary s ops operand =>
    obtain rfl := List.mem_singleton.1 hx
    by_cases hargument : (unary s ops x).isArgument = true
    · have hroom : (unary s ops x).room r = 4 := if_pos hargument
      rw [hroom]
      exact room_lt_of_isArgument hargument
    · have hroom : (unary s ops x).room r = 6 := if_neg hargument
      rw [hroom]
      have hrank : Rank.power ≤ x.rank := Nat.succ_le_of_lt he.2
      exact (room_le_of_rank hr hrank).trans_lt (Nat.lt_succ_self _)
  | power s base exponent =>
    obtain rfl := List.mem_singleton.1 hx
    exact (room_le_of_isIndexed he.1).trans_lt (Nat.lt_succ_self 2)
  | chain s base suffixes =>
    rcases List.mem_cons.1 hx with rfl | hx
    · have hbase : x.room r = 1 := by simp only [room, he.1]
      rw [hbase]
      change 1 < if (chain s x suffixes).isIndexed then 2 else 5
      split <;> omega
    · obtain ⟨suffix, hmem, hsuffix⟩ := List.mem_filterMap.1 hx
      obtain rfl : suffix = .apply x := by
        cases suffix <;> simp_all [Suffix.argument?]
      have hroom : (chain s base suffixes).room r = 5 :=
        if_neg (by simp [isIndexed_eq_false hmem])
      rw [hroom]
      exact (room_le_of_isArgument (he.2.2.2.2 x hmem)).trans_lt (Nat.lt_succ_self 4)
  | _ => cases hx

/-! ## Height -/

/-- A regular tree is no higher than its levels and its runs allow. -/
theorem height_le_room (he : e.Regular n) (hr : e.RunsAtMost r) :
    e.height ≤ (3 * r + 9) * n + e.room r := by
  induction e using induction_parts generalizing n with
  | h e operands nested =>
    obtain ⟨hshape, hoperands, hnested⟩ := regular_iff.1 he
    obtain ⟨-, hrOperands, hrNested⟩ := everywhere_iff.1 hr
    refine height_le_iff.2 ⟨fun x hx => ?_, fun x hx => ?_, ?_⟩
    · have hroom := room_lt_of_operand hshape (hrOperands x hx 0 x (.refl x)) hx
      have hheight := operands x hx (hoperands x hx) (hrOperands x hx)
      omega
    · obtain ⟨m, rfl, hm⟩ := hnested x hx
      have hroom := room_le (hrNested x hx 0 x (.refl x))
      have hheight := nested x hx hm (hrNested x hx)
      have hpos := room_pos (r := r) (e := e)
      rw [Nat.mul_succ]
      omega
    · exact room_pos.trans (Nat.le_add_left _ _)

/-- Levels and runs bound the height of a regular tree. -/
theorem height_le_of_regular (he : e.Regular n) (hr : e.RunsAtMost r) :
    e.height ≤ (3 * r + 9) * (n + 1) := by
  rw [Nat.mul_succ]
  exact (height_le_room he hr).trans (Nat.add_le_add_left (room_le (hr 0 e (.refl e))) _)

theorem Within.trans {j k : Nat} {y : Expr} (hx : x.Within k e) (hy : y.Within j x) :
    y.Within (k + j) e := by
  induction hx with
  | refl => rwa [Nat.zero_add]
  | operand hmem _ ih => exact .operand hmem (ih hy)
  | nested hmem _ ih =>
    rw [Nat.add_right_comm]
    exact .nested hmem (ih hy)

theorem Regular.of_within {k : Nat} (he : e.Regular n) (hx : x.Within k e) : x.Regular n :=
  fun j y hy => ⟨(he _ y (hx.trans hy)).1, by have := (he _ y (hx.trans hy)).2; omega⟩

/-! ## Places -/

@[simp] theorem rank_erase (e : Expr) : e.erase.rank = e.rank := by
  cases e with
  | function s params body => cases body <;> rfl
  | returning s value => cases value <;> rfl
  | _ => rfl

@[simp] theorem run_erase (e : Expr) : e.erase.run = e.run := by
  induction e using induction_parts with
  | h e operands nested =>
    cases e with
    | binary s op left right => simp [erase, run, operands left (by simp [Expr.operands])]
    | function s params body => cases body <;> simp [erase, run]
    | returning s value => cases value <;> simp [erase, run]
    | _ => simp [erase, run]

/-- The runs do not depend on places. -/
theorem runsAtMost_erase : e.erase.RunsAtMost r ↔ e.RunsAtMost r := by
  induction e using induction_parts with
  | h e operands nested =>
    unfold RunsAtMost at *
    rw [everywhere_iff, everywhere_iff, operands_erase, nested_erase, List.forall_mem_map,
      List.forall_mem_map, run_erase]
    exact and_congr_right fun _ => and_congr (forall₂_congr operands) (forall₂_congr nested)

/-! ## Sums -/

/-- A sum of ones with the given number of signs. -/
def sum : Nat → Expr
  | 0 => literal default (.integer 1)
  | k + 1 => binary default .add (sum k) (literal default (.integer 1))

/-- Each sign adds to the height. -/
theorem height_sum (k : Nat) : k < (sum k).height := by
  induction k with
  | zero => exact (height_le_iff.1 le_rfl).2.2
  | succ k ih =>
    have hoperand : sum k ∈ (sum (k + 1)).operands := by simp [sum, operands]
    have hleft := (height_le_iff.1 (le_refl (sum (k + 1)).height)).1 (sum k) hoperand
    omega

/-- A sum is one run of all its signs. -/
theorem runsAtMost_sum (k : Nat) : (sum k).RunsAtMost k := by
  have hone (r : Nat) : (literal default (.integer 1)).RunsAtMost r :=
    everywhere_iff.2 ⟨Nat.zero_le r, by simp [operands], by simp [nested]⟩
  have hrun (k : Nat) : (sum k).run ≤ k := by
    induction k with
    | zero => exact Nat.le_refl 0
    | succ k ih =>
      rw [sum, run]
      split <;> omega
  induction k with
  | zero => exact hone 0
  | succ k ih =>
    refine everywhere_iff.2 ⟨hrun (k + 1), ?_, by simp [sum, nested]⟩
    intro x hx
    rcases List.mem_pair.1 hx with rfl | rfl
    · exact fun j y hy => (ih j y hy).trans (Nat.le_succ k)
    · exact hone _

theorem ending_sum (k : Nat) : (sum k).ending = .closed := by
  cases k <;> simp [sum, ending]

/-- Sums have one level. -/
theorem regular_sum (k : Nat) : (sum k).Regular n := by
  induction k with
  | zero => exact regular_iff.2 ⟨trivial, by simp [sum, operands], by simp [sum, nested]⟩
  | succ k ih =>
    have hone : (literal default (.integer 1)).Regular n :=
      regular_iff.2 ⟨trivial, by simp [operands], by simp [nested]⟩
    refine regular_iff.2 ⟨⟨?_, by decide, ?_⟩, ?_, by simp [sum, nested]⟩
    · cases k with
      | zero => decide
      | succ k => exact le_rfl
    · rw [ending_sum]
      trivial
    · simp [sum, operands, ih, hone]

end Expr
end WqSource
