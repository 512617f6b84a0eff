import WqSource.Tree.Json

/-!
# Trees apart from their places

`Expr.erase` forgets where the nodes of a tree stand. Two trees with the same erasure have
the same forms and values throughout; their shapes are the same then, as the JSON without
spans says it.

## Main definitions

* `Expr.erase`, `Program.erase`.

## Main statements

* `Program.shape_eq_of_erase_eq`.
-/

namespace WqSource

/-- A parameter apart from its place. -/
def Param.erase (p : Param) : Param := ⟨p.name, default⟩

mutual

/-- An expression apart from the places of its nodes. -/
def Expr.erase : Expr → Expr
  | .assignment _ target value => .assignment default target.erase value.erase
  | .pipe _ stages => .pipe default (Expr.eraseList stages)
  | .join _ elements => .join default (Expr.eraseList elements)
  | .binary _ op left right => .binary default op left.erase right.erase
  | .unary _ ops operand => .unary default ops operand.erase
  | .power _ base exponent => .power default base.erase exponent.erase
  | .chain _ base suffixes => .chain default base.erase (Suffix.eraseList suffixes)
  | .literal _ value => .literal default value
  | .name _ name reserved => .name default name reserved
  | .function _ params none => .function default (params.map Param.erase) none
  | .function _ params (some body) =>
    .function default (params.map Param.erase) (some body.erase)
  | .unit _ => .unit default
  | .list _ items => .list default (Expr.eraseList items)
  | .dict _ entries => .dict default (Entry.eraseList entries)
  | .conditional _ condition thenArm elseArm =>
    .conditional default condition.erase thenArm.erase elseArm.erase
  | .guarded _ condition arm => .guarded default condition.erase arm.erase
  | .whileLoop _ condition body => .whileLoop default condition.erase body.erase
  | .countLoop _ count body => .countLoop default count.erase body.erase
  | .returning _ none => .returning default none
  | .returning _ (some value) => .returning default (some value.erase)
  | .breaking _ => .breaking default
  | .continuing _ => .continuing default
  | .asserting _ claim => .asserting default claim.erase
  | .trying _ attempt => .trying default attempt.erase

/-- Expressions apart from the places of their nodes. -/
def Expr.eraseList : List Expr → List Expr
  | [] => []
  | e :: es => e.erase :: Expr.eraseList es

/-- A suffix apart from the places of its nodes. -/
def Suffix.erase : Suffix → Suffix
  | .index _ args => .index default (Expr.eraseList args)
  | .apply arg => .apply arg.erase

/-- Suffixes apart from the places of their nodes. -/
def Suffix.eraseList : List Suffix → List Suffix
  | [] => []
  | s :: ss => s.erase :: Suffix.eraseList ss

/-- An entry apart from the places of its nodes. -/
def Entry.erase : Entry → Entry
  | .mk key _ value => .mk key default value.erase

/-- Entries apart from the places of their nodes. -/
def Entry.eraseList : List Entry → List Entry
  | [] => []
  | e :: es => e.erase :: Entry.eraseList es

/-- A branch apart from the places of its nodes. -/
def Branch.erase : Branch → Branch
  | .mk _ statements => .mk default (Statement.eraseList statements)

/-- A statement apart from the places of its nodes. -/
def Statement.erase : Statement → Statement
  | .expression e => .expression e.erase
  | .magic _ payload => .magic default payload

/-- Statements apart from the places of their nodes. -/
def Statement.eraseList : List Statement → List Statement
  | [] => []
  | s :: ss => s.erase :: Statement.eraseList ss

end

/-- A program apart from the places of its nodes. -/
def Program.erase (p : Program) : Program where
  shebang := p.shebang
  statements := p.statements.map Statement.erase
  span := default

@[simp] theorem Expr.eraseList_eq (es : List Expr) : Expr.eraseList es = es.map erase := by
  induction es with
  | nil => rw [eraseList, List.map_nil]
  | cons e es ih => rw [eraseList, ih, List.map_cons]

@[simp] theorem Suffix.eraseList_eq (ss : List Suffix) :
    Suffix.eraseList ss = ss.map erase := by
  induction ss with
  | nil => rw [eraseList, List.map_nil]
  | cons s ss ih => rw [eraseList, ih, List.map_cons]

@[simp] theorem Entry.eraseList_eq (es : List Entry) : Entry.eraseList es = es.map erase := by
  induction es with
  | nil => rw [eraseList, List.map_nil]
  | cons e es ih => rw [eraseList, ih, List.map_cons]

@[simp] theorem Statement.eraseList_eq (ss : List Statement) :
    Statement.eraseList ss = ss.map erase := by
  induction ss with
  | nil => rw [eraseList, List.map_nil]
  | cons s ss ih => rw [eraseList, ih, List.map_cons]

/-- The erasure of a branch is that of its statements. -/
theorem Branch.erase_eq (b : Branch) : b.erase = .mk default (b.statements.map Statement.erase) := by
  cases b
  rw [erase, Statement.eraseList_eq]
  rfl

/-! ## Shapes -/

theorem Param.toJson_erase (ps : List Param) :
    (ps.map Param.erase).map (Param.toJson false) = ps.map (Param.toJson false) := by
  rw [List.map_map]
  rfl

mutual

/-- The JSON without spans is that of the erasure. -/
theorem Expr.toJson_erase : ∀ e : Expr, e.erase.toJson false = e.toJson false
  | .assignment _ target value | .power _ target value => by
    simp only [Expr.erase, Expr.toJson, Expr.toJson_erase target, Expr.toJson_erase value]
    rfl
  | .binary _ op left right => by
    simp only [Expr.erase, Expr.toJson, Expr.toJson_erase left, Expr.toJson_erase right]
    rfl
  | .pipe _ es | .join _ es | .list _ es => by
    simp only [Expr.erase, Expr.toJson, Expr.listToJson_erase es]
    rfl
  | .unary _ ops operand => by
    simp only [Expr.erase, Expr.toJson, Expr.toJson_erase operand]
    rfl
  | .chain _ base suffixes => by
    simp only [Expr.erase, Expr.toJson, Expr.toJson_erase base, Suffix.listToJson_erase suffixes]
    rfl
  | .literal .. | .name .. | .unit _ | .breaking _ | .continuing _ => by
    simp only [Expr.erase, Expr.toJson]
    rfl
  | .function _ params none => by
    simp only [Expr.erase, Expr.toJson, Param.toJson_erase]
    rfl
  | .function _ params (some body) => by
    simp only [Expr.erase, Expr.toJson, Param.toJson_erase, Branch.toJson_erase body]
    rfl
  | .dict _ entries => by
    simp only [Expr.erase, Expr.toJson, Entry.listToJson_erase entries]
    rfl
  | .conditional _ condition thenArm elseArm => by
    simp only [Expr.erase, Expr.toJson, Expr.toJson_erase condition, Branch.toJson_erase thenArm,
      Branch.toJson_erase elseArm]
    rfl
  | .guarded _ e b | .whileLoop _ e b | .countLoop _ e b => by
    simp only [Expr.erase, Expr.toJson, Expr.toJson_erase e, Branch.toJson_erase b]
    rfl
  | .returning _ none => by
    simp only [Expr.erase, Expr.toJson]
    rfl
  | .returning _ (some e) | .asserting _ e | .trying _ e => by
    simp only [Expr.erase, Expr.toJson, Expr.toJson_erase e]
    rfl

theorem Expr.listToJson_erase :
    ∀ es : List Expr, Expr.listToJson false (Expr.eraseList es) = Expr.listToJson false es
  | [] => by rw [Expr.eraseList]
  | e :: es => by
    rw [Expr.eraseList, Expr.listToJson, Expr.listToJson, Expr.toJson_erase e,
      Expr.listToJson_erase es]

theorem Suffix.toJson_erase : ∀ s : Suffix, s.erase.toJson false = s.toJson false
  | .index _ args => by
    simp only [Suffix.erase, Suffix.toJson, Expr.listToJson_erase args]
    rfl
  | .apply arg => by
    simp only [Suffix.erase, Suffix.toJson, Expr.toJson_erase arg]
    rfl

theorem Suffix.listToJson_erase :
    ∀ ss : List Suffix, Suffix.listToJson false (Suffix.eraseList ss) = Suffix.listToJson false ss
  | [] => by rw [Suffix.eraseList]
  | s :: ss => by
    rw [Suffix.eraseList, Suffix.listToJson, Suffix.listToJson, Suffix.toJson_erase s,
      Suffix.listToJson_erase ss]

theorem Entry.toJson_erase : ∀ e : Entry, e.erase.toJson false = e.toJson false
  | .mk key _ value => by
    simp only [Entry.erase, Entry.toJson, Expr.toJson_erase value]
    rfl

theorem Entry.listToJson_erase :
    ∀ es : List Entry, Entry.listToJson false (Entry.eraseList es) = Entry.listToJson false es
  | [] => by rw [Entry.eraseList]
  | e :: es => by
    rw [Entry.eraseList, Entry.listToJson, Entry.listToJson, Entry.toJson_erase e,
      Entry.listToJson_erase es]

theorem Branch.toJson_erase : ∀ b : Branch, b.erase.toJson false = b.toJson false
  | .mk _ statements => by
    simp only [Branch.erase, Branch.toJson, Statement.listToJson_erase statements]
    rfl

theorem Statement.toJson_erase : ∀ s : Statement, s.erase.toJson false = s.toJson false
  | .expression e => by simp only [Statement.erase, Statement.toJson, Expr.toJson_erase e]
  | .magic _ payload => by
    simp only [Statement.erase, Statement.toJson]
    rfl

theorem Statement.listToJson_erase :
    ∀ ss : List Statement,
      Statement.listToJson false (Statement.eraseList ss) = Statement.listToJson false ss
  | [] => by rw [Statement.eraseList]
  | s :: ss => by
    rw [Statement.eraseList, Statement.listToJson, Statement.listToJson, Statement.toJson_erase s,
      Statement.listToJson_erase ss]

end

/-- The shape of a program is that of its erasure. -/
theorem Program.shape_erase (p : Program) : p.erase.shape = p.shape := by
  unfold shape toJson erase
  rw [← Statement.eraseList_eq, Statement.listToJson_erase]
  rfl

/-- Programs that differ in places only have the same shape. -/
theorem Program.shape_eq_of_erase_eq {p q : Program} (h : p.erase = q.erase) :
    p.shape = q.shape := by
  rw [← shape_erase p, h, shape_erase]

end WqSource
