import Mathlib.Data.List.Basic
import WqSource.Proofs.Token.Number
import WqSource.Proofs.Tree.Erase

/-!
# What the shape of a tree tells

The JSON without spans tells trees apart: programs of the same shape are the same but for
the places of their nodes. Nodes of different forms have different types, and the members
of a node neither hide its type nor each other, so every part of a node can be looked up in
its object. The trees here are any trees, whether they are read from a text or not.

## Main definitions

* `Json.member?`: the member of an object with a given key.
* `Expr.tag`: the type of a node.

## Main statements

* `Json.member?_ofFields`: a member is found unless a later one has its key.
* `Program.shape_eq_iff`.
-/

namespace WqSource

/-! ## Members of objects -/

namespace Json
variable {key k type type' : String} {value : Json} {fields fields' : List (String × Json)}
  {span span' : Span}

/-- The member of an object with a given key. -/
def member? (key : String) : Json → Option Json
  | object fields => fields.lookup key
  | _ => none

theorem lookup_cons (f : String × Json) :
    (f :: fields).lookup key = if key = f.1 then some f.2 else fields.lookup key := by
  obtain ⟨k, v⟩ := f
  by_cases h : key = k
  · simp [h]
  · simp [List.lookup_cons, h, beq_eq_false_iff_ne.2 h]

/-- A member that is added is found, and all others as before. -/
theorem lookup_insertField :
    (insertField k value fields).lookup key =
      if key = k then some value else fields.lookup key := by
  induction fields with
  | nil => simp only [insertField, lookup_cons]
  | cons f fields ih =>
    unfold insertField
    split
    · simp only [lookup_cons]
    · split
      · next hk =>
        simp only [lookup_cons, hk]
        split <;> rfl
      · next hk =>
        simp only [lookup_cons, ih]
        by_cases h : key = f.1
        · simp [h, Ne.symm hk]
        · simp [h]

/-- Of members that are added one after another, the last one with a key is found. -/
theorem lookup_foldl {added : List (String × Json)} :
    (added.foldl (fun sorted f => insertField f.1 f.2 sorted) fields).lookup key =
      (added.reverse.lookup key).or (fields.lookup key) := by
  induction added generalizing fields with
  | nil => rfl
  | cons f added ih =>
    rw [List.foldl_cons, ih, lookup_insertField, List.reverse_cons, List.lookup_append,
      Option.or_assoc, lookup_cons]
    by_cases h : key = f.1 <;> simp [h]

/-- A later member hides an earlier one with the same key. -/
theorem member?_ofFields : (ofFields fields).member? key = fields.reverse.lookup key := by
  change (fields.foldl (fun sorted f => insertField f.1 f.2 sorted) []).lookup key = _
  rw [lookup_foldl, List.lookup_nil, Option.or_none]

example : (ofFields [("a", null), ("b", null), ("a", bool true)]).member? "a" =
    some (bool true) := by rfl

/-- Where keys are different, none is hidden. -/
theorem lookup_reverse (h : (fields.map Prod.fst).Nodup) :
    fields.reverse.lookup key = fields.lookup key := by
  induction fields with
  | nil => rfl
  | cons f fields ih =>
    obtain ⟨hf, hfields⟩ := List.nodup_cons.1 h
    rw [List.reverse_cons, List.lookup_append, ih hfields, lookup_cons, lookup_cons]
    by_cases hkey : key = f.1
    · subst hkey
      have hnone : fields.lookup f.1 = none := by
        refine List.lookup_eq_none_iff.2 fun g hg => ?_
        simpa using fun heq : f.1 = g.1 => hf (heq ▸ List.mem_map_of_mem hg)
      simp [hnone]
    · simp [hkey]

/-- The type of a node is a member besides the given ones. -/
theorem member?_node (h : ("type" :: fields.map Prod.fst).Nodup) :
    (node false type span fields).member? key =
      if key = "type" then some (string type) else fields.lookup key := by
  have hkeys : ((("type", string type) :: fields).map Prod.fst).Nodup := h
  rw [node, if_neg Bool.false_ne_true, List.append_nil, member?_ofFields, lookup_reverse hkeys,
    lookup_cons]

/-- Equal nodes have the same type and the same members. -/
theorem of_node_eq (heq : node false type span fields = node false type' span' fields')
    (h : ("type" :: fields.map Prod.fst).Nodup) (h' : ("type" :: fields'.map Prod.fst).Nodup) :
    type = type' ∧ ∀ key, key ≠ "type" → fields.lookup key = fields'.lookup key := by
  have hmember (key : String) : (if key = "type" then some (string type) else fields.lookup key) =
      if key = "type" then some (string type') else fields'.lookup key := by
    rw [← member?_node h, heq, member?_node h']
  exact ⟨by simpa using hmember "type", fun key hkey => by simpa [hkey] using hmember key⟩

/-- The list of all members is found where the keys are known. -/
theorem eq_of_lookup_eq (h : (fields.map Prod.fst).Nodup)
    (hkeys : fields'.map Prod.fst = fields.map Prod.fst)
    (hlookup : ∀ key ∈ fields.map Prod.fst, fields.lookup key = fields'.lookup key) :
    fields = fields' := by
  induction fields generalizing fields' with
  | nil => exact (List.map_eq_nil_iff.1 hkeys).symm
  | cons f fields ih =>
    obtain ⟨f', fields', rfl⟩ :=
      List.exists_cons_of_ne_nil (l := fields') (by rintro rfl; cases hkeys)
    obtain ⟨hf, hrest⟩ := List.cons.inj hkeys
    obtain ⟨hnot, hnodup⟩ := List.nodup_cons.1 h
    have hhead : f = f' := by
      have hvalue := hlookup f.1 (by simp)
      simp only [lookup_cons, hf, if_true, Option.some.injEq] at hvalue
      exact Prod.ext hf.symm hvalue
    have htail : fields = fields' := ih hnodup hrest fun key hkey => by
      have hne : key ≠ f.1 := fun heq => hnot (heq ▸ hkey)
      have hvalue := hlookup key (List.mem_cons_of_mem _ hkey)
      simpa only [lookup_cons, hf, if_neg hne] using hvalue
    rw [hhead, htail]

/-- Nodes with members of the same keys are equal just if their types and members are. -/
theorem node_eq_node (hkeys : fields'.map Prod.fst = fields.map Prod.fst)
    (h : ("type" :: fields.map Prod.fst).Nodup) :
    node false type span fields = node false type' span' fields' ↔
      type = type' ∧ fields = fields' := by
  constructor
  · intro heq
    obtain ⟨htype, hlookup⟩ := of_node_eq heq h (hkeys ▸ h)
    obtain ⟨hnot, hnodup⟩ := List.nodup_cons.1 h
    exact ⟨htype, eq_of_lookup_eq hnodup hkeys fun key hkey =>
      hlookup key fun heq => hnot (heq ▸ hkey)⟩
  · rintro ⟨rfl, rfl⟩
    rfl

end Json

/-! ## Values in nodes -/

theorem Json.eq_of_ofOption_eq {s t : Option String}
    (h : ofOption (s.map string) = ofOption (t.map string)) : s = t := by
  cases s <;> cases t <;> simp_all [ofOption]

theorem BinaryOp.eq_of_spelling_eq {op op' : BinaryOp}
    (h : op.punct.spelling = op'.punct.spelling) : op = op' := by
  cases op <;> cases op' <;> first | rfl | exact absurd h (by decide)

theorem UnaryOp.eq_of_spelling_eq {op op' : UnaryOp} (h : op.punct.spelling = op'.punct.spelling) :
    op = op' := by
  cases op <;> cases op' <;> first | rfl | exact absurd h (by decide)

/-- Lists whose images under a map are equal have equal images under any map that
distinguishes no more. -/
theorem map_eq_of_map_eq {α β γ : Type} {f : α → β} {g : α → γ}
    (hfg : ∀ a b, f a = f b → g a = g b) {xs ys : List α} (h : xs.map f = ys.map f) :
    xs.map g = ys.map g := by
  induction xs generalizing ys with
  | nil => cases ys with
    | nil => rfl
    | cons => cases h
  | cons x xs ih => cases ys with
    | nil => cases h
    | cons y ys =>
      obtain ⟨hhead, htail⟩ := List.cons.inj h
      rw [List.map_cons, List.map_cons, hfg x y hhead, ih htail]

theorem Literal.nodup_fields (v : Literal) : ("type" :: v.fields.map Prod.fst).Nodup := by
  cases v <;> simp [fields]

/-- Literals with the same members are equal. -/
theorem Literal.eq_of_fields_eq {v w : Literal}
    (h : ∀ key, key ≠ "type" → v.fields.lookup key = w.fields.lookup key) : v = w := by
  have hkind := h "kind" (by decide)
  have hvalue := h "value" (by decide)
  cases v <;> cases w <;> simp [fields, List.lookup_cons] at hkind hvalue
  case float.float => rw [Binary64.eq_of_text_eq hvalue]
  all_goals first | rfl | rw [hvalue]

/-! ## Types and members of nodes -/

/-- The type of a node. -/
def Expr.tag : Expr → String
  | .assignment .. => "assign"
  | .pipe .. => "pipe"
  | .join .. => "comma"
  | .binary .. => "binary"
  | .unary .. => "unary"
  | .power .. => "power"
  | .chain .. => "postfix"
  | .literal .. => "literal"
  | .name .. => "variable"
  | .function .. => "function"
  | .unit _ => "unit"
  | .list .. => "list"
  | .dict .. => "dict"
  | .conditional .. => "conditional"
  | .guarded .. => "conditional_one_arm"
  | .whileLoop .. => "while"
  | .countLoop .. => "for"
  | .returning .. => "return"
  | .breaking _ => "break"
  | .continuing _ => "continue"
  | .asserting .. => "assert"
  | .trying .. => "try"

@[simp] theorem Expr.member?_type (e : Expr) :
    (e.toJson false).member? "type" = some (.string e.tag) := by
  cases e
  case literal v => rw [toJson, Json.member?_node v.nodup_fields, if_pos rfl, tag]
  case function body => cases body <;> rw [toJson, Json.member?_node (by simp), if_pos rfl, tag]
  case returning value => cases value <;> rw [toJson, Json.member?_node (by simp), if_pos rfl, tag]
  all_goals rw [toJson, Json.member?_node (by simp), if_pos rfl, tag]

/-- Nodes with the same JSON are of the same type. -/
theorem Expr.tag_eq {e f : Expr} (h : e.toJson false = f.toJson false) : e.tag = f.tag := by
  have htype := e.member?_type
  rw [h, member?_type] at htype
  simpa using htype.symm

theorem Param.erase_eq {p q : Param} (h : p.toJson false = q.toJson false) : p.erase = q.erase := by
  have hname : p.name = q.name := by simpa [Param.toJson, Json.node_eq_node] using h
  rw [erase, erase, hname]

theorem Expr.toJson_ne_null (e : Expr) : e.toJson false ≠ .null := fun h => by
  have htype := e.member?_type
  rw [h] at htype
  cases htype

theorem Branch.toJson_ne_null : ∀ b : Branch, b.toJson false ≠ .null
  | .mk _ _, h => by
    rw [toJson] at h
    cases h

/-- No expression is a line for the host. -/
theorem Expr.toJson_ne_magic (e : Expr) (payload : String) {s : Span} :
    e.toJson false ≠ (Statement.magic s payload).toJson false := fun h => by
  have htype := e.member?_type
  rw [h, Statement.toJson, Json.member?_node (by simp), if_pos rfl] at htype
  cases e <;> simp [tag] at htype

/-! ## Trees -/

mutual

/-- Expressions with the same JSON are the same apart from their places. -/
theorem Expr.erase_eq_of_toJson : ∀ e f : Expr, e.toJson false = f.toJson false → e.erase = f.erase
  | .assignment _ target value, f, h => by
    have htag := Expr.tag_eq h
    cases f with
    | assignment _ target' value' =>
      obtain ⟨htarget, hvalue⟩ : target.toJson false = target'.toJson false ∧
          value.toJson false = value'.toJson false := by
        simpa [Expr.toJson, Json.node_eq_node] using h
      rw [Expr.erase, Expr.erase, Expr.erase_eq_of_toJson target _ htarget,
        Expr.erase_eq_of_toJson value _ hvalue]
    | _ => simp [Expr.tag] at htag
  | .pipe _ stages, f, h => by
    have htag := Expr.tag_eq h
    cases f with
    | pipe _ stages' =>
      have hstages : Expr.listToJson false stages = Expr.listToJson false stages' := by
        simpa [Expr.toJson, Json.node_eq_node] using h
      rw [Expr.erase, Expr.erase, Expr.eraseList_eq_of_toJson stages _ hstages]
    | _ => simp [Expr.tag] at htag
  | .join _ elements, f, h => by
    have htag := Expr.tag_eq h
    cases f with
    | join _ elements' =>
      have helements : Expr.listToJson false elements = Expr.listToJson false elements' := by
        simpa [Expr.toJson, Json.node_eq_node] using h
      rw [Expr.erase, Expr.erase, Expr.eraseList_eq_of_toJson elements _ helements]
    | _ => simp [Expr.tag] at htag
  | .binary _ op left right, f, h => by
    have htag := Expr.tag_eq h
    cases f with
    | binary _ op' left' right' =>
      obtain ⟨hop, hleft, hright⟩ : op.punct.spelling = op'.punct.spelling ∧
          left.toJson false = left'.toJson false ∧
          right.toJson false = right'.toJson false := by
        simpa [Expr.toJson, Json.node_eq_node] using h
      rw [Expr.erase, Expr.erase, BinaryOp.eq_of_spelling_eq hop,
        Expr.erase_eq_of_toJson left _ hleft, Expr.erase_eq_of_toJson right _ hright]
    | _ => simp [Expr.tag] at htag
  | .unary _ ops operand, f, h => by
    have htag := Expr.tag_eq h
    cases f with
    | unary _ ops' operand' =>
      obtain ⟨hops, hoperand⟩ :
          ops.map (Json.string ·.punct.spelling) = ops'.map (Json.string ·.punct.spelling) ∧
          operand.toJson false = operand'.toJson false := by
        simpa [Expr.toJson, Json.node_eq_node] using h
      have hops' : ops.map id = ops'.map id :=
        map_eq_of_map_eq (fun _ _ hop => UnaryOp.eq_of_spelling_eq (Json.string.inj hop)) hops
      rw [List.map_id, List.map_id] at hops'
      rw [Expr.erase, Expr.erase, hops', Expr.erase_eq_of_toJson operand _ hoperand]
    | _ => simp [Expr.tag] at htag
  | .power _ base exponent, f, h => by
    have htag := Expr.tag_eq h
    cases f with
    | power _ base' exponent' =>
      obtain ⟨hbase, hexponent⟩ : base.toJson false = base'.toJson false ∧
          exponent.toJson false = exponent'.toJson false := by
        simpa [Expr.toJson, Json.node_eq_node] using h
      rw [Expr.erase, Expr.erase, Expr.erase_eq_of_toJson base _ hbase,
        Expr.erase_eq_of_toJson exponent _ hexponent]
    | _ => simp [Expr.tag] at htag
  | .chain _ base suffixes, f, h => by
    have htag := Expr.tag_eq h
    cases f with
    | chain _ base' suffixes' =>
      obtain ⟨hbase, hsuffixes⟩ : base.toJson false = base'.toJson false ∧
          Suffix.listToJson false suffixes = Suffix.listToJson false suffixes' := by
        simpa [Expr.toJson, Json.node_eq_node] using h
      rw [Expr.erase, Expr.erase, Expr.erase_eq_of_toJson base _ hbase,
        Suffix.eraseList_eq_of_toJson suffixes _ hsuffixes]
    | _ => simp [Expr.tag] at htag
  | .literal _ v, f, h => by
    have htag := Expr.tag_eq h
    cases f with
    | literal _ w =>
      rw [Expr.toJson, Expr.toJson] at h
      have hmembers := (Json.of_node_eq h v.nodup_fields w.nodup_fields).2
      rw [Expr.erase, Expr.erase, Literal.eq_of_fields_eq hmembers]
    | _ => simp [Expr.tag] at htag
  | .name _ name reserved, f, h => by
    have htag := Expr.tag_eq h
    cases f with
    | name _ name' reserved' =>
      obtain ⟨rfl, rfl⟩ : name = name' ∧ reserved = reserved' := by
        simpa [Expr.toJson, Json.node_eq_node] using h
      rw [Expr.erase, Expr.erase]
    | _ => simp [Expr.tag] at htag
  | .function _ params none, f, h => by
    have htag := Expr.tag_eq h
    cases f with
    | function _ params' body' =>
      cases body' with
      | none =>
        have hparams : params.map (Param.toJson false) = params'.map (Param.toJson false) := by
          simpa [Expr.toJson, Json.node_eq_node] using h
        rw [Expr.erase, Expr.erase, map_eq_of_map_eq (fun _ _ => Param.erase_eq) hparams]
      | some body' =>
        obtain ⟨-, hbody⟩ :
            params.map (Param.toJson false) = params'.map (Param.toJson false) ∧
            Json.null = body'.toJson false := by
          simpa [Expr.toJson, Json.node_eq_node] using h
        exact absurd hbody.symm body'.toJson_ne_null
    | _ => simp [Expr.tag] at htag
  | .function _ params (some body), f, h => by
    have htag := Expr.tag_eq h
    cases f with
    | function _ params' body' =>
      cases body' with
      | none =>
        obtain ⟨-, hbody⟩ :
            params.map (Param.toJson false) = params'.map (Param.toJson false) ∧
            body.toJson false = Json.null := by
          simpa [Expr.toJson, Json.node_eq_node] using h
        exact absurd hbody body.toJson_ne_null
      | some body' =>
        obtain ⟨hparams, hbody⟩ :
            params.map (Param.toJson false) = params'.map (Param.toJson false) ∧
            body.toJson false = body'.toJson false := by
          simpa [Expr.toJson, Json.node_eq_node] using h
        rw [Expr.erase, Expr.erase, map_eq_of_map_eq (fun _ _ => Param.erase_eq) hparams,
          Branch.erase_eq_of_toJson body _ hbody]
    | _ => simp [Expr.tag] at htag
  | .unit _, f, h => by
    have htag := Expr.tag_eq h
    cases f with
    | unit _ =>
      rfl
    | _ => simp [Expr.tag] at htag
  | .list _ items, f, h => by
    have htag := Expr.tag_eq h
    cases f with
    | list _ items' =>
      have hitems : Expr.listToJson false items = Expr.listToJson false items' := by
        simpa [Expr.toJson, Json.node_eq_node] using h
      rw [Expr.erase, Expr.erase, Expr.eraseList_eq_of_toJson items _ hitems]
    | _ => simp [Expr.tag] at htag
  | .dict _ entries, f, h => by
    have htag := Expr.tag_eq h
    cases f with
    | dict _ entries' =>
      have hentries : Entry.listToJson false entries = Entry.listToJson false entries' := by
        simpa [Expr.toJson, Json.node_eq_node] using h
      rw [Expr.erase, Expr.erase, Entry.eraseList_eq_of_toJson entries _ hentries]
    | _ => simp [Expr.tag] at htag
  | .conditional _ condition thenArm elseArm, f, h => by
    have htag := Expr.tag_eq h
    cases f with
    | conditional _ condition' thenArm' elseArm' =>
      obtain ⟨hcondition, hthen, helse⟩ : condition.toJson false = condition'.toJson false ∧
          thenArm.toJson false = thenArm'.toJson false ∧
          elseArm.toJson false = elseArm'.toJson false := by
        simpa [Expr.toJson, Json.node_eq_node] using h
      rw [Expr.erase, Expr.erase, Expr.erase_eq_of_toJson condition _ hcondition,
        Branch.erase_eq_of_toJson thenArm _ hthen, Branch.erase_eq_of_toJson elseArm _ helse]
    | _ => simp [Expr.tag] at htag
  | .guarded _ condition arm, f, h => by
    have htag := Expr.tag_eq h
    cases f with
    | guarded _ condition' arm' =>
      obtain ⟨hcondition, harm⟩ : condition.toJson false = condition'.toJson false ∧
          arm.toJson false = arm'.toJson false := by
        simpa [Expr.toJson, Json.node_eq_node] using h
      rw [Expr.erase, Expr.erase, Expr.erase_eq_of_toJson condition _ hcondition,
        Branch.erase_eq_of_toJson arm _ harm]
    | _ => simp [Expr.tag] at htag
  | .whileLoop _ condition body, f, h => by
    have htag := Expr.tag_eq h
    cases f with
    | whileLoop _ condition' body' =>
      obtain ⟨hcondition, hbody⟩ : condition.toJson false = condition'.toJson false ∧
          body.toJson false = body'.toJson false := by
        simpa [Expr.toJson, Json.node_eq_node] using h
      rw [Expr.erase, Expr.erase, Expr.erase_eq_of_toJson condition _ hcondition,
        Branch.erase_eq_of_toJson body _ hbody]
    | _ => simp [Expr.tag] at htag
  | .countLoop _ count body, f, h => by
    have htag := Expr.tag_eq h
    cases f with
    | countLoop _ count' body' =>
      obtain ⟨hcount, hbody⟩ : count.toJson false = count'.toJson false ∧
          body.toJson false = body'.toJson false := by
        simpa [Expr.toJson, Json.node_eq_node] using h
      rw [Expr.erase, Expr.erase, Expr.erase_eq_of_toJson count _ hcount,
        Branch.erase_eq_of_toJson body _ hbody]
    | _ => simp [Expr.tag] at htag
  | .returning _ none, f, h => by
    have htag := Expr.tag_eq h
    cases f with
    | returning _ value' =>
      cases value' with
      | none => rfl
      | some value' =>
        have hvalue : Json.null = value'.toJson false := by
          simpa [Expr.toJson, Json.node_eq_node] using h
        exact absurd hvalue.symm value'.toJson_ne_null
    | _ => simp [Expr.tag] at htag
  | .returning _ (some value), f, h => by
    have htag := Expr.tag_eq h
    cases f with
    | returning _ value' =>
      cases value' with
      | none =>
        have hvalue : value.toJson false = Json.null := by
          simpa [Expr.toJson, Json.node_eq_node] using h
        exact absurd hvalue value.toJson_ne_null
      | some value' =>
        have hvalue : value.toJson false = value'.toJson false := by
          simpa [Expr.toJson, Json.node_eq_node] using h
        rw [Expr.erase, Expr.erase, Expr.erase_eq_of_toJson value _ hvalue]
    | _ => simp [Expr.tag] at htag
  | .breaking _, f, h => by
    have htag := Expr.tag_eq h
    cases f with
    | breaking _ =>
      rfl
    | _ => simp [Expr.tag] at htag
  | .continuing _, f, h => by
    have htag := Expr.tag_eq h
    cases f with
    | continuing _ =>
      rfl
    | _ => simp [Expr.tag] at htag
  | .asserting _ claim, f, h => by
    have htag := Expr.tag_eq h
    cases f with
    | asserting _ claim' =>
      have hclaim : claim.toJson false = claim'.toJson false := by
        simpa [Expr.toJson, Json.node_eq_node] using h
      rw [Expr.erase, Expr.erase, Expr.erase_eq_of_toJson claim _ hclaim]
    | _ => simp [Expr.tag] at htag
  | .trying _ attempt, f, h => by
    have htag := Expr.tag_eq h
    cases f with
    | trying _ attempt' =>
      have hattempt : attempt.toJson false = attempt'.toJson false := by
        simpa [Expr.toJson, Json.node_eq_node] using h
      rw [Expr.erase, Expr.erase, Expr.erase_eq_of_toJson attempt _ hattempt]
    | _ => simp [Expr.tag] at htag

theorem Expr.eraseList_eq_of_toJson : ∀ es fs : List Expr,
    Expr.listToJson false es = Expr.listToJson false fs → Expr.eraseList es = Expr.eraseList fs
  | [], [], _ => rfl
  | [], _ :: _, h | _ :: _, [], h => by simp [Expr.listToJson] at h
  | e :: es, f :: fs, h => by
    rw [Expr.listToJson, Expr.listToJson] at h
    obtain ⟨hhead, htail⟩ := List.cons.inj h
    rw [Expr.eraseList, Expr.eraseList, Expr.erase_eq_of_toJson e f hhead,
      Expr.eraseList_eq_of_toJson es fs htail]

theorem Suffix.erase_eq_of_toJson :
    ∀ s t : Suffix, s.toJson false = t.toJson false → s.erase = t.erase
  | .index _ args, .index _ args', h => by
    have hargs : Expr.listToJson false args = Expr.listToJson false args' := by
      simpa [Suffix.toJson, Json.node_eq_node] using h
    rw [Suffix.erase, Suffix.erase, Expr.eraseList_eq_of_toJson args _ hargs]
  | .apply arg, .apply arg', h => by
    have harg : arg.toJson false = arg'.toJson false := by
      simpa [Suffix.toJson, Json.node_eq_node] using h
    rw [Suffix.erase, Suffix.erase, Expr.erase_eq_of_toJson arg _ harg]
  | .index .., .apply _, h | .apply _, .index .., h => by
    have htype := (Json.of_node_eq h (by simp) (by simp)).1
    simp at htype

theorem Suffix.eraseList_eq_of_toJson : ∀ ss ts : List Suffix,
    Suffix.listToJson false ss = Suffix.listToJson false ts →
      Suffix.eraseList ss = Suffix.eraseList ts
  | [], [], _ => rfl
  | [], _ :: _, h | _ :: _, [], h => by simp [Suffix.listToJson] at h
  | s :: ss, t :: ts, h => by
    rw [Suffix.listToJson, Suffix.listToJson] at h
    obtain ⟨hhead, htail⟩ := List.cons.inj h
    rw [Suffix.eraseList, Suffix.eraseList, Suffix.erase_eq_of_toJson s t hhead,
      Suffix.eraseList_eq_of_toJson ss ts htail]

theorem Entry.erase_eq_of_toJson : ∀ e f : Entry,
    e.toJson false = f.toJson false → e.erase = f.erase
  | .mk key _ value, .mk key' _ value', h => by
    obtain ⟨hkey, hvalue⟩ : key = key' ∧ value.toJson false = value'.toJson false := by
      simpa [Entry.toJson, Json.node_eq_node] using h
    rw [Entry.erase, Entry.erase, hkey, Expr.erase_eq_of_toJson value _ hvalue]

theorem Entry.eraseList_eq_of_toJson : ∀ es fs : List Entry,
    Entry.listToJson false es = Entry.listToJson false fs → Entry.eraseList es = Entry.eraseList fs
  | [], [], _ => rfl
  | [], _ :: _, h | _ :: _, [], h => by simp [Entry.listToJson] at h
  | e :: es, f :: fs, h => by
    rw [Entry.listToJson, Entry.listToJson] at h
    obtain ⟨hhead, htail⟩ := List.cons.inj h
    rw [Entry.eraseList, Entry.eraseList, Entry.erase_eq_of_toJson e f hhead,
      Entry.eraseList_eq_of_toJson es fs htail]

theorem Branch.erase_eq_of_toJson :
    ∀ b c : Branch, b.toJson false = c.toJson false → b.erase = c.erase
  | .mk _ statements, .mk _ statements', h => by
    have hstatements : Statement.listToJson false statements =
        Statement.listToJson false statements' := by
      simpa [Branch.toJson, Json.node_eq_node] using h
    rw [Branch.erase, Branch.erase, Statement.eraseList_eq_of_toJson statements _ hstatements]

theorem Statement.erase_eq_of_toJson :
    ∀ s t : Statement, s.toJson false = t.toJson false → s.erase = t.erase
  | .expression e, .expression f, h => by
    rw [Statement.toJson, Statement.toJson] at h
    rw [Statement.erase, Statement.erase, Expr.erase_eq_of_toJson e f h]
  | .magic _ payload, .magic _ payload', h => by
    have hpayload : payload = payload' := by simpa [Statement.toJson, Json.node_eq_node] using h
    rw [Statement.erase, Statement.erase, hpayload]
  | .expression e, .magic _ payload, h => absurd h (e.toJson_ne_magic payload)
  | .magic _ payload, .expression e, h => absurd h.symm (e.toJson_ne_magic payload)

theorem Statement.eraseList_eq_of_toJson : ∀ ss ts : List Statement,
    Statement.listToJson false ss = Statement.listToJson false ts →
      Statement.eraseList ss = Statement.eraseList ts
  | [], [], _ => rfl
  | [], _ :: _, h | _ :: _, [], h => by simp [Statement.listToJson] at h
  | s :: ss, t :: ts, h => by
    rw [Statement.listToJson, Statement.listToJson] at h
    obtain ⟨hhead, htail⟩ := List.cons.inj h
    rw [Statement.eraseList, Statement.eraseList, Statement.erase_eq_of_toJson s t hhead,
      Statement.eraseList_eq_of_toJson ss ts htail]

end

/-- The shape of a program tells which program it is, but for the places of its nodes. -/
theorem Program.shape_eq_iff (p q : Program) : p.shape = q.shape ↔ p.erase = q.erase := by
  refine ⟨fun h => ?_, shape_eq_of_erase_eq⟩
  obtain ⟨hshebang, hstatements⟩ : Json.ofOption (p.shebang.map .string) =
      Json.ofOption (q.shebang.map .string) ∧
      Statement.listToJson false p.statements = Statement.listToJson false q.statements := by
    simpa [shape, toJson, Json.node_eq_node] using h
  rw [erase, erase, Json.eq_of_ofOption_eq hshebang, ← Statement.eraseList_eq,
    ← Statement.eraseList_eq, Statement.eraseList_eq_of_toJson _ _ hstatements]

end WqSource
