/-!
# JSON values and their texts

A small type of JSON values with two texts each: a compact one, and one with a line for
every element and two spaces for every level. The members of an object stand in the
order of their keys, and no two of them have the same one; `Json.ofFields` puts them in that
order, and keeps the last of the values that it is given for a key.

Numbers are integers, the only ones that are ever written here.
-/

namespace WqSource

/-- A JSON value. -/
inductive Json where
  | null
  | bool (value : Bool)
  | number (value : Int)
  | string (value : String)
  | array (items : List Json)
  | object (fields : List (String × Json))

namespace Json

instance : Inhabited Json := ⟨null⟩

/-- Adds a member in front of the first one with a greater key. The value of a member that
has the key already is replaced. -/
def insertField (key : String) (value : Json) : List (String × Json) → List (String × Json)
  | [] => [(key, value)]
  | (k, v) :: fields =>
    if key < k then (key, value) :: (k, v) :: fields
    else if key = k then (key, value) :: fields
    else (k, v) :: insertField key value fields

/-- An object with the given members, in the order of their keys. They are added one after
another, so that of members with the same key the last one is kept. -/
def ofFields (fields : List (String × Json)) : Json :=
  object (fields.foldl (fun sorted f => insertField f.1 f.2 sorted) [])

/-- A value or, in its absence, null. -/
def ofOption (value : Option Json) : Json := value.getD null

/-- A character as a JSON string writes it. -/
def stringChar (c : Char) : String :=
  if c = '"' then "\\\""
  else if c = '\\' then "\\\\"
  else if c = '\x08' then "\\b"
  else if c = '\x0c' then "\\f"
  else if c = '\n' then "\\n"
  else if c = '\r' then "\\r"
  else if c = '\t' then "\\t"
  else if c.toNat < 0x20 then
    "\\u00" ++ String.ofList [Nat.digitChar (c.toNat / 16), Nat.digitChar (c.toNat % 16)]
  else c.toString

/-- A string as JSON writes it. -/
def stringText (s : String) : String :=
  "\"" ++ String.join (s.toList.map stringChar) ++ "\""

/-- Texts with a separator between every two. -/
def separated (separator : String) (texts : List String) : String :=
  String.intercalate separator texts

/-- A member's value is smaller than the list of all members. -/
theorem sizeOf_field_lt {f : String × Json} {fields : List (String × Json)} (h : f ∈ fields) :
    sizeOf f.2 < sizeOf fields := by
  have := List.sizeOf_lt_of_mem h
  cases f
  simp only [Prod.mk.sizeOf_spec] at this ⊢
  omega

/-- The text of a value without any blanks. -/
def compact : Json → String
  | null => "null"
  | bool b => if b then "true" else "false"
  | number n => n.repr
  | string s => stringText s
  | array items => "[" ++ separated "," (items.map compact) ++ "]"
  | object fields =>
    "\x7b" ++ separated "," (fields.map fun f => stringText f.1 ++ ":" ++ compact f.2) ++ "\x7d"
termination_by value => sizeOf value
decreasing_by
  · rename_i h
    have := List.sizeOf_lt_of_mem h
    simp only [array.sizeOf_spec]
    omega
  · rename_i h
    have := sizeOf_field_lt h
    simp only [object.sizeOf_spec]
    omega

/-- The start of a line at a given level. -/
def lineBreak (level : Nat) : String := "\n" ++ String.ofList (List.replicate (2 * level) ' ')

/-- Texts of elements, each on a line of its own, between two brackets. -/
def enclosed (opening closing : String) (level : Nat) (texts : List String) : String :=
  if texts.isEmpty then opening ++ closing
  else
    opening ++ lineBreak (level + 1) ++ separated ("," ++ lineBreak (level + 1)) texts ++
      lineBreak level ++ closing

/-- The text of a value with every element on a line of its own, for a value that starts
at a given level. -/
def indented (level : Nat) : Json → String
  | null => "null"
  | bool b => if b then "true" else "false"
  | number n => n.repr
  | string s => stringText s
  | array items => enclosed "[" "]" level (items.map (indented (level + 1)))
  | object fields =>
    enclosed "\x7b" "\x7d" level
      (fields.map fun f => stringText f.1 ++ ": " ++ indented (level + 1) f.2)
termination_by value => sizeOf value
decreasing_by
  · rename_i h
    have := List.sizeOf_lt_of_mem h
    simp only [array.sizeOf_spec]
    omega
  · rename_i h
    have := sizeOf_field_lt h
    simp only [object.sizeOf_spec]
    omega

/-- The text of a value with every element on a line of its own. -/
def pretty (value : Json) : String := value.indented 0

end Json
end WqSource
