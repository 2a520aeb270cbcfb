import VectorQuery.Codec.Expr
import VectorQuery.Proofs.Json.Record

/-!
# Spellings of an expression

An expression can be written in JSON in many ways: the fields of each node in any order
and with others among them or as an array, the operators by each of their names and
these as strings or as objects.  All of them are read as the expression.  If a field of
some node is missing or repeated, however deep inside, the whole is refused.
-/

namespace VectorQuery

/-! ## Names of operators -/

/-- The names under which an operator is read, the one that is written first. -/
def ArithmeticOp.jsonNames : ArithmeticOp → List String
  | .modulo => ["modulo", "mod"]
  | .power => ["power", "pow"]
  | op => [op.jsonName]

/-- The names under which an operator is read, the one that is written first. -/
def ComparisonOp.jsonNames : ComparisonOp → List String
  | .smallerEq => ["smaller_eq", "smallerEq"]
  | .largerEq => ["larger_eq", "largerEq"]
  | op => [op.jsonName]

/-- The names under which an operator is read, the one that is written first. -/
def SetOp.jsonNames : SetOp → List String
  | .unless => ["unless", "not"]
  | op => [op.name]

/-- The names under which an operator is read. -/
def AggregationOp.jsonNames (op : AggregationOp) : List String := [op.name]

theorem ArithmeticOp.ofName?_of_mem_jsonNames (op : ArithmeticOp) :
    ∀ name ∈ op.jsonNames, ofName? name = some op := by
  cases op <;> decide

theorem ComparisonOp.ofName?_of_mem_jsonNames (op : ComparisonOp) :
    ∀ name ∈ op.jsonNames, ofName? name = some op := by
  cases op <;> decide

theorem SetOp.ofName?_of_mem_jsonNames (op : SetOp) :
    ∀ name ∈ op.jsonNames, ofName? name = some op := by
  cases op <;> decide

theorem AggregationOp.ofName?_of_mem_jsonNames (op : AggregationOp) :
    ∀ name ∈ op.jsonNames, ofName? name = some op := by
  cases op <;> decide

/-- One of some names, as a string or as the field of an object with no content. -/
inductive NameSpelling (names : List String) : Json → Prop where
  | string {name : String} (h : name ∈ names) : NameSpelling names (.string name)
  | object {name : String} (h : name ∈ names) : NameSpelling names (.object [(name, .null)])

theorem NameSpelling.exists_opName? {names : List String} {j : Json} (h : NameSpelling names j) :
    ∃ name ∈ names, Expr.opName? j = some name := by
  cases h with
  | @string name h => exact ⟨name, h, rfl⟩
  | @object name h => exact ⟨name, h, rfl⟩

theorem NameSpelling.isReadable {names : List String} {j : Json} (h : NameSpelling names j) :
    j.isReadable := by
  cases h <;> rfl

/-! ## Modifiers -/

/-- A modifier as it is written, or `bool` as the field of an object with no content. -/
inductive ModifierSpelling : Modifier → Json → Prop where
  | plain (m : Modifier) : ModifierSpelling m m.toJson
  | returnBool : ModifierSpelling .returnBool (.object [("bool", .null)])

theorem mapM_string?_map_string (ss : List String) :
    (ss.map Json.string).mapM Json.string? = some ss := by
  refine Json.mapM_map_eq_some ?_ ss
  exact fun _ ↦ rfl

theorem Modifier.toJson_of_labels?_eq_some {m : Modifier} {labels : List String}
    (h : m.labels? = some labels) :
    m.toJson = .object [(m.keyword.text, .array (labels.map .string))] := by
  rw [toJson, h]

theorem Modifier.ofLabels?_keyword {m : Modifier} {labels : List String}
    (h : m.labels? = some labels) : ofLabels? m.keyword.text labels = some m := by
  cases m <;> cases h <;> rfl

theorem Modifier.eq_returnBool_of_labels?_eq_none {m : Modifier} (h : m.labels? = none) :
    m = .returnBool := by
  cases m <;> first | rfl | cases h

theorem ModifierSpelling.ofJsonWith? {m : Modifier} {j : Json} (h : ModifierSpelling m j) :
    Modifier.ofJsonWith? Expr.opName? j = some m := by
  cases h with
  | returnBool => rfl
  | plain =>
      cases hlabels : m.labels? with
      | none =>
          rw [Modifier.eq_returnBool_of_labels?_eq_none hlabels]
          rfl
      | some labels =>
          rw [Modifier.toJson_of_labels?_eq_some hlabels, Modifier.ofJsonWith?,
            mapM_string?_map_string]
          exact Modifier.ofLabels?_keyword hlabels

theorem ModifierSpelling.isReadable {m : Modifier} {j : Json} (h : ModifierSpelling m j) :
    j.isReadable := by
  cases h with
  | returnBool => rfl
  | plain =>
      cases hlabels : m.labels? with
      | none =>
          rw [Modifier.eq_returnBool_of_labels?_eq_none hlabels]
          rfl
      | some labels =>
          have hitems : (Json.array (labels.map .string)).isReadable := by
            exact Json.isReadable_array.mpr (by simp [Json.isReadable])
          simpa [Modifier.toJson_of_labels?_eq_some hlabels, Json.isReadable_object] using hitems

namespace Expr

/-! ## Nodes -/

/-- The fields of a node. -/
def Kind.names (kind : Kind) : List String := "type" :: kind.fields

/-- The fields of a node with their values, in order. -/
def Kind.entries (kind : Kind) (parts : List Json) : List (String × Json) :=
  kind.names.zip (.string kind.name :: parts)

/-- The fields are those of the node, with others among them, in any order.  What the
others hold does not matter, as long as it is a value. -/
def FieldsOf (kind : Kind) (parts : List Json) (fields : List (String × Json)) : Prop :=
  ∃ others, fields.Perm (kind.entries parts ++ others) ∧
    ∀ field ∈ others, field.1 ∉ kind.names ∧ field.2.isReadable

/-- A node is set out as an object, or as the array of its type and parts.  The number is
that of damaged objects; an object is damaged if a field of the node has been taken out
or put in once more. -/
inductive Layout (kind : Kind) (parts : List Json) : Nat → Json → Prop where
  | object {fields : List (String × Json)} (h : FieldsOf kind parts fields) :
      Layout kind parts 0 (.object fields)
  | array : Layout kind parts 0 (.array (.string kind.name :: parts))
  | damaged {fields fields' : List (String × Json)} (h : FieldsOf kind parts fields)
      (hdamage : Json.Damage kind.names fields fields') :
      Layout kind parts 1 (.object fields')

/-- The ways to write an expression, with the number of objects in it that are damaged. -/
inductive Spelling : Nat → Expr → Json → Prop where
  | number {value : Float} {n : Nat} {j : Json}
      (hlayout : Layout .number [.ofFloat value] n j) : Spelling n (.number value) j
  | var {name : String} {n : Nat} {j : Json}
      (hlayout : Layout .var [.string name] n j) : Spelling n (.var name) j
  | arithmetic {op : ArithmeticOp} {lhs rhs : Expr} {opJson l r j : Json} {a b n : Nat}
      (hop : NameSpelling op.jsonNames opJson) (hlhs : Spelling a lhs l)
      (hrhs : Spelling b rhs r) (hlayout : Layout .arithmetic [opJson, l, r] n j) :
      Spelling (a + b + n) (.arithmetic op lhs rhs) j
  | comparison {op : ComparisonOp} {lhs rhs : Expr} {opJson l r j : Json} {a b n : Nat}
      (hop : NameSpelling op.jsonNames opJson) (hlhs : Spelling a lhs l)
      (hrhs : Spelling b rhs r) (hlayout : Layout .comparison [opJson, l, r] n j) :
      Spelling (a + b + n) (.comparison op lhs rhs) j
  | set {op : SetOp} {lhs rhs : Expr} {opJson l r j : Json} {a b n : Nat}
      (hop : NameSpelling op.jsonNames opJson) (hlhs : Spelling a lhs l)
      (hrhs : Spelling b rhs r) (hlayout : Layout .set [opJson, l, r] n j) :
      Spelling (a + b + n) (.set op lhs rhs) j
  | aggregation {op : AggregationOp} {arg : Expr} {opJson argJson j : Json} {a n : Nat}
      (hop : NameSpelling op.jsonNames opJson) (harg : Spelling a arg argJson)
      (hlayout : Layout .aggregation [opJson, argJson] n j) :
      Spelling (a + n) (.aggregation op arg) j
  | absent {arg : Expr} {argJson j : Json} {a n : Nat} (harg : Spelling a arg argJson)
      (hlayout : Layout .absent [argJson] n j) : Spelling (a + n) (.absent arg) j
  | modifier {m : Modifier} {arg : Expr} {modifierJson argJson j : Json} {a n : Nat}
      (hm : ModifierSpelling m modifierJson) (harg : Spelling a arg argJson)
      (hlayout : Layout .modifier [modifierJson, argJson] n j) :
      Spelling (a + n) (.modifier m arg) j

/-- The number literals, from left to right. -/
def numbers : Expr → List Float
  | .number value => [value]
  | .var _ => []
  | .arithmetic _ lhs rhs => lhs.numbers ++ rhs.numbers
  | .comparison _ lhs rhs => lhs.numbers ++ rhs.numbers
  | .set _ lhs rhs => lhs.numbers ++ rhs.numbers
  | .aggregation _ arg => arg.numbers
  | .absent arg => arg.numbers
  | .modifier _ arg => arg.numbers

/-! ## Reading a node -/

theorem Kind.nodup_names (kind : Kind) : kind.names.Nodup := by
  cases kind <;> decide

theorem Kind.ofJson?_name (kind : Kind) : Kind.ofJson? (.string kind.name) = some kind := by
  cases kind <;> rfl

/-- A value with the expression that it is, if it is one. -/
def part (j : Json) : Part := ⟨j, ofNested? j⟩

@[simp] theorem json_part (j : Json) : (part j).json = j := rfl

@[simp] theorem expr?_part (j : Json) : (part j).expr? = ofNested? j := rfl

theorem partsOfFields_eq_map (fields : List (String × Json)) :
    partsOfFields fields = fields.map fun field ↦ (field.1, part field.2) := by
  induction fields with
  | nil => rfl
  | cons field fields ih =>
      rw [partsOfFields, ih]
      rfl

theorem partsOfItems_eq_map (items : List Json) : partsOfItems items = items.map part := by
  induction items with
  | nil => rfl
  | cons item items ih =>
      rw [partsOfItems, ih]
      rfl

/-- What an object is read as, by its own fields. -/
theorem ofNested?_object (fields : List (String × Json)) :
    ofNested? (.object fields) = (do
      let kind ← Kind.ofJson? (← Json.field? fields "type")
      ofParts? kind ((← kind.fields.mapM (Json.field? fields)).map part)) := by
  rw [ofNested?, partsOfFields_eq_map, ofFields?, Json.field?_map]
  cases Json.field? fields "type" with
  | none => rfl
  | some type =>
      simp only [Option.map_some, Option.bind_eq_bind, Option.bind_some, json_part,
        Json.mapM_field?_map]
      cases Kind.ofJson? type with
      | none => rfl
      | some kind =>
          rw [Option.bind_some, Option.bind_some]
          cases kind.fields.mapM (Json.field? fields) <;> rfl

variable {kind : Kind} {parts : List Json} {fields : List (String × Json)} {j : Json}

theorem Kind.map_fst_entries (hlength : parts.length = kind.fields.length) :
    (kind.entries parts).map (·.1) = kind.names := by
  rw [entries, List.map_fst_zip (by simp [names, hlength])]

theorem FieldsOf.json (h : FieldsOf kind parts fields)
    (hlength : parts.length = kind.fields.length) : Json.FieldsOf (kind.entries parts) fields := by
  obtain ⟨others, hperm, hothers⟩ := h
  refine ⟨others, hperm, ?_⟩
  rwa [Kind.map_fst_entries hlength]

/-- Each field of the node is found, wherever it stands. -/
theorem FieldsOf.field?_eq_some (h : FieldsOf kind parts fields)
    (hlength : parts.length = kind.fields.length) {entry : String × Json}
    (hentry : entry ∈ kind.entries parts) : Json.field? fields entry.1 = some entry.2 := by
  refine (h.json hlength).field?_eq_some ?_ hentry
  rw [Kind.map_fst_entries hlength]
  exact kind.nodup_names

theorem FieldsOf.field?_type (h : FieldsOf kind parts fields)
    (hlength : parts.length = kind.fields.length) :
    Json.field? fields "type" = some (.string kind.name) := by
  have hentry : ("type", .string kind.name) ∈ kind.entries parts := List.mem_cons_self
  exact h.field?_eq_some hlength hentry

theorem FieldsOf.mapM_field? (h : FieldsOf kind parts fields)
    (hlength : parts.length = kind.fields.length) :
    kind.fields.mapM (Json.field? fields) = some parts :=
  Json.mapM_field?_eq_some hlength.symm fun _ hentry ↦
    h.field?_eq_some hlength (List.mem_cons_of_mem _ hentry)

theorem FieldsOf.isSome_field? (h : FieldsOf kind parts fields)
    (hlength : parts.length = kind.fields.length) {name : String} (hname : name ∈ kind.names) :
    (Json.field? fields name).isSome := by
  have hnames : name ∈ (kind.entries parts).map (·.1) := by
    rwa [Kind.map_fst_entries hlength]
  obtain ⟨entry, hentry, rfl⟩ := List.mem_map.mp hnames
  rw [h.field?_eq_some hlength hentry]
  rfl

/-- What a damaged object is read as: its type is not found, or one of its parts. -/
theorem FieldsOf.ofNested?_damaged (h : FieldsOf kind parts fields)
    (hlength : parts.length = kind.fields.length) {fields' : List (String × Json)}
    (hdamage : Json.Damage kind.names fields fields') : ofNested? (.object fields') = none := by
  obtain ⟨name, hname, hnone, hothers⟩ :=
    hdamage.exists_field?_eq_none fun _ ↦ h.isSome_field? hlength
  rw [ofNested?_object]
  rcases List.mem_cons.mp hname with rfl | hpart
  · rw [hnone]
    rfl
  · have htype : "type" ≠ name := by
      rintro rfl
      exact (List.nodup_cons.mp kind.nodup_names).1 hpart
    rw [hothers "type" htype, h.field?_type hlength]
    simp only [Option.bind_eq_bind, Option.bind_some, kind.ofJson?_name,
      Json.mapM_field?_eq_none hpart hnone, Option.bind_none]

/-- A node is read as what its parts make up, and refused if it is damaged. -/
theorem Layout.ofNested?_eq {n : Nat} (h : Layout kind parts n j)
    (hlength : parts.length = kind.fields.length) :
    ofNested? j = if n = 0 then ofParts? kind (parts.map part) else none := by
  cases h with
  | array =>
      rw [ofNested?, partsOfItems_eq_map, List.map_cons, ofItems?, json_part, kind.ofJson?_name]
      rfl
  | object h =>
      rw [ofNested?_object, h.field?_type hlength]
      simp only [Option.bind_eq_bind, Option.bind_some, kind.ofJson?_name,
        h.mapM_field? hlength, if_pos]
  | damaged h hdamage => exact h.ofNested?_damaged hlength hdamage

theorem Layout.isReadable (h : Layout kind parts 0 j)
    (hlength : parts.length = kind.fields.length)
    (hparts : ∀ p ∈ parts, p.isReadable) : j.isReadable := by
  have hall : ∀ p ∈ Json.string kind.name :: parts, p.isReadable := by
    simpa [Json.isReadable] using hparts
  cases h with
  | array => exact Json.isReadable_array.mpr hall
  | object h => exact (h.json hlength).isReadable fun _ hentry ↦ hall _ (List.of_mem_zip hentry).2

theorem Layout.namesKind (h : Layout kind parts 0 j)
    (hlength : parts.length = kind.fields.length) : namesKind j := by
  cases h with
  | array => rfl
  | object h =>
      rw [Expr.namesKind, h.field?_type hlength]
      rfl

/-! ## Reading a tree -/

/-- By induction on the spelling: it is read as the expression if nothing in it is
damaged, and refused otherwise. -/
theorem Spelling.ofNested?_eq {n : Nat} {e : Expr} (h : Spelling n e j)
    (hnumbers : ∀ x ∈ e.numbers, x.isFinite) :
    ofNested? j = if n = 0 then some e else none := by
  induction h with
  | @number value n j hlayout =>
      have hvalue : Json.ofFloat value = .number value :=
        if_pos (hnumbers value (List.mem_singleton_self value))
      rw [hlayout.ofNested?_eq rfl, hvalue]
      rfl
  | var hlayout =>
      rw [hlayout.ofNested?_eq rfl]
      rfl
  | @arithmetic op _ _ _ _ _ _ a b n hop _ _ hlayout ihl ihr
  | @comparison op _ _ _ _ _ _ a b n hop _ _ hlayout ihl ihr
  | @set op _ _ _ _ _ _ a b n hop _ _ hlayout ihl ihr =>
      obtain ⟨hl, hr⟩ := List.forall_mem_append.mp hnumbers
      obtain ⟨name, hname, hop⟩ := hop.exists_opName?
      rw [hlayout.ofNested?_eq rfl]
      simp only [List.map_cons, List.map_nil, ofParts?, json_part, expr?_part, hop,
        Option.bind_eq_bind, Option.bind_some, op.ofName?_of_mem_jsonNames name hname, ihl hl,
        ihr hr]
      by_cases ha : a = 0 <;> by_cases hb : b = 0 <;> by_cases hn : n = 0 <;>
        simp [ha, hb, hn]
  | @aggregation op _ _ _ _ a n hop _ hlayout ih =>
      obtain ⟨name, hname, hop⟩ := hop.exists_opName?
      rw [hlayout.ofNested?_eq rfl]
      simp only [List.map_cons, List.map_nil, ofParts?, json_part, expr?_part, hop,
        Option.bind_eq_bind, Option.bind_some, op.ofName?_of_mem_jsonNames name hname,
        ih hnumbers]
      by_cases ha : a = 0 <;> by_cases hn : n = 0 <;> simp [ha, hn]
  | @absent _ _ _ a n _ hlayout ih =>
      rw [hlayout.ofNested?_eq rfl]
      simp only [List.map_cons, List.map_nil, ofParts?, expr?_part, ih hnumbers]
      by_cases ha : a = 0 <;> by_cases hn : n = 0 <;> simp [ha, hn]
  | @modifier m _ _ _ _ a n hm _ hlayout ih =>
      rw [hlayout.ofNested?_eq rfl]
      simp only [List.map_cons, List.map_nil, ofParts?, json_part, expr?_part, hm.ofJsonWith?,
        ih hnumbers]
      by_cases ha : a = 0 <;> by_cases hn : n = 0 <;> simp [ha, hn]

/-- What is not damaged can be read throughout. -/
theorem Spelling.isReadable {n : Nat} {e : Expr} (h : Spelling n e j) (hn : n = 0) :
    j.isReadable := by
  induction h with
  | @number value _ _ hlayout =>
      subst hn
      exact hlayout.isReadable rfl (by simpa using Json.isReadable_ofFloat value)
  | var hlayout =>
      subst hn
      exact hlayout.isReadable rfl (by simp [Json.isReadable])
  | @arithmetic _ _ _ _ _ _ _ _ _ n hop _ _ hlayout ihl ihr
  | @comparison _ _ _ _ _ _ _ _ _ n hop _ _ hlayout ihl ihr
  | @set _ _ _ _ _ _ _ _ _ n hop _ _ hlayout ihl ihr =>
      obtain rfl : n = 0 := by omega
      exact hlayout.isReadable rfl
        (by simp [hop.isReadable, ihl (by omega), ihr (by omega)])
  | @aggregation _ _ _ _ _ _ n hop _ hlayout ih =>
      obtain rfl : n = 0 := by omega
      exact hlayout.isReadable rfl (by simp [hop.isReadable, ih (by omega)])
  | @absent _ _ _ _ n _ hlayout ih =>
      obtain rfl : n = 0 := by omega
      exact hlayout.isReadable rfl (by simp [ih (by omega)])
  | @modifier _ _ _ _ _ _ n hm _ hlayout ih =>
      obtain rfl : n = 0 := by omega
      exact hlayout.isReadable rfl (by simp [hm.isReadable, ih (by omega)])

/-- The outermost node of what is not damaged has the name of its kind. -/
theorem Spelling.namesKind {n : Nat} {e : Expr} (h : Spelling n e j) (hn : n = 0) :
    namesKind j := by
  cases h with
  | number hlayout | var hlayout =>
      subst hn
      exact hlayout.namesKind rfl
  | @arithmetic _ _ _ _ _ _ _ _ _ n _ _ _ hlayout
  | @comparison _ _ _ _ _ _ _ _ _ n _ _ _ hlayout
  | @set _ _ _ _ _ _ _ _ _ n _ _ _ hlayout
  | @aggregation _ _ _ _ _ _ n _ _ hlayout
  | @absent _ _ _ _ n _ hlayout
  | @modifier _ _ _ _ _ _ n _ _ hlayout =>
      obtain rfl : n = 0 := by omega
      exact hlayout.namesKind rfl

/-! ## Spellings -/

theorem layout_entries (kind : Kind) (parts : List Json) :
    Layout kind parts 0 (.object (kind.entries parts)) :=
  .object ⟨[], by simp, nofun⟩

/-- The form that is written is one of the spellings. -/
theorem spelling_toJson (e : Expr) : Spelling 0 e e.toJson := by
  induction e with
  | number value => exact .number (layout_entries .number [.ofFloat value])
  | var name => exact .var (layout_entries .var [.string name])
  | arithmetic op lhs rhs ihl ihr =>
      refine .arithmetic (.string ?_) ihl ihr (layout_entries .arithmetic _)
      cases op <;> decide
  | comparison op lhs rhs ihl ihr =>
      refine .comparison (.string ?_) ihl ihr (layout_entries .comparison _)
      cases op <;> decide
  | set op lhs rhs ihl ihr =>
      refine .set (.string ?_) ihl ihr (layout_entries .set _)
      cases op <;> decide
  | aggregation op arg ih =>
      exact .aggregation (.string (List.mem_singleton_self _)) ih (layout_entries .aggregation _)
  | absent arg ih => exact .absent ih (layout_entries .absent _)
  | modifier m arg ih => exact .modifier (.plain m) ih (layout_entries .modifier _)

/-- Each spelling of an expression, the form that is written among them, is read as the
expression.  If an object in it is damaged, the whole is refused. -/
theorem ofJson?_spelling {e : Expr} (hnumbers : ∀ x ∈ e.numbers, x.isFinite) :
    Spelling 0 e e.toJson ∧ (∀ j, Spelling 0 e j → ofJson? j = some e) ∧
      ∀ n j, Spelling (n + 1) e j → ofJson? j = none := by
  refine ⟨spelling_toJson e, fun j h ↦ ?_, fun n j h ↦ ?_⟩
  · rw [ofJson?, h.namesKind rfl, h.isReadable rfl, h.ofNested?_eq hnumbers]
    rfl
  · rw [ofJson?, h.ofNested?_eq hnumbers]
    split <;> rfl

/-- The hosts with what is left of their numbers after division by two. -/
def hostsModuloTwo : Expr := .arithmetic .modulo (.var "hosts") (.number 2)

/-- A way to write `hostsModuloTwo`, with some fields for the variable. -/
def hostsModuloTwoJson (fields : List (String × Json)) : Json :=
  .array [.string "arithmetic", .object [("mod", .null)], .object fields, (number 2).toJson]

/-- The fields of the variable in another order, with a note. -/
def notedFields : List (String × Json) :=
  [("name", .string "hosts"), ("note", .null), ("type", .string "variable")]

/-- The same fields with a second name. -/
def renamedFields : List (String × Json) :=
  [("name", .string "hosts"), ("note", .null), ("name", .string "racks"),
    ("type", .string "variable")]

/-- The variable may have a note, but not a second name. -/
theorem ofJson?_hostsModuloTwoJson :
    (∀ x ∈ hostsModuloTwo.numbers, x.isFinite) ∧
    ofJson? (hostsModuloTwoJson notedFields) = some hostsModuloTwo ∧
    ofJson? (hostsModuloTwoJson renamedFields) = none := by
  have hnumbers : ∀ x ∈ hostsModuloTwo.numbers, x.isFinite := by decide +kernel
  have hfields : FieldsOf .var [.string "hosts"] notedFields := by
    refine ⟨[("note", .null)], @List.perm_append_comm _ [_, _] [_], ?_⟩
    intro field hfield
    obtain rfl := List.mem_singleton.mp hfield
    exact ⟨by decide, rfl⟩
  have hname : "name" ∈ Kind.var.names := by decide
  have hdamage : Json.Damage Kind.var.names notedFields renamedFields :=
    Json.Damage.repeated hname (Json.string "racks") (notedFields.take 2) (notedFields.drop 2)
  have hop : NameSpelling ArithmeticOp.modulo.jsonNames (.object [("mod", .null)]) :=
    .object (by decide)
  have hnumber : Spelling 0 (number 2) (number 2).toJson := spelling_toJson _
  obtain ⟨-, hread, hrefused⟩ := ofJson?_spelling hnumbers
  exact ⟨hnumbers, hread _ (.arithmetic hop (.var (.object hfields)) hnumber .array),
    hrefused 0 _ (.arithmetic hop (.var (.damaged hfields hdamage)) hnumber .array)⟩

end Expr

end VectorQuery
