import VectorQuery.Label.Filter

/-!
# Vector matching and grouping modifiers

Modifiers say how the samples of two vectors are paired in a binary operation,
and how the samples of one are grouped in an aggregation.  They come one at a
time, each changing what those before it have set up; `Modifiers.keywords` says
which kinds are left in effect at the end.
-/

namespace VectorQuery

/-- How many samples of the one operand may match a sample of the other. -/
inductive Cardinality where
  | oneToOne
  | manyToOne
  | oneToMany
deriving DecidableEq, Repr

/-- How two vectors pair their samples: by which labels, and which further
labels the side of which there are many takes over from the other. -/
structure Matching where
  cardinality : Cardinality := .oneToOne
  labels : List String := []
  on : Bool := false
  included : List String := []
deriving DecidableEq, Repr

def Matching.filter (m : Matching) : LabelFilter := ⟨m.labels, m.on⟩

/-- How an aggregation groups samples: by the listed labels, or by all labels
without the listed ones. -/
structure Grouping where
  labels : List String := []
  without : Bool := false
deriving DecidableEq, Repr

namespace Grouping

/-- Whether there is nothing to group by, so that all samples are reduced to a
scalar. -/
def isUngrouped (g : Grouping) : Bool := g.labels.isEmpty && !g.without

def filter (g : Grouping) : LabelFilter := ⟨g.labels, !g.without⟩

end Grouping

/-- How two vectors are joined.  With `returnBool`, a matched pair yields 1 or
0 instead of being kept or dropped. -/
structure JoinSpec where
  matching : Matching := {}
  returnBool : Bool := false
deriving DecidableEq, Repr

/-- The keywords that modify an operand. -/
inductive Keyword where
  | on
  | ignoring
  | byLabels
  | withoutLabels
  | groupLeft
  | groupRight
  | returnBool
deriving DecidableEq, Repr

/-- How a keyword is written. -/
def Keyword.text : Keyword → String
  | .on => "on"
  | .ignoring => "ignoring"
  | .byLabels => "by"
  | .withoutLabels => "without"
  | .groupLeft => "group_left"
  | .groupRight => "group_right"
  | .returnBool => "bool"

/-- A modifier: a keyword, with a list of label names behind all but one. -/
inductive Modifier where
  | on (labels : List String)
  | ignoring (labels : List String)
  | byLabels (labels : List String)
  | withoutLabels (labels : List String)
  | groupLeft (labels : List String)
  | groupRight (labels : List String)
  | returnBool
deriving DecidableEq, Repr

def Modifier.keyword : Modifier → Keyword
  | .on _ => .on
  | .ignoring _ => .ignoring
  | .byLabels _ => .byLabels
  | .withoutLabels _ => .withoutLabels
  | .groupLeft _ => .groupLeft
  | .groupRight _ => .groupRight
  | .returnBool => .returnBool

/-- What the modifiers of an operand have set up. -/
structure Modifiers where
  matching : Matching := {}
  grouping : Grouping := {}
  returnBool : Bool := false
deriving DecidableEq, Repr

namespace Modifiers

/-- What is set up after one more modifier.  Each replaces what an earlier one
of its family has set: the labels to match by, the cardinality, the grouping. -/
def apply (m : Modifiers) : Modifier → Modifiers
  | .on labels => { m with matching := { m.matching with labels, on := true } }
  | .ignoring labels => { m with matching := { m.matching with labels, on := false } }
  | .byLabels labels => { m with grouping := ⟨labels, false⟩ }
  | .withoutLabels labels => { m with grouping := ⟨labels, true⟩ }
  | .groupLeft included =>
      { m with matching := { m.matching with included, cardinality := .manyToOne } }
  | .groupRight included =>
      { m with matching := { m.matching with included, cardinality := .oneToMany } }
  | .returnBool => { m with returnBool := true }

/-- What a chain of modifiers sets up, the first one applied first. -/
def ofChain (chain : List Modifier) : Modifiers :=
  chain.foldl apply {}

/-- The keyword of the matching modifiers in effect, if they change anything. -/
def matchingKeyword? (m : Modifiers) : Option Keyword :=
  match m.matching.cardinality with
  | .manyToOne => some .groupLeft
  | .oneToMany => some .groupRight
  | .oneToOne =>
      if m.matching.on then some .on
      else if m.matching.labels.isEmpty then none
      else some .ignoring

/-- The keyword of the grouping modifier in effect, if it changes anything. -/
def groupingKeyword? (m : Modifiers) : Option Keyword :=
  if m.grouping.without then some .withoutLabels
  else if m.grouping.labels.isEmpty then none
  else some .byLabels

/-- The keywords of the modifiers in effect: matching, grouping, then `bool`. -/
def keywords (m : Modifiers) : List Keyword :=
  m.matchingKeyword?.toList ++ m.groupingKeyword?.toList ++
    (if m.returnBool then [.returnBool] else [])

/-- How the modifiers have two vectors joined. -/
def joinSpec (m : Modifiers) : JoinSpec := ⟨m.matching, m.returnBool⟩

end Modifiers

end VectorQuery
