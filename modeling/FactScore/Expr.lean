import FactScore.Path
import FactScore.Taxonomy
import FactScore.Value

/-!
# Expressions

A small pure language over the facts of a context: literals, references to facts, and operators
applied to arguments.
-/

namespace FactScore

/-- The operators. -/
inductive Op where
  | and
  | or
  | not
  | eq
  | ne
  | gt
  | gte
  | lt
  | lte
  | isIn
  | add
  | sub
  | mul
  | div
  | min
  | max
  | ifElse
  deriving DecidableEq, Repr

instance : Taxonomy Op where
  members :=
    [.and, .or, .not, .eq, .ne, .gt, .gte, .lt, .lte, .isIn, .add, .sub, .mul, .div, .min, .max,
      .ifElse]
  name
    | .and => "and"
    | .or => "or"
    | .not => "not"
    | .eq => "eq"
    | .ne => "ne"
    | .gt => "gt"
    | .gte => "gte"
    | .lt => "lt"
    | .lte => "lte"
    | .isIn => "in"
    | .add => "add"
    | .sub => "sub"
    | .mul => "mul"
    | .div => "div"
    | .min => "min"
    | .max => "max"
    | .ifElse => "if"

/-- The written name of an operator. -/
def Op.name (op : Op) : String := Taxonomy.name op

/-- An expression. -/
inductive Expr where
  | lit (value : Value)
  | var (path : FactPath)
  | apply (op : Op) (args : List Expr)

namespace Expr

instance : Inhabited Expr := ⟨.lit .missing⟩

/-- A literal truth value. -/
def bool (b : Bool) : Expr := .lit (.bool b)

/-- A literal number. -/
def number (x : Float) : Expr := .lit (.number x)

/-- A literal text. -/
def text (s : String) : Expr := .lit (.text s)

/-- A reference to the fact at a path given as text. -/
def fact (path : String) : Expr := .var ⟨path⟩

def eq (left right : Expr) : Expr := .apply .eq [left, right]

def gt (left right : Expr) : Expr := .apply .gt [left, right]

def gte (left right : Expr) : Expr := .apply .gte [left, right]

def mul (args : List Expr) : Expr := .apply .mul args

/-- Whether the first expression is among the candidates. -/
def isIn (needle : Expr) (candidates : List Expr) : Expr := .apply .isIn (needle :: candidates)

/-- The arguments of a conjunction, or the expression itself. -/
def conjuncts : Expr → List Expr
  | .apply .and args => args
  | clause => [clause]

/-- The conjunction of some clauses with no structure that changes nothing: the arguments of
    conjunctions stand in their place, a single clause stands for itself, and where there is none
    the conjunction is the literal truth. -/
def all (clauses : List Expr) : Expr :=
  match clauses.flatMap conjuncts with
  | [] => bool true
  | [clause] => clause
  | flat => .apply .and flat

mutual

/-- The paths of the facts that an expression refers to, in the order in which they occur. -/
def references : Expr → List FactPath
  | .lit _ => []
  | .var path => [path]
  | .apply _ args => referencesOf args

/-- The paths that some expressions refer to. -/
def referencesOf : List Expr → List FactPath
  | [] => []
  | arg :: rest => references arg ++ referencesOf rest

end

/-- Every path that an expression refers to, once and in order. -/
def paths (e : Expr) : List String :=
  sortDistinct (e.references.map FactPath.text)

mutual

/-- An expression as people read it: `mul(-2.5, a.b)`. -/
def display : Expr → String
  | .lit (.text s) => Text.quoted s
  | .lit value => value.display
  | .var path => path.text
  | .apply op args => op.name ++ "(" ++ ", ".intercalate (displayAll args) ++ ")"

/-- The displays of some expressions. -/
def displayAll : List Expr → List String
  | [] => []
  | arg :: rest => display arg :: displayAll rest

end

end Expr

end FactScore
