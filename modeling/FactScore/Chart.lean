import FactScore.Taxonomy

/-!
# The terms of a chart

The taxonomies that rules range over: elements, ten gods, roles, patterns and grades, and how
elements and ten gods relate.
-/

namespace FactScore

/-- The five elements. -/
inductive Element where
  | wood
  | fire
  | earth
  | metal
  | water
  deriving DecidableEq, Repr

namespace Element

/-- The element that this one feeds. -/
def generates : Element → Element
  | wood => fire
  | fire => earth
  | earth => metal
  | metal => water
  | water => wood

/-- The element that this one holds down. -/
def controls : Element → Element
  | wood => earth
  | fire => metal
  | earth => water
  | metal => wood
  | water => fire

instance : Taxonomy Element where
  members := [wood, fire, earth, metal, water]
  name
    | wood => "wood"
    | fire => "fire"
    | earth => "earth"
    | metal => "metal"
    | water => "water"

end Element

/-- How an element stands to the day master. -/
inductive Relation where
  /-- The same element. -/
  | peer
  /-- The day master generates it. -/
  | output
  /-- The day master controls it. -/
  | wealth
  /-- It controls the day master. -/
  | officer
  /-- It generates the day master. -/
  | resource
  deriving DecidableEq, Repr

instance : Taxonomy Relation where
  members := [.peer, .output, .wealth, .officer, .resource]
  name
    | .peer => "peer"
    | .output => "output"
    | .wealth => "wealth"
    | .officer => "officer"
    | .resource => "resource"

/-- The ten gods. -/
inductive TenGod where
  | bigyeon
  | geopjae
  | siksin
  | sanggwan
  | pyeonjae
  | jeongjae
  | pyeongwan
  | jeonggwan
  | pyeonin
  | jeongin
  deriving DecidableEq, Repr

namespace TenGod

/-- The relation to the day master that a ten god expresses. -/
def relation : TenGod → Relation
  | bigyeon | geopjae => .peer
  | siksin | sanggwan => .output
  | pyeonjae | jeongjae => .wealth
  | pyeongwan | jeonggwan => .officer
  | pyeonin | jeongin => .resource

/-- The element that carries a ten god, given the element of the day master. -/
def elementFor (tenGod : TenGod) (dayMaster : Element) : Element :=
  match tenGod.relation with
  | .peer => dayMaster
  | .output => dayMaster.generates
  | .wealth => dayMaster.controls
  | .officer => dayMaster.generates.generates.generates
  | .resource => dayMaster.generates.generates.generates.generates

instance : Taxonomy TenGod where
  members :=
    [bigyeon, geopjae, siksin, sanggwan, pyeonjae, jeongjae, pyeongwan, jeonggwan, pyeonin,
      jeongin]
  name
    | bigyeon => "bigyeon"
    | geopjae => "geopjae"
    | siksin => "siksin"
    | sanggwan => "sanggwan"
    | pyeonjae => "pyeonjae"
    | jeongjae => "jeongjae"
    | pyeongwan => "pyeongwan"
    | jeonggwan => "jeonggwan"
    | pyeonin => "pyeonin"
    | jeongin => "jeongin"

end TenGod

/-- The roles that an element can play in a chart. -/
inductive Role where
  /-- The useful god. -/
  | yongsin
  /-- The favourable god. -/
  | huisin
  /-- The unfavourable god. -/
  | gisin
  /-- The enemy god. -/
  | gusin
  /-- The idle god. -/
  | hansin
  deriving DecidableEq, Repr

instance : Taxonomy Role where
  members := [.yongsin, .huisin, .gisin, .gusin, .hansin]
  name
    | .yongsin => "yongsin"
    | .huisin => "huisin"
    | .gisin => "gisin"
    | .gusin => "gusin"
    | .hansin => "hansin"

/-- The structure patterns of a chart: ten regular ones, then five special ones. -/
inductive Pattern where
  | jeonggwan
  | pyeongwan
  | jeongin
  | pyeonin
  | siksin
  | sanggwan
  | jeongjae
  | pyeonjae
  | geonrok
  | yangin
  | jongwang
  | jongsal
  | jongjae
  | jonga
  | hwagi
  deriving DecidableEq, Repr

namespace Pattern

/-- Whether a pattern is one of following or transformation. -/
def isSpecial : Pattern → Bool
  | jongwang | jongsal | jongjae | jonga | hwagi => true
  | _ => false

instance : Taxonomy Pattern where
  members :=
    [jeonggwan, pyeongwan, jeongin, pyeonin, siksin, sanggwan, jeongjae, pyeonjae, geonrok,
      yangin, jongwang, jongsal, jongjae, jonga, hwagi]
  name
    | jeonggwan => "jeonggwan"
    | pyeongwan => "pyeongwan"
    | jeongin => "jeongin"
    | pyeonin => "pyeonin"
    | siksin => "siksin"
    | sanggwan => "sanggwan"
    | jeongjae => "jeongjae"
    | pyeonjae => "pyeonjae"
    | geonrok => "geonrok"
    | yangin => "yangin"
    | jongwang => "jongwang"
    | jongsal => "jongsal"
    | jongjae => "jongjae"
    | jonga => "jonga"
    | hwagi => "hwagi"

end Pattern

/-- The grade of a pattern that was found, the best one first. -/
inductive Grade where
  | top
  | high
  | mid
  | low
  deriving DecidableEq, Repr

namespace Grade

/-- The place of a grade, counted from the best one. -/
def rank : Grade → Nat
  | top => 0
  | high => 1
  | mid => 2
  | low => 3

instance : LT Grade := ⟨fun a b => a.rank < b.rank⟩

instance (a b : Grade) : Decidable (a < b) := inferInstanceAs (Decidable (a.rank < b.rank))

instance : Taxonomy Grade where
  members := [top, high, mid, low]
  name
    | top => "top"
    | high => "high"
    | mid => "mid"
    | low => "low"

end Grade

/-- The taxonomies that generated rules can range over. -/
inductive Dimension where
  | element
  | tenGod
  | role
  | pattern
  | grade
  deriving DecidableEq, Repr

namespace Dimension

/-- The names of the members of a taxonomy, in order. -/
def keys : Dimension → List String
  | element => Taxonomy.names Element
  | tenGod => Taxonomy.names TenGod
  | role => Taxonomy.names Role
  | pattern => Taxonomy.names Pattern
  | grade => Taxonomy.names Grade

instance : Taxonomy Dimension where
  members := [element, tenGod, role, pattern, grade]
  name
    | element => "element"
    | tenGod => "ten_god"
    | role => "role"
    | pattern => "pattern"
    | grade => "grade"

end Dimension

end FactScore
