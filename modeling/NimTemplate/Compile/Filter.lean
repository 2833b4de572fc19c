import NimTemplate.Value.Basic

/-! Filters turn the text of a block into other text before it is compiled. -/

namespace NimTemplate.Compile

/-- Options of a filter in the order of their names' first use. -/
abbrev FilterOptions := List (String × String)

inductive FilterError where
  | unknown (name : String)
  | failed (message : String)
deriving DecidableEq, Repr

def FilterError.message : FilterError → String
  | unknown name => "unknown filter \":" ++ name ++ "\""
  | failed message => message

/-- Where a compilation finds its filters. -/
structure FilterRegistry where
  apply : (name text : String) → FilterOptions → Except FilterError String
  contains : String → Bool

def FilterRegistry.none : FilterRegistry where
  apply name _ _ := .error (.unknown name)
  contains _ := false

/-- A collection of filters by name. -/
structure FilterSet where
  filters : List (String × (String → FilterOptions → Except FilterError String))

namespace FilterSet

def empty : FilterSet := ⟨[]⟩

/-- Adds a filter, in place of one that has the name. -/
def register (set : FilterSet) (name : String) (run : String → FilterOptions → Except FilterError String) :
    FilterSet :=
  ⟨insertField set.filters name run⟩

def size (set : FilterSet) : Nat := set.filters.length

def registry (set : FilterSet) : FilterRegistry where
  apply name text options :=
    match set.filters.lookup name with
    | some run => run text options
    | none => .error (.unknown name)
  contains name := (set.filters.lookup name).isSome

/-- The names in order, as a diagnostic shows them. -/
def describe (set : FilterSet) : String :=
  let names := (set.filters.map (·.1)).mergeSort fun a b => decide (a ≤ b)
  "FilterSet \x7b filters: [" ++ ", ".intercalate (names.map fun name => "\"" ++ name ++ "\"") ++ "] \x7d"

end FilterSet

end NimTemplate.Compile
