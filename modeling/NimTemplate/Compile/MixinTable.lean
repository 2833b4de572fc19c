import NimTemplate.Nim.Draft

/-! What is known of mixins: where each is defined, and whether it is called. A call whose
name is computed may reach every definition. -/

namespace NimTemplate.Compile

structure MixinEntry where
  used : Bool
  definitions : List Nim.Span
deriving DecidableEq, Repr

/-- Entries in the order in which their names were first seen. -/
structure MixinTable where
  entries : List (String × MixinEntry)
  computedCall : Bool
deriving DecidableEq, Repr

namespace MixinTable

def empty : MixinTable := ⟨[], false⟩

def find? (table : MixinTable) (name : String) : Option MixinEntry := table.entries.lookup name

/-- Changes the entry of a name, which starts without calls and definitions. -/
def update (change : MixinEntry → MixinEntry) (name : String) :
    List (String × MixinEntry) → List (String × MixinEntry)
  | [] => [(name, change ⟨false, []⟩)]
  | (other, entry) :: rest =>
    if other = name then (other, change entry) :: rest else (other, entry) :: update change name rest

def markUsed (table : MixinTable) (name : String) : MixinTable :=
  { table with entries := update (fun entry => { entry with used := true }) name table.entries }

def addDefinition (table : MixinTable) (name : String) (span : Nim.Span) : MixinTable :=
  { table with
    entries := update (fun entry => { entry with definitions := entry.definitions ++ [span] }) name table.entries }

def markComputed (table : MixinTable) : MixinTable := { table with computedCall := true }

/-- The definitions that no call can reach. -/
def unused (table : MixinTable) : List Nim.Span :=
  if table.computedCall then []
  else (table.entries.filter (!·.2.used)).flatMap (·.2.definitions)

end MixinTable

end NimTemplate.Compile
