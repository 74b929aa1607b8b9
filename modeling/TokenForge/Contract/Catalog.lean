/-
Catalogs of declarations under logical names. Features look a function up by
its logical name, so two features that mean the same function get the same
declaration, and with it the same signature. Defining a name again replaces
its declaration and keeps its place.
-/
import TokenForge.Contract.Declaration
import TokenForge.Contract.Error

namespace TokenForge

/-- Declarations by logical name, in the order of their first definition. -/
structure Catalog where
  entries : List (String × Declaration)
  deriving DecidableEq, Repr

namespace Catalog

/-- A catalog without entries. -/
def empty : Catalog := ⟨[]⟩

/-- The logical names, in order. -/
def names (c : Catalog) : List String := c.entries.map (·.1)

/-- The entries after a name got a declaration. -/
def defineIn (name : String) (d : Declaration) :
    List (String × Declaration) → List (String × Declaration)
  | [] => [(name, d)]
  | (n, e) :: rest =>
      if n = name then (name, d) :: rest else (n, e) :: defineIn name d rest

/-- Gives a name a declaration. -/
def define (c : Catalog) (name : String) (d : Declaration) : Catalog :=
  ⟨defineIn name d c.entries⟩

/-- A catalog with the declarations of a list, one after the other. -/
def ofList (entries : List (String × Declaration)) : Catalog :=
  entries.foldl (fun c e => c.define e.1 e.2) empty

/-- The declaration under a name. -/
def get (c : Catalog) (name : String) : Except ContractError Declaration :=
  match c.entries.lookup name with
  | some d => .ok d
  | none => .error (.unknownFunction name)

/-- A name that was just defined is found. -/
theorem get_define_same (c : Catalog) (name : String) (d : Declaration) :
    (c.define name d).get name = .ok d := by
  have h (entries : List (String × Declaration)) :
      (defineIn name d entries).lookup name = some d := by
    induction entries with
    | nil => simp [defineIn]
    | cons e rest ih =>
      obtain ⟨n, e⟩ := e
      by_cases hn : n = name
      · simp [defineIn, hn]
      · have hb : (name == n) = false := beq_false_of_ne (Ne.symm hn)
        simp [defineIn, hn, List.lookup_cons, hb, ih]
  simp [get, define, h]

/-- The other names keep their declarations. -/
theorem get_define_other (c : Catalog) {name other : String} (d : Declaration)
    (hne : other ≠ name) : (c.define name d).get other = c.get other := by
  have hb : (other == name) = false := beq_false_of_ne hne
  have h (entries : List (String × Declaration)) :
      (defineIn name d entries).lookup other = entries.lookup other := by
    induction entries with
    | nil => simp [defineIn, List.lookup_cons, hb]
    | cons e rest ih =>
      obtain ⟨n, e⟩ := e
      by_cases hn : n = name
      · subst hn
        simp [defineIn, List.lookup_cons, hb]
      · simp [defineIn, hn, List.lookup_cons, ih]
  simp [get, define, h]

end Catalog

end TokenForge
