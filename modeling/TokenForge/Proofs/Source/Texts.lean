/-
The texts of a contract and the lines they fill. A contract is written with
texts of its author: names, paths, types, lines of code. If each of them
fills a line, then so does everything of one line that the printer puts
together from them: the renaming adds letters only, strings are written as
literals that stand on one line whatever is in them, and a path that fills a
line does so under a release.
-/
import TokenForge.Proofs.Fragment.Spacing
import TokenForge.Proofs.Package.Rewriting
import TokenForge.Proofs.Solidity.Literal
import TokenForge.Source.Constructor

namespace TokenForge

-- ================================================================= the texts

/-- The texts in an argument of a base, but for strings: these are printed as
literals, whatever is in them. -/
def Value.texts : Value → List String
  | .text _ => []
  | .integer _ => []
  | .verbatim expr => [expr]

def Base.texts (b : Base) : List String :=
  b.name :: b.dependency.path :: b.args.flatMap Value.texts

def Argument.texts (a : Argument) : List String := [a.name, a.type]

def Declaration.texts (d : Declaration) : List String :=
  d.name :: d.args.flatMap Argument.texts ++ d.returns ++ d.doc?.toList

def Method.texts (m : Method) : List String :=
  m.decl.texts ++ m.ancestors ++ m.modifiers ++ m.code

def Attachment.texts (a : Attachment) : List String :=
  [a.library.name, a.library.path, a.type]

/-- All texts of a contract. -/
def Contract.texts (c : Contract) : List String :=
  c.name :: c.license :: c.bases.flatMap Base.texts
    ++ c.methods.flatMap Method.texts
    ++ c.stateVariables ++ c.attachments.flatMap Attachment.texts
    ++ c.constructorArgs.flatMap Argument.texts ++ c.constructorCode

/-- Texts each of which fills a line. -/
def FillLines (texts : List String) : Prop := ∀ s ∈ texts, FillsLine s

instance (texts : List String) : Decidable (FillLines texts) :=
  inferInstanceAs (Decidable (∀ s ∈ texts, _))

section FillLines

variable {s : String} {l m : List String}

@[simp]
theorem fillLines_nil : FillLines [] := fun _ hs => absurd hs List.not_mem_nil

@[simp]
theorem fillLines_cons : FillLines (s :: l) ↔ FillsLine s ∧ FillLines l :=
  List.forall_mem_cons

@[simp]
theorem fillLines_append : FillLines (l ++ m) ↔ FillLines l ∧ FillLines m :=
  List.forall_mem_append

@[simp]
theorem fillLines_flatMap {α : Type} {xs : List α} {f : α → List String} :
    FillLines (xs.flatMap f) ↔ ∀ x ∈ xs, FillLines (f x) :=
  List.forall_mem_flatMap

end FillLines

/-- The texts of a base are its name, its path and those of its arguments. -/
theorem Base.fillLines_iff {b : Base} : FillLines b.texts
    ↔ FillsLine b.name ∧ FillsLine b.dependency.path ∧ ∀ v ∈ b.args,
      FillLines v.texts := by
  simp [texts]

theorem Argument.fillLines_iff {a : Argument} :
    FillLines a.texts ↔ FillsLine a.name ∧ FillsLine a.type := by
  simp [texts]

/-- The texts of a declaration are its name, those of its arguments, its
results and its documentation. -/
theorem Declaration.fillLines_iff {d : Declaration} : FillLines d.texts
    ↔ FillsLine d.name ∧ (∀ a ∈ d.args, FillLines a.texts)
      ∧ FillLines d.returns
      ∧ FillLines d.doc?.toList := by
  simp [texts]

/-- The texts of a function are those of its declaration, its ancestors, its
modifiers and its code. -/
theorem Method.fillLines_iff {m : Method} : FillLines m.texts
    ↔ FillLines m.decl.texts ∧ FillLines m.ancestors ∧ FillLines m.modifiers
      ∧ FillLines m.code := by
  simp [texts]

theorem Attachment.fillLines_iff {a : Attachment} : FillLines a.texts
    ↔ FillsLine a.library.name ∧ FillsLine a.library.path
      ∧ FillsLine a.type := by
  simp [texts]

/-- The texts of a contract are those of its pieces. -/
theorem Contract.fillLines_iff {c : Contract} : FillLines c.texts
    ↔ FillsLine c.name ∧ FillsLine c.license
      ∧ (∀ b ∈ c.bases, FillLines b.texts)
      ∧ (∀ m ∈ c.methods, FillLines m.texts) ∧ FillLines c.stateVariables
      ∧ (∀ a ∈ c.attachments, FillLines a.texts)
      ∧ (∀ a ∈ c.constructorArgs, FillLines a.texts)
        ∧ FillLines c.constructorCode := by
  simp [texts]

-- =============================================================== single words

/-- A literal stands on one line, whatever text it is of. -/
theorem oneLine_literal (s : String) :
    OneLine (Solidity.Literal.ofString s) := by
  intro hmem
  rw [Solidity.Literal.toList_ofString] at hmem
  have hforbidden : Solidity.Literal.Forbidden '\n'.toNat := by
    unfold Solidity.Literal.Forbidden
    decide
  exact Solidity.Literal.not_forbidden_encode '\n' hmem hforbidden

theorem oneLine_repr (n : Nat) : OneLine n.repr := by
  intro hmem
  rw [Nat.repr, String.toList_ofList] at hmem
  exact absurd (Nat.isDigit_of_mem_toDigits (by decide) (by decide) hmem)
    (by decide)

theorem oneLine_integer (n : Int) : OneLine (toString n) := by
  cases n with
  | ofNat n => exact oneLine_repr n
  | negSucc n => exact OneLine.append (by decide) (oneLine_repr (n + 1))

/-- A value is printed on one line, also a string with line feeds. -/
theorem Value.oneLine_render {v : Value} (h : FillLines v.texts) :
    OneLine v.render := by
  cases v with
  | text s => exact oneLine_literal s
  | integer n => exact oneLine_integer n.toInt
  | verbatim expr => exact (fillLines_cons.1 h).1.oneLine

theorem Base.oneLine_argsText {b : Base} (h : FillLines b.texts) :
    OneLine b.argsText := by
  obtain ⟨-, -, hargs⟩ := fillLines_iff.1 h
  have hrendered : ∀ t ∈ b.args.map Value.render, OneLine t := by
    intro t ht
    obtain ⟨v, hv, rfl⟩ := List.mem_map.1 ht
    exact Value.oneLine_render (hargs v hv)
  exact (OneLine.append (by decide)
    (.intercalate (by decide) hrendered)).append (by decide)

theorem Argument.oneLine_text {a : Argument} (h : FillLines a.texts) :
    OneLine a.text := by
  obtain ⟨hname, htype⟩ := fillLines_iff.1 h
  exact (htype.oneLine.append (by decide)).append hname.oneLine

namespace Package

/-- The suffix adds no line feed. -/
theorem oneLine_upgradeableName {name : String} (h : OneLine name) :
    OneLine (upgradeableName name) :=
  fun hmem => (mem_upgradeableName hmem).elim h (by decide)

/-- A path that fills a line does so after it is renamed. -/
theorem fillsLine_upgradeablePath {path : String} (h : FillsLine path) :
    FillsLine (upgradeablePath path) where
  oneLine := by
    intro hmem
    rcases mem_upgradeablePath hmem with hmem | hmem
    · exact h.oneLine hmem
    · exact absurd hmem (by decide)
  visible := by
    by_cases hin : InContracts path
    · obtain ⟨rest, hrest⟩ := exists_upgradeablePath hin
      rw [hrest]
      exact Visible.append_left (by decide) rest
    · rw [upgradeablePath_of_not_inContracts hin]
      exact h.visible

/-- A release number stands on one line, and so does a path that it pins. -/
theorem fillsLine_pin (version : Version) {path : String}
    (h : FillsLine path) :
    FillsLine (pin version path) := by
  have hversion : OneLine version.text :=
    ((((oneLine_repr _).append (by decide)).append (oneLine_repr _)).append
      (by decide)).append
      (oneLine_repr _)
  have hpackages : ∀ package ∈ pinnable,
      FillsLine (package ++ "@") := by decide
  by_cases hpinnable : Pinnable path
  · obtain ⟨package, hpackage, rest, hrest, rfl⟩ := hpinnable
    rw [pin_inside version hpackage hrest]
    exact ((hpackages package hpackage).append hversion).append
      (oneLine_append.1 h.oneLine).2
  · rwa [pin_of_not_pinnable version hpinnable]

/-- A declaration keeps its letters. -/
theorem fillsLine_upgradeableVariable {line : String} (h : FillsLine line) :
    FillsLine (upgradeableVariable line) where
  oneLine := fun hmem =>
    (mem_upgradeableVariable hmem).elim h.oneLine (by decide)
  visible := by
    by_cases hrenamed : DeclaresRenamed line
    · obtain ⟨before, after, -, htext⟩ := suffixed_of_declaresRenamed hrenamed
      rw [htext]
      exact Visible.append_left (Visible.append_right (by decide) before) after
    · rw [upgradeableVariable_of_not_renamed hrenamed]
      exact h.visible

end Package

namespace Contract

variable {c : Contract}

/-- A name on one line is printed on one line. -/
theorem oneLine_shownName (c : Contract) {name : String} (h : OneLine name) :
    OneLine (c.shownName name) := by
  unfold shownName
  split
  · exact Package.oneLine_upgradeableName h
  · exact h

theorem fillsLine_shownPath (c : Contract) {path : String}
    (h : FillsLine path) :
    FillsLine (c.shownPath path) := by
  unfold shownPath
  split
  · exact Package.fillsLine_upgradeablePath h
  · exact h

/-- A variable that fills a line does so in every contract. -/
theorem fillsLine_shownVariable (c : Contract) {line : String}
    (h : FillsLine line) :
    FillsLine (c.shownVariable line) := by
  unfold shownVariable
  split
  · exact Package.fillsLine_upgradeableVariable h
  · exact h

/-- Some names of a contract, as it prints them. -/
theorem oneLine_shownNames (c : Contract) {names : List String}
    (h : FillLines names) :
    OneLine (", ".intercalate (names.map c.shownName)) := by
  refine .intercalate (by decide) fun s hs => ?_
  obtain ⟨name, hname, rfl⟩ := List.mem_map.1 hs
  exact c.oneLine_shownName (h name hname).oneLine

end Contract

end TokenForge
