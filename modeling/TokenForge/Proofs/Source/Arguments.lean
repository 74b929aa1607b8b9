/-
The arguments of a base are read back from its call. They stand between
parentheses and are joined by `, `, and a text may hold both, so where an
argument ends is not seen by looking for them. It is found by reading: a
literal ends at its own closing quote (`readText_encode`), a number at the
first character that is no digit (`readInteger_render`), and neither needs to
know what comes after.

The reader below knows strings and 64-bit numbers, and takes up after `, `
what it left off at. The induction is on the arguments, with the turns of the
reader as a parameter; the text that follows is only asked not to go on with a
digit, and not with the separator. Being read back, the arguments are
determined by the call.
-/
import TokenForge.Proofs.Solidity.Literal
import TokenForge.Proofs.Text.Decimal
import TokenForge.Proofs.Text.Trim
import TokenForge.Source.Constructor

namespace TokenForge

open Text

namespace Value

-- ============================================================== the reader

/-- The string whose literal starts a text, and what follows the literal. -/
def readText (s : List Char) : Option (Value × List Char) := do
  let (bytes, rest) ← Solidity.Literal.read s
  (String.fromUTF8? ⟨bytes.toArray⟩).map fun v => (.text v, rest)

/-- The number that the digits at the start of a text write, if there are any,
and what follows them. -/
def readDigits (s : List Char) : Option (Nat × List Char) :=
  match s.span Char.isDigit with
  | ([], _) => none
  | (digits, rest) => some (Nat.ofDigitChars 10 digits 0, rest)

/-- An integer as an argument, if it is one of 64 bits. -/
def ofInt? (i : Int) : Option Value :=
  if Int64.minValue.toInt ≤ i ∧ i ≤ Int64.maxValue.toInt then
    some (.integer (Int64.ofInt i))
  else none

/-- The number that starts a text, and what follows it. -/
def readInteger : List Char → Option (Value × List Char)
  | '-' :: s => do
    let (n, rest) ← readDigits s
    (ofInt? (-n)).map (·, rest)
  | s => do
    let (n, rest) ← readDigits s
    (ofInt? n).map (·, rest)

/-- The argument that starts a text, and what follows it. -/
def readOne (s : List Char) : Option (Value × List Char) :=
  (readText s).or (readInteger s)

/-- The arguments at the start of a text, one at least, and what follows the
last of them. Each turn reads one. -/
def readFrom : Nat → List Char → Option (List Value × List Char)
  | 0, _ => none
  | turns + 1, s => do
    let (v, rest) ← readOne s
    match rest with
    | ',' :: ' ' :: s => do
      let (vs, rest) ← readFrom turns s
      some (v :: vs, rest)
    | _ => some ([v], rest)

/-- The arguments at the start of a text that a closing
parenthesis may follow. -/
def readAll (s : List Char) : Option (List Value × List Char) :=
  match s with
  | [] => some ([], [])
  | ')' :: rest => some ([], ')' :: rest)
  | _ => readFrom s.length s

-- ============================================================ one argument

/-- The value is a string or a number, and not written as it is. -/
def IsPlain : Value → Prop
  | .text _ => True
  | .integer _ => True
  | .verbatim _ => False

instance : DecidablePred IsPlain
  | .text _ => inferInstanceAs (Decidable True)
  | .integer _ => inferInstanceAs (Decidable True)
  | .verbatim _ => inferInstanceAs (Decidable False)

/-- An argument may end before a text. -/
def EndsBefore (rest : List Char) : Prop := ∀ c ∈ rest.head?, c.isDigit = false

variable {rest : List Char}

/-- The bytes of a string are the string's. -/
theorem fromUTF8?_toUTF8 (v : String) :
    String.fromUTF8? ⟨v.toUTF8.data.toList.toArray⟩ = some v := by
  rw [Array.toArray_toList, String.fromUTF8?, String.toUTF8_eq_toByteArray,
    dif_pos v.isValidUTF8]
  rfl

/-- A text is read back from its literal. -/
theorem readText_encode (v : String) (rest : List Char) :
    readText (Solidity.Literal.encode v.toList ++ rest)
      = some (.text v, rest) := by
  unfold readText
  rw [Solidity.Literal.read_encode_toUTF8]
  simp only [Option.bind_eq_bind, Option.bind_some, fromUTF8?_toUTF8,
    Option.map_some]

/-- A number is read back from its digits. -/
theorem readDigits_toDigits (n : Nat) (hrest : EndsBefore rest) :
    readDigits (Nat.toDigits 10 n ++ rest) = some (n, rest) := by
  obtain ⟨c, s, hdigits⟩ :=
    List.exists_cons_of_ne_nil (Nat.toDigits_ne_nil (b := 10) (n := n))
  have hvalue : Nat.ofDigitChars 10 (c :: s) 0 = n := by
    rw [← hdigits, Nat.ofDigitChars_ten_toDigits]
  unfold readDigits
  rw [span_append (allDigits_toDigits n) hrest, hdigits]
  exact congrArg (fun m => some (m, rest)) hvalue

/-- Every number that can be an argument is read back as one. -/
theorem ofInt?_toInt (n : Int64) : ofInt? n.toInt = some (.integer n) := by
  unfold ofInt?
  rw [if_pos ⟨n.minValue_le_toInt, n.toInt_le⟩, Int64.ofInt_toInt]

/-- A number is written with its digits, behind a minus
sign if it is negative. -/
theorem toList_toString_int (i : Int) : (toString i).toList =
    if 0 ≤ i then Nat.toDigits 10 i.toNat
    else '-' :: Nat.toDigits 10 (-i).toNat := by
  rw [Int.toString_eq_repr, Int.repr_eq_if]
  split
  · exact Nat.toList_repr
  · rw [String.toList_append, Nat.toList_repr]
    rfl

/-- Digits behind a minus sign are a negative number. -/
theorem readInteger_minus (n : Nat) (hrest : EndsBefore rest) :
    readInteger ('-' :: (Nat.toDigits 10 n ++ rest))
      = (ofInt? (-n)).map (·, rest) := by
  rw [readInteger, readDigits_toDigits n hrest]
  rfl

/-- Digits alone are a number. -/
theorem readInteger_toDigits (n : Nat) (hrest : EndsBefore rest) :
    readInteger (Nat.toDigits 10 n ++ rest) = (ofInt? n).map (·, rest) := by
  obtain ⟨c, s, hdigits⟩ :=
    List.exists_cons_of_ne_nil (Nat.toDigits_ne_nil (b := 10) (n := n))
  have hdigit : c.isDigit = true :=
    allDigits_toDigits n c (by rw [hdigits]; exact List.mem_cons_self ..)
  have hread := readDigits_toDigits n hrest
  rw [hdigits, List.cons_append] at hread ⊢
  rw [readInteger, hread]
  · simp only [Option.bind_eq_bind, Option.bind_some]
  · exact fun s heq => ne_of_isDigit hdigit (by decide) (List.cons.inj heq).1

/-- An integer of 64 bits is read to its last digit. -/
theorem readInteger_toString (n : Int64) (hrest : EndsBefore rest) :
    readInteger ((toString n.toInt).toList ++ rest)
      = some (.integer n, rest) := by
  have hread : ∀ i : Int, i = n.toInt →
      (ofInt? i).map (·, rest) = some (.integer n, rest) := by
    rintro i rfl
    rw [ofInt?_toInt]
    rfl
  rw [toList_toString_int]
  split
  case isTrue hn =>
      rw [readInteger_toDigits _ hrest]
      exact hread _ (Int.toNat_of_nonneg hn)
  case isFalse hn =>
      rw [List.cons_append, readInteger_minus _ hrest]
      exact hread _ (by omega)

-- =========================================================== the first letter

/-- A number starts with its sign or a digit. -/
theorem exists_cons_toString_int (i : Int) :
    ∃ c s, (toString i).toList = c :: s ∧ (c = '-' ∨ c.isDigit = true) := by
  rw [toList_toString_int]
  split
  · obtain ⟨c, s, hs⟩ :=
      List.exists_cons_of_ne_nil (Nat.toDigits_ne_nil (b := 10) (n := i.toNat))
    exact ⟨c, s, hs, .inr
      (allDigits_toDigits _ c (by rw [hs]; exact List.mem_cons_self ..))⟩
  · exact ⟨_, _, rfl, .inl rfl⟩

/-- No literal starts with a sign or a digit. -/
theorem readText_of_number {c : Char} (hc : c = '-' ∨ c.isDigit = true)
    (s : List Char) :
    readText (c :: s) = none := by
  have hquote : c ≠ '"' := by
    rintro rfl
    revert hc
    decide
  have hmark : c ≠ 'u' := by
    rintro rfl
    revert hc
    decide
  have hread : Solidity.Literal.read (c :: s) = none := by
    unfold Solidity.Literal.read
    split
    next heq => exact absurd (List.cons.inj heq).1 hquote
    next heq => exact absurd (List.cons.inj heq).1 hmark
    next => rfl
  unfold readText
  rw [hread]
  rfl

theorem toList_render_text (t : String) :
    (render (.text t)).toList = Solidity.Literal.encode t.toList :=
  Solidity.Literal.toList_ofString t

theorem toList_render_integer (n : Int64) :
    (render (.integer n)).toList = (toString n.toInt).toList := rfl

/-- An argument starts with a letter, and no closing parenthesis. -/
theorem exists_cons_render {v : Value} (hv : v.IsPlain) :
    ∃ c s, v.render.toList = c :: s ∧ c ≠ ')' := by
  cases v with
  | text t =>
      rw [toList_render_text, Solidity.Literal.encode, Solidity.Literal.marker]
      split
      · exact ⟨_, _, rfl, by decide⟩
      · exact ⟨_, _, rfl, by decide⟩
  | integer n =>
      obtain ⟨c, s, hs, hc⟩ := exists_cons_toString_int n.toInt
      refine ⟨c, s, (toList_render_integer n).trans hs, ?_⟩
      rintro rfl
      revert hc
      decide
  | verbatim expr => exact hv.elim

/-- An argument is read to its end. -/
theorem readOne_render {v : Value} (hv : v.IsPlain) (hrest : EndsBefore rest) :
    readOne (v.render.toList ++ rest) = some (v, rest) := by
  unfold readOne
  cases v with
  | text t => rw [toList_render_text, readText_encode, Option.some_or]
  | integer n =>
      have hread := readInteger_toString n hrest
      obtain ⟨c, s, hs, hc⟩ := exists_cons_toString_int n.toInt
      rw [toList_render_integer, hread, hs, List.cons_append,
        readText_of_number hc, Option.none_or]
  | verbatim expr => exact hv.elim

-- ============================================================ all arguments

/-- Arguments as they stand in a call. -/
def joined (vs : List Value) : List Char :=
  [',', ' '].intercalate (vs.map fun v => v.render.toList)

/-- A text is at its end, or goes on with a closing parenthesis. -/
def Closes (rest : List Char) : Prop := ∀ c ∈ rest.head?, c = ')'

variable {v : Value} {vs : List Value}

theorem joined_nil : joined [] = [] := rfl

theorem joined_singleton (v : Value) : joined [v] = v.render.toList :=
  List.intercalate_singleton ..

theorem joined_cons (v : Value) (h : vs ≠ []) :
    joined (v :: vs) = v.render.toList ++ ',' :: ' ' :: joined vs := by
  unfold joined
  rw [List.map_cons,
    List.intercalate_cons_of_ne_nil (mt List.map_eq_nil_iff.1 h),
    List.append_assoc]
  rfl

theorem closes_nil : Closes [] := fun _ hc => nomatch hc

theorem Closes.endsBefore (h : Closes rest) : EndsBefore rest := by
  intro c hc
  rw [h c hc]
  decide

theorem Closes.cases (h : Closes rest) : rest = [] ∨ ∃ s, rest = ')' :: s := by
  cases rest with
  | nil => exact .inl rfl
  | cons c s =>
      rw [h c rfl]
      exact .inr ⟨s, rfl⟩

/-- One turn for each argument, and the text that closes the call is left. -/
theorem readFrom_joined (hrest : Closes rest) (hne : vs ≠ [])
    (hvs : ∀ v ∈ vs, v.IsPlain) :
    ∀ turns, vs.length ≤ turns →
    readFrom turns (joined vs ++ rest) = some (vs, rest) := by
  induction vs with
  | nil => exact absurd rfl hne
  | cons v vs ih =>
      intro turns hturns
      rw [List.length_cons] at hturns
      obtain ⟨turns, rfl⟩ : ∃ n, turns = n + 1 := ⟨turns - 1, by omega⟩
      obtain ⟨hv, hvs⟩ := List.forall_mem_cons.1 hvs
      by_cases hlast : vs = []
      · subst hlast
        rw [joined_singleton, readFrom, readOne_render hv hrest.endsBefore]
        rcases hrest.cases with rfl | ⟨s, rfl⟩ <;> rfl
      · have hcomma : EndsBefore (',' :: ' ' :: (joined vs ++ rest)) := by
          intro c hc
          cases hc
          decide
        have hmore := ih hlast hvs turns (by omega)
        rw [joined_cons v hlast, List.append_assoc, List.cons_append,
          List.cons_append, readFrom, readOne_render hv hcomma]
        simp only [Option.bind_eq_bind, Option.bind_some, hmore]

/-- Each argument takes some room. -/
theorem length_le_joined (hvs : ∀ v ∈ vs, v.IsPlain) :
    vs.length ≤ (joined vs).length := by
  induction vs with
  | nil => exact Nat.le_refl _
  | cons v vs ih =>
      obtain ⟨hv, hvs⟩ := List.forall_mem_cons.1 hvs
      obtain ⟨c, s, hs, -⟩ := exists_cons_render hv
      have hmore := ih hvs
      by_cases hlast : vs = []
      · rw [hlast, joined_singleton, hs]
        exact Nat.succ_le_succ (Nat.zero_le _)
      · rw [joined_cons v hlast, List.length_append, List.length_cons,
          List.length_cons, List.length_cons]
        omega

/-- Arguments do not start with a closing parenthesis. -/
theorem exists_cons_joined (hne : vs ≠ []) (hvs : ∀ v ∈ vs, v.IsPlain) :
    ∃ c s, joined vs = c :: s ∧ c ≠ ')' := by
  obtain ⟨v, more, rfl⟩ := List.exists_cons_of_ne_nil hne
  obtain ⟨c, s, hs, hc⟩ := exists_cons_render (List.forall_mem_cons.1 hvs).1
  by_cases hlast : more = []
  · exact ⟨c, s, by rw [hlast, joined_singleton, hs], hc⟩
  · exact ⟨c, _, by rw [joined_cons v hlast, hs, List.cons_append], hc⟩

/-- Arguments are read to the parenthesis that closes the call. -/
theorem readAll_joined (hvs : ∀ v ∈ vs, v.IsPlain) (hrest : Closes rest) :
    readAll (joined vs ++ rest) = some (vs, rest) := by
  by_cases hne : vs = []
  · subst hne
    rw [joined_nil, List.nil_append]
    rcases hrest.cases with rfl | ⟨s, rfl⟩ <;> rfl
  · have hturns : vs.length ≤ (joined vs ++ rest).length := by
      have hlength := length_le_joined hvs
      rw [List.length_append]
      omega
    have hread := readFrom_joined hrest hne hvs _ hturns
    obtain ⟨c, s, hs, hc⟩ := exists_cons_joined hne hvs
    rw [hs, List.cons_append] at hread ⊢
    unfold readAll
    split
    next heq => cases heq
    next heq => exact absurd (List.cons.inj heq).1 hc
    next => exact hread

end Value

-- ================================================================ the calls

namespace Base

/-- The arguments of a base are strings and numbers. -/
def IsPlain (b : Base) : Prop := ∀ v ∈ b.args, v.IsPlain

instance : DecidablePred IsPlain := fun b => List.decidableBAll _ b.args

/-- What stands between the parentheses of a call. -/
def inner (b : Base) : String := ", ".intercalate (b.args.map Value.render)

theorem toList_inner (b : Base) : b.inner.toList = Value.joined b.args := by
  unfold inner Value.joined
  rw [String.toList_intercalate, List.map_map]
  rfl

/-- Plain arguments that are written the same are the same. -/
theorem args_eq_of_inner {b b' : Base} (h : b.IsPlain) (h' : b'.IsPlain)
    (heq : b'.inner = b.inner) : b'.args = b.args := by
  have hread := Value.readAll_joined h Value.closes_nil
  rw [← toList_inner, ← heq, toList_inner,
    Value.readAll_joined h' Value.closes_nil] at hread
  exact (Prod.mk.inj (Option.some.inj hread)).1

/-- Equal calls of equal callees have equal texts between their parentheses. -/
theorem inner_eq_of_argsText {b b' : Base} (callee : String)
    (heq : callee ++ b'.argsText = callee ++ b.argsText) :
    b'.inner = b.inner := by
  have hargs : "(" ++ b'.inner ++ ")" = "(" ++ b.inner ++ ")" :=
    (String.append_right_inj callee).1 heq
  rw [String.append_left_inj, String.append_right_inj] at hargs
  exact hargs

/-- The arguments of a base are read back from either of its calls, up to
the parenthesis that closes it, whatever follows; so a call is that of
one list of arguments. -/
theorem call_determines_args (b : Base) (h : b.IsPlain) :
    ∃ inner : String,
      b.constructorCall = b.name ++ "(" ++ inner ++ ")"
      ∧ b.initializerCall = "__" ++ b.name ++ "_init" ++ "(" ++ inner ++ ")"
      ∧ Value.readAll inner.toList = some (b.args, [])
      ∧ (∀ rest, Value.readAll (inner.toList ++ ')' :: rest)
        = some (b.args, ')' :: rest))
      ∧ ∀ b' : Base, b'.IsPlain → b'.dependency = b.dependency →
        b'.args ≠ b.args →
          b'.constructorCall ≠ b.constructorCall
            ∧ b'.initializerCall ≠ b.initializerCall := by
  have hread : ∀ rest, Value.Closes rest →
      Value.readAll (b.inner.toList ++ rest) = some (b.args, rest) := by
    intro rest hrest
    rw [toList_inner]
    exact Value.readAll_joined h hrest
  refine ⟨b.inner, ?_, ?_, ?_, ?_, ?_⟩
  · simp only [constructorCall, argsText, inner, String.append_assoc]
  · simp only [initializerCall, argsText, inner, String.append_assoc]
  · have hall := hread [] Value.closes_nil
    rwa [List.append_nil] at hall
  · exact fun rest => hread (')' :: rest) fun c hc => (Option.some.inj hc).symm
  · intro b' h' hdependency hargs
    have hname : b'.name = b.name := congrArg Dependency.name hdependency
    constructor
    · intro hcall
      unfold constructorCall at hcall
      rw [hname] at hcall
      exact hargs (args_eq_of_inner h h' (inner_eq_of_argsText _ hcall))
    · intro hcall
      unfold initializerCall at hcall
      rw [hname] at hcall
      exact hargs (args_eq_of_inner h h' (inner_eq_of_argsText _ hcall))

/-- A base with one text that holds what stands between two, and
the extreme numbers. -/
def hostile : Base :=
  ⟨⟨"ERC20", "./ERC20.sol"⟩,
    [.text "a\", \"b", .integer Int64.minValue, .integer Int64.maxValue]⟩

/-- The base with the two texts instead of the one. -/
def halved : Base :=
  ⟨⟨"ERC20", "./ERC20.sol"⟩,
    [.text "a", .text "b", .integer Int64.minValue, .integer Int64.maxValue]⟩

/-- The arguments are read back from the call, and the base with the two texts
instead of the one is called in another way. -/
theorem call_determines_args_hostile :
    (∃ inner : String,
      hostile.constructorCall = hostile.name ++ "(" ++ inner ++ ")"
        ∧ Value.readAll inner.toList = some (hostile.args, []))
      ∧ halved.constructorCall ≠ hostile.constructorCall := by
  have hhostile : hostile.IsPlain := by decide
  have hhalved : halved.IsPlain := by decide
  obtain ⟨inner, hcall, -, hread, -, hother⟩ :=
    call_determines_args hostile hhostile
  exact ⟨⟨inner, hcall, hread⟩, (hother halved hhalved rfl (by decide)).1⟩

end Base

end TokenForge
