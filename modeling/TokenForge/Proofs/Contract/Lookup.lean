/-
The table of functions as a map from signatures. An edit is a change of this
map at one key: the function of its declaration becomes the edited one, and
every other key keeps what it had (`method?_edited`). The order of the table
and whether the edit was refused are not needed for it, and neither is that
signatures are distinct.

A step is then known by what it does at each key. A step that speaks of a
function puts the edited one there (`Step.method?_next_self`); whatever a step
does, a function it does not speak of stays (`Step.method?_next_other`).
-/
import TokenForge.Proofs.Contract.Exchange

namespace TokenForge

namespace Contract

variable {c : Contract}

-- ============================================================= the table

theorem method?_setMethod (c : Contract) (m : Method) (sig : Signature) :
    (c.setMethod m).method? sig
      = if sig = m.signature then (c.method? sig).map fun _ => m
        else c.method? sig := by
  -- replacing an entry keeps its signature, so the search stops where it did
  have hsame : (fun n : Method => decide (n.signature = sig))
      ∘ (fun n => if n.signature = m.signature then m else n)
      = fun n => decide (n.signature = sig) := by
    funext n
    by_cases hn : n.signature = m.signature
    · simp [hn]
    · simp [hn]
  unfold setMethod method?
  dsimp only
  rw [List.find?_map, hsame]
  cases hfind : c.methods.find? fun n => decide (n.signature = sig) with
  | none => simp
  | some n =>
      have hn : n.signature = sig := by simpa using List.find?_some hfind
      rw [Option.map_some, Option.map_some, hn]
      split <;> rfl

theorem method?_touch_self (c : Contract) (d : Declaration) :
    (c.touch d).method? d.signature = some (c.methodFor d) := by
  cases h : c.method? d.signature with
  | some m => rw [touch_of_some h, methodFor_of_some h, h]
  | none =>
      rw [touch_of_none h, methodFor_of_none h]
      unfold method? at h ⊢
      rw [List.find?_append, h, Option.none_or]
      simp [Method.fresh, Method.signature]

theorem method?_touch_other (c : Contract) {d : Declaration} {sig : Signature}
    (hne : sig ≠ d.signature) : (c.touch d).method? sig = c.method? sig := by
  cases h : c.method? d.signature with
  | some m => rw [touch_of_some h]
  | none =>
      have hfresh : ¬(Method.fresh d).signature = sig :=
        fun hsig => hne hsig.symm
      rw [touch_of_none h]
      unfold method?
      rw [List.find?_append, List.find?_singleton,
        if_neg (by simpa using hfresh), Option.or_none]

/-- An edit changes the function of its declaration and no other. -/
theorem method?_edited (c : Contract) {d : Declaration} {f : MethodEdit}
    (hf : ∀ m, (f.result m).signature = m.signature) (sig : Signature) :
    (c.edited d f).method? sig
      = if sig = d.signature then some (f.result (c.methodFor d))
        else c.method? sig := by
  unfold edited
  cases hfm : f (c.methodFor d) with
  | error e =>
      rw [MethodEdit.result_of_error hfm]
      by_cases hsig : sig = d.signature
      · rw [if_pos hsig, hsig, method?_touch_self]
      · rw [if_neg hsig, method?_touch_other c hsig]
  | ok m =>
      have hm : m.signature = d.signature := by
        rw [← MethodEdit.result_of_ok hfm, hf, signature_methodFor]
      rw [MethodEdit.result_of_ok hfm, method?_setMethod, hm]
      by_cases hsig : sig = d.signature
      · rw [if_pos hsig, if_pos hsig, hsig, method?_touch_self,
          Option.map_some]
      · rw [if_neg hsig, if_neg hsig, method?_touch_other c hsig]

end Contract

-- ============================================================== the steps

namespace Step

variable {s : Step} {d : Declaration} {f : MethodEdit}

/-- The function a step speaks of is the edited one afterwards. -/
theorem method?_next_self (hs : s.edit? = some (d, f)) (c : Contract) :
    (s.next c).method? d.signature = some (f.result (c.methodFor d)) := by
  rw [(next_of_edit hs c).1, Contract.method?_edited c (signature_result hs),
    if_pos rfl]

/-- A function that a step does not speak of stays as it was. -/
theorem method?_next_other {sig : Signature} (hs : s.function? ≠ some sig)
    (c : Contract) : (s.next c).method? sig = c.method? sig := by
  cases hedit : s.edit? with
  | none =>
      unfold Contract.method?
      rw [methods_next hedit]
  | some df =>
      obtain ⟨d, f⟩ := df
      have hne : sig ≠ d.signature := by
        rintro rfl
        exact hs (by rw [function?, hedit]; rfl)
      rw [(next_of_edit hedit c).1,
        Contract.method?_edited c (signature_result hedit), if_neg hne]

end Step

end TokenForge
