/-
The body of a function, read off the history. Only two kinds of step work on
a body: appending a line and replacing the whole. `bodyCalls` lists those of a
history for one signature, and `Body.ofCalls` says what they make of the body.
The first call decides. If it appends, the body is the appended lines in
order, and replacements are refused; if it replaces, even by no lines, the
body is the last replacement, and lines are refused.

The body of a signature follows this list through every history
(`bodyOf_replay`): a call changes it the way the next entry of the list does
(`Step.bodyOf_next_of_call`, `Body.ofCalls_concat`), every other step leaves
it (`Step.bodyOf_next_of_none`). Which calls are refused is then a matter of
the list alone.
-/
import TokenForge.Proofs.Contract.Growth

namespace TokenForge

-- ================================================================== calls

/-- A call on the body of a function. -/
inductive BodyCall where
  | append (line : String)
  | replace (lines : List String)
  deriving DecidableEq, Repr

namespace BodyCall

/-- What a call makes of a body, unless it is refused. -/
def change : BodyCall → Body → Option Body
  | .append line => (·.append? line)
  | .replace lines => (·.replace? lines)

/-- The conflict of a call that is refused. -/
def refusal : BodyCall → Signature → ContractError
  | .append _ => (.bodyReplaced ·.text)
  | .replace _ => (.bodyAppended ·.text)

/-- Whether a call appends. -/
def appends : BodyCall → Bool
  | .append _ => true
  | .replace _ => false

/-- The line a call appends. -/
def line? : BodyCall → Option String
  | .append line => some line
  | .replace _ => none

/-- The lines a call replaces a body by. -/
def replacement? : BodyCall → Option (List String)
  | .append _ => none
  | .replace lines => some lines

end BodyCall

/-- The call a step makes on the body of the function of a signature. -/
def Step.bodyCall? (sig : Signature) : Step → Option BodyCall
  | .line text d => if d.signature = sig then some (.append text) else none
  | .body lines d => if d.signature = sig then some (.replace lines) else none
  | _ => none

/-- The calls of a history on the body of the function of a signature. -/
def bodyCalls (history : List Step) (sig : Signature) : List BodyCall :=
  history.filterMap (Step.bodyCall? sig)

theorem bodyCalls_append (h₁ h₂ : List Step) (sig : Signature) :
    bodyCalls (h₁ ++ h₂) sig = bodyCalls h₁ sig ++ bodyCalls h₂ sig :=
  List.filterMap_append

theorem bodyCalls_cons_of_call {s : Step} {sig : Signature} {call : BodyCall}
    (h : s.bodyCall? sig = some call) (history : List Step) :
    bodyCalls (s :: history) sig = call :: bodyCalls history sig :=
  List.filterMap_cons_some h

theorem bodyCalls_cons_of_none {s : Step} {sig : Signature}
    (h : s.bodyCall? sig = none) (history : List Step) :
    bodyCalls (s :: history) sig = bodyCalls history sig :=
  List.filterMap_cons_none h

-- ============================================================ their effect

/-- The lines that calls append, in order. -/
def appendedLines (calls : List BodyCall) : List String :=
  calls.filterMap BodyCall.line?

/-- The replacements that calls make, in order. -/
def replacements (calls : List BodyCall) : List (List String) :=
  calls.filterMap BodyCall.replacement?

/-- The body that calls make. The first one decides between the two kinds. -/
def Body.ofCalls : List BodyCall → Body
  | [] => .untouched
  | .append line :: later => .grown (line :: appendedLines later)
  | .replace lines :: later =>
    .replaced ((replacements later).getLast?.getD lines)

/-- One more call changes the body if it is accepted, and leaves it if not. -/
theorem Body.ofCalls_concat (calls : List BodyCall) (call : BodyCall) :
    ofCalls (calls ++ [call])
      = (call.change (ofCalls calls)).getD (ofCalls calls) := by
  match calls with
  | [] => cases call <;> rfl
  | .append first :: later =>
      rw [List.cons_append, ofCalls, appendedLines, List.filterMap_append]
      cases call with
      | append line => rfl
      | replace lines =>
          show Body.grown (first :: (later.filterMap _ ++ [])) = _
          rw [List.append_nil]
          rfl
  | .replace first :: later =>
      rw [List.cons_append, ofCalls, replacements, List.filterMap_append]
      cases call with
      | append line =>
          show Body.replaced ((later.filterMap _ ++ []).getLast?.getD first)
              = _
          rw [List.append_nil]
          rfl
      | replace lines =>
          show Body.replaced
              ((later.filterMap _ ++ [lines]).getLast?.getD first) = _
          rw [List.getLast?_concat]
          rfl

-- ====================================================== the body in a table

/-- The body of the function of a signature, also if it was not spoken of. -/
def Contract.bodyOf (c : Contract) (sig : Signature) : Body :=
  ((c.method? sig).map (·.body)).getD .untouched

theorem Contract.body_methodFor (c : Contract) (d : Declaration) :
    (c.methodFor d).body = c.bodyOf d.signature := by
  unfold bodyOf
  cases h : c.method? d.signature with
  | none => rw [methodFor_of_none h]; rfl
  | some m => rw [methodFor_of_some h]; rfl

namespace Step

variable {s : Step} {sig : Signature}

/-- A call on a body is an edit of the body and nothing else. -/
theorem edit?_of_bodyCall {call : BodyCall} (h : s.bodyCall? sig = some call) :
    ∃ d, d.signature = sig
      ∧ s.edit? = some (d, .onBody call.change call.refusal) := by
  cases s <;> simp only [bodyCall?, Option.ite_none_right_eq_some,
    Option.some.injEq, reduceCtorEq] at h
  all_goals
    obtain ⟨hd, rfl⟩ := h
    exact ⟨_, hd, rfl⟩

/-- A call changes the body if it is accepted; otherwise it leaves the body
and says why. -/
theorem bodyOf_next_of_call {call : BodyCall} (h : s.bodyCall? sig = some call)
    (c : Contract) :
    (s.next c).bodyOf sig = (call.change (c.bodyOf sig)).getD (c.bodyOf sig)
      ∧ s.conflict? c
        = if (call.change (c.bodyOf sig)).isSome then none
          else some (call.refusal sig) := by
  obtain ⟨d, rfl, hs⟩ := edit?_of_bodyCall h
  refine ⟨?_, ?_⟩
  · rw [Contract.bodyOf, method?_next_self hs, MethodEdit.result_onBody,
      Contract.body_methodFor]
    rfl
  · rw [(next_of_edit hs c).2, MethodEdit.refusal?_onBody,
      Contract.body_methodFor, Contract.signature_methodFor]

/-- A step that makes no call on a body leaves it. -/
theorem bodyOf_next_of_none (h : s.bodyCall? sig = none) (c : Contract) :
    (s.next c).bodyOf sig = c.bodyOf sig := by
  by_cases hfun : s.function? = some sig
  · -- the step speaks of the function, but not of its body
    obtain ⟨d, f, hs, rfl⟩ := exists_edit hfun
    have hbody : (f.result (c.methodFor d)).body = (c.methodFor d).body := by
      cases s <;> simp only [edit?, Option.some.injEq, Prod.mk.injEq,
        reduceCtorEq] at hs
      case ancestor a e =>
          obtain ⟨rfl, rfl⟩ := hs
          show ((c.methodFor e).addAncestor a).body = _
          rw [Method.addAncestor_eq]
      case modifier text e =>
          obtain ⟨rfl, rfl⟩ := hs
          rfl
      all_goals
        obtain ⟨rfl, -⟩ := hs
        simp [bodyCall?] at h
    rw [Contract.bodyOf, method?_next_self hs, Option.map_some,
      Option.getD_some, hbody, Contract.body_methodFor]
  · unfold Contract.bodyOf
    rw [method?_next_other hfun]

end Step

namespace Contract

/-- The body of every function is what the calls of the history make. -/
theorem bodyOf_replay (history : List Step) (name : String) (sig : Signature) :
    (replay history { name }).bodyOf sig
      = .ofCalls (bodyCalls history sig) := by
  induction history using List.reverseRecOn with
  | nil => rfl
  | append_singleton history s ih =>
      rw [replay_append, bodyCalls_append]
      show (s.next (replay history { name })).bodyOf sig = _
      cases h : s.bodyCall? sig with
      | none =>
          rw [Step.bodyOf_next_of_none h, ih, bodyCalls_cons_of_none h]
          simp [bodyCalls]
      | some call =>
          rw [(Step.bodyOf_next_of_call h _).1, ih, bodyCalls_cons_of_call h]
          exact (Body.ofCalls_concat _ call).symm

/-- A body that was worked on belongs to an entry of the table. -/
theorem method?_of_bodyOf {c : Contract} {sig : Signature}
    (h : c.bodyOf sig ≠ .untouched) :
    ∃ m, c.method? sig = some m ∧ m.body = c.bodyOf sig := by
  unfold bodyOf at h ⊢
  cases hfind : c.method? sig with
  | none =>
      rw [hfind] at h
      exact absurd rfl h
  | some m => exact ⟨m, rfl, rfl⟩

end Contract

-- ============================================================ the theorem

open Contract

/-- A history works on a body by appending: every line is accepted, every
replacement is refused, and the body is the lines in order. -/
structure AppendsTo (name : String) (history : List Step) (sig : Signature) :
    Prop where
  accepted : ∀ before s after line, history = before ++ s :: after →
    s.bodyCall? sig = some (.append line) →
    s.conflict? (replay before { name }) = none
  refused : ∀ before s after lines, history = before ++ s :: after →
    s.bodyCall? sig = some (.replace lines) →
    s.conflict? (replay before { name }) = some (.bodyAppended sig.text)
  code : ∃ m, (replay history { name }).method? sig = some m
    ∧ m.code = appendedLines (bodyCalls history sig) ∧ m.isReplaced = false

/-- A history works on a body by replacing: every replacement is accepted,
every line is refused, and the body is the last replacement. -/
structure Replaces (name : String) (history : List Step) (sig : Signature) :
    Prop where
  accepted : ∀ before s after lines, history = before ++ s :: after →
    s.bodyCall? sig = some (.replace lines) →
    s.conflict? (replay before { name }) = none
  refused : ∀ before s after line, history = before ++ s :: after →
    s.bodyCall? sig = some (.append line) →
    s.conflict? (replay before { name }) = some (.bodyReplaced sig.text)
  code : ∃ m, (replay history { name }).method? sig = some m
    ∧ some m.code = (replacements (bodyCalls history sig)).getLast?
    ∧ m.isReplaced = true

/-- After a first call, calls of its kind are accepted and the others are
refused. -/
theorem isSome_change_ofCalls (call first : BodyCall)
    (earlier : List BodyCall) :
    (call.change (.ofCalls (first :: earlier))).isSome
      = (call.appends == first.appends) := by
  cases call <;> cases first <;> rfl

/-- What became of a call in the midst of a history. -/
theorem conflict?_of_split {name : String} {before after : List Step}
    {s : Step} {sig : Signature} {call first : BodyCall}
    {later : List BodyCall} (hcall : s.bodyCall? sig = some call)
    (h : bodyCalls (before ++ s :: after) sig = first :: later) :
    s.conflict? (replay before { name })
      = if call.appends == first.appends then none
        else some (call.refusal sig) := by
  rw [(Step.bodyOf_next_of_call hcall _).2, bodyOf_replay]
  rw [bodyCalls_append, bodyCalls_cons_of_call hcall] at h
  rcases List.append_eq_cons_iff.1 h
    with ⟨hnil, hcons⟩ | ⟨earlier, hearlier, -⟩
  · -- it is the first call itself
    rw [hnil, (List.cons.inj hcons).1]
    cases first <;> rfl
  · rw [hearlier, isSome_change_ofCalls]

/-- A history whose first call on a body appends goes on appending to it. -/
theorem appendsTo_of_first {name : String} {history : List Step}
    {sig : Signature} {line : String} {later : List BodyCall}
    (hfirst : bodyCalls history sig = .append line :: later) :
    AppendsTo name history sig := by
  refine ⟨?_, ?_, ?_⟩
  · rintro before s after line' rfl hcall
    exact conflict?_of_split hcall hfirst
  · rintro before s after lines rfl hcall
    exact conflict?_of_split hcall hfirst
  · have hgrown : (replay history { name }).bodyOf sig
        = .grown (appendedLines (bodyCalls history sig)) := by
      rw [bodyOf_replay, hfirst]
      rfl
    obtain ⟨m, hm, hbody⟩ := method?_of_bodyOf (by rw [hgrown]; simp)
    rw [hgrown] at hbody
    exact ⟨m, hm, congrArg Body.lines hbody, congrArg Body.isReplaced hbody⟩

/-- A history whose first call on a body replaces it goes on replacing it. -/
theorem replaces_of_first {name : String} {history : List Step}
    {sig : Signature} {lines : List String} {later : List BodyCall}
    (hfirst : bodyCalls history sig = .replace lines :: later) :
    Replaces name history sig := by
  refine ⟨?_, ?_, ?_⟩
  · rintro before s after lines' rfl hcall
    exact conflict?_of_split hcall hfirst
  · rintro before s after line rfl hcall
    exact conflict?_of_split hcall hfirst
  · let last := (replacements later).getLast?.getD lines
    have hreplaced : (replay history { name }).bodyOf sig
        = .replaced last := by
      rw [bodyOf_replay, hfirst]
      rfl
    have hlast : (replacements (bodyCalls history sig)).getLast?
        = some last := by
      rw [hfirst]
      exact List.getLast?_cons
    obtain ⟨m, hm, hbody⟩ := method?_of_bodyOf (by rw [hreplaced]; simp)
    rw [hreplaced] at hbody
    rw [hlast]
    exact ⟨m, hm, congrArg (some ∘ Body.lines) hbody,
      congrArg Body.isReplaced hbody⟩

/-- The first call on a body fixes for good how a history works on it. Calls
that are refused, and steps that make no call on the body, leave it. -/
theorem body_follows_first_call (name : String) (history : List Step)
    (sig : Signature) :
    (bodyCalls history sig = [] →
        (replay history { name }).bodyOf sig = .untouched)
      ∧ (∀ line later, bodyCalls history sig = .append line :: later →
        AppendsTo name history sig)
      ∧ (∀ lines later, bodyCalls history sig = .replace lines :: later →
        Replaces name history sig)
      ∧ ∀ s : Step, (s.bodyCall? sig = none
            ∨ s.conflict? (replay history { name }) ≠ none) →
          (s.next (replay history { name })).bodyOf sig
            = (replay history { name }).bodyOf sig := by
  refine ⟨?_, fun _ _ => appendsTo_of_first, fun _ _ => replaces_of_first, ?_⟩
  · intro hnone
    rw [bodyOf_replay, hnone]
    rfl
  · rintro s (hnone | hconflict)
    · exact Step.bodyOf_next_of_none hnone _
    · obtain ⟨e, he⟩ := Option.ne_none_iff_exists'.1 hconflict
      rw [Step.next_of_conflict he]

/-- Two functions in one history: one whose body was replaced by nothing
before a line was tried, one that got a line before a replacement was. -/
theorem body_of_interleaved :
    let mint : Declaration := { name := "mint", visibility := .everywhere }
    let burn : Declaration := { name := "burn", visibility := .everywhere }
    let history : List Step := [.ancestor "Base" burn, .body [] burn,
      .line "supply += 1;" mint, .line "supply -= 1;" burn,
      .body ["revert();"] mint, .modifier "onlyOwner" burn,
      .line "emit Minted();" mint]
    Replaces "Token" history burn.signature
      ∧ AppendsTo "Token" history mint.signature
      ∧ (bodyCalls history burn.signature).length = 2
      ∧ (bodyCalls history mint.signature).length = 3 := by
  intro mint burn history
  obtain ⟨-, -, hreplaced, -⟩ :=
    body_follows_first_call "Token" history burn.signature
  obtain ⟨-, happends, -, -⟩ :=
    body_follows_first_call "Token" history mint.signature
  exact ⟨hreplaced _ _ rfl, happends _ _ rfl, rfl, rfl⟩

end TokenForge
