import CilAudit.Proofs.DebugLine
import CilAudit.Proofs.Locality

/-!
# How a method is judged

The rule for debug lines makes its tests one after the other, some of them only
to be done sooner: a body without calls fails before anything is looked for in
it. `Inspection.Judged` says what comes of a method without an order of tests.
It knows what a method has to be for the rule to look at it, when it is left
out of debug builds, and which call counts; and that is the first one that can
write a text, whatever calls come later.

The shortcut drops out because a call that writes a text is a call
(`hasCalls_of_writesText`). That later calls do not count is more than the
choice of the first one, since the text is traced in the whole body. But the
trace is local, and later code shows in it only in the places that it branches
back to. A loop around the write does no harm, as long as the same places are
branched to.
-/

namespace CilAudit

open Code (Body Instruction)

/-! ## What is looked at -/

/-- An instance method that disposes, told whether on behalf of a caller, and
has code. Modifiers and accessibility do not count. -/
structure Method.Disposes (m : Method) : Prop where
  name : m.name = "Dispose"
  returns : m.returnType = TypeName.void
  params : m.params = [TypeName.boolean]
  notStatic : m.isStatic = false
  code : ∃ body, m.body = some body ∧ 0 < body.size

theorem Method.isChecked_iff {m : Method} :
    m.isChecked = true ↔ m.Disposes := by
  simp only [isChecked, hasSignature, Code.Signature.matchesParts,
    Code.Signature.disposeBool, hasBody, hasThis, Bool.and_eq_true, beq_iff_eq,
    Bool.not_eq_true', Option.any_eq_true, bne_iff_ne, ne_eq]
  constructor
  · rintro ⟨⟨⟨⟨hname, hreturns⟩, hparams⟩, body, hbody, hsize⟩, hstatic⟩
    exact ⟨hname.symm, hreturns.symm, hparams.symm, hstatic, body,
      hbody, by omega⟩
  · rintro ⟨hname, hreturns, hparams, hstatic, body, hbody, hsize⟩
    exact ⟨⟨⟨⟨hname.symm, hreturns.symm⟩, hparams.symm⟩, body, hbody, by omega⟩,
      hstatic⟩

/-- The pairs in front of a numbered one are those with lower numbers. -/
theorem mem_before_of_zipIdx {α : Type} {xs : List α}
    {before after : List (α × Nat)} {x y : α}
    {index earlier : Nat} (hsplit : xs.zipIdx = before ++ (x, index) :: after)
    (hget : xs[earlier]? = some y) (hlt : earlier < index) :
    (y, earlier) ∈ before := by
  have hlength : before.length = index := by
    have hat : xs.zipIdx[before.length]? = some (x, index) := by
      rw [hsplit, List.getElem?_append_right (Nat.le_refl _), Nat.sub_self]
      rfl
    rw [List.getElem?_zipIdx, Option.map_eq_some_iff] at hat
    obtain ⟨_, -, hpair⟩ := hat
    rw [← (Prod.mk.inj hpair).2, Nat.zero_add]
  have hat : xs.zipIdx[earlier]? = some (y, earlier) := by
    rw [List.getElem?_zipIdx, hget, Option.map_some, Nat.zero_add]
  rw [hsplit, List.getElem?_append_left (by omega)] at hat
  exact List.mem_of_getElem? hat

namespace Inspection

/-- A call that writes diagnostics, whose first string parameter is at
`position`. A call without a string parameter is none, whatever it is of. -/
def WritesText (i : Inspection) (body : Body) (site position : Nat) : Prop :=
  ∃ target, body.callTarget? site = some target ∧
    i.assembly.shapeOf i.convention.diagnostic target = .diagnosticWrite ∧
    target.params.idxOf? TypeName.string = some position

/-- The first call of a body that writes diagnostics and has a string
parameter. First is meant by index; whether control comes to it first, or at
all, is not asked. -/
structure WritesFirst (i : Inspection) (body : Body)
    (site position : Nat) : Prop where
  writes : i.WritesText body site position
  least : ∀ earlier < site, ∀ other, ¬i.WritesText body earlier other

variable {i : Inspection} {m : Method} {cache : Cache} {body : Body}
  {site position : Nat}

theorem writesText_iff :
    i.WritesText body site position ↔
    (body.get? site).bind i.diagnosticText? = some position := by
  unfold WritesText diagnosticText? Body.callTarget?
  cases body.get? site with
  | none => simp
  | some instruction => cases hcall : instruction.callTarget? <;> simp [hcall]

theorem hasCalls_of_writesText (h : i.WritesText body site position) :
    body.hasCalls = true := by
  obtain ⟨target, htarget, -⟩ := h
  obtain ⟨instruction, hget, hcall⟩ := Option.bind_eq_some_iff.1 htarget
  refine Array.any_eq_true'.2 ⟨instruction, Array.mem_of_getElem? hget, ?_⟩
  simp [Instruction.isCall, Instruction.category_of_callTarget? hcall]

theorem WritesFirst.unique {site' position' : Nat}
    (h : i.WritesFirst body site position)
    (h' : i.WritesFirst body site' position') :
    site = site' ∧ position = position' := by
  rcases Nat.lt_trichotomy site site' with hlt | rfl | hlt
  · exact absurd h.writes (h'.least site hlt position)
  · have hsame := writesText_iff.1 h.writes
    rw [writesText_iff.1 h'.writes] at hsame
    exact ⟨rfl, (Option.some.inj hsame).symm⟩
  · exact absurd h'.writes (h.least site' hlt position')

theorem diagnosticCall?_eq_none_iff :
    i.diagnosticCall? body = none ↔
      ∀ site position, ¬i.WritesText body site position := by
  simp only [diagnosticCall?, List.findSome?_eq_none_iff,
    Option.map_eq_none_iff, Prod.forall, List.mem_zipIdx_iff_getElem?,
    Array.getElem?_toList, writesText_iff]
  constructor
  · intro h site position hwrites
    obtain ⟨instruction, hget, htext⟩ := Option.bind_eq_some_iff.1 hwrites
    rw [h instruction site hget] at htext
    cases htext
  · intro h instruction site hget
    cases htext : i.diagnosticText? instruction with
    | none => rfl
    | some position =>
        have hwrites : (body.get? site).bind i.diagnosticText? =
            some position := by
          rw [Body.get?, hget, Option.bind_some, htext]
        exact absurd hwrites (h site position)

theorem writesFirst_of_diagnosticCall?
    (h : i.diagnosticCall? body = some (site, position)) :
    i.WritesFirst body site position := by
  refine ⟨target_of_diagnosticCall? h, ?_⟩
  intro earlier hlt other hwrites
  obtain ⟨instruction, hget, htext⟩ :=
    Option.bind_eq_some_iff.1 (writesText_iff.1 hwrites)
  obtain ⟨before, ⟨found, index⟩, after, hsplit, hfound, hbefore⟩ :=
    List.findSome?_eq_some_iff.1 h
  have hindex : index = site := by
    obtain ⟨_, -, hpair⟩ := Option.map_eq_some_iff.1 hfound
    exact (Prod.mk.inj hpair).1
  have hmem : (instruction, earlier) ∈ before :=
    mem_before_of_zipIdx hsplit (Array.getElem?_toList.trans hget) (by omega)
  have hnone := hbefore _ hmem
  rw [Option.map_eq_none_iff] at hnone
  rw [hnone] at htext
  cases htext

theorem diagnosticCall?_eq_some_iff :
    i.diagnosticCall? body = some (site, position) ↔
    i.WritesFirst body site position := by
  refine ⟨writesFirst_of_diagnosticCall?, ?_⟩
  intro h
  cases hcall : i.diagnosticCall? body with
  | none =>
      exact absurd h.writes (diagnosticCall?_eq_none_iff.1 hcall site position)
  | some found =>
      obtain ⟨hsite, hposition⟩ :=
        h.unique (writesFirst_of_diagnosticCall? hcall)
      rw [hsite, hposition]

/-! ## The judgement -/

/-- What comes of a method: it is none that the rule looks at; it is left out
of debug builds; its first write has a text that will do, or has not; or there
is no write. -/
inductive Judged (i : Inspection) (m : Method) (cache : Cache) : Finding → Prop
  | otherMethod : ¬m.Disposes → Judged i m cache .doesNotApply
  | leftOut : m.Disposes → ¬i.IsInDebugBuilds m → Judged i m cache .success
  | rightText {body : Body} {site position : Nat} {text : String} :
      m.Disposes → i.IsInDebugBuilds m → m.body = some body →
      i.WritesFirst body site position →
      (resolveArgument i.limits i.assembly body site position cache).1 =
        .resolved text →
      i.convention.accepts text = true → Judged i m cache .success
  | otherText {body : Body} {site position : Nat} :
      m.Disposes → i.IsInDebugBuilds m → m.body = some body →
      i.WritesFirst body site position →
      (∀ text,
        (resolveArgument i.limits i.assembly body site position cache).1 =
        .resolved text → i.convention.accepts text = false) →
      Judged i m cache
        (.failure ⟨"EnsureMissDispStatement", m.reportName, some site,
          .medium, .normal⟩)
  | noWrite {body : Body} :
      m.Disposes → i.IsInDebugBuilds m → m.body = some body →
      (∀ site position, ¬i.WritesText body site position) →
      Judged i m cache (.failure ⟨"EnsureMissDispStatement", m.reportName, none,
        .medium, .high⟩)

theorem checkMethod_of_not_disposes (h : ¬m.Disposes) :
    (i.checkMethod .debugLine m cache).1 = .doesNotApply := by
  rw [← Method.isChecked_iff] at h
  simp [checkMethod, coversMethod, h]

/-- Behind its guards the rule looks for the first write and nothing else. The
test for calls of any kind decides nothing: a body that writes has a call. -/
theorem checkMethod_of_disposes (h : m.Disposes) (hbody : m.body = some body) :
    (i.checkMethod .debugLine m cache).1 =
      if i.isReleaseOnly m then .success
      else
        match i.diagnosticCall? body with
        | none =>
            .failure (.ofMethod MethodRule.debugLine.id m none .medium .high)
        | some (site, position) =>
          if (resolveArgument i.limits i.assembly body site position
              cache).1.text?.any i.convention.accepts then .success
          else
            .failure (.ofMethod MethodRule.debugLine.id m (some site) .medium
              .normal) := by
  have hcovers : i.coversMethod .debugLine m = true := by
    simp [coversMethod, Method.isChecked_iff.2 h]
  rw [checkMethod, if_pos hcovers, checkDebugLine, hbody]
  dsimp only
  cases i.isReleaseOnly m with
  | true => rfl
  | false =>
      cases hcall : i.diagnosticCall? body with
      | none => cases body.hasCalls <;> rfl
      | some found =>
          rw [hasCalls_of_writesText
            (diagnosticCall?_eq_some_iff.1 hcall).writes]
          simp only [Bool.false_eq_true, Bool.not_true, if_false]
          split <;> rfl

theorem judged_checkMethod (i : Inspection) (m : Method) (cache : Cache) :
    i.Judged m cache (i.checkMethod .debugLine m cache).1 := by
  by_cases hm : m.Disposes
  · obtain ⟨body, hbody, -⟩ := hm.code
    rw [checkMethod_of_disposes hm hbody]
    cases hrelease : i.isReleaseOnly m with
    | true =>
        refine .leftOut hm fun hbuilds => ?_
        rw [isReleaseOnly_eq_false_iff.2 hbuilds] at hrelease
        cases hrelease
    | false =>
        have hbuilds := isReleaseOnly_eq_false_iff.1 hrelease
        cases hcall : i.diagnosticCall? body with
        | none =>
            exact .noWrite hm hbuilds hbody
              (diagnosticCall?_eq_none_iff.1 hcall)
        | some found =>
            have hfirst := diagnosticCall?_eq_some_iff.1 hcall
            simp only [Bool.false_eq_true, if_false]
            split
            · next haccepts =>
                obtain ⟨text, htext, haccept⟩ :=
                  (Option.any_eq_true ..).1 haccepts
                exact .rightText hm hbuilds hbody hfirst
                  (eq_resolved_of_text? htext) haccept
            · next hrefuses =>
                refine .otherText hm hbuilds hbody hfirst fun text htext => ?_
                rw [htext, Resolution.text?, Option.any_some] at hrefuses
                simpa using hrefuses
  · rw [checkMethod_of_not_disposes hm]
    exact .otherMethod hm

theorem Judged.eq_checkMethod {finding : Finding}
    (h : i.Judged m cache finding) :
    (i.checkMethod .debugLine m cache).1 = finding := by
  have hrelease (hbuilds : i.IsInDebugBuilds m) : i.isReleaseOnly m = false :=
    isReleaseOnly_eq_false_iff.2 hbuilds
  cases h with
  | otherMethod hm => exact checkMethod_of_not_disposes hm
  | leftOut hm hout =>
      obtain ⟨body, hbody, -⟩ := hm.code
      have honly : i.isReleaseOnly m = true := by
        rw [← Bool.not_eq_false, isReleaseOnly_eq_false_iff]
        exact hout
      rw [checkMethod_of_disposes hm hbody, if_pos honly]
  | rightText hm hbuilds hbody hfirst hresolved haccepts =>
      rw [checkMethod_of_disposes hm hbody, hrelease hbuilds,
        if_neg Bool.false_ne_true, diagnosticCall?_eq_some_iff.2 hfirst]
      dsimp only
      rw [hresolved, Resolution.text?, Option.any_some, if_pos haccepts]
  | otherText hm hbuilds hbody hfirst hrefuses =>
      rw [checkMethod_of_disposes hm hbody, hrelease hbuilds,
        if_neg Bool.false_ne_true, diagnosticCall?_eq_some_iff.2 hfirst]
      dsimp only
      rw [if_neg]
      · rfl
      · intro haccepts
        obtain ⟨text, htext, haccept⟩ := (Option.any_eq_true ..).1 haccepts
        rw [hrefuses text (eq_resolved_of_text? htext)] at haccept
        cases haccept
  | noWrite hm hbuilds hbody hnone =>
      rw [checkMethod_of_disposes hm hbody, hrelease hbuilds,
        if_neg Bool.false_ne_true, diagnosticCall?_eq_none_iff.2 hnone]
      rfl

end Inspection

/-! ## Code behind the first write -/

/-- Two bodies are the same up to `site`, and branches name the same indices up
to there. What stands behind may differ in all else. -/
structure Code.Body.SameUpTo (site : Nat) (b b' : Body) : Prop where
  code : ∀ index ≤ site, b'.get? index = b.get? index
  joins : ∀ index ≤ site, b'.isJoinPoint index = b.isJoinPoint index

namespace Code.Body.SameUpTo

variable {site : Nat} {b b' : Body}

theorem callTarget?_eq (h : SameUpTo site b b') {index : Nat}
    (hindex : index ≤ site) :
    b'.callTarget? index = b.callTarget? index := by
  rw [callTarget?, callTarget?, h.code index hindex]

/-- A trace from `site` is the same: nothing was put in front, so it has no new
start to find. -/
theorem resolveArgument_eq (h : SameUpTo site b b') (limits : Limits)
    (a : Assembly) (position : Nat) (cache : Cache) :
    resolveArgument limits a b' site position cache =
      resolveArgument limits a b site position cache := by
  have hhosts : (Route.ofLimits limits a b').Hosts (Route.ofLimits limits a b)
      0 0 site := by
    refine Route.hosts_ofLimits ?_ ?_
    · intro index hindex
      rw [Nat.zero_add, h.code index (by omega)]
      cases b.get? index with
      | none => rfl
      | some instruction => rw [Option.map_some, Instruction.moved_zero]
    · intro index hindex
      rw [Nat.zero_add, h.joins index hindex]
  have hcall : b'.callTarget? (0 + site) = b.callTarget? site := by
    rw [Nat.zero_add, h.callTarget?_eq (Nat.le_refl site)]
  rcases Route.hosts_argumentOrigin hhosts hcall position with hsame | ⟨hpos, -⟩
  · rw [Nat.zero_add] at hsame
    rw [resolveArgument, resolveArgument, hsame]
  · exact absurd hpos (Nat.lt_irrefl 0)

end Code.Body.SameUpTo

namespace Inspection

variable {i : Inspection} {site position : Nat} {b b' : Body}

theorem writesText_congr {index : Nat}
    (h : b'.callTarget? index = b.callTarget? index) :
    i.WritesText b' index position ↔ i.WritesText b index position := by
  rw [WritesText, WritesText, h]

theorem WritesFirst.transfer (hfirst : i.WritesFirst b site position)
    (h : b.SameUpTo site b') : i.WritesFirst b' site position where
  writes := (writesText_congr (h.callTarget?_eq (Nat.le_refl site))).2
    hfirst.writes
  least earlier hlt other hwrites :=
    hfirst.least earlier hlt other
      ((writesText_congr (h.callTarget?_eq (Nat.le_of_lt hlt))).1 hwrites)

theorem WritesFirst.size_pos (h : i.WritesFirst b site position) :
    0 < b.size := by
  obtain ⟨target, htarget, -⟩ := h.writes
  obtain ⟨instruction, hget, -⟩ := Option.bind_eq_some_iff.1 htarget
  have hlt : site < b.size := (Array.getElem?_eq_some_iff.1 hget).1
  omega

/-- The verdict on a method that writes, as a function of its first write.
Nothing of the body enters but the trace from there. -/
theorem checkMethod_of_writesFirst {m : Method}
    (h : i.WritesFirst b site position) (cache : Cache) :
    (i.checkMethod .debugLine { m with body := some b } cache).1 =
      if m.name = "Dispose" ∧ m.returnType = TypeName.void ∧
          m.params = [TypeName.boolean] ∧ m.isStatic = false then
        if i.isReleaseOnly m then .success
        else if (resolveArgument i.limits i.assembly b site position
            cache).1.text?.any i.convention.accepts then .success
        else .failure (.ofMethod MethodRule.debugLine.id m
          (some site) .medium .normal)
      else .doesNotApply := by
  split
  · next hm =>
      obtain ⟨hname, hreturns, hparams, hstatic⟩ := hm
      have hdisposes : ({ m with body := some b } : Method).Disposes :=
        ⟨hname, hreturns, hparams, hstatic, b, rfl, h.size_pos⟩
      rw [checkMethod_of_disposes hdisposes rfl,
        diagnosticCall?_eq_some_iff.2 h]
      rfl
  · next hm =>
      refine checkMethod_of_not_disposes fun hdisposes => hm ?_
      exact ⟨hdisposes.name, hdisposes.returns, hdisposes.params,
        hdisposes.notStatic⟩

end Inspection

/-- The rule for debug lines decides what `Inspection.Judged` says, and code
behind the first write does not count: whatever it calls, as long as it makes
the same indices up to the write join points, the verdict is the same. -/
theorem debug_line_decided (i : Inspection) :
    (∀ m cache finding, (i.checkMethod .debugLine m cache).1 = finding ↔
        i.Judged m cache finding) ∧
      ∀ (m : Method) (cache : Cache) (b b' : Body) (site position : Nat),
        i.WritesFirst b site position → b.SameUpTo site b' →
          (i.checkMethod .debugLine { m with body := some b' } cache).1 =
            (i.checkMethod .debugLine { m with body := some b } cache).1 := by
  refine ⟨fun m cache finding => ⟨?_, Inspection.Judged.eq_checkMethod⟩, ?_⟩
  · rintro rfl
    exact i.judged_checkMethod m cache
  · intro m cache b b' site position hfirst hsame
    rw [Inspection.checkMethod_of_writesFirst hfirst,
      Inspection.checkMethod_of_writesFirst (hfirst.transfer hsame),
      hsame.resolveArgument_eq]

def writeLineIf : Code.Target :=
  ⟨"System.Diagnostics.Debug", "WriteLineIf",
    ["System.Boolean", "System.String"], "System.Void", false⟩

/-- A debug line of the wrong text in a loop, with one of the right text behind
it. -/
def lateWarning : Body where
  code := #[
    ⟨0, 1, .plain 0 0x03 "ldarg.1" .none 0 1, .argument 1⟩,
    ⟨1, 5, .literal 0 0x72 "ldstr" .token, .string "Disposing"⟩,
    ⟨6, 5, .call 0 0x28 "call", .call writeLineIf⟩,
    ⟨11, 1, .plain 0 0x03 "ldarg.1" .none 0 1, .argument 1⟩,
    ⟨12, 5, .literal 0 0x72 "ldstr" .token, .string "Missing Dispose() call"⟩,
    ⟨17, 5, .call 0 0x28 "call", .call writeLineIf⟩,
    ⟨22, 1, .plain 0 0x03 "ldarg.1" .none 0 1, .argument 1⟩,
    ⟨23, 5, .branch 0 0x3A "brtrue" .target 1, .target 0⟩,
    ⟨28, 1, ⟨0, 0x2A, "ret", .none, .other, .return, .unknown⟩, .none⟩]
  locals := #[]

/-- The same loop without the second line. -/
def noWarning : Body where
  code := lateWarning.code.extract 0 3 ++ #[
    ⟨11, 1, .plain 0 0x03 "ldarg.1" .none 0 1, .argument 1⟩,
    ⟨12, 5, .branch 0 0x3A "brtrue" .target 1, .target 0⟩,
    ⟨17, 1, ⟨0, 0x2A, "ret", .none, .other, .return, .unknown⟩, .none⟩]
  locals := #[]

def lateMethod : Method := { warningMethod with body := some lateWarning }

theorem lateWarning_writesFirst :
    warningInspection.WritesFirst lateWarning 2 1 :=
  Inspection.diagnosticCall?_eq_some_iff.1 (by decide)

theorem lateWarning_sameUpTo : lateWarning.SameUpTo 2 noWarning :=
  ⟨by decide +kernel, by decide +kernel⟩

/-- The first line fails the method, at its place, whether the right line
follows or not, and although both bodies branch back in front of it. -/
theorem debug_line_decided_lateWarning :
    lateWarning.isJoinPoint 0 = true ∧
      (warningInspection.checkMethod .debugLine lateMethod {}).1 =
        .failure ⟨"EnsureMissDispStatement", lateMethod.reportName, some 2,
          .medium, .normal⟩ ∧
      (warningInspection.checkMethod .debugLine
        { lateMethod with body := some noWarning } {}).1 =
        .failure ⟨"EnsureMissDispStatement", lateMethod.reportName, some 2,
          .medium, .normal⟩ := by
  have hdisposes : lateMethod.Disposes := Method.isChecked_iff.1 (by decide)
  have hbuilds : warningInspection.IsInDebugBuilds lateMethod :=
    warning_inDebugBuilds
  have hresolved :
      (resolveArgument warningInspection.limits warningInspection.assembly
        lateWarning
      2 1 {}).1 = .resolved "Disposing" := by decide +kernel
  have hrefused : warningInspection.convention.accepts "Disposing" = false := by
    rw [← Bool.not_eq_true, Convention.accepts, Bool.and_eq_true,
      Lowercase.containsIgnoringCase_iff (by decide) (by decide),
      OccursIgnoringAsciiCase]
    decide
  have hlate : (warningInspection.checkMethod .debugLine lateMethod {}).1 =
      .failure ⟨"EnsureMissDispStatement", lateMethod.reportName, some 2,
        .medium, .normal⟩ := by
    refine ((debug_line_decided warningInspection).1 lateMethod {} _).2 ?_
    refine .otherText hdisposes hbuilds rfl lateWarning_writesFirst
      fun text htext => ?_
    obtain rfl := Resolution.resolved.inj (hresolved.symm.trans htext)
    exact hrefused
  refine ⟨by decide +kernel, hlate, ?_⟩
  rw [(debug_line_decided warningInspection).2 lateMethod
    {} lateWarning noWarning 2 1 lateWarning_writesFirst lateWarning_sameUpTo]
  exact hlate

end CilAudit
