import CilAudit.Proofs.Execution
import CilAudit.Rule.Check

/-!
# A method that passes writes its debug line

The rule for debug lines reads a method's code, and succeeds on what the tracer
tells it. Whoever runs the method sees something else: a string on the stack of
a call. Between the two lie the choice of the call and of its parameter, the
tracer, which may know only the front of the string, and a comparison that
folds case. None of them may make more of the text than is there.

Folding is where it could go wrong. The full lower-case mapping takes some
letters of other alphabets to ASCII ones, so a text may be accepted that does
not contain the required one even when the case of ASCII letters is ignored.
Among ASCII texts there is no such letter (`Letter.lower_eq_toLower`), and then
the comparison is the plain one, which goes on holding whatever is appended to
the text.
-/

namespace CilAudit

open Code (Body Instruction)

/-! ## Case -/

def IsAscii (text : String) : Prop := ∀ c ∈ text.toList, c.toNat < 128

instance (text : String) : Decidable (IsAscii text) :=
  List.decidableBAll (fun c : Char => c.toNat < 128) text.toList

/-- One text occurs in another when the case of ASCII letters is ignored. This
is the reading of the convention that needs no table of letters. -/
def OccursIgnoringAsciiCase (part text : String) : Prop :=
  part.toList.map Char.toLower <:+: text.toList.map Char.toLower

theorem OccursIgnoringAsciiCase.append {part text : String}
    (h : OccursIgnoringAsciiCase part text) (rest : String) :
    OccursIgnoringAsciiCase part (text ++ rest) := by
  rw [OccursIgnoringAsciiCase, String.toList_append, List.map_append]
  exact h.trans (List.prefix_append _ _).isInfix

namespace Letter

/-- The first run of the mapping is that of the ASCII letters; the others start
behind ASCII. So the table need not be looked at any further. -/
theorem lowerRuns_ascii :
    ∃ rest : List Run, lowerRuns.toList = ⟨0x41, 0x5A, 1, 32⟩ :: rest ∧
      ∀ r ∈ rest, 128 ≤ r.first :=
  ⟨_, rfl, by decide +kernel⟩

theorem lower_eq_toLower {c : Char} (h : c.toNat < 128) :
    lower c = c.toLower := by
  obtain ⟨rest, hruns, hrest⟩ := lowerRuns_ascii
  unfold lower
  rw [← Array.find?_toList, hruns]
  by_cases hupper : 65 ≤ c.toNat ∧ c.toNat ≤ 90
  · have hall : ∀ n < 91, 65 ≤ n →
        Char.ofNat (n + 32) = (Char.ofNat n).toLower := by
      decide +kernel
    have hc := hall c.toNat (by omega) hupper.1
    rw [List.find?_cons_of_pos (by simp [Run.covers, hupper, Nat.mod_one])]
    rwa [Char.ofNat_toNat] at hc
  · have hnone : rest.find? (·.covers c.toNat) = none := by
      refine List.find?_eq_none.2 fun r hr hcovers => ?_
      simp only [Run.covers, Bool.and_eq_true, decide_eq_true_eq] at hcovers
      have := hrest r hr
      omega
    have hsame : c.toLower = c := dif_neg hupper
    rw [List.find?_cons_of_neg (by simp [Run.covers, hupper]), hnone, hsame]

end Letter

namespace Lowercase

theorem lowerFrom_of_ascii {text : List Char} (h : ∀ c ∈ text, c.toNat < 128)
    (before : List Char) : lowerFrom before text = text.map Char.toLower := by
  induction text generalizing before with
  | nil => rfl
  | cons c text ih =>
      obtain ⟨hc, htext⟩ := List.forall_mem_cons.1 h
      have hdotted : c ≠ '\u0130' := by
        rintro rfl
        exact absurd hc (by decide)
      have hsigma : c ≠ '\u03A3' := by
        rintro rfl
        exact absurd hc (by decide)
      rw [lowerFrom, lowerAt, if_neg hdotted, if_neg hsigma,
        Letter.lower_eq_toLower hc, ih htext]
      rfl

theorem occursIn_iff {part text : List Char} :
    occursIn part text = true ↔ part <:+: text := by
  induction text with
  | nil => rw [occursIn, List.isEmpty_iff, List.infix_nil]
  | cons c text ih =>
      rw [occursIn, Bool.or_eq_true, List.isPrefixOf_iff_prefix, ih,
      List.infix_cons_iff]

/-- Among ASCII texts, ignoring case is ignoring the case of ASCII letters.
Letters whose lower case depends on their neighbours are not among them. -/
theorem containsIgnoringCase_iff {text part : String} (htext : IsAscii text)
    (hpart : IsAscii part) :
    containsIgnoringCase text part = true ↔
    OccursIgnoringAsciiCase part text := by
  rw [containsIgnoringCase, occursIn_iff, lower, lower, String.toList_ofList,
    String.toList_ofList, lowerFrom_of_ascii htext, lowerFrom_of_ascii hpart,
    OccursIgnoringAsciiCase]

end Lowercase

/-! ## Where the text comes from -/

/-- A text that the code of a body pushes as it is, or has a resource class
look up. Traces end at no others, so what holds of these texts holds of every
answer. -/
def TextOf (a : Assembly) (body : Body) (text : String) : Prop :=
  ∃ i ∈ body.code, i.literal? = some text ∨
    ∃ target declaringType key, i.callTarget? = some target ∧
      a.shapeOf .debugWriteLineIf target = .resourceAccessor declaringType key ∧
      a.text? declaringType key = some text

/-- A trail ends at a text of the body. -/
theorem Route.Trail.textOf {limits : Limits} {a : Assembly} {body : Body}
    {start need : Nat} {path : List Hop} {o : Origin} {text : String}
    (h : (Route.ofLimits limits a body).Trail start need path o)
    (ho : o.text? a = some text) :
    TextOf a body text := by
  induction h with
  | found _ hf =>
      cases hf with
      | literal hi hlit =>
          obtain rfl := Option.some.inj ho
          exact ⟨_, Array.mem_of_getElem? hi, .inl hlit⟩
      | resource hi hcall hshape =>
          exact ⟨_, Array.mem_of_getElem? hi, .inr ⟨_, _, _, hcall, hshape, ho⟩⟩
  | hop _ _ _ ih => exact ih ho

theorem eq_resolved_of_text? {r : Resolution} {text : String}
    (h : r.text? = some text) :
    r = .resolved text := by
  cases r with
  | resolved t => rw [Option.some.inj h]
  | unresolved => cases h

/-! ## What the rule looks at -/

namespace Inspection

variable {i : Inspection} {rule : MethodRule} {m : Method} {cache : Cache}
  {body : Body}

/-- A method without conditions, or with one that holds in debug builds. Of
several conditions one is enough. -/
def IsInDebugBuilds (i : Inspection) (m : Method) : Prop :=
  (∀ a ∈ m.attributes, a.typeName ≠ TypeName.conditionalAttribute) ∨
    ∃ a ∈ m.attributes, a.typeName = TypeName.conditionalAttribute ∧
      ∃ symbol ∈ i.convention.debugSymbols, a.firstString? = some symbol

theorem isReleaseOnly_eq_false_iff :
    i.isReleaseOnly m = false ↔ i.IsInDebugBuilds m := by
  unfold isReleaseOnly IsInDebugBuilds
  dsimp only
  rw [Bool.and_eq_false_iff, Bool.not_eq_false', Bool.not_eq_false',
    List.isEmpty_iff, List.any_eq_true]
  simp only [Method.attributesOf, List.filter_eq_nil_iff, List.mem_filter,
    beq_iff_eq, Option.any_eq_true, Convention.isDebugSymbol,
    List.contains_iff_mem]
  refine or_congr Iff.rfl ⟨?_, ?_⟩
  · rintro ⟨a, ⟨ha, hname⟩, symbol, hfirst, hsymbol⟩
    exact ⟨a, ha, hname, symbol, hsymbol, hfirst⟩
  · rintro ⟨a, ha, hname, symbol, hsymbol, hfirst⟩
    exact ⟨a, ⟨ha, hname⟩, symbol, hfirst, hsymbol⟩

/-- The call that is checked writes diagnostics, and its first string parameter
is looked at. -/
theorem target_of_diagnosticCall? {site position : Nat}
    (h : i.diagnosticCall? body = some (site, position)) :
    ∃ target, body.callTarget? site = some target ∧
      i.assembly.shapeOf i.convention.diagnostic target = .diagnosticWrite ∧
      target.params.idxOf? TypeName.string = some position := by
  obtain ⟨⟨instruction, index⟩, hmem, hsome⟩ :=
    List.exists_of_findSome?_eq_some h
  obtain ⟨position', hposition, hpair⟩ := Option.map_eq_some_iff.1 hsome
  obtain ⟨rfl, rfl⟩ := Prod.mk.inj hpair
  have hget : body.get? index = some instruction := by
    rw [Body.get?, ← Array.getElem?_toList]
    exact List.mem_zipIdx_iff_getElem?.1 hmem
  obtain ⟨target, htarget, hshape⟩ := Option.bind_eq_some_iff.1 hposition
  split at hshape
  · next hwrites =>
      refine ⟨target, ?_, hwrites, hshape⟩
      rw [Body.callTarget?, hget, Option.bind_some, htarget]
  · cases hshape

/-- A method that is in debug builds passes exactly with a text that the tracer
finds and the convention accepts. What the rule does besides is to look whether
it has to. -/
theorem outcome_eq_success_iff (hbuilds : i.IsInDebugBuilds m) :
    (i.checkMethod rule m cache).1.outcome = .success ↔
      i.coversMethod rule m = true ∧
        ∃ body site position text, m.body = some body ∧ body.hasCalls = true ∧
          i.diagnosticCall? body = some (site, position) ∧
          (resolveArgument i.limits i.assembly body site position cache).1 =
            .resolved text ∧
          i.convention.accepts text = true := by
  unfold checkMethod checkDebugLine
  rw [isReleaseOnly_eq_false_iff.2 hbuilds]
  constructor
  · intro h
    split at h
    · next hcovers =>
        refine ⟨hcovers, ?_⟩
        split at h
        · cases h
        · next body hbody =>
            rw [if_neg Bool.false_ne_true] at h
            split at h
            · cases h
            · next hcalls =>
                split at h
                · cases h
                · next site position hcall =>
                    dsimp only at h
                    split at h
                    · next haccepts =>
                        obtain ⟨text, htext, haccept⟩ :=
                          (Option.any_eq_true ..).1 haccepts
                        refine ⟨body, site, position, text, hbody, ?_, hcall,
                          eq_resolved_of_text? htext, haccept⟩
                        simpa using hcalls
                    · cases h
    · cases h
  · rintro ⟨hcovers, body, site, position, text, hbody, hcalls, hcall,
      hresolved, haccepts⟩
    rw [if_pos hcovers, hbody]
    dsimp only
    rw [if_neg Bool.false_ne_true, hcalls, Bool.not_true,
      if_neg Bool.false_ne_true, hcall]
    dsimp only
    rw [hresolved, Resolution.text?, Option.any_some, haccepts, if_pos rfl]
    rfl

end Inspection

/-- No method passes by mistake. A method that is in debug builds and passes
has a call that writes diagnostics, and every run of the method that comes to
the call passes it, as its first string, one that contains the required
text. -/
theorem debug_line_of_success (i : Inspection) (rule : MethodRule) (m : Method)
    (cache : Cache)
    (hhalt : i.limits.haltAtJoins = true) (hcache : cache.FilledFor i.assembly)
    (hrequired : IsAscii i.convention.requiredText)
    (htexts : ∀ body, m.body = some body → ∀ text, TextOf i.assembly body text →
      IsAscii text)
    (hbuilds : i.IsInDebugBuilds m)
    (h : (i.checkMethod rule m cache).1.outcome = .success) :
    ∃ body site target position, m.body = some body ∧
      body.callTarget? site = some target ∧
      i.assembly.shapeOf i.convention.diagnostic target = .diagnosticWrite ∧
      target.params.idxOf? TypeName.string = some position ∧
      ∀ (ω : Type) (machine : Machine ω),
        Reached .untilStore i.assembly body machine →
        machine.pc = site →
          ∃ s, machine.stack[target.params.length - 1 - position]? =
            some (.text s) ∧ s ≠ "" ∧
            OccursIgnoringAsciiCase i.convention.requiredText s := by
  obtain ⟨-, body, site, position, text, hbody, -, hcall, hresolved,
    haccepts⟩ :=
    (Inspection.outcome_eq_success_iff hbuilds).1 h
  obtain ⟨target, htarget, hshape, hposition⟩ :=
    Inspection.target_of_diagnosticCall? hcall
  obtain ⟨target', o, htarget', -, horigin, ho⟩ :=
    (resolved_iff hcache).1 hresolved
  obtain rfl := Option.some.inj (htarget.symm.trans htarget')
  obtain ⟨path, htrail⟩ := Route.trail_of_origin horigin
  -- The traced text is ASCII, but what a run appends to it need not be.
  have hascii : IsAscii text := htexts body hbody text (htrail.textOf ho)
  obtain ⟨hne, hcontains⟩ :
      text ≠ "" ∧ OccursIgnoringAsciiCase i.convention.requiredText text := by
    rw [Convention.accepts, Bool.and_eq_true, bne_iff_ne,
      Lowercase.containsIgnoringCase_iff hascii hrequired] at haccepts
    exact haccepts
  refine ⟨body, site, target, position, hbody, htarget, hshape, hposition, ?_⟩
  intro ω machine hreached hpc
  obtain ⟨s, hs, ⟨rest, rfl⟩, -⟩ := htrail.sound hhalt ho hreached hpc
  refine ⟨text ++ rest, hs, ?_, hcontains.append rest⟩
  intro hempty
  exact hne (String.append_eq_empty_iff.1 hempty).1

/-- A debug line that begins with the required text and goes on with what the
run supplies. -/
def warningBody : Body where
  code := #[
    ⟨0, 1, .plain 0 0x03 "ldarg.1" .none 0 1, .argument 1⟩,
    ⟨1, 5, .literal 0 0x72 "ldstr" .token, .string "Missing DISPOSE() of "⟩,
    ⟨6, 1, .plain 0 0x02 "ldarg.0" .none 0 1, .argument 0⟩,
    ⟨7, 5, .call 0 0x28 "call", .call ⟨"System.String", "Concat",
      ["System.String", "System.Object"], "System.String", false⟩⟩,
    ⟨12, 5, .call 0 0x28 "call",
      .call ⟨"System.Diagnostics.Debug", "WriteLineIf",
        ["System.Boolean", "System.String"], "System.Void", false⟩⟩,
    ⟨17, 1, ⟨0, 0x2A, "ret", .none, .other, .return, .unknown⟩, .none⟩]
  locals := #[]

theorem assemble_warning :
    Body.assemble
        [.ldarg 1, .ldstr "Missing DISPOSE() of ", .ldarg 0,
          .call ⟨"System.String", "Concat", ["System.String", "System.Object"],
            "System.String", false⟩,
          .call ⟨"System.Diagnostics.Debug", "WriteLineIf",
            ["System.Boolean", "System.String"], "System.Void", false⟩,
          .ret] = .ok warningBody := rfl

def warningMethod : Method where
  name := "Dispose"
  declaringType := "Widget"
  params := ["System.Boolean"]
  body := some warningBody
  attributes := [.conditional "RELEASE", .conditional "DEBUG"]

def warningInspection : Inspection := { assembly := ⟨"Sample", [], ∅⟩ }

theorem warning_inDebugBuilds :
    warningInspection.IsInDebugBuilds warningMethod :=
  .inr ⟨.conditional "DEBUG", by decide, rfl, "DEBUG", by decide, rfl⟩

theorem warning_passes :
    (warningInspection.checkMethod .debugLine warningMethod {}).1.outcome =
      .success := by
  have hresolved :
      (resolveArgument warningInspection.limits warningInspection.assembly
        warningBody
      4 1 {}).1 = .resolved "Missing DISPOSE() of " := by decide +kernel
  have haccepts : warningInspection.convention.accepts "Missing DISPOSE() of " =
      true := by
    rw [Convention.accepts, Bool.and_eq_true, bne_iff_ne,
      Lowercase.containsIgnoringCase_iff (by decide) (by decide),
      OccursIgnoringAsciiCase]
    exact ⟨by decide, by decide⟩
  exact (Inspection.outcome_eq_success_iff warning_inDebugBuilds).2
    ⟨by decide, warningBody, 4, 1, _, rfl, by decide +kernel, by decide,
      hresolved, haccepts⟩

theorem warning_ascii {text : String}
    (h : TextOf warningInspection.assembly warningBody text) :
    IsAscii text := by
  have hliterals : ∀ i ∈ warningBody.code, ∀ text ∈ i.literal?,
      IsAscii text := by decide +kernel
  have hshapes : ∀ i ∈ warningBody.code, ∀ target ∈ i.callTarget?,
      warningInspection.assembly.shapeOf .debugWriteLineIf target =
        .concatenation ∨
        warningInspection.assembly.shapeOf .debugWriteLineIf target =
          .diagnosticWrite := by
    decide +kernel
  obtain ⟨i, hi, hliteral | ⟨target, declaringType, key, hcall, hshape, -⟩⟩ := h
  · exact hliterals i hi text hliteral
  · rcases hshapes i hi target hcall with h | h <;> cases h.symm.trans hshape

/-- A run comes to the write. -/
theorem warning_reached :
    ∃ machine : Machine Unit,
      Reached .untilStore warningInspection.assembly warningBody machine ∧
      machine.pc = 4 := by
  let blank : UInt16 → Datum Unit := fun _ => .other ()
  have h0 : Reached .untilStore warningInspection.assembly warningBody
      (⟨0, [], blank, fun _ => False⟩ : Machine Unit) := .start blank
  have h1 := h0.advance (e := ⟨0, 1⟩) rfl rfl (by decide) [.other ()] rfl
    (List.forall_mem_singleton.2 (.of_other rfl)) blank (fun _ => rfl)
  have h2 := h1.advance (e := ⟨0, 1⟩) rfl rfl (by decide)
    [.text "Missing DISPOSE() of "] rfl
      (List.forall_mem_singleton.2 (.of_literal? rfl)) blank (fun _ => rfl)
  have h3 := h2.advance (e := ⟨0, 1⟩) rfl rfl (by decide) [.other ()] rfl
    (List.forall_mem_singleton.2 (.of_other rfl)) blank (fun _ => rfl)
  have h4 := h3.advance (e := ⟨2, 1⟩) rfl rfl (by decide)
    [.text "Missing DISPOSE() of Widget"] rfl
    (List.forall_mem_singleton.2 (.of_callTarget? rfl
      ⟨_, rfl, fun t ht => ⟨"Widget", by cases ht; rfl⟩⟩)) blank (fun _ => rfl)
  exact ⟨_, h4, rfl⟩

theorem debug_line_of_success_warning :
    (∃ statements, Body.assemble statements = .ok warningBody) ∧
      (warningInspection.checkMethod .debugLine warningMethod {}).1.outcome =
        .success ∧
      ∃ machine : Machine Unit,
        Reached .untilStore warningInspection.assembly warningBody machine ∧
        machine.pc = 4 ∧
          ∃ s, machine.stack[0]? = some (.text s) ∧ s ≠ "" ∧
            OccursIgnoringAsciiCase "missing dispose" s := by
  obtain ⟨body, site, target, position, hbody, htarget, hshape, hposition,
    hwrites⟩ :=
    debug_line_of_success warningInspection .debugLine warningMethod
      {} rfl .empty (by decide) (fun body hbody text htext =>
        warning_ascii (Option.some.inj hbody ▸ htext))
      warning_inDebugBuilds warning_passes
  obtain rfl := Option.some.inj hbody
  -- There is only one write in the body.
  obtain rfl : site = 4 := by
    have hone : ∀ k < 6, ∀ target ∈ warningBody.callTarget? k,
        warningInspection.assembly.shapeOf .debugWriteLineIf target =
          .diagnosticWrite → k = 4 := by
      decide +kernel
    obtain ⟨i, hi, -⟩ := Option.bind_eq_some_iff.1 htarget
    exact hone site (Array.getElem?_eq_some_iff.1 hi).1 target htarget hshape
  obtain rfl : target = _ := Option.some.inj (htarget.symm.trans rfl)
  obtain rfl : position = 1 := Option.some.inj (hposition.symm.trans rfl)
  obtain ⟨machine, hreached, hpc⟩ := warning_reached
  exact ⟨⟨_, assemble_warning⟩, warning_passes, machine, hreached, hpc,
    hwrites Unit machine hreached hpc⟩

end CilAudit
