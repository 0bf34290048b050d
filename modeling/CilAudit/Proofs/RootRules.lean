import CilAudit.Proofs.DisposableRoot
import CilAudit.Rule.Check

/-!
# The rules about roots

Two rules check all disposable types, and two more ask the same of the roots of
disposable hierarchies only. The narrower rules reach the shared checks through
guards of their own: a root test in place of the interface search, a look-up of
the declaring type by name, a method that must be there. So that they restrict
the wider ones is a matter of their guards: whatever a narrower rule covers,
the wider one covers too (`covers_rootFinalizer_iff`,
`coversMethod_rootDebugLine_iff`), and behind the guards the two differ in
nothing but the name on a defect (`checkFinalizer_under`,
`checkDebugLine_under`).

A root is found in two ways, and that is one too many. The class at which a
chain becomes disposable is unique (`IsBaseChain.becomes_unique`). But a class
right below the window library is a root whatever stands around it, because its
base cannot be asked, and for the same reason it does not count as disposable
unless it lists the interface itself. A class below it that lists the interface
again then becomes disposable for all the search can see, and is a second root.
The chains where this cannot happen are those in `WindowsAlone`.
-/

namespace CilAudit

open Code (Signature)

namespace Assembly

variable {a : Assembly} {t : TypeDef}

/-- A type that implements the interface of disposable things while none of its
bases does. Without the window library this is what a root is. -/
def BecomesDisposable (a : Assembly) (t : TypeDef) : Prop :=
  a.implements t TypeName.disposable = true ∧
    ∀ b ∈ a.baseTypes t, a.implements b TypeName.disposable = false

theorem isDisposableRoot_iff_cases :
    a.isDisposableRoot t = true ↔
      t.isInterface = false ∧ (isWindow t = true ∨ a.BecomesDisposable t) := by
  simp [isDisposableRoot, BecomesDisposable]

end Assembly

/-! ## What the rules cover -/

/-- A finding with its defect, if any, under the name of another rule. Two
rules that agree up to this differ in nothing but their names. -/
def Finding.under (rule : String) (f : Finding) : Finding :=
  { f with defect := f.defect.map fun d => { d with rule } }

theorem TypeDef.isChecked_iff {t : TypeDef} :
    t.isChecked = true ↔
      (t.flavor = .classType ∨ t.flavor = .interface) ∧
      t.isGenerated = false := by
  unfold isChecked
  cases t.flavor <;> simp

theorem TypeRule.checkFinalizer_ne_doesNotApply (rule : TypeRule)
    (t : TypeDef) :
    (rule.checkFinalizer t).outcome ≠ .doesNotApply := by
  unfold checkFinalizer
  split <;> simp [Finding.success, Finding.failure]

theorem TypeRule.checkFinalizer_under (rule rule' : TypeRule) (t : TypeDef) :
    rule'.checkFinalizer t = (rule.checkFinalizer t).under rule'.id := by
  unfold checkFinalizer
  split <;> rfl

namespace Inspection

variable {i : Inspection} {t : TypeDef} {m : Method} {cache : Cache}

theorem checkType_applies_iff {rule : TypeRule} :
    (i.checkType rule t).outcome ≠ .doesNotApply ↔ i.covers rule t = true := by
  unfold checkType
  split
  · next h => simpa [h] using rule.checkFinalizer_ne_doesNotApply t
  · next h => simp [h, Finding.doesNotApply]

theorem checkDebugLine_ne_doesNotApply (rule : MethodRule)
    (hbody : m.hasBody = true) :
    (i.checkDebugLine rule m cache).1.outcome ≠ .doesNotApply := by
  unfold checkDebugLine
  cases hm : m.body with
  | none => simp [Method.hasBody, hm] at hbody
  | some body =>
      dsimp only
      repeat' split
      all_goals simp [Finding.success, Finding.failure]

theorem checkDebugLine_under (i : Inspection) (rule rule' : MethodRule)
    (m : Method) (cache : Cache) :
    i.checkDebugLine rule' m cache =
      ((i.checkDebugLine rule m cache).1.under rule'.id,
        (i.checkDebugLine rule m cache).2) := by
  unfold checkDebugLine
  dsimp only
  repeat' split
  all_goals rfl

theorem checkMethod_applies_iff {rule : MethodRule} :
    (i.checkMethod rule m cache).1.outcome ≠ .doesNotApply ↔
    i.coversMethod rule m = true := by
  unfold checkMethod
  split
  · next h =>
      have hbody : m.hasBody = true := by
        simp only [coversMethod, Method.isChecked, Bool.and_eq_true] at h
        exact h.1.1.2
      simpa [h] using checkDebugLine_ne_doesNotApply rule hbody
  · next h => simp [h, Finding.doesNotApply]

theorem coversMethod_rootDebugLine_iff :
    i.coversMethod .rootDebugLine m = true ↔
    i.coversMethod .debugLine m = true ∧
      ∃ owner, i.assembly.type? m.declaringType = some owner ∧
        i.assembly.isDisposableRoot owner = true := by
  simp [coversMethod, Option.any_eq_true]

theorem covers_rootFinalizer :
    i.covers .rootFinalizer t = true ↔ t.isChecked = true ∧
      i.assembly.isDisposableRoot t = true ∧
      t.hasMethod Signature.disposeBool = true := by
  simp [covers]

/-- Away from the window library a root is disposable, so the narrower type
rule covers what the wider one does in roots that can dispose. -/
theorem covers_rootFinalizer_iff (hwindow : Assembly.isWindow t = false) :
    i.covers .rootFinalizer t = true ↔ i.covers .finalizer t = true ∧
      i.assembly.isDisposableRoot t = true ∧
      t.hasMethod Signature.disposeBool = true := by
  have hdisposable : i.assembly.isDisposableRoot t = true →
      i.assembly.implements t TypeName.disposable = true := by
    intro hroot
    rcases (Assembly.isDisposableRoot_iff_cases.1 hroot).2 with h | h
    · rw [hwindow] at h
      cases h
    · exact h.1
  rw [covers_rootFinalizer, covers, Bool.and_eq_true]
  constructor
  · rintro ⟨hchecked, hroot, hmethod⟩
    exact ⟨⟨hchecked, hdisposable hroot⟩, hroot, hmethod⟩
  · rintro ⟨⟨hchecked, -⟩, hroot, hmethod⟩
    exact ⟨hchecked, hroot, hmethod⟩

end Inspection

/-! ## Panels -/

namespace Assembly

variable {a : Assembly} {t : TypeDef} {interface : String}

theorem implements_of_lists (ht : a.IsLatest t) (h : t.lists interface = true) :
    a.implements t interface = true :=
  (implements_iff ht).2 ⟨t, List.mem_cons_self .., t, .refl, h⟩

theorem implements_iff_lists (ht : a.IsLatest t) (hbases : a.baseTypes t = [])
    (hinterfaces : a.declaredInterfaces t = []) :
    a.implements t interface = true ↔ t.lists interface = true := by
  refine ⟨?_, implements_of_lists ht⟩
  rw [implements_iff ht, hbases]
  intro h
  obtain ⟨b, hb, goal, hreach, hlists⟩ := h
  rw [List.mem_singleton] at hb
  subst hb
  rcases hreach.cases_head with rfl | ⟨u, hu, -⟩
  · exact hlists
  · rw [hinterfaces] at hu
    cases hu

end Assembly

def quietDispose (declaringType : String) : Method where
  name := "Dispose"
  declaringType := declaringType
  params := ["System.Boolean"]
  body :=
    some ⟨#[⟨0, 1, ⟨0, 0x2A, "ret", .none, .other, .return, .unknown⟩, .none⟩],
      #[]⟩

/-- A panel right below the window library that lists some interfaces, and a
list panel below it that lists the interface of disposable things. Both dispose
without a debug line. -/
def panelTypes (interfaces : List String) : List TypeDef := [
  { space := "Sample", name := "Panel",
    base := some "System.Windows.Forms.Panel", interfaces := interfaces,
    methods := [quietDispose "Sample.Panel"] },
  { space := "Sample", name := "ListPanel", base := some "Sample.Panel",
    interfaces := ["System.IDisposable"], methods :=
    [quietDispose "Sample.ListPanel"] }]

def panelInspection (interfaces : List String) : Inspection where
  assembly := { name := "Sample", types := panelTypes interfaces }

theorem listPanel_becomes :
    (panelInspection []).assembly.BecomesDisposable (panelTypes [])[1] := by
  have hlatest : ∀ t ∈ panelTypes [],
      (panelInspection []).assembly.IsLatest t :=
    fun t ht => Assembly.isLatest_of_nodup (by decide) ht
  refine ⟨Assembly.implements_of_lists (hlatest _ (by decide)) (by decide), ?_⟩
  rw [show (panelInspection []).assembly.baseTypes (panelTypes [])[1] =
    [(panelTypes [])[0]] by
    decide +kernel, List.forall_mem_singleton, Bool.eq_false_iff, ne_eq,
    Assembly.implements_iff_lists (hlatest _ (by decide)) (by decide +kernel)
      (by decide)]
  decide

/-! ## Narrower and wider rules -/

/-- The narrower rules restrict the wider ones. Where the debug-line rule for
roots applies, which is where the wider one does and the declaring type is a
root, it finds the same up to its name. Away from the window library the
finalizer rule for roots is related to the wider one in the same way. And it
applies to classes only, none of them generated. -/
theorem root_rules_restrict (i : Inspection) :
    (∀ (m : Method) (cache : Cache),
      ((i.checkMethod .rootDebugLine m cache).1.outcome ≠ .doesNotApply ↔
        (i.checkMethod .debugLine m cache).1.outcome ≠ .doesNotApply ∧
          ∃ owner, i.assembly.type? m.declaringType = some owner ∧
            i.assembly.isDisposableRoot owner = true) ∧
      ((i.checkMethod .rootDebugLine m cache).1.outcome ≠ .doesNotApply →
        i.checkMethod .rootDebugLine m cache =
          ((i.checkMethod .debugLine m cache).1.under
            MethodRule.rootDebugLine.id,
            (i.checkMethod .debugLine m cache).2))) ∧
    (∀ t : TypeDef, Assembly.isWindow t = false →
      ((i.checkType .rootFinalizer t).outcome ≠ .doesNotApply ↔
        (i.checkType .finalizer t).outcome ≠ .doesNotApply ∧
          i.assembly.isDisposableRoot t = true ∧
          t.hasMethod Signature.disposeBool = true) ∧
      ((i.checkType .rootFinalizer t).outcome ≠ .doesNotApply →
        i.checkType .rootFinalizer t =
          (i.checkType .finalizer t).under TypeRule.rootFinalizer.id)) ∧
    ∀ t : TypeDef, (i.checkType .rootFinalizer t).outcome ≠ .doesNotApply →
      t.flavor = .classType ∧ t.isGenerated = false := by
  refine ⟨?_, ?_, ?_⟩
  · intro m cache
    rw [Inspection.checkMethod_applies_iff, Inspection.checkMethod_applies_iff,
      Inspection.coversMethod_rootDebugLine_iff]
    refine ⟨Iff.rfl, ?_⟩
    intro h
    have hroot := Inspection.coversMethod_rootDebugLine_iff.2 h
    rw [Inspection.checkMethod, Inspection.checkMethod, if_pos hroot,
      if_pos h.1]
    exact i.checkDebugLine_under .debugLine .rootDebugLine m cache
  · intro t hwindow
    rw [Inspection.checkType_applies_iff, Inspection.checkType_applies_iff,
      Inspection.covers_rootFinalizer_iff hwindow]
    refine ⟨Iff.rfl, ?_⟩
    intro h
    have hroot := (Inspection.covers_rootFinalizer_iff hwindow).2 h
    rw [Inspection.checkType, Inspection.checkType, if_pos hroot, if_pos h.1]
    exact TypeRule.checkFinalizer_under .finalizer .rootFinalizer t
  · intro t happlies
    obtain ⟨hchecked, hroot, -⟩ :=
      Inspection.covers_rootFinalizer.1
        (Inspection.checkType_applies_iff.1 happlies)
    obtain ⟨hflavor, hgenerated⟩ := TypeDef.isChecked_iff.1 hchecked
    refine ⟨hflavor.resolve_right ?_, hgenerated⟩
    intro hinterface
    have hclass := (Assembly.isDisposableRoot_iff_cases.1 hroot).1
    rw [TypeDef.isInterface, hinterface] at hclass
    cases hclass

theorem root_rules_restrict_listPanel :
    (panelTypes [])[1].flavor = .classType ∧
      (panelInspection []).checkType .rootFinalizer (panelTypes [])[1] =
        .failure ⟨"EnsureDebugDisposeFinalizer", "Sample.ListPanel", none,
          .medium, .high⟩ ∧
      ((panelInspection []).checkMethod .rootDebugLine
        (quietDispose "Sample.ListPanel") {}).1 =
        .failure ⟨"EnsureDebugDisposeMissDispStatement",
          "Sample.ListPanel::Dispose(System.Boolean)", none, .medium,
            .high⟩ := by
  obtain ⟨hmethods, htypes, hkinds⟩ := root_rules_restrict (panelInspection [])
  have hroot : (panelInspection []).assembly.isDisposableRoot
      (panelTypes [])[1] = true :=
    Assembly.isDisposableRoot_iff_cases.2 ⟨by decide, Or.inr listPanel_becomes⟩
  have hcovers : (panelInspection []).covers .finalizer (panelTypes [])[1] =
      true :=
    Bool.and_eq_true_iff.2 ⟨by decide, listPanel_becomes.1⟩
  have htype := htypes (panelTypes [])[1] (by decide)
  have happlies := htype.1.2
    ⟨Inspection.checkType_applies_iff.2 hcovers, hroot, by decide⟩
  have hmethod := hmethods (quietDispose "Sample.ListPanel") {}
  have happlies' :=
    hmethod.1.2 ⟨by decide +kernel, (panelTypes [])[1], by decide, hroot⟩
  refine ⟨(hkinds _ happlies).1, ?_, ?_⟩
  · rw [htype.2 happlies, Inspection.checkType, if_pos hcovers]
    decide
  · rw [hmethod.2 happlies']
    decide +kernel

/-! ## One root for each chain -/

namespace Assembly

variable {a : Assembly} {u v : TypeDef} {chain : List TypeDef}

/-- A chain becomes disposable at one class only: all classes in front of it in
the chain inherit the interface, and none behind it has it. -/
theorem IsBaseChain.becomes_unique (h : a.IsBaseChain chain) (hu : u ∈ chain)
    (hv : v ∈ chain)
    (hbu : a.BecomesDisposable u) (hbv : a.BecomesDisposable v) : u = v := by
  induction chain with
  | nil => cases hu
  | cons t rest ih =>
      obtain ⟨-, hbases, hrest⟩ := h
      -- Of two such classes one would be a base of the other, and disposable.
      rcases List.mem_cons.1 hu with rfl | hu'
      · rcases List.mem_cons.1 hv with rfl | hv'
        · rfl
        · have hnot := hbu.2 v (hbases ▸ hv')
          rw [hbv.1] at hnot
          cases hnot
      · rcases List.mem_cons.1 hv with rfl | hv'
        · have hnot := hbv.2 u (hbases ▸ hu')
          rw [hbu.1] at hnot
          cases hnot
        · exact ih hrest hu' hv'

theorem IsBaseChain.isLatest (h : a.IsBaseChain chain) (hu : u ∈ chain) :
    a.IsLatest u := by
  induction chain with
  | nil => cases hu
  | cons t rest ih =>
      rcases List.mem_cons.1 hu with rfl | hu
      · exact h.1
      · exact ih h.2.2 hu

/-- No class right below the window library shares the chain with another such
class, or with the class at which the chain becomes disposable. -/
def WindowsAlone (a : Assembly) (chain : List TypeDef) : Prop :=
  ∀ w ∈ chain, w.isInterface = false → isWindow w = true →
    ∀ u ∈ chain, u ≠ w → u.isInterface = false →
      isWindow u = false ∧ ¬a.BecomesDisposable u

theorem WindowsAlone.eq (h : a.WindowsAlone chain) (hu : u ∈ chain)
    (hv : v ∈ chain)
    (hwindow : isWindow u = true) (hroot : a.isDisposableRoot u = true)
    (hroot' : a.isDisposableRoot v = true) : v = u := by
  by_contra hne
  obtain ⟨hclass, -⟩ := isDisposableRoot_iff_cases.1 hroot
  obtain ⟨hclass', hcases⟩ := isDisposableRoot_iff_cases.1 hroot'
  obtain ⟨hplain, hnot⟩ := h u hu hclass hwindow v hv hne hclass'
  rcases hcases with hwindow' | hbecomes
  · rw [hplain] at hwindow'
    cases hwindow'
  · exact hnot hbecomes

theorem IsBaseChain.one_root_iff (h : a.IsBaseChain chain) :
    (∀ u ∈ chain, ∀ v ∈ chain, a.isDisposableRoot u = true →
      a.isDisposableRoot v = true →
      u = v) ↔ a.WindowsAlone chain := by
  constructor
  · intro hone w hw hclass hwindow u hu hne hclass'
    have hroot : a.isDisposableRoot w = true :=
      isDisposableRoot_iff_cases.2 ⟨hclass, Or.inl hwindow⟩
    refine ⟨?_, ?_⟩
    · rw [Bool.eq_false_iff]
      intro hwindow'
      exact hne (hone u hu w hw
        (isDisposableRoot_iff_cases.2 ⟨hclass', Or.inl hwindow'⟩) hroot)
    · intro hbecomes
      exact hne (hone u hu w hw
        (isDisposableRoot_iff_cases.2 ⟨hclass', Or.inr hbecomes⟩) hroot)
  · intro halone u hu v hv hroot hroot'
    rcases (isDisposableRoot_iff_cases.1 hroot).2 with hwindow | hbecomes
    · exact (halone.eq hu hv hwindow hroot hroot').symm
    · rcases (isDisposableRoot_iff_cases.1 hroot').2 with hwindow' | hbecomes'
      · exact halone.eq hv hu hwindow' hroot' hroot
      · exact h.becomes_unique hu hv hbecomes hbecomes'

end Assembly

/-- One of the two rules about roots applies to the type or to a method that
names it as its own. -/
def Inspection.RootRulesApply (i : Inspection) (t : TypeDef) : Prop :=
  (i.checkType .rootFinalizer t).outcome ≠ .doesNotApply ∨
    ∃ (m : Method) (cache : Cache), m.declaringType = t.fullName ∧
      (i.checkMethod .rootDebugLine m cache).1.outcome ≠ .doesNotApply

theorem Inspection.RootRulesApply.isDisposableRoot {i : Inspection}
    {t : TypeDef} (h : i.RootRulesApply t) (ht : i.assembly.IsLatest t) :
    i.assembly.isDisposableRoot t = true := by
  rcases h with happlies | ⟨m, cache, hname, happlies⟩
  · exact (covers_rootFinalizer.1 (checkType_applies_iff.1 happlies)).2.1
  · obtain ⟨-, owner, howner, hroot⟩ :=
      coversMethod_rootDebugLine_iff.1 (checkMethod_applies_iff.1 happlies)
    rw [hname] at howner
    rw [Option.some.inj (ht.symm.trans howner)]
    exact hroot

/-- When only the first disposable class of a hierarchy is checked: a chain of
bases has at most one root exactly if each class in it right below the window
library is alone in being a first class. The rules about roots then apply to at
most one type of the chain. -/
theorem one_root_iff_windows_alone (i : Inspection) (t : TypeDef)
    (hnames : i.assembly.typeNames.Nodup) (ht : t ∈ i.assembly.types)
    (hend : ∀ last ∈ (t :: i.assembly.baseTypes t).getLast?,
      last.base.bind i.assembly.type? = none) :
    ((∀ u ∈ t :: i.assembly.baseTypes t, ∀ v ∈ t :: i.assembly.baseTypes t,
        i.assembly.isDisposableRoot u = true →
        i.assembly.isDisposableRoot v = true → u = v) ↔
      i.assembly.WindowsAlone (t :: i.assembly.baseTypes t)) ∧
    (i.assembly.WindowsAlone (t :: i.assembly.baseTypes t) →
      ∀ u ∈ t :: i.assembly.baseTypes t, ∀ v ∈ t :: i.assembly.baseTypes t,
        i.RootRulesApply u → i.RootRulesApply v → u = v) := by
  have hchain := Assembly.isBaseChain_baseTypes
    (Assembly.isLatest_of_nodup hnames ht) hend
  refine ⟨hchain.one_root_iff, ?_⟩
  intro halone u hu v hv happlies happlies'
  exact hchain.one_root_iff.2 halone u hu v hv
    (happlies.isDisposableRoot (hchain.isLatest hu))
    (happlies'.isDisposableRoot (hchain.isLatest hv))

/-- A panel that lists the interface itself leaves the list panel nothing to
become, and the rules about roots apply to one of them at most. -/
theorem one_root_iff_windows_alone_panel :
    (panelInspection [TypeName.disposable]).assembly.typeNames.Nodup ∧
      Assembly.isWindow (panelTypes [TypeName.disposable])[0] = true ∧
      ∀ u ∈ panelTypes [TypeName.disposable],
        ∀ v ∈ panelTypes [TypeName.disposable],
          (panelInspection [TypeName.disposable]).RootRulesApply u →
        (panelInspection [TypeName.disposable]).RootRulesApply v → u = v := by
  have hnames :
      (panelInspection [TypeName.disposable]).assembly.typeNames.Nodup := by
    decide
  have hbases : (panelInspection [TypeName.disposable]).assembly.baseTypes
      (panelTypes [TypeName.disposable])[1] =
        [(panelTypes [TypeName.disposable])[0]] := by
    decide +kernel
  have hpanel : (panelInspection [TypeName.disposable]).assembly.implements
      (panelTypes [TypeName.disposable])[0] TypeName.disposable = true :=
    Assembly.implements_of_lists (Assembly.isLatest_of_nodup hnames (by decide))
      (by decide)
  have halone : (panelInspection [TypeName.disposable]).assembly.WindowsAlone
      [(panelTypes [TypeName.disposable])[1],
        (panelTypes [TypeName.disposable])[0]] := by
    intro w hw hclass hwindow u hu hne hclass'
    have hplain : Assembly.isWindow (panelTypes [TypeName.disposable])[1] =
        false := by decide
    obtain rfl : w = (panelTypes [TypeName.disposable])[0] := by
      rcases List.mem_pair.1 hw with rfl | rfl
      · rw [hplain] at hwindow
        cases hwindow
      · rfl
    obtain rfl := (List.mem_pair.1 hu).resolve_right hne
    refine ⟨hplain, ?_⟩
    intro hbecomes
    have hnot := hbecomes.2 (panelTypes [TypeName.disposable])[0]
      (by rw [hbases]; decide)
    rw [hpanel] at hnot
    cases hnot
  have hone :=
    (one_root_iff_windows_alone (panelInspection [TypeName.disposable])
    (panelTypes [TypeName.disposable])[1] hnames (by decide)
      (by rw [hbases]; decide)).2
  rw [hbases] at hone
  refine ⟨hnames, by decide, ?_⟩
  intro u hu v hv
  exact hone halone u (List.mem_reverse.2 hu) v (List.mem_reverse.2 hv)

/-- A panel that does not is a root, and so is the list panel below it. Both
rules about roots fail both of them. -/
theorem panel_has_two_roots :
    (panelInspection []).assembly.typeNames.Nodup ∧
      (panelInspection []).assembly.baseTypes (panelTypes [])[1] =
        [(panelTypes [])[0]] ∧
      (panelTypes [])[0].base.bind (panelInspection []).assembly.type? = none ∧
      (panelTypes [])[1] ≠ (panelTypes [])[0] ∧
      ∀ t ∈ panelTypes [], t.isInterface = false ∧
        (panelInspection []).assembly.isDisposableRoot t = true ∧
        ((panelInspection []).checkType .rootFinalizer t).outcome = .failure ∧
        ∀ m ∈ t.methods,
          ((panelInspection []).checkMethod .rootDebugLine m {}).1.outcome =
            .failure := by
  have hshape : ∀ t ∈ panelTypes [], t.isInterface = false ∧
      t.isChecked = true ∧
      t.hasMethod Signature.disposeBool = true ∧
      (TypeRule.rootFinalizer.checkFinalizer t).outcome = .failure := by decide
  have hlines : ∀ t ∈ panelTypes [], ∀ m ∈ t.methods,
      (panelInspection []).coversMethod .debugLine m = true ∧
      (panelInspection []).assembly.type? m.declaringType = some t ∧
      ((panelInspection []).checkDebugLine .rootDebugLine m {}).1.outcome =
        .failure := by
    decide +kernel
  refine ⟨by decide, by decide +kernel, by decide, by decide, ?_⟩
  intro t ht
  obtain ⟨hclass, hchecked, hmethod, hfinalizer⟩ := hshape t ht
  have hroot : (panelInspection []).assembly.isDisposableRoot t = true := by
    rw [Assembly.isDisposableRoot_iff_cases]
    refine ⟨hclass, ?_⟩
    rcases List.mem_pair.1 ht with rfl | rfl
    · exact Or.inl (by decide)
    · exact Or.inr listPanel_becomes
  refine ⟨hclass, hroot, ?_, ?_⟩
  · rw [Inspection.checkType,
      if_pos (Inspection.covers_rootFinalizer.2 ⟨hchecked, hroot, hmethod⟩)]
    exact hfinalizer
  · intro m hm
    obtain ⟨hcovers, howner, hfailure⟩ := hlines t ht m hm
    rw [Inspection.checkMethod,
      if_pos (Inspection.coversMethod_rootDebugLine_iff.2
        ⟨hcovers, t, howner, hroot⟩)]
    exact hfailure

end CilAudit
