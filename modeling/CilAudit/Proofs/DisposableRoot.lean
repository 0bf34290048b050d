import CilAudit.Proofs.BaseChain
import Mathlib.Data.List.Chain

/-!
# One root for each disposable hierarchy

The walk along the bases of a type starts afresh at every type: each has its
own set of names it may still step to. On a chain that simply ends, none of
these sets ever cuts a walk short, so the bases of a type in the chain are what
stands behind it there (`IsBaseChain`). After that nothing in the argument is
about walking. Implementing an interface means that someone from here on
inherits it, so it can only get lost on the way up; the last type of the chain
that has it is the root, and whoever stands before it has a base that has it
too.
-/

namespace CilAudit

namespace Assembly

variable {a : Assembly} {t u : TypeDef}

/-! ## Chains of bases -/

/-- The bases of a type one after the other, up to one whose own base is not
declared. Nothing here is cut short because a name was met before. -/
def Climbs (a : Assembly) : TypeDef → List TypeDef → Prop
  | t, [] => t.base.bind a.type? = none
  | t, u :: rest => t.base.bind a.type? = some u ∧ a.Climbs u rest

/-- Every type of the chain is known by its name, and its bases are the rest of
the chain. Inductions over a hierarchy go over such chains, from the type to
its farthest base. -/
def IsBaseChain (a : Assembly) : List TypeDef → Prop
  | [] => True
  | t :: rest => a.IsLatest t ∧ a.baseTypes t = rest ∧ a.IsBaseChain rest

theorem climbs_iff {bases : List TypeDef} :
    a.Climbs t bases ↔ List.IsChain a.Extends (t :: bases) ∧
      ∀ last ∈ (t :: bases).getLast?, last.base.bind a.type? = none := by
  induction bases generalizing t with
  | nil => simp [Climbs]
  | cons u rest ih =>
      rw [Climbs, ih, List.isChain_cons_cons, List.getLast?_cons_cons,
        and_assoc]
      rfl

/-- A walk that climbs all the way stops nowhere before, if it meets no name
twice. -/
theorem baseTypes_of_climbs {bases : List TypeDef} (hclimbs : a.Climbs t bases)
    (hnodup : ((t :: bases).map TypeDef.fullName).Nodup) :
    a.baseTypes t = bases := by
  obtain ⟨hchain, hend⟩ := climbs_iff.1 hclimbs
  obtain ⟨more, hmore⟩ := prefix_baseTypes hchain hnodup
  cases more with
  | nil => rw [← hmore, List.append_nil]
  | cons u more =>
      -- Then the last of the bases would have a declared base after all.
      have hwalk := isChain_baseTypes (a := a) t
      rw [← hmore, ← List.cons_append] at hwalk
      have hlast := List.getLast_mem_getLast? (List.cons_ne_nil t bases)
      have hstep := (List.isChain_append.1 hwalk).2.2 _ hlast u rfl
      rw [Extends, hend _ hlast] at hstep
      cases hstep

theorem isBaseChain_of_climbs {bases : List TypeDef} (ht : a.IsLatest t)
    (hclimbs : a.Climbs t bases)
    (hnodup : ((t :: bases).map TypeDef.fullName).Nodup) :
    a.IsBaseChain (t :: bases) := by
  induction bases generalizing t with
  | nil => exact ⟨ht, baseTypes_of_climbs hclimbs hnodup, trivial⟩
  | cons u rest ih =>
      refine ⟨ht, baseTypes_of_climbs hclimbs hnodup, ?_⟩
      obtain ⟨-, hnodup⟩ := List.nodup_cons.1 (List.map_cons ▸ hnodup)
      exact ih (isLatest_of_base hclimbs.1) hclimbs.2 hnodup

/-- The bases of a type are a chain if the last of them has no declared base.
Where the walk was cut at a name it had met, the types behind have other bases
than the rest of the walk. -/
theorem isBaseChain_baseTypes (ht : a.IsLatest t)
    (hend : ∀ last ∈ (t :: a.baseTypes t).getLast?,
      last.base.bind a.type? = none) :
    a.IsBaseChain (t :: a.baseTypes t) :=
  isBaseChain_of_climbs ht (climbs_iff.2 ⟨isChain_baseTypes t, hend⟩)
    (nodup_baseTypes t)

/-! ## The root of a chain -/

variable {chain rest : List TypeDef} {interface : String}

/-- In a chain, a type implements what it or someone behind it inherits. -/
theorem IsBaseChain.implements_iff (h : a.IsBaseChain (t :: rest)) :
    a.implements t interface = true ↔
      ∃ b ∈ t :: rest, a.Inherits b interface := by
  obtain ⟨ht, hbases, -⟩ := h
  rw [Assembly.implements_iff ht, hbases]

theorem IsBaseChain.not_implements (h : a.IsBaseChain chain)
    (hnone : ∀ b ∈ chain, ¬a.Inherits b interface) (hu : u ∈ chain) :
    a.implements u interface = false := by
  induction chain with
  | nil => cases hu
  | cons t rest ih =>
      rcases List.mem_cons.1 hu with rfl | hu
      · rw [Bool.eq_false_iff, ne_eq, h.implements_iff]
        rintro ⟨b, hb, hinherits⟩
        exact hnone b hb hinherits
      · exact ih h.2.2 (fun b hb => hnone b (List.mem_cons_of_mem _ hb)) hu

theorem isDisposableRoot_iff (hclass : t.isInterface = false)
    (hwindow : isWindow t = false) :
    a.isDisposableRoot t = true ↔ a.implements t TypeName.disposable = true ∧
      ∀ b ∈ a.baseTypes t, a.implements b TypeName.disposable = false := by
  simp [isDisposableRoot, hclass, hwindow]

/-- The last type of a chain that implements the interface of disposable things
is its one root. By induction on the chain: either a later type implements it,
and then the first one is no root, or none does, and then it is the only one.
-/
theorem IsBaseChain.exists_root (h : a.IsBaseChain chain)
    (hclass : ∀ u ∈ chain, u.isInterface = false)
    (hwindow : ∀ u ∈ chain, isWindow u = false)
    (hsome : ∃ u ∈ chain, a.Inherits u TypeName.disposable) :
    ∃ before root after, chain = before ++ root :: after ∧
      chain.filter a.isDisposableRoot = [root] ∧
      (∀ u ∈ before, a.implements u TypeName.disposable = true) ∧
      a.implements root TypeName.disposable = true ∧
      ∀ u ∈ after, a.implements u TypeName.disposable = false := by
  induction chain with
  | nil =>
      obtain ⟨u, hu, -⟩ := hsome
      cases hu
  | cons t rest ih =>
      have himplements : a.implements t TypeName.disposable = true :=
        h.implements_iff.2 hsome
      have hroot := isDisposableRoot_iff (a := a)
        (hclass t (List.mem_cons_self ..)) (hwindow t (List.mem_cons_self ..))
      rw [h.2.1] at hroot
      -- If someone further up inherits the interface, the root is up there and
      -- `t` is none; else no base of `t` implements the interface, so `t` is
      -- the root and nobody behind it can be one.
      by_cases hlater : ∃ u ∈ rest, a.Inherits u TypeName.disposable
      · obtain ⟨before, root, after, hsplit, hone, hbefore, hr, hafter⟩ :=
          ih h.2.2
          (fun u hu => hclass u (List.mem_cons_of_mem _ hu))
          (fun u hu => hwindow u (List.mem_cons_of_mem _ hu)) hlater
        have hmem : root ∈ rest := by rw [hsplit]; simp
        have hnot : ¬a.isDisposableRoot t = true := by
          intro hr'
          rw [(hroot.1 hr').2 root hmem] at hr
          cases hr
        refine ⟨t :: before, root, after,
          by rw [hsplit, List.cons_append], ?_, ?_, hr, hafter⟩
        · rw [List.filter_cons_of_neg hnot, hone]
        · intro u hu
          rcases List.mem_cons.1 hu with rfl | hu
          · exact himplements
          · exact hbefore u hu
      · have hnone : ∀ u ∈ rest, a.implements u TypeName.disposable =
            false := by
          intro u hu
          exact h.2.2.not_implements
            (fun b hb hinherits => hlater ⟨b, hb, hinherits⟩) hu
        refine ⟨[], t, rest, rfl, ?_, by simp, himplements, hnone⟩
        rw [List.filter_cons_of_pos (hroot.2 ⟨himplements, hnone⟩),
          List.filter_eq_nil_iff.2]
        intro u hu hr
        have himplements :=
          ((isDisposableRoot_iff (hclass u (List.mem_cons_of_mem _ hu))
          (hwindow u (List.mem_cons_of_mem _ hu))).1 hr).1
        rw [hnone u hu] at himplements
        cases himplements

end Assembly

/-- A disposable hierarchy has exactly one root. In the chain of a disposable
class and its bases it is the last type that implements the interface of
disposable things, and every type before it implements the interface too. -/
theorem disposable_root_unique (a : Assembly) (t : TypeDef)
    (hnames : a.typeNames.Nodup)
    (ht : t ∈ a.types) (hdisposable : a.implements t TypeName.disposable = true)
    (hend : ∀ last ∈ (t :: a.baseTypes t).getLast?,
      last.base.bind a.type? = none)
    (hclass : ∀ u ∈ t :: a.baseTypes t, u.isInterface = false)
    (hwindow : ∀ u ∈ t :: a.baseTypes t, Assembly.isWindow u = false) :
    ∃ before root after, t :: a.baseTypes t = before ++ root :: after ∧
      (t :: a.baseTypes t).filter a.isDisposableRoot = [root] ∧
      (∀ u ∈ before, a.implements u TypeName.disposable = true) ∧
      a.implements root TypeName.disposable = true ∧
      ∀ u ∈ after, a.implements u TypeName.disposable = false := by
  have hchain := Assembly.isBaseChain_baseTypes
    (Assembly.isLatest_of_nodup hnames ht) hend
  exact hchain.exists_root hclass hwindow (hchain.implements_iff.1 hdisposable)

/-- Handles are nodes, and nodes and resources list each other; only resources
are disposable. -/
def handleTypes : List TypeDef := [
  { TypeDef.interface "Sample" "IResource" with
    interfaces := ["Sample.INode", "System.IDisposable"] },
  { TypeDef.interface "Sample" "INode" with interfaces :=
    ["Sample.IResource"] },
  { space := "Sample", name := "Plain" },
  { space := "Sample", name := "Handle", base := some "Sample.Plain",
    interfaces := ["Sample.INode"] },
  { space := "Sample", name := "File", base := some "Sample.Handle" },
  { space := "Sample", name := "LogFile", base := some "Sample.File" }]

def handleAssembly : Assembly := { name := "Sample", types := handleTypes }

theorem handle_inherits :
    handleAssembly.Inherits handleTypes[3] TypeName.disposable := by
  have hnode : handleTypes[1] ∈
      handleAssembly.declaredInterfaces handleTypes[3] := by decide
  have hresource :
      handleTypes[0] ∈ handleAssembly.declaredInterfaces handleTypes[1] := by
    decide
  exact ⟨handleTypes[0], .head hnode (.head hresource .refl), by decide⟩

theorem plain_inherits_nothing :
    ¬handleAssembly.Inherits handleTypes[2] TypeName.disposable := by
  rintro ⟨goal, hreach, hlists⟩
  rcases hreach.cases_head with rfl | ⟨u, hu, -⟩
  · revert hlists
    decide
  · revert hu
    rw [show handleAssembly.declaredInterfaces handleTypes[2] = [] by decide]
    exact List.not_mem_nil

/-- The root of log files is the handle, two bases up and two interfaces from
the disposable one. -/
theorem disposable_root_unique_logFile :
    handleAssembly.typeNames.Nodup ∧
      handleAssembly.implements handleTypes[5] TypeName.disposable = true ∧
      handleAssembly.baseTypes handleTypes[5] =
        [handleTypes[4], handleTypes[3], handleTypes[2]] ∧
      [handleTypes[5], handleTypes[4], handleTypes[3], handleTypes[2]].filter
        handleAssembly.isDisposableRoot = [handleTypes[3]] := by
  have hnames : handleAssembly.typeNames.Nodup := by decide
  have hlatest : ∀ t ∈ handleTypes, handleAssembly.IsLatest t :=
    fun t ht => Assembly.isLatest_of_nodup hnames ht
  have hbases : handleAssembly.baseTypes handleTypes[5] =
      [handleTypes[4], handleTypes[3], handleTypes[2]] := by decide +kernel
  have hdisposable :
      handleAssembly.implements handleTypes[5] TypeName.disposable = true :=
    (Assembly.implements_iff (hlatest _ (by decide))).2
      ⟨handleTypes[3], by rw [hbases]; decide, handle_inherits⟩
  have hplain : handleAssembly.implements handleTypes[2] TypeName.disposable =
      false := by
    rw [Bool.eq_false_iff, ne_eq,
      Assembly.implements_iff (hlatest _ (by decide)),
      show handleAssembly.baseTypes handleTypes[2] = [] by decide +kernel]
    simpa using plain_inherits_nothing
  obtain ⟨before, root, after, hsplit, hone, -⟩ :=
    disposable_root_unique handleAssembly handleTypes[5] hnames
      (by decide) hdisposable (by rw [hbases]; decide) (by rw [hbases]; decide)
        (by rw [hbases]; decide)
  have hroot : handleAssembly.isDisposableRoot handleTypes[3] = true := by
    rw [Assembly.isDisposableRoot_iff (by decide) (by decide),
      Assembly.implements_iff (hlatest _ (by decide)),
      show handleAssembly.baseTypes handleTypes[3] = [handleTypes[2]] by
        decide +kernel]
    exact ⟨⟨handleTypes[3], by decide, handle_inherits⟩,
      List.forall_mem_singleton.2 hplain⟩
  rw [hbases] at hone
  obtain rfl : handleTypes[3] = root := by
    have hmem : handleTypes[3] ∈ [root] :=
      hone ▸ List.mem_filter.2 ⟨by decide, hroot⟩
    exact List.mem_singleton.1 hmem
  exact ⟨hnames, hdisposable, hbases, hone⟩

end CilAudit
