import CilAudit.Assembly.Hierarchy
import Mathlib.Data.List.Nodup
import Mathlib.Logic.Relation

/-!
# What the interface search finds

`Assembly.search` keeps the names it has not seen, and never looks at a type
whose name is gone from them. So it may well drop a type from which the
interface could be reached, and the question is why it still answers rightly.
The reason is the order of events: a name is only dropped together with pushing
the interfaces of its type. A way to the goal that led through the dropped type
has a last visit to it, and what follows that visit starts at one of the pushed
interfaces and avoids the dropped name (`Finds.drop`). Names stand for types
here, so this needs the types at hand to be those that their own names are
looked up to (`IsLatest`).

With that, `implements` is plain reachability (`implements_iff`): from the type
or one of its bases over interfaces to a type that lists the one asked for.
-/

namespace CilAudit.Assembly

variable {a : Assembly} {interface : String} {unseen : List String}
  {t u : TypeDef}

/-- The assembly knows the type by its name: no later declaration hides it.
Walks and searches lead to such types only, and may start at any. -/
def IsLatest (a : Assembly) (t : TypeDef) : Prop := a.type? t.fullName = some t

theorem isLatest_of_type? {name : String} (h : a.type? name = some t) :
    a.IsLatest t := by
  rw [IsLatest, fullName_of_type? h]
  exact h

theorem isLatest_of_mem_declaredInterfaces (h : u ∈ a.declaredInterfaces t) :
    a.IsLatest u := by
  obtain ⟨name, -, hname⟩ := List.mem_filterMap.1 h
  exact isLatest_of_type? hname

theorem IsLatest.eq (ht : a.IsLatest t) (hu : a.IsLatest u)
    (h : t.fullName = u.fullName) :
    t = u := by
  rw [IsLatest, h, hu] at ht
  exact (Option.some.inj ht).symm

theorem IsLatest.mem_typeNames (h : a.IsLatest t) : t.fullName ∈ a.typeNames :=
  List.mem_map_of_mem (mem_of_type? h)

theorem isLatest_of_nodup (hnames : a.typeNames.Nodup) (ht : t ∈ a.types) :
    a.IsLatest t := by
  cases hu : a.type? t.fullName with
  | none =>
      have habsent := List.find?_eq_none.1 hu t (List.mem_reverse.2 ht)
      simp at habsent
  | some u =>
      have heq : u = t :=
        List.inj_on_of_nodup_map hnames (mem_of_type? hu) ht
          (fullName_of_type? hu)
      rw [IsLatest, hu, heq]

/-! ## One search -/

/-- A way over interfaces from a type to one that lists the interface, through
unseen names only. -/
inductive Finds (a : Assembly) (interface : String) (unseen : List String) :
    TypeDef → Prop
  | here {t : TypeDef} : t.fullName ∈ unseen → t.lists interface = true →
      Finds a interface unseen t
  | next {t u : TypeDef} : t.fullName ∈ unseen → u ∈ a.declaredInterfaces t →
      Finds a interface unseen u → Finds a interface unseen t

theorem Finds.mem_unseen (h : a.Finds interface unseen t) :
    t.fullName ∈ unseen := by
  cases h with
  | here hseen => exact hseen
  | next hseen => exact hseen

theorem Finds.of_without {name : String}
    (h : a.Finds interface (without unseen name) t) :
    a.Finds interface unseen t := by
  induction h with
  | here hseen hlists => exact .here (mem_without.1 hseen).1 hlists
  | next hseen hu _ ih => exact .next (mem_without.1 hseen).1 hu ih

/-- A way that goes through a type which is not the goal can be cut short
behind its last visit to that type. This is why a search may strike a name out
once it has looked at it. -/
theorem Finds.drop {w : TypeDef} (h : a.Finds interface unseen w)
    (hw : a.IsLatest w)
    (ht : a.IsLatest t) (hlists : t.lists interface = false) :
    a.Finds interface (without unseen t.fullName) w ∨
      ∃ u ∈ a.declaredInterfaces t,
        a.Finds interface (without unseen t.fullName) u := by
  -- The rest of the way is cut first, so a visit to `t` that is met here is
  -- the last one.
  induction h with
  | @here w hseen hgoal =>
      have hne : w.fullName ≠ t.fullName := by
        intro hname
        rw [hw.eq ht hname, hlists] at hgoal
        simp at hgoal
      exact .inl (.here (mem_without.2 ⟨hseen, hne⟩) hgoal)
  | @next w u hseen hu _ ih =>
      rcases ih (isLatest_of_mem_declaredInterfaces hu) with hleft | hright
      · by_cases hname : w.fullName = t.fullName
        · rw [hw.eq ht hname] at hu
          exact .inr ⟨u, hu, hleft⟩
        · exact .inl (.next (mem_without.2 ⟨hseen, hname⟩) hu hleft)
      · exact .inr hright

theorem finds_of_search {pending : List TypeDef}
    (h : a.search interface unseen pending = true) :
    ∃ t ∈ pending, a.Finds interface unseen t := by
  fun_induction search a interface unseen pending with
  | case1 => simp at h
  | case2 unseen t pending hseen hlists =>
      exact ⟨t, List.mem_cons_self .., .here hseen hlists⟩
  | case3 unseen t pending hseen _ ih =>
      obtain ⟨u, hu, hfinds⟩ := ih h
      rcases List.mem_append.1 hu with hu | hu
      · exact ⟨t, List.mem_cons_self ..,
          .next hseen (List.mem_reverse.1 hu) hfinds.of_without⟩
      · exact ⟨u, List.mem_cons_of_mem _ hu, hfinds.of_without⟩
  | case4 unseen t pending _ ih =>
      obtain ⟨u, hu, hfinds⟩ := ih h
      exact ⟨u, List.mem_cons_of_mem _ hu, hfinds⟩

theorem search_of_finds {pending : List TypeDef}
    (hlatest : ∀ t ∈ pending, a.IsLatest t)
    (h : ∃ t ∈ pending, a.Finds interface unseen t) :
    a.search interface unseen pending = true := by
  fun_induction search a interface unseen pending with
  | case1 =>
      obtain ⟨t, ht, -⟩ := h
      simp at ht
  | case2 => rfl
  | case3 unseen t pending hseen hlists ih =>
      have hlists : t.lists interface = false := by simpa using hlists
      have hpending : ∀ w ∈ pending, a.IsLatest w :=
        fun w hw => hlatest w (List.mem_cons_of_mem _ hw)
      have ht := hlatest t (List.mem_cons_self ..)
      obtain ⟨w, hw, hfinds⟩ := h
      refine ih ?_ ?_
      · intro u hu
        rcases List.mem_append.1 hu with hu | hu
        · exact isLatest_of_mem_declaredInterfaces (List.mem_reverse.1 hu)
        · exact hpending u hu
      · rcases hfinds.drop (hlatest w hw) ht hlists with hkept | ⟨u, hu, hfrom⟩
        · rcases List.mem_cons.1 hw with rfl | hw
          · have hgone := (mem_without.1 hkept.mem_unseen).2
            exact absurd rfl hgone
          · exact ⟨w, List.mem_append_right _ hw, hkept⟩
        · exact ⟨u, List.mem_append_left _ (List.mem_reverse.2 hu), hfrom⟩
  | case4 unseen t pending hseen ih =>
      obtain ⟨w, hw, hfinds⟩ := h
      refine ih (fun u hu => hlatest u (List.mem_cons_of_mem _ hu))
        ⟨w, ?_, hfinds⟩
      rcases List.mem_cons.1 hw with rfl | hw
      · exact absurd hfinds.mem_unseen hseen
      · exact hw

/-! ## Reachability -/

def Reaches (a : Assembly) : TypeDef → TypeDef → Prop :=
  Relation.ReflTransGen fun t u => u ∈ a.declaredInterfaces t

/-- The type lists the interface, or inherits it from an interface that it
lists. -/
def Inherits (a : Assembly) (t : TypeDef) (interface : String) : Prop :=
  ∃ u, a.Reaches t u ∧ u.lists interface = true

/-- As long as every declared name is unseen, a search is not held up by what
it has seen, and ways through unseen names are just ways. -/
theorem finds_iff (hunseen : a.typeNames ⊆ unseen) (ht : a.IsLatest t) :
    a.Finds interface unseen t ↔ a.Inherits t interface := by
  constructor
  · intro h
    induction h with
    | @here t _ hlists => exact ⟨t, .refl, hlists⟩
    | next _ hu _ ih =>
        obtain ⟨goal, hreach, hlists⟩ :=
          ih (isLatest_of_mem_declaredInterfaces hu)
        exact ⟨goal, .head hu hreach, hlists⟩
  · rintro ⟨goal, hreach, hlists⟩
    induction hreach using Relation.ReflTransGen.head_induction_on with
    | refl => exact .here (hunseen ht.mem_typeNames) hlists
    | head hu _ ih =>
        exact .next (hunseen ht.mem_typeNames) hu
          (ih (isLatest_of_mem_declaredInterfaces hu))

theorem isLatest_of_mem_basesFrom {base : Option String}
    (h : u ∈ a.basesFrom unseen base) :
    a.IsLatest u := by
  fun_induction basesFrom a unseen base with
  | case1 => simp at h
  | case2 unseen base t hbase hseen ih =>
      obtain ⟨name, -, hname⟩ := Option.bind_eq_some_iff.1 hbase
      rcases List.mem_cons.1 h with rfl | h
      · exact isLatest_of_type? hname
      · exact ih h
  | case3 => simp at h

/-- A type implements an interface if it inherits it over interfaces, or one of
its bases does. -/
theorem implements_iff (ht : a.IsLatest t) :
    a.implements t interface = true ↔
      ∃ b ∈ t :: a.baseTypes t, a.Inherits b interface := by
  have hlatest : ∀ b ∈ t :: a.baseTypes t, a.IsLatest b := by
    intro b hb
    rcases List.mem_cons.1 hb with rfl | hb
    · exact ht
    · exact isLatest_of_mem_basesFrom hb
  have hfinds : ∀ b ∈ t :: a.baseTypes t,
      (a.Finds interface (t.fullName :: a.typeNames) b ↔
        a.Inherits b interface) :=
    fun b hb => finds_iff (List.subset_cons_self ..) (hlatest b hb)
  constructor
  · intro h
    obtain ⟨b, hb, hb'⟩ := finds_of_search h
    rw [List.mem_reverse] at hb
    exact ⟨b, hb, (hfinds b hb).1 hb'⟩
  · rintro ⟨b, hb, hb'⟩
    refine search_of_finds (fun u hu => hlatest u (List.mem_reverse.1 hu)) ?_
    exact ⟨b, List.mem_reverse.2 hb, (hfinds b hb).2 hb'⟩

end CilAudit.Assembly
