import CilAudit.Proofs.CacheTransparency
import CilAudit.Proofs.DebugLine
import CilAudit.Rule.Report

/-!
# Reports add up

A report is put together from single checks, and each check answers with a
finding: an outcome, and a defect if the outcome is a failure. What a finding
can be is said once for each kind of rule (`checkType_cases`,
`checkMethod_cases`), and everything about defects follows from there check by
check (`Checked.Accounted`). The methods are checked over one cache that
changes on the way, but no finding depends on it, so a run is the list of its
checks made one by one (`run_eq`), and checks made in any other order, or at
the same time, come to the same report (`checked_in_any_order`).

The summary is a running tally. One more verdict changes one number in it
(`Tallies.add`), so after all verdicts each number is that of the verdicts it
stands for.
-/

namespace CilAudit

open Code (Body)

/-! ## What a check can come to -/

namespace Inspection

variable {i : Inspection} {rules : RuleSet} {cache : Cache}

theorem checkType_cases (i : Inspection) (rule : TypeRule) (t : TypeDef) :
    i.checkType rule t = .doesNotApply ∨ i.checkType rule t = .success ∨
      i.checkType rule t = .failure (.ofType rule.id t .medium .high) := by
  unfold checkType TypeRule.checkFinalizer
  split
  · split
    · exact .inr (.inl rfl)
    · exact .inr (.inr rfl)
  · exact .inl rfl

/-- A method is judged without looking anything up, or by the text that its
diagnostic call writes. In both cases the finding is a function of the method
and the answer of one trace. -/
theorem checkMethod_cases (i : Inspection) (rule : MethodRule) (m : Method) :
    (∃ finding, (finding = .doesNotApply ∨ finding = .success ∨
        finding = .failure (.ofMethod rule.id m none .medium .high)) ∧
      ∀ cache, i.checkMethod rule m cache = (finding, cache)) ∨
    ∃ body site position, m.body = some body ∧
      i.diagnosticCall? body = some (site, position) ∧
      ∀ cache, i.checkMethod rule m cache =
        (if (resolveArgument i.limits i.assembly body site position
              cache).1.text?.any i.convention.accepts then .success
          else .failure (.ofMethod rule.id m (some site) .medium .normal),
        (resolveArgument i.limits i.assembly body site position cache).2) := by
  cases hcovers : i.coversMethod rule m with
  | false =>
      exact .inl ⟨_, .inl rfl, fun _ => by rw [checkMethod, hcovers]; rfl⟩
  | true =>
      have hcheck : i.checkMethod rule m = i.checkDebugLine rule m :=
        funext fun _ => if_pos hcovers
      rw [hcheck]
      cases hbody : m.body with
      | none =>
          exact .inl ⟨_, .inl rfl, fun _ =>
            by simp only [checkDebugLine, hbody]⟩
      | some body =>
          simp only [checkDebugLine, hbody]
          cases i.isReleaseOnly m with
          | true => exact .inl ⟨_, .inr (.inl rfl), fun _ => if_pos rfl⟩
          | false =>
              simp only [Bool.false_eq_true, if_false]
              cases body.hasCalls with
              | false => exact .inl ⟨_, .inr (.inr rfl), fun _ => if_pos rfl⟩
              | true =>
                  simp only [Bool.not_true, Bool.false_eq_true, if_false]
                  cases hcall : i.diagnosticCall? body with
                  | none => exact .inl ⟨_, .inr (.inr rfl), fun _ => rfl⟩
                  | some call =>
                      refine .inr ⟨body, call.1, call.2, rfl, hcall,
                        fun cache => ?_⟩
                      dsimp only
                      split <;> rfl

/-- The finding about a method does not depend on what was looked up before.
Checks can therefore be made in any order, and each of them on its own. -/
theorem checkMethod_finding (hcache : cache.FilledFor i.assembly)
    (rule : MethodRule) (m : Method) :
    (i.checkMethod rule m cache).1 = (i.checkMethod rule m {}).1 := by
  rcases i.checkMethod_cases rule m with
    ⟨finding, -, h⟩ | ⟨body, site, position, -, -, h⟩
  · rw [h, h]
  · rw [h, h]
    dsimp only
    rw [resolution_eq hcache, resolution_eq .empty]

theorem filledFor_checkMethod (hcache : cache.FilledFor i.assembly)
    (rule : MethodRule)
    (m : Method) : (i.checkMethod rule m cache).2.FilledFor i.assembly := by
  rcases i.checkMethod_cases rule m with
    ⟨finding, -, h⟩ | ⟨body, site, position, -, -, h⟩
  · rw [h]
    exact hcache
  · rw [h]
    exact hcache.resolveArgument ..

/-! ## A run, check by check -/

/-- What a report has of a rule and a type; `checkedMethod` is the same for
methods. -/
def checkedType (i : Inspection) (t : TypeDef) (rule : TypeRule) : Checked :=
  (⟨rule.id, t.fullName, (i.checkType rule t).outcome⟩,
    (i.checkType rule t).defect)

def checkedMethod (i : Inspection) (m : Method) (rule : MethodRule) : Checked :=
  (⟨rule.id, m.reportName, (i.checkMethod rule m {}).1.outcome⟩,
    (i.checkMethod rule m {}).1.defect)

/-- The checks of a run, each made on its own over an empty cache. A run makes
them one after the other over one cache, and this is what it comes to. -/
def checks (i : Inspection) (rules : RuleSet) : List Checked :=
  (i.assembly.types.flatMap fun t => rules.typeRules.map (i.checkedType t)) ++
    i.assembly.methods.flatMap fun m =>
      rules.methodRules.map (i.checkedMethod m)

theorem checkMethods_eq (hcache : cache.FilledFor i.assembly)
    (pairs : List (Method × MethodRule)) :
    i.checkMethods pairs cache = pairs.map fun (m, rule) =>
      i.checkedMethod m rule := by
  induction pairs generalizing cache with
  | nil => rfl
  | cons pair rest ih =>
      obtain ⟨m, rule⟩ := pair
      rw [checkMethods, List.map_cons]
      dsimp only
      -- The rest is checked over the cache that this check leaves behind.
      rw [ih (filledFor_checkMethod hcache rule m),
        checkMethod_finding hcache rule m]
      rfl

theorem run_eq (i : Inspection) (rules : RuleSet) :
    i.run rules = ⟨(i.checks rules).map Prod.fst,
      (i.checks rules).filterMap Prod.snd⟩ := by
  have hchecks : i.checkTypes rules.typeRules i.assembly.types ++
      i.checkMethods (i.assembly.methods.flatMap fun m =>
        rules.methodRules.map fun rule => (m, rule))
        {} = i.checks rules := by
    rw [checkMethods_eq .empty, List.map_flatMap]
    simp only [List.map_map]
    rfl
  rw [run, hchecks]

/-! ### Checks in any order

An audit need not check one method after the other. Checks that are made at the
same time share one cache, and each looks up one table at most, so what comes
of them is what comes of them in some order, over the cache that the earlier
ones left. Each verdict is put in its place whenever it is found; the defects
are kept in the order of finding them. -/

/-- What is found, and for which place, when checks are made in the order of a
schedule. A schedule lists the jobs in any order with the places that their
results belong to. -/
def scheduled (i : Inspection) (schedule : List ((Method × MethodRule) × Nat)) :
    List (Checked × Nat) :=
  (i.checkMethods (schedule.map Prod.fst) {}).zip (schedule.map Prod.snd)

/-- Whatever the schedule, every place gets the check that it gets when the
checks are made in order, and the same defects are found. The checks share a
cache, but what one of them leaves there makes no difference to another. -/
theorem checked_in_any_order {jobs : List (Method × MethodRule)}
    {schedule : List ((Method × MethodRule) × Nat)}
    (h : schedule.Perm jobs.zipIdx) :
    (∀ checked place, (checked, place) ∈ i.scheduled schedule ↔
      (i.checkMethods jobs {})[place]? = some checked) ∧
    ((i.scheduled schedule).filterMap fun found => found.1.2).Perm
      ((i.checkMethods jobs {}).filterMap Prod.snd) := by
  have hfound : (i.scheduled schedule).Perm
      (i.checkMethods jobs {}).zipIdx := by
    rw [scheduled, checkMethods_eq .empty, checkMethods_eq .empty,
      List.map_map, List.zip_map', List.zipIdx_map]
    exact h.map _
  refine ⟨?_, ?_⟩
  · intro checked place
    rw [hfound.mem_iff, List.mem_zipIdx_iff_getElem?]
  · have hplaced : (i.checkMethods jobs {}).zipIdx.filterMap
        (fun found => found.1.2) =
        ((i.checkMethods jobs {}).zipIdx.map Prod.fst).filterMap Prod.snd := by
      rw [List.filterMap_map]
      rfl
    rw [List.zipIdx_map_fst] at hplaced
    exact hplaced ▸ hfound.filterMap _

end Inspection

/-! ## Defects and failures -/

/-- A defect is of normal confidence if it names an instruction, and only then;
and the instruction is a call that writes diagnostics, in a method that the
defect is about. -/
def Defect.IsLocated (i : Inspection) (d : Defect) : Prop :=
  (d.confidence = .normal ↔ d.instruction.isSome = true) ∧
    ∀ index, d.instruction = some index →
      ∃ m ∈ i.assembly.methods, m.reportName = d.target ∧
      ∃ body target, m.body = some body ∧ body.callTarget? index = some target ∧
        i.assembly.shapeOf i.convention.diagnostic target = .diagnosticWrite

/-- A failure comes with one defect that names its rule and target, and nothing
else with any. This is what every single check keeps, and a report adds nothing
to it. -/
structure Checked.Accounted (i : Inspection) (c : Checked) : Prop where
  reports : c.2.isSome = true ↔ c.1.outcome = .failure
  names : ∀ d ∈ c.2, d.rule = c.1.rule ∧ d.target = c.1.target
  located : ∀ d ∈ c.2, d.IsLocated i

namespace Inspection

variable {i : Inspection}

theorem accounted_checkedType (i : Inspection) (t : TypeDef) (rule : TypeRule) :
    (i.checkedType t rule).Accounted i := by
  unfold checkedType
  rcases i.checkType_cases rule t with h | h | h
  all_goals
    rw [h]
    constructor <;> simp [Finding.doesNotApply, Finding.success,
      Finding.failure, Defect.ofType, Defect.IsLocated]

theorem isLocated_of_diagnosticCall? {m : Method} (hm : m ∈ i.assembly.methods)
    {body : Body} (hbody : m.body = some body) {site position : Nat}
    (hcall : i.diagnosticCall? body = some (site, position)) (rule : String) :
    (Defect.ofMethod rule m (some site) .medium .normal).IsLocated i := by
  obtain ⟨target, htarget, hshape, -⟩ := target_of_diagnosticCall? hcall
  refine ⟨by simp [Defect.ofMethod], ?_⟩
  intro index hindex
  obtain rfl : site = index := Option.some.inj hindex
  exact ⟨m, hm, rfl, body, target, hbody, htarget, hshape⟩

theorem accounted_checkedMethod {m : Method} (hm : m ∈ i.assembly.methods)
    (rule : MethodRule) :
    (i.checkedMethod m rule).Accounted i := by
  unfold checkedMethod
  rcases i.checkMethod_cases rule m with
    ⟨finding, hfinding, h⟩ | ⟨body, site, position, hbody, hcall, h⟩
  · rw [h]
    rcases hfinding with rfl | rfl | rfl
    all_goals
      constructor <;> simp [Finding.doesNotApply, Finding.success,
        Finding.failure, Defect.ofMethod, Defect.IsLocated]
  · rw [h]
    dsimp only
    split
    · constructor <;> simp [Finding.success]
    · constructor
      · simp [Finding.failure]
      · simp [Finding.failure, Defect.ofMethod]
      · intro d hd
        rw [← Option.some.inj hd]
        exact isLocated_of_diagnosticCall? hm hbody hcall rule.id

theorem accounted_of_mem_checks {rules : RuleSet} {c : Checked}
    (hc : c ∈ i.checks rules) :
    c.Accounted i := by
  rcases List.mem_append.1 hc with hc | hc
  · obtain ⟨t, -, hc⟩ := List.mem_flatMap.1 hc
    obtain ⟨rule, -, rfl⟩ := List.mem_map.1 hc
    exact i.accounted_checkedType t rule
  · obtain ⟨m, hm, hc⟩ := List.mem_flatMap.1 hc
    obtain ⟨rule, -, rfl⟩ := List.mem_map.1 hc
    exact accounted_checkedMethod hm rule

end Inspection

theorem defects_eq_failures {i : Inspection} {checks : List Checked}
    (h : ∀ c ∈ checks, c.Accounted i) :
    (checks.filterMap Prod.snd).map (fun d => (d.rule, d.target)) =
      ((checks.map Prod.fst).filter (·.outcome == .failure)).map fun v =>
        (v.rule, v.target) := by
  induction checks with
  | nil => rfl
  | cons c rest ih =>
      have hrest := ih fun c hc => h c (List.mem_cons_of_mem _ hc)
      have hc := h c (List.mem_cons_self ..)
      obtain ⟨v, found⟩ := c
      rw [List.map_cons, List.filterMap_cons, List.filter_cons]
      cases found with
      | none =>
          have hpassed : ¬(v.outcome == .failure) = true := by
            intro hfailed
            have hsome := hc.reports.2 (beq_iff_eq.1 hfailed)
            cases hsome
          rw [if_neg hpassed]
          exact hrest
      | some d =>
          have hfailed : (v.outcome == .failure) = true :=
            beq_iff_eq.2 (hc.reports.1 rfl)
          obtain ⟨hrule, htarget⟩ := hc.names d rfl
          rw [if_pos hfailed, List.map_cons, List.map_cons, hrest,
            hrule, htarget]

/-! ## The summary -/

section

variable {κ β : Type} [DecidableEq κ]

theorem lookup_cons_of_ne {k k' : κ} (h : k ≠ k') (x : β)
    (rest : List (κ × β)) :
    ((k', x) :: rest).lookup k = rest.lookup k := by
  rw [List.lookup_cons, beq_false_of_ne h]

theorem lookup_alterEntry (key k : κ) (change : Option β → β)
    (entries : List (κ × β)) :
    (alterEntry key change entries).lookup k =
      if k = key then some (change (entries.lookup key))
      else entries.lookup k := by
  induction entries with
  | nil =>
      by_cases h : k = key
      · simp [alterEntry, h]
      · simp [alterEntry, h]
  | cons entry rest ih =>
      obtain ⟨k', x⟩ := entry
      rw [alterEntry]
      by_cases hkey : k' = key
      · subst hkey
        by_cases h : k = k'
        · simp [h]
        · rw [if_pos rfl, if_neg h, lookup_cons_of_ne h, lookup_cons_of_ne h]
      · rw [if_neg hkey, lookup_cons_of_ne (Ne.symm hkey)]
        by_cases h : k = k'
        · subst h
          simp [hkey]
        · rw [lookup_cons_of_ne h, lookup_cons_of_ne h, ih]

theorem keys_alterEntry (key : κ) (change : Option β → β)
    (entries : List (κ × β)) :
    (alterEntry key change entries).map Prod.fst =
      if key ∈ entries.map Prod.fst then entries.map Prod.fst
      else entries.map Prod.fst ++ [key] := by
  induction entries with
  | nil => rfl
  | cons entry rest ih =>
      obtain ⟨k, x⟩ := entry
      rw [alterEntry]
      by_cases hkey : k = key
      · simp [hkey]
      · rw [if_neg hkey, List.map_cons, ih]
        by_cases hmem : key ∈ rest.map Prod.fst
        · simp [hmem]
        · simp [hmem, Ne.symm hkey]

theorem nodup_keys_alterEntry {entries : List (κ × β)}
    (h : (entries.map Prod.fst).Nodup) (key : κ)
    (change : Option β → β) :
    ((alterEntry key change entries).map Prod.fst).Nodup := by
  rw [keys_alterEntry]
  split
  · exact h
  · next hfresh =>
      rw [List.nodup_append]
      refine ⟨h, List.nodup_singleton _, ?_⟩
      intro k hk key' hkey' heq
      rw [List.mem_singleton.1 hkey'] at heq
      exact hfresh (heq ▸ hk)

/-- A changed list has the old entries, and what the change makes of one of
them or of nothing. -/
theorem mem_alterEntry {key : κ} {change : Option β → β}
    {entries : List (κ × β)} {entry : κ × β}
    (h : entry ∈ alterEntry key change entries) :
    entry ∈ entries ∨ entry = (key, change none) ∨
      ∃ x, (key, x) ∈ entries ∧ entry = (key, change (some x)) := by
  induction entries with
  | nil => exact .inr (.inl (List.mem_singleton.1 h))
  | cons head rest ih =>
      obtain ⟨k, x⟩ := head
      rw [alterEntry] at h
      split at h
      · next hkey =>
          subst hkey
          rcases List.mem_cons.1 h with rfl | h
          · exact .inr (.inr ⟨x, List.mem_cons_self .., rfl⟩)
          · exact .inl (List.mem_cons_of_mem _ h)
      · rcases List.mem_cons.1 h with rfl | h
        · exact .inl (List.mem_cons_self ..)
        · rcases ih h with hold | hnew | ⟨x', hx', heq⟩
          · exact .inl (List.mem_cons_of_mem _ hold)
          · exact .inr (.inl hnew)
          · exact .inr (.inr ⟨x', List.mem_cons_of_mem _ hx', heq⟩)

end

/-- The number that a summary has for a rule and an outcome, zero where it has
none. -/
def Summary.number (s : Summary) (rule : String) (outcome : Outcome) : Nat :=
  ((s.lookup rule).bind (List.lookup outcome)).getD 0

/-- A row of a summary has one number for each outcome, none of them zero. -/
structure IsRow (row : List (Outcome × Nat)) : Prop where
  outcomes : (row.map Prod.fst).Nodup
  occur : ∀ entry ∈ row, entry.2 ≠ 0

theorem isRow_nil : IsRow [] := ⟨List.nodup_nil, by simp⟩

/-- A summary has one row for each rule that occurs, and its numbers are those
of the verdicts. One more verdict keeps this, so the summary of any number
does. -/
structure Summary.Tallies (s : Summary) (verdicts : List Verdict) : Prop where
  numbers : ∀ rule outcome,
    s.number rule outcome = verdicts.countP fun v => v.rule == rule &&
      v.outcome == outcome
  rules : (s.map Prod.fst).Nodup
  rows : ∀ row ∈ s, row.2 ≠ [] ∧ IsRow row.2

theorem IsRow.alterEntry {row : List (Outcome × Nat)} (h : IsRow row)
    (outcome : Outcome) :
    alterEntry outcome (fun n => n.getD 0 + 1) row ≠ [] ∧
      IsRow (alterEntry outcome (fun n => n.getD 0 + 1) row) := by
  refine ⟨?_, nodup_keys_alterEntry h.outcomes _ _, ?_⟩
  · intro hnil
    have hlookup := lookup_alterEntry outcome outcome
      (fun n => n.getD 0 + 1) row
    rw [hnil, if_pos rfl] at hlookup
    cases hlookup
  · intro entry hentry
    rcases mem_alterEntry hentry with hold | rfl | ⟨n, -, rfl⟩
    · exact h.occur entry hold
    · exact Nat.succ_ne_zero _
    · exact Nat.succ_ne_zero _

namespace Summary

variable {s : Summary} {verdicts : List Verdict}

theorem number_add (s : Summary) (v : Verdict) (rule : String)
    (outcome : Outcome) :
    (s.add v).number rule outcome =
      s.number rule outcome +
        if v.rule = rule ∧ v.outcome = outcome then 1 else 0 := by
  unfold number add
  rw [lookup_alterEntry]
  by_cases hrule : rule = v.rule
  · subst hrule
    rw [if_pos rfl, Option.bind_some, lookup_alterEntry]
    by_cases houtcome : outcome = v.outcome
    · subst houtcome
      cases s.lookup v.rule <;> simp
    · have hother : ¬v.outcome = outcome := fun h => houtcome h.symm
      cases s.lookup v.rule <;> simp [houtcome, hother]
  · rw [if_neg hrule, if_neg (fun h => hrule h.1.symm), Nat.add_zero]

theorem tallies_nil : Tallies [] [] where
  numbers _ _ := rfl
  rules := List.nodup_nil
  rows row hrow := by cases hrow

theorem Tallies.add (h : s.Tallies verdicts) (v : Verdict) :
    (s.add v).Tallies (verdicts ++ [v]) := by
  refine ⟨?_, nodup_keys_alterEntry h.rules _ _, ?_⟩
  · intro rule outcome
    rw [number_add, h.numbers, List.countP_append, List.countP_singleton]
    simp only [Bool.and_eq_true, beq_iff_eq]
  · intro row hrow
    rcases mem_alterEntry hrow with hold | rfl | ⟨row, hmem, rfl⟩
    · exact h.rows row hold
    · exact isRow_nil.alterEntry v.outcome
    · exact (h.rows _ hmem).2.alterEntry v.outcome

end Summary

theorem Report.tallies_summary (r : Report) : r.summary.Tallies r.verdicts := by
  unfold Report.summary
  induction r.verdicts using List.reverseRecOn with
  | nil => exact Summary.tallies_nil
  | append_singleton verdicts v ih =>
      rw [List.foldl_append]
      exact ih.add v

/-! ## The whole report -/

theorem Report.isClean_iff (r : Report) :
    r.isClean = true ↔ r.verdicts.filter (·.outcome == .failure) = [] := by
  rw [isClean, count, beq_iff_eq, List.countP_eq_length_filter,
    List.length_eq_zero_iff]

/-- Verdicts and defects of a report match one to one. There is a verdict for
each type and type rule and then for each method and method rule, with the
outcome that the check has on its own. The defects are those of the failures,
rule for rule and target for target; one that names an instruction names a call
that writes diagnostics and is of normal confidence, and no other is. A report
is clean if it has no defects, and its summary counts the verdicts. -/
theorem report_adds_up (i : Inspection) (rules : RuleSet) :
    (i.run rules).verdicts =
      (i.assembly.types.flatMap fun t => rules.typeRules.map fun rule =>
        ⟨rule.id, t.fullName, (i.checkType rule t).outcome⟩) ++
      (i.assembly.types.flatMap fun t => t.methods.flatMap fun m =>
        rules.methodRules.map fun rule =>
        ⟨rule.id, m.reportName, (i.checkMethod rule m {}).1.outcome⟩) ∧
    ((i.run rules).defects.map fun d => (d.rule, d.target)).Perm
      (((i.run rules).verdicts.filter (·.outcome == .failure)).map fun v =>
        (v.rule, v.target)) ∧
    (∀ d ∈ (i.run rules).defects, d.IsLocated i) ∧
    ((i.run rules).isClean = true ↔ (i.run rules).defects = []) ∧
    (i.run rules).summary.Tallies (i.run rules).verdicts := by
  have hmatch := defects_eq_failures fun c (hc : c ∈ i.checks rules) =>
    Inspection.accounted_of_mem_checks hc
  have hclean := (i.run rules).isClean_iff
  refine ⟨?_, ?_, ?_, ?_, (i.run rules).tallies_summary⟩
  · rw [Inspection.run_eq]
    unfold Inspection.checks Assembly.methods
    simp only [List.map_append, List.map_flatMap, List.map_map,
      List.flatMap_assoc]
    rfl
  · rw [Inspection.run_eq]
    exact .of_eq hmatch
  · intro d hd
    rw [Inspection.run_eq] at hd
    obtain ⟨c, hc, hd⟩ := List.mem_filterMap.1 hd
    exact (Inspection.accounted_of_mem_checks hc).located d hd
  · rw [hclean, Inspection.run_eq]
    dsimp only
    rw [← List.map_eq_nil_iff, ← hmatch, List.map_eq_nil_iff]

end CilAudit
