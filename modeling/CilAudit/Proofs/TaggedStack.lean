import CilAudit.Proofs.Visits

/-!
# The producer of a slot is the one that pushed it

A search for the producer of a slot keeps one number while it goes back: how
deep the slot lies. A run forward keeps the whole stack, and if every slot
carries the index of the instruction that pushed it as a tag, the producer can
be read off at the end. `producer_iff_tagged` says that the two agree in all
three answers: a producer is the tag, and a search gives up at the start of the
code or at an unknown effect because the slot was there before.

The one fact behind it is about slots that nobody touches. `Survives` says of a
depth before one instruction and a depth before a later one that they are the
same slot: what lies above it comes and goes, and it stays. A search walks back
along it without an answer (`Survives.producer`) and a run carries the tag
along it (`Survives.tag`), however the depth shifts on the way. So both are
decided by the place where it begins, and `Ends` names the three kinds of such
places.

How deep the stack is before a run does not matter as long as it is deep
enough, so `LeavesTag` asks for the tag from some depth on.
-/

namespace CilAudit

open Code (Body Instruction StackEffect)

/-! ## The tagged run -/

/-- The effect of the instruction at an index, as far as it is known. -/
def Code.Body.effectAt? (body : Body) (index : Nat) : Option StackEffect :=
  (body.get? index).bind (·.effect?)

/-- All instructions from `first` up to but not including `stop` have a known
effect. -/
def Code.Body.KnownFrom (body : Body) (first stop : Nat) : Prop :=
  ∀ k, first ≤ k → k < stop → ∃ e, body.effectAt? k = some e

/-- The tags after an instruction of known effect, if the stack holds what it
takes. A slot that an instruction pushed is tagged with its index. -/
def Code.StackEffect.tag (e : StackEffect) (index : Nat)
    (tags : List (Option Nat)) :
    Option (List (Option Nat)) :=
  if tags.length < e.pops then none
  else some (List.replicate e.pushes (some index) ++ tags.drop e.pops)

/-- The tags before `stop`, top first, when control runs straight on from
`first` with `tags`. Tags follow slots and not values, so that a copy of a
value has the tag of whoever copied it. -/
def tagsBefore (body : Body) (first stop : Nat) (tags : List (Option Nat)) :
    Option (List (Option Nat)) :=
  (List.range' first (stop - first)).foldlM
    (fun tags index => (body.effectAt? index).bind fun e =>
      e.tag index tags) tags

/-- From every stack of untagged slots that is deep enough, the run from
`first` comes to `stop` with `tag` in the slot `depth` below the top. How deep
is enough does not matter, because a run never sees more than it takes. -/
def LeavesTag (body : Body) (first stop depth : Nat)
    (tag : Option Nat) : Prop :=
  ∃ enough, ∀ height, enough ≤ height →
    ∃ tags, tagsBefore body first stop (List.replicate height none) =
      some tags ∧
      tags[depth]? = some tag

section

variable {body : Body} {first stop need : Nat} {tags tags' : List (Option Nat)}

theorem tagsBefore_self (body : Body) (first : Nat) (tags : List (Option Nat)) :
    tagsBefore body first first tags = some tags := by
  rw [tagsBefore, Nat.sub_self]
  rfl

theorem tagsBefore_succ (h : first ≤ stop) :
    tagsBefore body first (stop + 1) tags =
      (tagsBefore body first stop tags).bind fun tags =>
      (body.effectAt? stop).bind fun e => e.tag stop tags := by
  have hcount : stop + 1 - first = stop - first + 1 := by omega
  have hlast : first + (stop - first) = stop := by omega
  rw [tagsBefore, hcount, List.range'_1_concat, hlast, List.foldlM_append]
  simp [tagsBefore]

/-- A run can be cut at any instruction on its way. -/
theorem tagsBefore_trans {mid : Nat} (hfirst : first ≤ mid)
    (hstop : mid ≤ stop) :
    tagsBefore body first stop tags =
      (tagsBefore body first mid tags).bind (tagsBefore body mid stop) := by
  have hcount : stop - first = (mid - first) + (stop - mid) := by omega
  have hmid : first + (mid - first) = mid := by omega
  rw [tagsBefore, hcount, ← List.range'_append_1, hmid, List.foldlM_append]
  rfl

theorem eq_of_tag {e : StackEffect} {index : Nat}
    (h : e.tag index tags = some tags') :
    e.pops ≤ tags.length ∧
      tags' = List.replicate e.pushes (some index) ++ tags.drop e.pops := by
  unfold StackEffect.tag at h
  split at h
  · cases h
  · next hge => exact ⟨Nat.le_of_not_lt hge, (Option.some.inj h).symm⟩

/-- A slot among those that an instruction pushed has its tag. -/
theorem tag_pushed {e : StackEffect} {index : Nat}
    (h : e.tag index tags = some tags')
    (hneed : need < e.pushes) : tags'[need]? = some (some index) := by
  obtain ⟨-, rfl⟩ := eq_of_tag h
  rw [List.getElem?_append_left (by simpa using hneed),
    List.getElem?_replicate_of_lt hneed]

/-- Any other slot keeps its tag, as much deeper or shallower as the
instruction took or left. -/
theorem tag_kept {e : StackEffect} {index : Nat}
    (h : e.tag index tags = some tags')
    (hneed : e.pushes ≤ need) :
    tags'[need]? = tags[need - e.pushes + e.pops]? := by
  obtain ⟨-, rfl⟩ := eq_of_tag h
  rw [List.getElem?_append_right (by simpa using hneed), List.getElem?_drop,
    List.length_replicate, Nat.add_comm]

/-- Known effects can be run, and a stack of any depth left, if the stack was
deep enough before. Nothing else can go wrong in such a run. -/
theorem exists_tagsBefore (hle : first ≤ stop) (h : body.KnownFrom first stop)
    (depth : Nat) :
    ∃ enough, ∀ tags : List (Option Nat), enough ≤ tags.length →
      ∃ tags', tagsBefore body first stop tags = some tags' ∧
        depth ≤ tags'.length := by
  induction stop, hle using Nat.le_induction generalizing depth with
  | base =>
      exact ⟨depth, fun tags hlen =>
        ⟨tags, tagsBefore_self body first tags, hlen⟩⟩
  | succ stop hle ih =>
      obtain ⟨e, he⟩ := h stop hle (Nat.lt_succ_self stop)
      obtain ⟨enough, hrun⟩ :=
        ih (fun k hk hk' => h k hk (Nat.lt_succ_of_lt hk')) (e.pops + depth)
      refine ⟨enough, fun tags hlen => ?_⟩
      obtain ⟨mid, hmid, hdeep⟩ := hrun tags hlen
      refine ⟨List.replicate e.pushes (some stop) ++ mid.drop e.pops, ?_, ?_⟩
      · rw [tagsBefore_succ hle, hmid, he]
        exact if_neg (by omega)
      · rw [List.length_append, List.length_replicate, List.length_drop]
        omega

theorem LeavesTag.unique {depth : Nat} {tag tag' : Option Nat}
    (h : LeavesTag body first stop depth tag)
    (h' : LeavesTag body first stop depth tag') : tag = tag' := by
  obtain ⟨enough, hrun⟩ := h
  obtain ⟨enough', hrun'⟩ := h'
  obtain ⟨tags, htags, htag⟩ := hrun (max enough enough') (Nat.le_max_left _ _)
  obtain ⟨tags', htags', htag'⟩ :=
    hrun' (max enough enough') (Nat.le_max_right _ _)
  obtain rfl := Option.some.inj (htags.symm.trans htags')
  exact Option.some.inj (htag.symm.trans htag')

end

/-! ## Slots that nobody touches -/

/-- One step back of a search that halts nowhere and has a step left. -/
theorem producer_succ {body : Body} {halts : Nat → Bool}
    {maxSteps index need steps : Nat}
    {i : Instruction} (hi : body.get? index = some i)
    (hhalts : ∀ k, halts k = false)
    (hbudget : producer body halts maxSteps (index + 1) need steps ≠
      .error .budget) :
    (i.effect? = none →
      producer body halts maxSteps (index + 1) need steps =
        .error .unknownEffect) ∧
    ∀ e, i.effect? = some e →
      producer body halts maxSteps (index + 1) need steps =
      if need < e.pushes then .ok (index, steps + 1)
      else producer body halts maxSteps index (need - e.pushes + e.pops)
        (steps + 1) := by
  rw [producer, if_neg (by simp [hhalts]), hi] at hbudget ⊢
  dsimp only at hbudget ⊢
  by_cases hused : maxSteps ≤ steps
  · rw [if_pos hused] at hbudget
    exact absurd rfl hbudget
  · rw [if_neg hused]
    refine ⟨fun hnone => ?_, fun e he => ?_⟩
    · rw [hnone]
    · rw [he]

/-- The slot `under` below the top before `first` lies `need` below the top
before `stop`: every instruction between has a known effect and leaves the slot
alone. Read forward this is a run that carries a slot along, and read backward
a search that has not found it yet. -/
inductive Survives (body : Body) (first under : Nat) : (stop need : Nat) → Prop
  | here : Survives body first under first under
  | step {index need : Nat} {e : StackEffect} :
      body.effectAt? index = some e → e.pushes ≤ need →
      Survives body first under index (need - e.pushes + e.pops) →
      Survives body first under (index + 1) need

namespace Survives

variable {body : Body} {first under stop need : Nat}

theorem le (h : Survives body first under stop need) : first ≤ stop := by
  induction h with
  | here => exact Nat.le_refl _
  | step _ _ _ ih => exact Nat.le_succ_of_le ih

theorem known (h : Survives body first under stop need) :
    body.KnownFrom first stop := by
  induction h with
  | here =>
      intro k hk hk'
      omega
  | @step index need e he _ _ ih =>
      intro k hk hk'
      rcases Nat.lt_or_ge k index with hlt | hge
      · exact ih k hk hlt
      · obtain rfl : k = index := by omega
        exact ⟨e, he⟩

/-- What survives from an instruction survives from every later one. -/
theorem later {mid : Nat} (h : Survives body first under stop need)
    (hfirst : first ≤ mid)
    (hstop : mid ≤ stop) : ∃ under', Survives body mid under' stop need := by
  induction h with
  | here =>
      obtain rfl : mid = first := by omega
      exact ⟨under, .here⟩
  | @step index need e he hge _ ih =>
      rcases Nat.lt_or_ge index mid with hlt | hle
      · obtain rfl : mid = index + 1 := by omega
        exact ⟨need, .here⟩
      · obtain ⟨under', hsurvives⟩ := ih hle
        exact ⟨under', .step he hge hsurvives⟩

/-- A run carries the tag of a slot along with it. -/
theorem tag {tags tags' : List (Option Nat)}
    (h : Survives body first under stop need)
    (hrun : tagsBefore body first stop tags = some tags') :
    tags'[need]? = tags[under]? := by
  induction h generalizing tags' with
  | here =>
      rw [tagsBefore_self] at hrun
      obtain rfl := Option.some.inj hrun
      rfl
  | @step index need e he hge hrest ih =>
      rw [tagsBefore_succ hrest.le, he] at hrun
      obtain ⟨mid, hmid, htag⟩ := Option.bind_eq_some_iff.1 hrun
      rw [tag_kept htag hge, ih hmid]

/-- A search goes back along it without an answer, unless its steps are used
up. -/
theorem producer {halts : Nat → Bool} {maxSteps steps : Nat}
    (h : Survives body first under stop need) (hhalts : ∀ k, halts k = false)
    (hbudget : CilAudit.producer body halts maxSteps stop need steps ≠
      .error .budget) :
    ∃ steps', CilAudit.producer body halts maxSteps stop need steps =
      CilAudit.producer body halts maxSteps first under steps' := by
  induction h generalizing steps with
  | here => exact ⟨steps, rfl⟩
  | @step index need e he hge _ ih =>
      obtain ⟨i, hi, heffect⟩ := Option.bind_eq_some_iff.1 he
      have hback := (producer_succ hi hhalts hbudget).2 e heffect
      rw [if_neg (Nat.not_lt_of_ge hge)] at hback
      rw [hback] at hbudget ⊢
      exact ih hbudget

/-- A slot that survives from `first` has no tag of a run from there. -/
theorem leavesTag (h : Survives body first under stop need) :
    LeavesTag body first stop need none := by
  obtain ⟨enough, hrun⟩ := exists_tagsBefore h.le h.known 0
  refine ⟨max enough (under + 1), fun height hheight => ?_⟩
  obtain ⟨tags, htags, -⟩ := hrun (List.replicate height none) (by simp; omega)
  exact ⟨tags, htags,
    by rw [h.tag htags, List.getElem?_replicate_of_lt (by omega)]⟩

/-- A slot that survives from behind its producer has the tag of the producer
in every run over it. -/
theorem leavesTag_pushed {p : Nat} {e : StackEffect}
    (h : Survives body (p + 1) under stop need)
    (he : body.effectAt? p = some e) (hunder : under < e.pushes)
    (hfirst : first ≤ p)
    (hknown : body.KnownFrom first stop) :
    LeavesTag body first stop need (some p) := by
  have hstop : p + 1 ≤ stop := h.le
  obtain ⟨enough, hrun⟩ := exists_tagsBefore (by omega) hknown 0
  refine ⟨enough, fun height hheight => ?_⟩
  obtain ⟨tags, htags, -⟩ :=
    hrun (List.replicate height none) (by simpa using hheight)
  refine ⟨tags, htags, ?_⟩
  rw [tagsBefore_trans (Nat.le_succ_of_le hfirst) hstop] at htags
  obtain ⟨mid, hmid, htags⟩ := Option.bind_eq_some_iff.1 htags
  rw [tagsBefore_succ hfirst, he] at hmid
  obtain ⟨before, -, htag⟩ := Option.bind_eq_some_iff.1 hmid
  rw [h.tag htags, tag_pushed htag hunder]

end Survives

/-! ## How a search ends -/

/-- The three ways in which a search can end, said without counting its steps:
at the instruction that pushed the slot, at an unknown effect, or at the start.
-/
inductive Ends (body : Body) (start depth : Nat) : Except Reason Nat → Prop
  | pushed {p under : Nat} {e : StackEffect} :
      Survives body (p + 1) under start depth → body.effectAt? p = some e →
      under < e.pushes →
      Ends body start depth (.ok p)
  | unknown {u under : Nat} :
      Survives body (u + 1) under start depth → body.effectAt? u = none →
      Ends body start depth (.error .unknownEffect)
  | bottom {under : Nat} :
      Survives body 0 under start depth →
      Ends body start depth (.error .exhausted)

namespace Ends

variable {body : Body} {start depth : Nat} {r : Except Reason Nat}

/-- A search that steps back over an instruction ends as it does from there. -/
theorem back {index : Nat} {e : StackEffect}
    (he : body.effectAt? index = some e)
    (hge : e.pushes ≤ depth)
    (h : Ends body index (depth - e.pushes + e.pops) r) :
    Ends body (index + 1) depth r := by
  cases h with
  | pushed hsurvives hp hunder =>
      exact .pushed (.step he hge hsurvives) hp hunder
  | unknown hsurvives hu => exact .unknown (.step he hge hsurvives) hu
  | bottom hsurvives => exact .bottom (.step he hge hsurvives)

/-- Every search ends in one of the three ways. By induction on where it
starts. -/
theorem exists_ends (body : Body) (start depth : Nat) :
    ∃ r, Ends body start depth r := by
  induction start generalizing depth with
  | zero => exact ⟨_, .bottom .here⟩
  | succ index ih =>
      cases he : body.effectAt? index with
      | none => exact ⟨_, .unknown .here he⟩
      | some e =>
          rcases Nat.lt_or_ge depth e.pushes with hlt | hge
          · exact ⟨_, .pushed .here he hlt⟩
          · obtain ⟨r, hr⟩ := ih (depth - e.pushes + e.pops)
            exact ⟨r, hr.back he hge⟩

/-- The answer of a search is how it ends. -/
theorem answer {halts : Nat → Bool} {maxSteps : Nat}
    (h : Ends body start depth r)
    (hstart : start ≤ body.size) (hhalts : ∀ k, halts k = false)
    (hbudget : producer body halts maxSteps start depth 0 ≠ .error .budget) :
    (producer body halts maxSteps start depth 0).map Prod.fst = r := by
  cases h with
  | pushed hsurvives hp hunder =>
      obtain ⟨steps, hback⟩ := hsurvives.producer hhalts hbudget
      rw [hback] at hbudget ⊢
      obtain ⟨i, hi, heffect⟩ := Option.bind_eq_some_iff.1 hp
      rw [(producer_succ hi hhalts hbudget).2 _ heffect, if_pos hunder]
      rfl
  | @unknown u under hsurvives hu =>
      obtain ⟨steps, hback⟩ := hsurvives.producer hhalts hbudget
      rw [hback] at hbudget ⊢
      have hlt : u < body.code.size := Nat.lt_of_lt_of_le hsurvives.le hstart
      have hi : body.get? u = some body.code[u] := Array.getElem?_eq_getElem hlt
      rw [Body.effectAt?, hi] at hu
      rw [(producer_succ hi hhalts hbudget).1 hu]
      rfl
  | bottom hsurvives =>
      obtain ⟨steps, hback⟩ := hsurvives.producer hhalts hbudget
      rw [hback, producer, if_neg (by simp [hhalts])]
      rfl

/-- What a run from `first` says of the slot: the tag of its producer if it
starts no later, and nothing otherwise. -/
theorem leavesTag {first : Nat} (h : Ends body start depth r)
    (hfirst : first ≤ start) (hknown : body.KnownFrom first start) :
    (∃ p, r = .ok p ∧ LeavesTag body first start depth (some p)) ∨
      (LeavesTag body first start depth none ∧ ∀ p, r = .ok p → p < first) := by
  cases h with
  | @pushed p under e hsurvives hp hunder =>
      rcases Nat.lt_or_ge p first with hlt | hge
      · obtain ⟨under', hlater⟩ := hsurvives.later hlt hfirst
        refine Or.inr ⟨hlater.leavesTag, fun q hq => ?_⟩
        obtain rfl : p = q := Except.ok.inj hq
        exact hlt
      · exact Or.inl ⟨p, rfl, hsurvives.leavesTag_pushed hp hunder hge hknown⟩
  | @unknown u under hsurvives hu =>
      have hlt : u < first := by
        by_contra hge
        obtain ⟨e, he⟩ := hknown u (Nat.le_of_not_lt hge) hsurvives.le
        rw [hu] at he
        cases he
      obtain ⟨under', hlater⟩ := hsurvives.later hlt hfirst
      exact Or.inr ⟨hlater.leavesTag, fun p hp => by cases hp⟩
  | bottom hsurvives =>
      obtain ⟨under', hlater⟩ := hsurvives.later (Nat.zero_le _) hfirst
      exact Or.inr ⟨hlater.leavesTag, fun p hp => by cases hp⟩

theorem ok_iff {p : Nat} : Ends body start depth (.ok p) ↔
    p < start ∧ body.KnownFrom p start ∧ LeavesTag body p start depth
    (some p) := by
  constructor
  · intro h
    cases h with
    | @pushed _ under e hsurvives hp hunder =>
        have hknown : body.KnownFrom p start := by
          intro k hk hk'
          rcases Nat.eq_or_lt_of_le hk with rfl | hlt
          · exact ⟨e, hp⟩
          · exact hsurvives.known k hlt hk'
        exact ⟨hsurvives.le, hknown,
          hsurvives.leavesTag_pushed hp hunder (Nat.le_refl p) hknown⟩
  · rintro ⟨hlt, hknown, htagged⟩
    obtain ⟨r, hr⟩ := exists_ends body start depth
    rcases hr.leavesTag (Nat.le_of_lt hlt) hknown with
      ⟨q, rfl, htag⟩ | ⟨htag, -⟩
    · obtain rfl : p = q := Option.some.inj (htagged.unique htag)
      exact hr
    · exact absurd (htagged.unique htag) (by simp)

theorem unknownEffect_iff : Ends body start depth (.error .unknownEffect) ↔
    ∃ u, u < start ∧ body.effectAt? u = none ∧ body.KnownFrom (u + 1) start ∧
      LeavesTag body (u + 1) start depth none := by
  constructor
  · intro h
    cases h with
    | @unknown u under hsurvives hu =>
        exact ⟨u, hsurvives.le, hu, hsurvives.known, hsurvives.leavesTag⟩
  · rintro ⟨u, hlt, hu, hknown, htagged⟩
    obtain ⟨r, hr⟩ := exists_ends body start depth
    rcases hr.leavesTag hlt hknown with ⟨q, rfl, htag⟩ | ⟨-, hbefore⟩
    · exact absurd (htagged.unique htag) (by simp)
    · cases hr with
      | @pushed p under e hsurvives hp hunder =>
          -- the producer stands before the unknown effect, which the slot
          -- would have survived
          have hle : p ≤ u := Nat.le_of_lt_succ (hbefore p rfl)
          rcases Nat.eq_or_lt_of_le hle with rfl | hearlier
          · rw [hu] at hp
            cases hp
          · obtain ⟨e', he'⟩ := hsurvives.known u hearlier hlt
            rw [hu] at he'
            cases he'
      | unknown hsurvives hu' => exact .unknown hsurvives hu'
      | bottom hsurvives =>
          obtain ⟨e, he⟩ := hsurvives.known u (Nat.zero_le u) hlt
          rw [hu] at he
          cases he

theorem exhausted_iff : Ends body start depth (.error .exhausted) ↔
    body.KnownFrom 0 start ∧ LeavesTag body 0 start depth none := by
  constructor
  · intro h
    cases h with
    | bottom hsurvives => exact ⟨hsurvives.known, hsurvives.leavesTag⟩
  · rintro ⟨hknown, htagged⟩
    obtain ⟨r, hr⟩ := exists_ends body start depth
    rcases hr.leavesTag (Nat.zero_le start) hknown with
      ⟨q, rfl, htag⟩ | ⟨-, hbefore⟩
    · exact absurd (htagged.unique htag) (by simp)
    · cases hr with
      | @pushed p under e hsurvives hp hunder =>
          exact absurd (hbefore p rfl) (Nat.not_lt_zero p)
      | @unknown u under hsurvives hu =>
          obtain ⟨e, he⟩ := hknown u (Nat.zero_le u) hsurvives.le
          rw [hu] at he
          cases he
      | bottom hsurvives => exact .bottom hsurvives

end Ends

/-! ## The answers -/

namespace Route

variable {r : Route} {start depth : Nat}

/-- The producer of the slot `depth` below the top before `start`, searched for
with all steps left. -/
def freshProducer (r : Route) (start depth : Nat) : Except Reason Nat :=
  (producer r.body r.halts r.maxSteps start depth 0).map Prod.fst

theorem freshProducer_eq_error_iff {reason : Reason} :
    r.freshProducer start depth = .error reason ↔
      producer r.body r.halts r.maxSteps start depth 0 = .error reason := by
  unfold freshProducer
  cases producer r.body r.halts r.maxSteps start depth 0 <;> simp [Except.map]

theorem freshProducer_ne_budget (h : start ≤ r.maxSteps) :
    r.freshProducer start depth ≠ .error .budget := by
  intro hbudget
  have hlt := maxSteps_lt_of_producer (freshProducer_eq_error_iff.1 hbudget)
  omega

theorem freshProducer_eq_iff {answer : Except Reason Nat}
    (hhalts : ∀ k, r.halts k = false)
    (hstart : start ≤ r.body.size)
    (hbudget : r.freshProducer start depth ≠ .error .budget) :
    r.freshProducer start depth = answer ↔ Ends r.body start depth answer := by
  rw [ne_eq, freshProducer_eq_error_iff] at hbudget
  constructor
  · rintro rfl
    obtain ⟨answer, hends⟩ := Ends.exists_ends r.body start depth
    rwa [freshProducer, hends.answer hstart hhalts hbudget]
  · intro hends
    exact hends.answer hstart hhalts hbudget

end Route

/-- Where a search halts at no join, as many steps as there are instructions
before `start` are enough, and with enough steps it answers as a forward run
with tags does: the producer of a slot is the instruction that pushed it, the
search ends at an unknown effect for a slot that was there after the last one,
and at the start of the code for a slot that was there from the start. -/
theorem producer_iff_tagged (limits : Limits) (a : Assembly) (body : Body)
    (start depth : Nat)
    (answer : Except Reason Nat) (hjoins : limits.haltAtJoins = false)
    (hstart : start ≤ body.size)
    (hanswer : (Route.ofLimits limits a body).freshProducer start depth =
      answer) :
    (start ≤ limits.maxSteps → answer ≠ .error .budget) ∧
      (answer ≠ .error .budget →
        (∀ p, answer = .ok p ↔
          p < start ∧ body.KnownFrom p start ∧
          LeavesTag body p start depth (some p)) ∧
        (answer = .error .unknownEffect ↔
          ∃ u, u < start ∧ body.effectAt? u = none ∧
            body.KnownFrom (u + 1) start ∧
            LeavesTag body (u + 1) start depth none) ∧
        (answer = .error .exhausted ↔
          body.KnownFrom 0 start ∧ LeavesTag body 0 start depth none)) := by
  subst hanswer
  have hhalts : ∀ k, (Route.ofLimits limits a body).halts k = false := by
    intro k
    rw [Bool.eq_false_iff, ne_eq, Route.halts_ofLimits_iff, hjoins]
    simp
  refine ⟨fun hsteps => Route.freshProducer_ne_budget hsteps,
    fun hbudget => ⟨fun p => ?_, ?_, ?_⟩⟩
  · rw [Route.freshProducer_eq_iff hhalts hstart hbudget]
    exact Ends.ok_iff
  · rw [Route.freshProducer_eq_iff hhalts hstart hbudget]
    exact Ends.unknownEffect_iff
  · rw [Route.freshProducer_eq_iff hhalts hstart hbudget]
    exact Ends.exhausted_iff

/-- Behind the branch, its own load is the producer of the top and the branch
ends the search for the slot below. In front of it the condition is on top of
an empty stack, after a text was pushed and taken twice. -/
theorem producer_iff_tagged_branchedNotice :
    LeavesTag branchedNotice 6 7 0 (some 6) ∧
      (∃ u, u < 7 ∧ branchedNotice.effectAt? u = none ∧
        branchedNotice.KnownFrom (u + 1) 7 ∧
        LeavesTag branchedNotice (u + 1) 7 1 none) ∧
      branchedNotice.KnownFrom 0 5 ∧ LeavesTag branchedNotice 0 5 1 none := by
  have htop := producer_iff_tagged .permissive ⟨"Sample", [], ∅⟩ branchedNotice
    7 0 (.ok 6) rfl (by decide) (by decide +kernel)
  have hbelow := producer_iff_tagged .permissive ⟨"Sample", [], ∅⟩
    branchedNotice 7 1 (.error .unknownEffect) rfl (by decide)
      (by decide +kernel)
  have hempty := producer_iff_tagged .permissive ⟨"Sample", [], ∅⟩
    branchedNotice 5 1 (.error .exhausted) rfl (by decide) (by decide +kernel)
  refine ⟨(((htop.2 (by decide)).1 6).1 rfl).2.2, ?_, ?_⟩
  · exact (hbelow.2 (by decide)).2.1.1 rfl
  · exact (hempty.2 (by decide)).2.2.1 rfl

end CilAudit
