import CilAudit.Proofs.Trail

/-!
# What an answered trace has found

`resolveArgument` ends a trace in two ways: at a pushed text, or at a key that
it looks up in the table of a resource class. The look-up may go through a
cache, and a cache can hold anything. One that was only ever filled by look-ups
holds what the assembly itself would answer, so the cache drops out of the
answer: `resolved_iff` says what it means for an argument to be resolved, in
terms of the trace and the assembly alone.
-/

namespace CilAudit

open Code (Body)

/-! ## Caches filled by look-ups -/

namespace Cache

/-- The cache came about by look-ups, none of them in another assembly that
goes by the name of `a`. A cache files by names, so two assemblies of one name
would answer for each other; this is all that its users have to rule out. -/
inductive FilledFor (a : Assembly) : Cache → Prop
  | empty : FilledFor a {}
  | lookup {c : Cache} {b : Assembly} (resource : String) :
      FilledFor a c → (b.name = a.name → b = a) →
      FilledFor a (c.table? b resource).2

/-- Every table that the cache holds for the assembly is the assembly's own.
This is what look-ups preserve and what answers rest on. -/
def Faithful (c : Cache) (a : Assembly) : Prop :=
  ∀ resource table, c.tables[(a.name, resource)]? = some table →
    table = a.table? resource

theorem Faithful.table? {c : Cache} {a : Assembly} (h : c.Faithful a)
    (resource : String) :
    (c.table? a resource).1 = a.table? resource := by
  unfold Cache.table?
  split
  · next table hc => exact h resource table hc
  · rfl

theorem Faithful.lookup {c : Cache} {a b : Assembly} (h : c.Faithful a)
    (hb : b.name = a.name → b = a) (resource : String) :
    (c.table? b resource).2.Faithful a := by
  unfold Cache.table?
  split
  · exact h
  · intro other table hc
    dsimp only at hc
    rw [Std.HashMap.getElem?_insert] at hc
    split at hc
    · next hkey =>
        simp only [beq_iff_eq, Prod.mk.injEq] at hkey
        obtain ⟨hname, rfl⟩ := hkey
        obtain rfl := hb hname
        simpa using hc.symm
    · exact h other table hc

theorem FilledFor.faithful {c : Cache} {a : Assembly} (h : c.FilledFor a) :
    c.Faithful a := by
  induction h with
  | empty =>
      intro resource table hc
      simp at hc
  | lookup resource _ hb ih => exact ih.lookup hb resource

theorem FilledFor.lookup? {c : Cache} {a : Assembly} (h : c.FilledFor a)
    (limits : Limits) (declaringType key : String) :
    (c.lookup? limits a declaringType key).1 = a.text? declaringType key := by
  unfold Cache.lookup?
  split
  · unfold Cache.text?
    dsimp only
    rw [h.faithful.table?]
    rfl
  · rfl

end Cache

/-! ## The answer -/

/-- The text that stands at an origin, looked up in the assembly itself. An
origin in a resource class has none if the blob lacks the key, or if it is not
there or cannot be read. -/
def Origin.text? (a : Assembly) : Origin → Option String
  | .literal text => some text
  | .resource declaringType key => a.text? declaringType key

/-- An argument is resolved when a trace from its slot ends at a text. The
cache drops out here: theorems about answers go on from the trace alone. -/
theorem resolved_iff {limits : Limits} {a : Assembly} {body : Body}
    {site position : Nat}
    {cache : Cache} {text : String} (hc : cache.FilledFor a) :
    (resolveArgument limits a body site position cache).1 = .resolved text ↔
      ∃ target o, body.callTarget? site = some target ∧
        position < target.params.length ∧
        (Route.ofLimits limits a body).origin site
          (target.params.length - 1 - position) 0 0 =
          .ok o ∧ o.text? a = some text := by
  unfold resolveArgument Route.argumentOrigin slotDepth?
  rw [show (Route.ofLimits limits a body).body = body from rfl]
  cases ht : body.callTarget? site with
  | none => simp
  | some target =>
      by_cases hp : position < target.params.length
      · simp only [if_pos hp]
        cases ho : (Route.ofLimits limits a body).origin site
            (target.params.length - 1 - position) 0 0 with
        | error reason => simp [ho]
        | ok o =>
            cases o with
            | literal t => simp [ho, hp, Origin.text?]
            | resource declaringType key =>
                have hl := hc.lookup? limits declaringType key
                dsimp only
                split
                · next found _ hf =>
                    rw [hf] at hl
                    simp [ho, hp, Origin.text?, ← hl]
                · next hf =>
                    rw [hf] at hl
                    simp [ho, hp, Origin.text?, ← hl]
      · simp [hp]

end CilAudit
