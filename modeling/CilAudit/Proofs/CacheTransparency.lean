import CilAudit.Code.Opcode.Table
import CilAudit.Proofs.Answer
import CilAudit.Proofs.BlobRoundTrip
import Mathlib.Data.Finset.Card

/-!
# The cache cannot be seen

A query of the cache has two outcomes: the entry is there and is read, or it is
missing and is filed from the assembly that was asked (`ask_cases`). Nothing is
ever taken out or replaced, so what the cache holds is a matter of what it was
asked: one entry for each pair of names, filed by the first query that named it
(`Holds`). Queries that agree on the pair agree on the blob, as long as no two
assemblies of one name are asked; this is the only place where the names of
assemblies matter, and without it the second assembly would be answered from
the first.

A trace looks up one text at most, and only to end there. So it adds to a cache
what a query would add (`exists_queries_of_resolveArgument`), and its answer
does not depend on the cache at all (`resolution_eq`).
-/

namespace CilAudit

open Code (Body)
open Resource (StringTable)

namespace Cache

/-! ## Queries -/

/-- A look-up of a key of a resource class. -/
structure Query where
  assembly : Assembly
  declaringType : String
  key : String

/-- The names under which a cache files the blob that a query is about. The key
is not among them: a blob is filed whole. -/
def Query.entry (q : Query) : String × String :=
  (q.assembly.name, tableName q.declaringType)

def Query.table? (q : Query) : Option StringTable :=
  q.assembly.table? (tableName q.declaringType)

def Query.text? (q : Query) : Option String :=
  q.assembly.text? q.declaringType q.key

def ask (c : Cache) (q : Query) : Option String × Cache :=
  c.text? q.assembly q.declaringType q.key

def after (c : Cache) (queries : List Query) : Cache :=
  queries.foldl (fun c q => (c.ask q).2) c

/-- No two assemblies of one name are asked. Blobs are filed under the names of
their assemblies, and without this a cache could answer for the wrong one. -/
def NamesOneAssemblyEach (queries : List Query) : Prop :=
  ∀ q ∈ queries, ∀ q' ∈ queries, q.assembly.name = q'.assembly.name →
    q.assembly = q'.assembly

theorem Query.table?_eq_of_entry {q q' : Query} (hentry : q.entry = q'.entry)
    (hassembly : q.assembly = q'.assembly) : q.table? = q'.table? := by
  rw [Query.table?, Query.table?, hassembly, (Prod.mk.inj hentry).2]

variable {c : Cache} {queries : List Query} {q : Query}

/-- Either the entry is read, or it is missing and is filed. All that queries
do to a cache is in these two cases, and every invariant is proved from them.
-/
theorem ask_cases (c : Cache) (q : Query) :
    (∃ table, c.tables[q.entry]? = some table ∧
      c.ask q = (table.bind (·[q.key]?), c)) ∨
      c.tables[q.entry]? = none ∧
        c.ask q = (q.text?,
          ⟨c.tables.insert q.entry q.table?, c.loads + 1⟩) := by
  unfold ask Cache.text? Cache.table?
  change (∃ table, c.tables[(q.assembly.name, tableName q.declaringType)]? = _ ∧
    _) ∨
    c.tables[(q.assembly.name, tableName q.declaringType)]? = none ∧ _
  cases h : c.tables[(q.assembly.name, tableName q.declaringType)]? with
  | none => exact .inr ⟨rfl, rfl⟩
  | some table => exact .inl ⟨table, rfl, rfl⟩

theorem getElem?_ask {entry : String × String} {table : Option StringTable}
    (h : c.tables[entry]? = some table) :
    (c.ask q).2.tables[entry]? = some table := by
  rcases c.ask_cases q with ⟨_, -, hask⟩ | ⟨hmiss, hask⟩
  · rw [hask]
    exact h
  · rw [hask]
    dsimp only
    rw [Std.HashMap.getElem?_insert]
    split
    · next heq =>
        rw [beq_iff_eq] at heq
        rw [heq, h] at hmiss
        cases hmiss
    · exact h

theorem getElem?_after {entry : String × String} {table : Option StringTable}
    (h : c.tables[entry]? = some table) (queries : List Query) :
    (c.after queries).tables[entry]? = some table := by
  induction queries generalizing c with
  | nil => exact h
  | cons q rest ih => exact ih (getElem?_ask h)

/-! ## What a cache holds -/

/-- The cache holds what the queries had it file: what each asked for, and
nothing else. This is the invariant that a row of queries keeps, and it counts
the parsing along. -/
structure Holds (c : Cache) (queries : List Query) : Prop where
  filed : ∀ q ∈ queries, c.tables[q.entry]? = some q.table?
  asked : ∀ entry ∈ c.tables, entry ∈ queries.map Query.entry
  loads : c.loads = c.size
  size : c.size = (queries.map Query.entry).toFinset.card

theorem holds_empty : Holds {} [] where
  filed q hq := by cases hq
  asked entry h := by simp at h
  loads := rfl
  size := rfl

/-- An entry that is there was filed by a query about the same blob. The query
may have asked for another key, but not of another assembly. -/
theorem Holds.table_eq {table : Option StringTable} (h : c.Holds queries)
    (hnames : NamesOneAssemblyEach (queries ++ [q]))
    (hentry : c.tables[q.entry]? = some table) :
    table = q.table? := by
  have hmem : q.entry ∈ c.tables :=
    Std.HashMap.mem_iff_isSome_getElem?.2 (by rw [hentry]; rfl)
  -- The query that had it filed may have asked for another key, but not of
  -- another assembly.
  obtain ⟨q', hq', heq⟩ := List.mem_map.1 (h.asked _ hmem)
  have hassembly : q'.assembly = q.assembly :=
    hnames q' (List.mem_append_left _ hq') q (by simp) (Prod.mk.inj heq).1
  rw [← heq, h.filed q' hq'] at hentry
  rw [← Option.some.inj hentry]
  exact Query.table?_eq_of_entry heq hassembly

theorem Holds.answer (h : c.Holds queries)
    (hnames : NamesOneAssemblyEach (queries ++ [q])) :
    (c.ask q).1 = q.text? := by
  rcases c.ask_cases q with ⟨table, hentry, hask⟩ | ⟨-, hask⟩
  · rw [hask, h.table_eq hnames hentry]
    rfl
  · rw [hask]

theorem toFinset_entries_append (queries : List Query) (q : Query) :
    ((queries ++ [q]).map Query.entry).toFinset =
      insert q.entry (queries.map Query.entry).toFinset := by
  ext entry
  simp

theorem Holds.again (h : c.Holds queries)
    (hentry : c.tables[q.entry]? = some q.table?) :
    c.Holds (queries ++ [q]) := by
  have hmem : q.entry ∈ queries.map Query.entry :=
    h.asked _ (Std.HashMap.mem_iff_isSome_getElem?.2 (by rw [hentry]; rfl))
  refine ⟨?_, ?_, h.loads, ?_⟩
  · intro q' hq'
    rcases List.mem_append.1 hq' with hq' | hq'
    · exact h.filed q' hq'
    · rw [List.mem_singleton.1 hq']
      exact hentry
  · intro entry hentry'
    rw [List.map_append]
    exact List.mem_append_left _ (h.asked entry hentry')
  · rw [toFinset_entries_append,
      Finset.insert_eq_of_mem (List.mem_toFinset.2 hmem)]
    exact h.size

theorem Holds.file (h : c.Holds queries) (hmiss : c.tables[q.entry]? = none) :
    Holds ⟨c.tables.insert q.entry q.table?, c.loads + 1⟩ (queries ++ [q]) := by
  have hfresh : ∀ q' ∈ queries, q'.entry ≠ q.entry := by
    intro q' hq' heq
    rw [← heq, h.filed q' hq'] at hmiss
    cases hmiss
  have hsize : (c.tables.insert q.entry q.table?).size = c.size + 1 := by
    rw [Std.HashMap.size_insert, if_neg]
    · rfl
    · rw [Std.HashMap.mem_iff_isSome_getElem?, hmiss]
      simp
  refine ⟨?_, ?_, ?_, ?_⟩
  · intro q' hq'
    rcases List.mem_append.1 hq' with hq' | hq'
    · rw [Std.HashMap.getElem?_insert,
        if_neg (by simpa using (hfresh q' hq').symm)]
      exact h.filed q' hq'
    · rw [List.mem_singleton.1 hq']
      exact Std.HashMap.getElem?_insert_self
  · intro entry hentry
    rw [List.map_append]
    rcases Std.HashMap.mem_insert.1 hentry with heq | hold
    · exact List.mem_append_right _ (by simpa using (beq_iff_eq.1 heq).symm)
    · exact List.mem_append_left _ (h.asked entry hold)
  · show c.loads + 1 = (c.tables.insert q.entry q.table?).size
    rw [hsize, h.loads]
  · show (c.tables.insert q.entry q.table?).size = _
    rw [hsize, h.size, toFinset_entries_append, Finset.card_insert_of_notMem]
    intro hmem
    obtain ⟨q', hq', heq⟩ := List.mem_map.1 (List.mem_toFinset.1 hmem)
    exact hfresh q' hq' heq

theorem Holds.ask (h : c.Holds queries)
    (hnames : NamesOneAssemblyEach (queries ++ [q])) :
    (c.ask q).2.Holds (queries ++ [q]) := by
  rcases c.ask_cases q with ⟨table, hentry, hask⟩ | ⟨hmiss, hask⟩
  · rw [hask]
    exact h.again (hentry.trans (congrArg some (h.table_eq hnames hentry)))
  · rw [hask]
    exact h.file hmiss

theorem after_append (c : Cache) (queries more : List Query) :
    c.after (queries ++ more) = (c.after queries).after more :=
  List.foldl_append ..

theorem NamesOneAssemblyEach.left {more : List Query}
    (h : NamesOneAssemblyEach (queries ++ more)) :
    NamesOneAssemblyEach queries :=
  fun q hq q' hq' => h q (List.mem_append_left _ hq) q'
    (List.mem_append_left _ hq')

theorem holds_after (hnames : NamesOneAssemblyEach queries) :
    (after {} queries).Holds queries := by
  induction queries using List.reverseRecOn with
  | nil => exact holds_empty
  | append_singleton queries q ih =>
      rw [after_append]
      exact (ih hnames.left).ask hnames

/-- Queries that mean an assembly by its name fill a cache as that assembly
would have it. -/
theorem FilledFor.after {a : Assembly} (h : c.FilledFor a)
    (hnames : ∀ q ∈ queries, q.assembly.name = a.name → q.assembly = a) :
    (c.after queries).FilledFor a := by
  induction queries generalizing c with
  | nil => exact h
  | cons q rest ih =>
      have hq : (c.ask q).2.FilledFor a :=
        .lookup _ h (hnames q (List.mem_cons_self ..))
      exact ih hq fun q' hq' => hnames q' (List.mem_cons_of_mem _ hq')

end Cache

/-! ## Traces -/

/-- The answer of a trace, as the assembly alone would have it. That a cache
makes no difference is then an equation. -/
def Resolution.ofOrigin (a : Assembly) : Except Reason Origin → Resolution
  | .error reason => .unresolved reason
  | .ok o =>
    match o.text? a with
    | some text => .resolved text
    | none => .unresolved .resourceMissing

theorem resolution_eq {limits : Limits} {a : Assembly} {body : Body}
    {site position : Nat} {cache : Cache} (hcache : cache.FilledFor a) :
    (resolveArgument limits a body site position cache).1 =
      .ofOrigin a ((Route.ofLimits limits a body).argumentOrigin site
        position) := by
  unfold resolveArgument
  cases (Route.ofLimits limits a body).argumentOrigin site position with
  | error reason => rfl
  | ok o =>
      cases o with
      | literal text => rfl
      | resource declaringType key =>
          have hlookup := hcache.lookup? limits declaringType key
          dsimp only [Resolution.ofOrigin, Origin.text?]
          rw [← hlookup]
          split
          · next text _ hfound => rw [hfound]
          · next hmissing => rw [hmissing]

theorem Cache.lookup?_cache (c : Cache) (limits : Limits) (a : Assembly)
    (declaringType key : String) :
    (c.lookup? limits a declaringType key).2 = c ∨
      (c.lookup? limits a declaringType key).2 =
        (c.ask ⟨a, declaringType, key⟩).2 := by
  unfold Cache.lookup?
  split
  · exact .inr rfl
  · exact .inl rfl

/-- A trace leaves the cache as queries of its own assembly would, one at most.
What is known of queries is so known of traces. -/
theorem exists_queries_of_resolveArgument (limits : Limits) (a : Assembly)
    (body : Body) (site position : Nat) (cache : Cache) :
    ∃ queries : List Cache.Query, (∀ q ∈ queries, q.assembly = a) ∧
      queries.length ≤ 1 ∧
      (resolveArgument limits a body site position cache).2 =
        cache.after queries := by
  have hnone : ∃ queries : List Cache.Query, (∀ q ∈ queries, q.assembly = a) ∧
      queries.length ≤ 1 ∧ cache = cache.after queries :=
    ⟨[], by simp, by simp, rfl⟩
  unfold resolveArgument
  cases (Route.ofLimits limits a body).argumentOrigin site position with
  | error reason => exact hnone
  | ok o =>
      cases o with
      | literal text => exact hnone
      | resource declaringType key =>
          have hlookup := cache.lookup?_cache limits a declaringType key
          dsimp only
          split
          all_goals
            next hresult =>
              rw [hresult] at hlookup
              rcases hlookup with hsame | hasked
              · exact hsame.symm ▸ hnone
              · exact ⟨[⟨a, declaringType, key⟩], by simp, by simp, hasked⟩

theorem Cache.FilledFor.resolveArgument {cache : Cache} {a : Assembly}
    (h : cache.FilledFor a)
    (limits : Limits) (body : Body) (site position : Nat) :
    (resolveArgument limits a body site position cache).2.FilledFor a := by
  obtain ⟨queries, hqueries, -, hcache⟩ :=
    exists_queries_of_resolveArgument limits a body site position cache
  rw [hcache]
  exact h.after fun q hq _ => hqueries q hq

/-- The cache is transparent. Whatever it was asked since it was empty, it
answers the next query as the assembly itself does; an entry that is there
stays as it is; blobs were parsed once for each pair of names that was asked
about, and each has its entry. Traces give the same answer over such a cache,
whether they use it or not, and leave a cache of the same kind. -/
theorem cache_transparent (queries : List Cache.Query)
    (hnames : Cache.NamesOneAssemblyEach queries) :
    (∀ asked q rest, queries = asked ++ q :: rest →
      ((Cache.after {} asked).ask q).1 =
        q.assembly.text? q.declaringType q.key) ∧
    (∀ asked rest, queries = asked ++ rest →
      (∀ (entry : String × String) (table : Option StringTable),
        (Cache.after {} asked).tables[entry]? = some table →
          (Cache.after {} queries).tables[entry]? = some table) ∧
      (∀ q ∈ asked, (Cache.after {} asked).tables[q.entry]? = some q.table?) ∧
      (Cache.after {} asked).loads = (Cache.after {} asked).size ∧
      (Cache.after {} asked).size =
        (asked.map Cache.Query.entry).toFinset.card) ∧
    ∀ (limits : Limits) (a : Assembly) (body : Body) (site position : Nat)
      (cached : Bool),
      (∀ q ∈ queries, q.assembly.name = a.name → q.assembly = a) →
        (resolveArgument { limits with cacheTables := cached } a body
          site position
          (Cache.after {} queries)).1 =
            (resolveArgument limits a body site position {}).1 ∧
        ∃ more, (∀ q ∈ more, q.assembly = a) ∧
          (resolveArgument { limits with cacheTables := cached } a body
            site position
            (Cache.after {} queries)).2 = Cache.after {} (queries ++ more) := by
  refine ⟨?_, ?_, ?_⟩
  · intro asked q rest hsplit
    have hq : Cache.NamesOneAssemblyEach (asked ++ [q]) := by
      rw [hsplit, List.append_cons] at hnames
      exact hnames.left
    exact (Cache.holds_after hq.left).answer hq
  · intro asked rest hsplit
    have hholds := Cache.holds_after
      (Cache.NamesOneAssemblyEach.left (hsplit ▸ hnames))
    refine ⟨?_, hholds.filed, hholds.loads, hholds.size⟩
    intro entry table hentry
    rw [hsplit, Cache.after_append]
    exact Cache.getElem?_after hentry rest
  · intro limits a body site position cached hassembly
    obtain ⟨more, hmore, -, hcache⟩ := exists_queries_of_resolveArgument
      { limits with cacheTables := cached } a body site position
        (Cache.after {} queries)
    refine ⟨?_, more, hmore, ?_⟩
    · rw [resolution_eq (Cache.FilledFor.empty.after hassembly),
        resolution_eq .empty]
      rfl
    · rw [hcache, Cache.after_append]

/-- The texts of a resource class. -/
def notices : List (String × Resource.Value) :=
  [("Notice", .string "missing dispose"), ("Limit", .int32 3)]

/-- A resource class with its texts, and a blob that is damaged. -/
def noticeAssembly : Assembly :=
  let stringsType : TypeDef := {
    space := "Sample", name := "Strings", attributes := [.compilerGenerated]
    methods := [Method.asGetter {
      name := "get_Notice", declaringType := "Sample.Strings"
      returnType := TypeName.string
      body := some ⟨#[
        ⟨0, 5, .literal 0 0x72 "ldstr" .token, .string "Notice"⟩], #[]⟩ }] }
  let bare : Assembly := { name := "First", types := [stringsType] }
  (bare.addResource "Sample.Broken.resources" [4, 0, 0, 0, 1, 2, 3, 4])
    |>.addResource "Sample.Strings.resources" (Resource.newer.blob notices)

/-- The second and the third query have a blob of one name, in two assemblies;
the third has the entry of the first. The last two find no texts. -/
def sampleQueries : List Cache.Query := [
  ⟨noticeAssembly, "Sample.Strings", "Limit"⟩,
  ⟨{ name := "Second" }, "Sample.Strings", "Notice"⟩,
  ⟨noticeAssembly, "Sample.Strings", "Notice"⟩,
  ⟨noticeAssembly, "Sample.Broken", "Notice"⟩,
  ⟨noticeAssembly, "Sample.Absent", "Notice"⟩]

/-- Writes the text that the getter of the resource class returns. -/
def writesNotice : Body where
  code := #[
    ⟨0, 5, .call 0 0x28 "call", .call
      ⟨"Sample.Strings", "get_Notice", [], "System.String", false⟩⟩,
    ⟨5, 5, .call 0 0x28 "call", .call
      ⟨"System.Console", "WriteLine", ["System.String"], "System.Void",
        false⟩⟩]
  locals := #[]

theorem writable_notices : Resource.Writable notices where
  names := by decide +kernel
  distinct := by decide +kernel
  size := by decide +kernel

theorem noticeAssembly_text? :
    noticeAssembly.text? "Sample.Strings" "Notice" =
      some "missing dispose" := by
  obtain ⟨table, htable, htexts⟩ :=
    Resource.getElem?_stringTable writable_notices (by decide)
  have hblob : noticeAssembly.resource? (tableName "Sample.Strings") =
      some (Resource.newer.blob notices) := by
    rw [noticeAssembly, Assembly.resource?_addResource, if_pos (by decide)]
  have hnotice : table["Notice"]? = some "missing dispose" :=
    (htexts _ _).2 (by decide +kernel)
  rw [Assembly.text?, Assembly.table?, hblob]
  show (Resource.stringTable _).toOption.bind (·["Notice"]?) = _
  rw [htable]
  exact hnotice

/-- Five queries file four entries, one of them for a damaged blob. The text
that the first query parsed is found by the third and by a trace, which finds
it as well without a cache. -/
theorem cache_transparent_sampleQueries :
    Cache.NamesOneAssemblyEach sampleQueries ∧
      ((Cache.after {} (sampleQueries.take 2)).ask
        ⟨noticeAssembly, "Sample.Strings", "Notice"⟩).1 =
          some "missing dispose" ∧
      (Cache.after {} sampleQueries).tables[
        ("First", "Sample.Broken.resources")]? = some none ∧
      (Cache.after {} sampleQueries).loads = 4 ∧
      (Cache.after {} sampleQueries).size = 4 ∧
      (resolveArgument {} noticeAssembly writesNotice 1 0
        (Cache.after {} sampleQueries)).1 = .resolved "missing dispose" := by
  have hassembly : ∀ q ∈ sampleQueries,
      q.assembly = noticeAssembly ∨ q.assembly = { name := "Second" } := by
    simp [sampleQueries]
  have hdiffer : noticeAssembly.name ≠ "Second" := by decide
  have hnames : Cache.NamesOneAssemblyEach sampleQueries := by
    intro q hq q' hq' hname
    rcases hassembly q hq with h | h <;>
      rcases hassembly q' hq' with h' | h' <;>
      rw [h, h'] at hname ⊢
    · exact absurd hname hdiffer
    · exact absurd hname.symm hdiffer
  obtain ⟨hanswers, hholds, htraces⟩ :=
    cache_transparent sampleQueries hnames
  obtain ⟨-, hfiled, hloads, hsize⟩ :=
    hholds sampleQueries [] (List.append_nil _).symm
  have hcard : (sampleQueries.map Cache.Query.entry).toFinset.card = 4 := by
    decide +kernel
  have htable : noticeAssembly.table? "Sample.Broken.resources" = none :=
    Option.isNone_iff_eq_none.1 (by decide +kernel)
  have horigin : (Route.ofLimits { cacheTables := false } noticeAssembly
      writesNotice).argumentOrigin 1 0 =
        .ok (.resource "Sample.Strings" "Notice") := by decide +kernel
  have huncached : (resolveArgument { cacheTables := false } noticeAssembly
      writesNotice 1 0 {}).1 = .resolved "missing dispose" := by
    rw [resolution_eq .empty, horigin, Resolution.ofOrigin, Origin.text?,
      noticeAssembly_text?]
  refine ⟨hnames, ?_, ?_, ?_, ?_, ?_⟩
  · rw [← noticeAssembly_text?]
    exact hanswers (sampleQueries.take 2) _ (sampleQueries.drop 3) rfl
  · rw [← htable]
    exact hfiled ⟨noticeAssembly, "Sample.Broken", "Notice"⟩
      (by simp [sampleQueries])
  · rw [hloads, hsize, hcard]
  · rw [hsize, hcard]
  · rw [← huncached]
    refine (htraces { cacheTables := false } noticeAssembly writesNotice 1 0
      true ?_).1
    intro q hq hname
    refine (hassembly q hq).resolve_right ?_
    intro h
    rw [h] at hname
    exact hdiffer hname.symm

end CilAudit
