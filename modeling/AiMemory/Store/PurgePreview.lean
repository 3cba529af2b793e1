/-
A purge's preview and its commit (`ai-memory-store/src/ops.rs`).

A preview answers from queries alone; the commit deletes, and lets foreign keys
delete the rest.  They agree when the operator to be recorded in the audit log is
known, and, for a project, when it lives in the workspace named: `purge_project`
counts by project, but deletes by project and workspace.
-/
import AiMemory.Lib.Fallible
import AiMemory.Store.Purges

open Catalog Catalog.Table Catalog.Column Cascade Fallible Option

namespace Purge

open Reference (refers_iff)
open Cascade.Database (evolves_insert not_removed_insert insert_isSome mem_table deletes_append
  table_deletes table_delete evolves_deletes exists_deletes removed_delete evolves_delete
  not_removed_deletes mem_delete)
open List (mem_filter mem_append mem_cons not_mem_nil)

/-! ### What a purge should do -/

def rejectionOf : Reference Table Column := nullTo autoImproveRejections sourceRunId autoImproveRuns

def namesSession (r p : DbRow) : Bool :=
  p.table = sessions && match p.cell .id with
    | some (.blob sid) => (r.table = profileCandidates && promptEvidence sid r)
      || (r.table = queryPageSignals && is r lastSession (.text (hyphenated sid)))
    | _ => false

def Dependent (r p : DbRow) : Prop :=
  schema.cascades r p = true ∨ rejectionOf.refers r p = true ∨ namesSession r p = true

def scopeRow (sessionIdOf : String → Option String) (db : Db) (r : DbRow) : Request → Bool
  | .session ws proj sid _ _ => match r.table with
    | .sessions => is r .id (.blob sid) && inScope ws proj r
    | .observations => inScopeSession ws proj sid r
    | .handoffs => authoredHandoff ws proj sid r
    | .pages => isSessionPage sessionIdOf db ws proj sid r
    | .autoImproveRuns => isSessionRun ws proj sid r
    | _ => false
  | .project _ proj _ _ _ => match r.table with
    | .projects => is r .id (.blob proj)
    | .pageEmbeddings => isIn db r pageId pages (is · projectId (.blob proj))
    | .managedRuns => isIn db r workstreamId workstreams (is · projectId (.blob proj))
    | _ => is r projectId (.blob proj)
  | .workspace ws _ => match r.table with
    | .workspaces => is r .id (.blob ws)
    | .pageEmbeddings => isIn db r pageId pages (is · workspaceId (.blob ws))
    | .managedRuns => isIn db r workstreamId workstreams (is · workspaceId (.blob ws))
    | _ => is r workspaceId (.blob ws)

def countedTables : Request → List Table
  | .session .. => [observations, handoffs, pages, autoImproveRuns]
  | .project .. => [pages, sessions, observations, handoffs, pageEmbeddings, workstreams,
      managedRuns]
  | .workspace .. => [projects, pages, sessions, observations, handoffs, pageEmbeddings,
      workstreams, managedRuns]

/-- No row of the scope is left, and nothing else went but what depends on one that did. -/
structure Purged (sessionIdOf : String → Option String) (req : Request) (db db' : Db) : Prop where
  none_left : ∀ r ∈ db'.rows, r.table ∈ countedTables req → scopeRow sessionIdOf db r req = false
  only_dependents : Justified (fun r => scopeRow sessionIdOf db r req = true) Dependent db db'

/-- The preview changes nothing and answers as the commit does, and the commit
does what it says. -/
structure PreviewExact (sessionIdOf : String → Option String) (db : Db) (compaction : Compaction)
    (now auditedAt : ℤ) (req : Request) : Prop where
  unchanged : (req.run sessionIdOf db compaction .preview now auditedAt).2 = db
  same : (req.run sessionIdOf db compaction .preview now auditedAt).1.map Summary.uncompacted =
    (req.run sessionIdOf db compaction .commit now auditedAt).1.map Summary.uncompacted
  purged : ∀ s, (req.run sessionIdOf db compaction .commit now auditedAt).1 = .ok s →
    Purged sessionIdOf req db (req.run sessionIdOf db compaction .commit now auditedAt).2

def Registered (db : Db) (author : Option Uuid) : Prop :=
  ∀ a, author = some a → ∃ u ∈ db.table users, u.cell .id = some (.blob a)

def projectTables : List Table := [pages, sessions, observations, handoffs, workstreams]

/-- When a preview is exact: the call is refused before anything is cut, or the
operator is known and, for a project, it is in the workspace or has nothing. -/
def HoldsWhen (sessionIdOf : String → Option String) (db : Db) (now : ℤ) : Request → Prop
  | .session ws proj sid author owner =>
    (∃ e, collectSession sessionIdOf db ws proj sid author owner = .error e) ∨ Registered db author
  | .project ws proj label author force =>
    (∃ e, collectProject db proj label force now = .error e) ∨
      (Registered db author ∧
        ((∃ p ∈ db.table projects, is p .id (.blob proj) ∧ is p workspaceId (.blob ws)) ∨
          ∀ r ∈ db.rows, r.table ∈ projectTables → is r projectId (.blob proj) = false))
  | .workspace .. => True

/-! ### Cells that statements keep -/

section Cells

variable {r r' : DbRow} {c : Column} {v : Value}

lemma is_of_descends (h : Descends schema r r') (hc : c ≠ purgedAt) (hv : is r' c v) :
    is r c v :=
  decide_eq_true (h.cell_some c (by simpa [schema] using hc) v (of_decide_eq_true hv))

lemma is_descends (h : Descends schema r r') (hc : schema.fixed r.table c) :
    is r' c v = is r c v := by
  rw [is, is, h.cell c hc]

lemma inScope_of_descends {ws proj : Uuid} (h : Descends schema r r')
    (hr : inScope ws proj r') : inScope ws proj r := by
  rw [inScope, Bool.and_eq_true] at hr ⊢
  exact ⟨is_of_descends h (by decide) hr.1, is_of_descends h (by decide) hr.2⟩

lemma is_inScope_of_descends {ws proj : Uuid} (h : Descends schema r r') (hc : c ≠ purgedAt)
    (hr : (is r' c v && inScope ws proj r')) : (is r c v && inScope ws proj r) := by
  rw [Bool.and_eq_true] at hr ⊢
  exact ⟨is_of_descends h hc hr.1, inScope_of_descends h hr.2⟩

lemma refers_id {child parent : Table} {v : Value} {p : DbRow} {onDelete : OnDelete}
    (hr : r.table = child) (hp : p.table = parent) (hrc : is r c v) (hpid : is p .id v) :
    (⟨child, [c], parent, [.id], onDelete⟩ : Reference Table Column).refers r p := by
  have hrkey : r.key [c] = some [v] := by
    simp [Row.key, of_decide_eq_true hrc]
  have hpkey : p.key [Column.id] = some [v] := by
    simp [Row.key, of_decide_eq_true hpid]
  exact refers_iff.mpr ⟨hr, hp, by simp [hrkey], hrkey.trans hpkey.symm⟩

lemma cascades_id {child parent : Table} {p : DbRow} (hf : cascadeTo child c parent ∈ references)
    (hr : r.table = child) (hp : p.table = parent) (hrc : is r c v)
    (hpid : is p .id v) : schema.cascades r p := by
  rw [Schema.cascades, List.any_eq_true]
  refine ⟨_, hf, ?_⟩
  rw [Bool.and_eq_true]
  exact ⟨by simp [cascadeTo], refers_id hr hp hrc hpid⟩

lemma eq_of_id {db : Db} {f : Reference Table Column} {p q : DbRow} {v : Value}
    (hf : f ∈ schema.references) (hkeys : f.keys = [.id]) (hp : p ∈ db.table f.parent)
    (hq : q ∈ db.table f.parent) (hpid : is p .id v) (hqid : is q .id v) : q = p := by
  obtain ⟨hpmem, hptable⟩ := db.mem_table.mp hp
  obtain ⟨hqmem, hqtable⟩ := db.mem_table.mp hq
  have hkey : ∀ x : DbRow, is x .id v = true → x.key f.keys = some [v] :=
    fun x hx => by simp [hkeys, Row.key, of_decide_eq_true hx]
  refine db.unique f hf q hqmem p hpmem hqtable hptable ?_ ?_
  · rw [hkey q hqid]
    rfl
  · rw [hkey q hqid, hkey p hpid]

lemma page_eq_of_id {db : Db} {p q : DbRow} {v : Value} (hp : p ∈ db.table pages)
    (hq : q ∈ db.table pages) (hpid : is p .id v) (hqid : is q .id v) : q = p :=
  eq_of_id (f := cascadeTo links fromPageId pages) (by decide) rfl hp hq hpid hqid

end Cells

lemma dependent_of_descends {r r' p p' : DbRow} (hr : Descends schema r r')
    (hp : Descends schema p p') (h : Dependent r' p') : Dependent r p := by
  rcases h with h | h | h
  · exact .inl (hr.cascades hp h)
  · exact .inr (.inl (hr.refers hp (by decide) h))
  · refine .inr (.inr ?_)
    rw [namesSession, Bool.and_eq_true] at h ⊢
    obtain ⟨htable, h⟩ := h
    refine ⟨hp.table ▸ htable, ?_⟩
    cases hid : p'.cell .id with
    | none => simp [hid] at h
    | some v =>
      rw [hp.cell_some .id (by decide) v hid]
      rw [hid] at h
      cases v with
      | blob sid =>
        simp only [Bool.or_eq_true, Bool.and_eq_true, decide_eq_true_eq, promptEvidence] at h ⊢
        rcases h with ⟨ht, hk, href⟩ | ⟨ht, hlast⟩
        · exact .inl ⟨hr.table ▸ ht, is_of_descends hr (by decide) hk,
            is_of_descends hr (by decide) href⟩
        · exact .inr ⟨hr.table ▸ ht, is_of_descends hr (by decide) hlast⟩
      | text s | int n => cases h

lemma not_log_of_dependent {r p : DbRow} (h : Dependent r p) : p.table ∉ schema.logs := by
  rcases h with h | h | h
  · simp only [Schema.cascades, List.any_eq_true, Bool.and_eq_true] at h
    obtain ⟨f, hf, -, href⟩ := h
    obtain ⟨-, hparent, -⟩ := refers_iff.mp href
    exact hparent ▸ schema.logs_childless f hf
  · obtain ⟨-, hparent, -⟩ := refers_iff.mp h
    rw [hparent]
    decide
  · rw [namesSession, Bool.and_eq_true] at h
    rw [of_decide_eq_true h.1]
    decide

section Logs

variable {db db' : Db} {ws proj sid : Uuid} {now : ℤ}

lemma audit_evolves {op : String} {author : Option Uuid}
    (h : audit db op ws proj author now = .ok db') :
    Evolves db db' ∧ (∀ r, ¬ Removed db db' r) := by
  unfold audit at h
  split at h
  · rename_i db₁ hins
    cases h
    exact ⟨evolves_insert hins, not_removed_insert hins⟩
  · cases h

lemma audit_ok_iff (ws proj : Uuid) (now : ℤ) (op : String) (author : Option Uuid) :
    (∃ db', audit db op ws proj author now = .ok db') ↔ Registered db author := by
  have hauth : ∀ f ∈ schema.references, f.child = auditLog → f = nullTo auditLog authorId users := by
    decide
  have hins : (∃ db', audit db op ws proj author now = .ok db') ↔
      db.admits (db.newRow auditLog ([(.at, .int now), (.op, .text op), (workspaceId, .blob ws),
        (projectId, .blob proj)] ++ (author.map fun a => (authorId, .blob a)).toList)) := by
    rw [← insert_isSome (by decide)]
    unfold audit
    constructor
    · rintro ⟨db', h⟩
      split at h
      · rename_i hins
        rw [hins]
        rfl
      · cases h
    · intro h
      obtain ⟨db', hins⟩ := isSome_iff_exists.mp h
      exact ⟨db', by rw [hins]⟩
  rw [hins]
  cases author with
  | none =>
    constructor
    · intro _ a ha
      cases ha
    · intro _ f hf hchild hsome
      rw [hauth f hf hchild.symm] at hsome
      exact absurd rfl (Row.cell_ne_none (c := authorId) hsome List.mem_cons_self)
  | some a =>
    set r := db.newRow auditLog ([(.at, .int now), (.op, .text op), (workspaceId, .blob ws),
      (projectId, .blob proj)] ++ ((some a).map fun a => (authorId, .blob a)).toList) with hr
    have hcell : is r authorId (.blob a) := decide_eq_true rfl
    constructor
    · intro h a' ha'
      cases ha'
      have hmem : nullTo auditLog authorId users ∈ schema.references := by decide
      obtain ⟨u, hu, href⟩ := h _ hmem rfl (by simp [Row.key, nullTo, of_decide_eq_true hcell])
      obtain ⟨-, hparent, -, hkey⟩ := refers_iff.mp href
      refine ⟨u, db.mem_table.mpr ⟨hu, hparent⟩, ?_⟩
      cases hid : u.cell .id with
      | none => simp [Row.key, nullTo, of_decide_eq_true hcell, hid] at hkey
      | some v =>
        simp [Row.key, nullTo, of_decide_eq_true hcell, hid] at hkey
        rw [hkey]
    · intro h f hf hchild _
      obtain ⟨u, hu, hid⟩ := h a rfl
      obtain ⟨hmem, htable⟩ := db.mem_table.mp hu
      refine ⟨u, hmem, ?_⟩
      rw [hauth f hf hchild.symm]
      exact refers_id rfl htable hcell (decide_eq_true hid)

lemma audit_error {op : String} {author : Option Uuid} (h : ¬ Registered db author) :
    audit db op ws proj author now = .error (.sqlite .foreignKey) := by
  rw [← audit_ok_iff ws proj now op author] at h
  unfold audit at h ⊢
  split
  · rename_i db' hins
    exact absurd ⟨db', by rw [hins]⟩ h
  · rfl

lemma registered_evolves (he : Evolves db db')
    (hkept : ∀ u, u.table = users → ¬ Removed db db' u) (author : Option Uuid) :
    Registered db' author ↔ Registered db author := by
  constructor
  · intro h a ha
    obtain ⟨u', hu', hid⟩ := h a ha
    obtain ⟨hmem, htable⟩ := db'.mem_table.mp hu'
    obtain ⟨u, hu, hd⟩ := he.exists_descends hmem (by rw [htable]; decide)
    exact ⟨u, db.mem_table.mpr ⟨hu, hd.table.symm.trans htable⟩, hd.cell_some .id (by decide) _ hid⟩
  · intro h a ha
    obtain ⟨u, hu, hid⟩ := h a ha
    obtain ⟨hmem, htable⟩ := db.mem_table.mp hu
    obtain ⟨u', hu', hd⟩ := he.exists_of_not_removed hmem (hkept u htable)
    refine ⟨u', db'.mem_table.mpr ⟨hu', hd.table.trans htable⟩, ?_⟩
    rw [hd.cell .id (by rw [htable]; decide), hid]

lemma tombstoneScope_ok (db : Db) (ws proj : Uuid) (now : ℤ) : ∃ mid db',
    mid = (execDelete db purgedScopes (inScope ws proj)).2 ∧
      tombstoneScope db ws proj now = .ok db' ∧ Evolves mid db' ∧ ∀ r, ¬ Removed mid db' r := by
  have hno : ∀ f ∈ schema.references, f.child ≠ purgedScopes := by decide
  set mid := (execDelete db purgedScopes (inScope ws proj)).2 with hmid
  have hadm : mid.admits (mid.newRow purgedScopes
      [(workspaceId, .blob ws), (projectId, .blob proj), (purgedAt, .int now)]) :=
    fun f hf hchild _ => absurd hchild.symm (hno f hf)
  obtain ⟨db', hins⟩ := isSome_iff_exists.mp ((insert_isSome (by decide)).mpr hadm)
  refine ⟨mid, db', rfl, ?_, evolves_insert hins, not_removed_insert hins⟩
  unfold tombstoneScope
  rw [← hmid, hins]

lemma tombstoneSession_ok {s : DbRow} (hs : s ∈ db.table sessions)
    (hscope : inScope ws proj s) (sid : Uuid) (now : ℤ) :
    ∃ db', tombstoneSession db ws proj sid now = .ok db' ∧ Evolves db db' ∧
      ∀ r, ¬ Removed db db' r := by
  obtain ⟨hmem, htable⟩ := db.mem_table.mp hs
  rw [inScope, Bool.and_eq_true] at hscope
  unfold tombstoneSession
  split
  · exact ⟨_, rfl, Database.evolves_assign db, Database.not_removed_assign⟩
  · have hrefs : ∀ f ∈ schema.references, f.child = purgedSessions →
        f = cascadeTo purgedSessions workspaceId workspaces ∨
          f = cascadeTo purgedSessions projectId projects := by decide
    set r := db.newRow purgedSessions [(sessionId, .blob sid), (workspaceId, .blob ws),
      (projectId, .blob proj), (purgedAt, .int now)] with hr
    have hws : is r workspaceId (.blob ws) := decide_eq_true rfl
    have hproj : is r projectId (.blob proj) := decide_eq_true rfl
    -- The session's own references resolve, and the tombstone has the same.
    have hparent : ∀ c v parent, is s c v = true → is r c v →
        cascadeTo sessions c parent ∈ schema.references →
        ∃ p ∈ db.rows, (cascadeTo purgedSessions c parent).refers r p = true := by
      intro c v parent hsc hrc hf
      obtain ⟨p, hp, href⟩ := db.referential _ hf s hmem htable
        (by simp [Row.key, cascadeTo, of_decide_eq_true hsc])
      obtain ⟨-, hpt, -, hkey⟩ := refers_iff.mp href
      refine ⟨p, hp, refers_iff.mpr ⟨rfl, hpt, ?_, ?_⟩⟩
      · simp [Row.key, cascadeTo, of_decide_eq_true hrc]
      · have hsame : r.key [c] = s.key [c] := by
          simp [Row.key, of_decide_eq_true hrc, of_decide_eq_true hsc]
        exact hsame.trans hkey
    have hadm : db.admits r := by
      intro f hf hchild _
      rcases hrefs f hf hchild.symm with rfl | rfl
      · exact hparent _ _ _ hscope.1 hws (by decide)
      · exact hparent _ _ _ hscope.2 hproj (by decide)
    obtain ⟨db', hins⟩ := isSome_iff_exists.mp
      ((insert_isSome (by decide)).mpr hadm)
    rw [hins]
    exact ⟨db', rfl, evolves_insert hins, not_removed_insert hins⟩

end Logs

/-! ### Purging a session -/

section Session

variable {sessionIdOf : String → Option String} {db : Db} {ws proj sid : Uuid}

def rejectionOfRun (ws proj : Uuid) (run : Uuid) (r : DbRow) : Bool :=
  r.table = autoImproveRejections && (is r sourceRunId (.blob run) && inScope ws proj r)

lemma cutRejections_eq (db : Db) (runIds : List Uuid) :
    cutRejections db ws proj runIds = db.deletes (runIds.map (rejectionOfRun ws proj)) := by
  rw [cutRejections, Database.deletes, List.foldl_map]
  rfl

def pageById (ws proj : Uuid) (id : Uuid) (r : DbRow) : Bool :=
  r.table = pages && (is r .id (.blob id) && inScope ws proj r)

lemma cutPages_snd (db : Db) (pageIds : List Uuid) :
    (cutPages db ws proj pageIds).2 = db.deletes (pageIds.map (pageById ws proj)) := by
  have hfold : ∀ (n : ℕ) (db : Db), (pageIds.foldl (fun acc id =>
      let cut := execDelete acc.2 pages fun p => is p .id (.blob id) && inScope ws proj p
      (acc.1 + cut.1, cut.2)) (n, db)).2 = db.deletes (pageIds.map (pageById ws proj)) := by
    induction pageIds with
    | nil => exact fun _ _ => rfl
    | cons id pageIds ih => exact fun n db => ih _ _
  exact hfold 0 db

def pageTables : List Table :=
  [pages, links, pageEmbeddings, pageEmbedFailures, pageAbstractEmbeddings, pageAccess,
    pageEvidence, pageFeedback, queryPageSignals, entityPageLinks]

lemma pageTables_closed : schema.Closed pageTables := by
  unfold Schema.Closed
  decide +kernel

lemma pageById_table {id : Uuid} (r : DbRow) (h : pageById ws proj id r) :
    r.table ∈ pageTables := by
  rw [pageById, Bool.and_eq_true] at h
  rw [of_decide_eq_true h.1]
  decide

lemma count_pages_delete {id id' : Uuid} (hne : id ≠ id')
    (h : count db pages (fun p => is p .id (.blob id') && inScope ws proj p) = 1) :
    count (db.delete (pageById ws proj id)) pages
      (fun p => is p .id (.blob id') && inScope ws proj p) = 1 := by
  obtain ⟨p, hp, hpid⟩ := List.countP_pos_iff.mp (Nat.lt_of_lt_of_eq Nat.zero_lt_one h.symm)
  obtain ⟨hmem, htable⟩ := db.mem_table.mp hp
  have hkept : ¬ Doomed schema db.rows (pageById ws proj id) p := by
    intro hd
    have hbase := hd.base_of_table pageTables_closed pageById_table (by decide +kernel) htable
    rw [pageById, Bool.and_eq_true, Bool.and_eq_true] at hbase
    rw [Bool.and_eq_true] at hpid
    have heq := (of_decide_eq_true hbase.2.1).symm.trans (of_decide_eq_true hpid.1)
    exact hne (Value.blob.inj (some.inj heq))
  have hdesc : Descends schema p (schema.release (schema.doomed db.rows (pageById ws proj id)) p) :=
    .release _ p
  refine Database.countP_table_eq_one _ (mem_table _ |>.mpr
    ⟨db.mem_delete.mpr ⟨p, hmem, hkept, rfl⟩, htable⟩) ?_ ?_
  · rw [inScope] at hpid ⊢
    rwa [is_descends hdesc (by rw [htable]; decide), is_descends hdesc (by rw [htable]; decide),
      is_descends hdesc (by rw [htable]; decide)]
  · intro q hq hqid
    rw [Bool.and_eq_true] at hqid hpid
    have hrel := is_descends hdesc (c := .id) (v := .blob id') (by rw [htable]; decide)
    exact page_eq_of_id (mem_table _ |>.mpr ⟨db.mem_delete.mpr ⟨p, hmem, hkept, rfl⟩, htable⟩)
      hq (hrel.trans hpid.1) hqid.1

lemma cutPages_fst {pageIds : List Uuid} (hnodup : pageIds.Nodup) (hone : ∀ id ∈ pageIds,
      count db pages (fun p => is p .id (.blob id) && inScope ws proj p) = 1) :
    (cutPages db ws proj pageIds).1 = pageIds.length := by
  have hfold : ∀ (n : ℕ) (db : Db), (∀ id ∈ pageIds,
      count db pages (fun p => is p .id (.blob id) && inScope ws proj p) = 1) →
      (pageIds.foldl (fun acc id =>
        let cut := execDelete acc.2 pages fun p => is p .id (.blob id) && inScope ws proj p
        (acc.1 + cut.1, cut.2)) (n, db)).1 = n + pageIds.length := by
    clear hone
    induction pageIds with
    | nil => exact fun _ _ _ => rfl
    | cons id pageIds ih =>
      intro n db hone
      obtain ⟨hid, hnodup⟩ := List.nodup_cons.mp hnodup
      rw [List.foldl_cons, ih hnodup _ _ fun id' hid' => ?_, List.length_cons]
      · have hfirst : (execDelete db pages fun p => is p .id (.blob id) && inScope ws proj p).1 = 1 :=
          hone id List.mem_cons_self
        rw [hfirst]
        omega
      · exact count_pages_delete (fun h => hid (h ▸ hid')) (hone id' (List.mem_cons_of_mem _ hid'))
  exact (hfold 0 db hone).trans (Nat.zero_add _)

lemma getBlob_eq_ok {r : DbRow} {c : Column} {id : Uuid} :
    getBlob r c = .ok id ↔ is r c (.blob id) := by
  unfold getBlob is
  rw [decide_eq_true_eq]
  split
  · rename_i bytes h
    rw [h]
    constructor
    · intro h; rw [Except.ok.inj h]
    · intro h; rw [Value.blob.inj (some.inj h)]
  · rename_i hno
    constructor
    · intro h; cases h
    · intro h; exact absurd h (hno id)

structure IdsOf (rows : List DbRow) (ids : List Uuid) : Prop where
  exists_id : ∀ r ∈ rows, ∃ id ∈ ids, is r .id (.blob id) = true
  exists_row : ∀ id ∈ ids, ∃ r ∈ rows, is r .id (.blob id) = true
  length : ids.length = rows.length

lemma idsOf_mapM {rows : List DbRow} {ids : List Uuid}
    (h : rows.mapM (getBlob · .id) = .ok ids) : IdsOf rows ids := by
  have hmap := map_eq_of_mapM_eq_ok h
  refine ⟨fun r hr => ?_, fun id hid => ?_, ?_⟩
  · have hmem : getBlob r .id ∈ ids.map Except.ok := hmap ▸ List.mem_map_of_mem hr
    obtain ⟨id, hid, heq⟩ := List.mem_map.mp hmem
    exact ⟨id, hid, getBlob_eq_ok.mp heq.symm⟩
  · have hmem : (Except.ok id : Except StoreError Uuid) ∈ rows.map (getBlob · .id) :=
      hmap ▸ List.mem_map_of_mem hid
    obtain ⟨r, hr, heq⟩ := List.mem_map.mp hmem
    exact ⟨r, hr, getBlob_eq_ok.mp heq⟩
  · have hlen := congrArg List.length hmap
    rw [List.length_map, List.length_map] at hlen
    exact hlen.symm

lemma nodup_idsOf {f : Reference Table Column} {p : DbRow → Bool} {ids : List Uuid}
    (hf : f ∈ schema.references) (hkeys : f.keys = [.id])
    (h : ((db.table f.parent).filter p).mapM (getBlob · .id) = .ok ids) : ids.Nodup := by
  have hmap := map_eq_of_mapM_eq_ok h
  refine List.Nodup.of_map (Except.ok (ε := StoreError)) ?_
  rw [← hmap]
  refine List.Nodup.map_on ?_ ((db.rows_nodup.filter _).filter _)
  intro a ha b hb heq
  have hmem : getBlob a .id ∈ ids.map Except.ok := hmap ▸ List.mem_map_of_mem ha
  obtain ⟨id, -, hid⟩ := List.mem_map.mp hmem
  rw [← hid] at heq
  exact eq_of_id hf hkeys (mem_filter.mp hb).1 (mem_filter.mp ha).1
    (getBlob_eq_ok.mp heq.symm) (getBlob_eq_ok.mp hid.symm)

structure Collected (sessionIdOf : String → Option String) (db : Db) (ws proj sid : Uuid)
    (plan : SessionPlan) : Prop where
  session : ∃ s ∈ db.table sessions, is s .id (.blob sid) = true ∧ inScope ws proj s = true
  pageIds : IdsOf ((db.table pages).filter (isSessionPage sessionIdOf db ws proj sid)) plan.pageIds
  pageIds_nodup : plan.pageIds.Nodup
  runIds : IdsOf ((db.table autoImproveRuns).filter (isSessionRun ws proj sid)) plan.runIds

variable {owner : Option String} {plan : SessionPlan}

lemma checkSession_ok {author : Option Uuid}
    (h : checkSession db ws proj sid author owner = .ok ()) :
    ∃ s ∈ db.table sessions, is s .id (.blob sid) = true ∧ inScope ws proj s := by
  unfold checkSession at h
  simp only at h
  split at h
  · cases h
  · rename_i hlen
    obtain ⟨s, hs⟩ := List.exists_mem_of_length_pos (Nat.pos_of_ne_zero hlen)
    obtain ⟨hmem, hscope⟩ := mem_filter.mp hs
    rw [Bool.and_eq_true] at hscope
    exact ⟨s, hmem, hscope⟩

lemma collectSession_ok {author : Option Uuid}
    (h : collectSession sessionIdOf db ws proj sid author owner = .ok plan) :
    Collected sessionIdOf db ws proj sid plan := by
  unfold collectSession at h
  obtain ⟨⟨⟩, hcheck, h⟩ := bind_eq_ok.mp h
  obtain ⟨pageIds, hpages, h⟩ := bind_eq_ok.mp h
  obtain ⟨paths, -, h⟩ := bind_eq_ok.mp h
  obtain ⟨runIds, hruns, h⟩ := bind_eq_ok.mp h
  simp only at h
  split at h
  · cases h
  · cases h
    exact ⟨checkSession_ok hcheck, idsOf_mapM hpages,
      nodup_idsOf (f := cascadeTo links fromPageId pages) (by decide) rfl hpages,
      idsOf_mapM hruns⟩

lemma Collected.count_page (h : Collected sessionIdOf db ws proj sid plan) :
    ∀ id ∈ plan.pageIds,
      count db pages (fun p => is p .id (.blob id) && inScope ws proj p) = 1 := by
  intro id hid
  obtain ⟨p, hp, hpid⟩ := h.pageIds.exists_row id hid
  obtain ⟨hp, hpage⟩ := mem_filter.mp hp
  have hscope : inScope ws proj p := by
    rw [isSessionPage, Bool.and_eq_true] at hpage
    exact hpage.1
  refine db.countP_table_eq_one hp (by rw [hpid, hscope]; rfl) fun q hq hqid => ?_
  rw [Bool.and_eq_true] at hqid
  exact page_eq_of_id hp hq hpid hqid.1

lemma Collected.isSessionPage_of_id
    (h : Collected sessionIdOf db ws proj sid plan) {id : Uuid} (hid : id ∈ plan.pageIds)
    {q : DbRow} (hq : q ∈ db.table pages) (hqid : is q .id (.blob id)) :
    isSessionPage sessionIdOf db ws proj sid q := by
  obtain ⟨p, hp, hpid⟩ := h.pageIds.exists_row id hid
  obtain ⟨hp, hpage⟩ := mem_filter.mp hp
  exact page_eq_of_id hp hq hpid hqid ▸ hpage

/-- The deletes of `cutSession`, in order. -/
def sessionCuts (ws proj sid : Uuid) (plan : SessionPlan) : List (DbRow → Bool) :=
  plan.runIds.map (rejectionOfRun ws proj) ++
  [fun r => r.table = autoImproveRuns && isSessionRun ws proj sid r,
    fun r => r.table = handoffs && authoredHandoff ws proj sid r] ++
  plan.pageIds.map (pageById ws proj) ++
  [fun r => r.table = observations && inScopeSession ws proj sid r,
    fun r => r.table = profileCandidates && promptEvidence sid r,
    fun r => r.table = queryPageSignals && is r lastSession (.text (hyphenated sid))]

lemma cutSession_snd (db : Db) (plan : SessionPlan) :
    (cutSession db ws proj sid plan).2 = db.deletes (sessionCuts ws proj sid plan) := by
  rw [sessionCuts, deletes_append, deletes_append, deletes_append,
    ← cutPages_snd, ← cutRejections_eq]
  rfl

/-- The tables that `cutSession` takes rows of. -/
def cutTables : List Table :=
  [autoImproveRejections, autoImproveRuns, autoImproveProposals, autoImproveProposalEvents,
    handoffs] ++ pageTables ++ [observations, profileCandidates]

lemma sessionCuts_table (ws proj sid : Uuid) (plan : SessionPlan) :
    ∀ base ∈ sessionCuts ws proj sid plan, ∀ r : DbRow, base r = true → r.table ∈ cutTables := by
  have hof : ∀ (t : Table) (p : DbRow → Bool) (r : DbRow), t ∈ cutTables →
      (decide (r.table = t) && p r) → r.table ∈ cutTables := by
    intro t p r ht h
    rw [Bool.and_eq_true] at h
    exact of_decide_eq_true h.1 ▸ ht
  intro base hbase r hr
  simp only [sessionCuts, mem_append, List.mem_map, mem_cons, not_mem_nil,
    or_false] at hbase
  rcases hbase with ((⟨run, -, rfl⟩ | rfl | rfl) | ⟨id, -, rfl⟩) | rfl | rfl | rfl
  · exact hof autoImproveRejections
      (fun r => is r sourceRunId (.blob run) && inScope ws proj r) r (by decide) hr
  · exact hof autoImproveRuns _ r (by decide) hr
  · exact hof handoffs _ r (by decide) hr
  · exact hof pages (fun r => is r .id (.blob id) && inScope ws proj r) r (by decide) hr
  · exact hof observations _ r (by decide) hr
  · exact hof profileCandidates _ r (by decide) hr
  · exact hof queryPageSignals (is · lastSession (.text (hyphenated sid))) r (by decide) hr

lemma Collected.cut_counts (h : Collected sessionIdOf db ws proj sid plan) :
    (cutSession db ws proj sid plan).1 =
      ⟨plan.runIds.length, count db handoffs (authoredHandoff ws proj sid), plan.pageIds.length,
        count db observations (inScopeSession ws proj sid)⟩ := by
  have hof : ∀ {T : List Table} (t : Table) (p : DbRow → Bool), t ∈ T → ∀ r : DbRow,
      (decide (r.table = t) && p r) = true → r.table ∈ T := by
    intro T t p ht r hr
    rw [Bool.and_eq_true] at hr
    exact of_decide_eq_true hr.1 ▸ ht
  -- The rows of the tables counted later are untouched by the deletes before.
  have h₁ : ∀ t, schema.Spares [autoImproveRejections] t →
      (cutRejections db ws proj plan.runIds).table t = db.table t := by
    intro t ht
    rw [cutRejections_eq]
    refine table_deletes ht fun base hbase => ?_
    obtain ⟨run, -, rfl⟩ := List.mem_map.mp hbase
    exact hof autoImproveRejections (fun r => is r sourceRunId (.blob run) && inScope ws proj r)
      (by decide)
  set db₁ := cutRejections db ws proj plan.runIds
  set db₂ := (execDelete db₁ autoImproveRuns (isSessionRun ws proj sid)).2 with hdb₂
  have h₂ : ∀ t, schema.Spares [autoImproveRuns, autoImproveProposals, autoImproveProposalEvents] t →
      db₂.table t = db₁.table t := fun t ht =>
    table_delete ht (hof autoImproveRuns _ (by decide))
  set db₃ := (execDelete db₂ handoffs (authoredHandoff ws proj sid)).2 with hdb₃
  have h₃ : ∀ t, schema.Spares [handoffs] t → db₃.table t = db₂.table t := fun t ht =>
    table_delete ht (hof handoffs _ (by decide))
  have h₄ : (cutPages db₃ ws proj plan.pageIds).2.table observations = db₃.table observations := by
    rw [cutPages_snd]
    refine table_deletes (T := pageTables) (by decide +kernel) fun base hbase => ?_
    obtain ⟨id, -, rfl⟩ := List.mem_map.mp hbase
    exact pageById_table
  have hpages : db₃.table pages = db.table pages := by
    rw [h₃ _ (by decide +kernel), h₂ _ (by decide +kernel), h₁ _ (by decide +kernel)]
  have hruns : (execDelete db₁ autoImproveRuns (isSessionRun ws proj sid)).1
      = plan.runIds.length := by
    rw [execDelete, count, h₁ _ (by decide +kernel), h.runIds.length, List.countP_eq_length_filter]
  have hhandoffs : (execDelete db₂ handoffs (authoredHandoff ws proj sid)).1
      = count db handoffs (authoredHandoff ws proj sid) := by
    rw [execDelete, count, h₂ _ (by decide +kernel), h₁ _ (by decide +kernel), count]
  have hcut : (cutPages db₃ ws proj plan.pageIds).1 = plan.pageIds.length :=
    cutPages_fst h.pageIds_nodup fun id hid => by
      rw [count, hpages]
      exact h.count_page id hid
  have hobs : (execDelete (cutPages db₃ ws proj plan.pageIds).2 observations
      (inScopeSession ws proj sid)).1 = count db observations (inScopeSession ws proj sid) := by
    rw [execDelete, count, h₄, h₃ _ (by decide +kernel), h₂ _ (by decide +kernel),
      h₁ _ (by decide +kernel), count]
  rw [← hruns, ← hhandoffs, ← hcut, ← hobs]
  rfl

lemma isIn_of_descends {db : Db} {r r' : DbRow} {c : Column} {t : Table} {p : DbRow → Bool}
    (h : Descends schema r r') (hc : c ≠ purgedAt) (hr : isIn db r' c t p) :
    isIn db r c t p := by
  simp only [isIn, List.any_eq_true, Bool.and_eq_true, decide_eq_true_eq] at hr ⊢
  obtain ⟨x, hx, ⟨hp, hne⟩, heq⟩ := hr
  obtain ⟨v, hv⟩ := ne_none_iff_exists'.mp hne
  have hcell := h.cell_some c (by simpa [schema] using hc) v hv
  exact ⟨x, hx, ⟨hp, by simp [hcell]⟩, by rw [hcell, ← hv, heq]⟩

lemma isSessionPage_of_descends {r r' : DbRow} (h : Descends schema r r')
    (hr : isSessionPage sessionIdOf db ws proj sid r') :
    isSessionPage sessionIdOf db ws proj sid r := by
  simp only [isSessionPage, Bool.and_eq_true, Bool.or_eq_true, List.any_eq_true,
    decide_eq_true_eq] at hr ⊢
  obtain ⟨hscope, hrest⟩ := hr
  refine ⟨inScope_of_descends h hscope, ?_⟩
  rcases hrest with ⟨s, hs, ⟨hsid, hne⟩, heq⟩ | ⟨hpath, hnames⟩
  · obtain ⟨v, hv⟩ := ne_none_iff_exists'.mp hne
    have hcell := h.cell_some .id (by decide) v (heq.symm.trans hv)
    exact .inl ⟨s, hs, ⟨hsid, hne⟩, hv.trans hcell.symm⟩
  · refine .inr ⟨is_of_descends h (by decide) hpath, ?_⟩
    split at hnames
    · rename_i json hjson
      rw [h.cell_some frontmatterJson (by decide) _ hjson]
      exact hnames
    · cases hnames

lemma scopeRow_of_descends {req : Request} {r r' : DbRow} (h : Descends schema r r')
    (hr : scopeRow sessionIdOf db r' req) : scopeRow sessionIdOf db r req := by
  unfold scopeRow at hr ⊢
  rw [h.table] at hr
  cases req with
  | session ws proj sid author owner =>
    simp only at hr ⊢
    split at hr
    · exact is_inScope_of_descends h (by decide) hr
    · exact is_inScope_of_descends h (by decide) hr
    · exact is_inScope_of_descends h (by decide) hr
    · exact isSessionPage_of_descends h hr
    · exact is_inScope_of_descends h (by decide) hr
    · exact hr
  | project ws proj label author force | workspace ws force =>
    simp only at hr ⊢
    split at hr
    · exact is_of_descends h (by decide) hr
    · exact isIn_of_descends h (by decide) hr
    · exact isIn_of_descends h (by decide) hr
    · exact is_of_descends h (by decide) hr

lemma dependence (sessionIdOf : String → Option String) (db : Db) (req : Request) :
    Dependence schema (fun r => scopeRow sessionIdOf db r req = true) Dependent where
  named_of_descends _ _ := scopeRow_of_descends
  of_descends _ _ _ _ := dependent_of_descends
  of_cascades _ _ := .inl
  not_log _ _ := not_log_of_dependent

lemma Collected.none_left {db' : Db} {author : Option Uuid}
    (h : Collected sessionIdOf db ws proj sid plan)
    (he : Evolves (db.deletes (sessionCuts ws proj sid plan)) db') {r : DbRow} (hr : r ∈ db'.rows)
    (ht : r.table ∈ countedTables (.session ws proj sid author owner)) :
    scopeRow sessionIdOf db r (.session ws proj sid author owner) = false := by
  have hlog : r.table ∉ schema.logs := by
    have hcounted : ∀ t ∈ countedTables (.session ws proj sid author owner), t ∉ schema.logs := by
      simp only [countedTables]
      decide
    exact hcounted _ ht
  -- One of the deletes would have named the row.
  have hcut : ∀ {p : DbRow → Bool} (t : Table), (fun r : DbRow => decide (r.table = t) && p r)
        ∈ sessionCuts ws proj sid plan →
      (∀ r r', Descends schema r r' → p r' → p r) → r.table = t → p r = false := by
    intro p t hmem hst htable
    have hno := Database.not_base_of_evolves_deletes hmem (fun x x' hd hx => ?_) he hr hlog
    · simpa [htable] using hno
    · rw [Bool.and_eq_true] at hx ⊢
      exact ⟨hd.table ▸ hx.1, hst x x' hd hx.2⟩
  simp only [countedTables, mem_cons, not_mem_nil, or_false] at ht
  rcases ht with ht | ht | ht | ht
  · simp only [scopeRow, ht]
    exact hcut observations (by simp [sessionCuts])
      (fun _ _ hd => is_inScope_of_descends hd (by decide)) ht
  · simp only [scopeRow, ht]
    exact hcut handoffs (by simp [sessionCuts])
      (fun _ _ hd => is_inScope_of_descends hd (by decide)) ht
  · simp only [scopeRow, ht]
    rw [← Bool.not_eq_true]
    intro hpage
    obtain ⟨r₀, hr₀, hd⟩ := ((evolves_deletes db _).trans he).exists_descends hr hlog
    have htable : r₀.table = pages := hd.table.symm.trans ht
    obtain ⟨id, hid, hr₀id⟩ := h.pageIds.exists_id r₀ (mem_filter.mpr
      ⟨db.mem_table.mpr ⟨hr₀, htable⟩, isSessionPage_of_descends hd hpage⟩)
    have hno := hcut (p := fun r => is r .id (.blob id) && inScope ws proj r) pages (by
        simp only [sessionCuts, mem_append, List.mem_map]
        exact .inl (.inr ⟨id, hid, rfl⟩))
      (fun _ _ hd => is_inScope_of_descends hd (by decide)) ht
    have hrid : is r .id (.blob id) := by
      rw [is_descends hd (by rw [htable]; decide)]
      exact hr₀id
    rw [isSessionPage, Bool.and_eq_true] at hpage
    rw [hrid, hpage.1] at hno
    cases hno
  · simp only [scopeRow, ht]
    exact hcut autoImproveRuns (by simp [sessionCuts])
      (fun _ _ hd => is_inScope_of_descends hd (by decide)) ht

lemma Collected.justified {db' : Db} {author : Option Uuid}
    (h : Collected sessionIdOf db ws proj sid plan)
    (he : Evolves (db.deletes (sessionCuts ws proj sid plan)) db')
    (hjust : Justified (fun r => scopeRow sessionIdOf db r (.session ws proj sid author owner) = true)
      Dependent (db.deletes (sessionCuts ws proj sid plan)) db')
    (hgone : ∀ s ∈ (db.deletes (sessionCuts ws proj sid plan)).table sessions,
      is s .id (.blob sid) = true → inScope ws proj s →
      Removed (db.deletes (sessionCuts ws proj sid plan)) db' s) :
    Justified (fun r => scopeRow sessionIdOf db r (.session ws proj sid author owner) = true)
      Dependent db db' := by
  have hdep := dependence sessionIdOf db (.session ws proj sid author owner)
  -- The session itself goes in the end.
  obtain ⟨s, hs, hsid, hscope⟩ := h.session
  obtain ⟨hsmem, hstable⟩ := db.mem_table.mp hs
  obtain ⟨s', hs', hsd⟩ := exists_deletes (T := cutTables) (by
    unfold Schema.Closed
    decide +kernel) (sessionCuts_table ws proj sid plan) hsmem (by rw [hstable]; decide)
  have hs'table : s'.table = sessions := hsd.table.trans hstable
  have hs'id : is s' .id (.blob sid) := by
    rw [is_descends hsd (by rw [hstable]; decide)]
    exact hsid
  have hs'gone := hgone s' (mem_table _ |>.mpr ⟨hs', hs'table⟩) hs'id (by
    rw [inScope] at hscope ⊢
    rwa [is_descends hsd (by rw [hstable]; decide), is_descends hsd (by rw [hstable]; decide)])
  set A := plan.runIds.map (rejectionOfRun ws proj) with hA
  set B := [fun r : DbRow => decide (r.table = autoImproveRuns) && isSessionRun ws proj sid r,
      fun r => decide (r.table = handoffs) && authoredHandoff ws proj sid r] ++
    (plan.pageIds.map (pageById ws proj) ++
      [fun r : DbRow => decide (r.table = observations) && inScopeSession ws proj sid r,
        fun r => decide (r.table = profileCandidates) && promptEvidence sid r,
        fun r => decide (r.table = queryPageSignals)
          && is r lastSession (.text (hyphenated sid))]) with hB
  have hcuts : sessionCuts ws proj sid plan = A ++ B := by
    rw [sessionCuts, hA, hB]
    simp only [List.append_assoc]
  rw [hcuts, deletes_append] at he hjust hs'gone hs'
  -- The later deletes name rows of the scope, and evidence of the session.
  have hlater : Justified (fun r => scopeRow sessionIdOf db r (.session ws proj sid author owner)
      = true) Dependent (db.deletes A) db' := by
    refine Justified.deletes hdep hjust he fun base hbase mid hmid hmid' r hr hb => ?_
    have hsession : (r.table = profileCandidates ∧ promptEvidence sid r ∨
        r.table = queryPageSignals ∧ is r lastSession (.text (hyphenated sid))) →
        ∃ p, Removed mid db' p ∧ Dependent r p := by
      intro hnames
      obtain ⟨s₁, hs₁, hd₁⟩ := hmid'.exists_descends hs' (by rw [hs'table]; decide)
      refine ⟨s₁, hs'gone.of_descends hs₁ hd₁, .inr (.inr ?_)⟩
      have hs₁table : s₁.table = sessions := hd₁.table.symm.trans hs'table
      have hs₁id := hd₁.cell_some .id (by decide) _ (of_decide_eq_true hs'id)
      rw [namesSession, hs₁id]
      rcases hnames with ⟨ht, hn⟩ | ⟨ht, hn⟩
      · simp [hs₁table, ht, hn]
      · simp [hs₁table, ht, hn]
    simp only [hB, mem_append, List.mem_map, mem_cons, not_mem_nil,
      or_false] at hbase
    rcases hbase with (rfl | rfl) | ⟨id, hid, rfl⟩ | rfl | rfl | rfl
    · rw [Bool.and_eq_true, decide_eq_true_eq] at hb
      exact .inl (by simpa [scopeRow, hb.1] using hb.2)
    · rw [Bool.and_eq_true, decide_eq_true_eq] at hb
      exact .inl (by simpa [scopeRow, hb.1] using hb.2)
    · rw [pageById, Bool.and_eq_true, decide_eq_true_eq, Bool.and_eq_true] at hb
      obtain ⟨r₀, hr₀, hd⟩ := ((evolves_deletes db A).trans hmid).exists_descends hr
        (by rw [hb.1]; decide)
      have htable : r₀.table = pages := hd.table.symm.trans hb.1
      have hpage := h.isSessionPage_of_id hid (db.mem_table.mpr ⟨hr₀, htable⟩)
        (is_of_descends hd (by decide) hb.2.1)
      refine .inl ?_
      simp only [scopeRow, hb.1]
      -- A page keeps the cells that make it one of the session's.
      have hfixed : ∀ c ∈ [workspaceId, projectId, .id, path, frontmatterJson],
          r.cell c = r₀.cell c := fun c hc => hd.cell c (by
        rw [htable]
        revert c
        decide)
      unfold isSessionPage inScope is at hpage ⊢
      rw [hfixed workspaceId (by decide), hfixed projectId (by decide), hfixed .id (by decide),
        hfixed path (by decide), hfixed frontmatterJson (by decide)]
      exact hpage
    · rw [Bool.and_eq_true, decide_eq_true_eq] at hb
      exact .inl (by simpa [scopeRow, hb.1] using hb.2)
    · rw [Bool.and_eq_true, decide_eq_true_eq] at hb
      exact .inr (hsession (.inl hb))
    · rw [Bool.and_eq_true, decide_eq_true_eq] at hb
      exact .inr (hsession (.inr hb))
  have heB : Evolves (db.deletes A) db' := (evolves_deletes _ B).trans he
  -- A rejection depends on its run, which goes next.
  refine Justified.deletes hdep hlater heB fun base hbase mid hmid hmid' r hr hb => ?_
  obtain ⟨run, hrun, rfl⟩ := List.mem_map.mp hbase
  rw [rejectionOfRun, Bool.and_eq_true, decide_eq_true_eq, Bool.and_eq_true] at hb
  obtain ⟨q, hq, hqid⟩ := h.runIds.exists_row run hrun
  obtain ⟨hq, hqrun⟩ := mem_filter.mp hq
  have hqA : q ∈ (db.deletes A).table autoImproveRuns := by
    rw [table_deletes (T := [autoImproveRejections]) (by decide +kernel)]
    · exact hq
    · intro b hb r hr
      obtain ⟨run', -, rfl⟩ := List.mem_map.mp hb
      rw [rejectionOfRun, Bool.and_eq_true] at hr
      rw [of_decide_eq_true hr.1]
      decide
  obtain ⟨hqmem, hqtable⟩ := (mem_table _).mp hqA
  have hqgone : Removed (db.deletes A) db' q := by
    have hfirst : Removed (db.deletes A) ((db.deletes A).delete fun r =>
        decide (r.table = autoImproveRuns) && isSessionRun ws proj sid r) q :=
      removed_delete.mpr (.base hqmem (by rw [hqtable, hqrun]; rfl))
    refine hfirst.trans (evolves_delete _ _) ?_
    rw [hB, List.cons_append] at he
    exact (evolves_deletes _ _).trans he
  obtain ⟨q₁, hq₁, hd₁⟩ := hmid'.exists_descends hqmem (by rw [hqtable]; decide)
  refine .inr ⟨q₁, hqgone.of_descends hq₁ hd₁, .inr (.inl ?_)⟩
  exact refers_id hb.1 (hd₁.table.symm.trans hqtable) hb.2.1 (is_of_descends hd₁ (by decide) hqid)

def sessionTables : List Table :=
  [sessions, observations, autoImproveSchedulerClaims, sessionConsolidationJobs, sessionUsage,
    tokenCalls, tokenCallTools, ingestKeys]

lemma Collected.commit (h : Collected sessionIdOf db ws proj sid plan)
    (author : Option Uuid) (owner : Option String) (now : ℤ) : ∃ db₁,
      tombstoneSession (cutSession db ws proj sid plan).2 ws proj sid now = .ok db₁ ∧
      (Registered (execDelete db₁ sessions fun s =>
        is s .id (.blob sid) && inScope ws proj s).2 author ↔ Registered db author) ∧
      ∀ db', Evolves (execDelete db₁ sessions fun s =>
          is s .id (.blob sid) && inScope ws proj s).2 db' →
        (∀ r, ¬ Removed (execDelete db₁ sessions fun s =>
          is s .id (.blob sid) && inScope ws proj s).2 db' r) →
        Purged sessionIdOf (.session ws proj sid author owner) db db' := by
  obtain ⟨s, hs, hsid, hscope⟩ := h.session
  obtain ⟨hsmem, hstable⟩ := db.mem_table.mp hs
  have hclosed : schema.Closed cutTables := by
    unfold Schema.Closed
    decide +kernel
  have hclosed' : schema.Closed sessionTables := by
    unfold Schema.Closed
    decide +kernel
  have hbase : ∀ base ∈ [fun s : DbRow => decide (s.table = sessions)
      && (is s .id (.blob sid) && inScope ws proj s)], ∀ r, base r = true →
      r.table ∈ sessionTables := by
    intro base hmem r hr
    rw [List.mem_singleton.mp hmem, Bool.and_eq_true] at hr
    rw [of_decide_eq_true hr.1]
    decide
  obtain ⟨s', hs', hsd⟩ := exists_deletes (T := cutTables) hclosed
    (sessionCuts_table ws proj sid plan) hsmem
    (by rw [hstable]; decide)
  rw [cutSession_snd]
  have hs'table : s'.table = sessions := hsd.table.trans hstable
  obtain ⟨db₁, htomb, he₁, hkept₁⟩ := tombstoneSession_ok
    (mem_table _ |>.mpr ⟨hs', hs'table⟩) (by
      rw [inScope] at hscope ⊢
      rwa [is_descends hsd (by rw [hstable]; decide), is_descends hsd (by rw [hstable]; decide)])
    sid now
  have he₂ : Evolves db₁ (execDelete db₁ sessions fun s =>
      is s .id (.blob sid) && inScope ws proj s).2 := evolves_delete db₁ _
  have hcut := evolves_deletes db (sessionCuts ws proj sid plan)
  refine ⟨db₁, htomb, ?_, fun db' he hkept => ?_⟩
  · have hr₁ := registered_evolves hcut (fun u hu =>
      not_removed_deletes hclosed (sessionCuts_table ws proj sid plan)
        (by rw [hu]; decide)) author
    have hr₂ := registered_evolves he₁ (fun u _ => hkept₁ u) author
    have hr₃ := registered_evolves he₂ (fun u hu =>
      not_removed_deletes hclosed' hbase (by rw [hu]; decide)) author
    exact (hr₃.trans hr₂).trans hr₁
  · have hrest := (he₁.trans he₂).trans he
    refine ⟨fun r hr ht => h.none_left hrest hr ht, h.justified hrest ?_ ?_⟩
    · have hdep := dependence sessionIdOf db (.session ws proj sid author owner)
      refine Justified.kept hdep ?_ he₁ hkept₁
      refine Justified.delete hdep ((Justified.refl db').kept hdep he hkept) he fun r _ hb => ?_
      rw [Bool.and_eq_true, decide_eq_true_eq] at hb
      exact .inl (by simpa [scopeRow, hb.1] using hb.2)
    · intro x hx hxid hxscope
      obtain ⟨hxmem, hxtable⟩ := (mem_table _).mp hx
      obtain ⟨y, hy, hd⟩ := he₁.exists_of_not_removed hxmem (hkept₁ x)
      have hytable : y.table = sessions := hd.table.trans hxtable
      have hgone : Removed db₁ (execDelete db₁ sessions fun s =>
          is s .id (.blob sid) && inScope ws proj s).2 y := by
        refine removed_delete.mpr (.base hy ?_)
        rw [inScope] at hxscope
        simp only [hytable, inScope]
        rw [is_descends hd (by rw [hxtable]; decide), is_descends hd (by rw [hxtable]; decide),
          is_descends hd (by rw [hxtable]; decide), hxid, hxscope]
        rfl
      exact (hgone.trans he₂ he).of_descends hxmem hd

end Session

/-! ### Purging a project or a workspace -/

section Root

-- the row that goes first, and the column by which the rest is filed under it
variable {root : Table} {c : Column} {id : Uuid} {q : DbRow → Bool}
variable {sessionIdOf : String → Option String} {db db' : Db} {ws proj : Uuid} {req : Request}

def rootCuts (db : Db) (root : Table) (c : Column) (id : Uuid) (q : DbRow → Bool)
    (ws proj : Uuid) : List (DbRow → Bool) :=
  [fun r => r.table = queryPageSignals && lastSessionOf db (is · c (.blob id)) r,
    fun r => r.table = root && q r,
    fun r => r.table = purgedScopes && inScope ws proj r]

/-- The tables that these deletes take rows of: all but the users and what is
theirs, and the audit log. -/
def rootTables : List Table :=
  [workspaces, projects] ++ filedTables ++ [links, pageEmbeddings, pageEmbedFailures,
    pageAbstractEmbeddings, pageAccess, pageEvidence, entityPageLinks, autoImproveProposalEvents,
    sessionUsage, tokenCalls, tokenCallTools, ingestKeys, agentMessages,
    workstreamNativeSessions, managedRuns, workstreamEvents, purgedScopes]

lemma rootTables_closed : schema.Closed rootTables := by
  unfold Schema.Closed
  decide +kernel

lemma rootCuts_table (hroot : root ∈ rootTables) :
    ∀ base ∈ rootCuts db root c id q ws proj, ∀ r : DbRow, base r = true → r.table ∈ rootTables := by
  intro base hbase r hr
  simp only [rootCuts, mem_cons, not_mem_nil, or_false] at hbase
  rcases hbase with rfl | rfl | rfl
  · rw [Bool.and_eq_true, decide_eq_true_eq] at hr
    rw [hr.1]
    decide
  · rw [Bool.and_eq_true, decide_eq_true_eq] at hr
    rw [hr.1]
    exact hroot
  · rw [Bool.and_eq_true, decide_eq_true_eq] at hr
    rw [hr.1]
    decide

lemma table_signals (c : Column) (id : Uuid) {t : Table} (ht : t ≠ queryPageSignals) :
    (deleteQuerySignalsOfSessions db (is · c (.blob id))).table t = db.table t := by
  have hspares : ∀ t, t ≠ queryPageSignals → schema.Spares [queryPageSignals] t := by
    intro t
    cases t <;> decide +kernel
  refine table_delete (hspares t ht) fun r hr => ?_
  rw [Bool.and_eq_true, decide_eq_true_eq] at hr
  rw [hr.1]
  decide

abbrev RootDoomed (db : Db) (root : Table) (c : Column) (id : Uuid) (q : DbRow → Bool)
    (r : DbRow) : Prop :=
  Doomed schema (deleteQuerySignalsOfSessions db (is · c (.blob id))).rows
    (fun r => r.table = root && q r) r

lemma rootDoomed_filed (hq : ∀ r, q r = true → is r .id (.blob id))
    (hroot : ∃ p ∈ db.table root, q p = true) (hne : root ≠ queryPageSignals) {t : Table}
    (hf : cascadeTo t c root ∈ references) {r : DbRow}
    (hr : r ∈ (deleteQuerySignalsOfSessions db (is · c (.blob id))).rows) (ht : r.table = t)
    (hrc : is r c (.blob id)) : RootDoomed db root c id q r := by
  obtain ⟨p, hp, hqp⟩ := hroot
  rw [← table_signals c id hne] at hp
  obtain ⟨hpmem, hptable⟩ := (mem_table _).mp hp
  exact .cascade hr (.base hpmem (by rw [hptable, hqp]; simp))
    (cascades_id hf ht hptable hrc (hq p hqp))

lemma rootDoomed_isIn (hq : ∀ r, q r = true → is r .id (.blob id))
    (hroot : ∃ p ∈ db.table root, q p = true) (hne : root ≠ queryPageSignals) {t t' : Table}
    {col : Column} (hf : cascadeTo t c root ∈ references) (ht : t ≠ queryPageSignals)
    (hf' : cascadeTo t' col t ∈ references) {r : DbRow}
    (hr : r ∈ (deleteQuerySignalsOfSessions db (is · c (.blob id))).rows) (hrt : r.table = t')
    (hin : isIn db r col t (is · c (.blob id))) : RootDoomed db root c id q r := by
  simp only [isIn, List.any_eq_true, Bool.and_eq_true, decide_eq_true_eq] at hin
  obtain ⟨x, hx, ⟨hxc, hcell⟩, heq⟩ := hin
  obtain ⟨v, hv⟩ := ne_none_iff_exists'.mp hcell
  rw [← table_signals c id ht] at hx
  obtain ⟨hxmem, hxtable⟩ := (mem_table _).mp hx
  exact .cascade hr (rootDoomed_filed hq hroot hne hf hxmem hxtable hxc)
    (cascades_id hf' hrt hxtable (v := v) (decide_eq_true hv) (decide_eq_true (heq ▸ hv)))

lemma false_of_rootDoomed
    (he : Evolves (db.deletes (rootCuts db root c id q ws proj)) db') {r : DbRow}
    (hr : r ∈ db'.rows) (hlog : r.table ∉ schema.logs)
    (hdoom : ∀ x ∈ (deleteQuerySignalsOfSessions db (is · c (.blob id))).rows, Descends schema x r →
      RootDoomed db root c id q x) : False := by
  have hrest : Evolves ((deleteQuerySignalsOfSessions db (is · c (.blob id))).delete
      fun r => r.table = root && q r) db' := (evolves_delete _ _).trans he
  obtain ⟨r₂, hr₂, hd₂⟩ := hrest.exists_descends hr hlog
  obtain ⟨r₁, hr₁, hkept, rfl⟩ := (mem_delete _).mp hr₂
  exact hkept (hdoom r₁ hr₁ ((Descends.release _ r₁).trans hd₂))

lemma rootCuts_justified
    (hscope : ∀ r : DbRow, r.table = root → q r → scopeRow sessionIdOf db r req)
    (htomb : ∀ r : DbRow, r.table = purgedScopes → inScope ws proj r →
      scopeRow sessionIdOf db r req)
    (hsessions : ∀ x ∈ db.table sessions, is x c (.blob id) = true → RootDoomed db root c id q x)
    (he : Evolves (db.deletes (rootCuts db root c id q ws proj)) db')
    (hkept : ∀ r, ¬ Removed (db.deletes (rootCuts db root c id q ws proj)) db' r) :
    Justified (fun r => scopeRow sessionIdOf db r req = true) Dependent db db' := by
  have hdep := dependence sessionIdOf db req
  set db₁ := deleteQuerySignalsOfSessions db (is · c (.blob id)) with hdb₁
  set db₂ := db₁.delete fun r => r.table = root && q r with hdb₂
  have he₂ : Evolves db₂ db' := (evolves_delete db₂ _).trans he
  have he₁ : Evolves db₁ db' := (evolves_delete db₁ _).trans he₂
  have hj₂ : Justified (fun r => scopeRow sessionIdOf db r req = true) Dependent db₂ db' := by
    refine Justified.delete hdep ((Justified.refl db').kept hdep he hkept) he fun r _ hb => ?_
    rw [Bool.and_eq_true, decide_eq_true_eq] at hb
    exact .inl (htomb r hb.1 hb.2)
  have hj₁ : Justified (fun r => scopeRow sessionIdOf db r req = true) Dependent db₁ db' := by
    refine Justified.delete hdep hj₂ he₂ fun r _ hb => ?_
    rw [Bool.and_eq_true, decide_eq_true_eq] at hb
    exact .inl (hscope r hb.1 hb.2)
  refine Justified.delete hdep hj₁ he₁ fun r _ hb => .inr ?_
  rw [Bool.and_eq_true, decide_eq_true_eq, lastSessionOf, List.any_eq_true] at hb
  obtain ⟨ht, x, hx, hnames⟩ := hb
  rw [Bool.and_eq_true] at hnames
  obtain ⟨hxmem, hxtable⟩ := db.mem_table.mp hx
  -- The session that the signal names goes with the root row.
  have hgone : Removed db₁ db' x := by
    have hx₁ : Removed db₁ db₂ x := removed_delete.mpr (hsessions x hx hnames.1)
    exact hx₁.trans (evolves_delete db₁ _) he₂
  refine ⟨x, hgone.of_descends hxmem (.refl x), .inr (.inr ?_)⟩
  obtain ⟨sid, hid, hlast⟩ : ∃ sid, x.cell .id = some (.blob sid) ∧
      is r lastSession (.text (hyphenated sid)) := by
    have hlast := hnames.2
    split at hlast
    · exact ⟨_, ‹_›, hlast⟩
    · cases hlast
  rw [namesSession, hxtable, hid]
  simp [ht, hlast]

end Root

section Exact

variable {sessionIdOf : String → Option String} {db db' : Db} {compaction : Compaction}
  {now auditedAt : ℤ} {req : Request}

lemma previewExact_of_refused {e : StoreError}
    (h : ∀ mode, req.transact sessionIdOf db compaction mode now auditedAt = .error e) :
    PreviewExact sessionIdOf db compaction now auditedAt req where
  unchanged := by rw [Request.run, h]
  same := by rw [Request.run, Request.run, h, h]
  purged s hs := by
    rw [Request.run, h] at hs
    cases hs

lemma previewExact_of_commit {s s' : Summary}
    (hprev : req.transact sessionIdOf db compaction .preview now auditedAt = .ok (s, db))
    (hcom : req.transact sessionIdOf db compaction .commit now auditedAt = .ok (s', db'))
    (hsame : s.uncompacted = s'.uncompacted) :
    PreviewExact sessionIdOf db compaction now auditedAt req ↔ Purged sessionIdOf req db db' := by
  have hrun : req.run sessionIdOf db compaction .preview now auditedAt = (.ok s, db) := by
    rw [Request.run, hprev]
  have hrun' : req.run sessionIdOf db compaction .commit now auditedAt = (.ok s', db') := by
    rw [Request.run, hcom]
  constructor
  · intro h
    have hp := h.purged s' (by rw [hrun'])
    rwa [hrun'] at hp
  · intro h
    refine ⟨by rw [hrun], ?_, fun _ _ => by rwa [hrun']⟩
    rw [hrun, hrun']
    exact congrArg Except.ok hsame

lemma not_previewExact_of_error {s : Summary} {e : StoreError}
    (hprev : req.transact sessionIdOf db compaction .preview now auditedAt = .ok (s, db))
    (hcom : req.transact sessionIdOf db compaction .commit now auditedAt = .error e) :
    ¬ PreviewExact sessionIdOf db compaction now auditedAt req := by
  intro h
  have hsame := h.same
  rw [Request.run, Request.run, hprev, hcom] at hsame
  exact absurd hsame (by simp [Except.map])

lemma session_exact_iff (ws proj sid : Uuid) (author : Option Uuid) (owner : Option String) :
    PreviewExact sessionIdOf db compaction now auditedAt (.session ws proj sid author owner) ↔
      HoldsWhen sessionIdOf db now (.session ws proj sid author owner) := by
  rw [HoldsWhen]
  cases hcol : collectSession sessionIdOf db ws proj sid author owner with
  | error e =>
    refine iff_of_true (previewExact_of_refused (e := e) fun mode => ?_) (.inl ⟨e, rfl⟩)
    rw [Request.transact, purgeSessionWithOwner, hcol]
    rfl
  | ok plan =>
    have hplan := collectSession_ok hcol
    obtain ⟨db₁, htomb, hreg, hpurged⟩ := hplan.commit author owner now
    have hprev : ∃ s, Request.transact sessionIdOf db compaction .preview now auditedAt
        (.session ws proj sid author owner) = .ok (.session s, db) ∧ s.compacted = false ∧
        s.observationsDeleted = count db observations (inScopeSession ws proj sid) ∧
        s.handoffsDeleted = count db handoffs (authoredHandoff ws proj sid) ∧
        s.pagesDeleted = plan.pageIds.length ∧ s.autoImproveRunsDeleted = plan.runIds.length ∧
        s.removedPaths = plan.removedPaths ∧
        s.collateralObservationsDeleted = plan.collateralObservationsDeleted ∧
        s.collateralHandoffsDenulled = plan.collateralHandoffsDenulled := by
      rw [Request.transact, purgeSessionWithOwner, hcol]
      exact ⟨_, rfl, rfl, rfl, rfl, rfl, rfl, rfl, rfl, rfl⟩
    obtain ⟨s, hprev, hflag, hobs, hhandoffs, hpages, hruns, hpaths, hcolo, hcolh⟩ := hprev
    have hcounts := hplan.cut_counts
    by_cases hauth : Registered db author
    · refine iff_of_true ?_ (.inr hauth)
      obtain ⟨db₂, haudit⟩ := (audit_ok_iff ws proj auditedAt
        "purge_session" author).mpr (hreg.mpr hauth)
      obtain ⟨he, hkept⟩ := audit_evolves haudit
      have hcom : Request.transact sessionIdOf db compaction .commit now auditedAt
          (.session ws proj sid author owner) = .ok (.session { s with
            compacted := compaction = .reclaim }, db₂) := by
        rw [Request.transact, purgeSessionWithOwner, hcol]
        change Except.map _ (tombstoneSession (cutSession db ws proj sid plan).2 ws proj sid now
          >>= _) = _
        rw [htomb]
        change Except.map _ (audit _ "purge_session" ws proj author auditedAt >>= _) = _
        rw [haudit]
        change Except.ok (Summary.session (PurgeSessionSummary.mk
          (cutSession db ws proj sid plan).1.observations
          (cutSession db ws proj sid plan).1.handoffs (cutSession db ws proj sid plan).1.pages
          (cutSession db ws proj sid plan).1.runs _ _ _ _), db₂) = _
        rw [hcounts]
        cases s
        subst hobs hhandoffs hpages hruns hpaths hcolo hcolh
        rfl
      refine (previewExact_of_commit hprev hcom ?_).mpr (hpurged db₂ he hkept)
      rfl
    · refine iff_of_false ?_ ?_
      · refine not_previewExact_of_error (e := .sqlite .foreignKey) hprev ?_
        rw [Request.transact, purgeSessionWithOwner, hcol]
        change Except.map _ (tombstoneSession (cutSession db ws proj sid plan).2 ws proj sid now
          >>= _) = _
        rw [htomb]
        change Except.map _ (audit _ "purge_session" ws proj author auditedAt >>= _) = _
        rw [audit_error fun h => hauth (hreg.mp h)]
        rfl
      · rintro (⟨e, he⟩ | h)
        · cases he
        · exact hauth h

lemma root_none_left {root : Table} {c : Column} {id ws proj : Uuid} {q : DbRow → Bool}
    (hq : ∀ r, q r = true → is r .id (.blob id))
    (hroot : ∃ p ∈ db.table root, q p = true) (hne : root ≠ queryPageSignals)
    (hc : c ≠ purgedAt) (he : Evolves (db.deletes (rootCuts db root c id q ws proj)) db')
    {r : DbRow} (hr : r ∈ db'.rows) (hlog : r.table ∉ schema.logs)
    (hfiled : cascadeTo r.table c root ∈ references) : is r c (.blob id) = false := by
  rw [← Bool.not_eq_true]
  intro hrc
  refine false_of_rootDoomed he hr hlog fun x hx hd => ?_
  exact rootDoomed_filed hq hroot hne hfiled hx hd.table.symm (is_of_descends hd hc hrc)

lemma root_none_referring {root : Table} {c : Column} {id ws proj : Uuid} {q : DbRow → Bool}
    (hq : ∀ r, q r = true → is r .id (.blob id))
    (hroot : ∃ p ∈ db.table root, q p = true) (hne : root ≠ queryPageSignals)
    (he : Evolves (db.deletes (rootCuts db root c id q ws proj)) db')
    {r : DbRow} (hr : r ∈ db'.rows) (hlog : r.table ∉ schema.logs) {t : Table} {col : Column}
    (hf : cascadeTo t c root ∈ references) (ht : t ≠ queryPageSignals)
    (hf' : cascadeTo r.table col t ∈ references) (hcol : col ≠ purgedAt) :
    isIn db r col t (is · c (.blob id)) = false := by
  rw [← Bool.not_eq_true]
  intro hin
  refine false_of_rootDoomed he hr hlog fun x hx hd => ?_
  exact rootDoomed_isIn hq hroot hne hf ht hf' hx hd.table.symm (isIn_of_descends hd hcol hin)

section Project

variable {ws proj : Uuid} {label : String} {author : Option Uuid} {force : Bool}

lemma projectTables_spec : ∀ t ∈ projectTables, t ∉ schema.logs ∧
    cascadeTo t projectId projects ∈ references ∧ t ≠ queryPageSignals ∧ t ∉ [purgedScopes] ∧
    schema.fixed t projectId := by decide

lemma mem_countedTables {t : Table} (ht : t ∈ countedTables (.project ws proj label author force)) :
    t ∈ projectTables ∨ t = pageEmbeddings ∨ t = managedRuns := by
  revert t
  simp only [countedTables]
  decide

lemma scopeRow_project {r : DbRow} (ht : r.table ∈ projectTables) :
    scopeRow sessionIdOf db r (.project ws proj label author force) =
      is r projectId (.blob proj) := by
  simp only [projectTables, mem_cons, not_mem_nil, or_false] at ht
  rcases ht with ht | ht | ht | ht | ht <;> simp only [scopeRow, ht]

abbrev projectCuts (db : Db) (ws proj : Uuid) : List (DbRow → Bool) :=
  rootCuts db projects projectId proj (isProject ws proj) ws proj

lemma isProject_id {p : DbRow} (h : isProject ws proj p) :
    is p .id (.blob proj) := by
  rw [isProject, Bool.and_eq_true] at h
  exact h.1

lemma project_purged (hin : ∃ p ∈ db.table projects, isProject ws proj p = true)
    (he : Evolves (db.deletes (projectCuts db ws proj)) db')
    (hkept : ∀ r, ¬ Removed (db.deletes (projectCuts db ws proj)) db' r) :
    Purged sessionIdOf (.project ws proj label author force) db db' := by
  have hid : ∀ p, isProject ws proj p = true → is p .id (.blob proj) :=
    fun _ => isProject_id
  refine ⟨fun r hr ht => ?_, ?_⟩
  · rcases mem_countedTables ht with ht | ht | ht
    · obtain ⟨hlog, hcas, -⟩ := projectTables_spec _ ht
      rw [scopeRow_project ht]
      exact root_none_left hid hin (by decide) (by decide) he hr hlog hcas
    all_goals
      simp only [scopeRow, ht]
      exact root_none_referring hid hin (by decide) he hr (by rw [ht]; decide) (by decide)
        (by decide) (by rw [ht]; decide) (by decide)
  · refine rootCuts_justified (fun r ht hq => ?_) (fun r ht hs => ?_) (fun x hx hxc => ?_) he hkept
    · simpa only [scopeRow, ht] using isProject_id hq
    · rw [inScope, Bool.and_eq_true] at hs
      simpa only [scopeRow, ht] using hs.2
    · rw [← table_signals projectId proj (by decide)] at hx
      obtain ⟨hxmem, hxtable⟩ := (mem_table _).mp hx
      exact rootDoomed_filed hid hin (by decide) (t := sessions) (by decide) hxmem hxtable hxc

lemma project_purged_of_empty
    (hempty : ∀ r ∈ db.rows, r.table ∈ projectTables → is r projectId (.blob proj) = false)
    (he : Evolves (db.deletes (projectCuts db ws proj)) db')
    (hkept : ∀ r, ¬ Removed (db.deletes (projectCuts db ws proj)) db' r) :
    Purged sessionIdOf (.project ws proj label author force) db db' := by
  have hnone : ∀ t ∈ projectTables, ∀ x ∈ db.table t, is x projectId (.blob proj) = false := by
    intro t ht x hx
    obtain ⟨hxmem, hxtable⟩ := db.mem_table.mp hx
    exact hempty x hxmem (hxtable ▸ ht)
  have hnoneIn : ∀ t ∈ projectTables, ∀ r col,
      isIn db r col t (is · projectId (.blob proj)) = false := by
    intro t ht r col
    rw [isIn, List.any_eq_false]
    intro x hx
    rw [hnone t ht x hx]
    simp
  refine ⟨fun r hr ht => ?_, ?_⟩
  · rcases mem_countedTables ht with ht | ht | ht
    · rw [scopeRow_project ht, ← Bool.not_eq_true]
      intro hrc
      have hlog := (projectTables_spec _ ht).1
      obtain ⟨r₀, hr₀, hd⟩ := ((evolves_deletes db _).trans he).exists_descends hr hlog
      have hno := hempty r₀ hr₀ (hd.table ▸ ht)
      rw [is_of_descends hd (by decide) hrc] at hno
      cases hno
    · simpa only [scopeRow, ht] using hnoneIn pages (by decide) r pageId
    · simpa only [scopeRow, ht] using hnoneIn workstreams (by decide) r workstreamId
  · refine rootCuts_justified (fun r ht hq => ?_) (fun r ht hs => ?_) (fun x hx hxc => ?_) he hkept
    · simpa only [scopeRow, ht] using isProject_id hq
    · rw [inScope, Bool.and_eq_true] at hs
      simpa only [scopeRow, ht] using hs.2
    · rw [hnone sessions (by decide) x hx] at hxc
      cases hxc

lemma not_project_purged (hout : ∀ p ∈ db.table projects, isProject ws proj p = false)
    {r : DbRow} (hr : r ∈ db.rows) (ht : r.table ∈ projectTables)
    (hrc : is r projectId (.blob proj)) (he : Evolves (db.deletes (projectCuts db ws proj)) db')
    (hkept : ∀ r, ¬ Removed (db.deletes (projectCuts db ws proj)) db' r) :
    ¬ Purged sessionIdOf (.project ws proj label author force) db db' := by
  intro h
  set db₁ := deleteQuerySignalsOfSessions db (is · projectId (.blob proj)) with hdb₁
  obtain ⟨-, -, hne, hscopes, hfixed⟩ := projectTables_spec _ ht
  have hr₁ : r ∈ db₁.rows := by
    have hmem : r ∈ db₁.table r.table := by
      rw [hdb₁, table_signals _ _ hne]
      exact db.mem_table.mpr ⟨hr, rfl⟩
    exact ((mem_table _).mp hmem).1
  -- The delete of the project names no row.
  have hr₂ : ∃ r₂ ∈ (db₁.delete fun p => p.table = projects && isProject ws proj p).rows,
      Descends schema r r₂ := by
    refine ⟨_, (mem_delete _).mpr ⟨r, hr₁, fun hd => ?_, rfl⟩, .release _ r⟩
    have hnobase : ∀ x, Doomed schema db₁.rows
        (fun p => decide (p.table = projects) && isProject ws proj p) x → False := by
      intro x hx
      induction hx with
      | base hx hb =>
        rw [Bool.and_eq_true, decide_eq_true_eq] at hb
        have hmem : _ ∈ db₁.table projects := (mem_table _).mpr ⟨hx, hb.1⟩
        rw [hdb₁, table_signals _ _ (by decide)] at hmem
        rw [hout _ hmem] at hb
        exact absurd hb.2 (by simp)
      | cascade _ _ _ ih => exact ih
    exact hnobase r hd
  obtain ⟨r₂, hr₂, hd₂⟩ := hr₂
  have hscopesOnly : ∀ base ∈ [fun r : DbRow => decide (r.table = purgedScopes)
      && inScope ws proj r], ∀ r, base r = true → r.table ∈ [purgedScopes] := by
    intro base hb x hx
    rw [List.mem_singleton.mp hb, Bool.and_eq_true, decide_eq_true_eq] at hx
    rw [hx.1]
    decide
  obtain ⟨r₃, hr₃, hd₃⟩ := exists_deletes (T := [purgedScopes]) (by
    unfold Schema.Closed
    decide +kernel) hscopesOnly hr₂ (hd₂.table ▸ hscopes)
  obtain ⟨r', hr', hd'⟩ := he.exists_of_not_removed (r := r₃) hr₃ (hkept r₃)
  have hd := (hd₂.trans hd₃).trans hd'
  have hleft : is r' projectId (.blob proj) := by
    rw [is_descends hd hfixed]
    exact hrc
  have hscope : scopeRow sessionIdOf db r' (.project ws proj label author force) := by
    rw [scopeRow_project (hd.table ▸ ht)]
    exact hleft
  have hcounted : ∀ t ∈ projectTables, t ∈ countedTables (.project ws proj label author force) := by
    simp only [countedTables]
    decide
  have hno := h.none_left r' hr' (hd.table ▸ hcounted _ ht)
  rw [hscope] at hno
  cases hno

lemma purgeProject_commit {summary : PurgeSummary}
    (h : collectProject db proj label force now = .ok summary) :
    purgeProject db ws proj label author force compaction .commit now auditedAt =
      tombstoneScope (execDelete (deleteQuerySignalsOfSessions db (is · projectId (.blob proj)))
        projects (isProject ws proj)).2 ws proj now >>= fun db =>
      audit db "purge_project" ws proj author auditedAt >>= fun db =>
      .ok ({ summary with compacted := compaction = .reclaim }, db) := by
  rw [purgeProject, h]
  rfl

lemma project_exact_iff :
    PreviewExact sessionIdOf db compaction now auditedAt (.project ws proj label author force) ↔
      HoldsWhen sessionIdOf db now (.project ws proj label author force) := by
  rw [HoldsWhen]
  cases hcol : collectProject db proj label force now with
  | error e =>
    refine iff_of_true (previewExact_of_refused (e := e) fun mode => ?_) (.inl ⟨e, rfl⟩)
    rw [Request.transact, purgeProject, hcol]
    rfl
  | ok summary =>
    have hprev : Request.transact sessionIdOf db compaction .preview now auditedAt
        (.project ws proj label author force) = .ok (.project summary, db) := by
      rw [Request.transact, purgeProject, hcol]
      rfl
    obtain ⟨mid, db₁, hmid, htomb, he₁, hkept₁⟩ := tombstoneScope_ok
      (execDelete (deleteQuerySignalsOfSessions db (is · projectId (.blob proj))) projects
        (isProject ws proj)).2 ws proj now
    have hcuts : mid = db.deletes (projectCuts db ws proj) := hmid
    have hreg : Registered db₁ author ↔ Registered db author := by
      refine (registered_evolves he₁ (fun u _ => hkept₁ u) author).trans ?_
      rw [hcuts]
      exact registered_evolves (evolves_deletes db _) (fun u hu =>
        not_removed_deletes rootTables_closed (rootCuts_table (by decide))
          (by rw [hu]; decide)) author
    by_cases hauth : Registered db author
    · obtain ⟨db₂, haudit⟩ := (audit_ok_iff ws proj auditedAt
        "purge_project" author).mpr (hreg.mpr hauth)
      obtain ⟨he₂, hkept₂⟩ := audit_evolves haudit
      have hcom : Request.transact sessionIdOf db compaction .commit now auditedAt
          (.project ws proj label author force) = .ok (.project { summary with
            compacted := compaction = .reclaim }, db₂) := by
        rw [Request.transact, purgeProject_commit hcol, htomb]
        change Except.map _ (audit db₁ "purge_project" ws proj author auditedAt >>= _) = _
        rw [haudit]
        rfl
      rw [previewExact_of_commit hprev hcom rfl]
      have he : Evolves (db.deletes (projectCuts db ws proj)) db₂ := hcuts ▸ he₁.trans he₂
      have hkept : ∀ r, ¬ Removed (db.deletes (projectCuts db ws proj)) db₂ r := by
        intro r hr
        rw [← hcuts] at hr
        obtain ⟨r₁, hr₁, hd₁⟩ := he₁.exists_of_not_removed hr.1 (hkept₁ r)
        obtain ⟨r₂, hr₂, hd₂⟩ := he₂.exists_of_not_removed hr₁ (hkept₂ r₁)
        exact hr.2 r₂ hr₂ (hd₂.rowid.trans hd₁.rowid)
      constructor
      · intro h
        refine .inr ⟨hauth, ?_⟩
        by_cases hin : ∃ p ∈ db.table projects, isProject ws proj p = true
        · obtain ⟨p, hp, hpin⟩ := hin
          rw [isProject, Bool.and_eq_true] at hpin
          exact .inl ⟨p, hp, hpin⟩
        · refine .inr fun r hr ht => ?_
          rw [← Bool.not_eq_true]
          intro hrc
          refine not_project_purged (fun p hp => ?_) hr ht hrc he hkept h
          rw [← Bool.not_eq_true]
          exact fun hp' => hin ⟨p, hp, hp'⟩
      · rintro (⟨e, he⟩ | ⟨-, ⟨p, hp, hpid, hpws⟩ | hempty⟩)
        · cases he
        · exact project_purged ⟨p, hp, by rw [isProject, hpid, hpws]; rfl⟩ he hkept
        · exact project_purged_of_empty hempty he hkept
    · refine iff_of_false ?_ ?_
      · refine not_previewExact_of_error (e := .sqlite .foreignKey) hprev ?_
        rw [Request.transact, purgeProject_commit hcol, htomb]
        change Except.map _ (audit db₁ "purge_project" ws proj author auditedAt >>= _) = _
        rw [audit_error fun h => hauth (hreg.mp h)]
        rfl
      · rintro (⟨e, he⟩ | ⟨h, -⟩)
        · cases he
        · exact hauth h

end Project

section Workspace

variable {ws : Uuid} {force : Bool}

abbrev workspaceCuts (db : Db) (ws : Uuid) : List (DbRow → Bool) :=
  rootCuts db workspaces workspaceId ws (is · .id (.blob ws)) ws wholeWorkspace

lemma workspace_purged (hin : ∃ p ∈ db.table workspaces, is p .id (.blob ws) = true)
    (he : Evolves (db.deletes (workspaceCuts db ws)) db')
    (hkept : ∀ r, ¬ Removed (db.deletes (workspaceCuts db ws)) db' r) :
    Purged sessionIdOf (.workspace ws force) db db' := by
  have hid : ∀ p : DbRow, is p .id (.blob ws) = true → is p .id (.blob ws) := fun _ h => h
  refine ⟨fun r hr ht => ?_, ?_⟩
  · have hcases : r.table ∈ projects :: projectTables ∨ r.table = pageEmbeddings ∨
        r.table = managedRuns := by
      revert ht
      generalize r.table = t
      simp only [countedTables]
      revert t
      decide
    rcases hcases with hin' | ht | ht
    · have hspec : ∀ t ∈ projects :: projectTables, t ∉ schema.logs ∧
          cascadeTo t workspaceId workspaces ∈ references := by decide
      obtain ⟨hlog, hcas⟩ := hspec _ hin'
      have hno := root_none_left hid hin (by decide) (by decide) he hr hlog hcas
      simp only [projectTables, mem_cons, not_mem_nil, or_false] at hin'
      rcases hin' with ht | ht | ht | ht | ht | ht <;> simpa only [scopeRow, ht] using hno
    all_goals
      simp only [scopeRow, ht]
      exact root_none_referring hid hin (by decide) he hr (by rw [ht]; decide) (by decide)
        (by decide) (by rw [ht]; decide) (by decide)
  · refine rootCuts_justified (fun r ht hq => ?_) (fun r ht hs => ?_) (fun x hx hxc => ?_) he hkept
    · simpa only [scopeRow, ht] using hq
    · rw [inScope, Bool.and_eq_true] at hs
      simpa only [scopeRow, ht] using hs.1
    · rw [← table_signals workspaceId ws (by decide)] at hx
      obtain ⟨hxmem, hxtable⟩ := (mem_table _).mp hx
      exact rootDoomed_filed hid hin (by decide) (t := sessions) (by decide) hxmem hxtable hxc

lemma collectWorkspace_ok {summary : DeleteWorkspaceSummary}
    (h : collectWorkspace db ws force = .ok summary) :
    count db workspaces (is · .id (.blob ws)) ≠ 0 := by
  unfold collectWorkspace at h
  simp only at h
  split at h
  · cases h
  · assumption

lemma deleteWorkspace_commit {summary : DeleteWorkspaceSummary}
    (h : collectWorkspace db ws force = .ok summary) :
    deleteWorkspace db ws force compaction .commit now =
      (if (execDelete (deleteQuerySignalsOfSessions db (is · workspaceId (.blob ws)))
          workspaces (is · .id (.blob ws))).1 = 0 then .error (.notFound "workspace")
      else tombstoneScope (execDelete (deleteQuerySignalsOfSessions db
          (is · workspaceId (.blob ws))) workspaces (is · .id (.blob ws))).2 ws wholeWorkspace
          now >>= fun db => .ok ({ summary with compacted := compaction = .reclaim }, db)) := by
  rw [deleteWorkspace, h]
  rfl

lemma workspace_exact :
    PreviewExact sessionIdOf db compaction now auditedAt (.workspace ws force) := by
  cases hcol : collectWorkspace db ws force with
  | error e =>
    refine previewExact_of_refused (e := e) fun mode => ?_
    rw [Request.transact, deleteWorkspace, hcol]
    rfl
  | ok summary =>
    have hprev : Request.transact sessionIdOf db compaction .preview now auditedAt
        (.workspace ws force) = .ok (.workspace summary, db) := by
      rw [Request.transact, deleteWorkspace, hcol]
      rfl
    have hthere := collectWorkspace_ok hcol
    obtain ⟨mid, db₁, hmid, htomb, he₁, hkept₁⟩ := tombstoneScope_ok
      (execDelete (deleteQuerySignalsOfSessions db (is · workspaceId (.blob ws))) workspaces
        (is · .id (.blob ws))).2 ws wholeWorkspace now
    have hremoved : (execDelete (deleteQuerySignalsOfSessions db (is · workspaceId (.blob ws)))
        workspaces (is · .id (.blob ws))).1 ≠ 0 := by
      rw [execDelete, count, table_signals _ _ (by decide)]
      exact hthere
    have hcom : Request.transact sessionIdOf db compaction .commit now auditedAt
        (.workspace ws force) = .ok (.workspace { summary with
          compacted := compaction = .reclaim }, db₁) := by
      rw [Request.transact, deleteWorkspace_commit hcol, if_neg hremoved, htomb]
      rfl
    have hcuts : mid = db.deletes (workspaceCuts db ws) := hmid
    rw [previewExact_of_commit hprev hcom rfl]
    have hin : ∃ p ∈ db.table workspaces, is p .id (.blob ws) = true :=
      List.countP_pos_iff.mp (Nat.pos_of_ne_zero hthere)
    rw [hcuts] at he₁ hkept₁
    exact workspace_purged hin he₁ hkept₁

end Workspace

/-- A preview is exact when the purge is refused before anything is cut, or when
the operator is known and the project, if it is one, lies in the workspace named
or holds nothing. -/
theorem previewExact_iff (sessionIdOf : String → Option String) (db : Db)
    (compaction : Compaction) (now auditedAt : ℤ) (req : Request) :
    PreviewExact sessionIdOf db compaction now auditedAt req ↔
      HoldsWhen sessionIdOf db now req := by
  cases req with
  | session ws proj sid author owner => exact session_exact_iff ws proj sid author owner
  | project ws proj label author force => exact project_exact_iff
  | workspace ws force => exact iff_of_true workspace_exact trivial

def twoWorkspaces : Db where
  rows := [
    ⟨0, workspaces, [(.id, .blob (List.replicate 16 1)), (name, .text "one")]⟩,
    ⟨1, workspaces, [(.id, .blob (List.replicate 16 2)), (name, .text "two")]⟩,
    ⟨2, projects, [(.id, .blob (List.replicate 16 3)),
      (workspaceId, .blob (List.replicate 16 1)), (name, .text "app")]⟩,
    ⟨3, sessions, [(.id, .blob (List.replicate 16 4)),
      (workspaceId, .blob (List.replicate 16 1)), (projectId, .blob (List.replicate 16 3))]⟩]
  next := 4
  rowids := by decide
  rowid_lt := by decide +kernel
  referential := by decide +kernel
  unique := by decide +kernel

/-- A purge of the project that names the other workspace reports the session as
deleted, and deletes nothing. -/
theorem wrong_workspace_keeps_session :
    ¬ PreviewExact (fun _ => none) twoWorkspaces .logical 0 0
      (.project (List.replicate 16 2) (List.replicate 16 3) "two/app" none false) := by
  intro h
  have hrun : (Request.run (fun _ => none) twoWorkspaces .logical .commit 0 0
      (.project (List.replicate 16 2) (List.replicate 16 3) "two/app" none false)).1
      = .ok (.project ⟨"two/app", [], 0, 1, 0, 0, 0, 0, 0, 0, 0, [], false⟩) := by
    decide +kernel
  have hleft : ∃ r ∈ (Request.run (fun _ => none) twoWorkspaces .logical .commit 0 0
      (.project (List.replicate 16 2) (List.replicate 16 3) "two/app" none false)).2.rows,
      r.table = sessions ∧ scopeRow (fun _ => none) twoWorkspaces r
        (.project (List.replicate 16 2) (List.replicate 16 3) "two/app" none false) = true := by
    decide +kernel
  obtain ⟨r, hr, ht, hscope⟩ := hleft
  have hno := (h.purged _ hrun).none_left r hr (by rw [ht]; decide)
  rw [hscope] at hno
  exact absurd hno (by simp)

end Exact

end Purge
