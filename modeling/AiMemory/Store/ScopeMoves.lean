/-
What the moves reach.

A project move re-stamps five tables by project alone; in the others it asks for
the workspace the project leaves as well, and it never touches the tombstones of
purged scopes.  A session move gathers whatever hangs off the session, wherever
it lies; of the session's page it handles the versions of the scope it leaves,
so that versions of a third scope wait for a second call.
-/
import AiMemory.Store.Holdings
import AiMemory.Store.DbInvariant

open Table Runs List

namespace Holdings

open Store Projects

variable {h h' : Holdings} {proj : ProjectId} {source target ws : WorkspaceId}

/-! ### Project moves -/

/-- The tables whose `UPDATE` asks for the project alone. -/
def TableName.byProject : TableName → Bool
  | .pages | .sessions | .observations | .handoffs | .projectGrants => true
  | _ => false

def reached (table : TableName) (proj : ProjectId) (source : WorkspaceId)
    (scope : WorkspaceId × ProjectId) : Bool :=
  scope.2 = proj && (table.byProject || (scope.1 = source && table ≠ .purgedScopes))

def movedScope (table : TableName) (proj : ProjectId) (source target : WorkspaceId)
    (scope : WorkspaceId × ProjectId) : WorkspaceId × ProjectId :=
  if reached table proj source scope then (target, scope.2) else scope

lemma checkedKey_ok {α κ : Type} [DecidableEq κ] {key : α → κ} {rows rows' : List (Stamped α)}
    (hok : checkedKey key rows = .ok rows') : rows' = rows := by
  unfold checkedKey at hok
  split at hok
  · cases hok
    rfl
  · cases hok

lemma checkedProposals_ok {rows rows' : List (Stamped AutoImproveProposal)}
    (hok : checkedProposals rows = .ok rows') : rows' = rows := by
  obtain ⟨-, -, hok⟩ := bind_ok.mp hok
  cases hok
  rfl

lemma moveProject_ok {t t' : SideTables}
    (hok : SideTables.moveProject t proj source target = .ok t') :
    t' = { t with
      autoImproveRuns := restamped proj source target t.autoImproveRuns
      autoImproveProposals := restamped proj source target t.autoImproveProposals
      autoImproveRejections := restamped proj source target t.autoImproveRejections
      schedulerState := restamped proj source target t.schedulerState
      schedulerClaims := restamped proj source target t.schedulerClaims
      pageFeedback := restamped proj source target t.pageFeedback
      profileCandidates := restamped proj source target t.profileCandidates
      profileEntryLedger := restamped proj source target t.profileEntryLedger
      profileHarvestMarks := restamped proj source target t.profileHarvestMarks
      queryPageSignals := restamped proj source target t.queryPageSignals } := by
  obtain ⟨proposals, hproposals, hok⟩ := bind_ok.mp hok
  obtain ⟨state, hstate, hok⟩ := bind_ok.mp hok
  obtain ⟨candidates, hcandidates, hok⟩ := bind_ok.mp hok
  obtain ⟨entries, hentries, hok⟩ := bind_ok.mp hok
  obtain ⟨marks, hmarks, hok⟩ := bind_ok.mp hok
  obtain ⟨signals, hsignals, hok⟩ := bind_ok.mp hok
  rw [pure_ok] at hok
  rw [← hok, checkedProposals_ok hproposals, checkedKey_ok hstate, checkedKey_ok hcandidates,
    checkedKey_ok hentries, checkedKey_ok hmarks, checkedKey_ok hsignals]

lemma moveProjectWorkspace_ok (hok : h.moveProjectWorkspace proj source target = .ok h') :
    SideTables.moveProject h.side proj source target = .ok h'.side ∧
      h.core.moveProjectWorkspace proj source target = .ok h'.core ∧
      h'.auditLog = restampAudit proj source target h.auditLog := by
  obtain ⟨side, hside, hok⟩ := bind_ok.mp hok
  obtain ⟨core, hcore, hok⟩ := bind_ok.mp hok
  rw [pure_ok] at hok
  subst hok
  exact ⟨hside, hcore, rfl⟩

lemma map_update_byProject {ρ : Type} {scope : ρ → WorkspaceId × ProjectId} {f : ρ → ρ}
    {rows : List ρ} {table : TableName} (htable : table.byProject)
    (hf : ∀ r, scope (f r) = (target, (scope r).2)) :
    (update (fun r => (scope r).2 = proj) f rows).map scope =
      (rows.map scope).map (movedScope table proj source target) := by
  refine map_update_eq fun r _ => ?_
  rw [movedScope, reached, htable, Bool.true_or, Bool.and_true]
  split
  · exact hf r
  · rfl

lemma map_update_byScope {ρ : Type} {scope : ρ → WorkspaceId × ProjectId} {f : ρ → ρ}
    {rows : List ρ} {table : TableName} (htable : table.byProject = false)
    (hkept : table ≠ .purgedScopes) (hf : ∀ r, scope (f r) = (target, (scope r).2)) :
    (update (fun r => (scope r).2 = proj && (scope r).1 = source) f rows).map scope =
      (rows.map scope).map (movedScope table proj source target) := by
  refine map_update_eq fun r _ => ?_
  rw [movedScope, reached, htable, Bool.false_or, decide_eq_true hkept, Bool.and_true]
  split
  · exact hf r
  · rfl

lemma scopes_restamped {α : Type} {rows : List (Stamped α)} {table : TableName}
    (htable : table.byProject = false) (hkept : table ≠ .purgedScopes) :
    Stamped.scopes (restamped proj source target rows) =
      (Stamped.scopes rows).map (movedScope table proj source target) :=
  map_update_byScope htable hkept fun _ => rfl

lemma census_audit (rows : List AuditRow) :
    (restampAudit proj source target rows).filterMap
        (fun a => a.workspaceId.bind fun ws => a.projectId.map (ws, ·)) =
      (rows.filterMap fun a => a.workspaceId.bind fun ws => a.projectId.map (ws, ·)).map
        (movedScope .auditLog proj source target) := by
  rw [restampAudit, update, filterMap_map, map_filterMap]
  refine filterMap_congr fun a _ => ?_
  rw [Function.comp_apply]
  cases hws : a.workspaceId with
  | none => simp [hws]
  | some w =>
    cases hproj : a.projectId with
    | none => simp [hproj, hws]
    | some p =>
      by_cases hp : p = proj <;> by_cases hw : w = source <;>
        simp [hp, hw, hws, hproj, movedScope, reached, TableName.byProject]

lemma census_moved (hok : h.moveProjectWorkspace proj source target = .ok h') (table : TableName) :
    h'.census table = (h.census table).map (movedScope table proj source target) := by
  obtain ⟨hside, hcore, haudit⟩ := moveProjectWorkspace_ok hok
  have hside' := moveProject_ok hside
  obtain ⟨reg, hreg, -, hdb⟩ := Database.moveProjectWorkspace_ok hcore
  obtain ⟨-, hprojects, hgrants⟩ := Database.moveProjectRows_ok hreg
  cases table with
  | projects =>
    rw [census, census, hdb]
    change reg.projects.map _ = _
    rw [hprojects]
    exact map_update_byScope rfl (by decide) fun _ => rfl
  | projectGrants =>
    rw [census, census, hdb]
    change reg.grants.map _ = _
    rw [hgrants]
    exact map_update_byProject rfl fun _ => rfl
  | pages | sessions | observations | handoffs =>
    rw [census, census, hdb]
    exact map_update_byProject rfl fun _ => rfl
  | consolidationJobs | workstreams | entities | purgedSessions =>
    rw [census, census, hdb]
    exact map_update_byScope rfl (by decide) fun _ => rfl
  | messagesTo =>
    rw [census, census, hdb]
    refine Eq.trans (map_update fun _ => rfl) ?_
    exact map_update_byScope rfl (by decide) fun _ => rfl
  | messagesFrom =>
    rw [census, census, hdb]
    have hkept : TableName.messagesFrom ≠ .purgedScopes := by decide
    refine Eq.trans (map_update_byScope rfl hkept fun _ => rfl) ?_
    exact congrArg (List.map _) (map_update fun _ => rfl)
  | auditLog =>
    rw [census, census, haudit]
    exact census_audit _
  | purgedScopes =>
    rw [census, census, hside']
    change Stamped.scopes h.side.purgedScopes = _
    conv_lhs => rw [← map_id (Stamped.scopes h.side.purgedScopes)]
    refine map_congr_left fun scope _ => ?_
    simp [movedScope, reached, TableName.byProject]
  | autoImproveRuns | autoImproveProposals | autoImproveRejections | schedulerState
  | schedulerClaims | pageFeedback | profileCandidates | profileEntryLedger | profileHarvestMarks
  | queryPageSignals =>
    rw [census, census, hside']
    exact scopes_restamped rfl (by decide)

lemma complete_iff (hok : h.moveProjectWorkspace proj source target = .ok h') :
    (∀ table, ∀ scope ∈ h'.census table, scope.2 = proj → scope.1 = target) ↔
      ∀ table, ∀ scope ∈ h.census table, scope.2 = proj →
        reached table proj source scope ∨ scope.1 = target := by
  constructor
  · intro hall table scope hscope hproj
    by_cases hreach : reached table proj source scope
    · exact .inl hreach
    · have hmoved : scope ∈ h'.census table := by
        rw [census_moved hok]
        exact mem_map.mpr ⟨scope, hscope, if_neg hreach⟩
      exact .inr (hall table scope hmoved hproj)
  · intro hall table scope' hscope' hproj
    rw [census_moved hok] at hscope'
    obtain ⟨scope, hscope, rfl⟩ := mem_map.mp hscope'
    unfold movedScope at hproj ⊢
    split
    · rfl
    · rename_i hnot
      rw [if_neg hnot] at hproj
      exact (hall table scope hscope hproj).resolve_left hnot

end Holdings

namespace Database

open Store Projects

variable {db db' : Database} {sid : SessionId} {ws : WorkspaceId} {proj : ProjectId}
  {mode : PagesMode} {now : ℤ} {r : SessionRow}

/-! ### Session moves -/

/-- Every row about the session lies in this scope. -/
structure Gathered (db : Database) (sid : SessionId) (ws : WorkspaceId) (proj : ProjectId) :
    Prop where
  session : ∀ x ∈ db.store.sessions, x.id = sid → x.workspaceId = ws ∧ x.projectId = proj
  observations : ∀ o ∈ db.store.observations, o.sessionId = sid →
    o.workspaceId = ws ∧ o.projectId = proj
  jobs : ∀ j ∈ db.store.jobs, j.sessionId = sid → j.workspaceId = ws ∧ j.projectId = proj
  ingestKeys : ∀ k ∈ db.store.ingestKeys, k.sessionId = some sid → k.projectId = proj
  handoffs : ∀ x ∈ db.handoffs, x.fromSessionId = some sid →
    x.workspaceId = ws ∧ x.projectId = proj

lemma moveSessionRows_gathered : Gathered (moveSessionRows db r ws proj) r.id ws proj := by
  -- the `UPDATE` of a table, by its scope columns
  have hgather : ∀ {ρ : Type} {rows : List ρ} {mine : ρ → Bool} {w : ρ → WorkspaceId}
      {p : ρ → ProjectId} {f : ρ → ρ}, (∀ x, w (f x) = ws ∧ p (f x) = proj) →
      ∀ x ∈ update (fun x => mine x && !(w x = ws && p x = proj)) f rows, mine x = true →
        w x = ws ∧ p x = proj := by
    intro ρ rows mine w p f hf x hx hmine
    have hhome : ∀ x, (decide (w (f x) = ws) && decide (p (f x) = proj)) = true := fun x => by
      rw [(hf x).1, (hf x).2, decide_eq_true rfl, decide_eq_true rfl, Bool.and_self]
    simpa using mem_update_gathered hhome hx hmine
  refine ⟨?_, ?_, ?_, ?_, ?_⟩
  · intro x hx hid
    obtain ⟨y, -, rfl⟩ := mem_update.mp hx
    split at hid
    · rename_i hmoved
      rw [if_pos hmoved]
      exact ⟨rfl, rfl⟩
    · rename_i hnot
      exact absurd (decide_eq_true hid) hnot
  · exact fun o ho hsid => hgather (fun _ => ⟨rfl, rfl⟩) o ho (decide_eq_true hsid)
  · exact fun j hj hsid => hgather (fun _ => ⟨rfl, rfl⟩) j hj (decide_eq_true hsid)
  · intro k hk hsid
    have hgone := (mem_delete.mp hk).2
    simpa [hsid] using hgone
  · exact fun x hx hsid => hgather (fun _ => ⟨rfl, rfl⟩) x hx (decide_eq_true hsid)

lemma rekey_of_none {done rest : List IngestKeyRow} (h : ∀ k ∈ rest, strays sid proj k = false) :
    rekey sid proj done rest = done ++ rest := by
  induction rest generalizing done with
  | nil => rw [rekey, append_nil]
  | cons k rest ih =>
    have hk : (decide (k.sessionId = some sid) && decide (k.projectId ≠ proj)) = false :=
      h k mem_cons_self
    rw [rekey, hk, Bool.false_and, if_neg Bool.false_ne_true,
      ih fun x hx => h x (mem_cons_of_mem k hx), append_assoc, singleton_append]

lemma Gathered.moveSessionRows (h : Gathered db r.id ws proj) :
    Database.moveSessionRows db r ws proj = db := by
  have hsessions := update_of_fixed (p := fun x : SessionRow => x.id = r.id)
    (f := fun x => { x with
      workspaceId := ws
      projectId := proj }) fun x hx hid => by
    obtain ⟨hws, hproj⟩ := h.session x hx (of_decide_eq_true hid)
    rw [← hws, ← hproj]
  have hkeys : moveIngestKeys db.store.ingestKeys r.id proj = db.store.ingestKeys := by
    have hnone : ∀ k ∈ db.store.ingestKeys, strays r.id proj k = false := fun k hk => by
      by_cases hsid : k.sessionId = some r.id
      · simp [strays, h.ingestKeys k hk hsid]
      · simp [strays, hsid]
    rw [moveIngestKeys, rekey_of_none hnone]
    exact delete_eq_self hnone
  -- no row of the other tables matches
  have hnone : ∀ {ρ : Type} {rows : List ρ} {mine : ρ → Bool} {w : ρ → WorkspaceId}
      {p : ρ → ProjectId} {f : ρ → ρ}, (∀ x ∈ rows, mine x = true → w x = ws ∧ p x = proj) →
      update (fun x => mine x && !(w x = ws && p x = proj)) f rows = rows := by
    intro ρ rows mine w p f hrows
    refine update_eq_self fun x hx => ?_
    cases hmine : mine x with
    | false => rfl
    | true => simp [hrows x hx hmine]
  have hobs := hnone (f := fun o : ObservationRow => { o with
    workspaceId := ws
    projectId := proj }) fun o ho hsid => h.observations o ho (of_decide_eq_true hsid)
  have hjobs := hnone (f := fun j : JobRow => { j with
    workspaceId := ws
    projectId := proj }) fun j hj hsid => h.jobs j hj (of_decide_eq_true hsid)
  have hhandoffs := hnone (f := fun x : Handoffs.HandoffRow => { x with
    workspaceId := ws
    projectId := proj }) fun x hx hsid => h.handoffs x hx (of_decide_eq_true hsid)
  rw [Database.moveSessionRows, hsessions, hkeys]
  simp only
  rw [hobs, hjobs, hhandoffs]

lemma Gathered.moveSessionPages {index : Indexed} (h : Gathered db sid ws proj)
    (hpages : Database.moveSessionPages db.index r ws proj mode now = .ok index) :
    Gathered { db with index := index } sid ws proj := by
  obtain ⟨rfl, -⟩ | ⟨-, rows, -, rfl⟩ | ⟨-, rfl⟩ := moveSessionPages_cases hpages
  · exact h
  · exact ⟨h.session, h.observations, h.jobs, h.ingestKeys, h.handoffs⟩
  · refine ⟨fun x hx hid => ?_, h.observations, h.jobs, h.ingestKeys, h.handoffs⟩
    obtain ⟨y, hy, rfl⟩ := mem_update.mp hx
    split at hid
    · rename_i hcleared
      rw [if_pos hcleared]
      exact h.session y hy hid
    · rename_i hkept
      rw [if_neg hkept]
      exact h.session y hy hid

variable {summary : MoveSessionSummary} {r' : SessionRow}

lemma moveSession_gathered (hok : db.moveSession sid ws proj mode true now = .ok (summary, db')) :
    Gathered db' sid ws proj := by
  obtain ⟨r, hfind, -, index, hindex, rfl⟩ := moveSession_ok hok
  rw [← (findSession_some hfind).2]
  exact moveSessionRows_gathered.moveSessionPages hindex

lemma moveSession_ids (hok : db.moveSession sid ws proj mode true now = .ok (summary, db')) :
    db'.store.sessions.map (·.id) = db.store.sessions.map (·.id) ∧
      db'.store.observations.map (·.id) = db.store.observations.map (·.id) ∧
      db'.handoffs.map (·.id) = db.handoffs.map (·.id) := by
  obtain ⟨r, -, -, index, hindex, rfl⟩ := moveSession_ok hok
  refine ⟨?_, ?_, map_update fun _ => rfl⟩
  · obtain ⟨rfl, -⟩ | ⟨-, rows, -, rfl⟩ | ⟨-, rfl⟩ := moveSessionPages_cases hindex
    · exact map_update fun _ => rfl
    · exact map_update fun _ => rfl
    · exact Eq.trans (map_update fun _ => rfl) (map_update fun _ => rfl)
  · change index.store.observations.map _ = _
    rw [(moveSessionPages_ingestKeys hindex).2]
    exact map_update fun _ => rfl

lemma moveSession_heads (hheads : (latestPlaces db.store.pages).Nodup)
    (hok : db.moveSession sid ws proj mode true now = .ok (summary, db')) :
    (latestPlaces db'.store.pages).Nodup := by
  obtain ⟨r, -, -, index, hindex, rfl⟩ := moveSession_ok hok
  obtain ⟨rfl, -⟩ | ⟨-, rows, hrows, rfl⟩ | ⟨-, rfl⟩ := moveSessionPages_cases hindex
  · exact hheads
  · exact (movePages_ok hrows).2.2.2
  · -- what is retired leaves the index, and no place changes
    refine hheads.sublist ?_
    change ((update _ _ db.store.pages).filter (·.isLatest)).map _ |>.Sublist _
    induction db.store.pages with
    | nil => exact List.Sublist.slnil
    | cons p pages ih =>
      rw [update, map_cons, filter_cons, latestPlaces, filter_cons]
      by_cases hlive : (handles r ws proj p && p.isLatest)
      · have hp : p.isLatest := (Bool.and_eq_true _ _ ▸ hlive).2
        rw [if_pos hlive, if_neg Bool.false_ne_true, if_pos hp, map_cons]
        exact ih.cons _
      · rw [if_neg hlive]
        cases hp : p.isLatest with
        | false => exact ih
        | true => exact ih.cons_cons _

lemma one_latest (hheads : (latestPlaces db.store.pages).Nodup) (path : String) :
    db.store.pages.countP (fun p => atPath ws proj path p && p.isLatest) ≤ 1 := by
  have hkeys : KeyUnique PageRow.place (db.store.pages.filter (·.isLatest)) := hheads
  rw [← countP_filter]
  exact hkeys.countP_le_one fun p _ hp => atPath_iff.mp hp

/-- The session is where it is to go, or no version of its page lies outside the
scope it leaves and the target. -/
def Settled (pages : List PageRow) (r : SessionRow) (ws : WorkspaceId) (proj : ProjectId) : Prop :=
  (r.workspaceId = ws ∧ r.projectId = proj) ∨
    ∀ p ∈ pages, p.path = sessionPagePath r.id →
      (p.workspaceId = r.workspaceId ∧ p.projectId = r.projectId) ∨
        (p.workspaceId = ws ∧ p.projectId = proj)

lemma handles_home_iff (hws : r'.workspaceId = ws) (hproj : r'.projectId = proj)
    {p : PageRow} : handles r' ws proj p ↔
      p.path = sessionPagePath r'.id ∧ ¬ (p.workspaceId = ws ∧ p.projectId = proj) := by
  rw [handles, if_pos ⟨hws, hproj⟩, Bool.and_eq_true, decide_eq_true_eq, Bool.not_eq_true',
    Bool.and_eq_false_iff, decide_eq_false_iff_not, decide_eq_false_iff_not, not_and_or]

lemma Settled.handles {pages : List PageRow} (h : Settled pages r ws proj)
    (hid : r'.id = r.id) (hws : r'.workspaceId = ws) (hproj : r'.projectId = proj) {p : PageRow}
    (hp : p ∈ pages) (hhandled : Database.handles r' ws proj p) :
    Database.handles r ws proj p := by
  obtain ⟨hpath, haway⟩ := (handles_home_iff hws hproj).mp hhandled
  rw [hid] at hpath
  rcases h with hhome | hthird
  · exact (handles_home_iff hhome.1 hhome.2).mpr ⟨hpath, haway⟩
  · rcases hthird p hp hpath with hsource | htarget
    · have hleft : ¬ (r.workspaceId = ws ∧ r.projectId = proj) := fun hhome =>
        haway ⟨hsource.1.trans hhome.1, hsource.2.trans hhome.2⟩
      simp [Database.handles, hpath, hleft, hsource]
    · exact absurd htarget haway

lemma moveSession_row (hok : db.moveSession sid ws proj mode true now = .ok (summary, db')) :
    ∃ r', db'.store.findSession sid = some r' ∧ r'.id = sid ∧ r'.workspaceId = ws ∧
      r'.projectId = proj := by
  obtain ⟨r, hfind, -, -, -, -⟩ := moveSession_ok hok
  obtain ⟨hr, hid⟩ := findSession_some hfind
  have hmem : sid ∈ db'.store.sessions.map (·.id) := by
    rw [(moveSession_ids hok).1, ← hid]
    exact mem_map_of_mem hr
  obtain ⟨x, hx, hxid⟩ := mem_map.mp hmem
  have hsome : (db'.store.findSession sid).isSome :=
    find?_isSome.mpr ⟨x, hx, decide_eq_true hxid⟩
  obtain ⟨r', hr'⟩ := Option.isSome_iff_exists.mp hsome
  obtain ⟨hmem', hid'⟩ := findSession_some hr'
  exact ⟨r', hr', hid', (moveSession_gathered hok).session r' hmem' hid'⟩

lemma moveSessionPages_again {d d' : Indexed} (h : Settled d.store.pages r ws proj)
    (hpages : moveSessionPages d r ws proj mode now = .ok d') (hid : r'.id = r.id)
    (hws : r'.workspaceId = ws) (hproj : r'.projectId = proj) (now' : ℤ) :
    moveSessionPages d' r' ws proj mode now' = .ok d' := by
  obtain ⟨rfl, hnone⟩ | ⟨rfl, rows, hrows, rfl⟩ | ⟨rfl, rfl⟩ := moveSessionPages_cases hpages
  · have hany : d'.store.pages.any (handles r' ws proj) = false := by
      rw [any_eq_false]
      intro p hp hhandled
      have hbefore := h.handles hid hws hproj hp hhandled
      rw [hnone p hp] at hbefore
      cases hbefore
    unfold moveSessionPages
    rw [hany]
    rfl
  · have hany : rows.any (handles r' ws proj) = false := by
      rw [any_eq_false]
      intro p' hp' hhandled
      rw [(movePages_ok hrows).1] at hp'
      obtain ⟨p, hp, rfl⟩ := mem_update.mp hp'
      split at hhandled
      · exact ((handles_home_iff hws hproj).mp hhandled).2 ⟨rfl, rfl⟩
      · rename_i hnot
        exact hnot (h.handles hid hws hproj hp hhandled)
    unfold moveSessionPages
    change (if !rows.any (handles r' ws proj) then _ else _) = _
    rw [hany]
    rfl
  · -- versions keep their path and scope, so that those handled now were handled before
    have hhandled : ∀ p' ∈ (regeneratePages d r ws proj now).store.pages,
        handles r' ws proj p' = true → p'.isLatest = false ∧
          ∃ p ∈ d.store.pages, handles r ws proj p = true ∧ p.id = p'.id := by
      intro p' hp' hhandled
      obtain ⟨p, hp, rfl⟩ := mem_update.mp hp'
      have hsame : handles r' ws proj (if (handles r ws proj p && p.isLatest) = true then
          { p with
            isLatest := false
            validTo := some now } else p) = handles r' ws proj p := by
        split <;> rfl
      rw [hsame] at hhandled
      have hbefore := h.handles hid hws hproj hp hhandled
      by_cases hlive : (handles r ws proj p && p.isLatest)
      · rw [if_pos hlive]
        exact ⟨rfl, p, hp, hbefore, rfl⟩
      · rw [if_neg hlive]
        rw [hbefore, Bool.true_and, Bool.not_eq_true] at hlive
        exact ⟨hlive, p, hp, hbefore, rfl⟩
    have hlive : ∀ p' ∈ (regeneratePages d r ws proj now).store.pages,
        (handles r' ws proj p' && p'.isLatest) = false := by
      intro p' hp'
      cases hcase : handles r' ws proj p' with
      | false => rfl
      | true => rw [(hhandled p' hp' hcase).1, Bool.and_false]
    have hlinks : ∀ l ∈ (regeneratePages d r ws proj now).entityLinks, (l.supersededAt.isNone &&
        (regeneratePages d r ws proj now).store.pages.any fun p =>
          handles r' ws proj p && p.isLatest && decide (p.id = l.pageId)) = false := by
      intro l _
      rw [Bool.and_eq_false_iff, any_eq_false]
      refine .inr fun p' hp' hmatch => ?_
      rw [hlive p' hp', Bool.false_and] at hmatch
      cases hmatch
    have hpointer : ∀ x ∈ (regeneratePages d r ws proj now).store.sessions, (decide (x.id = r'.id) &&
        x.summaryPageId.any fun id => (regeneratePages d r ws proj now).store.pages.any fun p =>
          handles r' ws proj p && decide (p.id = id)) = false := by
      intro x hx
      rw [Bool.eq_false_iff]
      intro hmatch
      rw [Bool.and_eq_true, decide_eq_true_eq, Option.any_eq_true] at hmatch
      obtain ⟨hxid, id, hsummary, hany⟩ := hmatch
      obtain ⟨p', hp', hboth⟩ := any_eq_true.mp hany
      rw [Bool.and_eq_true, decide_eq_true_eq] at hboth
      obtain ⟨-, p, hp, hbefore, hpid⟩ := hhandled p' hp' hboth.1
      -- the first call cleared a pointer to this version
      obtain ⟨y, hy, rfl⟩ := mem_update.mp hx
      split at hsummary
      · cases hsummary
      · rename_i hkept
        rw [if_neg hkept] at hxid
        refine hkept ?_
        rw [Bool.and_eq_true, decide_eq_true_eq, hsummary, Option.any_some, any_eq_true]
        exact ⟨hxid.trans hid, p, hp, by simp [hbefore, hpid.trans hboth.2]⟩
    have hagain : regeneratePages (regeneratePages d r ws proj now) r' ws proj now' =
        regeneratePages d r ws proj now := by
      conv_lhs => rw [regeneratePages]
      simp only
      rw [update_eq_self hlinks, update_eq_self hlive, update_eq_self hpointer]
    unfold moveSessionPages
    split
    · rfl
    · rw [hagain]

lemma moveSession_again (hok : db.moveSession sid ws proj mode true now = .ok (summary, db'))
    (hsettled : ∀ r, db.store.findSession sid = some r → Settled db.store.pages r ws proj)
    (now' : ℤ) :
    ∃ summary', db'.moveSession sid ws proj mode true now' = .ok (summary', db') := by
  obtain ⟨r, hfind, hthere, index, hindex, hdb⟩ := moveSession_ok hok
  obtain ⟨r', hfind', hid', hws', hproj'⟩ := moveSession_row hok
  have hrows : moveSessionRows db' r' ws proj = db' :=
    Gathered.moveSessionRows (hid'.symm ▸ moveSession_gathered hok)
  have hthere' : db'.present ws proj := by
    rw [hdb]
    exact hthere
  have hpages : moveSessionPages db'.index r' ws proj mode now' = .ok db'.index := by
    have hbefore : Settled (moveSessionRows db r ws proj).index.store.pages r ws proj :=
      hsettled r hfind
    have hagain := moveSessionPages_again hbefore hindex
      (hid'.trans (findSession_some hfind).2.symm) hws' hproj' now'
    rw [hdb]
    exact hagain
  obtain ⟨summary', hmove⟩ := moveSession_of_pages true hfind' hthere' (hrows.symm ▸ hpages)
  refine ⟨summary', ?_⟩
  rw [hmove, if_pos rfl, hrows]

lemma moveSession_clock
    (hok : db.moveSession sid ws proj mode true now = .ok (summary, db')) (now' : ℤ) :
    ∃ out, db.moveSession sid ws proj mode true now' = .ok out := by
  obtain ⟨r, hfind, hthere, index, hindex, -⟩ := moveSession_ok hok
  have hpages : ∃ index', moveSessionPages (moveSessionRows db r ws proj).index r ws proj mode now' =
      .ok index' := by
    cases mode with
    | move => exact ⟨index, hindex⟩
    | regenerate =>
      unfold moveSessionPages
      split
      · exact ⟨_, rfl⟩
      · exact ⟨_, rfl⟩
  obtain ⟨index', hindex'⟩ := hpages
  obtain ⟨summary', hmove⟩ := moveSession_of_pages true hfind hthere hindex'
  exact ⟨_, hmove⟩

end Database

namespace Holdings

open Store Projects Database

variable {h h' : Holdings} {sid : SessionId} {ws : WorkspaceId} {proj : ProjectId}
  {mode : PagesMode} {author : Option UserId} {commit : Bool} {now at' : ℤ}

/-! ### The law of the moves -/

def moveProjectStep (h : Holdings) (proj : ProjectId) (source target : WorkspaceId) : Holdings :=
  h.committed (h.moveProjectWorkspace proj source target)

def moveSessionStep (h : Holdings) (sid : SessionId) (ws : WorkspaceId) (proj : ProjectId)
    (mode : PagesMode) (author : Option UserId) (commit : Bool) (now at' : ℤ) : Holdings :=
  h.committed ((h.moveSession sid ws proj mode author commit now at').map (·.2))

def moveAudit (ws : WorkspaceId) (proj : ProjectId) (author : Option UserId) (at' : ℤ) : AuditRow :=
  ⟨at', "move_session", some ws, some proj, none, author⟩

lemma moveSession_ok {report : MoveReport}
    (hok : h.moveSession sid ws proj mode author commit now at' = .ok (report, h')) :
    ∃ summary core, h.core.moveSession sid ws proj mode true now = .ok (summary, core) ∧
      h' = if commit then
        { core := core
          side := SideTables.moveSession h.side sid ws proj
          auditLog := h.auditLog ++ [moveAudit ws proj author at'] }
      else h := by
  obtain ⟨⟨summary, core⟩, hcore, hok⟩ := bind_ok.mp hok
  rw [pure_ok, Prod.mk.injEq] at hok
  exact ⟨summary, core, hcore, hok.2.symm⟩

lemma moveSession_of_core (h : Holdings) (author : Option UserId) (at' : ℤ)
    {out : MoveSessionSummary × Database}
    (hcore : h.core.moveSession sid ws proj mode true now = .ok out) :
    ∃ report, h.moveSession sid ws proj mode author true now at' = .ok (report,
      { core := out.2
        side := SideTables.moveSession h.side sid ws proj
        auditLog := h.auditLog ++ [moveAudit ws proj author at'] }) := by
  unfold moveSession
  rw [hcore]
  exact ⟨_, rfl⟩

lemma gathered_home {α : Type} {mine : α → Bool} {rows : List (Stamped α)} {r : Stamped α}
    (hr : r ∈ gathered mine ws proj rows) (hmine : mine r.row) :
    r.workspaceId = ws ∧ r.projectId = proj := by
  have hhome : ∀ x : Stamped α, ((fun x : Stamped α => decide (x.workspaceId = ws)
      && decide (x.projectId = proj)) { x with
        workspaceId := ws
        projectId := proj }) = true := fun x => by simp
  simpa using mem_update_gathered hhome hr hmine

lemma gathered_again {α : Type} {mine : α → Bool} (rows : List (Stamped α)) :
    gathered mine ws proj (gathered mine ws proj rows) = gathered mine ws proj rows := by
  refine update_eq_self fun r hr => ?_
  cases hmine : mine r.row with
  | false => rfl
  | true => simp [gathered_home hr hmine]

lemma moveSideTables_again (t : SideTables) :
    SideTables.moveSession (SideTables.moveSession t sid ws proj) sid ws proj =
      SideTables.moveSession t sid ws proj := by
  have hcandidates : moveCandidates sid ws proj (moveCandidates sid ws proj t.profileCandidates) =
      moveCandidates sid ws proj t.profileCandidates := by
    have hnone : ∀ c ∈ moveCandidates sid ws proj t.profileCandidates,
        straysFrom sid ws proj c = false := fun c hc => (mem_delete.mp hc).2
    conv_lhs => rw [moveCandidates, updateOrIgnore_of_none hnone, nil_append]
    exact delete_eq_self hnone
  unfold SideTables.moveSession
  simp only
  rw [gathered_again, gathered_again, hcandidates]

/-- The session went to the scope with all its rows, and none was lost. -/
structure SessionMoved (h h' : Holdings) (sid : SessionId) (ws : WorkspaceId) (proj : ProjectId) :
    Prop where
  rows : Gathered h'.core sid ws proj
  runs : ∀ r ∈ h'.side.autoImproveRuns, r.row.sessionId = some sid →
    r.workspaceId = ws ∧ r.projectId = proj
  claims : ∀ c ∈ h'.side.schedulerClaims, c.row.sessionId = sid →
    c.workspaceId = ws ∧ c.projectId = proj
  sessionThere : sid ∈ h'.core.store.sessions.map (·.id)
  observationsKept : h'.core.store.observations.map (·.id) = h.core.store.observations.map (·.id)
  handoffsKept : h'.core.handoffs.map (·.id) = h.core.handoffs.map (·.id)
  onePage : h'.core.store.pages.countP
    (fun p => atPath ws proj (sessionPagePath sid) p && p.isLatest) ≤ 1

def SameButLog (h h' : Holdings) : Prop := h'.core = h.core ∧ h'.side = h.side

lemma moveSession_moved (hheads : (latestPlaces h.core.store.pages).Nodup) {report : MoveReport}
    (hok : h.moveSession sid ws proj mode author true now at' = .ok (report, h')) :
    SessionMoved h h' sid ws proj := by
  obtain ⟨summary, core, hcore, hh'⟩ := moveSession_ok hok
  rw [if_pos rfl] at hh'
  subst hh'
  obtain ⟨r, hfind, -⟩ := Database.moveSession_ok hcore
  obtain ⟨hr, hid⟩ := findSession_some hfind
  obtain ⟨hsessions, hobs, hhandoffs⟩ := moveSession_ids hcore
  refine ⟨moveSession_gathered hcore, ?_, ?_, ?_, hobs, hhandoffs,
    one_latest (moveSession_heads hheads hcore) _⟩
  · intro r hr hsid
    have hr' : r ∈ gathered (fun x => x.sessionId = some sid) ws proj h.side.autoImproveRuns := hr
    exact gathered_home hr' (decide_eq_true hsid)
  · intro c hc hsid
    have hc' : c ∈ gathered (fun x => x.sessionId = sid) ws proj h.side.schedulerClaims := hc
    exact gathered_home hc' (decide_eq_true hsid)
  · change sid ∈ core.store.sessions.map (·.id)
    rw [hsessions, ← hid]
    exact mem_map_of_mem hr

lemma moveSessionStep_again {report : MoveReport}
    (hok : h.moveSession sid ws proj mode author true now at' = .ok (report, h'))
    (hsettled : ∀ r, h.core.store.findSession sid = some r → Settled h.core.store.pages r ws proj)
    (now' at'' : ℤ) :
    SameButLog h' (h'.moveSessionStep sid ws proj mode author true now' at'') := by
  obtain ⟨summary, core, hcore, rfl⟩ := moveSession_ok hok
  obtain ⟨summary', hagain⟩ := moveSession_again hcore hsettled now'
  obtain ⟨report', hmove⟩ := moveSession_of_core
    { core := core
      side := SideTables.moveSession h.side sid ws proj
      auditLog := h.auditLog ++ [moveAudit ws proj author at'] } author at'' hagain
  rw [if_pos rfl, moveSessionStep, hmove]
  exact ⟨rfl, moveSideTables_again h.side⟩

lemma moveSessionStep_settles {report : MoveReport}
    (hok : h.moveSession sid ws proj mode author true now at' = .ok (report, h'))
    (now₂ at₂ now₃ at₃ : ℤ) :
    SameButLog (h'.moveSessionStep sid ws proj mode author true now₂ at₂)
      ((h'.moveSessionStep sid ws proj mode author true now₂ at₂).moveSessionStep sid ws proj mode
        author true now₃ at₃) := by
  obtain ⟨summary, core, hcore, hh'⟩ := moveSession_ok hok
  rw [if_pos rfl] at hh'
  obtain ⟨r', hfind', -, hws', hproj'⟩ := moveSession_row hcore
  have hcore' : h'.core = core := by rw [hh']
  cases hsecond : h'.moveSession sid ws proj mode author true now₂ at₂ with
  | ok out =>
    obtain ⟨report₂, h₂⟩ := out
    have hstep : h'.moveSessionStep sid ws proj mode author true now₂ at₂ = h₂ := by
      rw [moveSessionStep, hsecond]
      rfl
    rw [hstep]
    -- the session is where it is to go since the first call
    refine moveSessionStep_again hsecond (fun r hfind => .inl ?_) now₃ at₃
    rw [hcore', hfind', Option.some.injEq] at hfind
    exact hfind ▸ ⟨hws', hproj'⟩
  | error e =>
    have hstep : h'.moveSessionStep sid ws proj mode author true now₂ at₂ = h' := by
      rw [moveSessionStep, hsecond]
      rfl
    rw [hstep]
    cases hthird : h'.moveSession sid ws proj mode author true now₃ at₃ with
    | error e' =>
      rw [moveSessionStep, hthird]
      exact ⟨rfl, rfl⟩
    | ok out =>
      -- a call that succeeds at one time does so at any
      obtain ⟨report₃, h₃⟩ := out
      obtain ⟨summary₃, core₃, hcore₃, -⟩ := moveSession_ok hthird
      obtain ⟨out, hout⟩ := moveSession_clock hcore₃ now₂
      obtain ⟨report', hmove⟩ := moveSession_of_core h' author at₂ hout
      rw [hsecond] at hmove
      cases hmove

/-- The law of both moves, in every state that keeps the unique index on latest
versions. -/
theorem scope_moves_complete (h : Holdings) (hheads : (latestPlaces h.core.store.pages).Nodup) :
    (∀ proj source target h', h.moveProjectWorkspace proj source target = .ok h' →
      (∀ table, h'.census table = (h.census table).map (movedScope table proj source target)) ∧
      ((∀ table, ∀ scope ∈ h'.census table, scope.2 = proj → scope.1 = target) ↔
        ∀ table, ∀ scope ∈ h.census table, scope.2 = proj →
          reached table proj source scope = true ∨ scope.1 = target)) ∧
    (∀ sid ws proj mode author now at' report h',
      h.moveSession sid ws proj mode author true now at' = .ok (report, h') →
      SessionMoved h h' sid ws proj ∧
      ∀ now₂ at₂ now₃ at₃,
        let h₂ := h'.moveSessionStep sid ws proj mode author true now₂ at₂
        ((∀ r, h.core.store.findSession sid = some r → Settled h.core.store.pages r ws proj) →
          SameButLog h' h₂) ∧
        SameButLog h₂ (h₂.moveSessionStep sid ws proj mode author true now₃ at₃)) ∧
    (∀ proj source target e, h.moveProjectWorkspace proj source target = .error e →
      h.moveProjectStep proj source target = h) ∧
    ∀ sid ws proj mode author commit now at',
      (∀ e, h.moveSession sid ws proj mode author commit now at' = .error e →
        h.moveSessionStep sid ws proj mode author commit now at' = h) ∧
      (commit = false → h.moveSessionStep sid ws proj mode author commit now at' = h) := by
  refine ⟨fun proj source target h' hok => ⟨census_moved hok, complete_iff hok⟩, ?_, ?_, ?_⟩
  · intro sid ws proj mode author now at' report h' hok
    refine ⟨moveSession_moved hheads hok, fun now₂ at₂ now₃ at₃ => ⟨fun hsettled => ?_, ?_⟩⟩
    · exact moveSessionStep_again hok hsettled now₂ at₂
    · exact moveSessionStep_settles hok now₂ at₂ now₃ at₃
  · intro proj source target e herror
    rw [moveProjectStep, herror]
    rfl
  · intro sid ws proj mode author commit now at'
    refine ⟨fun e herror => ?_, fun hcommit => ?_⟩
    · rw [moveSessionStep, herror]
      rfl
    · subst hcommit
      cases hres : h.moveSession sid ws proj mode author false now at' with
      | error e =>
        rw [moveSessionStep, hres]
        rfl
      | ok out =>
        obtain ⟨report, h'⟩ := out
        obtain ⟨summary, core, -, hh'⟩ := moveSession_ok hres
        rw [moveSessionStep, hres, hh']
        rfl

def scatteredSession : List DbOp :=
  [.registry (.getOrCreateWorkspace "default" 0),
    .registry (.getOrCreateWorkspace "team" 4),
    .registry (.getOrCreateProjectAs 0 "one" none .open 1),
    .registry (.getOrCreateProjectAs 0 "two" none .open 2),
    .registry (.getOrCreateProjectAs 0 "three" none .open 3),
    .admitEvent (sampleSession 7 1) (sampleObservation 7 1 .userPrompt) .any (some "k") none 1 0,
    .pages noNames (.upsert (plainPage 1 "sessions/7.md" "one") 11 0 0 0 fun _ => 0),
    .pages noNames (.upsert (plainPage 3 "sessions/7.md" "three") 13 0 0 0 fun _ => 0)]

/-- The rows that a purge of project 1 under a workspace it is not in leaves: it
deletes nothing, but writes a tombstone and logs it. -/
def stalePurge : Holdings where
  core := exec (dbStep sampleEnv) Database.empty scatteredSession
  side :=
    { autoImproveRuns := []
      autoImproveProposals := []
      autoImproveRejections := []
      schedulerState := []
      schedulerClaims := []
      pageFeedback := []
      profileCandidates := []
      profileEntryLedger := []
      profileHarvestMarks := []
      queryPageSignals := []
      purgedScopes := [⟨9, 1, ⟨0⟩⟩] }
  auditLog := [⟨0, "purge_project", some 9, some 1, none, none⟩]

/-- Session 7 goes to project 2, and its observation with it. -/
theorem scope_moves_complete_scattered :
    ∃ report h', stalePurge.moveSession 7 0 2 .regenerate none true 5 6 = .ok (report, h') ∧
      SessionMoved stalePurge h' 7 0 2 := by
  have hlaw := (scope_moves_complete stalePurge (by decide +kernel)).2.1 7 0 2 .regenerate none 5 6
  cases hok : stalePurge.moveSession 7 0 2 .regenerate none true 5 6 with
  | error e =>
    have hdone : (stalePurge.moveSession 7 0 2 .regenerate none true 5 6).isOk = true := by
      decide +kernel
    rw [hok] at hdone
    cases hdone
  | ok out => exact ⟨out.1, out.2, rfl, (hlaw out.1 out.2 hok).1⟩

/-- A move of project 1 to workspace 4 leaves the tombstone and the log row where
they are; and of two equal session moves the second retires the page in
project 3. -/
theorem moves_leave_rows :
    (stalePurge.moveProjectWorkspace 1 0 4).isOk = true ∧
      (9, 1) ∈ (stalePurge.moveProjectStep 1 0 4).census .purgedScopes ∧
      (9, 1) ∈ (stalePurge.moveProjectStep 1 0 4).census .auditLog ∧
      (stalePurge.moveSession 7 0 2 .regenerate none true 5 6).isOk = true ∧
      ((stalePurge.moveSessionStep 7 0 2 .regenerate none true 5 6).moveSessionStep 7 0 2 .regenerate
          none true 5 6).core.store.pages ≠
        (stalePurge.moveSessionStep 7 0 2 .regenerate none true 5 6).core.store.pages := by
  decide +kernel

end Holdings
