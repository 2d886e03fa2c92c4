import Codexwatch.Server.Isolation
import Codexwatch.Server.Queries

/-!
# Paging through the task list

A page of the task list names a cursor when it is full, and a query can carry one, but
`list_tasks_inner` does not read it: the next page is the same page again. Following
the cursors lists every task when all of them fit on a page with room to spare, and
does not end otherwise (`pagesThrough_iff`).

## Main definitions

* `Follows db principal query pages` — the pages of a caller that follows the cursors.
* `Listing db principal query rows` — the rows to be listed, in their order.
* `PagesThrough` — following the cursors ends, having listed them.
-/
namespace Codexwatch.Server

open Protocol Relational Check

/-- The pages that a caller receives who follows `next_cursor` until there is none. -/
inductive Follows (db : Database) (principal : Principal) :
    TaskListQuery → List TaskListResponse → Prop
  | last {query : TaskListQuery} {page : TaskListResponse}
    (hpage : listTasksInner db principal query = .ok page) (hlast : page.nextCursor = none) :
    Follows db principal query [page]
  | next {query : TaskListQuery} {page : TaskListResponse} {pages : List TaskListResponse}
    {cursor : String} (hpage : listTasksInner db principal query = .ok page)
    (hcursor : page.nextCursor = some cursor)
    (hrest : Follows db principal { query with cursor := some cursor } pages) :
    Follows db principal query (page :: pages)

def Principal.Sees (principal : Principal) (row : TaskRow) : Prop :=
  principal.role.isAdmin ∨ row.clientId = principal.clientId

instance (principal : Principal) (row : TaskRow) : Decidable (principal.Sees row) :=
  inferInstanceAs (Decidable (_ ∨ _))

/-- The tasks that match the filters and that the principal may see. -/
def matchingTasks (db : Database) (principal : Principal) (query : TaskListQuery) :
    List (String × TaskRow) :=
  db.tasks.rows.filter fun r => query.Matches r.2 ∧ principal.Sees r.2

/-- Each matching task once, by `updated_at_ms` and then `task_ref`, descending. -/
structure Listing (db : Database) (principal : Principal) (query : TaskListQuery)
    (rows : List (String × TaskRow)) : Prop where
  perm : rows.Perm (matchingTasks db principal query)
  sorted : rows.Pairwise fun a b => toLex (b.2.updatedAtMs, b.1) < toLex (a.2.updatedAtMs, a.1)

/-- From the first page on, following the cursors ends, and the pages list every
matching task once and in order. -/
def PagesThrough (db : Database) (principal : Principal) (query : TaskListQuery) : Prop :=
  ∃ pages rows, Follows db principal { query with cursor := none } pages ∧
    Listing db principal query rows ∧
    pages.flatMap TaskListResponse.tasks = rows.map fun r => r.2.snapshotJson

/-- The handler does not refuse the principal and the filter for a client. -/
def TaskListQuery.Permitted (query : TaskListQuery) (principal : Principal) : Prop :=
  principal.role.canQuery ∧
    (principal.role.isAdmin ∨ ∀ clientId ∈ query.clientId, clientId = principal.clientId)

instance (query : TaskListQuery) (principal : Principal) : Decidable (query.Permitted principal) :=
  inferInstanceAs (Decidable (_ ∧ _))

/-! ## One page -/

section Page
variable {db : Database} {principal : Principal} {query : TaskListQuery}

/-- The page that the handler answers with. -/
def pageOf (db : Database) (principal : Principal) (query : TaskListQuery) : TaskListResponse :=
  let rows := (newestFirst (matchingTasks db principal query)).take query.pageSize
  { tasks := rows.map fun r => r.2.snapshotJson
    nextCursor := if rows.length = query.pageSize then rows.getLast?.map cursorOf else none }

/-- The forced filter selects what the principal sees of the rows that match. -/
theorem matches_boundTo {query' : TaskListQuery} (h : query.boundTo principal = .ok query')
    (row : TaskRow) : query'.Matches row ↔ query.Matches row ∧ principal.Sees row := by
  cases hadmin : principal.role.isAdmin with
  | true =>
    rw [TaskListQuery.boundTo, if_pos hadmin] at h
    obtain rfl := Except.ok.inj h
    simp [Principal.Sees, hadmin]
  | false =>
    by_cases hown : ∀ clientId ∈ query.clientId, clientId = principal.clientId
    · rw [TaskListQuery.boundTo_of_own hadmin hown] at h
      obtain rfl := Except.ok.inj h
      simp only [TaskListQuery.Matches, Principal.Sees, hadmin, Option.mem_def,
        Option.some.injEq, forall_eq', Bool.false_eq_true, false_or]
      constructor
      · rintro ⟨hclient, hrest⟩
        exact ⟨⟨fun v hv => hclient.trans (hown v hv).symm, hrest⟩, hclient⟩
      · rintro ⟨⟨-, hrest⟩, hclient⟩
        exact ⟨hclient, hrest⟩
    · rw [TaskListQuery.boundTo_of_not_own hadmin hown] at h
      cases h

theorem exists_boundTo_iff :
    (∃ query', query.boundTo principal = .ok query') ↔
      (principal.role.isAdmin ∨ ∀ clientId ∈ query.clientId, clientId = principal.clientId) := by
  cases hadmin : principal.role.isAdmin with
  | true => simp [TaskListQuery.boundTo, hadmin]
  | false =>
    by_cases hown : ∀ clientId ∈ query.clientId, clientId = principal.clientId
    · simpa [TaskListQuery.boundTo_of_own hadmin hown] using hown
    · simpa [TaskListQuery.boundTo_of_not_own hadmin hown] using hown

theorem pageSize_boundTo {query' : TaskListQuery} (h : query.boundTo principal = .ok query') :
    query'.pageSize = query.pageSize := by
  rw [TaskListQuery.boundTo] at h
  split at h
  · rw [← Except.ok.inj h]
  · simp only [bind_eq_ok, exists_unit_and, pure_eq_ok] at h
    rw [← h.2, TaskListQuery.pageSize, TaskListQuery.pageSize]

theorem listTasksInner_eq_ok {page : TaskListResponse} :
    listTasksInner db principal query = .ok page ↔
      query.Permitted principal ∧ pageOf db principal query = page := by
  simp only [listTasksInner, ensureQueryRole, bind_eq_ok, exists_unit_and, ensure_eq_ok,
    pure_eq_ok, TaskListQuery.Permitted, and_assoc, ← exists_boundTo_iff]
  refine and_congr_right fun _ => ?_
  rw [← exists_and_right]
  refine exists_congr fun query' => and_congr_right fun hbound => ?_
  have hrows : (db.tasks.rows.filter fun r => query'.Matches r.2) =
      matchingTasks db principal query :=
    List.filter_congr fun r _ => by simp only [matches_boundTo hbound r.2]
  simp only [hrows, pageSize_boundTo hbound, pageOf, List.length_map]

theorem length_page (db : Database) (principal : Principal) (query : TaskListQuery) :
    ((newestFirst (matchingTasks db principal query)).take query.pageSize).length =
      min query.pageSize (matchingTasks db principal query).length := by
  rw [List.length_take, newestFirst, List.length_insertionSort]

/-- The last page is the one that is not full. -/
theorem nextCursor_pageOf (hsize : 0 < query.pageSize) :
    (pageOf db principal query).nextCursor = none ↔
      (matchingTasks db principal query).length < query.pageSize := by
  have hlength := length_page db principal query
  by_cases hfull : query.pageSize ≤ (matchingTasks db principal query).length
  · rw [Nat.min_eq_left hfull] at hlength
    have hne : (newestFirst (matchingTasks db principal query)).take query.pageSize ≠ [] := by
      rintro hnil
      rw [hnil, List.length_nil] at hlength
      omega
    simp only [pageOf, hlength, if_true, Option.map_eq_none_iff, List.getLast?_eq_none_iff, hne,
      false_iff]
    omega
  · have hshort : ¬ min query.pageSize (matchingTasks db principal query).length =
        query.pageSize := by omega
    simp only [pageOf, hlength, if_neg hshort, true_iff]
    omega

/-- The next query answers with the same page, so there are no two pages. -/
theorem follows_iff (hsize : 0 < query.pageSize) {pages : List TaskListResponse} :
    Follows db principal query pages ↔
      query.Permitted principal ∧
        (matchingTasks db principal query).length < query.pageSize ∧
        pages = [pageOf db principal query] := by
  constructor
  · intro h
    induction h with
    | last hpage hlast =>
      rcases listTasksInner_eq_ok.mp hpage with ⟨hpermitted, rfl⟩
      exact ⟨hpermitted, (nextCursor_pageOf hsize).mp hlast, rfl⟩
    | next hpage hcursor _ ih =>
      rcases listTasksInner_eq_ok.mp hpage with ⟨-, rfl⟩
      rcases ih hsize with ⟨-, hshort, -⟩
      rw [(nextCursor_pageOf hsize).mpr hshort] at hcursor
      cases hcursor
  · rintro ⟨hpermitted, hshort, rfl⟩
    exact .last (listTasksInner_eq_ok.mpr ⟨hpermitted, rfl⟩) ((nextCursor_pageOf hsize).mpr hshort)

/-! ## The rows to be listed -/

instance : Std.Total Newer := ⟨fun _ _ => le_total _ _⟩
instance : IsTrans (String × TaskRow) Newer := ⟨fun _ _ _ hab hbc => le_trans hbc hab⟩

/-- The keys are unique, so no two rows are at the same place. -/
theorem listing_newestFirst (db : Database) (principal : Principal) (query : TaskListQuery) :
    Listing db principal query (newestFirst (matchingTasks db principal query)) where
  perm := List.perm_insertionSort _ _
  sorted := by
    have hkeys : ((newestFirst (matchingTasks db principal query)).map Prod.fst).Nodup := by
      rw [newestFirst, ((List.perm_insertionSort _ _).map Prod.fst).nodup_iff]
      exact db.tasks.nodup.sublist (List.filter_sublist.map Prod.fst)
    have hle := List.pairwise_insertionSort Newer (matchingTasks db principal query)
    refine (hle.and (List.pairwise_map.mp hkeys)).imp fun hab => lt_of_le_of_ne hab.1 fun heq => ?_
    exact hab.2 (Prod.mk.inj (toLex.injective heq)).2.symm

/-- Following the cursors works exactly when the request is not refused and the matching
tasks do not fill a page. -/
theorem pagesThrough_iff (hlimit : 1 ≤ query.limit.getD 100) :
    PagesThrough db principal query ↔
      query.Permitted principal ∧
        (matchingTasks db principal query).length < query.pageSize := by
  have hsize : 0 < ({ query with cursor := none } : TaskListQuery).pageSize := by
    simp only [TaskListQuery.pageSize]
    omega
  constructor
  · rintro ⟨pages, rows, hfollows, -, -⟩
    rcases (follows_iff hsize).mp hfollows with ⟨hpermitted, hshort, -⟩
    exact ⟨hpermitted, hshort⟩
  · rintro ⟨hpermitted, hshort⟩
    refine ⟨_, _, (follows_iff hsize).mpr ⟨hpermitted, hshort, rfl⟩,
      listing_newestFirst db principal query, ?_⟩
    rw [List.flatMap_singleton, pageOf, List.take_of_length_le]
    · rfl
    · rw [newestFirst, List.length_insertionSort]
      exact hshort.le

end Page

/-- Three tasks of client `a`, two of them as new. -/
def serverOfThree : Database :=
  applied (applied serverOfA (sampleBatch "a" "v" 2 1) "" 30)
    { sampleBatch "a" "w" 3 1 with
      tasks := [⟨{ sampleSnapshot "w" 1 with updatedAtMs := 15 }, [], [], [], []⟩] } "" 40

/-- With a page size of four the newest comes first, then the greater reference. -/
theorem pagesThrough_serverOfThree :
    PagesThrough serverOfThree ⟨"a", .reader⟩ { limit := some 4 } ∧
      listTasksInner serverOfThree ⟨"a", .reader⟩ { limit := some 4 } =
        .ok ⟨[{ sampleSnapshot "w" 1 with updatedAtMs := 15 }, sampleSnapshot "v" 1,
          sampleSnapshot "u" 1], none⟩ :=
  ⟨(pagesThrough_iff (by decide)).mpr (by decide +kernel), by decide +kernel⟩

/-- With one task and pages of one: every page is full and names the same cursor. -/
theorem not_pagesThrough_serverOfA :
    listTasksInner serverOfA ⟨"a", .reader⟩ { limit := some 1 } =
        .ok ⟨[sampleSnapshot "u" 1], some "10:s:t:u"⟩ ∧
      listTasksInner serverOfA ⟨"a", .reader⟩ { limit := some 1, cursor := some "10:s:t:u" } =
        .ok ⟨[sampleSnapshot "u" 1], some "10:s:t:u"⟩ ∧
      ¬ PagesThrough serverOfA ⟨"a", .reader⟩ { limit := some 1 } := by
  refine ⟨by decide +kernel, by decide +kernel, ?_⟩
  rintro ⟨pages, rows, hfollows, -⟩
  rcases (follows_iff (by decide)).mp hfollows with ⟨-, hshort, -⟩
  revert hshort
  decide +kernel

end Codexwatch.Server
