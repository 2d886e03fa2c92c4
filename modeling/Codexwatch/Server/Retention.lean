import Codexwatch.Lib.Run
import Codexwatch.Server.Content

/-!
# Retention of full content

Full content is kept for the conversations of `content_conversations`, at most
thirty of each client. A request for content evicts what is over the limit.

Uploads do not evict, and they do not look at the conversation either: a manifest
that arrives after its conversation was evicted is stored all the same.
`retention_run_iff` therefore asks of a run that every accepted manifest still finds
its conversation, and then all rows of content belong to retained conversations.

## Main definitions

* `ContentTables.Retention` — the limit, and whose rows are there.
* `Event`, `step` — one request to the server.
* `retention_run_iff` — which runs retain what they should.
-/
namespace Codexwatch.Server

open Protocol Relational Check

namespace ContentTables

variable {t t' : ContentTables} {clientId sessionId threadId : String}

/-! ## Eviction -/

/-- The oldest conversation is a row of the client, and none of its rows is older. -/
theorem selectOldestConversation_eq_some
    (h : t.selectOldestConversation clientId = some (sessionId, threadId)) :
    ∃ time, t.contentConversations.get? (clientId, sessionId, threadId) = some time ∧
      ∀ key v, t.contentConversations.get? key = some v → key.1 = clientId →
        age ((clientId, sessionId, threadId), time) ≤ age (key, v) := by
  obtain ⟨⟨⟨client, session, thread⟩, time⟩, hmin, hr⟩ := Option.map_eq_some_iff.mp h
  obtain ⟨rfl, rfl⟩ := Prod.mk.inj hr
  have hmem := List.argmin_mem hmin
  rw [List.mem_filter] at hmem
  obtain rfl : client = clientId := by simpa using hmem.2
  refine ⟨time, Table.get?_eq_some.mpr hmem.1, ?_⟩
  intro key v hv hclient
  apply List.le_of_mem_argmin (f := age) _ hmin
  rw [List.mem_filter]
  exact ⟨Table.get?_eq_some.mp hv, by simpa using hclient⟩

theorem selectOldestConversation_eq_none (h : t.selectOldestConversation clientId = none) :
    t.conversationCount clientId = 0 := by
  rw [selectOldestConversation, Option.map_eq_none_iff, List.argmin_eq_none] at h
  rw [conversationCount, Table.countWhere, List.countP_eq_length_filter, h, List.length_nil]

theorem get?_evictConversation (key : ConversationKey) :
    (t.evictConversation clientId sessionId threadId).contentConversations.get? key =
      if key = (clientId, sessionId, threadId) then none else t.contentConversations.get? key := by
  simp only [evictConversation, Table.get?_deleteWhere]
  by_cases h : key = (clientId, sessionId, threadId)
  · simp [h]
  · cases t.contentConversations.get? key <;> simp [h]

theorem conversationCount_evictConversation_le (client : String) :
    (t.evictConversation clientId sessionId threadId).conversationCount client ≤
      t.conversationCount client := by
  simp only [conversationCount, evictConversation, Table.countWhere_deleteWhere]
  apply Table.countWhere_mono
  intro k v _ hk
  simp only [Bool.and_eq_true] at hk
  exact hk.1

/-- Evicting a row of the client leaves one row less. -/
theorem conversationCount_evictConversation
    (h : (t.contentConversations.get? (clientId, sessionId, threadId)).isSome) :
    (t.evictConversation clientId sessionId threadId).conversationCount clientId + 1 =
      t.conversationCount clientId := by
  simp only [conversationCount, evictConversation, Table.countWhere_deleteWhere]
  rw [Table.countWhere_eq_add t.contentConversations (fun k => decide (k.1 = clientId))
    (clientId, sessionId, threadId), h]
  simp

/-- What every eviction preserves, the loop preserves. -/
theorem evictLoop_preserves {P : ContentTables → Prop}
    (hevict : ∀ t s th, P t → P (t.evictConversation clientId s th)) (fuel : ℕ) (h : P t) :
    P (evictLoop clientId fuel t) := by
  induction fuel generalizing t with
  | zero => exact h
  | succ fuel ih =>
      rw [evictLoop]
      split
      · exact h
      · split
        · exact h
        · exact ih (hevict t _ _ h)

/-- The loop of the source: the rounds never run out. -/
theorem evictOldConversations_eq :
    t.evictOldConversations clientId =
      if t.conversationCount clientId ≤ CONTENT_CONVERSATION_LIMIT then t
      else
        match t.selectOldestConversation clientId with
        | none => t
        | some (sessionId, threadId) =>
            (t.evictConversation clientId sessionId threadId).evictOldConversations clientId := by
  rw [evictOldConversations]
  cases hcount : t.conversationCount clientId with
  | zero => simp [evictLoop]
  | succ n =>
      rw [evictLoop, hcount]
      split
      · rfl
      · cases hselect : t.selectOldestConversation clientId with
        | none => rfl
        | some r =>
            obtain ⟨sessionId, threadId⟩ := r
            obtain ⟨time, hget, -⟩ := selectOldestConversation_eq_some hselect
            have hless := conversationCount_evictConversation (t := t)
              (Option.isSome_of_eq_some hget)
            have hn : (t.evictConversation clientId sessionId threadId).conversationCount
                clientId = n := by omega
            simp only [evictOldConversations, hn]

/-- After the loop the client is within the limit. -/
theorem conversationCount_evictOldConversations :
    (t.evictOldConversations clientId).conversationCount clientId ≤
      CONTENT_CONVERSATION_LIMIT := by
  induction hn : t.conversationCount clientId generalizing t with
  | zero =>
      rw [evictOldConversations_eq, if_pos (by omega), hn]
      exact Nat.zero_le _
  | succ n ih =>
      rw [evictOldConversations_eq]
      split
      · assumption
      · cases hselect : t.selectOldestConversation clientId with
        | none =>
            rw [selectOldestConversation_eq_none hselect]
            exact Nat.zero_le _
        | some r =>
            obtain ⟨sessionId, threadId⟩ := r
            obtain ⟨time, hget, -⟩ := selectOldestConversation_eq_some hselect
            have hless := conversationCount_evictConversation (t := t)
              (Option.isSome_of_eq_some hget)
            exact ih (by omega)

/-- One conversation over the limit: the oldest goes, and nothing else. -/
theorem evictOldConversations_of_one_over
    (hcount : t.conversationCount clientId = CONTENT_CONVERSATION_LIMIT + 1)
    (hselect : t.selectOldestConversation clientId = some (sessionId, threadId)) :
    t.evictOldConversations clientId = t.evictConversation clientId sessionId threadId := by
  obtain ⟨time, hget, -⟩ := selectOldestConversation_eq_some hselect
  have hless := conversationCount_evictConversation (t := t) (Option.isSome_of_eq_some hget)
  rw [evictOldConversations_eq, if_neg (by omega), hselect]
  simp only
  rw [evictOldConversations_eq, if_pos (by omega)]

/-! ## The invariant -/

/-- The conversation that a request names. -/
def conversationOf (t : ContentTables) (requestId : Uuid) : Option ConversationKey :=
  (t.contentRequests.get? requestId).map fun row => (row.clientId, row.sessionId, row.threadId)

/-- The conversation of the request is one of those kept. -/
def retained (t : ContentTables) (requestId : Uuid) : Bool :=
  (t.conversationOf requestId).any fun key => (t.contentConversations.get? key).isSome

theorem retained_iff {requestId : Uuid} : t.retained requestId ↔ ∃ key,
    t.conversationOf requestId = some key ∧ (t.contentConversations.get? key).isSome := by
  simp [retained, Option.any_eq_true]

/-- Every row of content belongs to a request of a retained conversation. -/
structure RowsRetained (t : ContentTables) : Prop where
  manifests : ∀ r ∈ t.contentManifests.rows, t.retained r.1.1
  chunks : ∀ r ∈ t.contentChunks.rows, t.retained r.1.1
  links : ∀ r ∈ t.contentLinks.rows, t.retained r.1.1

/-- What is kept of full content. -/
structure Retention (t : ContentTables) : Prop where
  limit : ∀ clientId, t.conversationCount clientId ≤ CONTENT_CONVERSATION_LIMIT
  rows : t.RowsRetained

/-- A command belongs to the client of its request. -/
def CommandsOwned (t : ContentTables) : Prop :=
  ∀ commandId command, t.commands.get? commandId = some command →
    ∃ row, t.contentRequests.get? command.requestId = some row ∧ row.clientId = command.clientId

/-- The request of a command names the conversation of its row. -/
theorem CommandsOwned.conversationOf (h : t.CommandsOwned) {commandId : Uuid}
    {request : ContentRequest} (hload : t.loadCommandRequest commandId clientId = some request) :
    t.conversationOf request.requestId =
      some (request.clientId, request.sessionId, request.threadId) := by
  simp only [loadCommandRequest, Option.bind_eq_bind, Option.bind_eq_some_iff, Option.guard_eq_some',
    Option.pure_def, Option.some.injEq] at hload
  obtain ⟨command, hcommand, _, hclient, row, hrow, rfl⟩ := hload
  obtain ⟨row', hrow', howner⟩ := h commandId command hcommand
  obtain rfl : row = row' := Option.some.inj (hrow.symm.trans hrow')
  simp [ContentTables.conversationOf, requestOf, hrow, howner, hclient]

/-! ## What each statement keeps -/

/-- Rows of content survive when the retained requests do. -/
theorem RowsRetained.mono (h : t.RowsRetained)
    (hretained : ∀ requestId, t.retained requestId → t'.retained requestId)
    (hmanifests : ∀ r ∈ t'.contentManifests.rows, r ∈ t.contentManifests.rows ∨ t'.retained r.1.1)
    (hchunks : ∀ r ∈ t'.contentChunks.rows, r ∈ t.contentChunks.rows ∨ t'.retained r.1.1)
    (hlinks : ∀ r ∈ t'.contentLinks.rows, r ∈ t.contentLinks.rows ∨ t'.retained r.1.1) :
    t'.RowsRetained where
  manifests r hr := (hmanifests r hr).elim (fun h' => hretained _ (h.manifests r h')) id
  chunks r hr := (hchunks r hr).elim (fun h' => hretained _ (h.chunks r h')) id
  links r hr := (hlinks r hr).elim (fun h' => hretained _ (h.links r h')) id

theorem RowsRetained.evictConversation (h : t.RowsRetained) :
    (t.evictConversation clientId sessionId threadId).RowsRetained := by
  -- a request that stays retained is one whose rows the eviction does not delete
  have hkept : ∀ requestId, t.retained requestId →
      requestId ∉ (t.contentRequests.rows.filter fun r => r.2.clientId = clientId ∧
        r.2.sessionId = sessionId ∧ r.2.threadId = threadId).map Prod.fst →
      (t.evictConversation clientId sessionId threadId).retained requestId := by
    intro requestId hretained hnot
    obtain ⟨key, hkey, hsome⟩ := retained_iff.mp hretained
    refine retained_iff.mpr ⟨key, hkey, ?_⟩
    rw [get?_evictConversation, if_neg, hsome]
    intro hvictim
    obtain ⟨row, hrow, hrowKey⟩ := Option.map_eq_some_iff.mp hkey
    apply hnot
    rw [List.mem_map]
    refine ⟨(requestId, row), ?_, rfl⟩
    rw [List.mem_filter]
    refine ⟨Table.get?_eq_some.mp hrow, ?_⟩
    rw [hvictim] at hrowKey
    simpa using hrowKey
  constructor
  · intro r hr
    obtain ⟨hmem, hnot⟩ := Table.mem_rows_deleteWhere.mp hr
    exact hkept _ (h.manifests r hmem) (of_decide_eq_false hnot)
  · intro r hr
    obtain ⟨hmem, hnot⟩ := Table.mem_rows_deleteWhere.mp hr
    exact hkept _ (h.chunks r hmem) (of_decide_eq_false hnot)
  · intro r hr
    obtain ⟨hmem, hnot⟩ := Table.mem_rows_deleteWhere.mp hr
    exact hkept _ (h.links r hmem) (of_decide_eq_false hnot)

theorem retained_touchConversation {now : TimestampMs} {requestId : Uuid}
    (h : t.retained requestId) :
    (t.touchConversation clientId sessionId threadId now).retained requestId := by
  obtain ⟨key, hkey, hsome⟩ := retained_iff.mp h
  refine retained_iff.mpr ⟨key, hkey, ?_⟩
  simp only [touchConversation, Table.get?_put]
  split
  · rfl
  · exact hsome

theorem RowsRetained.touchConversation (h : t.RowsRetained) (clientId sessionId threadId : String)
    (now : TimestampMs) : (t.touchConversation clientId sessionId threadId now).RowsRetained :=
  h.mono (fun _ => retained_touchConversation) (fun _ => .inl) (fun _ => .inl) (fun _ => .inl)

/-- Touching counts the conversation once. -/
theorem conversationCount_touchConversation (now : TimestampMs) (client : String) :
    (t.touchConversation clientId sessionId threadId now).conversationCount client =
      t.contentConversations.countWhere
        (fun k _ => decide (k.1 = client) && !decide (k = (clientId, sessionId, threadId))) +
        (decide (clientId = client)).toNat :=
  Table.countWhere_put t.contentConversations (fun k => decide (k.1 = client))
    (clientId, sessionId, threadId) now

/-- Touching a retained conversation counts nothing anew. -/
theorem conversationCount_touchConversation_of_isSome (now : TimestampMs) (client : String)
    (h : (t.contentConversations.get? (clientId, sessionId, threadId)).isSome) :
    (t.touchConversation clientId sessionId threadId now).conversationCount client =
      t.conversationCount client := by
  rw [conversationCount_touchConversation, conversationCount,
    Table.countWhere_eq_add t.contentConversations (fun k => decide (k.1 = client))
      (clientId, sessionId, threadId), h]
  simp

/-- A change of the status columns leaves the conversation of a request. -/
theorem retained_modify (requestId : Uuid) {f : ContentRequestRow → ContentRequestRow}
    (hf : ∀ row, ((f row).clientId, (f row).sessionId, (f row).threadId) =
      (row.clientId, row.sessionId, row.threadId)) (r : Uuid) :
    retained { t with contentRequests := t.contentRequests.modify requestId f } r =
      t.retained r := by
  rw [retained, retained, conversationOf, conversationOf, Table.get?_modify]
  split
  · rw [Option.map_map]
    congr 2
    funext row
    exact hf row
  · rfl

theorem retained_complete (requestId : Uuid) (status : RequestStatus) (now : TimestampMs)
    (r : Uuid) : (t.completeRequestAndCommand requestId status now).retained r = t.retained r :=
  retained_modify requestId (by intro row; rfl) r

/-- Completing a request touches neither content nor conversations. -/
theorem RowsRetained.complete (h : t.RowsRetained) (requestId : Uuid) (status : RequestStatus)
    (now : TimestampMs) : (t.completeRequestAndCommand requestId status now).RowsRetained := by
  refine h.mono ?_ (fun _ => .inl) (fun _ => .inl) (fun _ => .inl)
  intro r hr
  rw [retained_complete, hr]

theorem CommandsOwned.modify (h : t.CommandsOwned) (requestId : Uuid)
    (f : ContentRequestRow → ContentRequestRow) (hf : ∀ row, (f row).clientId = row.clientId) :
    CommandsOwned { t with contentRequests := t.contentRequests.modify requestId f } := by
  intro commandId command hcommand
  obtain ⟨row, hrow, howner⟩ := h commandId command hcommand
  simp only [Table.get?_modify, hrow]
  split
  · exact ⟨f row, rfl, (hf row).trans howner⟩
  · exact ⟨row, rfl, howner⟩

theorem CommandsOwned.complete (h : t.CommandsOwned) (requestId : Uuid) (status : RequestStatus)
    (now : TimestampMs) : (t.completeRequestAndCommand requestId status now).CommandsOwned := by
  have hmodified := h.modify requestId (fun row =>
    { row with status, outcome := some status, completedAtMs := some now }) (fun _ => rfl)
  intro commandId command hcommand
  simp only [completeRequestAndCommand, Table.get?_updateWhere, Option.map_eq_some_iff] at hcommand
  obtain ⟨old, hold, rfl⟩ := hcommand
  obtain ⟨row, hrow, howner⟩ := hmodified commandId old hold
  refine ⟨row, ?_, ?_⟩
  · split <;> exact hrow
  · split <;> exact howner

/-! ## The invariant of the service -/

/-- What every request leaves true. -/
structure Sound (t : ContentTables) : Prop where
  retention : t.Retention
  owned : t.CommandsOwned

theorem sound_empty : ContentTables.empty.Sound where
  retention := ⟨fun _ => Nat.zero_le _, by simp [ContentTables.empty, Table.empty],
    by simp [ContentTables.empty, Table.empty], by simp [ContentTables.empty, Table.empty]⟩
  owned _ _ h := by cases h

theorem Sound.complete (h : t.Sound) (requestId : Uuid) (status : RequestStatus)
    (now : TimestampMs) : (t.completeRequestAndCommand requestId status now).Sound where
  retention := ⟨h.retention.limit, h.retention.rows.complete requestId status now⟩
  owned := h.owned.complete requestId status now

variable {request : ContentRequest} {now : TimestampMs}

theorem Sound.insertManifest (h : t.Sound) {manifest : ContentObjectManifest}
    (hretained : t.retained manifest.requestId) :
    (t.insertManifest manifest clientId now).Sound where
  retention := by
    refine ⟨h.retention.limit, h.retention.rows.mono (fun _ => id) ?_ (fun _ => .inl) (fun _ => .inl)⟩
    intro r hr
    rw [Table.mem_rows_iff, get?_insertManifest] at hr
    by_cases hkey : r.1 = manifestKey manifest
    · right
      rw [hkey]
      exact hretained
    · rw [if_neg hkey] at hr
      exact .inl (Table.mem_rows_iff.mpr hr)
  owned := h.owned

theorem Sound.insertManifests (h : t.Sound) {manifests : List ContentObjectManifest}
    (hretained : ∀ m ∈ manifests, t.retained m.requestId) :
    (t.insertManifests manifests clientId now).Sound := by
  induction manifests generalizing t with
  | nil => exact h
  | cons m manifests ih =>
      rw [List.forall_mem_cons] at hretained
      exact ih (h.insertManifest hretained.1) hretained.2

theorem Sound.upsertChunkRow (h : t.Sound) {chunk : ContentUploadChunk} {duplicate : Bool}
    (hretained : t.retained chunk.requestId)
    (hupsert : t.upsertChunkRow chunk now = .ok (duplicate, t')) : t'.Sound := by
  obtain ⟨row, -, -, -, -, heq⟩ | ⟨-, -, heq⟩ := upsertChunkRow_eq_ok.mp hupsert
  · obtain ⟨-, rfl⟩ := Prod.mk.inj heq
    exact h
  · obtain ⟨-, rfl⟩ := Prod.mk.inj heq
    refine ⟨⟨h.retention.limit, ?_⟩, h.owned⟩
    refine h.retention.rows.mono (fun _ => id) (fun _ => .inl) ?_ (fun _ => .inl)
    intro r hr
    rw [insertChunk, Table.mem_rows_put] at hr
    obtain rfl | ⟨hr, -⟩ := hr
    · exact .inr hretained
    · exact .inl hr

/-- Storing an object of a retained conversation links and touches it only. -/
theorem Sound.storeObject (h : t.Sound) {manifest : ContentObjectManifest}
    {assembled uncompressed : Bytes}
    (hconversation : t.conversationOf request.requestId =
      some (request.clientId, request.sessionId, request.threadId))
    (hretained : t.retained request.requestId) :
    (t.storeObject request manifest assembled uncompressed now).Sound := by
  have hsome : (t.contentConversations.get?
      (request.clientId, request.sessionId, request.threadId)).isSome := by
    obtain ⟨key, hkey, hsome⟩ := retained_iff.mp hretained
    obtain rfl := Option.some.inj (hconversation.symm.trans hkey)
    exact hsome
  have hlinked : (t.upsertContentObject request manifest assembled uncompressed now).Sound := by
    refine ⟨⟨h.retention.limit, ?_⟩, h.owned⟩
    refine h.retention.rows.mono (fun _ => id) (fun _ => .inl) (fun _ => .inl) ?_
    intro r hr
    obtain rfl | ⟨hr, -⟩ := Table.mem_rows_put.mp hr
    · exact .inr hretained
    · exact .inl hr
  have htouched : ((t.upsertContentObject request manifest assembled uncompressed
      now).touchConversation request.clientId request.sessionId request.threadId now).Sound := by
    refine ⟨⟨fun client => ?_, hlinked.retention.rows.touchConversation _ _ _ now⟩, hlinked.owned⟩
    have hcount := conversationCount_touchConversation_of_isSome
      (t := t.upsertContentObject request manifest assembled uncompressed now) now client hsome
    rw [hcount]
    exact hlinked.retention.limit client
  rw [ContentTables.storeObject]
  split
  · exact htouched.complete request.requestId .stored now
  · refine ⟨⟨htouched.retention.limit, ?_⟩, htouched.owned.modify _ _ (by intro row; rfl)⟩
    refine htouched.retention.rows.mono ?_ (fun _ => .inl) (fun _ => .inl) (fun _ => .inl)
    intro r hr
    exact (retained_modify request.requestId (by intro row; rfl) r).trans hr

/-! ## A new request -/

theorem Sound.withContentRequest (h : t.Sound) {command : ContentRequestCommand}
    (hrequest : t.contentRequests.get? command.request.requestId = none) :
    (Server.withContentRequest command t).Sound := by
  constructor
  · refine ⟨h.retention.limit, ?_⟩
    refine h.retention.rows.mono ?_ (fun _ => .inl) (fun _ => .inl) (fun _ => .inl)
    intro r hr
    obtain ⟨key, hkey, hsome⟩ := retained_iff.mp hr
    obtain ⟨row, hrow, -⟩ := Option.map_eq_some_iff.mp hkey
    have hne : r ≠ command.request.requestId := by
      intro heq
      rw [heq, hrequest] at hrow
      cases hrow
    refine retained_iff.mpr ⟨key, ?_, hsome⟩
    simp only [conversationOf, Server.withContentRequest, Table.get?_put_of_ne hne]
    exact hkey
  · intro commandId row hrow
    simp only [Server.withContentRequest, Table.get?_put] at hrow ⊢
    by_cases hid : commandId = command.commandId
    · rw [if_pos hid, Option.some.injEq] at hrow
      subst hrow
      exact ⟨contentRequestRowOf command.request, by simp [commandRowOf], rfl⟩
    · rw [if_neg hid] at hrow
      obtain ⟨request, hget, howner⟩ := h.owned commandId row hrow
      refine ⟨request, ?_, howner⟩
      rw [if_neg, hget]
      intro heq
      rw [heq, hrequest] at hget
      cases hget

theorem Sound.withConversation (h : t.Sound) (request : ContentRequest) :
    (Server.withConversation request t).Sound := by
  have htouched := h.retention.rows.touchConversation request.clientId request.sessionId
    request.threadId request.createdAtMs
  refine ⟨⟨fun client => ?_, ?_⟩, ?_⟩
  · by_cases hclient : request.clientId = client
    · rw [← hclient]
      exact conversationCount_evictOldConversations
    · -- another client's count is not touched, and eviction never raises it
      apply evictLoop_preserves (P := fun t => t.conversationCount client ≤ CONTENT_CONVERSATION_LIMIT)
      · intro t s th ht
        exact (conversationCount_evictConversation_le client).trans ht
      · rw [conversationCount_touchConversation]
        simp only [hclient, decide_false, Bool.toNat_false, Nat.add_zero]
        apply (Table.countWhere_mono _).trans (h.retention.limit client)
        intro k v _ hk
        simp only [Bool.and_eq_true] at hk
        exact hk.1
  · exact evictLoop_preserves (P := RowsRetained) (fun _ _ _ ht => ht.evictConversation) _ htouched
  · intro commandId command hcommand
    rw [withConversation_commands] at hcommand
    rw [withConversation_contentRequests]
    exact h.owned commandId command hcommand

def conversationKey (request : ContentRequest) : ConversationKey :=
  (request.clientId, request.sessionId, request.threadId)

/-- There is room for the conversation of the request, or an older one to evict. -/
def HasRoomFor (t : ContentTables) (request : ContentRequest) : Prop :=
  t.contentConversations.countWhere (fun k _ =>
      decide (k.1 = request.clientId) && !decide (k = conversationKey request)) <
    CONTENT_CONVERSATION_LIMIT ∨
  ∃ key time, t.contentConversations.get? key = some time ∧ key.1 = request.clientId ∧
    key ≠ conversationKey request ∧
    age (key, time) < age (conversationKey request, request.createdAtMs)

/-- The order of eviction tells the conversations of a client apart. -/
theorem eq_of_age_eq {key key' : ConversationKey} {time time' : TimestampMs}
    (hclient : key.1 = key'.1) (h : age (key, time) = age (key', time')) : key = key' := by
  obtain ⟨client, session, thread⟩ := key
  obtain ⟨client', session', thread'⟩ := key'
  obtain ⟨-, hrest⟩ := Prod.mk.inj (toLex.injective h)
  obtain ⟨rfl, rfl⟩ := Prod.mk.inj (toLex.injective hrest)
  obtain rfl : client = client' := hclient
  rfl

/-- The conversation of a new request is kept exactly when there was room for it. -/
theorem isSome_withConversation_iff
    (hlimit : t.conversationCount request.clientId ≤ CONTENT_CONVERSATION_LIMIT) :
    ((Server.withConversation request t).contentConversations.get?
      (conversationKey request)).isSome ↔ t.HasRoomFor request := by
  have hget : ∀ key, (t.touchConversation request.clientId request.sessionId request.threadId
      request.createdAtMs).contentConversations.get? key =
        if key = conversationKey request then some request.createdAtMs
        else t.contentConversations.get? key := fun key => Table.get?_put ..
  have hcount : (t.touchConversation request.clientId request.sessionId request.threadId
      request.createdAtMs).conversationCount request.clientId = _ :=
    conversationCount_touchConversation request.createdAtMs request.clientId
  have hothers : t.contentConversations.countWhere (fun k _ =>
      decide (k.1 = request.clientId) && !decide (k = conversationKey request)) ≤
        CONTENT_CONVERSATION_LIMIT := by
    apply (Table.countWhere_mono _).trans hlimit
    intro k v _ hk
    simp only [Bool.and_eq_true] at hk
    exact hk.1
  rw [Server.withConversation]
  generalize t.touchConversation request.clientId request.sessionId request.threadId
    request.createdAtMs = touched at hget hcount
  simp only [decide_true, Bool.toNat_true] at hcount
  change touched.conversationCount request.clientId = t.contentConversations.countWhere (fun k _ =>
    decide (k.1 = request.clientId) && !decide (k = conversationKey request)) + 1 at hcount
  by_cases hroom : t.contentConversations.countWhere (fun k _ =>
      decide (k.1 = request.clientId) && !decide (k = conversationKey request)) <
        CONTENT_CONVERSATION_LIMIT
  · rw [evictOldConversations_eq, if_pos (by omega), hget, if_pos rfl]
    simp [HasRoomFor, hroom]
  · -- thirty others: exactly the oldest goes
    have hover : touched.conversationCount request.clientId = CONTENT_CONVERSATION_LIMIT + 1 := by
      omega
    cases hselect : touched.selectOldestConversation request.clientId with
    | none =>
        have hzero := selectOldestConversation_eq_none hselect
        omega
    | some victim =>
        obtain ⟨session, thread⟩ := victim
        obtain ⟨time, htime, holdest⟩ := selectOldestConversation_eq_some hselect
        rw [evictOldConversations_of_one_over hover hselect, get?_evictConversation, hget]
        by_cases hvictim : conversationKey request = (request.clientId, session, thread)
        · rw [if_pos hvictim]
          simp only [Option.isSome_none, Bool.false_eq_true, HasRoomFor, hroom, false_or, false_iff]
          rintro ⟨key, time', hkey, hclient, hne, hlt⟩
          have hle := holdest key time' (by rw [hget, if_neg hne, hkey]) hclient
          rw [← hvictim, hget, if_pos rfl, Option.some.injEq] at htime
          rw [← hvictim, ← htime] at hle
          exact absurd hlt (not_lt_of_ge hle)
        · rw [if_neg hvictim, if_pos rfl]
          simp only [Option.isSome_some, true_iff]
          right
          have hne : (request.clientId, session, thread) ≠ conversationKey request :=
            fun h => hvictim h.symm
          refine ⟨_, time, by rw [← htime, hget, if_neg hne], rfl, hne, ?_⟩
          apply lt_of_le_of_ne
          · exact holdest _ _ (by rw [hget, if_pos rfl]) rfl
          · exact fun h => hne (eq_of_age_eq rfl h)

end ContentTables

/-! ## Runs -/

/-- A request to the server. -/
inductive Event
  | ingest (principal : Principal) (body : Bytes) (now : TimestampMs)
  | createContentRequest (principal : Principal) (taskRef : String) (parts : List ContentPart)
      (expiresAtMs : Option TimestampMs) (requestId commandId : Uuid) (now : TimestampMs)
  | uploadManifests (principal : Principal) (commandId : Uuid)
      (manifests : List ContentObjectManifest) (now : TimestampMs)
  | uploadChunk (principal : Principal) (commandId : Uuid) (chunk : ContentUploadChunk)
      (now : TimestampMs)
  | uploadResult (principal : Principal) (commandId : Uuid) (result : ContentUploadResult)
      (now : TimestampMs)

/-- A transaction commits, or leaves the database as it was. -/
def commit (db : Database) (r : Except StatusCode ContentTables) : Database :=
  match r with
  | .ok content => { db with content }
  | .error _ => db

def step (codec : Codec) (db : Database) : Event → Database
  | .ingest principal body now => (Server.ingest codec principal body now db).2
  | .createContentRequest principal taskRef parts expiresAtMs requestId commandId now =>
      commit db (Server.createContentRequest db.tasks principal taskRef parts expiresAtMs requestId
        commandId now db.content)
  | .uploadManifests principal commandId manifests now =>
      commit db (Server.uploadManifests principal commandId manifests now db.content)
  | .uploadChunk principal commandId chunk now =>
      commit db ((Server.uploadChunk codec principal commandId chunk now db.content).map Prod.snd)
  | .uploadResult principal commandId result now =>
      commit db (Server.uploadResult principal commandId result now db.content)

/-- No manifest is accepted for an evicted conversation, and every request that is accepted
finds room for its conversation or an older one to evict. -/
def Timely (db : Database) : Event → Prop
  | .createContentRequest principal taskRef parts expiresAtMs requestId commandId now =>
      ∀ row, AcceptsContentRequest db.tasks principal taskRef parts expiresAtMs requestId commandId
        now db.content row →
        db.content.HasRoomFor (contentRequestFor row taskRef parts expiresAtMs requestId now)
  | .uploadManifests principal commandId manifests now =>
      ∀ request, db.content.AcceptsManifests principal commandId manifests now request →
        db.content.retained request.requestId
  | _ => True

/-- The conversation that an accepted content request names is retained after it. -/
def NamedRetained (db : Database) : Event → Prop
  | .createContentRequest principal taskRef parts expiresAtMs requestId commandId now =>
      ∀ content, Server.createContentRequest db.tasks principal taskRef parts expiresAtMs requestId
        commandId now db.content = .ok content → content.retained requestId
  | _ => True

open ContentTables

theorem ingest_content (codec : Codec) (principal : Principal) (body : Bytes) (now : TimestampMs)
    (db : Database) : (ingest codec principal body now db).2.content = db.content := by
  obtain ⟨d, -, -, heq⟩ | ⟨d, receipt, -, -, heq⟩ | ⟨status, heq⟩ :=
    ingest_cases codec principal body now db
  · rw [heq]
    have h := foldl_persistTaskUpload d.batch.client.clientId Database.content
      (fun t _ => t) (fun _ _ => rfl) d.batch.tasks (persistClient db d.batch)
    rw [List.foldl_fixed] at h
    exact h
  · rw [heq]
  · rw [heq]

theorem sound_commit {db : Database} {r : Except StatusCode ContentTables} (h : db.content.Sound)
    (hr : ∀ t, r = .ok t → t.Sound) : (commit db r).content.Sound := by
  cases r with
  | error status => exact h
  | ok t => exact hr t rfl

theorem sound_step (codec : Codec) {db : Database} {event : Event} (h : db.content.Sound)
    (htimely : Timely db event) : (step codec db event).content.Sound := by
  cases event with
  | ingest principal body now =>
      rw [step, ingest_content]
      exact h
  | createContentRequest principal taskRef parts expiresAtMs requestId commandId now =>
      apply sound_commit h
      intro t ht
      obtain ⟨row, haccepts, rfl⟩ := createContentRequest_eq_ok.mp ht
      apply (h.withConversation _).withContentRequest
      rw [withConversation_contentRequests]
      exact haccepts.requestId
  | uploadManifests principal commandId manifests now =>
      apply sound_commit h
      intro t ht
      obtain ⟨request, haccepts, rfl⟩ | ⟨request, -, -, -, -, rfl⟩ := uploadManifests_eq_ok.mp ht
      · apply h.insertManifests
        intro m hm
        rw [(haccepts.valid m hm).2.requestId]
        exact htimely request haccepts
      · exact h.complete ..
  | uploadChunk principal commandId chunk now =>
      apply sound_commit h
      intro t ht
      obtain ⟨r, hr, rfl⟩ := map_eq_ok.mp ht
      obtain ⟨request, manifest, haccepts, duplicate, t₁, hupsert, hfinish⟩ |
        ⟨request, -, -, -, -, -, rfl⟩ := uploadChunk_eq_ok.mp hr
      · -- the manifest is there, so the conversation of the request is retained
        obtain ⟨row, hrow, -⟩ := Option.map_eq_some_iff.mp haccepts.stored
        have hretained := h.retention.rows.manifests _ (Table.get?_eq_some.mp hrow)
        have hsound : t₁.Sound := h.upsertChunkRow (haccepts.requestId ▸ hretained) hupsert
        obtain ⟨-, rfl⟩ | ⟨-, assembled, uncompressed, -, -, -, -, -, rfl⟩ :=
          finishObject_eq_ok.mp hfinish
        · exact hsound
        · have hconversation := h.owned.conversationOf haccepts.command
          obtain ⟨_, -, -, -, -, heq⟩ | ⟨-, -, heq⟩ := upsertChunkRow_eq_ok.mp hupsert
          · obtain ⟨-, rfl⟩ := Prod.mk.inj heq
            exact hsound.storeObject hconversation hretained
          · obtain ⟨-, rfl⟩ := Prod.mk.inj heq
            exact hsound.storeObject hconversation hretained
      · exact h.complete ..
  | uploadResult principal commandId result now =>
      apply sound_commit h
      intro t ht
      obtain ⟨-, request, -, -, rfl⟩ := uploadResult_eq_ok.mp ht
      exact h.complete ..

/-- The server retains what it should after the event. -/
def Retains (codec : Codec) (db : Database) (event : Event) : Prop :=
  (step codec db event).content.Retention ∧ NamedRetained db event

/-- An accepted content request retains its conversation exactly when there was room for it. -/
theorem retained_createContentRequest_iff {t : ContentTables} {row : TaskRow} {taskRef : String}
    {parts : List ContentPart} {expiresAtMs : Option TimestampMs} {requestId commandId : Uuid}
    {now : TimestampMs} (h : t.Sound) :
    (withContentRequest ⟨commandId, contentRequestFor row taskRef parts expiresAtMs requestId now⟩
      (withConversation (contentRequestFor row taskRef parts expiresAtMs requestId now)
        t)).retained requestId ↔
      t.HasRoomFor (contentRequestFor row taskRef parts expiresAtMs requestId now) := by
  rw [← isSome_withConversation_iff (h.retention.limit _)]
  simp [retained, conversationOf, withContentRequest, contentRequestFor, contentRequestRowOf,
    conversationKey]

/-- Manifests of an evicted conversation leave rows that no retained conversation has. -/
theorem retained_of_retention_insertManifests {t : ContentTables} {principal : Principal}
    {commandId : Uuid} {manifests : List ContentObjectManifest} {now : TimestampMs}
    {request : ContentRequest}
    (haccepts : t.AcceptsManifests principal commandId manifests now request)
    (h : (t.insertManifests manifests request.clientId now).Retention) :
    t.retained request.requestId := by
  obtain ⟨m, hm⟩ := List.exists_mem_of_ne_nil _ haccepts.nonempty
  have hsome := isSome_insertManifests request.clientId now (t := t)
    (.inr (List.mem_map_of_mem (f := manifestKey) hm))
  obtain ⟨row, hrow⟩ := Option.isSome_iff_exists.mp hsome
  have hretained := h.rows.manifests _ (Table.get?_eq_some.mp hrow)
  obtain ⟨hrequests, hconversations⟩ := insertManifests_frame (t := t)
    request.clientId now manifests
  rw [retained, conversationOf, hrequests, hconversations] at hretained
  rw [← (haccepts.valid m hm).2.requestId]
  exact hretained

/-- In a sound state an event is timely exactly when the server retains what it should. -/
theorem timely_iff (codec : Codec) {db : Database} {event : Event} (h : db.content.Sound) :
    Timely db event ↔ Retains codec db event := by
  constructor
  · intro htimely
    refine ⟨(sound_step codec h htimely).retention, ?_⟩
    cases event with
    | createContentRequest principal taskRef parts expiresAtMs requestId commandId now =>
        intro content hcontent
        obtain ⟨row, haccepts, rfl⟩ := createContentRequest_eq_ok.mp hcontent
        exact (retained_createContentRequest_iff h).mpr (htimely row haccepts)
    | _ => trivial
  · intro ⟨hretention, hnamed⟩
    cases event with
    | createContentRequest principal taskRef parts expiresAtMs requestId commandId now =>
        intro row haccepts
        rw [← retained_createContentRequest_iff h]
        exact hnamed _ (createContentRequest_eq_ok.mpr ⟨row, haccepts, rfl⟩)
    | uploadManifests principal commandId manifests now =>
        intro request haccepts
        apply retained_of_retention_insertManifests haccepts
        have hok := uploadManifests_eq_ok.mpr (.inl ⟨request, haccepts, rfl⟩)
        rw [step, hok] at hretention
        exact hretention
    | _ => trivial

/-- A run retains in every state what it should, and finds the conversation of every accepted
content request retained, exactly when all its requests are timely. The ingest tables may
start anyhow. -/
theorem retention_run_iff (codec : Codec) (db : Database) (events : List Event) :
    Run.Each (step codec) Timely { db with content := .empty } events ↔
      Run.Each (step codec) (Retains codec) { db with content := .empty } events :=
  Run.each_iff_of_invariant (I := fun db => db.content.Sound) (fun _ _ => sound_step codec)
    (fun _ _ => timely_iff codec) sound_empty

/-! ## A late manifest -/

/-- One task in each of `n` conversations of client `a`. -/
def sampleConversations (n : ℕ) : IngestBatch :=
  { sampleBatch "a" "u" 0 1 with
    tasks := (List.range n).map fun i =>
      ⟨{ sampleSnapshot "u" 1 with
          taskRef := s!"s{i}:t:u"
          identity := ⟨"codex", s!"s{i}", "t", "u"⟩ }, [], [], [], []⟩ }

/-- A manifest for the request of the first conversation. -/
def sampleManifest : ContentObjectManifest where
  requestId := .v7 0
  taskRef := "s0:t:u"
  sessionId := "s0"
  threadId := "t"
  part := .response
  objectSha256 := Text.hexEncode (List.replicate 32 7)
  mediaType := "text/plain"
  uncompressedBytes := 1
  compressedBytes := 1
  chunkCount := 1
  createdAtMs := 5

/-- The tasks are ingested, content is requested of each, and the manifest for the first
request comes last. -/
def sampleEvents (n : ℕ) : List Event :=
  .ingest ⟨"a", .client⟩ [0] 10 ::
    (List.range n).map (fun i => .createContentRequest ⟨"root", .admin⟩ s!"s{i}:t:u" [.response]
      none (.v7 i) (.v7 i) (20 + i)) ++
    [.uploadManifests ⟨"a", .client⟩ (.v7 0) [sampleManifest] 60]

/-- The first of thirty-one conversations is evicted, and its manifest is stored. -/
theorem not_retention_late_manifest :
    ¬ (Run.run (step (.numbered [sampleConversations 31])) .empty
      (sampleEvents 31)).content.Retention := by
  intro h
  have hlate : ((Run.run (step (.numbered [sampleConversations 31])) .empty
      (sampleEvents 31)).content.contentManifests.rows.all fun r =>
        (Run.run (step (.numbered [sampleConversations 31])) .empty
          (sampleEvents 31)).content.retained r.1.1) = false := by decide +kernel
  rw [List.all_eq_false] at hlate
  obtain ⟨r, hr, hnot⟩ := hlate
  exact hnot (h.rows.manifests r hr)

end Codexwatch.Server
