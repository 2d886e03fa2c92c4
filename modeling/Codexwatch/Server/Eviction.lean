import Codexwatch.Server.Integrity

/-!
# Exactness of the eviction

A round of `evict_old_conversations` deletes the oldest conversation of the client
and what belongs to its requests alone. The rounds together delete what is over the
limit in one step: the conversations that have thirty newer ones beside them, and what
belongs to their requests.

## Main definitions

* `ContentTables.Evicts` — the loop of the source, as far as it returns.
* `ContentTables.Without` — the tables without some conversations.
* `evictOldConversations_exact` — what the loop deletes.
-/
namespace Codexwatch.Server

open Protocol Relational

namespace ContentTables

variable {t t' t'' : ContentTables} {clientId sessionId threadId : String}
  {gone gone' : ConversationKey → Prop}

/-- A run of the loop that returns. -/
inductive Evicts (clientId : String) : ContentTables → ContentTables → Prop
  | within {t : ContentTables}
      (h : t.conversationCount clientId ≤ CONTENT_CONVERSATION_LIMIT) : Evicts clientId t t
  | noVictim {t : ContentTables} (h : ¬ t.conversationCount clientId ≤ CONTENT_CONVERSATION_LIMIT)
      (hselect : t.selectOldestConversation clientId = none) : Evicts clientId t t
  | round {t t' : ContentTables} {sessionId threadId : String}
      (h : ¬ t.conversationCount clientId ≤ CONTENT_CONVERSATION_LIMIT)
      (hselect : t.selectOldestConversation clientId = some (sessionId, threadId))
      (hrest : Evicts clientId (t.evictConversation clientId sessionId threadId) t') :
      Evicts clientId t t'

/-! ## The tables without some conversations -/

/-- The request belongs to one of the conversations. -/
def OfAny (t : ContentTables) (gone : ConversationKey → Prop) (requestId : Uuid) : Prop :=
  ∃ key, t.conversationOf requestId = some key ∧ gone key

/-- The object has links, and they all belong to requests of the conversations. -/
def Released (t : ContentTables) (gone : ConversationKey → Prop) (sha : String) : Prop :=
  (∃ r ∈ t.contentLinks.rows, r.1.2 = sha) ∧
    ∀ r ∈ t.contentLinks.rows, r.1.2 = sha → t.OfAny gone r.1.1

/-- `t'` is `t` without the conversations and what belonged to them alone. -/
structure Without (t : ContentTables) (gone : ConversationKey → Prop) (t' : ContentTables) :
    Prop where
  requests : t'.contentRequests = t.contentRequests
  commands : t'.commands = t.commands
  conversations : Table.Dropped gone t.contentConversations t'.contentConversations
  manifests : Table.Dropped (fun k => t.OfAny gone k.1) t.contentManifests t'.contentManifests
  chunks : Table.Dropped (fun k => t.OfAny gone k.1) t.contentChunks t'.contentChunks
  links : Table.Dropped (fun k => t.OfAny gone k.1) t.contentLinks t'.contentLinks
  objects : Table.Dropped (t.Released gone) t.contentObjects t'.contentObjects

theorem without_none (h : ∀ key, ¬ gone key) : t.Without gone t := by
  have hof : ∀ requestId, ¬ t.OfAny gone requestId := fun _ ⟨key, _, hkey⟩ => h key hkey
  refine ⟨rfl, rfl, Table.dropped_none h, ?_, ?_, ?_, ?_⟩
  · exact Table.dropped_none fun k => hof k.1
  · exact Table.dropped_none fun k => hof k.1
  · exact Table.dropped_none fun k => hof k.1
  · refine Table.dropped_none fun sha hsha => ?_
    obtain ⟨⟨r, hr, hrsha⟩, hall⟩ := hsha
    exact hof r.1.1 (hall r hr hrsha)

theorem ofAny_or (requestId : Uuid) :
    t.OfAny (fun key => gone key ∨ gone' key) requestId ↔
      t.OfAny gone requestId ∨ t.OfAny gone' requestId := by
  simp only [OfAny, and_or_left, exists_or]

/-- The conversation of a request does not depend on what is stored of it. -/
theorem Without.ofAny (h : t.Without gone t') (requestId : Uuid) :
    t'.OfAny gone' requestId ↔ t.OfAny gone' requestId := by
  simp only [OfAny, conversationOf, h.requests]

/-- An object that the first conversations do not release is released by the others when
these hold what links are left. -/
theorem Without.released_or (h : t.Without gone t') (sha : String) :
    t.Released (fun key => gone key ∨ gone' key) sha ↔
      t.Released gone sha ∨ t'.Released gone' sha := by
  constructor
  · intro ⟨⟨r, hr, hsha⟩, hall⟩
    by_cases hfirst : ∀ r ∈ t.contentLinks.rows, r.1.2 = sha → t.OfAny gone r.1.1
    · exact .inl ⟨⟨r, hr, hsha⟩, hfirst⟩
    · simp only [not_forall] at hfirst
      obtain ⟨kept, hkept, hkeptSha, hnot⟩ := hfirst
      refine .inr ⟨⟨kept, h.links.mem_rows.mpr ⟨hkept, hnot⟩, hkeptSha⟩, ?_⟩
      intro link hlink hlinkSha
      obtain ⟨hlink, hlinkNot⟩ := h.links.mem_rows.mp hlink
      rw [h.ofAny]
      exact ((ofAny_or link.1.1).mp (hall link hlink hlinkSha)).resolve_left hlinkNot
  · rintro (⟨hlinked, hall⟩ | ⟨⟨r, hr, hsha⟩, hall⟩)
    · exact ⟨hlinked, fun r hr hsha => (ofAny_or r.1.1).mpr (.inl (hall r hr hsha))⟩
    · refine ⟨⟨r, (h.links.mem_rows.mp hr).1, hsha⟩, fun link hlink hlinkSha => ?_⟩
      rw [ofAny_or]
      by_cases hfirst : t.OfAny gone link.1.1
      · exact .inl hfirst
      · rw [← @Without.ofAny t t' gone gone' h]
        exact .inr (hall link (h.links.mem_rows.mpr ⟨hlink, hfirst⟩) hlinkSha)

theorem Without.trans (h : t.Without gone t') (h' : t'.Without gone' t'') :
    t.Without (fun key => gone key ∨ gone' key) t'' := by
  have hof : ∀ requestId, t.OfAny (fun key => gone key ∨ gone' key) requestId ↔
      t.OfAny gone requestId ∨ t'.OfAny gone' requestId := by
    intro requestId
    rw [ofAny_or, h.ofAny]
  constructor
  · rw [h'.requests, h.requests]
  · rw [h'.commands, h.commands]
  · exact h.conversations.trans h'.conversations fun _ => Iff.rfl
  · exact h.manifests.trans h'.manifests fun k => hof k.1
  · exact h.chunks.trans h'.chunks fun k => hof k.1
  · exact h.links.trans h'.links fun k => hof k.1
  · exact h.objects.trans h'.objects h.released_or

/-- The rows of a client whose conversations all stay. -/
structure SameFor (t : ContentTables) (other : String) (t' : ContentTables) : Prop where
  conversations : ∀ key : ConversationKey, key.1 = other →
    t'.contentConversations.get? key = t.contentConversations.get? key
  manifests : ∀ k key, t.conversationOf k.1 = some key → key.1 = other →
    t'.contentManifests.get? k = t.contentManifests.get? k
  chunks : ∀ k key, t.conversationOf k.1 = some key → key.1 = other →
    t'.contentChunks.get? k = t.contentChunks.get? k
  links : ∀ k key, t.conversationOf k.1 = some key → key.1 = other →
    t'.contentLinks.get? k = t.contentLinks.get? k
  objects : ∀ r ∈ t.contentLinks.rows, ∀ key, t.conversationOf r.1.1 = some key →
    key.1 = other → t'.contentObjects.get? r.1.2 = t.contentObjects.get? r.1.2

theorem Without.sameFor {other : String} (h : t.Without gone t')
    (hgone : ∀ key, gone key → key.1 ≠ other) : t.SameFor other t' := by
  have hof : ∀ requestId key, t.conversationOf requestId = some key → key.1 = other →
      ¬ t.OfAny gone requestId := by
    rintro requestId key hkey hclient ⟨key', hkey', hgoneKey⟩
    obtain rfl := Option.some.inj (hkey.symm.trans hkey')
    exact hgone key hgoneKey hclient
  constructor
  · exact fun key hclient => h.conversations.get?_eq fun hkey => hgone key hkey hclient
  · exact fun k key hkey hclient => h.manifests.get?_eq (hof k.1 key hkey hclient)
  · exact fun k key hkey hclient => h.chunks.get?_eq (hof k.1 key hkey hclient)
  · exact fun k key hkey hclient => h.links.get?_eq (hof k.1 key hkey hclient)
  · intro r hr key hkey hclient
    exact h.objects.get?_eq fun hreleased => hof r.1.1 key hkey hclient (hreleased.2 r hr rfl)

/-! ## One round -/

theorem mem_requestsOf {requestId : Uuid} :
    requestId ∈ t.requestsOf clientId sessionId threadId ↔
      t.OfAny (· = (clientId, sessionId, threadId)) requestId := by
  simp only [requestsOf, OfAny, conversationOf, List.mem_map, List.mem_filter, Prod.exists,
    exists_and_right, exists_eq_right, ← Table.get?_eq_some, exists_eq_right,
    Option.map_eq_some_iff, decide_eq_true_eq, Prod.mk.injEq]

theorem without_evictConversation :
    t.Without (· = (clientId, sessionId, threadId))
      (t.evictConversation clientId sessionId threadId) := by
  have hof : ∀ requestId, decide (requestId ∈ t.requestsOf clientId sessionId threadId) = true ↔
      t.OfAny (· = (clientId, sessionId, threadId)) requestId := by
    intro requestId
    rw [decide_eq_true_iff, mem_requestsOf]
  refine ⟨rfl, rfl, ?_, ?_, ?_, ?_, ?_⟩
  · exact Table.dropped_deleteWhere fun key => decide_eq_true_iff
  · exact Table.dropped_deleteWhere fun k => hof k.1
  · exact Table.dropped_deleteWhere fun k => hof k.1
  · exact Table.dropped_deleteWhere fun k => hof k.1
  · intro sha object
    have hheld : t.HeldOnlyBy (t.requestsOf clientId sessionId threadId) sha ↔
        t.Released (· = (clientId, sessionId, threadId)) sha := by
      simp only [HeldOnlyBy, Released, mem_requestsOf]
      constructor
      · rintro ⟨⟨r, hr, _, hsha⟩, hall⟩
        exact ⟨⟨r, hr, hsha⟩, hall⟩
      · rintro ⟨⟨r, hr, hsha⟩, hall⟩
        exact ⟨⟨r, hr, hall r hr hsha, hsha⟩, hall⟩
    rw [contentObjects_evictConversation, ← hheld]
    split <;> rename_i h
    · simp [h]
    · simp [h]

/-! ## What is over the limit -/

/-- The conversations of the client that are newer than the row. -/
def newer (t : ContentTables) (clientId : String) (row : ConversationKey × TimestampMs) : ℕ :=
  t.contentConversations.countWhere fun k v => k.1 = clientId ∧ age row < age (k, v)

/-- The limit is used up by newer conversations. -/
def OverLimit (t : ContentTables) (clientId : String) (key : ConversationKey) : Prop :=
  ∃ time, t.contentConversations.get? key = some time ∧ key.1 = clientId ∧
    CONTENT_CONVERSATION_LIMIT ≤ t.newer clientId (key, time)

/-- A conversation of the client, and the others. -/
theorem conversationCount_eq_add {key : ConversationKey} {time : TimestampMs}
    (hget : t.contentConversations.get? key = some time) (hclient : key.1 = clientId) :
    t.conversationCount clientId = t.contentConversations.countWhere
      (fun k _ => decide (k.1 = clientId) && !decide (k = key)) + 1 := by
  rw [conversationCount, Table.countWhere_eq_add t.contentConversations _ key, hget]
  simp [hclient]

/-- No conversation is newer than itself. -/
theorem newer_le {key : ConversationKey} {time : TimestampMs}
    (hget : t.contentConversations.get? key = some time) :
    t.newer clientId (key, time) ≤ t.contentConversations.countWhere
      fun k _ => decide (k.1 = clientId) && !decide (k = key) := by
  apply Table.countWhere_mono
  intro k v hrow hk
  rw [decide_eq_true_iff] at hk
  simp only [hk.1, decide_true, Bool.true_and, Bool.not_eq_true', decide_eq_false_iff_not]
  rintro rfl
  rw [← Table.get?_eq_some, hget] at hrow
  obtain rfl := Option.some.inj hrow
  exact lt_irrefl _ hk.2

/-- A client within the limit has nothing over it. -/
theorem not_overLimit (h : t.conversationCount clientId ≤ CONTENT_CONVERSATION_LIMIT)
    (key : ConversationKey) : ¬ t.OverLimit clientId key := by
  rintro ⟨time, hget, hclient, hnewer⟩
  have hcount := conversationCount_eq_add hget hclient
  have hothers := @newer_le t clientId _ _ hget
  omega

section Round
variable {key : ConversationKey}
  (hselect : t.selectOldestConversation clientId = some (sessionId, threadId))
include hselect

/-- The oldest conversation is over the limit: all others are newer. -/
theorem overLimit_oldest (hcount : ¬ t.conversationCount clientId ≤ CONTENT_CONVERSATION_LIMIT) :
    t.OverLimit clientId (clientId, sessionId, threadId) := by
  obtain ⟨time, hget, holdest⟩ := selectOldestConversation_eq_some hselect
  refine ⟨time, hget, rfl, ?_⟩
  have hothers : t.contentConversations.countWhere (fun k _ =>
      decide (k.1 = clientId) && !decide (k = (clientId, sessionId, threadId))) ≤
      t.newer clientId ((clientId, sessionId, threadId), time) := by
    apply Table.countWhere_mono
    intro k v hrow hk
    simp only [Bool.and_eq_true, decide_eq_true_eq, Bool.not_eq_true', decide_eq_false_iff_not] at hk
    rw [decide_eq_true_iff]
    refine ⟨hk.1, (holdest k v (Table.get?_eq_some.mpr hrow) hk.1).lt_of_ne ?_⟩
    exact fun hage => hk.2 (eq_of_age_eq hk.1.symm hage).symm
  have htotal := @conversationCount_eq_add t clientId _ _ hget rfl
  omega

/-- The oldest conversation is newer than none, so the others keep their numbers. -/
theorem newer_evictConversation {row : ConversationKey × TimestampMs}
    (hrow : row ∈ t.contentConversations.rows) (hclient : row.1.1 = clientId) :
    (t.evictConversation clientId sessionId threadId).newer clientId row =
      t.newer clientId row := by
  obtain ⟨time, hget, holdest⟩ := selectOldestConversation_eq_some hselect
  simp only [newer, evictConversation, Table.countWhere_deleteWhere]
  apply le_antisymm
  · apply Table.countWhere_mono
    intro k v _ hk
    exact (Bool.and_eq_true _ _ |>.mp hk).1
  · apply Table.countWhere_mono
    intro k v hmem hk
    rw [hk, Bool.true_and, Bool.not_eq_true', decide_eq_false_iff_not]
    rintro rfl
    rw [← Table.get?_eq_some, hget] at hmem
    obtain rfl := Option.some.inj hmem
    rw [decide_eq_true_iff] at hk
    exact absurd hk.2 (holdest row.1 row.2 (Table.get?_eq_some.mpr hrow) hclient).not_gt

theorem overLimit_round (hcount : ¬ t.conversationCount clientId ≤ CONTENT_CONVERSATION_LIMIT) :
    t.OverLimit clientId key ↔ key = (clientId, sessionId, threadId) ∨
      (t.evictConversation clientId sessionId threadId).OverLimit clientId key := by
  by_cases hvictim : key = (clientId, sessionId, threadId)
  · rw [hvictim]
    simp [overLimit_oldest hselect hcount]
  · simp only [hvictim, false_or, OverLimit, get?_evictConversation, if_false]
    apply exists_congr
    intro time
    apply and_congr_right
    intro hget
    apply and_congr_right
    intro hclient
    rw [newer_evictConversation hselect (Table.get?_eq_some.mp hget) hclient]

end Round

/-! ## The loop -/

/-- What the loop does for a client. -/
structure EvictsExactly (clientId : String) (t t' : ContentTables) : Prop where
  returns : Evicts clientId t t'
  without : t.Without (t.OverLimit clientId) t'
  count : t'.conversationCount clientId =
    min CONTENT_CONVERSATION_LIMIT (t.conversationCount clientId)
  others : ∀ other, other ≠ clientId → t.SameFor other t'

theorem EvictsExactly.within (h : t.conversationCount clientId ≤ CONTENT_CONVERSATION_LIMIT) :
    EvictsExactly clientId t t where
  returns := .within h
  without := without_none (not_overLimit h)
  count := (min_eq_right h).symm
  others _ _ := (without_none (not_overLimit h)).sameFor fun key hkey =>
    absurd hkey (not_overLimit h key)

theorem EvictsExactly.round
    (hcount : ¬ t.conversationCount clientId ≤ CONTENT_CONVERSATION_LIMIT)
    (hselect : t.selectOldestConversation clientId = some (sessionId, threadId))
    (hrest : EvictsExactly clientId (t.evictConversation clientId sessionId threadId) t') :
    EvictsExactly clientId t t' := by
  have hwithout : t.Without (t.OverLimit clientId) t' := by
    have hboth := without_evictConversation.trans hrest.without
    have hover : t.OverLimit clientId = fun key => key = (clientId, sessionId, threadId) ∨
        (t.evictConversation clientId sessionId threadId).OverLimit clientId key := by
      funext key
      exact propext (overLimit_round hselect hcount)
    rwa [hover]
  refine ⟨.round hcount hselect hrest.returns, hwithout, ?_, ?_⟩
  · obtain ⟨time, hget, -⟩ := selectOldestConversation_eq_some hselect
    have hless := conversationCount_evictConversation (t := t) (Option.isSome_of_eq_some hget)
    rw [hrest.count]
    omega
  · intro other hother
    refine hwithout.sameFor ?_
    rintro key ⟨_, _, hclient, _⟩ rfl
    exact hother hclient

/-- The loop returns, and deletes what is over the limit, neither more nor less. -/
theorem evictOldConversations_exact (t : ContentTables) (clientId : String) :
    EvictsExactly clientId t (t.evictOldConversations clientId) := by
  induction hn : t.conversationCount clientId generalizing t with
  | zero =>
      have hwithin : t.conversationCount clientId ≤ CONTENT_CONVERSATION_LIMIT := by omega
      rw [evictOldConversations_eq, if_pos hwithin]
      exact .within hwithin
  | succ n ih =>
      rw [evictOldConversations_eq]
      split <;> rename_i hcount
      · exact .within hcount
      · cases hselect : t.selectOldestConversation clientId with
        | none =>
            rw [selectOldestConversation_eq_none hselect] at hcount
            exact absurd (Nat.zero_le _) hcount
        | some r =>
            obtain ⟨sessionId, threadId⟩ := r
            obtain ⟨time, hget, -⟩ := selectOldestConversation_eq_some hselect
            have hless := conversationCount_evictConversation (t := t)
              (Option.isSome_of_eq_some hget)
            exact .round hcount hselect (ih _ (by omega))

end ContentTables

end Codexwatch.Server
