import Tiqora.Foundation.Machine
import Tiqora.Webchat.Session

namespace Tiqora.Webchat

open Foundation

def Line.ofArticle (l : Line) (a : Article) : Prop :=
  l.articleId = some a.id ∧ a.transaction = l.transaction

instance (l : Line) (a : Article) : Decidable (l.ofArticle a) :=
  inferInstanceAs (Decidable (_ ∧ _))

/-- The highest `seq` of a visitor line. -/
def visitorTop (lines : List Line) : ℕ :=
  ((lines.filter fun l ↦ l.sender = .visitor).map (·.seq)).foldr max 0

/-- When a line of the sender may be stored, by the status that the transaction found. -/
def MayStore (found : Status) : Sender → Prop
  | .bot => found = .bot
  | .agent => found = .active
  | .visitor | .system => found.live = true

/-- The transcript with its articles. -/
structure Recorded (d : Store) : Prop where
  seqs : d.lines.map (·.seq) = List.range' 1 d.chat.lastSeq
  articles : (d.articles.map (·.id)).Nodup
  stored : ∀ l ∈ d.lines, l.sender ≠ .system → ∃ a ∈ d.articles, l.ofArticle a
  system : ∀ l ∈ d.lines, l.sender = .system → l.articleId = none
  own : (d.lines.filterMap (·.articleId)).Nodup
  clientIds : (d.lines.filterMap (·.clientId)).Nodup

structure Sound (d : Store) : Prop extends Recorded d where
  ended : d.chat.status.live = false → d.chat.endReason.isSome ∧ d.chat.endedAt.isSome
  lastVisitor : d.chat.lastVisitorSeq = visitorTop d.lines

/-- What a transaction makes of the store, by the status that it found. -/
structure Kept (found : Status) (d d' : Store) : Prop where
  sound : Sound d'
  purged : d'.chat.purgedAt = d.chat.purgedAt
  answered : d'.chat.botAnsweredSeq = d.chat.botAnsweredSeq
  lines : ∃ new, d'.lines = d.lines ++ new ∧ ∀ l ∈ new, MayStore found l.sender
  closed : found.live = false → d'.chat.status = d.chat.status ∧
    d'.chat.endReason = d.chat.endReason ∧ d'.chat.endedAt = d.chat.endedAt

variable {d d' d'' : Store} {found : Status} {w : Write} {sender : Sender}
  {code : Option SystemCode} {articleId clientId : Option ℕ} {customer : Bool} {now : ℕ}

theorem MayStore.live (h : MayStore found sender) : found.live = true := by
  cases sender with
  | visitor => exact h
  | system => exact h
  | bot =>
    rw [MayStore] at h
    rw [h]
    rfl
  | agent =>
    rw [MayStore] at h
    rw [h]
    rfl

theorem Kept.refl (h : Sound d) : Kept found d d :=
  ⟨h, rfl, rfl, ⟨[], (List.append_nil _).symm, nofun⟩, fun _ ↦ ⟨rfl, rfl, rfl⟩⟩

theorem Kept.trans (h : Kept found d d') (h' : Kept found d' d'') : Kept found d d'' := by
  obtain ⟨new, hnew, hmay⟩ := h.lines
  obtain ⟨new', hnew', hmay'⟩ := h'.lines
  refine ⟨h'.sound, h'.purged.trans h.purged, h'.answered.trans h.answered, ⟨new ++ new', ?_, fun l hl ↦ ?_⟩, fun hf ↦ ?_⟩
  · rw [hnew', hnew, List.append_assoc]
  · rcases List.mem_append.1 hl with hl | hl
    · exact hmay l hl
    · exact hmay' l hl
  · obtain ⟨hs, hr, ha⟩ := h.closed hf
    obtain ⟨hs', hr', ha'⟩ := h'.closed hf
    exact ⟨hs'.trans hs, hr'.trans hr, ha'.trans ha⟩

/-- A change of columns that the transcript does not depend on. -/
theorem Sound.same_lines (h : Sound d) (hlines : d'.lines = d.lines)
    (harticles : d'.articles = d.articles) (hseq : d'.chat.lastSeq = d.chat.lastSeq)
    (hvisitor : d'.chat.lastVisitorSeq = d.chat.lastVisitorSeq)
    (hended : d'.chat.status.live = false → d'.chat.endReason.isSome ∧ d'.chat.endedAt.isSome) :
    Sound d' := by
  refine ⟨⟨?_, ?_, ?_, ?_, ?_, ?_⟩, hended, ?_⟩
  · rw [hlines, hseq, h.seqs]
  · rw [harticles]
    exact h.articles
  · rw [hlines, harticles]
    exact h.stored
  · rw [hlines]
    exact h.system
  · rw [hlines]
    exact h.own
  · rw [hlines]
    exact h.clientIds
  · rw [hlines, hvisitor, h.lastVisitor]

theorem insertMessage_eq_ok (h : d.insertMessage sender code articleId clientId w = .ok d') :
    (∀ l ∈ d.lines, clientId.isSome → l.clientId ≠ clientId) ∧
      d' = { d with
        chat := { d.chat with lastSeq := d.chat.lastSeq + 1 }
        lines := d.lines ++
          [⟨d.chat.lastSeq + 1, sender, code, articleId, clientId, w.transaction⟩] } := by
  rw [Store.insertMessage] at h
  obtain ⟨hkeys, heq⟩ := require_bind_eq_ok.1 h
  exact ⟨fun l hl ↦ (hkeys l hl).2, (Except.ok.inj heq).symm⟩

theorem Recorded.insertMessage (h : Recorded d)
    (harticle : match articleId with
      | none => sender = .system
      | some a => sender ≠ .system ∧ a ∉ d.lines.filterMap (·.articleId) ∧
        ∃ customer, ⟨a, customer, w.transaction⟩ ∈ d.articles)
    (hins : d.insertMessage sender code articleId clientId w = .ok d') : Recorded d' := by
  obtain ⟨hkeys, rfl⟩ := insertMessage_eq_ok hins
  have hclient : (d.lines.filterMap (·.clientId) ++ clientId.toList).Nodup := by
    cases clientId with
    | none =>
      rw [Option.toList_none, List.append_nil]
      exact h.clientIds
    | some c =>
      refine h.clientIds.append (List.nodup_singleton c) ?_
      intro c' hc' hc
      cases List.mem_singleton.1 hc
      obtain ⟨l, hl, hlc⟩ := List.mem_filterMap.1 hc'
      exact hkeys l hl rfl hlc
  have hown : (d.lines.filterMap (·.articleId) ++ articleId.toList).Nodup := by
    cases articleId with
    | none =>
      rw [Option.toList_none, List.append_nil]
      exact h.own
    | some a =>
      refine h.own.append (List.nodup_singleton a) ?_
      intro a' ha' ha
      cases List.mem_singleton.1 ha
      exact harticle.2.1 ha'
  refine ⟨?_, h.articles, fun l hl hs ↦ ?_, fun l hl hs ↦ ?_, ?_, ?_⟩
  · simp only [List.map_append, List.map_singleton, h.seqs, List.range'_concat, Nat.one_mul,
      Nat.add_comm 1]
  · rcases List.mem_append.1 hl with hl | hl
    · exact h.stored l hl hs
    · cases List.mem_singleton.1 hl
      cases articleId with
      | none => exact absurd harticle hs
      | some a => exact ⟨_, harticle.2.2.choose_spec, rfl, rfl⟩
  · rcases List.mem_append.1 hl with hl | hl
    · exact h.system l hl hs
    · cases List.mem_singleton.1 hl
      cases articleId with
      | none => rfl
      | some a => exact absurd hs harticle.1
  · rw [List.filterMap_append]
    cases articleId with
    | none => exact hown
    | some a => exact hown
  · rw [List.filterMap_append]
    cases clientId with
    | none => exact hclient
    | some c => exact hclient

theorem visitorTop_append (lines new : List Line) :
    visitorTop (lines ++ new) = max (visitorTop lines) (visitorTop new) := by
  have hfold : ∀ (xs : List ℕ) (b : ℕ), xs.foldr max b = max (xs.foldr max 0) b := by
    intro xs b
    induction xs with
    | nil => exact (Nat.zero_max b).symm
    | cons x xs ih => rw [List.foldr_cons, List.foldr_cons, ih, Nat.max_assoc]
  rw [visitorTop, List.filter_append, List.map_append, List.foldr_append, hfold]
  rfl

theorem visitorTop_le (h : Recorded d) : visitorTop d.lines ≤ d.chat.lastSeq := by
  have hfold : ∀ xs : List ℕ, (∀ x ∈ xs, x ≤ d.chat.lastSeq) → xs.foldr max 0 ≤ d.chat.lastSeq := by
    intro xs hxs
    induction xs with
    | nil => exact Nat.zero_le _
    | cons x xs ih =>
      exact Nat.max_le.2 ⟨hxs x List.mem_cons_self, ih fun y hy ↦ hxs y (List.mem_cons_of_mem x hy)⟩
  refine hfold _ fun x hx ↦ ?_
  obtain ⟨l, hl, rfl⟩ := List.mem_map.1 hx
  have hmem : l.seq ∈ d.lines.map (·.seq) := List.mem_map_of_mem (List.mem_of_mem_filter hl)
  rw [h.seqs, List.mem_range'_1] at hmem
  omega

/-- A line that is not the visitor's, stored with what it needs. -/
theorem insertMessage_kept (h : Sound d) (hmay : MayStore found sender) (hsender : sender ≠ .visitor)
    (harticle : match articleId with
      | none => sender = .system
      | some a => sender ≠ .system ∧ a ∉ d.lines.filterMap (·.articleId) ∧
        ∃ customer, ⟨a, customer, w.transaction⟩ ∈ d.articles)
    (hins : d.insertMessage sender code articleId clientId w = .ok d') : Kept found d d' := by
  have hrec := h.toRecorded.insertMessage harticle hins
  obtain ⟨-, rfl⟩ := insertMessage_eq_ok hins
  refine ⟨⟨hrec, h.ended, ?_⟩, rfl, rfl, ⟨_, rfl, fun l hl ↦ ?_⟩, fun _ ↦ ⟨rfl, rfl, rfl⟩⟩
  · rw [visitorTop_append, ← h.lastVisitor]
    have htop : visitorTop [⟨d.chat.lastSeq + 1, sender, code, articleId, clientId,
        w.transaction⟩] = 0 := by
      rw [visitorTop, List.filter_cons_of_neg (by rwa [decide_eq_true_eq])]
      rfl
    rw [htop, Nat.max_zero]
  · cases List.mem_singleton.1 hl
    exact hmay

theorem addSystemMessage_kept {c : SystemCode} (h : Sound d) (hlive : found.live = true)
    (hins : d.addSystemMessage c w = .ok d') : Kept found d d' := by
  have hmay : MayStore found .system := hlive
  have hsender : Sender.system ≠ .visitor := nofun
  exact insertMessage_kept h hmay hsender rfl hins

/-- The article of the transaction has an id that no other article has. -/
def Fresh (d : Store) (w : Write) : Prop := ∀ a ∈ d.articles, a.id ≠ w.articleId

theorem Recorded.not_mem_own (h : Recorded d) (hfresh : Fresh d w) :
    w.articleId ∉ d.lines.filterMap (·.articleId) := by
  intro hmem
  obtain ⟨l, hl, hla⟩ := List.mem_filterMap.1 hmem
  by_cases hs : l.sender = .system
  · rw [h.system l hl hs] at hla
    cases hla
  · obtain ⟨a, ha, hid, -⟩ := h.stored l hl hs
    rw [hid] at hla
    exact hfresh a ha (Option.some.inj hla)

theorem addArticle_kept (h : Sound d) (hfresh : Fresh d w) :
    Kept found d (d.addArticle customer w) := by
  refine ⟨⟨⟨h.seqs, ?_, fun l hl hs ↦ ?_, h.system, h.own, h.clientIds⟩, h.ended, h.lastVisitor⟩, rfl, rfl,
    ⟨[], (List.append_nil _).symm, nofun⟩, fun _ ↦ ⟨rfl, rfl, rfl⟩⟩
  · rw [Store.addArticle, List.map_append]
    refine h.articles.append (List.nodup_singleton _) ?_
    intro i hi hi'
    obtain ⟨a, ha, rfl⟩ := List.mem_map.1 hi
    exact hfresh a ha (List.mem_singleton.1 hi')
  · obtain ⟨a, ha, hof⟩ := h.stored l hl hs
    exact ⟨a, List.mem_append_left _ ha, hof⟩

/-- An agent's or the bot's line with its article. -/
theorem reply_kept (h : Sound d) (hfresh : Fresh d w) (hmay : MayStore found sender)
    (hsender : sender ≠ .visitor) (hsystem : sender ≠ .system)
    (hins : (d.addArticle customer w).insertMessage sender code (some w.articleId) clientId w = .ok d') :
    Kept found d d' := by
  have hadd : Kept found d (d.addArticle customer w) := addArticle_kept h hfresh
  refine hadd.trans (insertMessage_kept hadd.sound hmay hsender ?_ hins)
  exact ⟨hsystem, h.not_mem_own hfresh, customer, List.mem_append_right _ (List.mem_singleton.2 rfl)⟩

theorem storeVisitorLine_kept (h : Sound d) (hfresh : Fresh d w) (hlive : found.live = true)
    (hstore : d.storeVisitorLine clientId w = .ok d') : Kept found d d' := by
  rw [Store.storeVisitorLine] at hstore
  split at hstore
  · next d₁ hins =>
    have hadd : Kept found d (d.addArticle true w) := addArticle_kept h hfresh
    have hsender : Sender.visitor ≠ .system := nofun
    have hrec := hadd.sound.toRecorded.insertMessage
      (by exact ⟨hsender, h.not_mem_own hfresh, true,
        List.mem_append_right _ (List.mem_singleton.2 rfl)⟩)
      hins
    obtain ⟨-, heq⟩ := insertMessage_eq_ok hins
    have htop := visitorTop_le h.toRecorded
    have hseq : d₁.chat.lastSeq = d.chat.lastSeq + 1 := by rw [heq]; rfl
    have hvisitor : d₁.chat.lastVisitorSeq = visitorTop d.lines := by rw [heq]; exact h.lastVisitor
    have hlines : d₁.lines = d.lines ++ [⟨d.chat.lastSeq + 1, .visitor, none, some w.articleId,
        clientId, w.transaction⟩] := by rw [heq]; rfl
    have hrow : d₁.chat.status = d.chat.status ∧ d₁.chat.endReason = d.chat.endReason ∧
        d₁.chat.endedAt = d.chat.endedAt ∧ d₁.chat.purgedAt = d.chat.purgedAt ∧
        d₁.chat.botAnsweredSeq = d.chat.botAnsweredSeq := by
      rw [heq]
      exact ⟨rfl, rfl, rfl, rfl, rfl⟩
    obtain ⟨hstatus, hreason, hat, hpurged, hanswered⟩ := hrow
    have hmark : d₁.markVisitor =
        { d₁ with chat := { d₁.chat with lastVisitorSeq := d₁.chat.lastSeq } } := by
      refine if_pos ?_
      omega
    rw [hmark] at hstore
    cases hstore
    refine ⟨⟨⟨hrec.seqs, hrec.articles, hrec.stored, hrec.system, hrec.own, hrec.clientIds⟩, ?_, ?_⟩,
      hpurged, hanswered, ⟨_, hlines, fun l hl ↦ ?_⟩, fun _ ↦ ⟨hstatus, hreason, hat⟩⟩
    · dsimp only
      rw [hstatus, hreason, hat]
      exact h.ended
    · dsimp only
      rw [hlines, visitorTop_append, hseq]
      exact (Nat.max_eq_right (Nat.le_succ_of_le htop)).symm
    · cases List.mem_singleton.1 hl
      exact hlive
  · split at hstore
    · cases hstore
    · split at hstore
      · cases hstore
        exact .refl h
      · cases hstore

/-- A change of columns of a session that was live. -/
theorem row_kept (h : Sound d) (hlive : found.live = true) (hlines : d'.lines = d.lines)
    (harticles : d'.articles = d.articles) (hseq : d'.chat.lastSeq = d.chat.lastSeq)
    (hvisitor : d'.chat.lastVisitorSeq = d.chat.lastVisitorSeq)
    (hpurged : d'.chat.purgedAt = d.chat.purgedAt)
    (hanswered : d'.chat.botAnsweredSeq = d.chat.botAnsweredSeq)
    (hended : d'.chat.status.live = false → d'.chat.endReason.isSome ∧ d'.chat.endedAt.isSome) :
    Kept found d d' := by
  refine ⟨h.same_lines hlines harticles hseq hvisitor hended, hpurged, hanswered, ⟨[], ?_, nofun⟩,
    fun hf ↦ ?_⟩
  · rw [hlines, List.append_nil]
  · rw [hlive] at hf
    cases hf

theorem close_kept {status : Status} {reason : EndReason} (h : Sound d) (hlive : found.live = true) :
    Kept found d (d.close status reason now) :=
  row_kept h hlive rfl rfl rfl rfl rfl rfl fun _ ↦ ⟨rfl, rfl⟩

theorem touchVisitorLastSeen_articles : (d.touchVisitorLastSeen now).articles = d.articles := by
  unfold Store.touchVisitorLastSeen
  split
  · rfl
  · rfl

theorem touchVisitorLastSeen_kept (h : Sound d) :
    Kept found d (d.touchVisitorLastSeen now) := by
  unfold Store.touchVisitorLastSeen
  split
  · exact ⟨h.same_lines rfl rfl rfl rfl h.ended, rfl, rfl, ⟨[], (List.append_nil _).symm, nofun⟩,
      fun _ ↦ ⟨rfl, rfl, rfl⟩⟩
  · exact .refl h

end Tiqora.Webchat
