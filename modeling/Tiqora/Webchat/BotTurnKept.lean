import Tiqora.Webchat.BotTurn

namespace Tiqora.Webchat

open Foundation

/-- What holds of a session up to its purge and after it. -/
structure Whole (d : Store) : Prop where
  sound : d.chat.purgedAt = none → Sound d
  erased : d.chat.purgedAt ≠ none → d.lines = []

/-- A transaction that leaves `bot_answered_seq` alone. -/
structure Grew (d d' : Store) : Prop extends Whole d' where
  answered : d'.chat.botAnsweredSeq = d.chat.botAnsweredSeq
  unpurged : d'.chat.purgedAt = none → d.chat.purgedAt = none
  lines : d'.chat.purgedAt = none → ∃ new, d'.lines = d.lines ++ new ∧
    ∀ l ∈ new, d.chat.lastSeq < l.seq
  lastVisitor : d'.chat.purgedAt = none → d.chat.lastVisitorSeq ≤ d'.chat.lastVisitorSeq

/-- A turn that may record its answer as far as `targetSeq` at least. -/
structure Aims (d : Store) (targetSeq : ℕ) : Prop where
  answered : d.chat.botAnsweredSeq ≤ targetSeq
  target : d.chat.purgedAt = none →
    targetSeq = 0 ∨ ∃ l ∈ d.lines, l.sender = .visitor ∧ l.seq = targetSeq

/-- The bot's line of an answer comes after the lines that its turn aims at. -/
structure Delivered (d : Store) (targetSeq articleId : ℕ) : Prop extends Aims d targetSeq where
  stored : d.chat.purgedAt = none →
    ∃ b ∈ d.lines, b.articleId = some articleId ∧ targetSeq < b.seq

def Turn.Holds (d : Store) : Turn → Prop
  | .prepared _ targetSeq | .loaded _ targetSeq _ | .fresh _ targetSeq _ => Aims d targetSeq
  | .delivered _ targetSeq articleId => Delivered d targetSeq articleId
  | .idle | .claimed _ | .handing .. | .ending .. | .released .. => True

/-- A run whose answer is stored after the line loaded the line's article. -/
def Covers (answers : List Answer) (l : Line) : Prop :=
  ∃ answer ∈ answers, l.seq < answer.seq ∧ ∃ a ∈ l.articleId, a ∈ answer.articles.map (·.id)

structure Covered (d : Store) (turn : Turn) (answers : List Answer) : Prop where
  lines : ∀ l ∈ d.lines, l.sender = .visitor → l.seq ≤ d.chat.botAnsweredSeq → Covers answers l
  delivered : ∀ owner targetSeq articleId, turn = .delivered owner targetSeq articleId →
    ∀ b ∈ d.lines, b.articleId = some articleId → ∀ l ∈ d.lines, l.sender = .visitor →
      l.seq < b.seq → Covers answers l

variable {d d' : Store} {w : Write} {s t u : BotState} {turn : Turn} {answers : List Answer}
  {owner targetSeq articleId : ℕ} {isolation : Isolation}

theorem Recorded.seq_le (h : Recorded d) {l : Line} (hl : l ∈ d.lines) :
    1 ≤ l.seq ∧ l.seq ≤ d.chat.lastSeq := by
  have hmem : l.seq ∈ d.lines.map (·.seq) := List.mem_map_of_mem hl
  rw [h.seqs, List.mem_range'_1] at hmem
  omega

theorem le_visitorTop {lines : List Line} {l : Line} (hl : l ∈ lines) (hs : l.sender = .visitor) :
    l.seq ≤ visitorTop lines := by
  obtain ⟨before, after, rfl⟩ := List.append_of_mem hl
  rw [visitorTop_append]
  refine le_trans ?_ (Nat.le_max_right _ _)
  rw [visitorTop, List.filter_cons_of_pos (by rw [hs]; rfl)]
  exact Nat.le_max_left _ _

theorem visitorTop_mem (lines : List Line) :
    visitorTop lines = 0 ∨ ∃ l ∈ lines, l.sender = .visitor ∧ l.seq = visitorTop lines := by
  have hfold : ∀ xs : List ℕ, xs.foldr max 0 = 0 ∨ xs.foldr max 0 ∈ xs := by
    intro xs
    induction xs with
    | nil => exact .inl rfl
    | cons x xs ih =>
      rw [List.foldr_cons]
      rcases Nat.le_total x (xs.foldr max 0) with hle | hle
      · rw [Nat.max_eq_right hle]
        exact ih.imp_right (List.mem_cons_of_mem x)
      · rw [Nat.max_eq_left hle]
        exact .inr List.mem_cons_self
  refine (hfold _).imp_right fun hmem ↦ ?_
  obtain ⟨l, hl, hseq⟩ := List.mem_map.1 hmem
  obtain ⟨hl, hs⟩ := List.mem_filter.1 hl
  exact ⟨l, hl, of_decide_eq_true hs, hseq⟩

theorem Kept.grew {found : Status} (h : Sound d) (hk : Kept found d d')
    (hp : d.chat.purgedAt = none) : Grew d d' := by
  obtain ⟨new, hnew, -⟩ := hk.lines
  refine ⟨⟨fun _ ↦ hk.sound, fun hp' ↦ absurd (hk.purged.trans hp) hp'⟩, hk.answered, fun _ ↦ hp,
    fun _ ↦ ⟨new, hnew, fun l hl ↦ ?_⟩, fun _ ↦ ?_⟩
  · have hlen : d.lines.length = d.chat.lastSeq := by
      rw [← List.length_map (·.seq), h.seqs, List.length_range']
    have hseqs : new.map (·.seq) = List.range' (1 + d.chat.lastSeq) (d'.chat.lastSeq - d.chat.lastSeq) := by
      have hdrop := congrArg (List.drop d.lines.length) hk.sound.seqs
      rw [hnew, List.map_append, ← List.length_map (·.seq), List.drop_left, List.length_map, hlen,
        List.drop_range', Nat.mul_one] at hdrop
      exact hdrop
    have hmem : l.seq ∈ new.map (·.seq) := List.mem_map_of_mem hl
    rw [hseqs, List.mem_range'_1] at hmem
    omega
  · rw [h.lastVisitor, hk.sound.lastVisitor, hnew, visitorTop_append]
    exact Nat.le_max_left _ _

theorem Op.run_grew {op : Op} (h : Whole d) (hfresh : Fresh d w) (hrun : op.run d w = .ok d') :
    Grew d d' := by
  by_cases hp : d.chat.purgedAt = none
  · rcases Op.run_kept (h.sound hp) hfresh hrun with hk | ⟨hpurged, hlines, hanswered⟩
    · exact hk.grew (h.sound hp) hp
    · exact ⟨⟨fun hp' ↦ absurd hp' hpurged, fun _ ↦ hlines⟩, hanswered, fun hp' ↦ absurd hp' hpurged,
        fun hp' ↦ absurd hp' hpurged, fun hp' ↦ absurd hp' hpurged⟩
  · obtain ⟨hpurged, hlines, hanswered⟩ := Op.run_purged hrun hp
    have hp' : d'.chat.purgedAt ≠ none := by
      rw [hpurged]
      exact hp
    exact ⟨⟨fun h' ↦ absurd h' hp', fun _ ↦ hlines.trans (h.erased hp)⟩, hanswered,
      fun h' ↦ absurd h' hp', fun h' ↦ absurd h' hp', fun h' ↦ absurd h' hp'⟩

/-- A change of the claim's columns. -/
theorem Whole.same_lines (h : Whole d) {chat : Chat} (hstatus : chat.status = d.chat.status)
    (hreason : chat.endReason = d.chat.endReason) (hat : chat.endedAt = d.chat.endedAt)
    (hseq : chat.lastSeq = d.chat.lastSeq) (hvisitor : chat.lastVisitorSeq = d.chat.lastVisitorSeq)
    (hpurged : chat.purgedAt = d.chat.purgedAt)
    (hanswered : chat.botAnsweredSeq = d.chat.botAnsweredSeq) : Grew d { d with chat } := by
  refine ⟨⟨fun hp ↦ ?_, fun hp ↦ h.erased ?_⟩, hanswered, fun hp ↦ hpurged.symm.trans hp,
    fun _ ↦ ⟨[], (List.append_nil _).symm, nofun⟩, fun _ ↦ hvisitor.ge⟩
  · refine (h.sound (hpurged.symm.trans hp)).same_lines rfl rfl hseq hvisitor fun hfinal ↦ ?_
    dsimp only at hfinal ⊢
    rw [hstatus] at hfinal
    rw [hreason, hat]
    exact (h.sound (hpurged.symm.trans hp)).ended hfinal
  · rw [← hpurged]
    exact hp

theorem Grew.mem (hg : Grew d d') {l : Line} (hl : l ∈ d'.lines) :
    d'.chat.purgedAt = none ∧ (l ∈ d.lines ∨ d.chat.lastSeq < l.seq) := by
  by_cases hp : d'.chat.purgedAt = none
  · obtain ⟨new, hnew, hseq⟩ := hg.lines hp
    rw [hnew] at hl
    exact ⟨hp, (List.mem_append.1 hl).imp_right (hseq l)⟩
  · rw [hg.erased hp] at hl
    cases hl

theorem Aims.grew (h : Aims d targetSeq) (hg : Grew d d') : Aims d' targetSeq := by
  refine ⟨hg.answered.trans_le h.answered, fun hp ↦ ?_⟩
  obtain ⟨new, hnew, -⟩ := hg.lines hp
  refine (h.target (hg.unpurged hp)).imp_right ?_
  rintro ⟨l, hl, hs⟩
  refine ⟨l, ?_, hs⟩
  rw [hnew]
  exact List.mem_append_left _ hl

theorem Delivered.grew (h : Delivered d targetSeq articleId) (hg : Grew d d') :
    Delivered d' targetSeq articleId := by
  refine ⟨h.toAims.grew hg, fun hp ↦ ?_⟩
  obtain ⟨new, hnew, -⟩ := hg.lines hp
  obtain ⟨b, hb, hs⟩ := h.stored (hg.unpurged hp)
  refine ⟨b, ?_, hs⟩
  rw [hnew]
  exact List.mem_append_left _ hb

theorem Turn.Holds.grew (h : turn.Holds d) (hg : Grew d d') : turn.Holds d' := by
  cases turn with
  | prepared owner targetSeq => exact Aims.grew h hg
  | loaded owner targetSeq articles => exact Aims.grew h hg
  | fresh owner targetSeq articles => exact Aims.grew h hg
  | delivered owner targetSeq articleId => exact Delivered.grew h hg
  | idle => trivial
  | claimed owner => trivial
  | handing owner reason note => trivial
  | ending owner outcome => trivial
  | released outcome pending pushes => trivial

theorem Covered.grew (h : Covered d turn answers) (hw : Whole d) (hholds : turn.Holds d)
    (hwithin : d.chat.purgedAt = none → d.chat.botAnsweredSeq ≤ d.chat.lastVisitorSeq)
    (hg : Grew d d') : Covered d' turn answers := by
  refine ⟨fun l hl hs hle ↦ ?_, fun owner targetSeq articleId hturn b hb hba l hl hs hlt ↦ ?_⟩
  · obtain ⟨hp, hl | hnew⟩ := hg.mem hl
    · exact h.lines l hl hs (hle.trans_eq hg.answered)
    · have hp' := hg.unpurged hp
      have htop := visitorTop_le (hw.sound hp').toRecorded
      rw [← (hw.sound hp').lastVisitor] at htop
      have hwithin := hwithin hp'
      have hanswered := hg.answered
      omega
  · obtain ⟨hp, -⟩ := hg.mem hl
    have hp' := hg.unpurged hp
    rw [hturn] at hholds
    obtain ⟨b', hb', hba', -⟩ := hholds.stored hp'
    obtain ⟨new, hnew, hseq⟩ := hg.lines hp
    have hsome : b'.articleId.isSome := by
      rw [hba']
      rfl
    have hsame : b' = b := by
      refine filterMap_unique (hg.sound hp).own ?_ hb hsome (hba'.trans hba.symm)
      rw [hnew]
      exact List.mem_append_left _ hb'
    rw [hsame] at hb'
    obtain ⟨-, hl | hafter⟩ := hg.mem hl
    · exact h.delivered owner targetSeq articleId hturn b hb' hba l hl hs hlt
    · have hle := ((hw.sound hp').seq_le hb').2
      omega

theorem deliverBotChatReply_spec (h : d.deliverBotChatReply w = .ok d') :
    d.chat.purgedAt = none ∧ d'.chat.lastSeq = d.chat.lastSeq + 1 ∧
      d'.lines = d.lines ++
        [⟨d.chat.lastSeq + 1, .bot, none, some w.articleId, none, w.transaction⟩] := by
  rw [Store.deliverBotChatReply] at h
  obtain ⟨⟨hp, -⟩, hins⟩ := require_bind_eq_ok.1 h
  obtain ⟨-, rfl⟩ := insertMessage_eq_ok hins
  exact ⟨hp, rfl, rfl⟩

theorem deliver_delivered (hw : Whole d) (ha : Aims d targetSeq)
    (hdeliver : d.deliverBotChatReply w = .ok d') (hg : Grew d d') :
    Delivered d' targetSeq w.articleId := by
  obtain ⟨hp, -, hlines⟩ := deliverBotChatReply_spec hdeliver
  refine ⟨ha.grew hg, fun _ ↦
    ⟨⟨d.chat.lastSeq + 1, .bot, none, some w.articleId, none, w.transaction⟩, ?_, rfl, ?_⟩⟩
  · rw [hlines]
    exact List.mem_append_right _ (List.mem_singleton.2 rfl)
  · rcases ha.target hp with h₀ | ⟨l, hl, -, hseq⟩
    · rw [h₀]
      exact Nat.succ_pos _
    · rw [← hseq]
      exact Nat.lt_succ_of_le ((hw.sound hp).seq_le hl).2

/-- An answer covers the visitor lines below it when its run loaded them all. -/
theorem deliver_covered (hw : Whole d) {articles : List Article}
    (hloaded : ∀ l ∈ d.lines, l.sender = .visitor → ∀ a ∈ l.articleId, a ∈ articles.map (·.id))
    (hdeliver : d.deliverBotChatReply w = .ok d') :
    Covered d' (.delivered owner targetSeq w.articleId)
      (answers ++ [⟨d'.chat.lastSeq, articles⟩]) := by
  obtain ⟨hp, hseq, hlines⟩ := deliverBotChatReply_spec hdeliver
  have hvisitor : ∀ l ∈ d'.lines, l.sender = .visitor → l ∈ d.lines := by
    intro l hl hs
    rw [hlines] at hl
    refine (List.mem_append.1 hl).resolve_right fun hnew ↦ ?_
    cases List.mem_singleton.1 hnew
    cases hs
  have hcovers : ∀ l ∈ d'.lines, l.sender = .visitor →
      Covers (answers ++ [⟨d'.chat.lastSeq, articles⟩]) l := by
    intro l hl hs
    have hl := hvisitor l hl hs
    have hle := ((hw.sound hp).seq_le hl).2
    obtain ⟨a, -, hof⟩ := (hw.sound hp).stored l hl (by rw [hs]; exact nofun)
    exact ⟨_, List.mem_append_right _ (List.mem_singleton.2 rfl), by dsimp only; omega,
      a.id, hof.1, hloaded l hl hs a.id hof.1⟩
  exact ⟨fun l hl hs _ ↦ hcovers l hl hs, fun _ _ _ _ _ _ _ l hl hs _ ↦ hcovers l hl hs⟩

theorem coveredSeq_eq_some {lines : List Line} {botSeq seq : ℕ}
    (h : coveredSeq lines botSeq = some seq) :
    (∃ l ∈ lines, l.sender = .visitor ∧ l.seq = seq ∧ seq < botSeq) ∧
      ∀ l ∈ lines, l.sender = .visitor → l.seq < botSeq → l.seq ≤ seq := by
  obtain ⟨hmem, hmax⟩ := List.max?_eq_some_iff.1 h
  refine ⟨?_, fun l hl hs hlt ↦ hmax l.seq ?_⟩
  · obtain ⟨l, hl, rfl⟩ := List.mem_map.1 hmem
    obtain ⟨hl, hs⟩ := List.mem_filter.1 hl
    obtain ⟨hs, hlt⟩ := of_decide_eq_true hs
    exact ⟨l, hl, hs, rfl, hlt⟩
  · exact List.mem_map_of_mem (List.mem_filter.2 ⟨hl, decide_eq_true ⟨hs, hlt⟩⟩)

theorem coveredSeq_eq_none {lines : List Line} {botSeq : ℕ} (h : coveredSeq lines botSeq = none) :
    ∀ l ∈ lines, l.sender = .visitor → ¬ l.seq < botSeq := by
  intro l hl hs hlt
  rw [coveredSeq, List.max?_eq_none_iff, List.map_eq_nil_iff, List.filter_eq_nil_iff] at h
  exact h l hl (decide_eq_true ⟨hs, hlt⟩)

/-- The answer is recorded as far as the last visitor line below the bot's line. -/
theorem answeredSeq_spec (hw : Whole d) (hd : Delivered d targetSeq articleId) :
    d.chat.botAnsweredSeq ≤ d.answeredSeq (some articleId) targetSeq ∧
      (d.chat.purgedAt = none →
        d.answeredSeq (some articleId) targetSeq ≤ d.chat.lastVisitorSeq ∧
        ∃ b ∈ d.lines, b.articleId = some articleId ∧
          d.answeredSeq (some articleId) targetSeq < b.seq) := by
  rw [Store.answeredSeq, Option.bind_some]
  by_cases hp : d.chat.purgedAt = none
  · have hsound := hw.sound hp
    obtain ⟨b, hb, hba, hlt⟩ := hd.stored hp
    cases hfind : d.lines.find? fun l ↦ l.articleId = some articleId with
    | none => exact absurd (decide_eq_true hba) (List.find?_eq_none.1 hfind b hb)
    | some b' =>
      have hb'a := List.find?_some hfind
      rw [decide_eq_true_eq] at hb'a
      have hsome : b.articleId.isSome := by
        rw [hba]
        rfl
      have hsame : b = b' := filterMap_unique hsound.own hb (List.mem_of_find?_eq_some hfind) hsome
        (hba.trans hb'a.symm)
      subst hsame
      dsimp only
      cases hcovered : coveredSeq d.lines b.seq with
      | some seq =>
        obtain ⟨⟨l, hl, hs, hseq, hbelow⟩, hmax⟩ := coveredSeq_eq_some hcovered
        rw [Option.getD_some]
        refine ⟨hd.answered.trans ?_, fun _ ↦ ⟨?_, b, hb, hba, hbelow⟩⟩
        · rcases hd.target hp with h₀ | ⟨l', hl', hs', hseq'⟩
          · rw [h₀]
            exact Nat.zero_le _
          · rw [← hseq']
            exact hmax l' hl' hs' (hseq'.trans_lt hlt)
        · rw [hsound.lastVisitor, ← hseq]
          exact le_visitorTop hl hs
      | none =>
        have h₀ : targetSeq = 0 := by
          refine (hd.target hp).resolve_right ?_
          rintro ⟨l, hl, hs, hseq⟩
          exact coveredSeq_eq_none hcovered l hl hs (hseq.trans_lt hlt)
        rw [Option.getD_none]
        refine ⟨hd.answered, fun _ ↦ ⟨?_, b, hb, hba, hlt⟩⟩
        rw [h₀]
        exact Nat.zero_le _
  · rw [hw.erased hp]
    exact ⟨hd.answered, fun hp' ↦ absurd hp' hp⟩

/-- What holds in every run: the claim on the session, and how the turns end. -/
structure Turning (s : BotState) : Prop extends Whole s.store where
  within : s.store.chat.purgedAt = none →
    s.store.chat.botAnsweredSeq ≤ s.store.chat.lastVisitorSeq
  holds : s.turn.Holds s.store
  released : ∀ outcome pushes, s.turn = .released outcome true pushes → outcome ≠ .retry →
    pushes ≤ s.pushes ∧ (s.dedupe = true → pushes < s.pushes)
  ends : ∀ e ∈ s.ends, e.pending = true → e.queued = true ∨ e.outcome = .retry

theorem Turning.grew (h : Turning s) (hg : Grew s.store d) (transactions : ℕ) :
    Turning { s with store := d, transactions } := by
  refine ⟨hg.toWhole, fun hp ↦ ?_, h.holds.grew hg, h.released, h.ends⟩
  dsimp only at hp ⊢
  rw [hg.answered]
  exact (h.within (hg.unpurged hp)).trans (hg.lastVisitor hp)

/-- The turn goes on to where it relies on no more than it has. -/
theorem Turning.enter (h : Turning s) (hholds : turn.Holds s.store)
    (hreleased : ∀ outcome pushes, turn ≠ .released outcome true pushes) :
    Turning { s with turn } :=
  ⟨h.toWhole, h.within, hholds, fun outcome pushes hturn ↦ absurd hturn (hreleased outcome pushes),
    h.ends⟩

theorem push_spec (s : BotState) : s.push.store = s.store ∧ s.push.turn = s.turn ∧
    s.push.answers = s.answers ∧ s.push.ends = s.ends ∧ s.push.dedupe = true ∧
    s.pushes ≤ s.push.pushes ∧ (s.dedupe = false → s.pushes < s.push.pushes) := by
  unfold BotState.push
  split
  · next hdedupe =>
    refine ⟨rfl, rfl, rfl, rfl, hdedupe, Nat.le_refl _, fun hnot ↦ ?_⟩
    rw [hdedupe] at hnot
    cases hnot
  · exact ⟨rfl, rfl, rfl, rfl, rfl, Nat.le_succ _, fun _ ↦ Nat.lt_succ_self _⟩

theorem Turning.push (h : Turning s) : Turning s.push := by
  obtain ⟨hstore, hturn, -, hends, -, hle, hlt⟩ := push_spec s
  refine ⟨?_, ?_, ?_, fun outcome pushes hreleased hretry ↦ ?_, ?_⟩
  · rw [hstore]
    exact h.toWhole
  · rw [hstore]
    exact h.within
  · rw [hstore, hturn]
    exact h.holds
  · rw [hturn] at hreleased
    obtain ⟨hle', hlt'⟩ := h.released outcome pushes hreleased hretry
    refine ⟨hle'.trans hle, fun _ ↦ ?_⟩
    cases hdedupe : s.dedupe with
    | true => exact (hlt' hdedupe).trans_le hle
    | false => exact hle'.trans_lt (hlt hdedupe)
  · rw [hends]
    exact h.ends

theorem Covered.enter (h : Covered d turn answers) {turn' : Turn}
    (hturn : ∀ owner targetSeq articleId, turn' ≠ .delivered owner targetSeq articleId) :
    Covered d turn' answers :=
  ⟨h.lines, fun owner targetSeq articleId heq ↦ absurd heq (hturn owner targetSeq articleId)⟩

/-- What a step does for the visitor's lines. -/
structure Advances (loaded : Prop) (s t : BotState) : Prop where
  turning : Turning t
  answered : s.store.chat.botAnsweredSeq ≤ t.store.chat.botAnsweredSeq
  covered : loaded → Covered s.store s.turn s.answers → Covered t.store t.turn t.answers

variable {loaded : Prop}

theorem Turning.stays (h : Turning s) : Advances loaded s s :=
  ⟨h, Nat.le_refl _, fun _ hc ↦ hc⟩

theorem Turning.advances_turn (h : Turning s) (hholds : turn.Holds s.store)
    (hreleased : ∀ outcome pushes, turn ≠ .released outcome true pushes)
    (hdelivered : ∀ owner targetSeq articleId, turn ≠ .delivered owner targetSeq articleId) :
    Advances loaded s { s with turn } :=
  ⟨h.enter hholds hreleased, Nat.le_refl _, fun _ hc ↦ hc.enter hdelivered⟩

theorem Turning.advances_store (h : Turning s) (hg : Grew s.store d) (transactions : ℕ) :
    Advances loaded s { s with store := d, transactions } :=
  ⟨h.grew hg transactions, hg.answered.ge,
    fun _ hc ↦ hc.grew h.toWhole h.holds h.within hg⟩

/-- The turn leaves the session row with another phase that promises nothing. -/
theorem Turning.advances_ending (h : Turning s) (hg : Grew s.store d) (transactions : ℕ)
    (hholds : turn.Holds d) (hreleased : ∀ outcome pushes, turn ≠ .released outcome true pushes)
    (hdelivered : ∀ owner targetSeq articleId, turn ≠ .delivered owner targetSeq articleId) :
    Advances loaded s { s with store := d, transactions, turn } := by
  have hstore : Advances loaded s { s with store := d, transactions } :=
    h.advances_store hg transactions
  have hturn : Advances loaded { s with store := d, transactions }
      { s with store := d, transactions, turn } :=
    hstore.turning.advances_turn hholds hreleased hdelivered
  exact ⟨hturn.turning, hstore.answered.trans hturn.answered,
    fun hl hc ↦ hturn.covered hl (hstore.covered hl hc)⟩

theorem runReturns_advances (h : Turning s) (result : RunResult) :
    Advances loaded s (s.runReturns owner result) := by
  cases result with
  | lockHeld => exact h.advances_turn trivial nofun nofun
  | unavailable => exact h.advances_turn trivial nofun nofun
  | failed =>
    have hg : Grew s.store s.store.countFailedTurn :=
      h.toWhole.same_lines rfl rfl rfl rfl rfl rfl rfl
    unfold BotState.runReturns
    dsimp only
    split
    · exact h.advances_ending hg s.transactions trivial nofun nofun
    · exact h.advances_ending hg s.transactions trivial nofun nofun
  | escalated => exact h.advances_turn trivial nofun nofun
  | drafted => exact h.advances_turn trivial nofun nofun
  | noReply => exact h.advances_turn trivial nofun nofun

theorem recordAnswer_advances (h : Turning s)
    (hturn : s.turn = .delivered owner targetSeq articleId) :
    Advances loaded s { s with
      store := s.store.recordAnswer (some articleId) targetSeq, turn := .ending owner .replied } := by
  have hholds := h.holds
  rw [hturn] at hholds
  obtain ⟨hle, hbelow⟩ := answeredSeq_spec h.toWhole hholds
  refine ⟨⟨⟨fun hp ↦ ?_, h.erased⟩, fun hp ↦ (hbelow hp).1, trivial, nofun, h.ends⟩, hle,
    fun _ hc ↦ ⟨fun l hl hs hseq ↦ ?_, nofun⟩⟩
  · exact (h.sound hp).same_lines rfl rfl rfl rfl (h.sound hp).ended
  · by_cases hp : s.store.chat.purgedAt = none
    · obtain ⟨-, b, hb, hba, hlt⟩ := hbelow hp
      exact hc.delivered owner targetSeq articleId hturn b hb hba l hl hs (hseq.trans_lt hlt)
    · have hnone : s.store.lines = [] := h.erased hp
      have hl : l ∈ s.store.lines := hl
      rw [hnone] at hl
      cases hl

theorem deliverBotChatReply_advances (h : Turning s) {articles : List Article}
    (hturn : s.turn = .fresh owner targetSeq articles) (hfresh : Fresh s.store w)
    (hdeliver : s.store.deliverBotChatReply w = .ok d) (transactions : ℕ) :
    Advances (∀ l ∈ s.store.lines, l.sender = .visitor → ∀ a ∈ l.articleId,
      a ∈ articles.map (·.id)) s { s with
        store := d
        transactions
        turn := .delivered owner targetSeq w.articleId
        answers := s.answers ++ [⟨d.chat.lastSeq, articles⟩] } := by
  have hrun : Op.run s.store w .deliverBotChatReply = .ok d := hdeliver
  have hg := Op.run_grew h.toWhole hfresh hrun
  have haims := h.holds
  rw [hturn] at haims
  have hgrew := h.grew hg transactions
  exact ⟨⟨hgrew.toWhole, hgrew.within, deliver_delivered h.toWhole haims hdeliver hg, nofun, h.ends⟩,
    hg.answered.ge, fun hloaded _ ↦ deliver_covered h.toWhole hloaded hdeliver⟩

theorem releaseClaim_grew (h : Whole d) (owner : ℕ) : Grew d (d.releaseClaim owner) := by
  unfold Store.releaseClaim
  split
  · exact h.same_lines rfl rfl rfl rfl rfl rfl rfl
  · exact h.same_lines rfl rfl rfl rfl rfl rfl rfl

theorem flush_advances (h : Turning s) {outcome : TurnOutcome} {pending : Bool} {pushes : ℕ}
    (hturn : s.turn = .released outcome pending pushes) (hs : t.store = s.store)
    (hanswers : t.answers = s.answers) (hends : t.ends = s.ends)
    (ht : outcome ≠ .retry ∧ pending = true → pushes < t.pushes) :
    Advances loaded s { t with
      turn := .idle, ends := t.ends ++ [⟨outcome, pending, pushes < t.pushes⟩] } := by
  refine ⟨⟨?_, ?_, trivial, nofun, fun e he hpending ↦ ?_⟩, ?_, fun _ hc ↦ ?_⟩
  · dsimp only
    rw [hs]
    exact h.toWhole
  · dsimp only
    rw [hs]
    exact h.within
  · dsimp only at he
    rw [hends] at he
    rcases List.mem_append.1 he with he | he
    · exact h.ends e he hpending
    · cases List.mem_singleton.1 he
      by_cases hretry : outcome = .retry
      · exact .inr hretry
      · exact .inl (decide_eq_true (ht ⟨hretry, hpending⟩))
  · dsimp only
    rw [hs]
  · dsimp only
    rw [hs, hanswers]
    exact hc.enter nofun

theorem next_advances (h : Turning s) {a : BotAction} (hnext : s.next isolation a = some t) :
    Advances (LoadedAll s a) s t := by
  cases a with
  | execute op articleId =>
    rw [BotState.next] at hnext
    split at hnext
    · next hfree =>
      split at hnext
      · next store hrun =>
        cases hnext
        have hfresh : Fresh s.store ⟨s.transactions, articleId⟩ := hfree.2
        exact h.advances_store (Op.run_grew h.toWhole hfresh hrun) _
      · cases hnext
        exact h.stays
    · cases hnext
  | announce =>
    cases hnext
    obtain ⟨hstore, hturn, hanswers, -⟩ := push_spec s
    refine ⟨h.push, ?_, fun _ hc ↦ ?_⟩
    · rw [hstore]
    · rw [hstore, hturn, hanswers]
      exact hc
  | expire =>
    cases hnext
    exact ⟨⟨h.toWhole, h.within, h.holds, fun outcome pushes hturn hretry ↦
      ⟨(h.released outcome pushes hturn hretry).1, nofun⟩, h.ends⟩, Nat.le_refl _, fun _ hc ↦ hc⟩
  | claimBotTurn owner now =>
    rw [BotState.next] at hnext
    split at hnext
    · obtain ⟨store, hclaim, rfl⟩ := Option.map_eq_some_iff.1 hnext
      have hg : Grew s.store store := by
        rw [Store.claimBotTurn] at hclaim
        split at hclaim
        · cases hclaim
          exact h.toWhole.same_lines rfl rfl rfl rfl rfl rfl rfl
        · cases hclaim
      have hclaimed : Advances (LoadedAll s (.claimBotTurn owner now)) s
          { s with store, transactions := s.transactions, turn := .claimed owner } :=
        h.advances_ending hg s.transactions trivial nofun nofun
      exact ⟨⟨hclaimed.turning.toWhole, hclaimed.turning.within, trivial, nofun, h.ends⟩,
        hclaimed.answered, hclaimed.covered⟩
    · cases hnext
  | prepare blocked =>
    rw [BotState.next] at hnext
    split at hnext
    · split at hnext
      · next hbot =>
        split at hnext
        · cases hnext
          exact h.advances_turn trivial nofun nofun
        · cases hnext
          have haims : Aims s.store s.store.chat.lastVisitorSeq := by
            refine ⟨h.within hbot.1, fun hp ↦ ?_⟩
            rw [(h.sound hp).lastVisitor]
            exact visitorTop_mem _
          exact h.advances_turn haims nofun nofun
      · cases hnext
        exact h.advances_turn trivial nofun nofun
    · cases hnext
  | loadArticles =>
    rw [BotState.next] at hnext
    split at hnext
    · next owner targetSeq hturn =>
      cases hnext
      have haims := h.holds
      rw [hturn] at haims
      exact h.advances_turn haims nofun nofun
    · cases hnext
  | checkFreshness =>
    rw [BotState.next] at hnext
    split at hnext
    · next owner targetSeq articles hturn =>
      have haims := h.holds
      rw [hturn] at haims
      split at hnext
      · cases hnext
        exact h.advances_turn trivial nofun nofun
      · cases hnext
        exact h.advances_turn haims nofun nofun
    · cases hnext
  | runReturns result =>
    rw [BotState.next] at hnext
    split at hnext
    · cases hnext
      exact runReturns_advances h result
    · cases hnext
      exact runReturns_advances h result
    · cases hnext
      exact runReturns_advances h result
    · cases hnext
  | deliverBotChatReply articleId =>
    rw [BotState.next] at hnext
    split at hnext
    · next owner targetSeq articles hturn =>
      split at hnext
      · next hfree =>
        have hfree : Fresh s.store ⟨s.transactions, articleId⟩ := hfree
        split at hnext
        · next store hdeliver =>
          cases hnext
          have hadvances := deliverBotChatReply_advances h hturn hfree hdeliver (s.transactions + 1)
          refine ⟨hadvances.turning, hadvances.answered, fun hloaded ↦ hadvances.covered ?_⟩
          unfold LoadedAll at hloaded
          rw [hturn] at hloaded
          exact hloaded
        · cases hnext
          exact h.advances_turn trivial nofun nofun
      · cases hnext
    · cases hnext
  | recordAnswer =>
    rw [BotState.next] at hnext
    split at hnext
    · next hturn =>
      cases hnext
      exact recordAnswer_advances h hturn
    · cases hnext
  | handOffChat humans now articleId =>
    rw [BotState.next] at hnext
    split at hnext
    · next owner reason note hturn =>
      split at hnext
      · next hfree =>
        have hfree : Fresh s.store ⟨s.transactions, articleId⟩ := hfree
        split at hnext
        · next store hhand =>
          cases hnext
          have hrun : Op.run s.store ⟨s.transactions, articleId⟩
              (.handOffChat reason humans note now) = .ok store := hhand
          exact h.advances_ending (Op.run_grew h.toWhole hfree hrun) _ trivial nofun nofun
        · cases hnext
      · cases hnext
    · cases hnext
  | releaseClaim =>
    rw [BotState.next] at hnext
    split at hnext
    · next owner outcome hturn =>
      cases hnext
      have hgrew : Advances (LoadedAll s .releaseClaim) s
          { s with store := s.store.releaseClaim owner, transactions := s.transactions } :=
        h.advances_store (releaseClaim_grew h.toWhole owner) s.transactions
      refine ⟨⟨hgrew.turning.toWhole, hgrew.turning.within, trivial, ?_, h.ends⟩, hgrew.answered,
        fun hl hc ↦ (hgrew.covered hl hc).enter nofun⟩
      intro outcome' pushes' heq hretry
      injection heq with houtcome hpending hpushes
      subst houtcome hpushes
      refine ⟨Nat.le_refl _, fun hdedupe ↦ ?_⟩
      dsimp only at hdedupe
      rw [if_pos ⟨hretry, hpending⟩] at hdedupe
      cases hdedupe
    · cases hnext
  | flush =>
    rw [BotState.next] at hnext
    split at hnext
    · next outcome pending pushes hturn =>
      cases hnext
      obtain ⟨hstore, -, hanswers, hends, -, hle, hlt⟩ := push_spec s
      split
      · next hpending =>
        refine flush_advances h hturn hstore hanswers hends fun _ ↦ ?_
        obtain ⟨hretry, rfl⟩ := hpending
        obtain ⟨hle', hlt'⟩ := h.released outcome pushes hturn hretry
        cases hdedupe : s.dedupe with
        | true => exact (hlt' hdedupe).trans_le hle
        | false => exact hle'.trans_lt (hlt hdedupe)
      · next hpending => exact flush_advances h hturn rfl rfl rfl fun hp ↦ absurd hp hpending
    · cases hnext

theorem init_turning (hs : (botTurns isolation).init s) :
    Turning s ∧ Covered s.store s.turn s.answers := by
  obtain ⟨hcreated, hturn, -, hends⟩ := hs
  obtain ⟨hsound, hp, hanswered⟩ := created_sound hcreated
  dsimp only at hsound hp hanswered
  refine ⟨⟨⟨fun _ ↦ hsound, fun hp' ↦ absurd hp hp'⟩, fun _ ↦ ?_, ?_, fun _ _ heq ↦ ?_, fun e he ↦ ?_⟩,
    fun l hl _ hle ↦ ?_, fun _ _ _ heq ↦ ?_⟩
  · rw [hanswered]
    exact Nat.zero_le _
  · rw [hturn]
    trivial
  · rw [hturn] at heq
    cases heq
  · rw [hends] at he
    cases he
  · have hpos := (hsound.seq_le hl).1
    omega
  · rw [hturn] at heq
    cases heq

theorem Run.turning {as : List BotAction} (hr : (botTurns isolation).Run s as t) (h : Turning s) :
    Turning t ∧ s.store.chat.botAnsweredSeq ≤ t.store.chat.botAnsweredSeq := by
  have hstep : ∀ u a v, Turning u → (botTurns isolation).step u a v → Turning v :=
    fun u a v hu hst ↦ (next_advances hu hst).turning
  refine ⟨hr.invariant hstep h, hr.relates
    (R := fun s t ↦ s.store.chat.botAnsweredSeq ≤ t.store.chat.botAnsweredSeq) hstep
    (fun _ ↦ Nat.le_refl _) (fun _ _ _ ↦ Nat.le_trans) ?_ h⟩
  intro u a v hu hst
  exact (next_advances hu hst).answered

/-- When every run that answers has loaded the articles of all visitor lines by then, an answered
line's article was loaded by a run whose answer came after it. In any run `bot_answered_seq` never
decreases, and a turn that leaves a pending line queues the next turn or asks for a retry. -/
theorem answers_cover {as bs : List BotAction} (hs : (botTurns isolation).init s)
    (ht : ((botTurns isolation).restrict LoadedAll).Run s as t)
    (hu : ((botTurns isolation).restrict LoadedAll).Run t bs u) :
    (∀ l ∈ u.store.lines, l.sender = .visitor → l.seq ≤ u.store.chat.botAnsweredSeq →
      ∃ answer ∈ u.answers, l.seq < answer.seq ∧
        ∃ a ∈ l.articleId, a ∈ answer.articles.map (·.id)) ∧
      t.store.chat.botAnsweredSeq ≤ u.store.chat.botAnsweredSeq ∧
      ∀ e ∈ u.ends, e.pending = true → e.queued = true ∨ e.outcome = .retry := by
  have h : Turning u ∧ Covered u.store u.turn u.answers := by
    refine (ht.append hu).invariant
      (I := fun s ↦ Turning s ∧ Covered s.store s.turn s.answers) ?_ (init_turning hs)
    intro v a x hv hst
    have hadvances := next_advances hv.1 hst.2
    exact ⟨hadvances.turning, hadvances.covered hst.1 hv.2⟩
  have hturning := (Run.turning ht.of_restrict (init_turning hs).1).1
  exact ⟨h.2.lines, (Run.turning hu.of_restrict hturning).2, h.1.ends⟩

def opening : BotState where
  store :=
    { chat := { (Store.opened false true false false 100 ⟨0, 1⟩).chat with
        lastSeq := 2, lastVisitorSeq := 1 }
      lines := [⟨1, .visitor, none, some 1, none, 0⟩, ⟨2, .system, some .botIntro, none, none, 0⟩]
      articles := [⟨1, true, 0⟩] }
  transactions := 0
  turn := .idle
  dedupe := true
  pushes := 1
  answers := []
  ends := []

theorem opening_init : (botTurns isolation).init opening :=
  ⟨⟨rfl, 1, 100, .inl ⟨true, false, false, none, by decide⟩⟩, rfl, rfl, rfl⟩

/-- A line that comes after the answer waits for the next turn, which the first one queues. -/
def lineAfterAnswer : List BotAction :=
  [.claimBotTurn 9 100, .prepare none, .loadArticles, .checkFreshness, .deliverBotChatReply 2,
    .execute (.postVisitorMessage none 3 110) 3, .announce, .recordAnswer, .releaseClaim, .flush]

def firstAnswered : BotState :=
  (lineAfterAnswer.foldlM (BotState.next .readCommitted) opening).getD opening

theorem answers_cover_sample :
    firstAnswered.store.chat.botAnsweredSeq = 1 ∧ firstAnswered.ends = [⟨.replied, true, true⟩] ∧
      ∀ l ∈ firstAnswered.store.lines, l.sender = .visitor → l.seq ≤ 1 →
        ∃ answer ∈ firstAnswered.answers, l.seq < answer.seq ∧
          ∃ a ∈ l.articleId, a ∈ answer.articles.map (·.id) := by
  have hrun : ((botTurns .readCommitted).restrict LoadedAll).Run opening lineAfterAnswer
      firstAnswered := Machine.run_of_foldlM lineAfterAnswer (by decide +kernel)
  have hanswered : firstAnswered.store.chat.botAnsweredSeq = 1 := by decide +kernel
  have h := answers_cover opening_init (.nil opening) hrun
  rw [hanswered] at h
  exact ⟨hanswered, by decide +kernel, h.1⟩

/-- A line that comes between the freshness check and the answer counts as answered. -/
def lineBeforeAnswer : List BotAction :=
  [.claimBotTurn 9 100, .prepare none, .loadArticles, .checkFreshness,
    .execute (.postVisitorMessage none 2 110) 2, .announce, .deliverBotChatReply 3, .recordAnswer,
    .releaseClaim, .flush]

def swallowed : BotState :=
  (lineBeforeAnswer.foldlM (BotState.next .readCommitted) opening).getD opening

theorem line_swallowed :
    ¬ ∀ (as : List BotAction) (s t : BotState), (botTurns .readCommitted).init s →
      (botTurns .readCommitted).Run s as t → t.store.chat.status = .bot →
        ∀ l ∈ t.store.lines, l.sender = .visitor → l.seq ≤ t.store.chat.botAnsweredSeq →
          ∃ answer ∈ t.answers, l.seq < answer.seq ∧
            ∃ a ∈ l.articleId, a ∈ answer.articles.map (·.id) := by
  intro h
  have hrun : ((botTurns .readCommitted).restrict fun _ _ ↦ True).Run opening lineBeforeAnswer
      swallowed := Machine.run_of_foldlM lineBeforeAnswer (by decide +kernel)
  have hline : (⟨3, .visitor, none, some 2, none, 0⟩ : Line) ∈ swallowed.store.lines := by
    decide +kernel
  have hanswers : ∀ answer ∈ swallowed.answers, 2 ∉ answer.articles.map (·.id) := by decide +kernel
  obtain ⟨answer, hanswer, -, a, ha, hmem⟩ := h _ _ _ opening_init hrun.of_restrict
    (by decide +kernel) _ hline rfl (by decide +kernel)
  cases ha
  exact hanswers answer hanswer hmem

end Tiqora.Webchat
