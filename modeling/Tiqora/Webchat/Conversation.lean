import Tiqora.Webchat.TranscriptKept

namespace Tiqora.Webchat

open Foundation

/-- One session under transactions that hold its row: what is committed, and what the holder of
the row has written. -/
structure ChatState where
  store : Store
  work : Option Store
  transactions : ℕ
  deriving DecidableEq

inductive ChatAction
  | execute (op : Op) (articleId : ℕ)
  | commit
  | rollback
  deriving DecidableEq

/-- A refusal rolls the transaction back; the server gives no article id twice. -/
def ChatState.next (s : ChatState) : ChatAction → Option ChatState
  | .execute op articleId =>
    if s.work = none ∧ ∀ a ∈ s.store.articles, a.id ≠ articleId then
      match op.run s.store ⟨s.transactions + 1, articleId⟩ with
      | .ok d => some { s with work := some d, transactions := s.transactions + 1 }
      | .error _ => some { s with transactions := s.transactions + 1 }
    else none
  | .commit => s.work.map fun d ↦ { s with store := d, work := none }
  | .rollback => s.work.map fun _ ↦ { s with work := none }

/-- The session as `create_session` or the offline form commits it. -/
def Created (s : ChatState) : Prop :=
  s.work = none ∧ ∃ (articleId now : ℕ),
    (∃ bot hasEmail identified clientId,
      Store.createSession bot hasEmail identified clientId now ⟨s.transactions, articleId⟩ =
        .ok s.store) ∨
    s.store = Store.submitOffline now ⟨s.transactions, articleId⟩

def chats : Machine ChatState ChatAction := .ofNext Created ChatState.next

/-- What the stored transcript is at any time. -/
structure Transcript (d : Store) : Prop where
  ended : d.chat.status.live = false → d.chat.endedAt.isSome ∧ d.chat.endReason.isSome
  seqs : d.lines.map (·.seq) = List.range' 1 d.chat.lastSeq
  article : ∀ l ∈ d.lines, l.sender ≠ .system → ∃! a, a ∈ d.articles ∧ l.ofArticle a
  apart : ∀ l ∈ d.lines, ∀ l' ∈ d.lines, l.articleId.isSome → l.articleId = l'.articleId → l = l'
  clientIds : ∀ l ∈ d.lines, ∀ l' ∈ d.lines, l.clientId.isSome → l.clientId = l'.clientId → l = l'
  lastVisitor : d.chat.lastVisitorSeq = visitorTop d.lines

/-- Lines come at the end, and nothing follows a final status. -/
structure Extends (d d' : Store) : Prop where
  lines : d.lines <+: d'.lines
  final : d.chat.status.live = false → d'.chat.status = d.chat.status ∧
    d'.chat.endReason = d.chat.endReason ∧ d'.chat.endedAt = d.chat.endedAt ∧ d'.lines = d.lines

variable {d d' d'' : Store} {s t u : ChatState} {w : Write}

theorem filterMap_unique {α β : Type} {f : α → Option β} {xs : List α}
    (h : (xs.filterMap f).Nodup) {x y : α} (hx : x ∈ xs) (hy : y ∈ xs) (hsome : (f x).isSome)
    (heq : f x = f y) : x = y := by
  induction xs with
  | nil => cases hx
  | cons z zs ih =>
    obtain ⟨b, hb⟩ := Option.isSome_iff_exists.1 hsome
    have hnot : ∀ v ∈ zs, f z = some b → f v ≠ some b := by
      intro v hv hz hfv
      rw [List.filterMap_cons_some hz] at h
      exact (List.nodup_cons.1 h).1 (List.mem_filterMap.2 ⟨v, hv, hfv⟩)
    have htail : (zs.filterMap f).Nodup := by
      cases hz : f z with
      | none => rwa [List.filterMap_cons_none hz] at h
      | some c =>
        rw [List.filterMap_cons_some hz] at h
        exact (List.nodup_cons.1 h).2
    rcases List.mem_cons.1 hx with rfl | hx
    · rcases List.mem_cons.1 hy with rfl | hy
      · rfl
      · exact absurd (heq.symm.trans hb) (hnot y hy hb)
    · rcases List.mem_cons.1 hy with hy | hy
      · rw [hy] at heq
        exact absurd hb (hnot x hx (heq.symm.trans hb))
      · exact ih htail hx hy

theorem Sound.transcript (h : Sound d) : Transcript d := by
  refine ⟨fun hl ↦ (h.ended hl).symm, h.seqs, fun l hl hs ↦ ?_,
    fun l hl l' hl' ↦ filterMap_unique h.own hl hl',
    fun l hl l' hl' ↦ filterMap_unique h.clientIds hl hl', h.lastVisitor⟩
  obtain ⟨a, ha, hof⟩ := h.stored l hl hs
  refine ⟨a, ⟨ha, hof⟩, fun b hb ↦ ?_⟩
  have hid : b.id = a.id := Option.some.inj (hb.2.1.symm.trans hof.1)
  exact List.inj_on_of_nodup_map h.articles hb.1 ha hid

theorem Kept.extends_store (h : Kept d.chat.status d d') : Extends d d' := by
  obtain ⟨new, hnew, hmay⟩ := h.lines
  refine ⟨⟨new, hnew.symm⟩, fun hfinal ↦ ?_⟩
  obtain ⟨hstatus, hreason, hat⟩ := h.closed hfinal
  refine ⟨hstatus, hreason, hat, ?_⟩
  have hnil : new = [] := by
    refine List.eq_nil_iff_forall_not_mem.2 fun l hl ↦ ?_
    rw [(hmay l hl).live] at hfinal
    cases hfinal
  rw [hnew, hnil, List.append_nil]

theorem Extends.refl (d : Store) : Extends d d :=
  ⟨List.prefix_refl _, fun _ ↦ ⟨rfl, rfl, rfl, rfl⟩⟩

theorem Extends.trans (h : Extends d d') (h' : Extends d' d'') : Extends d d'' := by
  refine ⟨h.lines.trans h'.lines, fun hfinal ↦ ?_⟩
  obtain ⟨hs, hr, ha, hl⟩ := h.final hfinal
  rw [← hs] at hfinal
  obtain ⟨hs', hr', ha', hl'⟩ := h'.final hfinal
  exact ⟨hs'.trans hs, hr'.trans hr, ha'.trans ha, hl'.trans hl⟩

theorem opened_sound {offline bot hasEmail identified : Bool} {now : ℕ} :
    Sound (Store.opened offline bot hasEmail identified now w) := by
  refine ⟨⟨rfl, List.nodup_singleton _, nofun, nofun, List.nodup_nil, List.nodup_nil⟩, ?_, rfl⟩
  intro hlive
  cases offline with
  | true => exact ⟨rfl, rfl⟩
  | false =>
    cases bot with
    | true => cases hlive
    | false => cases hlive

theorem createSession_sound {bot hasEmail identified : Bool} {clientId : Option ℕ} {now : ℕ}
    (h : Store.createSession bot hasEmail identified clientId now w = .ok d) :
    Sound d ∧ d.chat.purgedAt = none ∧ d.chat.botAnsweredSeq = 0 := by
  rw [Store.createSession] at h
  obtain ⟨d₁, hins, h⟩ := bind_eq_ok.1 h
  have hopen : Sound (Store.opened false bot hasEmail identified now w) := opened_sound
  have hsender : Sender.visitor ≠ .system := nofun
  have hrec := hopen.toRecorded.insertMessage
    (by exact ⟨hsender, List.not_mem_nil, true, List.mem_singleton.2 rfl⟩) hins
  obtain ⟨-, heq⟩ := insertMessage_eq_ok hins
  have hstatus : d₁.chat.status.live = true := by
    rw [heq]
    cases bot with
    | true => rfl
    | false => rfl
  have hseq : d₁.chat.lastSeq = visitorTop d₁.lines := by
    rw [heq]
    rfl
  have hsound : Sound { d₁ with chat := { d₁.chat with lastVisitorSeq := d₁.chat.lastSeq } } := by
    refine ⟨⟨hrec.seqs, hrec.articles, hrec.stored, hrec.system, hrec.own, hrec.clientIds⟩, ?_, hseq⟩
    intro hfinal
    rw [hstatus] at hfinal
    cases hfinal
  have hrow : d₁.chat.purgedAt = none ∧ d₁.chat.botAnsweredSeq = 0 := by
    rw [heq]
    exact ⟨rfl, rfl⟩
  split at h
  · have hkept := addSystemMessage_kept hsound hstatus h
    exact ⟨hkept.sound, hkept.purged.trans hrow.1, hkept.answered.trans hrow.2⟩
  · cases h
    exact ⟨hsound, hrow⟩

/-- What holds of the committed session and of the holder's work, as long as there is no purge. -/
structure Conversing (s : ChatState) : Prop where
  sound : s.store.chat.purgedAt = none → Sound s.store
  erased : s.store.chat.purgedAt ≠ none → s.store.lines = []
  work : ∀ d ∈ s.work, s.store.chat.purgedAt = none ∧ Kept s.store.chat.status s.store d ∨
    d.chat.purgedAt ≠ none ∧ d.lines = []

theorem created_sound (h : Created s) :
    Sound s.store ∧ s.store.chat.purgedAt = none ∧ s.store.chat.botAnsweredSeq = 0 := by
  obtain ⟨-, articleId, now, hstore⟩ := h
  rcases hstore with ⟨bot, hasEmail, identified, clientId, hcreate⟩ | hoffline
  · exact createSession_sound hcreate
  · rw [hoffline]
    exact ⟨opened_sound, rfl, rfl⟩

theorem created_conversing (h : Created s) : Conversing s := by
  obtain ⟨hsound, hp, -⟩ := created_sound h
  refine ⟨fun _ ↦ hsound, fun hpurged ↦ absurd hp hpurged, fun d hd ↦ ?_⟩
  rw [h.1] at hd
  cases hd

theorem next_conversing {a : ChatAction} (h : Conversing s) (hnext : s.next a = some t) :
    Conversing t := by
  cases a with
  | execute op articleId =>
    rw [ChatState.next] at hnext
    split at hnext
    · next hfree =>
      split at hnext
      · next d hrun =>
        cases hnext
        have hfresh : Fresh s.store ⟨s.transactions + 1, articleId⟩ := hfree.2
        refine ⟨h.sound, h.erased, fun d' hd' ↦ ?_⟩
        cases hd'
        by_cases hp : s.store.chat.purgedAt = none
        · exact (Op.run_kept (h.sound hp) hfresh hrun).imp (fun hkept ↦ ⟨hp, hkept⟩)
            fun hpurged ↦ ⟨hpurged.1, hpurged.2.1⟩
        · obtain ⟨hpurged, hlines, -⟩ := Op.run_purged hrun hp
          refine .inr ⟨?_, hlines.trans (h.erased hp)⟩
          rw [hpurged]
          exact hp
      · cases hnext
        exact ⟨h.sound, h.erased, h.work⟩
    · cases hnext
  | commit =>
    rw [ChatState.next, Option.map_eq_some_iff] at hnext
    obtain ⟨d, hd, rfl⟩ := hnext
    refine ⟨fun hp ↦ ?_, fun hp ↦ ?_, fun d' hd' ↦ ?_⟩
    · rcases h.work d hd with hkept | hpurged
      · exact hkept.2.sound
      · exact absurd hp hpurged.1
    · rcases h.work d hd with ⟨hp', hkept⟩ | hpurged
      · exact absurd (hkept.purged.trans hp') hp
      · exact hpurged.2
    · cases hd'
  | rollback =>
    rw [ChatState.next, Option.map_eq_some_iff] at hnext
    obtain ⟨d, hd, rfl⟩ := hnext
    refine ⟨h.sound, h.erased, fun d' hd' ↦ ?_⟩
    cases hd'

/-- One step stores nothing, or what its holder may. -/
theorem next_kept {a : ChatAction} (h : Conversing s) (hnext : s.next a = some t)
    (hp : t.store.chat.purgedAt = none) :
    s.store.chat.purgedAt = none ∧ Kept s.store.chat.status s.store t.store := by
  cases a with
  | execute op articleId =>
    rw [ChatState.next] at hnext
    split at hnext
    · split at hnext
      · cases hnext
        exact ⟨hp, .refl (h.sound hp)⟩
      · cases hnext
        exact ⟨hp, .refl (h.sound hp)⟩
    · cases hnext
  | commit =>
    rw [ChatState.next, Option.map_eq_some_iff] at hnext
    obtain ⟨d, hd, rfl⟩ := hnext
    exact (h.work d hd).resolve_right fun hpurged ↦ hpurged.1 hp
  | rollback =>
    rw [ChatState.next, Option.map_eq_some_iff] at hnext
    obtain ⟨d, hd, rfl⟩ := hnext
    exact ⟨hp, .refl (h.sound hp)⟩

theorem Run.conversing {as : List ChatAction} (hr : chats.Run s as t) (h : Conversing s) :
    Conversing t := by
  refine hr.invariant ?_ h
  intro u a v hu hst
  exact next_conversing hu hst

theorem Run.extends_store {as : List ChatAction} (hr : chats.Run s as t) (h : Conversing s)
    (hp : t.store.chat.purgedAt = none) : Extends s.store t.store := by
  have hall := hr.relates (I := Conversing)
    (R := fun s t ↦ t.store.chat.purgedAt = none →
      s.store.chat.purgedAt = none ∧ Extends s.store t.store)
    (fun u a v hu hst ↦ next_conversing hu hst) (fun u hu ↦ ⟨hu, .refl _⟩) ?_ ?_ h
  · exact (hall hp).2
  · intro u v x huv hvx hx
    obtain ⟨hv, hext⟩ := hvx hx
    obtain ⟨hu, hext'⟩ := huv hv
    exact ⟨hu, hext'.trans hext⟩
  · intro u a v hu hst hv
    obtain ⟨hu', hkept⟩ := next_kept hu hst hv
    exact ⟨hu', hkept.extends_store⟩

/-- Up to the purge the transcript is well formed, only grows, ends for good, and takes a line of
the bot only in status `bot`, of an agent only in status `active`, of the visitor only live. -/
theorem transcript_holds {as bs : List ChatAction} (hs : chats.init s) (ht : chats.Run s as t)
    (hu : chats.Run t bs u) (hp : u.store.chat.purgedAt = none) :
    Transcript u.store ∧ Extends t.store u.store ∧
      ∀ a v, chats.step u a v → v.store.chat.purgedAt = none →
        ∃ new, v.store.lines = u.store.lines ++ new ∧
          ∀ l ∈ new, MayStore u.store.chat.status l.sender := by
  have hct : Conversing t := Run.conversing ht (created_conversing hs)
  have hcu : Conversing u := Run.conversing hu hct
  refine ⟨(hcu.sound hp).transcript, Run.extends_store hu hct hp, fun a v hst hv ↦ ?_⟩
  exact (next_kept hcu hst hv).2.lines

/-- A chat that waits with its first line. -/
def asked : ChatState where
  store :=
    { chat := { (Store.opened false false false false 100 ⟨0, 1⟩).chat with
        lastSeq := 1, lastVisitorSeq := 1 }
      lines := [⟨1, .visitor, none, some 1, some 5, 0⟩]
      articles := [⟨1, true, 0⟩] }
  work := none
  transactions := 0

/-- The visitor's retry, an answer that comes before the accept, the accept, the answer, a lost
second answer and the visitor's leave. -/
def talk : List ChatAction :=
  [.execute (.postVisitorMessage (some 5) 1 110) 2, .commit, .execute .deliverAgentChatReply 3,
    .execute (.acceptSession 7 0 3 true true 120) 4, .commit, .execute .deliverAgentChatReply 5,
    .commit, .execute .deliverAgentChatReply 6, .rollback, .execute (.endByVisitor 130) 7, .commit]

def talked : ChatState := (talk.foldlM ChatState.next asked).getD asked

theorem asked_talked : chats.Run asked talk talked := by
  have hrun : (chats.restrict fun _ _ ↦ True).Run asked talk talked :=
    Machine.run_of_foldlM talk (by decide +kernel)
  exact hrun.of_restrict

theorem transcript_holds_sample :
    talked.store.lines.map (·.sender) = [.visitor, .system, .agent, .system] ∧
      Transcript talked.store ∧ Extends asked.store talked.store := by
  have hcreated : chats.init asked := ⟨rfl, 1, 100, .inl ⟨false, false, false, some 5, by decide⟩⟩
  have h := transcript_holds hcreated (.nil asked) asked_talked (by decide +kernel)
  exact ⟨by decide +kernel, h.1, h.2.1⟩

end Tiqora.Webchat
