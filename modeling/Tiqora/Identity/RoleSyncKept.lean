import Tiqora.Identity.RoleSync

namespace Tiqora.Identity.Scim

open Foundation

variable {c : Tenants} {s t : SyncState} {w : WriteTransaction} {e : Enqueued} {k : Tick}
  {agent : Agent} {g : ℕ}

/-- The clock readings of different enqueues differ. -/
def DistinctClocks (s : SyncState) : Action → Prop
  | .enqueue _ _ clock => ∀ r ∈ s.readings, r.clock ≠ clock
  | _ => True

/-- Where the clock of one of two enqueues of an agent does not lie above the generation that the
enqueue read, their two generations still differ. -/
def LaggingApart (c : Tenants) (s : SyncState) : Action → Prop
  | .enqueue transaction _ clock =>
    ∀ w ∈ s.find transaction, ∀ r ∈ s.readings, r.agent ∈ SyncState.queued c w.write →
      clock ≤ oldGeneration w.seen r.agent ∨ r.clock ≤ r.old →
        generation (oldGeneration w.seen r.agent) clock ≠ generation r.old r.clock
  | _ => True

instance (s : SyncState) : ∀ a, Decidable (DistinctClocks s a)
  | .enqueue _ _ clock => inferInstanceAs (Decidable (∀ r ∈ s.readings, r.clock ≠ clock))
  | .write _ _ _ | .look _ | .commit _ | .rollback _ | .tick _ | .fetch | .start | .apply | .fail
  | .pushBack _ | .pushBackFails | .stop => .isTrue trivial

instance (c : Tenants) (s : SyncState) : ∀ a, Decidable (LaggingApart c s a)
  | .enqueue transaction _ clock =>
    inferInstanceAs (Decidable (∀ w ∈ s.find transaction, ∀ r ∈ s.readings,
      r.agent ∈ SyncState.queued c w.write →
        clock ≤ oldGeneration w.seen r.agent ∨ r.clock ≤ r.old →
          generation (oldGeneration w.seen r.agent) clock ≠ generation r.old r.clock))
  | .write _ _ _ | .look _ | .commit _ | .rollback _ | .tick _ | .fetch | .start | .apply | .fail
  | .pushBack _ | .pushBackFails | .stop => .isTrue trivial

def SyncState.Issued (s : SyncState) (agent : Agent) (g : ℕ) : Prop :=
  ∃ r ∈ s.readings, r.agent = agent ∧ generation r.old r.clock = g

theorem generation_new {clock now : ℕ} {transaction : ℕ}
    (hclocks : DistinctClocks s (.enqueue transaction now clock))
    (hlag : LaggingApart c s (.enqueue transaction now clock)) (hw : s.find transaction = some w)
    (hagent : agent ∈ SyncState.queued c w.write) :
    ¬ s.Issued agent (generation (oldGeneration w.seen agent) clock) := by
  rintro ⟨r, hr, rfl, hgen⟩
  by_cases hbehind : clock ≤ oldGeneration w.seen r.agent ∨ r.clock ≤ r.old
  · exact hlag w hw r hr hagent hbehind hgen.symm
  · rw [not_or, not_le, not_le] at hbehind
    rw [generation, generation, max_eq_right hbehind.2, max_eq_right hbehind.1] at hgen
    exact hclocks r hr hgen

def Job.read : Job → Agent × ℕ
  | .evaluating agent read _ | .failed agent read => (agent, read)

def Tick.reads (k : Tick) : List (Agent × ℕ) := k.todo ++ (k.job.map Job.read).toList

/-- A generation that is in the table or that the tick has read. -/
def SyncState.Known (s : SyncState) (agent : Agent) (g : ℕ) : Prop :=
  (∃ p, (agent, p) ∈ s.pending.rows ∧ p.generation = g) ∨ ∃ k ∈ s.tick, (agent, g) ∈ k.reads

/-- Every committed change of the agent was there for the evaluation. -/
structure Evaluation.Reflects (c : Tenants) (now : Snapshot) (agent : Agent) (v : Evaluation) :
    Prop where
  changes : ∀ change ∈ now.changes, change.2 = agent → change ∈ v.changes
  attributes : v.attributes = scimAttributes c.mapped now.groups agent

structure EnqueuedSafe (c : Tenants) (s : SyncState) (w : GroupWrite) (e : Enqueued) : Prop where
  covers : ∀ agent ∈ SyncState.queued c w, ∃ p, (agent, p) ∈ e.inserted
  inserted : ∀ r ∈ e.inserted, r.1 ∈ SyncState.queued c w
  deleted : ∀ d ∈ e.deleted, d.1 ∈ SyncState.queued c w
  issued : ∀ r ∈ e.inserted, s.Issued r.1 r.2.generation
  unknown : ∀ r ∈ e.inserted, ¬ s.Known r.1 r.2.generation

structure TransactionSafe (c : Tenants) (s : SyncState) (w : WriteTransaction) : Prop where
  locked : s.groups.find w.groupId = w.write.before
  enqueued : ∀ e ∈ w.enqueued, EnqueuedSafe c s w.write e

/-- Two open transactions hold different locks and insert different generations. -/
structure Apart (w w' : WriteTransaction) : Prop where
  transaction : w.transaction ≠ w'.transaction
  groupId : w.groupId ≠ w'.groupId
  generations : ∀ e ∈ w.enqueued, ∀ e' ∈ w'.enqueued, ∀ r ∈ e.inserted, ∀ r' ∈ e'.inserted,
    r.1 = r'.1 → r.2.generation ≠ r'.2.generation

theorem Apart.symm {w w' : WriteTransaction} (h : Apart w w') : Apart w' w :=
  ⟨h.transaction.symm, h.groupId.symm, fun e he e' he' r hr r' hr' heq hgen ↦
    h.generations e' he' e he r' hr' r hr heq.symm hgen.symm⟩

/-- Nobody but the worker deletes rows for good, and it deletes one only after an evaluation that
saw every change up to it. -/
structure SyncSafe (c : Tenants) (s : SyncState) : Prop where
  apart : s.transactions.Pairwise Apart
  transactions : ∀ w ∈ s.transactions, TransactionSafe c s w
  issued : ∀ agent g, s.Known agent g → s.Issued agent g
  reflected : ∀ agent, c.evaluates agent = true →
    s.pending.Has agent ∨ (s.evaluated.last agent).Reflects c s.snapshot agent
  job : ∀ k ∈ s.tick, ∀ agent read snapshot, k.job = some (.evaluating agent read snapshot) →
    c.evaluates agent = true → (∀ p, (agent, p) ∈ s.pending.rows → p.generation = read) →
      (snapshot.evaluate c agent).Reflects c s.snapshot agent

theorem TransactionSafe.frame (h : TransactionSafe c s w)
    (hlocked : t.groups.find w.groupId = s.groups.find w.groupId)
    (hissued : ∀ agent g, s.Issued agent g → t.Issued agent g)
    (hknown : ∀ e ∈ w.enqueued, ∀ r ∈ e.inserted, t.Known r.1 r.2.generation →
      s.Known r.1 r.2.generation) : TransactionSafe c t w := by
  refine ⟨hlocked.trans h.locked, fun e he ↦ ?_⟩
  obtain ⟨hcovers, hinserted, hdeleted, hissued', hunknown⟩ := h.enqueued e he
  exact ⟨hcovers, hinserted, hdeleted, fun r hr ↦ hissued _ _ (hissued' r hr),
    fun r hr hk ↦ hunknown r hr (hknown e he r hr hk)⟩

theorem mem_others {transaction : ℕ} {w' : WriteTransaction} :
    w' ∈ s.others transaction ↔ w' ∈ s.transactions ∧ w'.transaction ≠ transaction := by
  rw [SyncState.others, List.mem_filter, decide_eq_true_eq]

theorem find_spec {transaction : ℕ} (h : s.find transaction = some w) :
    w ∈ s.transactions ∧ w.transaction = transaction := by
  have hid := List.find?_some h
  rw [decide_eq_true_eq] at hid
  exact ⟨List.mem_of_find?_eq_some h, hid⟩

theorem SyncSafe.apart_others (h : SyncSafe c s) (hw : w ∈ s.transactions)
    {w' : WriteTransaction} (hw' : w' ∈ s.others w.transaction) : Apart w w' := by
  have hsymm : Std.Symm Apart := ⟨fun _ _ h ↦ h.symm⟩
  obtain ⟨hw', hne⟩ := mem_others.1 hw'
  exact h.apart.forall hw hw' fun heq ↦ hne (congrArg _ heq.symm)

theorem write_safe {transaction groupId : ℕ} {write : GroupWrite} (h : SyncSafe c s)
    (hs : s.next c (.write transaction groupId write) = some t) : SyncSafe c t := by
  rw [SyncState.next] at hs
  split at hs
  · rename_i hguard
    cases hs
    refine ⟨List.pairwise_cons.2 ⟨fun w hw ↦ ⟨?_, ?_, fun e he ↦ nomatch he⟩, h.apart⟩, ?_, h.issued,
      h.reflected, h.job⟩
    · exact (hguard.2 w hw).1.symm
    · exact (hguard.2 w hw).2.symm
    · intro w hw
      rcases List.mem_cons.1 hw with rfl | hw
      · exact ⟨hguard.1, fun e he ↦ nomatch he⟩
      · exact (h.transactions w hw).frame rfl (fun _ _ hi ↦ hi) fun _ _ _ _ hk ↦ hk
  · cases hs

/-- A transaction is replaced by what it has become. -/
theorem SyncSafe.replace {readings : List ClockReading} {w' : WriteTransaction} (h : SyncSafe c s)
    (hgrow : ∀ r ∈ s.readings, r ∈ readings)
    (hapart : ∀ v ∈ s.others w.transaction, Apart w' v)
    (hsafe : TransactionSafe c
      { s with transactions := w' :: s.others w.transaction, readings := readings } w') :
    SyncSafe c { s with transactions := w' :: s.others w.transaction, readings := readings } := by
  have hissued : ∀ agent g, s.Issued agent g → ∃ r ∈ readings, r.agent = agent ∧
      generation r.old r.clock = g := by
    rintro agent g ⟨r, hr, heq⟩
    exact ⟨r, hgrow r hr, heq⟩
  refine ⟨List.pairwise_cons.2 ⟨hapart, h.apart.filter _⟩, fun v hv ↦ ?_,
    fun a g hk ↦ hissued a g (h.issued a g hk), h.reflected, h.job⟩
  rcases List.mem_cons.1 hv with rfl | hv
  · exact hsafe
  · exact (h.transactions v (mem_others.1 hv).1).frame rfl hissued fun _ _ _ _ hk ↦ hk

theorem look_safe {transaction : ℕ} (h : SyncSafe c s)
    (hs : s.next c (.look transaction) = some t) : SyncSafe c t := by
  obtain ⟨w, hfind, rfl⟩ := Option.map_eq_some_iff.1 hs
  obtain ⟨hw, rfl⟩ := find_spec hfind
  refine h.replace (fun _ hr ↦ hr) (fun v hv ↦ ?_) ?_
  · obtain ⟨htransaction, hgroup, hgens⟩ := h.apart_others hw hv
    exact ⟨htransaction, hgroup, hgens⟩
  · obtain ⟨hlocked, henqueued⟩ := h.transactions w hw
    refine ⟨hlocked, fun e he ↦ ?_⟩
    obtain ⟨hcovers, hinserted, hdeleted, hissued, hunknown⟩ := henqueued e he
    exact ⟨hcovers, hinserted, hdeleted, hissued, hunknown⟩

theorem mem_enqueueRoleSync {seen : PendingQueue} {agents : List Agent} {now clock : ℕ}
    {r : PendingRow} : r ∈ enqueueRoleSync seen agents now clock ↔
      r.1 ∈ agents ∧ r.2 = ⟨now, generation (oldGeneration seen r.1) clock⟩ := by
  rw [enqueueRoleSync, List.mem_map]
  constructor
  · rintro ⟨agent, hagent, rfl⟩
    exact ⟨List.mem_dedup.1 hagent, rfl⟩
  · rintro ⟨hagent, heq⟩
    exact ⟨r.1, List.mem_dedup.2 hagent, by rw [← heq]⟩

theorem enqueue_safe {transaction now clock : ℕ} (h : SyncSafe c s)
    (hclocks : DistinctClocks s (.enqueue transaction now clock))
    (hlag : LaggingApart c s (.enqueue transaction now clock))
    (hs : s.next c (.enqueue transaction now clock) = some t) : SyncSafe c t := by
  obtain ⟨w, hfind, hs⟩ := Option.bind_eq_some_iff.1 hs
  split at hs
  · cases hs
    obtain ⟨hw, rfl⟩ := find_spec hfind
    have hnew : ∀ r ∈ enqueueRoleSync w.seen (SyncState.queued c w.write) now clock,
        ¬ s.Issued r.1 r.2.generation := by
      intro r hr
      obtain ⟨hagent, heq⟩ := mem_enqueueRoleSync.1 hr
      rw [heq]
      exact generation_new hclocks hlag hfind hagent
    refine h.replace (fun r hr ↦ List.mem_append_right _ hr) (fun v hv ↦ ?_) ?_
    · obtain ⟨htransaction, hgroup, -⟩ := h.apart_others hw hv
      refine ⟨htransaction, hgroup, fun e he e' he' r hr r' hr' heq hgen ↦ ?_⟩
      cases he
      have hissued := ((h.transactions v (mem_others.1 hv).1).enqueued e' he').issued r' hr'
      rw [← heq, ← hgen] at hissued
      exact hnew r hr hissued
    · refine ⟨(h.transactions w hw).locked, fun e he ↦ ?_⟩
      cases he
      refine ⟨fun agent hagent ↦ ⟨⟨now, generation (oldGeneration w.seen agent) clock⟩,
          mem_enqueueRoleSync.2 ⟨hagent, rfl⟩⟩,
        fun r hr ↦ (mem_enqueueRoleSync.1 hr).1, fun d hd ↦ ?_, fun r hr ↦ ?_,
        fun r hr hk ↦ hnew r hr (h.issued _ _ hk)⟩
      · obtain ⟨r, hr, rfl⟩ := List.mem_map.1 hd
        exact of_decide_eq_true (List.mem_filter.1 hr).2
      · obtain ⟨hagent, heq⟩ := mem_enqueueRoleSync.1 hr
        refine ⟨⟨r.1, oldGeneration w.seen r.1, clock⟩,
          List.mem_append_left _ (List.mem_map.2 ⟨_, hagent, rfl⟩), rfl, ?_⟩
        rw [heq]
  · cases hs

theorem rollback_safe {transaction : ℕ} (h : SyncSafe c s) :
    SyncSafe c { s with transactions := s.others transaction } := by
  refine ⟨h.apart.filter _, fun v hv ↦ ?_, h.issued, h.reflected, h.job⟩
  exact (h.transactions v (mem_others.1 hv).1).frame rfl (fun _ _ hi ↦ hi) fun _ _ _ _ hk ↦ hk

theorem mem_commit {pending : PendingQueue} {p : PendingSync}
    (hp : (s.pending.delete fun r ↦ (r.1, r.2.generation) ∈ e.deleted).insert e.inserted =
      some pending) :
    (agent, p) ∈ pending.rows ↔
      ((agent, p) ∈ s.pending.rows ∧ (agent, p.generation) ∉ e.deleted) ∨
        (agent, p) ∈ e.inserted := by
  rw [Table.rows_of_insert hp, List.mem_append, Table.mem_delete, decide_eq_false_iff_not]

theorem commit_safe {transaction : ℕ} (h : SyncSafe c s)
    (hs : s.next c (.commit transaction) = some t) : SyncSafe c t := by
  obtain ⟨w, hfind, hs⟩ := Option.bind_eq_some_iff.1 hs
  obtain ⟨e, he, hs⟩ := Option.bind_eq_some_iff.1 hs
  obtain ⟨pending, hp, rfl⟩ := Option.map_eq_some_iff.1 hs
  obtain ⟨hw, rfl⟩ := find_spec hfind
  obtain ⟨hcovers, hinserted, hdeleted, hissued, hunknown⟩ := (h.transactions w hw).enqueued e he
  have hlocked := (h.transactions w hw).locked
  have hqueued : ∀ a ∈ SyncState.queued c w.write, a ∈ w.write.agents := by
    intro a ha
    rw [SyncState.queued] at ha
    split at ha
    · exact ha
    · cases ha
  -- an agent that the write does not touch keeps its row and what it reflects
  have hrow : ∀ a p, a ∉ w.write.agents → ((a, p) ∈ pending.rows ↔ (a, p) ∈ s.pending.rows) := by
    intro a p ha
    rw [mem_commit hp]
    refine ⟨fun hr ↦ hr.elim And.left fun hr ↦ absurd (hqueued _ (hinserted _ hr)) ha,
      fun hr ↦ .inl ⟨hr, fun hd ↦ ha (hqueued _ (hdeleted _ hd))⟩⟩
  have hreflects : ∀ a (v : Evaluation), a ∉ w.write.agents → v.Reflects c s.snapshot a →
      v.Reflects c ⟨s.groups.set w.groupId w.write.after,
        (w.write.agents.map fun agent ↦ (w.transaction, agent)) ++ s.changes⟩ a := by
    rintro a v ha ⟨hchanges, hattributes⟩
    refine ⟨fun change hch heq ↦ ?_, hattributes.trans (attributes_unaffected hlocked ha).symm⟩
    rcases List.mem_append.1 hch with hch | hch
    · obtain ⟨b, hb, rfl⟩ := List.mem_map.1 hch
      exact absurd (heq ▸ hb) ha
    · exact hchanges change hch heq
  -- an agent that it touches has a row with a new generation
  have htouched : ∀ a ∈ w.write.agents, c.evaluates a = true → ∃ p, (a, p) ∈ e.inserted := by
    intro a ha hc
    refine hcovers a ?_
    rw [SyncState.queued, if_pos]
    · exact ha
    · rw [← (mem_agents.1 ha).1]
      simp only [Tenants.evaluates, Bool.and_eq_true] at hc
      exact hc.1.2
  have hknown : ∀ a g, SyncState.Known { s with pending } a g → s.Known a g ∨
      ∃ p, (a, p) ∈ e.inserted ∧ p.generation = g := by
    rintro a g (⟨p, hp', hg⟩ | hread)
    · rcases (mem_commit hp).1 hp' with ⟨hr, -⟩ | hr
      · exact .inl (.inl ⟨p, hr, hg⟩)
      · exact .inr ⟨p, hr, hg⟩
    · exact .inl (.inr hread)
  refine ⟨h.apart.filter _, fun v hv ↦ ?_, fun a g hk ↦ ?_, fun a ha ↦ ?_,
    fun k hk a read snapshot hj ha hall ↦ ?_⟩
  · have hapart := h.apart_others hw hv
    refine (h.transactions v (mem_others.1 hv).1).frame ?_ (fun _ _ hi ↦ hi) ?_
    · exact Table.find_set_of_ne hapart.groupId.symm
    · intro e' he' r hr hk
      rcases hknown _ _ hk with hk | ⟨p, hp', hg⟩
      · exact hk
      · exact absurd hg (hapart.generations e he e' he' _ hp' r hr rfl)
  · rcases hknown _ _ hk with hk | ⟨p, hp', rfl⟩
    · exact h.issued a g hk
    · exact hissued _ hp'
  · by_cases hin : a ∈ w.write.agents
    · obtain ⟨p, hp'⟩ := htouched a hin ha
      exact .inl ⟨p, (mem_commit hp).2 (.inr hp')⟩
    · refine (h.reflected a ha).imp ?_ (hreflects a _ hin)
      rintro ⟨p, hp'⟩
      exact ⟨p, (hrow a p hin).2 hp'⟩
  · by_cases hin : a ∈ w.write.agents
    · obtain ⟨p, hp'⟩ := htouched a hin ha
      have hg := hall p ((mem_commit hp).2 (.inr hp'))
      refine absurd (.inr ⟨k, hk, ?_⟩) (hunknown _ hp')
      rw [hg]
      refine List.mem_append_right _ ?_
      rw [hj]
      exact List.mem_singleton.2 rfl
    · exact hreflects a _ hin (h.job k hk a read snapshot hj ha fun p hp' ↦
        hall p ((hrow a p hin).2 hp'))

/-- The worker touches neither the groups nor the open transactions. -/
theorem SyncSafe.worker {pending : PendingQueue} {tick : Option Tick}
    {evaluated : Evaluations} (h : SyncSafe c s)
    (hknown : ∀ a g, SyncState.Known { s with pending, tick } a g → s.Known a g)
    (hreflected : ∀ a, c.evaluates a = true →
      pending.Has a ∨ (evaluated.last a).Reflects c s.snapshot a)
    (hjob : ∀ k ∈ tick, ∀ a read snapshot, k.job = some (.evaluating a read snapshot) →
      c.evaluates a = true → (∀ p, (a, p) ∈ pending.rows → p.generation = read) →
        (snapshot.evaluate c a).Reflects c s.snapshot a) :
    SyncSafe c { s with pending, tick, evaluated } :=
  ⟨h.apart, fun w hw ↦ (h.transactions w hw).frame rfl (fun _ _ hi ↦ hi) fun _ _ _ _ hk ↦
    hknown _ _ hk, fun a g hk ↦ h.issued a g (hknown a g hk), hreflected, hjob⟩

/-- A tick that forgets some of what it has read, with no evaluation under way. -/
theorem SyncSafe.idle {tick : Option Tick} (h : SyncSafe c s)
    (hreads : ∀ k ∈ tick, ∀ r ∈ k.reads, s.Known r.1 r.2)
    (hjob : ∀ k ∈ tick, ∀ a read snapshot, k.job ≠ some (.evaluating a read snapshot)) :
    SyncSafe c { s with tick } := by
  refine h.worker (fun a g hk ↦ ?_) h.reflected fun k hk a read snapshot hj ↦
    absurd hj (hjob k hk a read snapshot)
  rcases hk with hrow | ⟨k, hk, hread⟩
  · exact .inl hrow
  · exact hreads k hk _ hread

theorem mem_fetchPending {T : PendingQueue} {batch : ℕ} {seen : List Agent} {r : Agent × ℕ}
    (h : r ∈ fetchPending T batch seen) : ∃ p, (r.1, p) ∈ T.rows ∧ p.generation = r.2 := by
  obtain ⟨row, hrow, rfl⟩ := List.mem_map.1 h
  have hrow := (List.mem_filter.1 (List.mem_of_mem_take hrow)).1
  exact ⟨row.2, (List.mem_insertionSort _).1 (List.mem_of_mem_take hrow), rfl⟩

theorem fetch_safe (h : SyncSafe c s) (hs : s.nextTick c k .fetch = some t) : SyncSafe c t := by
  rw [SyncState.nextTick] at hs
  split at hs
  · rename_i hidle
    split at hs
    · cases hs
      exact h.idle (fun _ hk ↦ nomatch hk) fun _ hk ↦ nomatch hk
    · cases hs
      refine h.idle (fun k' hk' r hr ↦ ?_) fun k' hk' a read snapshot hj ↦ ?_
      · cases hk'
        rcases List.mem_append.1 hr with hr | hr
        · exact .inl (mem_fetchPending hr)
        · rw [hidle.2] at hr
          cases hr
      · cases hk'
        rw [hidle.2] at hj
        cases hj
  · cases hs

theorem start_safe (h : SyncSafe c s) (hk : s.tick = some k)
    (hs : s.nextTick c k .start = some t) : SyncSafe c t := by
  rw [SyncState.nextTick] at hs
  split at hs
  · rename_i agent read todo hjob htodo
    cases hs
    refine h.worker (fun a g hknown ↦ ?_) h.reflected fun k' hk' a read' snapshot hj _ _ ↦ ?_
    · rcases hknown with hrow | ⟨k', hk', hread⟩
      · exact .inl hrow
      · cases hk'
        refine .inr ⟨k, hk, List.mem_append_left _ ?_⟩
        rw [htodo]
        rcases List.mem_append.1 hread with hread | hread
        · exact List.mem_cons_of_mem _ hread
        · rw [List.mem_singleton.1 hread]
          exact List.mem_cons_self
    · cases hk'
      cases hj
      exact ⟨fun _ hch _ ↦ hch, rfl⟩
  · cases hs

theorem last_record {evaluated : Evaluations} {snapshot : Snapshot} {a : Agent}
    (ha : c.evaluates a = true) :
    (evaluated.record c agent snapshot).last a =
      if a = agent then snapshot.evaluate c a else evaluated.last a := by
  rw [Evaluations.record]
  by_cases heq : a = agent
  · subst heq
    rw [if_pos ha, if_pos rfl, Evaluations.last, List.find?_cons, decide_eq_true rfl]
    rfl
  · rw [if_neg heq]
    split
    · rw [Evaluations.last, List.find?_cons, decide_eq_false (Ne.symm heq)]
      rfl
    · rfl

theorem mem_deletePending {T : PendingQueue} {a : Agent} {p : PendingSync} :
    (a, p) ∈ (deletePending T agent g).rows ↔
      (a, p) ∈ T.rows ∧ ¬(a = agent ∧ p.generation = g) := by
  rw [deletePending, Table.mem_delete, PendingRow.isRead, decide_eq_false_iff_not]

theorem Tick.reads_done {todo : List (Agent × ℕ)} {r : Agent × ℕ}
    (h : r ∈ ({ k with todo, job := none } : Tick).reads) : r ∈ todo :=
  (List.mem_append.1 h).elim id fun h ↦ nomatch h

theorem apply_safe (h : SyncSafe c s) (hk : s.tick = some k)
    (hs : s.nextTick c k .apply = some t) : SyncSafe c t := by
  rw [SyncState.nextTick] at hs
  split at hs
  · rename_i agent read snapshot hjob
    cases hs
    refine h.worker (fun a g hknown ↦ ?_) (fun a ha ↦ ?_) fun k' hk' a read' snapshot' hj ↦ ?_
    · rcases hknown with ⟨p, hp, hg⟩ | ⟨k', hk', hread⟩
      · exact .inl ⟨p, (mem_deletePending.1 hp).1, hg⟩
      · cases hk'
        exact .inr ⟨k, hk, List.mem_append_left _ (Tick.reads_done hread)⟩
    · rw [last_record ha]
      by_cases heq : a = agent
      · subst heq
        rw [if_pos rfl]
        by_cases hall : ∀ p, (a, p) ∈ s.pending.rows → p.generation = read
        · exact .inr (h.job k hk a read snapshot hjob ha hall)
        · -- an enqueue came in between, and its row stays
          simp only [not_forall] at hall
          obtain ⟨p, hp, hg⟩ := hall
          exact .inl ⟨p, mem_deletePending.2 ⟨hp, fun h ↦ hg h.2⟩⟩
      · rw [if_neg heq]
        refine (h.reflected a ha).imp_left ?_
        rintro ⟨p, hp⟩
        exact ⟨p, mem_deletePending.2 ⟨hp, fun h ↦ heq h.1⟩⟩
    · cases hk'
      cases hj
  · cases hs

theorem fail_safe (h : SyncSafe c s) (hk : s.tick = some k)
    (hs : s.nextTick c k .fail = some t) : SyncSafe c t := by
  rw [SyncState.nextTick] at hs
  split at hs
  · rename_i agent read snapshot hjob
    cases hs
    refine h.idle (fun k' hk' r hr ↦ ?_) fun k' hk' a read snapshot hj ↦ ?_
    · cases hk'
      refine .inr ⟨k, hk, ?_⟩
      rw [Tick.reads, hjob]
      exact hr
    · cases hk'
      cases hj
  · cases hs

theorem mem_pushBack {T : PendingQueue} {now : ℕ} {a : Agent} {p : PendingSync}
    (h : (a, p) ∈ (pushBack T agent g now).rows) :
    ∃ p', (a, p') ∈ T.rows ∧ p'.generation = p.generation := by
  obtain ⟨p', hp', rfl⟩ := Table.mem_update.1 h
  refine ⟨p', hp', ?_⟩
  split <;> rfl

theorem pushBack_safe {now : ℕ} (h : SyncSafe c s) (hk : s.tick = some k)
    (hs : s.nextTick c k (.pushBack now) = some t) : SyncSafe c t := by
  rw [SyncState.nextTick] at hs
  split at hs
  · rename_i agent read hjob
    cases hs
    refine h.worker (fun a g hknown ↦ ?_) (fun a ha ↦ ?_) fun k' hk' a read' snapshot' hj ↦ ?_
    · rcases hknown with ⟨p, hp, hg⟩ | ⟨k', hk', hread⟩
      · obtain ⟨p', hp', hg'⟩ := mem_pushBack hp
        exact .inl ⟨p', hp', hg'.trans hg⟩
      · cases hk'
        exact .inr ⟨k, hk, List.mem_append_left _ (Tick.reads_done hread)⟩
    · refine (h.reflected a ha).imp_left ?_
      rintro ⟨p, hp⟩
      exact ⟨_, Table.mem_update.2 ⟨p, hp, rfl⟩⟩
    · cases hk'
      cases hj
  · cases hs

theorem pushBackFails_safe (h : SyncSafe c s) (hk : s.tick = some k)
    (hs : s.nextTick c k .pushBackFails = some t) : SyncSafe c t := by
  rw [SyncState.nextTick] at hs
  split at hs
  · cases hs
    refine h.idle (fun k' hk' r hr ↦ ?_) fun k' hk' a read snapshot hj ↦ ?_
    · cases hk'
      exact .inr ⟨k, hk, List.mem_append_left _ (Tick.reads_done hr)⟩
    · cases hk'
      cases hj
  · cases hs

theorem tick_safe {a : Action} (h : SyncSafe c s)
    (hs : (s.tick.bind fun k ↦ s.nextTick c k a) = some t) : SyncSafe c t := by
  obtain ⟨k, hk, hs⟩ := Option.bind_eq_some_iff.1 hs
  cases a with
  | fetch => exact fetch_safe h hs
  | start => exact start_safe h hk hs
  | apply => exact apply_safe h hk hs
  | fail => exact fail_safe h hk hs
  | pushBack now => exact pushBack_safe h hk hs
  | pushBackFails => exact pushBackFails_safe h hk hs
  | _ => cases hs

theorem sync_step_safe {a : Action} (h : SyncSafe c s) (hclocks : DistinctClocks s a)
    (hlag : LaggingApart c s a) (hs : s.next c a = some t) : SyncSafe c t := by
  cases a with
  | write transaction groupId write => exact write_safe h hs
  | look transaction => exact look_safe h hs
  | enqueue transaction now clock => exact enqueue_safe h hclocks hlag hs
  | commit transaction => exact commit_safe h hs
  | rollback transaction =>
    cases hs
    exact rollback_safe h
  | tick batch =>
    rw [SyncState.next] at hs
    split at hs
    · cases hs
      refine h.idle (fun k hk r hr ↦ ?_) fun k hk a read snapshot hj ↦ ?_
      · cases hk
        cases hr
      · cases hk
        cases hj
    · cases hs
  | stop =>
    cases hs
    exact h.idle (fun _ hk ↦ nomatch hk) fun _ hk ↦ nomatch hk
  | fetch | start | apply | fail | pushBack | pushBackFails => exact tick_safe h hs

theorem init_safe (hs : (roleSyncMachine c).init s) : SyncSafe c s := by
  cases hs
  refine ⟨.nil, fun w hw ↦ ?_, fun a g hk ↦ ?_, fun a _ ↦ .inr ⟨fun _ hch ↦ ?_, ?_⟩,
    fun k hk ↦ ?_⟩
  · cases hw
  · rcases hk with ⟨p, hp, -⟩ | ⟨k, hk, -⟩
    · cases hp
    · cases hk
  · cases hch
  · rw [scimAttributes]
    split <;> rfl
  · cases hk

/-- A committed change that the last evaluation of its agent did not see has a pending row, and the
row that the worker is about to delete stands for no change outside its snapshot. -/
theorem changes_reach_evaluation {as : List Action} (hs : (roleSyncMachine c).init s)
    (hr : ((roleSyncMachine c).restrict fun s a ↦
      DistinctClocks s a ∧ LaggingApart c s a).Run s as t) (agent : Agent)
    (hagent : c.evaluates agent = true) :
    (t.pending.Has agent ∨ (t.evaluated.last agent).Reflects c t.snapshot agent) ∧
      ∀ k ∈ t.tick, ∀ read snapshot, k.job = some (.evaluating agent read snapshot) →
        ∀ p, (agent, p) ∈ t.pending.rows → p.generation = read →
          (snapshot.evaluate c agent).Reflects c t.snapshot agent := by
  have hI : ∀ s a t, SyncSafe c s → ((roleSyncMachine c).restrict fun s a ↦
      DistinctClocks s a ∧ LaggingApart c s a).step s a t → SyncSafe c t :=
    fun _ _ _ h hst ↦ sync_step_safe h hst.1.1 hst.1.2 hst.2
  have h := hr.invariant hI (init_safe hs)
  refine ⟨h.reflected agent hagent, fun k hk read snapshot hj p hp hg ↦ ?_⟩
  refine h.job k hk agent read snapshot hj hagent fun p' hp' ↦ ?_
  rw [t.pending.value_unique hp' hp, hg]

def allValid : Tenants := ⟨fun _ ↦ true, fun _ ↦ true, fun _ ↦ true, fun _ ↦ true⟩

def emptySync : SyncState := ⟨.empty, .empty, [], [], none, [], []⟩

def support : Document := ⟨"Support", none, [9]⟩

def supportGroup : Groups := Table.empty.set 5 (some { support with providerId := 1 })

def supportSynced : List Action :=
  [.write 1 5 (.create 1 support), .look 1, .enqueue 1 0 99, .commit 1, .tick 200, .fetch, .start,
    .apply, .fetch]

def syncedState : SyncState :=
  ⟨supportGroup, .empty, [(1, 1, 9)], [], none, [((1, 9), ⟨⟨["Support"], []⟩, [(1, 1, 9)]⟩)],
    [⟨(1, 9), 0, 99⟩]⟩

theorem changes_reach_evaluation_sample : syncedState.pending.Has (1, 9) ∨
    (syncedState.evaluated.last (1, 9)).Reflects allValid syncedState.snapshot (1, 9) :=
  (changes_reach_evaluation (c := allValid) (s := emptySync) rfl
    (Machine.run_of_foldlM supportSynced (by decide +kernel)) (1, 9) (by decide)).1

/-- Transaction 3 has read generation 99, and its clock is behind it. -/
def laggingClock : List Action :=
  [.write 1 5 (.create 1 support), .look 1, .enqueue 1 0 99, .commit 1,
    .write 2 6 (.create 1 support), .look 2, .write 3 7 (.create 1 ⟨"Sales", none, [9]⟩), .look 3,
    .enqueue 2 0 100, .commit 2, .tick 200, .fetch, .start, .enqueue 3 0 98, .commit 3, .apply]

def laggingState : SyncState :=
  ⟨(supportGroup.set 6 (some { support with providerId := 1 })).set 7
      (some ⟨⟨"Sales", none, [9]⟩, 1⟩), .empty, [(3, 1, 9), (2, 1, 9), (1, 1, 9)], [],
    some ⟨200, [(1, 9)], [], none⟩, [((1, 9), ⟨⟨["Support"], []⟩, [(2, 1, 9), (1, 1, 9)]⟩)],
    [⟨(1, 9), 99, 98⟩, ⟨(1, 9), 99, 100⟩, ⟨(1, 9), 0, 99⟩]⟩

theorem lagging_change_lost :
    ¬ ∀ c as s t, (roleSyncMachine c).init s →
      ((roleSyncMachine c).restrict DistinctClocks).Run s as t →
        ∀ agent, c.evaluates agent = true →
          t.pending.Has agent ∨ (t.evaluated.last agent).Reflects c t.snapshot agent := by
  intro h
  have hrun : ((roleSyncMachine allValid).restrict DistinctClocks).Run emptySync laggingClock
      laggingState := Machine.run_of_foldlM _ (by decide +kernel)
  rcases h allValid _ _ _ rfl hrun (1, 9) (by decide) with ⟨p, hp⟩ | hreflects
  · cases hp
  · have hmem := hreflects.changes (3, 1, 9) (by decide) rfl
    revert hmem
    decide

end Tiqora.Identity.Scim
