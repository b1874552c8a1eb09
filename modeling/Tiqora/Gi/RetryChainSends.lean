import Tiqora.Gi.RetryChain

namespace Tiqora.Gi.RetryChain

open Foundation Jobs ErrorHandling

namespace ChainState

variable {s t : ChainState}

/-- What holds of a process at work on a job. -/
structure Working (s : ChainState) (task : GiTask) (attempt : ℕ) (job : GiJob) : Prop where
  pos : 0 < attempt
  claimed : attempt ≤ job.row.attempts
  unmarked : task.sent = false → job.row.status = .running → job.row.attempts = attempt →
    job.row.checkpoint = none
  sent : task.sent = true → task.job ∈ s.sends ∧ task.job + 1 = s.jobs.length

/-- A job is sent while it is the last, and it is spent from then on. -/
structure SendsKept (s : ChainState) : Prop where
  sound : ∀ p, (s.task p).process.Sound giHandler fun _ ↦ False
  working : ∀ p worker attempt, (s.task p).process = .handling worker attempt →
    ∃ job, s.jobs[(s.task p).job]? = some job ∧ Working s (s.task p) attempt job
  alone : ∀ p q worker worker' attempt, (s.task p).process = .handling worker attempt →
    (s.task q).process = .handling worker' attempt → (s.task p).job = (s.task q).job → p = q
  sender : ∀ p q worker worker' attempt attempt',
    (s.task p).process = .handling worker attempt → (s.task q).process = .handling worker' attempt' →
    (s.task p).sent = true → (s.task q).sent = true → p = q
  spent : ∀ j job, s.jobs[j]? = some job → j ∈ s.sends ∨ j + 1 < s.jobs.length → Spent job.row
  ordered : s.sends.Pairwise (· < ·)
  bounded : ∀ j ∈ s.sends, j < s.jobs.length

theorem sendsKept_start (h : ChainStart s) : SendsKept s := by
  have hfree : ∀ p worker attempt, (s.task p).process ≠ .handling worker attempt := by
    intro p worker attempt hp
    rw [h.task p] at hp
    cases hp
  refine ⟨fun p ↦ ?_, fun p w a hp ↦ absurd hp (hfree p w a),
    fun p _ w _ a hp ↦ absurd hp (hfree p w a), fun p _ w _ a _ hp ↦ absurd hp (hfree p w a),
    fun j job _ hj ↦ ?_, ?_, fun j hj ↦ ?_⟩
  · rw [h.task p]
    trivial
  · rw [h.sends, h.jobs] at hj
    simp at hj
  · rw [h.sends]
    exact .nil
  · rw [h.sends] at hj
    cases hj

theorem Quiet.task_eq (h : Quiet s t) {p worker attempt : ℕ}
    (hp : (t.task p).process = .handling worker attempt) : t.task p = s.task p :=
  (h.task p).resolve_right fun hsettled ↦ hsettled.free worker attempt hp

theorem Quiet.job_after (h : Quiet s t) {j : ℕ} {job : GiJob} (hjob : s.jobs[j]? = some job) :
    ∃ job', t.jobs[j]? = some job' ∧ job.past = job'.past ∧ Moves job.row job'.row := by
  have hj : j < t.jobs.length := h.length ▸ (List.getElem?_eq_some_iff.1 hjob).1
  obtain ⟨a, ha, hpast, hmoves⟩ := h.jobs j _ (List.getElem?_eq_getElem hj)
  obtain rfl := Option.some.inj (ha.symm.trans hjob)
  exact ⟨_, List.getElem?_eq_getElem hj, hpast, hmoves⟩

theorem SendsKept.quiet (hs : SendsKept s) (h : Quiet s t) : SendsKept t where
  sound p := by
    rcases h.task p with heq | hsettled
    · rw [heq]
      exact hs.sound p
    · exact hsettled.sound
  working p worker attempt hp := by
    have htask := h.task_eq hp
    rw [htask] at hp ⊢
    obtain ⟨job, hjob, hw⟩ := hs.working p worker attempt hp
    obtain ⟨job', hjob', -, hmoves⟩ := h.job_after hjob
    refine ⟨job', hjob', hw.pos, hmoves.attempts ▸ hw.claimed, fun hsent hrun ha ↦ ?_, fun hsent ↦ ?_⟩
    · obtain ⟨hrun, hcheckpoint⟩ := hmoves.running hrun
      exact hcheckpoint.trans (hw.unmarked hsent hrun (hmoves.attempts ▸ ha))
    · rw [h.sends, h.length]
      exact hw.sent hsent
  alone p q worker worker' attempt hp hq hj := by
    have hpeq := h.task_eq hp
    have hqeq := h.task_eq hq
    rw [hpeq] at hp hj
    rw [hqeq] at hq hj
    exact hs.alone p q worker worker' attempt hp hq hj
  sender p q worker worker' attempt attempt' hp hq hsp hsq := by
    have hpeq := h.task_eq hp
    have hqeq := h.task_eq hq
    rw [hpeq] at hp hsp
    rw [hqeq] at hq hsq
    exact hs.sender p q worker worker' attempt attempt' hp hq hsp hsq
  spent j b hb hj := by
    obtain ⟨a, ha, -, hmoves⟩ := h.jobs j b hb
    rw [h.sends, h.length] at hj
    exact hmoves.spent (hs.spent j a ha hj)
  ordered := h.sends ▸ hs.ordered
  bounded j hj := by
    rw [h.length]
    exact hs.bounded j (h.sends ▸ hj)

/-- A step of one process: what is left to show of it, and of the others. -/
theorem SendsKept.of_turn (hs : SendsKept s) {p : ℕ} {task : GiTask}
    (ht : t.task = Function.update s.task p task)
    (hsound : task.process.Sound giHandler fun _ ↦ False)
    (hself : ∀ w a, task.process = .handling w a →
      ∃ job, t.jobs[task.job]? = some job ∧ Working t task a job)
    (halone : ∀ q w w' a, q ≠ p → task.process = .handling w a →
      (s.task q).process = .handling w' a → (s.task q).job ≠ task.job)
    (hsender : ∀ q w w' a a', q ≠ p → task.process = .handling w a →
      (s.task q).process = .handling w' a' → task.sent = true → (s.task q).sent = false)
    (hother : ∀ q w a, q ≠ p → (s.task q).process = .handling w a →
      ∃ job, t.jobs[(s.task q).job]? = some job ∧ Working t (s.task q) a job)
    (hspent : ∀ j job, t.jobs[j]? = some job → j ∈ t.sends ∨ j + 1 < t.jobs.length → Spent job.row)
    (hordered : t.sends.Pairwise (· < ·)) (hbounded : ∀ j ∈ t.sends, j < t.jobs.length) :
    SendsKept t := by
  have hp : t.task p = task := by simp [ht]
  have hq {q} (hne : q ≠ p) : t.task q = s.task q := by simp [ht, hne]
  refine ⟨fun q ↦ ?_, fun q w a hqw ↦ ?_, fun q r w w' a hqw hrw hj ↦ ?_,
    fun q r w w' a a' hqw hrw hsq hsr ↦ ?_, hspent, hordered, hbounded⟩
  · by_cases hqp : q = p
    · rwa [hqp, hp]
    · rw [hq hqp]
      exact hs.sound q
  · by_cases hqp : q = p
    · rw [hqp, hp] at hqw ⊢
      exact hself w a hqw
    · rw [hq hqp] at hqw ⊢
      exact hother q w a hqp hqw
  · by_cases hqp : q = p
    · by_cases hrp : r = p
      · exact hqp.trans hrp.symm
      · rw [hqp, hp] at hqw hj
        rw [hq hrp] at hrw hj
        exact absurd hj.symm (halone r w w' a hrp hqw hrw)
    · rw [hq hqp] at hqw hj
      by_cases hrp : r = p
      · rw [hrp, hp] at hrw hj
        exact absurd hj (halone q w' w a hqp hrw hqw)
      · rw [hq hrp] at hrw hj
        exact hs.alone q r w w' a hqw hrw hj
  · by_cases hqp : q = p
    · by_cases hrp : r = p
      · exact hqp.trans hrp.symm
      · rw [hqp, hp] at hqw hsq
        rw [hq hrp] at hrw hsr
        have hfree := hsender r w w' a a' hrp hqw hrw hsq
        exact absurd hsr (Bool.eq_false_iff.1 hfree)
    · rw [hq hqp] at hqw hsq
      by_cases hrp : r = p
      · rw [hrp, hp] at hrw hsr
        have hfree := hsender q w' w a' a hqp hrw hqw hsr
        exact absurd hsq (Bool.eq_false_iff.1 hfree)
      · rw [hq hrp] at hrw hsr
        exact hs.sender q r w w' a a' hqw hrw hsq hsr

theorem Working.of_eq {s t : ChainState} {task : GiTask} {attempt : ℕ} {job : GiJob}
    (h : Working s task attempt job) (hsends : t.sends = s.sends)
    (hlength : t.jobs.length = s.jobs.length) : Working t task attempt job := by
  refine ⟨h.pos, h.claimed, h.unmarked, ?_⟩
  rw [hsends, hlength]
  exact h.sent

/-- A claim takes a queued row, which is not spent. -/
theorem SendsKept.claims (hs : SendsKept s) {p j worker : ℕ} {job : GiJob}
    (hjob : s.jobs[j]? = some job) (hqueued : job.row.status = .queued) :
    SendsKept ((s.putRow j (claimValues worker s.clock job.row)).turn p
      ⟨j, .handling worker (job.row.attempts + 1), none, false⟩) := by
  have hlength := putRow_length (s := s) j (claimValues worker s.clock job.row)
  have hbefore {q w a} (hq : (s.task q).process = .handling w a) (hj : (s.task q).job = j) :
      Working s (s.task q) a job := by
    obtain ⟨job', hjob', hw⟩ := hs.working q w a hq
    rw [hj, hjob] at hjob'
    cases hjob'
    exact hw
  refine hs.of_turn rfl trivial (fun w a hw ↦ ?_) (fun q w w' a _ hw hq hj ↦ ?_) nofun
    (fun q w a _ hq ↦ ?_) (fun i job' hjob' hi ↦ ?_) hs.ordered fun i hi ↦ ?_
  · cases hw
    exact ⟨_, putRow_jobs_self _ hjob, Nat.succ_pos _, le_rfl, fun _ _ _ ↦ rfl, nofun⟩
  · cases hw
    exact Nat.not_succ_le_self _ (hbefore hq hj).claimed
  · by_cases hj : (s.task q).job = j
    · obtain ⟨hpos, hclaimed, -, hsent⟩ := (hbefore hq hj).of_eq (t := s.putRow j _) rfl hlength
      rw [hj]
      refine ⟨_, putRow_jobs_self _ hjob, hpos, Nat.le_succ_of_le hclaimed, fun _ _ heq ↦ ?_, hsent⟩
      exact absurd heq (Nat.ne_of_gt (Nat.lt_succ_of_le hclaimed))
    · obtain ⟨job', hjob', hw⟩ := hs.working q w a hq
      exact ⟨job', (putRow_jobs_of_ne _ hj).trans hjob', hw.of_eq rfl hlength⟩
  · have hi' : i ∈ s.sends ∨ i + 1 < s.jobs.length := by
      rw [← hlength]
      exact hi
    by_cases hij : i = j
    · subst hij
      exact absurd hqueued (hs.spent i job hjob hi').taken
    · exact hs.spent i job' ((putRow_jobs_of_ne _ hij).symm.trans hjob') hi'
  · exact (hs.bounded i hi).trans_eq hlength.symm

/-- Only what a process read changes. -/
theorem SendsKept.loads (hs : SendsKept s) (p : ℕ) (begun : Option (ℕ × Option PastExecutionData)) :
    SendsKept (s.turn p { s.task p with begun := begun }) := by
  refine hs.of_turn rfl (hs.sound p) (fun w a hw ↦ ?_) (fun q w w' a hqp hw hq hj ↦ ?_)
    (fun q w w' a a' hqp hw hq hsent ↦ ?_) (fun q w a _ hq ↦ ?_) hs.spent hs.ordered hs.bounded
  · obtain ⟨job, hjob, hpos, hclaimed, hunmarked, hsent⟩ := hs.working p w a hw
    exact ⟨job, hjob, hpos, hclaimed, hunmarked, hsent⟩
  · exact hqp (hs.alone q p w' w a hq hw hj)
  · exact Bool.eq_false_iff.2 fun htrue ↦ hqp (hs.sender q p w' w a' a hq hw htrue hsent)
  · obtain ⟨job, hjob, hw⟩ := hs.working q w a hq
    exact ⟨job, hjob, hw.of_eq rfl rfl⟩

theorem spent_checkpointValues (now : ℕ) (name : String) {row : JobRow}
    (h : row.status = .running) : Spent (checkpointValues now name row) := by
  refine ⟨fun hq ↦ ?_, fun _ ↦ Option.some_ne_none _⟩
  rw [checkpointValues, h] at hq
  cases hq

/-- A call that was not sent and whose claim holds is the last, and nothing was sent for it. -/
theorem SendsKept.unsent (hs : SendsKept s) {p worker attempt : ℕ} {job : GiJob}
    (h : s.Handles p worker attempt job) (hown : ownClaim worker attempt job.row = true)
    (hsent : (s.task p).sent = false) :
    (s.task p).job ∉ s.sends ∧ (s.task p).job + 1 = s.jobs.length := by
  obtain ⟨hrun, -, ha⟩ := ownClaim_iff.1 hown
  obtain ⟨job', hjob', hw⟩ := hs.working p worker attempt h.process
  rw [h.job] at hjob'
  cases hjob'
  have hnot : ¬ Spent job.row := fun hspent ↦ hspent.marked hrun (hw.unmarked hsent hrun ha)
  have hj := (List.getElem?_eq_some_iff.1 h.job).1
  have hlast : ¬ (s.task p).job + 1 < s.jobs.length := fun hlt ↦ hnot (hs.spent _ job h.job (.inr hlt))
  exact ⟨fun hmem ↦ hnot (hs.spent _ job h.job (.inl hmem)), by omega⟩

/-- No other process has sent for the last job, unless this one has. -/
theorem SendsKept.others_unsent (hs : SendsKept s) {p : ℕ} (hlast : (s.task p).job + 1 = s.jobs.length)
    (hnew : (s.task p).job ∉ s.sends) {q w a : ℕ} (hq : (s.task q).process = .handling w a) :
    (s.task q).sent = false := by
  refine Bool.eq_false_iff.2 fun htrue ↦ hnew ?_
  obtain ⟨_, -, hw⟩ := hs.working q w a hq
  obtain ⟨hmem, heq⟩ := hw.sent htrue
  have hsame : (s.task q).job = (s.task p).job := by omega
  exact hsame ▸ hmem

/-- What a mark leaves for the other processes at work. -/
theorem SendsKept.working_mark (hs : SendsKept s) {p q worker attempt w a now : ℕ} {name : String}
    {job : GiJob} (h : s.Handles p worker attempt job) (hown : ownClaim worker attempt job.row = true)
    (hqp : q ≠ p) (hq : (s.task q).process = .handling w a) :
    ∃ job', (s.putRow (s.task p).job (checkpointValues now name job.row)).jobs[(s.task q).job]? =
      some job' ∧ Working s (s.task q) a job' := by
  obtain ⟨job', hjob', hw⟩ := hs.working q w a hq
  by_cases hj : (s.task q).job = (s.task p).job
  · rw [hj, h.job] at hjob'
    cases hjob'
    rw [hj]
    refine ⟨_, putRow_jobs_self _ h.job, hw.pos, hw.claimed, fun _ _ ha ↦ ?_, hw.sent⟩
    have heq : attempt = a := (ownClaim_iff.1 hown).2.2.symm.trans ha
    exact absurd (hs.alone q p w worker a hq (heq ▸ h.process) hj) hqp
  · exact ⟨job', (putRow_jobs_of_ne _ hj).trans hjob', hw⟩

theorem SendsKept.spent_mark (hs : SendsKept s) {j now : ℕ} {name : String} {job : GiJob}
    (hjob : s.jobs[j]? = some job) (hrun : job.row.status = .running) {i : ℕ} {job' : GiJob}
    (hi : (s.putRow j (checkpointValues now name job.row)).jobs[i]? = some job')
    (hmem : i ∈ s.sends ∨ i = j ∨ i + 1 < s.jobs.length) : Spent job'.row := by
  by_cases hij : i = j
  · subst hij
    rw [putRow_jobs_self _ hjob] at hi
    cases hi
    exact spent_checkpointValues now name hrun
  · rw [putRow_jobs_of_ne _ hij] at hi
    refine hs.spent i job' hi ?_
    rcases hmem with hmem | heq | hlt
    · exact .inl hmem
    · exact absurd heq hij
    · exact .inr hlt

theorem SendsKept.sends (hs : SendsKept s) {p worker attempt : ℕ} {job : GiJob}
    (h : s.Handles p worker attempt job) (hown : ownClaim worker attempt job.row = true)
    (hsent : (s.task p).sent = false) :
    SendsKept { (s.putRow (s.task p).job
      (checkpointValues s.clock checkpointSending job.row)).turn p { s.task p with sent := true } with
      sends := s.sends ++ [(s.task p).job] } := by
  obtain ⟨hnew, hlast⟩ := hs.unsent h hown hsent
  have hlength := putRow_length (s := s) (s.task p).job
    (checkpointValues s.clock checkpointSending job.row)
  have hmem : (s.task p).job ∈ s.sends ++ [(s.task p).job] :=
    List.mem_append_right _ List.mem_cons_self
  refine hs.of_turn rfl (hs.sound p) (fun w a hw ↦ ?_) (fun q w w' a hqp hw hq hj ↦ ?_)
    (fun q w w' a a' _ _ hq _ ↦ hs.others_unsent hlast hnew hq) (fun q w a hqp hq ↦ ?_)
    (fun i job' hjob' hi ↦ ?_) ?_ fun i hi ↦ ?_
  · obtain ⟨job', hjob', hpos, hclaimed, -, -⟩ := hs.working p w a hw
    rw [h.job] at hjob'
    cases hjob'
    exact ⟨_, putRow_jobs_self _ h.job, hpos, hclaimed, nofun, fun _ ↦ ⟨hmem, hlast.trans hlength.symm⟩⟩
  · exact hqp (hs.alone q p w' w a hq hw hj)
  · obtain ⟨job', hjob', hw⟩ := hs.working_mark h hown hqp hq
    refine ⟨job', hjob', hw.pos, hw.claimed, hw.unmarked, fun htrue ↦ ?_⟩
    rw [hs.others_unsent hlast hnew hq] at htrue
    cases htrue
  · refine hs.spent_mark h.job (ownClaim_iff.1 hown).1 hjob' ?_
    rcases hi with hi | hi
    · rcases List.mem_append.1 hi with hi | hi
      · exact .inl hi
      · exact .inr (.inl (List.mem_singleton.1 hi))
    · exact .inr (.inr (hi.trans_eq hlength))
  · refine List.pairwise_append.2 ⟨hs.ordered, List.pairwise_singleton .., fun i hi j hj ↦ ?_⟩
    obtain rfl := List.mem_singleton.1 hj
    have hlt := hs.bounded i hi
    have hne : i ≠ (s.task p).job := fun heq ↦ hnew (heq ▸ hi)
    omega
  · refine (?_ : i < s.jobs.length).trans_eq hlength.symm
    rcases List.mem_append.1 hi with hi | hi
    · exact hs.bounded i hi
    · obtain rfl := List.mem_singleton.1 hi
      omega

/-- The job of a follow-up is the last and spent, and after it no sent call is at work. -/
theorem SendsKept.marked (hs : SendsKept s) {p worker attempt : ℕ} {job : GiJob} {row : JobRow}
    (h : s.Handles p worker attempt job) (hrow : Marked s p worker attempt job.row row) :
    (s.task p).job + 1 = s.jobs.length ∧ Spent row ∧
      ∀ q w a, q ≠ p → (s.task q).process = .handling w a → (s.task q).sent = false ∧
        ∃ job', (s.putRow (s.task p).job row).jobs[(s.task q).job]? = some job' ∧
          Working s (s.task q) a job' := by
  cases hrow with
  | sent hsent =>
    obtain ⟨job', hjob', hw⟩ := hs.working p worker attempt h.process
    rw [h.job] at hjob'
    cases hjob'
    obtain ⟨hmem, hlast⟩ := hw.sent hsent
    refine ⟨hlast, hs.spent _ job h.job (.inl hmem), fun q w a hqp hq ↦ ⟨?_, ?_⟩⟩
    · exact Bool.eq_false_iff.2 fun htrue ↦
        hqp (hs.sender q p w worker a attempt hq h.process htrue hsent)
    · rw [putRow_self h.job]
      exact hs.working q w a hq
  | unsent hsent hown =>
    obtain ⟨hnew, hlast⟩ := hs.unsent h hown hsent
    refine ⟨hlast, spent_checkpointValues _ _ (ownClaim_iff.1 hown).1, fun q w a hqp hq ↦ ⟨?_, ?_⟩⟩
    · exact hs.others_unsent hlast hnew hq
    · exact hs.working_mark h hown hqp hq

theorem SendsKept.follows (hs : SendsKept s) {p worker attempt dueAt : ℕ} {job : GiJob}
    {next : PastExecutionData} {row : JobRow} {outcome : Outcome}
    (h : s.Handles p worker attempt job) (hrow : Marked s p worker attempt job.row row)
    (ho : outcome.events attempt = []) :
    SendsKept (((s.putRow (s.task p).job row).enqueueInvocation next dueAt).leave p worker attempt
      outcome) := by
  obtain ⟨hlast, hspent, hothers⟩ := hs.marked h hrow
  have hsettled := settled_runHandler worker attempt ho
  have hlength : ((s.putRow (s.task p).job row).enqueueInvocation next dueAt).jobs.length =
      s.jobs.length + 1 := by
    simp [enqueueInvocation]
  refine hs.of_turn rfl hsettled.sound (fun w a hw ↦ absurd hw (hsettled.free w a))
    (fun q w _ a _ hw ↦ absurd hw (hsettled.free w a))
    (fun q w _ a _ _ hw ↦ absurd hw (hsettled.free w a)) (fun q w a hqp hq ↦ ?_)
    (fun i job' hjob' hi ↦ ?_) hs.ordered fun i hi ↦ ?_
  · obtain ⟨hsent, job', hjob', hw⟩ := hothers q w a hqp hq
    refine ⟨job', ?_, hw.pos, hw.claimed, hw.unmarked, fun htrue ↦ ?_⟩
    · exact List.getElem?_append_left (List.getElem?_eq_some_iff.1 hjob').1 ▸ hjob'
    · rw [hsent] at htrue
      cases htrue
  · have hlt : i < (s.putRow (s.task p).job row).jobs.length := by
      rw [putRow_length]
      rcases hi with hi | hi
      · exact hs.bounded i hi
      · exact Nat.lt_of_succ_lt_succ (hi.trans_eq hlength)
    have hold : (s.putRow (s.task p).job row).jobs[i]? = some job' := by
      rw [← hjob']
      exact (List.getElem?_append_left hlt).symm
    by_cases hij : i = (s.task p).job
    · subst hij
      rw [putRow_jobs_self _ h.job] at hold
      cases hold
      exact hspent
    · rw [putRow_jobs_of_ne _ hij] at hold
      refine hs.spent i job' hold (.inr ?_)
      rw [putRow_length] at hlt
      omega
  · exact (hs.bounded i hi).trans (by simp [leave, turn, enqueueInvocation])

theorem SendsKept.next (hs : SendsKept s) {a : ChainAction} (h : s.next a = some t) :
    SendsKept t := by
  cases next_effect hs.sound h with
  | quiet h => exact hs.quiet h
  | claims hjob _ hqueued ht => exact ht ▸ hs.claims hjob hqueued
  | loads _ _ ht => exact ht ▸ hs.loads _ _
  | sends h hown hsent ht => exact ht ▸ hs.sends h hown hsent
  | follows _ h _ _ hrow ht => exact ht ▸ hs.follows h hrow rfl

end ChainState

end Tiqora.Gi.RetryChain
