import Tiqora.Itsm.ChangeImpact

namespace Tiqora.Itsm.Change

open Foundation

variable {cmdb : Cmdb} {s t : ImpactState}

/-- The job locks the row again after a request with this stamp has committed. -/
def Phase.willRead (stamp : ℤ) : Phase → Bool
  | .queued | .starting _ _ => true
  | .stored passes requested => requested ≠ some stamp && passes < maxPasses
  | .locked _ _ _ | .computed _ _ _ _ _ | .finished => false

/-- A request that commits is stamped after the stored computation, or a job that is active then
reads the row once more. -/
def RequestSeen (s : ImpactState) : ImpactAction → Prop
  | .request transaction (.commit _) =>
    ∀ r ∈ s.requests.find transaction, ∀ stamp ∈ r.stamp,
      (∀ computed ∈ s.computedAt, computed < stamp) ∨ r.joins = some false ∨
        ∃ row ∈ s.jobs.rows, row.2.willRead stamp = true
  | _ => True

instance (s : ImpactState) : ∀ a, Decidable (RequestSeen s a)
  | .request transaction (.commit _) =>
    inferInstanceAs (Decidable (∀ r ∈ s.requests.find transaction, ∀ stamp ∈ r.stamp,
      (∀ computed ∈ s.computedAt, computed < stamp) ∨ r.joins = some false ∨
        ∃ row ∈ s.jobs.rows, row.2.willRead stamp = true))
  | .wait _ | .change _ _ | .job _ _ | .request _ .readRow | .request _ .stamp
  | .request _ .write | .request _ .enqueue | .request _ .rollback => .isTrue trivial

/-- The job is going to store a set that includes everything committed so far. -/
def Phase.Covers (requestedAt : Option ℤ) : Phase → Prop
  | .queued | .starting _ _ | .locked _ _ _ | .computed _ _ _ _ _ => True
  | .stored passes requested => requestedAt ≠ requested ∧ passes < maxPasses
  | .finished => False

def Phase.Holds : Phase → Prop
  | .locked _ _ _ | .computed _ _ _ _ _ => True
  | .queued | .starting _ _ | .stored _ _ | .finished => False

/-- What a pass has read is still what is committed. -/
def Phase.Fresh (cmdb : Cmdb) (now : List DataChange) : Phase → Prop
  | .computed _ _ _ impact log => impact = affectedRows cmdb (dataOf log) ∧ log = now
  | _ => True

structure ImpactSafe (cmdb : Cmdb) (s : ImpactState) : Prop where
  covered : impactIsCurrent s.requestedAt s.computedAt = true → s.storedLog = s.log ∨
    ∃ row ∈ s.jobs.rows, row.2.Covers s.requestedAt
  holder : ∀ row ∈ s.jobs.rows, row.2.Holds → s.lock = some (.job row.1)
  fresh : ∀ row ∈ s.jobs.rows, row.2.Fresh cmdb s.log
  rows : s.computedAt ≠ none → s.stored = affectedRows cmdb (dataOf s.storedLog)

/-- A job goes on without storing anything. -/
theorem ImpactSafe.job_moves {job : ℕ} {phase : Phase} {phase' : Option Phase}
    {lock : Option Holder} (h : ImpactSafe cmdb s) (hj : s.jobs.find job = some phase)
    (hcovers : phase.Covers s.requestedAt → ∃ p ∈ phase', p.Covers s.requestedAt)
    (hlock : ∀ other, other ≠ job → s.lock = some (.job other) → lock = some (.job other))
    (hholds : ∀ p ∈ phase', p.Holds → lock = some (.job job))
    (hfresh : ∀ p ∈ phase', p.Fresh cmdb s.log) :
    ImpactSafe cmdb { s with lock, jobs := s.jobs.set job phase' } := by
  refine ⟨fun hc ↦ (h.covered hc).imp_right ?_, fun row hr hh ↦ ?_, fun row hr ↦ ?_, h.rows⟩
  · rintro ⟨⟨other, p⟩, hr, hp⟩
    by_cases heq : other = job
    · subst heq
      cases Option.some.inj (hj.symm.trans (Table.find_eq_some.2 hr))
      obtain ⟨p', hp', hc'⟩ := hcovers hp
      exact ⟨(other, p'), Table.mem_set.2 (.inr ⟨rfl, hp'⟩), hc'⟩
    · exact ⟨(other, p), Table.mem_set.2 (.inl ⟨hr, heq⟩), hp⟩
  · rcases Table.mem_set.1 hr with ⟨hr, hne⟩ | ⟨heq, hp⟩
    · exact hlock _ hne (h.holder row hr hh)
    · rw [hholds _ hp hh, ← heq]
  · rcases Table.mem_set.1 hr with ⟨hr, -⟩ | ⟨-, hp⟩
    · exact h.fresh row hr
    · exact hfresh _ hp

theorem release_other {job other : ℕ} (hne : other ≠ job) (h : s.lock = some (.job other)) :
    (s.release (.job job)).lock = some (.job other) := by
  rw [ImpactState.release, if_neg]
  · exact h
  · rw [h]
    intro heq
    cases heq
    exact hne rfl

theorem store_safe {job passes : ℕ} {stamp : ℤ} {requested : Option ℤ} {impact : ImpactSet}
    {log : List DataChange} (h : ImpactSafe cmdb s)
    (hj : s.jobs.find job = some (.computed passes stamp requested impact log)) :
    ImpactSafe cmdb { (s.release (.job job)).setJob job (some (.stored (passes + 1) requested)) with
      computedAt := some stamp
      stored := impact
      storedLog := log } := by
  have hfresh := h.fresh _ (Table.find_eq_some.1 hj)
  refine ⟨fun _ ↦ .inl hfresh.2, fun row hr hh ↦ ?_, fun row hr ↦ ?_, fun _ ↦ hfresh.1⟩
  · rcases Table.mem_set.1 hr with ⟨hr, hne⟩ | ⟨-, hp⟩
    · exact release_other hne (h.holder row hr hh)
    · rw [← Option.some.inj hp] at hh
      cases hh
  · rcases Table.mem_set.1 hr with ⟨hr, -⟩ | ⟨-, hp⟩
    · exact h.fresh row hr
    · rw [← Option.some.inj hp]
      trivial

theorem interrupt_safe {job : ℕ} {phase : Phase} (h : ImpactSafe cmdb s)
    (hj : s.jobs.find job = some phase) :
    ImpactSafe cmdb ((s.release (.job job)).setJob job (some .queued)) := by
  refine h.job_moves hj (fun _ ↦ ⟨_, rfl, trivial⟩) (fun _ hne ↦ release_other hne) ?_ ?_
  · intro p hp hh
    cases hp
    cases hh
  · intro p hp
    cases hp
    trivial

theorem job_safe {job : ℕ} {phase : Phase} {step : JobStep} (h : ImpactSafe cmdb s)
    (hj : s.jobs.find job = some phase) (hs : s.nextJob cmdb job phase step = some t) :
    ImpactSafe cmdb t := by
  cases step with
  | interrupt =>
    have ht : t = (s.release (.job job)).setJob job (some .queued) := by
      cases phase <;> exact (Option.some.inj hs).symm
    exact ht ▸ interrupt_safe h hj
  | start =>
    cases phase with
    | queued =>
      cases hs
      refine h.job_moves hj (fun _ ↦ ⟨_, rfl, trivial⟩) (fun _ _ hl ↦ hl) ?_ ?_
      · intro p hp hh
        cases hp
        cases hh
      · intro p hp
        cases hp
        trivial
    | _ => cases hs
  | lock =>
    cases phase with
    | starting passes started =>
      rw [ImpactState.nextJob] at hs
      split at hs
      · rename_i hfree
        cases hs
        refine h.job_moves hj (fun _ ↦ ⟨_, rfl, trivial⟩) ?_ (fun _ _ _ ↦ rfl) ?_
        · intro other _ hl
          rw [hfree] at hl
          cases hl
        · intro p hp
          cases hp
          trivial
      · cases hs
    | _ => cases hs
  | compute =>
    cases phase with
    | locked passes started requested =>
      cases hs
      refine h.job_moves hj (fun _ ↦ ⟨_, rfl, trivial⟩) (fun _ _ hl ↦ hl) ?_ ?_
      · exact fun _ _ _ ↦ h.holder _ (Table.find_eq_some.1 hj) trivial
      · intro p hp
        cases hp
        exact ⟨rfl, rfl⟩
    | _ => cases hs
  | store =>
    cases phase with
    | computed passes stamp requested impact log =>
      cases hs
      exact store_safe h hj
    | _ => cases hs
  | reread =>
    cases phase with
    | stored passes requested =>
      cases hs
      refine h.job_moves hj (fun hc ↦ ?_) (fun _ _ hl ↦ hl) ?_ ?_
      · rw [if_neg]
        · exact ⟨_, rfl, trivial⟩
        · rintro (heq | hle)
          · exact hc.1 heq
          · exact absurd hc.2 (Nat.not_lt.2 hle)
      · intro p hp hh
        cases hp
        split at hh <;> cases hh
      · intro p hp
        cases hp
        split <;> trivial
    | _ => cases hs
  | finalize =>
    cases phase with
    | finished =>
      cases hs
      refine h.job_moves hj (fun hc ↦ hc.elim) (fun _ _ hl ↦ hl) ?_ ?_
      · exact fun p hp ↦ nomatch hp
      · exact fun p hp ↦ nomatch hp
    | _ => cases hs

theorem commit_safe {transaction job : ℕ} {r : Request} (h : ImpactSafe cmdb s)
    (hr : s.requests.find transaction = some r)
    (hseen : RequestSeen s (.request transaction (.commit job)))
    (hs : s.commit transaction job r = some t) : ImpactSafe cmdb t := by
  rw [ImpactState.commit] at hs
  split at hs
  · rename_i stamp joins hstamp hjoins
    split at hs
    · rename_i hguard
      cases hs
      -- the request holds the row lock, so no pass is between its lock and its commit
      have hfree : ∀ row ∈ s.jobs.rows, ¬ row.2.Holds := by
        intro row hrow hh
        have hl := (h.holder row hrow hh).symm.trans hguard.1
        cases hl
      have hjobs : ∀ row ∈ (if joins then s.jobs else s.jobs.set job (some .queued)).rows,
          row ∈ s.jobs.rows ∨ row.2 = .queued := by
        intro row hrow
        split at hrow
        · exact .inl hrow
        · exact (Table.mem_set.1 hrow).imp And.left fun h ↦ (Option.some.inj h.2).symm
      refine ⟨fun hc ↦ .inr ?_, fun row hrow hh ↦ ?_, fun row hrow ↦ ?_, h.rows⟩
      · rcases hseen r hr stamp hstamp with hlt | hnew | ⟨row, hrow, hw⟩
        · exfalso
          revert hc
          cases hcomp : s.computedAt with
          | none => exact fun hc ↦ nomatch hc
          | some computed =>
            intro hc
            exact absurd (hlt computed hcomp) (not_lt.2 (of_decide_eq_true hc))
        · cases hjoins.symm.trans hnew
          exact ⟨(job, .queued), Table.mem_set.2 (.inr ⟨rfl, rfl⟩), trivial⟩
        · have hmem : row ∈ (if joins then s.jobs else s.jobs.set job (some .queued)).rows := by
            split
            · exact hrow
            · rename_i hj
              refine Table.mem_set.2 (.inl ⟨hrow, fun heq ↦ ?_⟩)
              have hnone := hguard.2 (Bool.not_eq_true _ ▸ hj)
              rw [← heq, Table.find_eq_some.2 hrow] at hnone
              cases hnone
          refine ⟨row, hmem, ?_⟩
          obtain ⟨other, phase⟩ := row
          cases phase with
          | queued | starting => trivial
          | stored passes requested =>
            simp only [Phase.willRead, Bool.and_eq_true, decide_eq_true_eq] at hw
            exact ⟨Ne.symm hw.1, hw.2⟩
          | _ => cases hw
      · rcases hjobs row hrow with hrow | hq
        · exact absurd hh (hfree row hrow)
        · rw [hq] at hh
          cases hh
      · rcases hjobs row hrow with hrow | hq
        · have hnot := hfree row hrow
          revert hnot
          cases row.2 with
          | computed => exact fun hnot ↦ absurd trivial hnot
          | _ => exact fun _ ↦ trivial
        · rw [hq]
          trivial
    · cases hs
  · cases hs

/-- A request locks the row only when no job holds it, and gives back no other lock. -/
theorem ImpactSafe.lock_moves {lock : Option Holder} {requests : Table ℕ Request}
    (h : ImpactSafe cmdb s) (hlock : ∀ job, s.lock = some (.job job) → lock = some (.job job)) :
    ImpactSafe cmdb { s with lock, requests } :=
  ⟨h.covered, fun row hr hh ↦ hlock _ (h.holder row hr hh), h.fresh, h.rows⟩

theorem request_safe {transaction : ℕ} {r : Request} {step : RequestStep} (h : ImpactSafe cmdb s)
    (hr : s.requests.find transaction = some r)
    (hseen : RequestSeen s (.request transaction step))
    (hs : s.nextRequest transaction r step = some t) : ImpactSafe cmdb t := by
  cases step with
  | commit job => exact commit_safe h hr hseen hs
  | readRow =>
    cases hs
    exact h.lock_moves fun _ hl ↦ hl
  | stamp =>
    obtain ⟨read, -, hs⟩ := Option.bind_eq_some_iff.1 hs
    split at hs
    · cases hs
      exact h.lock_moves fun _ hl ↦ hl
    · cases hs
  | write =>
    rw [ImpactState.nextRequest] at hs
    split at hs
    · rename_i hfree
      cases hs
      refine h.lock_moves fun job hl ↦ ?_
      rw [hfree.2] at hl
      cases hl
    · cases hs
  | enqueue =>
    cases hs
    exact h.lock_moves fun _ hl ↦ hl
  | rollback =>
    cases hs
    refine h.lock_moves fun job hl ↦ ?_
    rw [ImpactState.release, if_neg]
    · exact hl
    · rw [hl]
      intro heq
      cases heq

theorem impact_step_safe {a : ImpactAction} (h : ImpactSafe cmdb s) (hseen : RequestSeen s a)
    (hs : s.next cmdb a = some t) : ImpactSafe cmdb t := by
  cases a with
  | wait seconds =>
    cases hs
    exact ⟨h.covered, h.holder, h.fresh, h.rows⟩
  | change transaction changes =>
    rw [ImpactState.next] at hs
    split at hs
    · cases hs
      exact h.lock_moves fun _ hl ↦ hl
    · cases hs
  | request transaction step =>
    obtain ⟨r, hr, hs⟩ := Option.bind_eq_some_iff.1 hs
    exact request_safe h hr hseen hs
  | job job step =>
    obtain ⟨phase, hj, hs⟩ := Option.bind_eq_some_iff.1 hs
    exact job_safe h hj hs

/-- The stored set is what the committed links and services give, whenever it counts as current and
no job is active. -/
theorem current_impact_complete {as : List ImpactAction} (hs : (impactMachine cmdb).init s)
    (hr : ((impactMachine cmdb).restrict RequestSeen).Run s as t) (hidle : t.jobs.rows = [])
    (hcurrent : impactIsCurrent t.requestedAt t.computedAt = true) :
    t.storedLog = t.log ∧ t.stored = affectedRows cmdb (dataOf t.log) := by
  have h₀ : ImpactSafe cmdb s := by
    obtain ⟨hcomputed, -, -, hjobs⟩ := hs
    refine ⟨fun hc ↦ ?_, fun row hrow ↦ ?_, fun row hrow ↦ ?_, fun hne ↦ absurd hcomputed hne⟩
    · rw [hcomputed] at hc
      cases hc
    · rw [hjobs] at hrow
      cases hrow
    · rw [hjobs] at hrow
      cases hrow
  have hI : ∀ s a t, ImpactSafe cmdb s → ((impactMachine cmdb).restrict RequestSeen).step s a t →
      ImpactSafe cmdb t := fun _ _ _ h hst ↦ impact_step_safe h hst.1 hst.2
  have h := hr.invariant hI h₀
  have hlog : t.storedLog = t.log := by
    refine (h.covered hcurrent).resolve_right ?_
    rw [hidle]
    rintro ⟨row, hrow, -⟩
    cases hrow
  refine ⟨hlog, hlog ▸ h.rows fun hnone ↦ ?_⟩
  rw [hnone] at hcurrent
  cases hcurrent

/-- The condition is exact at a commit: without it the set counts as current, and no active job is
going to read the row again. -/
theorem unseen_request_current {transaction job : ℕ} {r : Request}
    (hr : s.requests.find transaction = some r)
    (hseen : ¬ RequestSeen s (.request transaction (.commit job)))
    (hs : s.commit transaction job r = some t) :
    impactIsCurrent t.requestedAt t.computedAt = true ∧ t.jobs = s.jobs ∧ t.log = s.log ++ r.changes ∧
      ∀ row ∈ t.jobs.rows, ∀ stamp ∈ t.requestedAt, row.2.willRead stamp = false := by
  rw [ImpactState.commit] at hs
  split at hs
  · rename_i stamp joins hstamp hjoins
    split at hs
    · cases hs
      simp only [RequestSeen, not_forall, not_or, not_exists, not_and] at hseen
      obtain ⟨r', hr', stamp', hstamp', ⟨computed, hcomputed, hle⟩, hnew, hjobs⟩ := hseen
      cases hr.symm.trans hr'
      cases hstamp.symm.trans hstamp'
      cases joins with
      | false => exact absurd hjoins hnew
      | true =>
        refine ⟨?_, rfl, rfl, fun row hrow stamp' hs' ↦ ?_⟩
        · have hcomputed : s.computedAt = some computed := hcomputed
          simp only [hcomputed]
          exact decide_eq_true (not_lt.1 hle)
        · cases hs'
          exact Bool.eq_false_iff.2 (hjobs row hrow)
    · cases hs
  · cases hs

def oneCi : Cmdb := ⟨fun _ ↦ true, fun cis ↦ ⟨cis, ∅, false⟩⟩

def newChange : ImpactState := ⟨5, none, none, none, [], ⟨∅, false⟩, [], .empty, .empty⟩

def computeOnce (job : ℕ) : List ImpactAction :=
  [.job job .start, .job job .lock, .job job .compute, .job job .store, .job job .reread]

def linkAndCompute : List ImpactAction :=
  [.change 1 [.linkCi 7], .request 1 .readRow, .request 1 .stamp, .request 1 .write,
    .request 1 .enqueue, .request 1 (.commit 1)] ++ computeOnce 1 ++ [.job 1 .finalize]

def linkedState : ImpactState :=
  ⟨5, some 5, some 5, none, [.linkCi 7], ⟨{⟨.ci, 7, true⟩}, false⟩, [.linkCi 7], .empty, .empty⟩

theorem current_impact_complete_sample : linkedState.storedLog = linkedState.log ∧
    linkedState.stored = affectedRows oneCi (dataOf linkedState.log) :=
  current_impact_complete (s := newChange) ⟨rfl, rfl, rfl, rfl⟩
    (Machine.run_of_foldlM linkAndCompute (by decide +kernel)) (by decide) (by decide)

/-- Two requests read stamp 5 and write stamp 6. The pass answers the first, and the second joins
the job after its last look at the row. -/
def equalStamps : List ImpactAction :=
  [.change 1 [.linkCi 7], .request 1 .readRow, .request 1 .stamp, .request 1 .write,
    .request 1 .enqueue, .request 1 (.commit 1), .wait 1, .change 2 [.unlinkCi 7],
    .request 2 .readRow, .request 2 .stamp, .request 2 .write, .request 2 .enqueue,
    .change 3 [.linkCi 9], .request 3 .readRow, .request 3 .stamp, .request 2 (.commit 2)] ++
  computeOnce 1 ++
  [.request 3 .write, .request 3 .enqueue, .request 3 (.commit 3), .job 1 .finalize]

def unseenState : ImpactState :=
  ⟨6, some 6, some 6, none, [.linkCi 7, .unlinkCi 7, .linkCi 9], ⟨∅, false⟩,
    [.linkCi 7, .unlinkCi 7], .empty, .empty⟩

theorem equal_stamps_hide_request :
    ¬ ∀ cmdb as s t, (impactMachine cmdb).init s → (impactMachine cmdb).Run s as t →
      t.jobs.rows = [] → impactIsCurrent t.requestedAt t.computedAt = true →
        t.storedLog = t.log := by
  intro h
  have hrun : ((impactMachine oneCi).restrict fun _ _ ↦ True).Run newChange equalStamps
      unseenState := Machine.run_of_foldlM _ (by decide +kernel)
  have heq := h oneCi _ _ _ ⟨rfl, rfl, rfl, rfl⟩ hrun.of_restrict (by decide) (by decide)
  revert heq
  decide

end Tiqora.Itsm.Change
