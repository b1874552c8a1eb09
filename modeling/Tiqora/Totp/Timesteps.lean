import Tiqora.Totp.Service
import Mathlib.Algebra.Order.Ring.Int
import Mathlib.Data.List.Nodup

namespace Tiqora.Totp

open Foundation

/-- The time from which a clock reading can match the step. -/
def windowStart (step : ℤ) : ℤ := (step - 1) * stepSeconds * 1000

/-- The time from which no clock reading matches the step any more. -/
def windowEnd (step : ℤ) : ℤ := (step + 2) * stepSeconds * 1000

/-- The step that a call works on. -/
def Phase.step : Phase → Option ℤ
  | .matched _ step | .claimed _ step | .guarded _ step => some step
  | _ => none

/-- The step that a call has claimed and not given an answer for. -/
def Phase.claim : Phase → Option ℤ
  | .claimed _ step | .guarded _ step => some step
  | _ => none

/-- A claim and a look at the guard come in the window of the step, or they find no key that has
expired. Nobody has recorded a later step between the look and the writing of the guard. -/
def Phase.Prompt (s : State) : Phase → Prop
  | .matched _ step => s.now < windowEnd step ∨ ∀ e, s.used step = some e → s.now < e.expires
  | .claimed _ step =>
    s.now < windowEnd step ∨ ∀ e, s.last = some e → step ≤ e.value → s.now < e.expires
  | .guarded _ step => ∀ e, s.last = some e → e.value ≤ step
  | _ => True

def Prompt (s : State) : Action → Prop
  | .advance id => ∀ call, s.calls id = some call → call.phase.Prompt s
  | .tick _ | .start _ _ => True

def State.steps (s : State) : List ℤ := s.accepted.map (·.step)

/-- The keys outlive the windows of their steps, and no call is ahead of the clock. -/
structure Timed (s : State) : Prop where
  claim_expires : ∀ step e, s.used step = some e → windowEnd step ≤ e.expires
  guard_expires : ∀ e, s.last = some e → windowEnd e.value ≤ e.expires
  reading : ∀ id call step, s.calls id = some call → call.phase.step = some step →
    windowStart step ≤ s.now

/-- Claims are held by one call each, for steps that have not been accepted. -/
structure Claims (s : State) : Prop where
  held : ∀ id call step, s.calls id = some call → call.phase.claim = some step →
    (s.used step).isSome ∧ step ∉ s.steps
  apart : ∀ id id' call call' step, s.calls id = some call → s.calls id' = some call' →
    call.phase.claim = some step → call'.phase.claim = some step → id = id'
  claimed : ∀ step ∈ s.steps, (s.used step).isSome
  nodup : s.steps.Nodup

/-- The guard is at or above every accepted step. -/
structure Guarded (s : State) : Prop where
  guard : ∀ step ∈ s.steps, ∃ e, s.last = some e ∧ step ≤ e.value
  before : ∀ id call, s.calls id = some call → ∀ step ∈ call.before, step ∈ s.steps
  ahead : ∀ id call secret step, s.calls id = some call → call.phase = .guarded secret step →
    ∀ earlier ∈ call.before, earlier < step
  accepted : ∀ a ∈ s.accepted, ∀ earlier ∈ a.before, earlier < a.step

structure Spent (s : State) : Prop extends Timed s, Claims s, Guarded s

variable {s t : State} {valid : String → String → ℤ → Bool} {id : ℕ} {call : Call}
  {secret code : String} {step : ℤ}

theorem matchTimestep_eq_some {now : ℕ} (h : matchTimestep valid secret code now = some step) :
    windowStart step ≤ now := by
  have hmem := List.mem_of_find?_eq_some h
  have hdiv := Nat.div_mul_le_self (now / 1000) stepSeconds
  have hms := Nat.div_mul_le_self now 1000
  rw [windowStart]
  simp only [stepSeconds] at hmem hdiv ⊢
  simp only [List.mem_cons, List.not_mem_nil, or_false] at hmem
  omega

theorem expires_of_windowStart (h : windowStart step ≤ s.now) :
    windowEnd step ≤ (s.now + replayTtlSeconds * 1000 : ℕ) := by
  rw [windowStart] at h
  rw [windowEnd]
  simp only [stepSeconds, replayTtlSeconds] at h ⊢
  omega

/-- A step that leaves the replay keys as they are and gives no call a claim. -/
structure Quiet (s t : State) : Prop where
  now : s.now ≤ t.now
  used : t.used = s.used
  last : t.last = s.last
  accepted : t.accepted = s.accepted
  calls : ∀ id call, t.calls id = some call → s.calls id = some call ∨
    call.phase.claim = none ∧ (∀ step, call.phase.step = some step → windowStart step ≤ s.now) ∧
      (call.before = s.steps ∨ ∃ call', s.calls id = some call' ∧ call.before = call'.before)

theorem Spent.quiet (h : Spent s) (hq : Quiet s t) : Spent t := by
  have hsteps : t.steps = s.steps := by rw [State.steps, State.steps, hq.accepted]
  have hclaim : ∀ id call step, t.calls id = some call → call.phase.claim = some step →
      s.calls id = some call := by
    intro id call step hcall hphase
    rcases hq.calls id call hcall with hold | ⟨hnone, -⟩
    · exact hold
    · rw [hnone] at hphase
      cases hphase
  refine ⟨⟨?_, ?_, ?_⟩, ⟨?_, ?_, ?_, ?_⟩, ⟨?_, ?_, ?_, ?_⟩⟩
  · rw [hq.used]
    exact h.claim_expires
  · rw [hq.last]
    exact h.guard_expires
  · intro id call step hcall hphase
    have hnow : (s.now : ℤ) ≤ t.now := by exact_mod_cast hq.now
    rcases hq.calls id call hcall with hold | ⟨-, hstart, -⟩
    · exact (h.reading id call step hold hphase).trans hnow
    · exact (hstart step hphase).trans hnow
  · intro id call step hcall hphase
    rw [hq.used, hsteps]
    exact h.held id call step (hclaim id call step hcall hphase) hphase
  · intro id id' call call' step hcall hcall' hphase hphase'
    exact h.apart id id' call call' step (hclaim id call step hcall hphase)
      (hclaim id' call' step hcall' hphase') hphase hphase'
  · rw [hq.used, hsteps]
    exact h.claimed
  · rw [hsteps]
    exact h.nodup
  · rw [hq.last, hsteps]
    exact h.guard
  · intro id call hcall earlier hmem
    rw [hsteps]
    rcases hq.calls id call hcall with hold | ⟨-, -, heq | ⟨call', hold, heq⟩⟩
    · exact h.before id call hold earlier hmem
    · exact heq ▸ hmem
    · exact h.before id call' hold earlier (heq ▸ hmem)
  · intro id call secret step hcall hphase
    have hold := hclaim id call step hcall (by rw [hphase]; rfl)
    exact h.ahead id call secret step hold hphase
  · rw [hq.accepted]
    exact h.accepted

/-- A call moves to a phase without a claim. -/
theorem Quiet.move {call' : Call} (hcall : s.calls id = some call)
    (hclaim : call'.phase.claim = none)
    (hstep : ∀ step, call'.phase.step = some step → windowStart step ≤ s.now)
    (hbefore : call'.before = call.before) : Quiet s (s.put id call') := by
  refine ⟨le_rfl, rfl, rfl, rfl, fun id' call'' h ↦ ?_⟩
  rcases s.put_calls h with ⟨rfl, rfl⟩ | ⟨-, hold⟩
  · exact .inr ⟨hclaim, hstep, .inr ⟨call, hcall, hbefore⟩⟩
  · exact .inl hold

theorem Quiet.beside (h : Quiet s t) (row : Option Row)
    (pending : Option (Expiring (String × ℕ))) (commits : List (Option String)) :
    Quiet s { t with row, pending, commits } :=
  ⟨h.now, h.used, h.last, h.accepted, h.calls⟩

theorem first_step {request : Request} : (s.firstPhase request).step = none := by
  cases request with
  | confirm code =>
    rw [State.firstPhase]
    split <;> rfl
  | enroll secret currentCode =>
    rw [State.firstPhase]
    split
    · rfl
    · split <;> rfl
  | verify code =>
    rw [State.firstPhase]
    split <;> rfl
  | disable code =>
    rw [State.firstPhase]
    split <;> rfl

theorem claim_of_step {phase : Phase} (h : phase.step = none) : phase.claim = none := by
  cases phase with
  | matched secret step => rfl
  | claimed secret step => cases h
  | guarded secret step => cases h
  | _ => rfl

theorem Quiet.start (id : ℕ) (request : Request) : Quiet s (s.start id request) := by
  refine ⟨le_rfl, rfl, rfl, rfl, fun id' call h ↦ ?_⟩
  rcases s.put_calls h with ⟨rfl, rfl⟩ | ⟨-, hold⟩
  · refine .inr ⟨claim_of_step first_step, fun step h ↦ ?_, .inl rfl⟩
    have hstep : (s.firstPhase request).step = some step := h
    rw [first_step] at hstep
    cases hstep
  · exact .inl hold

theorem proving_step {found : Option String} :
    (s.proving valid call found).claim = none ∧
      ∀ step, (s.proving valid call found).step = some step → windowStart step ≤ s.now := by
  unfold State.proving
  cases found with
  | none => exact ⟨rfl, fun _ h ↦ by cases h⟩
  | some secret =>
    cases call.request.code with
    | none => exact ⟨rfl, fun _ h ↦ by cases h⟩
    | some code =>
      dsimp only
      split
      · next hmatch =>
        refine ⟨rfl, fun step h ↦ ?_⟩
        cases h
        exact matchTimestep_eq_some hmatch
      · exact ⟨rfl, fun _ h ↦ by cases h⟩

/-- A prompt claim succeeds only on a step that was never claimed. -/
theorem Spent.claim (h : Spent s) (hcall : s.calls id = some call)
    (hphase : call.phase = .matched secret step) (hprompt : call.phase.Prompt s) :
    Spent (s.claim id call secret step) := by
  have hstart : windowStart step ≤ s.now := h.reading id call step hcall (by rw [hphase]; rfl)
  rw [State.claim]
  split
  · exact h.quiet (.move hcall rfl (fun _ h ↦ by cases h) rfl)
  next hfree =>
  have hnew : s.used step = none := by
    cases hused : s.used step with
    | none => rfl
    | some e =>
      exfalso
      refine hfree (Option.isSome_iff_exists.2 ⟨e.value, ?_⟩)
      refine Expiring.get_eq_some.2 ⟨e, hused, ?_, rfl⟩
      rw [hphase] at hprompt
      rcases hprompt with hin | hlive
      · have hend := h.claim_expires step e hused
        exact_mod_cast hin.trans_le hend
      · exact hlive e hused
  have hunaccepted : step ∉ s.steps := fun hmem ↦ by
    have hsome := h.claimed step hmem
    rw [hnew] at hsome
    cases hsome
  have hunheld : ∀ id' call', s.calls id' = some call' → call'.phase.claim ≠ some step := by
    intro id' call' hcall' hclaim
    have hsome := (h.held id' call' step hcall' hclaim).1
    rw [hnew] at hsome
    cases hsome
  have hused : ∀ step', (s.used step').isSome →
      (Function.update s.used step (some ⟨(), s.now + replayTtlSeconds * 1000⟩) step').isSome := by
    intro step' hsome
    by_cases heq : step' = step
    · rw [heq, Function.update_self]
      rfl
    · rwa [Function.update_of_ne heq]
  refine ⟨⟨?_, h.guard_expires, ?_⟩, ⟨?_, ?_, ?_, h.nodup⟩, ⟨h.guard, ?_, ?_, h.accepted⟩⟩
  · intro step' e hsome
    have hsome : Function.update s.used step
      (some ⟨(), s.now + replayTtlSeconds * 1000⟩) step' = some e := hsome
    by_cases heq : step' = step
    · rw [heq, Function.update_self] at hsome
      cases hsome
      rw [heq]
      exact expires_of_windowStart hstart
    · rw [Function.update_of_ne heq] at hsome
      exact h.claim_expires step' e hsome
  · intro id' call' step' hcall' hstep
    rcases s.put_calls hcall' with ⟨rfl, rfl⟩ | ⟨-, hold⟩
    · cases hstep
      exact hstart
    · exact h.reading id' call' step' hold hstep
  · intro id' call' step' hcall' hclaim
    rcases s.put_calls hcall' with ⟨rfl, rfl⟩ | ⟨-, hold⟩
    · cases hclaim
      refine ⟨?_, hunaccepted⟩
      dsimp only
      rw [Function.update_self]
      rfl
    · obtain ⟨hsome, hnot⟩ := h.held id' call' step' hold hclaim
      exact ⟨hused step' hsome, hnot⟩
  · intro id₁ id₂ call₁ call₂ step' hcall₁ hcall₂ hclaim₁ hclaim₂
    rcases s.put_calls hcall₁ with ⟨rfl, rfl⟩ | ⟨-, hold₁⟩
    · cases hclaim₁
      rcases s.put_calls hcall₂ with ⟨rfl, rfl⟩ | ⟨-, hold₂⟩
      · rfl
      · exact absurd hclaim₂ (hunheld _ _ hold₂)
    · rcases s.put_calls hcall₂ with ⟨rfl, rfl⟩ | ⟨-, hold₂⟩
      · cases hclaim₂
        exact absurd hclaim₁ (hunheld _ _ hold₁)
      · exact h.apart id₁ id₂ call₁ call₂ step' hold₁ hold₂ hclaim₁ hclaim₂
  · intro step' hmem
    exact hused step' (h.claimed step' hmem)
  · intro id' call' hcall' earlier hmem
    rcases s.put_calls hcall' with ⟨rfl, rfl⟩ | ⟨-, hold⟩
    · exact h.before id' call hcall earlier hmem
    · exact h.before id' call' hold earlier hmem
  · intro id' call' secret' step' hcall' hguarded
    rcases s.put_calls hcall' with ⟨rfl, rfl⟩ | ⟨-, hold⟩
    · cases hguarded
    · exact h.ahead id' call' secret' step' hold hguarded

/-- A prompt look at the guard that finds no later step proves that there is none. -/
theorem Spent.later (h : Spent s)
    (hprompt : (Phase.claimed secret step).Prompt s)
    (hguard : ¬(Expiring.get s.last s.now).any fun last ↦ step ≤ last) :
    ∀ earlier ∈ s.steps, earlier < step := by
  intro earlier hmem
  obtain ⟨e, hlast, hle⟩ := h.guard earlier hmem
  refine hle.trans_lt ?_
  by_contra hnot
  rw [not_lt] at hnot
  have hexpired : e.expires ≤ s.now := by
    by_contra hlive
    rw [not_le] at hlive
    refine hguard ?_
    rw [Expiring.get_eq_some.2 ⟨e, hlast, hlive, rfl⟩, Option.any_some, decide_eq_true hnot]
  rcases hprompt with hin | hlive
  · have hend := h.guard_expires e hlast
    have hmono : windowEnd step ≤ windowEnd e.value := by
      rw [windowEnd, windowEnd]
      simp only [stepSeconds]
      omega
    have hexpired : (e.expires : ℤ) ≤ s.now := by exact_mod_cast hexpired
    omega
  · exact absurd (hlive e hlast hnot) (not_lt.2 hexpired)

theorem Spent.readGuard (h : Spent s) (hcall : s.calls id = some call)
    (hphase : call.phase = .claimed secret step) (hprompt : call.phase.Prompt s) :
    Spent (s.put id { call with phase := s.readGuard secret step }) := by
  rw [State.readGuard]
  split
  · exact h.quiet (.move hcall rfl (fun _ h ↦ by cases h) rfl)
  next hguard =>
  rw [hphase] at hprompt
  have hlater := h.later hprompt hguard
  have hclaim : call.phase.claim = some step := by rw [hphase]; rfl
  have hheld := h.held id call step hcall hclaim
  refine ⟨⟨h.claim_expires, h.guard_expires, ?_⟩, ⟨?_, ?_, h.claimed, h.nodup⟩,
    ⟨h.guard, ?_, ?_, h.accepted⟩⟩
  · intro id' call' step' hcall' hstep
    rcases s.put_calls hcall' with ⟨rfl, rfl⟩ | ⟨-, hold⟩
    · cases hstep
      exact h.reading id' call step hcall (by rw [hphase]; rfl)
    · exact h.reading id' call' step' hold hstep
  · intro id' call' step' hcall' hclaim'
    rcases s.put_calls hcall' with ⟨rfl, rfl⟩ | ⟨-, hold⟩
    · cases hclaim'
      exact hheld
    · exact h.held id' call' step' hold hclaim'
  · intro id₁ id₂ call₁ call₂ step' hcall₁ hcall₂ hclaim₁ hclaim₂
    rcases s.put_calls hcall₁ with ⟨rfl, rfl⟩ | ⟨-, hold₁⟩
    · cases hclaim₁
      rcases s.put_calls hcall₂ with ⟨rfl, rfl⟩ | ⟨-, hold₂⟩
      · rfl
      · exact h.apart _ id₂ call call₂ step hcall hold₂ hclaim hclaim₂
    · rcases s.put_calls hcall₂ with ⟨rfl, rfl⟩ | ⟨-, hold₂⟩
      · cases hclaim₂
        exact h.apart id₁ _ call₁ call step hold₁ hcall hclaim₁ hclaim
      · exact h.apart id₁ id₂ call₁ call₂ step' hold₁ hold₂ hclaim₁ hclaim₂
  · intro id' call' hcall' earlier hmem
    rcases s.put_calls hcall' with ⟨rfl, rfl⟩ | ⟨-, hold⟩
    · exact h.before id' call hcall earlier hmem
    · exact h.before id' call' hold earlier hmem
  · intro id' call' secret' step' hcall' hguarded
    rcases s.put_calls hcall' with ⟨rfl, rfl⟩ | ⟨-, hold⟩
    · cases hguarded
      intro earlier hmem
      exact hlater earlier (h.before id' call hcall earlier hmem)
    · exact h.ahead id' call' secret' step' hold hguarded

theorem Spent.accept (h : Spent s) (hcall : s.calls id = some call)
    (hphase : call.phase = .guarded secret step) (hprompt : call.phase.Prompt s) :
    Spent (s.accept id call secret step) := by
  have hstart : windowStart step ≤ s.now := h.reading id call step hcall (by rw [hphase]; rfl)
  have hclaim : call.phase.claim = some step := by rw [hphase]; rfl
  obtain ⟨hused, hnew⟩ := h.held id call step hcall hclaim
  have hahead := h.ahead id call secret step hcall hphase
  have hbefore := h.before id call hcall
  rw [hphase] at hprompt
  set t := s.accept id call secret step with ht
  have hsteps : t.steps = s.steps ++ [step] := by
    rw [State.steps, State.steps, ht, State.accept]
    exact List.map_append
  have hcalls : ∀ id' call', t.calls id' = some call' →
      call'.phase.step = none ∧ call'.before = call.before ∨
        id' ≠ id ∧ s.calls id' = some call' := by
    intro id' call' hcall'
    rcases s.put_calls hcall' with ⟨-, rfl⟩ | hold
    · refine .inl ⟨?_, rfl⟩
      dsimp only
      split <;> rfl
    · exact .inr hold
  have hold : ∀ id' call' step', t.calls id' = some call' → call'.phase.claim = some step' →
      id' ≠ id ∧ s.calls id' = some call' := by
    intro id' call' step' hcall' hclaim'
    rcases hcalls id' call' hcall' with ⟨hnone, -⟩ | hold
    · rw [claim_of_step hnone] at hclaim'
      cases hclaim'
    · exact hold
  refine ⟨⟨h.claim_expires, ?_, ?_⟩, ⟨?_, ?_, ?_, ?_⟩, ⟨?_, ?_, ?_, ?_⟩⟩
  · intro e hlast
    cases hlast
    exact expires_of_windowStart hstart
  · intro id' call' step' hcall' hstep
    rcases hcalls id' call' hcall' with ⟨hnone, -⟩ | ⟨-, hold⟩
    · rw [hnone] at hstep
      cases hstep
    · exact h.reading id' call' step' hold hstep
  · intro id' call' step' hcall' hclaim'
    obtain ⟨hne, hcall'⟩ := hold id' call' step' hcall' hclaim'
    obtain ⟨hsome, hnot⟩ := h.held id' call' step' hcall' hclaim'
    refine ⟨hsome, ?_⟩
    rw [hsteps, List.mem_append, List.mem_singleton, not_or]
    refine ⟨hnot, fun heq ↦ hne ?_⟩
    rw [heq] at hclaim'
    exact h.apart id' id call' call step hcall' hcall hclaim' hclaim
  · intro id₁ id₂ call₁ call₂ step' hcall₁ hcall₂ hclaim₁ hclaim₂
    exact h.apart id₁ id₂ call₁ call₂ step' (hold _ _ _ hcall₁ hclaim₁).2
      (hold _ _ _ hcall₂ hclaim₂).2 hclaim₁ hclaim₂
  · intro step' hmem
    rw [hsteps, List.mem_append, List.mem_singleton] at hmem
    rcases hmem with hmem | rfl
    · exact h.claimed step' hmem
    · exact hused
  · rw [hsteps]
    exact List.nodup_append.2 ⟨h.nodup, List.nodup_singleton _, fun a ha b hb heq ↦
      hnew (List.mem_singleton.1 hb ▸ heq ▸ ha)⟩
  · intro step' hmem
    refine ⟨⟨step, s.now + replayTtlSeconds * 1000⟩, rfl, ?_⟩
    rw [hsteps, List.mem_append, List.mem_singleton] at hmem
    rcases hmem with hmem | rfl
    · obtain ⟨e, hlast, hle⟩ := h.guard step' hmem
      exact hle.trans (hprompt e hlast)
    · exact le_rfl
  · intro id' call' hcall' earlier hmem
    rw [hsteps]
    refine List.mem_append_left _ ?_
    rcases hcalls id' call' hcall' with ⟨-, heq⟩ | ⟨-, hold⟩
    · exact hbefore earlier (heq ▸ hmem)
    · exact h.before id' call' hold earlier hmem
  · intro id' call' secret' step' hcall' hguarded
    obtain ⟨-, hcall'⟩ := hold id' call' step' hcall' (by rw [hguarded]; rfl)
    exact h.ahead id' call' secret' step' hcall' hguarded
  · intro a ha
    rcases List.mem_append.1 ha with ha | ha
    · exact h.accepted a ha
    · rw [List.mem_singleton.1 ha]
      exact hahead

theorem matchPending_step {request : Request} {source : Option ℕ} :
    (s.matchPending valid request secret source).step = none := by
  unfold State.matchPending
  split
  · split <;> rfl
  · rfl

theorem fallback_step : s.fallback.step = none := by
  rw [State.fallback]
  split <;> rfl

/-- The statements that touch neither the claims nor the guard. -/
theorem Spent.rest (h : Spent s) (hcall : s.calls id = some call)
    (hadvance : s.advance valid id call = some t)
    (hrest : call.phase.step = none) : Spent t := by
  have hmove : ∀ call' : Call, call'.phase.step = none → call'.before = call.before →
      Quiet s (s.put id call') := by
    intro call' hnone hbefore
    refine .move hcall (claim_of_step hnone) (fun step hstep ↦ ?_) hbefore
    rw [hnone] at hstep
    cases hstep
  refine h.quiet ?_
  rw [State.advance] at hadvance
  cases hphase : call.phase with
  | proving found =>
    rw [hphase] at hadvance
    cases hadvance
    exact .move hcall proving_step.1 proving_step.2 rfl
  | matched secret step =>
    rw [hphase] at hrest
    cases hrest
  | claimed secret step =>
    rw [hphase] at hrest
    cases hrest
  | guarded secret step =>
    rw [hphase] at hrest
    cases hrest
  | ready =>
    simp only [hphase, State.write] at hadvance
    split at hadvance
    · cases hadvance
      exact (hmove { call with phase := .done true } rfl rfl).beside ..
    · cases hadvance
      exact (hmove { call with phase := .committed } rfl rfl).beside ..
    · cases hadvance
    · cases hadvance
  | unpended =>
    rw [hphase] at hadvance
    cases hadvance
    exact hmove _ fallback_step rfl
  | found secret source =>
    rw [hphase] at hadvance
    cases hadvance
    exact hmove _ matchPending_step rfl
  | checked secret source =>
    rw [hphase] at hadvance
    cases hadvance
    exact hmove _ rfl rfl
  | target secret source row =>
    simp only [hphase, State.commit] at hadvance
    split at hadvance
    · cases hadvance
      exact hmove _ rfl rfl
    · cases hadvance
      exact (hmove { call with phase := .committed } rfl rfl).beside ..
  | committed =>
    rw [hphase] at hadvance
    cases hadvance
    exact (hmove { call with phase := .done true } rfl rfl).beside ..
  | done result =>
    rw [hphase] at hadvance
    cases hadvance
  | failed =>
    rw [hphase] at hadvance
    cases hadvance

theorem next_spent (h : Spent s) {a : Action} (hprompt : Prompt s a)
    (hnext : s.next valid a = some t) : Spent t := by
  cases a with
  | tick ms =>
    cases hnext
    exact h.quiet ⟨Nat.le_add_right .., rfl, rfl, rfl, fun _ _ hcall ↦ .inl hcall⟩
  | start id request =>
    rw [State.next] at hnext
    split at hnext
    · cases hnext
      exact h.quiet (.start id request)
    · cases hnext
  | advance id =>
    obtain ⟨call, hcall, hadvance⟩ := Option.bind_eq_some_iff.1 hnext
    have hprompt := hprompt call hcall
    cases hphase : call.phase with
    | matched secret step =>
      rw [State.advance, hphase] at hadvance
      cases hadvance
      exact h.claim hcall hphase hprompt
    | claimed secret step =>
      rw [State.advance, hphase] at hadvance
      cases hadvance
      exact h.readGuard hcall hphase hprompt
    | guarded secret step =>
      rw [State.advance, hphase] at hadvance
      cases hadvance
      exact h.accept hcall hphase hprompt
    | _ =>
      refine h.rest hcall hadvance ?_
      rw [hphase]
      rfl

theorem initial_spent (h : Initial s) : Spent s := by
  obtain ⟨hused, hlast, -, hcalls, haccepted, -, -⟩ := h
  have hsteps : s.steps = [] := by rw [State.steps, haccepted]; rfl
  refine ⟨⟨?_, ?_, ?_⟩, ⟨?_, ?_, ?_, ?_⟩, ⟨?_, ?_, ?_, ?_⟩⟩ <;>
    simp [hused, hlast, hcalls, haccepted, hsteps]

/-- In a run of prompt requests each step is accepted at most once, and a request is accepted only
with a step after all that were accepted when it started. -/
theorem steps_accepted_once (hrun : ((service valid).restrict Prompt).Reachable s) :
    s.steps.Nodup ∧ ∀ a ∈ s.accepted, ∀ earlier ∈ a.before, earlier < a.step := by
  have hspent : Spent s := by
    refine hrun.invariant ?_ ?_
    · intro u hu
      exact initial_spent hu
    · intro u a v hu hst
      exact next_spent hu hst.1 hst.2
  exact ⟨hspent.nodup, hspent.accepted⟩

section Sample

instance (s : State) : ∀ phase : Phase, Decidable (phase.Prompt s)
  | .matched _ step =>
    decidable_of_iff (s.now < windowEnd step ∨ ∀ e ∈ s.used step, s.now < e.expires) Iff.rfl
  | .claimed _ step =>
    decidable_of_iff
      (s.now < windowEnd step ∨ ∀ e ∈ s.last, step ≤ e.value → s.now < e.expires) Iff.rfl
  | .guarded _ step => decidable_of_iff (∀ e ∈ s.last, e.value ≤ step) Iff.rfl
  | .proving _ | .ready | .unpended | .found _ _ | .checked _ _ | .target _ _ _ | .committed
  | .done _ | .failed => .isTrue trivial

instance (s : State) : ∀ a, Decidable (Prompt s a)
  | .advance id => decidable_of_iff (∀ call ∈ s.calls id, call.phase.Prompt s) Iff.rfl
  | .tick _ | .start _ _ => .isTrue trivial

def enrolled (row : Option Row) : State where
  now := 0
  row
  used := fun _ ↦ none
  last := none
  pending := none
  calls := fun _ ↦ none
  accepted := []
  proofs := []
  commits := []

theorem enrolled_initial (row : Option Row) : Initial (enrolled row) :=
  ⟨rfl, rfl, rfl, rfl, rfl, rfl, rfl⟩

/-- The codes of a step, one for each secret. -/
def sampleValid (secret code : String) (step : ℤ) : Bool :=
  code = secret ++ "0" && step = 0 || code = secret ++ "1" && step = 1 ||
    code = secret ++ "2" && step = 2

def live : Option Row := some ⟨some "K", true⟩

/-- A request from its start to its answer. -/
def sent (id : ℕ) (r : Request) (statements : ℕ) : List Action :=
  .start id r :: List.replicate statements (.advance id)

theorem steps_accepted_once_sample : ∃ s : State, s.accepted = [⟨0, []⟩, ⟨1, [0]⟩] ∧ s.steps.Nodup ∧
    ∀ a ∈ s.accepted, ∀ earlier ∈ a.before, earlier < a.step := by
  have hrun : ((sent 0 (.verify "K0") 4 ++ sent 1 (.disable "K1") 4).foldlM
      (fun s a ↦ if Prompt s a then s.next sampleValid a else none) (enrolled live)).map
        (·.accepted) = some [⟨0, []⟩, ⟨1, [0]⟩] := by
    decide +kernel
  obtain ⟨s, hs, haccepted⟩ := Machine.exists_reachable _ (enrolled_initial live) hrun
  exact ⟨s, haccepted, steps_accepted_once hs⟩

/-- The code of step 1 is read at the end of its window and claimed after it. -/
def lateClaim : List Action :=
  sent 0 (.verify "K1") 4 ++ [.tick 89999] ++ sent 1 (.verify "K1") 1 ++
    [.tick 1, .advance 1, .advance 1, .advance 1]

/-- A request of step 0 writes the guard after one of step 2, and a third comes with step 1. -/
def loweredGuard : List Action :=
  [.tick 30000] ++ sent 0 (.verify "K2") 3 ++ sent 1 (.verify "K0") 3 ++
    [.advance 0, .advance 1] ++ sent 2 (.verify "K1") 4

/-- A step is accepted twice, and a step is accepted after a later one. -/
theorem step_replayed :
    (∃ s, (service sampleValid).Reachable s ∧ s.accepted = [⟨1, []⟩, ⟨1, [1]⟩]) ∧
    ∃ s, (service sampleValid).Reachable s ∧ s.accepted = [⟨2, []⟩, ⟨0, []⟩, ⟨1, [2, 0]⟩] :=
  ⟨Machine.exists_reachable_of_foldlM lateClaim (enrolled_initial live) (by decide +kernel),
    Machine.exists_reachable_of_foldlM loweredGuard (enrolled_initial live) (by decide +kernel)⟩

end Sample

end Tiqora.Totp
