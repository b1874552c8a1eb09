import Tiqora.Totp.Timesteps

namespace Tiqora.Totp

open Foundation

/-- No factor was committed or deleted since so many commits. -/
def Current (s : State) (seen : ℕ) : Prop := seen = s.commits.length

/-- An `enroll` stores its secret, a `confirm` commits and a `disable` deletes while what it read
is current. When a `confirm` commits, its secret is still the pending one or none is pending. -/
def Phase.Undisturbed (s : State) (call : Call) : Phase → Prop
  | .ready => Current s call.seen
  | .target secret _ _ =>
    Current s call.seen ∧ ∀ p, Expiring.get s.pending s.now = some p → p.1 = secret
  | _ => True

def Undisturbed (s : State) : Action → Prop
  | .advance id => ∀ call, s.calls id = some call → call.phase.Undisturbed s call
  | .tick _ | .start _ _ => True

/-- The call gave a code that was accepted for the secret. -/
def State.Given (valid : String → String → ℤ → Bool) (s : State) (id : ℕ) (secret : String) :
    Prop :=
  (id, secret) ∈ s.proofs ∧ ∃ call code step, s.calls id = some call ∧
    call.request.code = some code ∧ valid secret code step = true ∧ step ∈ s.steps

/-- The secret is that of the call, whose step-up was accepted, or no other factor has been
confirmed since it read the row. A secret of a row that was never enabled has no call. -/
def State.Unrivalled (s : State) (secret : String) : Option ℕ → Prop
  | none => ∀ other, some other ∉ s.commits
  | some id => ∃ call code, s.calls id = some call ∧ call.request = .enroll secret code ∧
    ((∃ proved, (id, proved) ∈ s.proofs) ∨
      ∀ other, some other ∈ s.commits.drop call.seen → other = secret)

/-- The live factor is the pending secret itself, or the step-up was accepted for it. -/
def State.Backed (s : State) (secret : String) : Option ℕ → Prop
  | none => Row.live s.row = none
  | some id => ∀ row, Row.live s.row = some row →
    row.secret = some secret ∨ ∃ proved, row.secret = some proved ∧ (id, proved) ∈ s.proofs

/-- The live factor has the secret. -/
def State.Live (s : State) (secret : Option String) : Prop :=
  ∃ row, Row.live s.row = some row ∧ row.secret = secret

/-- What a call knows as long as what it read is current. -/
def Phase.Holds (valid : String → String → ℤ → Bool) (s : State) (id : ℕ) (request : Request)
    (seen : ℕ) : Phase → Prop
  | .proving secret => Current s seen → s.Live secret
  | .matched secret step | .claimed secret step | .guarded secret step =>
    (∃ code, request.code = some code ∧ valid secret code step = true) ∧
      (Current s seen → s.Live (some secret))
  | .ready =>
    (∃ proved, (id, proved) ∈ s.proofs ∧ (Current s seen → s.Live (some proved))) ∨
      (∃ secret code, request = .enroll secret code) ∧ (Current s seen → Row.live s.row = none)
  | .found secret source | .checked secret source =>
    Current s seen → s.Backed secret source ∧ s.Unrivalled secret source
  | .target secret source row =>
    Current s seen → s.Backed secret source ∧ s.Unrivalled secret source ∧ s.row = row
  | .unpended => ∃ code, request = .confirm code
  | .committed | .done _ | .failed => True

structure Call.Held (valid : String → String → ℤ → Bool) (s : State) (id : ℕ) (call : Call) :
    Prop where
  seen : call.seen ≤ s.commits.length
  phase : call.phase.Holds valid s id call.request call.seen

structure Kept (valid : String → String → ℤ → Bool) (s : State) : Prop where
  calls : ∀ id call, s.calls id = some call → call.Held valid s id
  pending : ∀ secret id, Expiring.get s.pending s.now = some (secret, id) →
    s.Backed secret (some id) ∧ s.Unrivalled secret (some id)
  proofs : ∀ p ∈ s.proofs, s.Given valid p.1 p.2
  fallback : ∀ row, s.row = some row → row.enabled = false → ∀ other, some other ∉ s.commits

variable {s t : State} {valid : String → String → ℤ → Bool} {id : ℕ} {call call' : Call}
  {secret : String} {source : Option ℕ} {row : Row} {phase : Phase}
  {request : Request} {seen : ℕ}

theorem live_eq_some {r : Option Row} : Row.live r = some row ↔ r = some row ∧ row.enabled = true :=
  Option.filter_eq_some_iff

/-- A step that commits nothing. -/
structure Grows (s t : State) : Prop where
  row : t.row = s.row
  commits : t.commits = s.commits
  proofs : ∀ p ∈ s.proofs, p ∈ t.proofs
  steps : ∀ step ∈ s.steps, step ∈ t.steps
  calls : ∀ id call, s.calls id = some call → ∃ call', t.calls id = some call' ∧
    call'.request = call.request ∧
      ((∃ secret code, call.request = .enroll secret code) → call'.seen = call.seen)

theorem State.Unrivalled.grows (hg : Grows s t) (h : s.Unrivalled secret source) :
    t.Unrivalled secret source := by
  cases source with
  | none =>
    intro other hmem
    rw [hg.commits] at hmem
    exact h other hmem
  | some id =>
    obtain ⟨call, code, hcall, hrequest, hrivals⟩ := h
    obtain ⟨call', hcall', hrequest', hseen⟩ := hg.calls id call hcall
    refine ⟨call', code, hcall', hrequest'.trans hrequest, ?_⟩
    rcases hrivals with ⟨proved, hmem⟩ | hrivals
    · exact .inl ⟨proved, hg.proofs _ hmem⟩
    · rw [hg.commits, hseen ⟨secret, code, hrequest⟩]
      exact .inr hrivals

theorem State.Backed.grows (hg : Grows s t) (h : s.Backed secret source) :
    t.Backed secret source := by
  cases source with
  | none =>
    rw [State.Backed, hg.row]
    exact h
  | some id =>
    intro row hrow
    rw [hg.row] at hrow
    rcases h row hrow with heq | ⟨proved, heq, hmem⟩
    · exact .inl heq
    · exact .inr ⟨proved, heq, hg.proofs _ hmem⟩

theorem State.Given.grows (hg : Grows s t) (h : s.Given valid id secret) :
    t.Given valid id secret := by
  obtain ⟨hmem, call, code, step, hcall, hcode, hvalid, hstep⟩ := h
  obtain ⟨call', hcall', hrequest, -⟩ := hg.calls id call hcall
  exact ⟨hg.proofs _ hmem, call', code, step, hcall', hrequest ▸ hcode, hvalid, hg.steps _ hstep⟩

theorem Phase.Holds.grows (hg : Grows s t) (h : phase.Holds valid s id request seen) :
    phase.Holds valid t id request seen := by
  have hcurrent : Current t seen → Current s seen := fun hc ↦ hc.trans (by rw [hg.commits])
  have hlive : ∀ secret, s.Live secret → t.Live secret := by
    intro secret hlive
    rw [State.Live, hg.row]
    exact hlive
  cases phase with
  | proving secret => exact fun hc ↦ hlive _ (h (hcurrent hc))
  | matched secret step => exact ⟨h.1, fun hc ↦ hlive _ (h.2 (hcurrent hc))⟩
  | claimed secret step => exact ⟨h.1, fun hc ↦ hlive _ (h.2 (hcurrent hc))⟩
  | guarded secret step => exact ⟨h.1, fun hc ↦ hlive _ (h.2 (hcurrent hc))⟩
  | ready =>
    rcases h with ⟨proved, hmem, h⟩ | ⟨hrequest, h⟩
    · exact .inl ⟨proved, hg.proofs _ hmem, fun hc ↦ hlive _ (h (hcurrent hc))⟩
    · refine .inr ⟨hrequest, fun hc ↦ ?_⟩
      rw [hg.row]
      exact h (hcurrent hc)
  | found secret source =>
    intro hc
    obtain ⟨hbacked, hrivals⟩ := h (hcurrent hc)
    exact ⟨hbacked.grows hg, hrivals.grows hg⟩
  | checked secret source =>
    intro hc
    obtain ⟨hbacked, hrivals⟩ := h (hcurrent hc)
    exact ⟨hbacked.grows hg, hrivals.grows hg⟩
  | target secret source row =>
    intro hc
    obtain ⟨hbacked, hrivals, hrow⟩ := h (hcurrent hc)
    exact ⟨hbacked.grows hg, hrivals.grows hg, hg.row.trans hrow⟩
  | unpended => exact h
  | committed => trivial
  | done result => trivial
  | failed => trivial

/-- Calls that have read before a commit are not current after it. -/
theorem Phase.Holds.outdated {x : Option String} (hcommits : t.commits = s.commits ++ [x])
    (hproofs : t.proofs = s.proofs) (hseen : seen ≤ s.commits.length)
    (h : phase.Holds valid s id request seen) : phase.Holds valid t id request seen := by
  have hold : ¬Current t seen := by
    rw [Current, hcommits, List.length_append, List.length_singleton]
    omega
  cases phase with
  | proving secret => exact fun hc ↦ absurd hc hold
  | matched secret step => exact ⟨h.1, fun hc ↦ absurd hc hold⟩
  | claimed secret step => exact ⟨h.1, fun hc ↦ absurd hc hold⟩
  | guarded secret step => exact ⟨h.1, fun hc ↦ absurd hc hold⟩
  | ready =>
    rcases h with ⟨proved, hmem, -⟩ | ⟨hrequest, -⟩
    · exact .inl ⟨proved, hproofs ▸ hmem, fun hc ↦ absurd hc hold⟩
    · exact .inr ⟨hrequest, fun hc ↦ absurd hc hold⟩
  | found secret source => exact fun hc ↦ absurd hc hold
  | checked secret source => exact fun hc ↦ absurd hc hold
  | target secret source row => exact fun hc ↦ absurd hc hold
  | unpended => exact h
  | committed => trivial
  | done result => trivial
  | failed => trivial

theorem Kept.grows (h : Kept valid s) (hg : Grows s t)
    (hcalls : ∀ id call, t.calls id = some call →
      s.calls id = some call ∨ call.Held valid t id)
    (hpending : ∀ secret id, Expiring.get t.pending t.now = some (secret, id) →
      Expiring.get s.pending s.now = some (secret, id) ∨
        t.Backed secret (some id) ∧ t.Unrivalled secret (some id))
    (hproofs : ∀ p ∈ t.proofs, p ∈ s.proofs ∨ t.Given valid p.1 p.2) : Kept valid t := by
  refine ⟨?_, ?_, ?_, ?_⟩
  · intro id call hcall
    rcases hcalls id call hcall with hold | hheld
    · obtain ⟨hseen, hphase⟩ := h.calls id call hold
      exact ⟨hg.commits ▸ hseen, hphase.grows hg⟩
    · exact hheld
  · intro secret id hget
    rcases hpending secret id hget with hold | hnew
    · obtain ⟨hbacked, hrivals⟩ := h.pending secret id hold
      exact ⟨hbacked.grows hg, hrivals.grows hg⟩
    · exact hnew
  · intro p hp
    rcases hproofs p hp with hold | hnew
    · exact (h.proofs p hold).grows hg
    · exact hnew
  · rw [hg.row, hg.commits]
    exact h.fallback

theorem put_self : (s.put id call).calls id = some call := Function.update_self ..

theorem put_of_ne {id' : ℕ} (h : id' ≠ id) : (s.put id call).calls id' = s.calls id' :=
  Function.update_of_ne h ..

/-- One call goes on: the others find what they found. -/
theorem continued (hcall : s.calls id = some call) (hrequest : call'.request = call.request)
    (hseen : (∃ secret code, call.request = .enroll secret code) → call'.seen = call.seen) :
    ∀ id₁ call₁, s.calls id₁ = some call₁ → ∃ call₂, (s.put id call').calls id₁ = some call₂ ∧
      call₂.request = call₁.request ∧
        ((∃ secret code, call₁.request = .enroll secret code) → call₂.seen = call₁.seen) := by
  intro id₁ call₁ hcall₁
  by_cases heq : id₁ = id
  · subst heq
    rw [hcall] at hcall₁
    cases hcall₁
    exact ⟨call', put_self, hrequest, hseen⟩
  · exact ⟨call₁, (put_of_ne heq).trans hcall₁, rfl, fun _ ↦ rfl⟩

/-- A call moves on and changes nothing but the replay keys. -/
theorem Kept.move (h : Kept valid s) (call' : Call) (hcall : s.calls id = some call)
    (hrequest : call'.request = call.request)
    (hseen : (∃ secret code, call.request = .enroll secret code) → call'.seen = call.seen)
    (hheld : call'.Held valid s id) (used : ℤ → Option (Expiring Unit))
    (last : Option (Expiring ℤ)) : Kept valid { s.put id call' with used, last } := by
  have hg : Grows s { s.put id call' with used, last } :=
    ⟨rfl, rfl, fun _ hp ↦ hp, fun _ hs ↦ hs, continued hcall hrequest hseen⟩
  refine h.grows hg ?_ (fun _ _ hget ↦ .inl hget) (fun _ hp ↦ .inl hp)
  intro id₁ call₁ hcall₁
  rcases s.put_calls hcall₁ with ⟨rfl, rfl⟩ | ⟨-, hold⟩
  · exact .inr ⟨hheld.seen, hheld.phase.grows hg⟩
  · exact .inl hold

theorem Kept.over (h : Kept valid s) (hcall : s.calls id = some call)
    (hphase : phase.Holds valid s id call.request call.seen) :
    Kept valid (s.put id { call with phase }) :=
  h.move { call with phase } hcall rfl (fun _ ↦ rfl) ⟨(h.calls id call hcall).seen, hphase⟩
    s.used s.last

theorem firstPhase_holds (h : Kept valid s) :
    (s.firstPhase request).Holds valid s id request s.commits.length := by
  cases request with
  | confirm code =>
    rw [State.firstPhase]
    split
    · next secret source hget => exact fun _ ↦ h.pending secret source hget
    · exact ⟨code, rfl⟩
  | enroll secret currentCode =>
    rw [State.firstPhase]
    split
    · next hnone => exact .inr ⟨⟨secret, currentCode, rfl⟩, fun _ ↦ hnone⟩
    · next row hlive =>
      split
      · exact fun _ ↦ ⟨row, hlive, rfl⟩
      · trivial
  | verify code =>
    rw [State.firstPhase]
    split
    · trivial
    · next row hlive => exact fun _ ↦ ⟨row, hlive, rfl⟩
  | disable code =>
    rw [State.firstPhase]
    split
    · trivial
    · next row hlive => exact fun _ ↦ ⟨row, hlive, rfl⟩

theorem Kept.start (h : Kept valid s) (hfree : s.calls id = none) (request : Request) :
    Kept valid (s.start id request) := by
  have hg : Grows s (s.start id request) := by
    refine ⟨rfl, rfl, fun _ hp ↦ hp, fun _ hs ↦ hs, fun id₁ call₁ hcall₁ ↦ ?_⟩
    have hne : id₁ ≠ id := by
      rintro rfl
      rw [hfree] at hcall₁
      cases hcall₁
    exact ⟨call₁, (put_of_ne hne).trans hcall₁, rfl, fun _ ↦ rfl⟩
  refine h.grows hg ?_ (fun _ _ hget ↦ .inl hget) (fun _ hp ↦ .inl hp)
  intro id₁ call₁ hcall₁
  rcases s.put_calls hcall₁ with ⟨rfl, rfl⟩ | ⟨-, hold⟩
  · exact .inr ⟨le_rfl, (firstPhase_holds h).grows hg⟩
  · exact .inl hold

theorem matchTimestep_valid {code : String} {now : ℕ} {step : ℤ}
    (h : matchTimestep valid secret code now = some step) : valid secret code step = true :=
  List.find?_some h

theorem Kept.proving (h : Kept valid s) (hcall : s.calls id = some call) {found : Option String}
    (hphase : call.phase = .proving found) :
    Kept valid (s.put id { call with phase := s.proving valid call found }) := by
  have hheld := h.calls id call hcall
  have hlive : Current s call.seen → s.Live found := by
    have hholds := hheld.phase
    rw [hphase] at hholds
    exact hholds
  refine h.over hcall ?_
  unfold State.proving
  cases found with
  | none => trivial
  | some secret =>
    cases hcode : call.request.code with
    | none => trivial
    | some code =>
      dsimp only
      split
      · next hmatch => exact ⟨⟨code, hcode, matchTimestep_valid hmatch⟩, hlive⟩
      · trivial

theorem Kept.claim (h : Kept valid s) (hcall : s.calls id = some call) {step : ℤ}
    (hphase : call.phase = .matched secret step) : Kept valid (s.claim id call secret step) := by
  have hheld := h.calls id call hcall
  have hholds := hheld.phase
  rw [hphase] at hholds
  rw [State.claim]
  split
  · exact h.over hcall trivial
  · exact h.move { call with phase := .claimed secret step } hcall rfl (fun _ ↦ rfl)
      ⟨hheld.seen, hholds⟩ _ s.last

theorem Kept.readGuard (h : Kept valid s) (hcall : s.calls id = some call) {step : ℤ}
    (hphase : call.phase = .claimed secret step) :
    Kept valid (s.put id { call with phase := s.readGuard secret step }) := by
  have hheld := h.calls id call hcall
  have hholds := hheld.phase
  rw [hphase] at hholds
  rw [State.readGuard]
  split
  · exact h.over hcall trivial
  · exact h.over hcall hholds

theorem Kept.accept (h : Kept valid s) (hcall : s.calls id = some call) {step : ℤ}
    (hphase : call.phase = .guarded secret step) : Kept valid (s.accept id call secret step) := by
  obtain ⟨hseen, hholds⟩ := h.calls id call hcall
  rw [hphase] at hholds
  obtain ⟨⟨code, hcode, hvalid⟩, hlive⟩ := hholds
  set t := s.accept id call secret step with ht
  have hmem : (id, secret) ∈ t.proofs := List.mem_append_right _ (List.mem_singleton_self _)
  have hg : Grows s t := by
    refine ⟨rfl, rfl, fun _ hp ↦ List.mem_append_left _ hp, fun step' hmem ↦ ?_,
      continued hcall rfl fun _ ↦ rfl⟩
    rw [ht, State.steps, State.accept, List.map_append]
    exact List.mem_append_left _ hmem
  refine h.grows hg ?_ (fun _ _ hget ↦ .inl hget) ?_
  · intro id₁ call₁ hcall₁
    rcases s.put_calls hcall₁ with ⟨rfl, rfl⟩ | ⟨-, hold⟩
    · refine .inr ⟨hseen, ?_⟩
      dsimp only
      split
      · trivial
      · exact .inl ⟨secret, hmem, hlive⟩
    · exact .inl hold
  · intro p hp
    rcases List.mem_append.1 hp with hold | hnew
    · exact .inl hold
    · rw [List.mem_singleton.1 hnew]
      refine .inr ⟨hmem, _, code, step, put_self, hcode, hvalid, ?_⟩
      rw [ht, State.steps, State.accept, List.map_append]
      exact List.mem_append_right _ (List.mem_singleton_self _)

theorem drop_append_singleton {α : Type} {l : List α} {x : α} {n : ℕ} (h : n ≤ l.length) :
    (l ++ [x]).drop n = l.drop n ++ [x] := List.drop_append_of_le_length h

/-- The secret of an enrollment becomes the pending one. -/
theorem Kept.store (h : Kept valid s) (hcall : s.calls id = some call)
    (hphase : call.phase = .ready) (hcurrent : Current s call.seen) {code : Option String}
    (hrequest : call.request = .enroll secret code) :
    Kept valid { s.put id { call with phase := .done true } with
      pending := some ⟨(secret, id), s.now + pendingTtlSeconds * 1000⟩ } := by
  obtain ⟨hseen, hholds⟩ := h.calls id call hcall
  rw [hphase] at hholds
  set t : State := { s.put id { call with phase := .done true } with
      pending := some ⟨(secret, id), s.now + pendingTtlSeconds * 1000⟩ } with ht
  have hg : Grows s t := ⟨rfl, rfl, fun _ hp ↦ hp, fun _ hs ↦ hs, continued hcall rfl fun _ ↦ rfl⟩
  refine h.grows hg ?_ ?_ (fun _ hp ↦ .inl hp)
  · intro id₁ call₁ hcall₁
    rcases s.put_calls hcall₁ with ⟨rfl, rfl⟩ | ⟨-, hold⟩
    · exact .inr ⟨hseen, trivial⟩
    · exact .inl hold
  · intro secret' id' hget
    obtain ⟨e, he, -, hvalue⟩ := Expiring.get_eq_some.1 hget
    cases he
    cases hvalue
    refine .inr ⟨fun row hrow ↦ ?_, ⟨_, code, put_self, hrequest, ?_⟩⟩
    · have hrow : Row.live s.row = some row := hrow
      rcases hholds with ⟨proved, hmem, hlive⟩ | ⟨-, hnone⟩
      · obtain ⟨row', hrow', hsecret⟩ := hlive hcurrent
        rw [hrow'] at hrow
        cases hrow
        exact .inr ⟨proved, hsecret, hmem⟩
      · rw [hnone hcurrent] at hrow
        cases hrow
    · refine .inr fun other hmem ↦ ?_
      rw [show call.seen = s.commits.length from hcurrent] at hmem
      have hnil : s.commits.drop s.commits.length = [] := List.drop_length
      rw [ht] at hmem
      dsimp only [State.put] at hmem
      rw [hnil] at hmem
      cases hmem

theorem State.Unrivalled.commits {x : Option String} (hseen : ∀ id call, s.calls id = some call →
      call.seen ≤ s.commits.length) (hcommits : t.commits = s.commits ++ [x])
    (hproofs : t.proofs = s.proofs)
    (hcalls : ∀ id call, s.calls id = some call → ∃ call', t.calls id = some call' ∧
      call'.request = call.request ∧ call'.seen = call.seen)
    (hx : ∀ other ∈ x, other = secret) (h : s.Unrivalled secret (some id)) :
    t.Unrivalled secret (some id) := by
  obtain ⟨call, code, hcall, hrequest, hrivals⟩ := h
  obtain ⟨call', hcall', hrequest', hseen'⟩ := hcalls id call hcall
  refine ⟨call', code, hcall', hrequest'.trans hrequest, ?_⟩
  rcases hrivals with ⟨proved, hmem⟩ | hrivals
  · exact .inl ⟨proved, hproofs ▸ hmem⟩
  · refine .inr fun other hmem ↦ ?_
    rw [hseen', hcommits, List.drop_append_of_le_length (hseen id call hcall)] at hmem
    rcases List.mem_append.1 hmem with hmem | hmem
    · exact hrivals other hmem
    · exact hx other (List.mem_singleton.1 hmem).symm

/-- A commit with the row that it leaves. The pending secret, if there is one, is that of the new
row, or no row is left. -/
theorem Kept.commit (h : Kept valid s) (hcall : s.calls id = some call) {x : Option String}
    {row' : Option Row} (hrow' : row' = x.map fun secret ↦ ⟨some secret, true⟩)
    (hpending : ∀ p, Expiring.get s.pending s.now = some p → ∀ secret ∈ x, p.1 = secret) :
    Kept valid { s.put id { call with phase := .committed } with
      row := row'
      commits := s.commits ++ [x] } := by
  set t : State := { s.put id { call with phase := .committed } with
      row := row'
      commits := s.commits ++ [x] } with ht
  have hcalls : ∀ id₁ call₁, s.calls id₁ = some call₁ → ∃ call₂, t.calls id₁ = some call₂ ∧
      call₂.request = call₁.request ∧ call₂.seen = call₁.seen := by
    intro id₁ call₁ hcall₁
    by_cases heq : id₁ = id
    · subst heq
      rw [hcall] at hcall₁
      cases hcall₁
      exact ⟨_, put_self, rfl, rfl⟩
    · exact ⟨call₁, (put_of_ne heq).trans hcall₁, rfl, rfl⟩
  have hseen : ∀ id call, s.calls id = some call → call.seen ≤ s.commits.length :=
    fun id call hcall ↦ (h.calls id call hcall).seen
  have hlength : s.commits.length ≤ t.commits.length := by
    rw [ht, List.length_append]
    exact Nat.le_add_right ..
  refine ⟨?_, ?_, ?_, ?_⟩
  · intro id₁ call₁ hcall₁
    rcases s.put_calls hcall₁ with ⟨rfl, rfl⟩ | ⟨-, hold⟩
    · exact ⟨(hseen _ _ hcall).trans hlength, trivial⟩
    · obtain ⟨hseen₁, hphase⟩ := h.calls id₁ call₁ hold
      exact ⟨hseen₁.trans hlength, hphase.outdated rfl rfl hseen₁⟩
  · intro secret source hget
    obtain ⟨-, hrivals⟩ := h.pending secret source hget
    refine ⟨fun row hrow ↦ ?_, hrivals.commits hseen rfl rfl hcalls fun other hother ↦
      (hpending _ hget other hother).symm⟩
    obtain ⟨hrow, -⟩ := live_eq_some.1 hrow
    have hrow : row' = some row := hrow
    rw [hrow'] at hrow
    obtain ⟨secret', hx, rfl⟩ := Option.map_eq_some_iff.1 hrow
    exact .inl (congrArg some (hpending _ hget secret' hx).symm)
  · intro p hp
    obtain ⟨hmem, call₁, code, step, hcall₁, hcode, hvalid, hstep⟩ := h.proofs p hp
    obtain ⟨call₂, hcall₂, hrequest, -⟩ := hcalls _ call₁ hcall₁
    exact ⟨hmem, call₂, code, step, hcall₂, hrequest ▸ hcode, hvalid, hstep⟩
  · intro row hrow hdisabled
    have hrow : row' = some row := hrow
    rw [hrow'] at hrow
    obtain ⟨secret', -, rfl⟩ := Option.map_eq_some_iff.1 hrow
    cases hdisabled

theorem Kept.write (h : Kept valid s) (hcall : s.calls id = some call)
    (hphase : call.phase = .ready) (hcurrent : Current s call.seen)
    (hwrite : s.write id call = some t) : Kept valid t := by
  rw [State.write] at hwrite
  split at hwrite
  · next hrequest =>
    cases hwrite
    exact h.store hcall hphase hcurrent hrequest
  · cases hwrite
    exact h.commit (x := none) hcall rfl fun _ _ _ hmem ↦ by cases hmem
  · cases hwrite
  · cases hwrite

/-- A current `confirm` writes the row that it has read. -/
theorem confirmed_of_current {row : Option Row} (hrow : s.row = row) :
    s.confirmed secret row = some ⟨some secret, true⟩ := by
  cases row with
  | none => rw [State.confirmed, hrow]; rfl
  | some row =>
    rw [State.confirmed, hrow, Option.map_some]
    cases row.enabled <;> rfl

theorem Kept.clearPending (h : Kept valid s) (hcall : s.calls id = some call) :
    Kept valid { s.put id { call with phase := .done true } with pending := none } := by
  have hmoved : Kept valid (s.put id { call with phase := .done true }) := h.over hcall trivial
  refine hmoved.grows ⟨rfl, rfl, fun _ hp ↦ hp, fun _ hs ↦ hs, fun _ call hcall ↦
    ⟨call, hcall, rfl, fun _ ↦ rfl⟩⟩ (fun _ _ hcall ↦ .inl hcall) (fun _ _ hget ↦ by cases hget)
    fun _ hp ↦ .inl hp

theorem matchPending_holds {found : String}
    (h : Current s seen → s.Backed found source ∧ s.Unrivalled found source) :
    (s.matchPending valid request found source).Holds valid s id request seen := by
  unfold State.matchPending
  split
  · split
    · exact h
    · trivial
  · trivial

theorem fallback_holds (h : Kept valid s) :
    s.fallback.Holds valid s id request s.commits.length := by
  unfold State.fallback
  split
  · next secret hrow =>
    refine fun _ ↦ ⟨?_, h.fallback _ hrow rfl⟩
    rw [State.Backed, hrow]
    rfl
  · trivial

theorem Kept.advance (h : Kept valid s) (hcall : s.calls id = some call)
    (hundisturbed : call.phase.Undisturbed s call)
    (hadvance : s.advance valid id call = some t) : Kept valid t := by
  obtain ⟨hseen, hholds⟩ := h.calls id call hcall
  rw [State.advance] at hadvance
  split at hadvance
  · next hphase =>
    cases hadvance
    exact h.proving hcall hphase
  · next hphase =>
    cases hadvance
    exact h.claim hcall hphase
  · next hphase =>
    cases hadvance
    exact h.readGuard hcall hphase
  · next hphase =>
    cases hadvance
    exact h.accept hcall hphase
  · next hphase =>
    rw [hphase] at hundisturbed
    exact h.write hcall hphase hundisturbed hadvance
  · next hphase =>
    cases hadvance
    rw [hphase] at hholds
    obtain ⟨code, hconfirm⟩ := hholds
    refine h.move { call with phase := s.fallback, seen := s.commits.length } hcall rfl ?_
      ⟨le_rfl, fallback_holds h⟩ s.used s.last
    rintro ⟨secret, currentCode, henroll⟩
    rw [hconfirm] at henroll
    cases henroll
  · next found source hphase =>
    cases hadvance
    rw [hphase] at hholds
    exact h.over hcall (matchPending_holds hholds)
  · next hphase =>
    cases hadvance
    rw [hphase] at hholds
    refine h.over hcall fun hc ↦ ?_
    obtain ⟨hbacked, hrivals⟩ := hholds hc
    exact ⟨hbacked, hrivals, rfl⟩
  · next hphase =>
    cases hadvance
    rw [hphase] at hholds hundisturbed
    obtain ⟨hcurrent, hpending⟩ := hundisturbed
    obtain ⟨-, -, hrow⟩ := hholds hcurrent
    rw [State.commit, confirmed_of_current hrow]
    refine h.commit (x := some _) hcall rfl fun p hp secret hsecret ↦ ?_
    cases hsecret
    exact hpending p hp
  · cases hadvance
    exact h.clearPending hcall
  · cases hadvance
  · cases hadvance

theorem next_kept (h : Kept valid s) {a : Action} (hundisturbed : Undisturbed s a)
    (hnext : s.next valid a = some t) : Kept valid t := by
  cases a with
  | tick ms =>
    cases hnext
    refine h.grows ⟨rfl, rfl, fun _ hp ↦ hp, fun _ hs ↦ hs, fun _ call hcall ↦
      ⟨call, hcall, rfl, fun _ ↦ rfl⟩⟩ (fun _ _ hcall ↦ .inl hcall) ?_ fun _ hp ↦ .inl hp
    intro secret id hget
    obtain ⟨e, he, hlive, hvalue⟩ := Expiring.get_eq_some.1 hget
    exact .inl (Expiring.get_eq_some.2 ⟨e, he, (Nat.le_add_right ..).trans_lt hlive, hvalue⟩)
  | start id request =>
    rw [State.next] at hnext
    split at hnext
    · next hfree =>
      cases hnext
      exact h.start (Option.isNone_iff_eq_none.1 hfree) request
    · cases hnext
  | advance id =>
    obtain ⟨call, hcall, hadvance⟩ := Option.bind_eq_some_iff.1 hnext
    exact h.advance hcall (hundisturbed call hcall) hadvance

theorem initial_kept (h : Initial s) : Kept valid s := by
  obtain ⟨-, -, hpending, hcalls, -, hproofs, hcommits⟩ := h
  refine ⟨?_, ?_, ?_, ?_⟩
  · simp [hcalls]
  · simp [hpending, Expiring.get]
  · simp [hproofs]
  · simp [hcommits]

theorem reachable_kept (hrun : ((service valid).restrict Undisturbed).Reachable s) :
    Kept valid s := by
  refine hrun.invariant ?_ ?_
  · intro u hu
    exact initial_kept hu
  · intro u a v hu hst
    exact next_kept hu hst.1 hst.2

/-- Only the last statements of `confirm` and `disable` change the row. -/
theorem row_changed {a : Action} (hnext : s.next valid a = some t) (hrow : t.row ≠ s.row) :
    ∃ id call, a = .advance id ∧ s.calls id = some call ∧
      ((call.phase = .ready ∧ t.row = none ∧ ∃ code, call.request = .disable code) ∨
        ∃ secret source row, call.phase = .target secret source row ∧
          s.confirmed secret row = t.row) := by
  cases a with
  | tick ms =>
    cases hnext
    exact absurd rfl hrow
  | start id request =>
    rw [State.next] at hnext
    split at hnext
    · cases hnext
      exact absurd rfl hrow
    · cases hnext
  | advance id =>
    obtain ⟨call, hcall, hadvance⟩ := Option.bind_eq_some_iff.1 hnext
    refine ⟨id, call, rfl, hcall, ?_⟩
    rw [State.advance] at hadvance
    split at hadvance
    · cases hadvance
      exact absurd rfl hrow
    · cases hadvance
      rw [State.claim] at hrow
      split at hrow
      · exact absurd rfl hrow
      · exact absurd rfl hrow
    · cases hadvance
      exact absurd rfl hrow
    · cases hadvance
      exact absurd rfl hrow
    · next hphase =>
      rw [State.write] at hadvance
      split at hadvance
      · cases hadvance
        exact absurd rfl hrow
      · next code hrequest =>
        cases hadvance
        exact .inl ⟨hphase, rfl, code, hrequest⟩
      · cases hadvance
      · cases hadvance
    · cases hadvance
      exact absurd rfl hrow
    · cases hadvance
      exact absurd rfl hrow
    · cases hadvance
      exact absurd rfl hrow
    · next secret source row hphase =>
      cases hadvance
      refine .inr ⟨secret, source, row, hphase, ?_⟩
      rw [State.commit] at hrow ⊢
      split at hrow
      · exact absurd rfl hrow
      · next row' hconfirmed =>
        rw [hconfirmed]
    · cases hadvance
      exact absurd rfl hrow
    · cases hadvance
    · cases hadvance

/-- In an undisturbed run, a live factor is deleted by a call whose code was accepted for it, and
another one takes its place from an enrollment whose code was accepted for it. What a `confirm`
commits comes from an enrollment with an accepted code, or no other factor has been confirmed since
it started. -/
theorem live_factor_proved (hrun : ((service valid).restrict Undisturbed).Reachable s) {a : Action}
    (hundisturbed : Undisturbed s a) (hnext : s.next valid a = some t) :
    (∀ row, Row.live s.row = some row → t.row.map (·.secret) ≠ some row.secret →
      ∃ id proved, row.secret = some proved ∧ s.Given valid id proved ∧
        (t.row = none ∧ a = .advance id ∨ ∃ secret code call, t.row = some ⟨some secret, true⟩ ∧
          s.calls id = some call ∧ call.request = .enroll secret code)) ∧
    ∀ id call secret source row, a = .advance id → s.calls id = some call →
      call.phase = .target secret source row → s.Unrivalled secret source := by
  have hkept := reachable_kept hrun
  constructor
  · intro row hlive hchanged
    obtain ⟨hrow, -⟩ := live_eq_some.1 hlive
    have hne : t.row ≠ s.row := by
      intro heq
      rw [heq, hrow] at hchanged
      exact hchanged rfl
    obtain ⟨id, call, rfl, hcall, hready | htarget⟩ := row_changed hnext hne
    · obtain ⟨hphase, hnone, code, hrequest⟩ := hready
      have hcurrent := hundisturbed call hcall
      obtain ⟨-, hholds⟩ := hkept.calls id call hcall
      rw [hphase] at hcurrent hholds
      rcases hholds with ⟨proved, hmem, hproved⟩ | ⟨⟨secret, code', hrequest'⟩, -⟩
      · obtain ⟨row', hrow', hsecret⟩ := hproved hcurrent
        rw [hlive] at hrow'
        cases hrow'
        exact ⟨id, proved, hsecret, hkept.proofs _ hmem, .inl ⟨hnone, rfl⟩⟩
      · rw [hrequest] at hrequest'
        cases hrequest'
    · obtain ⟨secret, source, row', hphase, hconfirmed⟩ := htarget
      obtain ⟨hcurrent, -⟩ : (Phase.target secret source row').Undisturbed s call :=
        hphase ▸ hundisturbed call hcall
      obtain ⟨-, hholds⟩ := hkept.calls id call hcall
      rw [hphase] at hholds
      obtain ⟨hbacked, hrivals, hread⟩ := hholds hcurrent
      rw [confirmed_of_current hread] at hconfirmed
      cases source with
      | none =>
        rw [State.Backed, hlive] at hbacked
        cases hbacked
      | some source =>
        obtain ⟨call', code, hcall', hrequest, -⟩ := hrivals
        rcases hbacked row hlive with heq | ⟨proved, heq, hmem⟩
        · rw [← hconfirmed, heq] at hchanged
          exact absurd rfl hchanged
        · exact ⟨source, proved, heq, hkept.proofs _ hmem,
            .inr ⟨secret, code, call', hconfirmed.symm, hcall', hrequest⟩⟩
  · rintro id call secret source row rfl hcall hphase
    obtain ⟨hcurrent, -⟩ : (Phase.target secret source row).Undisturbed s call :=
      hphase ▸ hundisturbed call hcall
    obtain ⟨-, hholds⟩ := hkept.calls id call hcall
    rw [hphase] at hholds
    exact (hholds hcurrent).2.1

section Sample

instance (s : State) (seen : ℕ) : Decidable (Current s seen) :=
  inferInstanceAs (Decidable (seen = s.commits.length))

instance (s : State) (call : Call) : ∀ phase : Phase, Decidable (phase.Undisturbed s call)
  | .ready => inferInstanceAs (Decidable (Current s call.seen))
  | .target secret _ _ =>
    decidable_of_iff (Current s call.seen ∧
      ∀ p ∈ Expiring.get s.pending s.now, p.1 = secret) Iff.rfl
  | .proving _ | .matched _ _ | .claimed _ _ | .guarded _ _ | .unpended | .found _ _ | .checked _ _
  | .committed | .done _ | .failed => .isTrue trivial

instance (s : State) : ∀ a, Decidable (Undisturbed s a)
  | .advance id => decidable_of_iff (∀ call ∈ s.calls id, call.phase.Undisturbed s call) Iff.rfl
  | .tick _ | .start _ _ => .isTrue trivial

/-- A step-up with the live factor, and the confirmation of the new one up to its commit. -/
def replacement : List Action :=
  sent 0 (.enroll "N" (some "K0")) 5 ++ sent 1 (.confirm "N1") 2

theorem live_factor_proved_sample : ∃ s t : State, s.row = live ∧ t.row = some ⟨some "N", true⟩ ∧
    (∀ row, Row.live s.row = some row → t.row.map (·.secret) ≠ some row.secret →
      ∃ id proved, row.secret = some proved ∧ s.Given sampleValid id proved ∧
        (t.row = none ∧ Action.advance 1 = .advance id ∨
          ∃ secret code call, t.row = some ⟨some secret, true⟩ ∧ s.calls id = some call ∧
            call.request = .enroll secret code)) ∧
    ∀ id call secret source row, Action.advance 1 = .advance id → s.calls id = some call →
      call.phase = .target secret source row → s.Unrivalled secret source := by
  have hrun : ((replacement.foldlM (fun s a ↦ if Undisturbed s a then s.next sampleValid a else
      none) (enrolled live)).bind fun s ↦ (if Undisturbed s (.advance 1) then
        s.next sampleValid (.advance 1) else none).map fun t ↦ (s.row, t.row)) =
          some (live, some ⟨some "N", true⟩) := by
    decide +kernel
  obtain ⟨s, hs, hstep⟩ := Option.bind_eq_some_iff.1 hrun
  obtain ⟨t, ht, hrows⟩ := Option.map_eq_some_iff.1 hstep
  by_cases hundisturbed : Undisturbed s (.advance 1)
  · rw [if_pos hundisturbed] at ht
    obtain ⟨hrow, hrow'⟩ := Prod.mk.inj hrows
    exact ⟨s, t, hrow, hrow', live_factor_proved
      ⟨enrolled live, _, enrolled_initial live, Machine.run_of_foldlM _ hs⟩ hundisturbed ht⟩
  · rw [if_neg hundisturbed] at ht
    cases ht

/-- An enrollment reads that there is no row, and stores its secret after another one has been
confirmed. -/
def overtakenEnroll : List Action :=
  [.start 0 (.enroll "A" none)] ++ sent 1 (.enroll "B" none) 1 ++ sent 2 (.confirm "B0") 4 ++
    [.advance 0] ++ sent 3 (.confirm "A0") 2

/-- A live factor is replaced although no call ever gave a code for it. -/
theorem live_factor_replaced : ∃ s t, (service sampleValid).Reachable s ∧
    s.next sampleValid (.advance 3) = some t ∧ s.row = some ⟨some "B", true⟩ ∧
      t.row = some ⟨some "A", true⟩ ∧ s.proofs = [] := by
  have hrun : ((overtakenEnroll.foldlM (State.next sampleValid) (enrolled none)).bind fun s ↦
      (s.next sampleValid (.advance 3)).map fun t ↦ (s.row, t.row, s.proofs)) =
        some (some ⟨some "B", true⟩, some ⟨some "A", true⟩, []) := by
    decide +kernel
  obtain ⟨s, hs, hstep⟩ := Option.bind_eq_some_iff.1 hrun
  obtain ⟨t, ht, hvalues⟩ := Option.map_eq_some_iff.1 hstep
  obtain ⟨hrow, hvalues⟩ := Prod.mk.inj hvalues
  obtain ⟨hrow', hproofs⟩ := Prod.mk.inj hvalues
  have hsteps : ((service sampleValid).restrict fun _ _ ↦ True).Run _ _ s :=
    Machine.run_of_foldlM_forall _ (fun _ _ _ ↦ trivial) hs
  exact ⟨s, t, ⟨_, _, enrolled_initial none, hsteps.of_restrict⟩, ht, hrow, hrow', hproofs⟩

end Sample

end Tiqora.Totp
