import Mathlib.Data.Finset.Max
import Mathlib.Data.Finset.Prod
import Mathlib.Order.Interval.Finset.Nat
import Tiqora.Foundation.Machine
import Tiqora.Foundation.Tables

namespace Tiqora.Webchat

open Foundation

/-- A key of the store: a count, and when it is dropped (in milliseconds). -/
structure Counter where
  count : ℕ
  expires : Option ℕ
  deriving DecidableEq

def Counter.Live (now : ℕ) (c : Counter) : Prop := ∀ e ∈ c.expires, now < e

instance (now : ℕ) (c : Counter) : Decidable (c.Live now) :=
  inferInstanceAs (Decidable (∀ e ∈ c.expires, now < e))

def live (key : Option Counter) (now : ℕ) : Option Counter :=
  key.filter fun c ↦ c.Live now

def incr (key : Option Counter) (now : ℕ) : Counter :=
  match live key now with
  | some c => { c with count := c.count + 1 }
  | none => ⟨1, none⟩

/-- Seconds, rounded; `-1` without an expiry and `-2` without a key. -/
def ttl (key : Option Counter) (now : ℕ) : ℤ :=
  match live key now with
  | none => -2
  | some c =>
    match c.expires with
    | none => -1
    | some e => ((e - now + 500) / 1000 : ℕ)

def expire (key : Option Counter) (now seconds : ℕ) : Option Counter :=
  key.map fun c ↦ if c.Live now then { c with expires := some (now + 1000 * seconds) } else c

inductive Verdict
  | allowed
  | rateLimited (retryAfter : ℤ)
  deriving DecidableEq

/-- A counted hit: its call, the life of the counter it fell in, and when. -/
structure Hit where
  call : ℕ
  life : ℕ
  count : ℕ
  time : ℕ
  deriving DecidableEq

/-- A call of the limiter after its pipeline, with what `TTL` said. An answer notes the life of the
counter it was about. -/
inductive LimiterCall
  | counted (hit : Hit) (seconds : ℤ)
  | checked (found : Option (ℕ × ℕ)) (seconds : ℤ)
  | answered (life : Option ℕ) (verdict : Verdict)
  | unavailable
  deriving DecidableEq

/-- The bucket of one scope and subject. The lives of its counter are numbered, and `born` is the
start of the last one. -/
structure Bucket where
  now : ℕ
  key : Option Counter
  life : ℕ
  born : ℕ
  calls : Table ℕ LimiterCall
  hits : List Hit
  passed : List Hit

inductive LimiterAction
  | tick (ms : ℕ)
  | hit (call : ℕ)
  | check (call : ℕ)
  | advance (call : ℕ)
  | fail (call : ℕ)
  deriving DecidableEq

namespace Bucket

variable (limit windowSeconds : ℕ) (s : Bucket)

def put (call : ℕ) (value : LimiterCall) : Bucket :=
  { s with calls := s.calls.set call (some value) }

/-- `INCR` and `TTL` in one transaction. -/
def hitPipeline (call : ℕ) : Bucket :=
  let c := incr s.key s.now
  let fresh := (live s.key s.now).isNone
  let h : Hit := ⟨call, if fresh then s.life + 1 else s.life, c.count, s.now⟩
  { s with
    key := some c
    life := h.life
    born := if fresh then s.now else s.born
    calls := s.calls.set call (some (.counted h (ttl (some c) s.now)))
    hits := s.hits ++ [h] }

/-- A counter without an expiry gets one. -/
def healed (permanent : Bool) : Bucket :=
  if permanent then { s with key := expire s.key s.now windowSeconds } else s

/-- The rest of a `hit`. -/
def hitRest (h : Hit) (seconds : ℤ) : Bucket :=
  let s' := s.healed windowSeconds (seconds < 0)
  let seconds' := if seconds < 0 then (windowSeconds : ℤ) else seconds
  if limit < h.count then s'.put h.call (.answered (some h.life) (.rateLimited (max 1 seconds')))
  else { s'.put h.call (.answered (some h.life) .allowed) with passed := s'.passed ++ [h] }

/-- `GET` and `TTL` in one transaction. -/
def checkPipeline (call : ℕ) : Bucket :=
  s.put call (.checked ((live s.key s.now).map fun c ↦ (s.life, c.count)) (ttl s.key s.now))

def checkRest (call : ℕ) (found : Option (ℕ × ℕ)) (seconds : ℤ) : Bucket :=
  match found with
  | none => s.put call (.answered none .allowed)
  | some (life, raw) =>
    let s' := s.healed windowSeconds (seconds = -1)
    let seconds' := if seconds = -1 then (windowSeconds : ℤ) else seconds
    s'.put call (.answered (some life)
      (if limit ≤ raw then .rateLimited (max 1 seconds') else .allowed))

def next : LimiterAction → Option Bucket
  | .tick ms => some { s with now := s.now + ms }
  | .hit call => if s.calls.find call = none then some (s.hitPipeline call) else none
  | .check call => if s.calls.find call = none then some (s.checkPipeline call) else none
  | .advance call =>
    match s.calls.find call with
    | some (.counted h seconds) => some (s.hitRest limit windowSeconds h seconds)
    | some (.checked found seconds) => some (s.checkRest limit windowSeconds call found seconds)
    | _ => none
  | .fail call =>
    match s.calls.find call with
    | some (.answered _ _) => none
    | _ => some (s.put call .unavailable)

end Bucket

/-- Calls in any order of steps; a call may fail, or never go on, at any step. -/
def limiter (limit windowSeconds : ℕ) : Machine Bucket LimiterAction :=
  .ofNext (fun s ↦ s.key = none ∧ s.life = 0 ∧ s.born = 0 ∧ s.calls = .empty ∧ s.hits = [] ∧
    s.passed = [])
    (Bucket.next limit windowSeconds)

variable {limit windowSeconds : ℕ} {s s' : Bucket}

theorem exists_expires_of_not_live {now : ℕ} {c : Counter} (h : ¬c.Live now) :
    ∃ e, c.expires = some e ∧ e ≤ now := by
  simpa [Counter.Live] using h

theorem live_eq_some {key : Option Counter} {now : ℕ} {c : Counter} :
    live key now = some c ↔ key = some c ∧ c.Live now := by
  simp [live, Option.filter_eq_some_iff]

theorem live_eq_none {key : Option Counter} {now : ℕ} (h : live key now = none) {c : Counter}
    (hc : key = some c) : ∃ e, c.expires = some e ∧ e ≤ now := by
  refine exists_expires_of_not_live fun hlive ↦ ?_
  rw [live_eq_some.2 ⟨hc, hlive⟩] at h
  cases h

/-- Without an expiry `TTL` says so. -/
theorem ttl_of_permanent {key : Option Counter} {now : ℕ} {c : Counter} (hc : key = some c)
    (h : c.expires = none) : ttl key now = -1 := by
  have hlive : live key now = some c := live_eq_some.2 ⟨hc, by simp [Counter.Live, h]⟩
  simp [ttl, hlive, h]

/-- After an `EXPIRE` there is an end. -/
theorem expires_expire {key : Option Counter} {now seconds : ℕ} {c : Counter}
    (h : expire key now seconds = some c) : c.expires ≠ none := by
  obtain ⟨old, -, rfl⟩ := Option.map_eq_some_iff.1 h
  split
  · simp
  · rename_i hdead
    obtain ⟨e, he, -⟩ := exists_expires_of_not_live hdead
    simp [he]

/-- The counter in time: it lives for a window at least, and a life ends before the next. -/
structure Bucket.Timed (windowSeconds : ℕ) (s : Bucket) : Prop where
  born_le : s.born ≤ s.now
  unused : s.key = none → s.hits = []
  expires : ∀ c, s.key = some c → ∀ e, c.expires = some e →
    s.born + 1000 * windowSeconds ≤ e ∧ e ≤ s.now + 1000 * windowSeconds
  counts : ∀ c, s.key = some c → ∀ h ∈ s.hits, h.life = s.life → h.count ≤ c.count
  hit : ∀ h ∈ s.hits, h.life ≤ s.life ∧ h.time ≤ s.now ∧ 1 ≤ h.count ∧
    (h.life < s.life → h.time ≤ s.born) ∧
    (h.life + 1 < s.life → h.time + 1000 * windowSeconds ≤ s.born)
  apart : ∀ h ∈ s.hits, ∀ h' ∈ s.hits, h.life + 1 < h'.life →
    h.time + 1000 * windowSeconds ≤ h'.time
  distinct : s.hits.Pairwise fun h h' ↦ h.life ≠ h'.life ∨ h.count ≠ h'.count

theorem apart_append {hits : List Hit} {new : Hit} {window : ℕ}
    (h : ∀ a ∈ hits, ∀ b ∈ hits, a.life + 1 < b.life → a.time + window ≤ b.time)
    (hlast : ∀ a ∈ hits, a.life ≤ new.life)
    (hnew : ∀ a ∈ hits, a.life + 1 < new.life → a.time + window ≤ new.time) :
    ∀ a ∈ hits ++ [new], ∀ b ∈ hits ++ [new], a.life + 1 < b.life → a.time + window ≤ b.time := by
  intro a ha b hb hlt
  rcases List.mem_append.1 ha with ha | ha <;> rcases List.mem_append.1 hb with hb | hb
  · exact h a ha b hb hlt
  · cases List.mem_singleton.1 hb
    exact hnew a ha hlt
  · cases List.mem_singleton.1 ha
    have hle := hlast b hb
    omega
  · cases List.mem_singleton.1 ha
    cases List.mem_singleton.1 hb
    omega

namespace Bucket

/-- Only the key and the calls change, and no life gets shorter. -/
theorem Timed.same (h : s.Timed windowSeconds) (hnow : s'.now = s.now) (hlife : s'.life = s.life)
    (hborn : s'.born = s.born) (hhits : s'.hits = s.hits)
    (hkey : s'.key = s.key ∨ s'.key = expire s.key s.now windowSeconds) :
    s'.Timed windowSeconds := by
  have hold : ∀ c, s'.key = some c → ∃ old, s.key = some old ∧ c.count = old.count ∧
      (c.expires = old.expires ∨ c.expires = some (s.now + 1000 * windowSeconds)) := by
    intro c hc
    rcases hkey with heq | heq
    · exact ⟨c, heq ▸ hc, rfl, .inl rfl⟩
    · rw [heq] at hc
      obtain ⟨old, hold, rfl⟩ := Option.map_eq_some_iff.1 hc
      refine ⟨old, hold, ?_⟩
      split
      · exact ⟨rfl, .inr rfl⟩
      · exact ⟨rfl, .inl rfl⟩
  refine ⟨by rw [hborn, hnow]; exact h.born_le, fun hnone ↦ ?_, fun c hc e he ↦ ?_,
    fun c hc hit hmem ↦ ?_, ?_, hhits ▸ h.apart, hhits ▸ h.distinct⟩
  · rw [hhits]
    refine h.unused ?_
    rcases hkey with heq | heq
    · exact heq ▸ hnone
    · rw [heq] at hnone
      exact Option.map_eq_none_iff.1 hnone
  · obtain ⟨old, hold, -, hexpires⟩ := hold c hc
    rw [hborn, hnow]
    rcases hexpires with heq | heq
    · exact h.expires old hold e (heq ▸ he)
    · rw [heq] at he
      cases he
      exact ⟨Nat.add_le_add_right h.born_le _, le_rfl⟩
  · obtain ⟨old, hold, hcount, -⟩ := hold c hc
    rw [hcount, hlife]
    exact h.counts old hold hit (hhits ▸ hmem)
  · rw [hhits, hnow, hlife, hborn]
    exact h.hit

theorem Timed.tick (h : s.Timed windowSeconds) (ms : ℕ) :
    Timed windowSeconds { s with now := s.now + ms } := by
  refine ⟨h.born_le.trans (Nat.le_add_right _ _), h.unused, fun c hc e he ↦ ?_, h.counts,
    fun hit hmem ↦ ?_, h.apart, h.distinct⟩
  · obtain ⟨hge, hle⟩ := h.expires c hc e he
    exact ⟨hge, by simp only; omega⟩
  · obtain ⟨hlife, htime, hrest⟩ := h.hit hit hmem
    exact ⟨hlife, htime.trans (Nat.le_add_right _ _), hrest⟩

theorem Timed.hitPipeline (h : s.Timed windowSeconds) (call : ℕ) :
    (s.hitPipeline call).Timed windowSeconds := by
  cases hlive : live s.key s.now with
  | some c =>
    obtain ⟨hc, -⟩ := live_eq_some.1 hlive
    have hcounts := h.counts c hc
    simp only [Bucket.hitPipeline, incr, hlive, Option.isNone_some, Bool.false_eq_true, if_false]
    refine ⟨h.born_le, fun hnone ↦ (by cases hnone), ?_, ?_, ?_, ?_, ?_⟩
    · rintro c' hc' e he
      cases hc'
      exact h.expires c hc e he
    · rintro c' hc' hit hmem hlife
      cases hc'
      rcases List.mem_append.1 hmem with hmem | hmem
      · exact (hcounts hit hmem hlife).trans (Nat.le_succ _)
      · rw [List.mem_singleton.1 hmem]
    · intro hit hmem
      rcases List.mem_append.1 hmem with hmem | hmem
      · exact h.hit hit hmem
      · rw [List.mem_singleton.1 hmem]
        exact ⟨le_rfl, le_rfl, Nat.succ_pos _, by simp, by simp⟩
    · exact apart_append h.apart (fun hit hmem ↦ (h.hit hit hmem).1) fun hit hmem hlt ↦
        ((h.hit hit hmem).2.2.2.2 hlt).trans h.born_le
    · refine List.pairwise_append.2 ⟨h.distinct, List.pairwise_singleton _ _, ?_⟩
      intro hit hmem hit' hmem'
      rw [List.mem_singleton.1 hmem']
      by_cases hlife : hit.life = s.life
      · exact .inr (Nat.ne_of_lt (Nat.lt_succ_of_le (hcounts hit hmem hlife)))
      · exact .inl hlife
  | none =>
    -- the life before is over, if there was one
    have hover : ∀ hit ∈ s.hits, s.born + 1000 * windowSeconds ≤ s.now := by
      intro hit hmem
      cases hkey : s.key with
      | none =>
        rw [h.unused hkey] at hmem
        exact absurd hmem List.not_mem_nil
      | some c =>
        obtain ⟨e, he, hle⟩ := live_eq_none hlive hkey
        exact (h.expires c hkey e he).1.trans hle
    have hearlier : ∀ hit ∈ s.hits, hit.life < s.life →
        hit.time + 1000 * windowSeconds ≤ s.now := by
      intro hit hmem hlt
      have htime := (h.hit hit hmem).2.2.2.1 hlt
      have hend := hover hit hmem
      omega
    simp only [Bucket.hitPipeline, incr, hlive, Option.isNone_none, if_true]
    refine ⟨le_rfl, fun hnone ↦ (by cases hnone), ?_, ?_, ?_, ?_, ?_⟩
    · rintro c hc e he
      cases hc
      cases he
    · rintro c hc hit hmem hlife
      cases hc
      rcases List.mem_append.1 hmem with hmem | hmem
      · have hle := (h.hit hit hmem).1
        simp only at hlife
        omega
      · rw [List.mem_singleton.1 hmem]
    · intro hit hmem
      rcases List.mem_append.1 hmem with hmem | hmem
      · obtain ⟨hlife, htime, hcount, -⟩ := h.hit hit hmem
        exact ⟨hlife.trans (Nat.le_succ _), htime, hcount, fun _ ↦ htime, fun hlt ↦
          hearlier hit hmem (Nat.lt_of_succ_lt_succ hlt)⟩
      · rw [List.mem_singleton.1 hmem]
        exact ⟨le_rfl, le_rfl, le_rfl, by simp, by simp⟩
    · exact apart_append h.apart (fun hit hmem ↦ (h.hit hit hmem).1.trans (Nat.le_succ _))
        fun hit hmem hlt ↦ hearlier hit hmem (Nat.lt_of_succ_lt_succ hlt)
    · refine List.pairwise_append.2 ⟨h.distinct, List.pairwise_singleton _ _, ?_⟩
      intro hit hmem hit' hmem'
      rw [List.mem_singleton.1 hmem']
      exact .inl (Nat.ne_of_lt (Nat.lt_succ_of_le (h.hit hit hmem).1))

/-- A life that is over or will be. -/
def Ends (s : Bucket) (life : ℕ) : Prop :=
  life ≤ s.life ∧ (life = s.life → ∀ c, s.key = some c → c.expires ≠ none)

/-- The calls: each knows its hit, an answer is about a life that ends, and what was let through
was counted within the limit. -/
structure Served (limit : ℕ) (s : Bucket) : Prop where
  counted : ∀ call h seconds, s.calls.find call = some (.counted h seconds) →
    h.call = call ∧ h ∈ s.hits ∧ h.life ≤ s.life ∧ (0 ≤ seconds → s.Ends h.life)
  checked : ∀ call life raw seconds, s.calls.find call = some (.checked (some (life, raw)) seconds) →
    life ≤ s.life ∧ (seconds ≠ -1 → s.Ends life)
  answered : ∀ call life verdict, s.calls.find call = some (.answered (some life) verdict) →
    s.Ends life
  passed_nodup : s.passed.Nodup
  passed : ∀ h ∈ s.passed, h ∈ s.hits ∧ h.count ≤ limit ∧
    ∃ life verdict, s.calls.find h.call = some (.answered life verdict)

/-- The store and the log go on, and the calls that are there stay as they are. -/
theorem Served.mono (h : s.Served limit) (hhits : ∀ a ∈ s.hits, a ∈ s'.hits)
    (hcalls : s'.calls = s.calls) (hpassed : s'.passed = s.passed)
    (hends : ∀ life, s.Ends life → s'.Ends life) (hlife : s.life ≤ s'.life) :
    s'.Served limit := by
  refine ⟨fun call a seconds ha ↦ ?_, fun call life raw seconds ha ↦ ?_,
    fun call life verdict ha ↦ ?_, hpassed ▸ h.passed_nodup, fun a ha ↦ ?_⟩
  · obtain ⟨hcall, hmem, hle, hend⟩ := h.counted call a seconds (hcalls ▸ ha)
    exact ⟨hcall, hhits a hmem, hle.trans hlife, fun hseconds ↦ hends _ (hend hseconds)⟩
  · obtain ⟨hle, hend⟩ := h.checked call life raw seconds (hcalls ▸ ha)
    exact ⟨hle.trans hlife, fun hseconds ↦ hends _ (hend hseconds)⟩
  · exact hends _ (h.answered call life verdict (hcalls ▸ ha))
  · obtain ⟨hmem, hcount, hanswered⟩ := h.passed a (hpassed ▸ ha)
    exact ⟨hhits a hmem, hcount, hcalls ▸ hanswered⟩

/-- A call that was not answered goes on. -/
theorem Served.put (h : s.Served limit) {call : ℕ} {value : LimiterCall}
    (hopen : ∀ life verdict, s.calls.find call ≠ some (.answered life verdict))
    (hcounted : ∀ a seconds, value = .counted a seconds →
      a.call = call ∧ a ∈ s.hits ∧ a.life ≤ s.life ∧ (0 ≤ seconds → s.Ends a.life))
    (hchecked : ∀ life raw seconds, value = .checked (some (life, raw)) seconds →
      life ≤ s.life ∧ (seconds ≠ -1 → s.Ends life))
    (hanswered : ∀ life verdict, value = .answered (some life) verdict → s.Ends life) :
    (s.put call value).Served limit := by
  have hfind (other : ℕ) : (s.put call value).calls.find other =
      if other = call then some value else s.calls.find other := by
    split
    · rename_i heq
      rw [heq]
      exact Table.find_set_self
    · exact Table.find_set_of_ne ‹_›
  refine ⟨fun other a seconds ha ↦ ?_, fun other life raw seconds ha ↦ ?_,
    fun other life verdict ha ↦ ?_, h.passed_nodup, fun a ha ↦ ?_⟩
  · rw [hfind] at ha
    split at ha
    · rename_i heq
      exact heq ▸ hcounted a seconds (Option.some.inj ha)
    · exact h.counted other a seconds ha
  · rw [hfind] at ha
    split at ha
    · exact hchecked life raw seconds (Option.some.inj ha)
    · exact h.checked other life raw seconds ha
  · rw [hfind] at ha
    split at ha
    · exact hanswered life verdict (Option.some.inj ha)
    · exact h.answered other life verdict ha
  · obtain ⟨hmem, hcount, life, verdict, hlast⟩ := h.passed a ha
    refine ⟨hmem, hcount, life, verdict, ?_⟩
    have hne : a.call ≠ call := fun heq ↦ hopen life verdict (by rw [← heq]; exact hlast)
    rw [hfind, if_neg hne]
    exact hlast

theorem Served.pass (h : s.Served limit) {hit : Hit} (hmem : hit ∈ s.hits)
    (hcount : hit.count ≤ limit) (hnew : hit ∉ s.passed)
    (hanswered : ∃ life verdict, s.calls.find hit.call = some (.answered life verdict)) :
    Served limit { s with passed := s.passed ++ [hit] } := by
  refine ⟨h.counted, h.checked, h.answered, ?_, fun a ha ↦ ?_⟩
  · exact List.nodup_append.2 ⟨h.passed_nodup, List.nodup_singleton _, fun a ha b hb heq ↦
      hnew (List.mem_singleton.1 hb ▸ heq ▸ ha)⟩
  · rcases List.mem_append.1 ha with ha | ha
    · exact h.passed a ha
    · cases List.mem_singleton.1 ha
      exact ⟨hmem, hcount, hanswered⟩

/-- Where a counter was permanent it ends now. -/
theorem healed_spec (s : Bucket) (windowSeconds : ℕ) (permanent : Bool) :
    let mid := s.healed windowSeconds permanent
    mid.now = s.now ∧ mid.life = s.life ∧ mid.born = s.born ∧ mid.calls = s.calls ∧
      mid.hits = s.hits ∧ mid.passed = s.passed ∧
      (mid.key = s.key ∨ mid.key = expire s.key s.now windowSeconds) ∧
      (∀ life, s.Ends life → mid.Ends life) ∧
      (permanent = true → ∀ life, life ≤ s.life → mid.Ends life) := by
  cases permanent with
  | true =>
    exact ⟨rfl, rfl, rfl, rfl, rfl, rfl, .inr rfl,
      fun life hends ↦ ⟨hends.1, fun _ _ hc ↦ expires_expire hc⟩,
      fun _ life hle ↦ ⟨hle, fun _ _ hc ↦ expires_expire hc⟩⟩
  | false => exact ⟨rfl, rfl, rfl, rfl, rfl, rfl, .inl rfl, fun _ hends ↦ hends, by simp⟩

theorem Served.healed (h : s.Served limit) (permanent : Bool) :
    (s.healed windowSeconds permanent).Served limit := by
  obtain ⟨-, hlife, -, hcalls, hhits, hpassed, -, hends, -⟩ :=
    healed_spec s windowSeconds permanent
  exact h.mono (fun a ha ↦ by rwa [hhits]) hcalls hpassed hends hlife.ge

theorem Served.hitPipeline (h : s.Served limit) {call : ℕ} (hfree : s.calls.find call = none) :
    (s.hitPipeline call).Served limit := by
  let new : Hit := ⟨call, if (live s.key s.now).isNone then s.life + 1 else s.life,
    (incr s.key s.now).count, s.now⟩
  let mid : Bucket := { s with
    key := some (incr s.key s.now)
    life := new.life
    born := if (live s.key s.now).isNone then s.now else s.born
    hits := s.hits ++ [new] }
  have hlife : s.life ≤ mid.life := by
    change s.life ≤ if _ then _ else _
    split
    · exact Nat.le_succ _
    · exact le_rfl
  have hends : ∀ life, s.Ends life → mid.Ends life := by
    rintro life ⟨hle, hend⟩
    refine ⟨hle.trans hlife, fun heq c hc ↦ ?_⟩
    cases hlive : live s.key s.now with
    | some old =>
      have hlast : mid.life = s.life := by simp [mid, new, hlive]
      have hexpires : c.expires = old.expires := by
        cases hc
        simp [incr, hlive]
      rw [hexpires]
      exact hend (heq.trans hlast) old (live_eq_some.1 hlive).1
    | none =>
      have hlast : mid.life = s.life + 1 := by simp [mid, new, hlive]
      omega
  have hmid : mid.Served limit :=
    h.mono (fun _ ha ↦ List.mem_append_left _ ha) rfl rfl hends hlife
  change (mid.put call (.counted new (ttl mid.key s.now))).Served limit
  refine hmid.put (fun life verdict ↦ by rw [show mid.calls = s.calls from rfl, hfree]; simp) ?_
    (fun _ _ _ heq ↦ by cases heq) (fun _ _ heq ↦ by cases heq)
  rintro a seconds heq
  cases heq
  refine ⟨rfl, List.mem_append_right _ (List.mem_singleton.2 rfl), le_rfl, fun hseconds ↦ ?_⟩
  refine ⟨le_rfl, fun _ c hc hpermanent ↦ ?_⟩
  rw [ttl_of_permanent hc hpermanent] at hseconds
  omega

theorem Served.hitRest (h : s.Served limit) {call : ℕ} {hit : Hit} {seconds : ℤ}
    (hfind : s.calls.find call = some (.counted hit seconds)) :
    (s.hitRest limit windowSeconds hit seconds).Served limit := by
  obtain ⟨rfl, hmem, hle, hends⟩ := h.counted call hit seconds hfind
  obtain ⟨-, -, -, hcalls, hhits, hpassed, -, hkeep, hheal⟩ :=
    healed_spec s windowSeconds (seconds < 0)
  have hserved : (s.healed windowSeconds (seconds < 0)).Served limit := h.healed _
  rw [Bucket.hitRest]
  simp only
  generalize s.healed windowSeconds (seconds < 0) = mid at *
  have hend : mid.Ends hit.life := by
    by_cases hneg : seconds < 0
    · exact hheal (decide_eq_true hneg) hit.life hle
    · exact hkeep hit.life (hends (not_lt.1 hneg))
  have hput (verdict : Verdict) :
      (mid.put hit.call (.answered (some hit.life) verdict)).Served limit := by
    refine hserved.put (fun life verdict' ↦ by rw [hcalls, hfind]; simp)
      (fun _ _ heq ↦ by cases heq) (fun _ _ _ heq ↦ by cases heq) fun _ _ heq ↦ ?_
    cases heq
    exact hend
  split
  · exact hput _
  · rename_i hcount
    have hnew : hit ∉ mid.passed := by
      intro hin
      obtain ⟨-, -, life, verdict, hanswered⟩ := h.passed hit (hpassed ▸ hin)
      rw [hfind] at hanswered
      cases hanswered
    refine Served.pass (hput .allowed) (hhits ▸ hmem) (not_lt.1 hcount) hnew ?_
    exact ⟨some hit.life, .allowed, Table.find_set_self⟩

theorem Served.checkPipeline (h : s.Served limit) {call : ℕ} (hfree : s.calls.find call = none) :
    (s.checkPipeline call).Served limit := by
  refine h.put (fun life verdict ↦ by rw [hfree]; simp) (fun _ _ heq ↦ by cases heq)
    (fun life raw seconds heq ↦ ?_) fun _ _ heq ↦ by cases heq
  injection heq with hfound hseconds
  obtain ⟨c, hlive, hpair⟩ := Option.map_eq_some_iff.1 hfound
  cases hpair
  refine ⟨le_rfl, fun hne ↦ ⟨le_rfl, fun _ c' hc' hpermanent ↦ hne ?_⟩⟩
  rw [← hseconds, ttl_of_permanent hc' hpermanent]

theorem Served.checkRest (h : s.Served limit) {call : ℕ} {found : Option (ℕ × ℕ)} {seconds : ℤ}
    (hfind : s.calls.find call = some (.checked found seconds)) :
    (s.checkRest limit windowSeconds call found seconds).Served limit := by
  cases found with
  | none =>
    exact h.put (fun life verdict ↦ by rw [hfind]; simp) (fun _ _ heq ↦ by cases heq)
      (fun _ _ _ heq ↦ by cases heq) fun _ _ heq ↦ by cases heq
  | some found =>
    obtain ⟨life, raw⟩ := found
    obtain ⟨hle, hends⟩ := h.checked call life raw seconds hfind
    obtain ⟨-, -, -, hcalls, hhits, hpassed, -, hkeep, hheal⟩ :=
      healed_spec s windowSeconds (seconds = -1)
    refine (h.healed _).put (fun life' verdict ↦ by rw [hcalls, hfind]; simp)
      (fun _ _ heq ↦ by cases heq) (fun _ _ _ heq ↦ by cases heq) fun life' verdict heq ↦ ?_
    cases heq
    by_cases hminus : seconds = -1
    · exact hheal (decide_eq_true hminus) life hle
    · exact hkeep life (hends hminus)

/-- What a step of the limiter keeps. -/
structure Kept (limit windowSeconds : ℕ) (s : Bucket) : Prop where
  timed : s.Timed windowSeconds
  served : s.Served limit

theorem Timed.healed (h : s.Timed windowSeconds) (permanent : Bool) :
    (s.healed windowSeconds permanent).Timed windowSeconds := by
  obtain ⟨hnow, hlife, hborn, -, hhits, -, hkey, -, -⟩ := healed_spec s windowSeconds permanent
  exact h.same hnow hlife hborn hhits hkey

theorem Kept.next (h : s.Kept limit windowSeconds) {a : LimiterAction}
    (hnext : s.next limit windowSeconds a = some s') : s'.Kept limit windowSeconds := by
  obtain ⟨htimed, hserved⟩ := h
  cases a with
  | tick ms =>
    cases hnext
    exact ⟨htimed.tick ms, hserved.mono (fun _ ha ↦ ha) rfl rfl (fun _ h ↦ h) le_rfl⟩
  | hit call =>
    simp only [Bucket.next] at hnext
    split at hnext
    · cases hnext
      exact ⟨htimed.hitPipeline call, hserved.hitPipeline ‹_›⟩
    · cases hnext
  | check call =>
    simp only [Bucket.next] at hnext
    split at hnext
    · cases hnext
      exact ⟨htimed.same rfl rfl rfl rfl (.inl rfl), hserved.checkPipeline ‹_›⟩
    · cases hnext
  | advance call =>
    simp only [Bucket.next] at hnext
    split at hnext
    · rename_i hit seconds hfind
      cases hnext
      refine ⟨?_, hserved.hitRest hfind⟩
      have hmid := htimed.healed (seconds < 0)
      rw [Bucket.hitRest]
      simp only
      split
      · exact hmid.same rfl rfl rfl rfl (.inl rfl)
      · exact hmid.same rfl rfl rfl rfl (.inl rfl)
    · rename_i found seconds hfind
      cases hnext
      refine ⟨?_, hserved.checkRest hfind⟩
      cases found with
      | none => exact htimed.same rfl rfl rfl rfl (.inl rfl)
      | some found => exact (htimed.healed _).same rfl rfl rfl rfl (.inl rfl)
    · cases hnext
  | fail call =>
    simp only [Bucket.next] at hnext
    split at hnext
    · cases hnext
    · rename_i hopen
      cases hnext
      exact ⟨htimed.same rfl rfl rfl rfl (.inl rfl), hserved.put hopen (fun _ _ heq ↦ by cases heq)
        (fun _ _ _ heq ↦ by cases heq) fun _ _ heq ↦ by cases heq⟩

theorem kept_of_reachable (h : (limiter limit windowSeconds).Reachable s) :
    s.Kept limit windowSeconds := by
  refine h.invariant (fun s hs ↦ ?_) fun _ _ _ hs hst ↦ hs.next hst
  obtain ⟨hkey, hlife, hborn, hcalls, hhits, hpassed⟩ := hs
  have hfind (call : ℕ) : s.calls.find call = none := by rw [hcalls]; rfl
  constructor
  · exact ⟨by omega, fun _ ↦ hhits, by simp [hkey], by simp [hkey], by simp [hhits], by simp [hhits],
      by simp [hhits]⟩
  · exact ⟨by simp [hfind], by simp [hfind], by simp [hfind], by simp [hpassed], by simp [hpassed]⟩

/-- Hits of one window fall in two lives at most, and a life lets `limit` through. -/
theorem Kept.length_le (h : s.Kept limit windowSeconds) (t : ℕ) :
    (s.passed.filter fun a ↦ t ≤ a.time ∧ a.time < t + 1000 * windowSeconds).length ≤
      2 * limit := by
  obtain ⟨htimed, hserved⟩ := h
  set window := s.passed.filter fun a ↦ t ≤ a.time ∧ a.time < t + 1000 * windowSeconds with hwindow
  have hmem : ∀ a ∈ window, a ∈ s.hits ∧ a.count ≤ limit ∧
      t ≤ a.time ∧ a.time < t + 1000 * windowSeconds := by
    intro a ha
    obtain ⟨hpassed, htime⟩ := List.mem_filter.1 ha
    obtain ⟨hhit, hcount, -⟩ := hserved.passed a hpassed
    exact ⟨hhit, hcount, of_decide_eq_true htime⟩
  rcases window.toFinset.eq_empty_or_nonempty with hempty | hne
  · have hnil := List.toFinset_eq_empty_iff _ |>.1 hempty
    simp [hnil]
  obtain ⟨first, hfirst, hleast⟩ := window.toFinset.exists_min_image (·.life) hne
  obtain ⟨hfirsthit, -, hfirsttime, -⟩ := hmem first (List.mem_toFinset.1 hfirst)
  have hinj : Set.InjOn (fun a : Hit ↦ (a.life, a.count)) window.toFinset := by
    intro a ha b hb heq
    obtain ⟨hlife, hcount⟩ := Prod.mk.inj heq
    by_contra hab
    have hsymm : Std.Symm fun a b : Hit ↦ a.life ≠ b.life ∨ a.count ≠ b.count :=
      ⟨fun _ _ h ↦ h.imp Ne.symm Ne.symm⟩
    have hdistinct := htimed.distinct.forall (hmem a (List.mem_toFinset.1 ha)).1
      (hmem b (List.mem_toFinset.1 hb)).1 hab
    exact hdistinct.elim (fun hne ↦ hne hlife) fun hne ↦ hne hcount
  have hsub : window.toFinset.image (fun a ↦ (a.life, a.count)) ⊆
      {first.life, first.life + 1} ×ˢ Finset.Icc 1 limit := by
    intro pair hpair
    obtain ⟨a, ha, rfl⟩ := Finset.mem_image.1 hpair
    obtain ⟨hhit, hcount, -, htime⟩ := hmem a (List.mem_toFinset.1 ha)
    have hge := hleast a ha
    have hle : a.life ≤ first.life + 1 := by
      by_contra hlt
      have hapart := htimed.apart first hfirsthit a hhit (not_le.1 hlt)
      omega
    have hpos := (htimed.hit a hhit).2.2.1
    simp only [Finset.mem_product, Finset.mem_insert, Finset.mem_singleton, Finset.mem_Icc]
    exact ⟨by omega, hpos, hcount⟩
  calc window.length = window.toFinset.card :=
        (List.toFinset_card_of_nodup (hserved.passed_nodup.filter _)).symm
    _ = (window.toFinset.image fun a ↦ (a.life, a.count)).card :=
        (Finset.card_image_of_injOn hinj).symm
    _ ≤ (({first.life, first.life + 1} : Finset ℕ) ×ˢ Finset.Icc 1 limit).card :=
        Finset.card_le_card hsub
    _ = 2 * limit := by
        rw [Finset.card_product, Finset.card_pair (Nat.succ_ne_self _).symm, Nat.card_Icc]
        simp

end Bucket

/-- However calls overlap, fail and stop: a period as long as a window sees at most twice the limit
pass, and a counter that a call was answered about ends within a window. -/
theorem rate_limit_holds (h : (limiter limit windowSeconds).Reachable s) :
    (∀ t, (s.passed.filter fun a ↦ t ≤ a.time ∧ a.time < t + 1000 * windowSeconds).length ≤
      2 * limit) ∧
    ∀ call verdict, s.calls.find call = some (.answered (some s.life) verdict) →
      ∀ c, s.key = some c → ∃ e, c.expires = some e ∧ e ≤ s.now + 1000 * windowSeconds := by
  have hkept := Bucket.kept_of_reachable h
  refine ⟨hkept.length_le, fun call verdict hanswered c hc ↦ ?_⟩
  obtain ⟨-, hends⟩ := hkept.served.answered call s.life verdict hanswered
  obtain ⟨e, he⟩ := Option.ne_none_iff_exists'.1 (hends rfl c hc)
  exact ⟨e, he, (hkept.timed.expires c hc e he).2⟩

/-- Two hits that overlap, and a third that is refused. -/
def sampleHits : List LimiterAction :=
  [.hit 0, .hit 1, .advance 1, .tick 500, .advance 0, .hit 2, .advance 2]

theorem rate_limit_holds_sample : ∃ s : Bucket, s.passed.length = 2 ∧
    ∀ t, (s.passed.filter fun a ↦ t ≤ a.time ∧ a.time < t + 1000 * 60).length ≤ 2 * 2 := by
  have hstart : (limiter 2 60).init ⟨0, none, 0, 0, .empty, [], []⟩ := ⟨rfl, rfl, rfl, rfl, rfl, rfl⟩
  have hreach : ∃ s, (limiter 2 60).Reachable s ∧ s.passed.length = 2 :=
    Machine.exists_reachable_of_foldlM sampleHits hstart (by decide)
  obtain ⟨s, hs, hlength⟩ := hreach
  exact ⟨s, hlength, (rate_limit_holds hs).1⟩

end Tiqora.Webchat
