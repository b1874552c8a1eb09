import Tiqora.Plugins.RestartWatch

namespace Tiqora.Plugins

open Foundation

variable {Id : Type}

/-- The row of the same process. -/
def Twin (k k' : ProcessRow Id) : Prop :=
  k.instanceId = k'.instanceId ∧ k.role = k'.role ∧ k.bootGeneration = k'.bootGeneration

theorem Twin.refl (k : ProcessRow Id) : Twin k k := ⟨rfl, rfl, rfl⟩

theorem Twin.trans {k k' k'' : ProcessRow Id} (h : Twin k k') (h' : Twin k' k'') : Twin k k'' :=
  ⟨h.1.trans h'.1, h.2.1.trans h'.2.1, h.2.2.trans h'.2.2⟩

variable [LinearOrder Id] {isolation : Isolation} {settings : Settings}
variable {s t : RestartState Id} {i : Id} {p : Process Id}

def Known (s : RestartState Id) (k : ProcessRow Id) : Prop :=
  ∃ p, s.running.find k.instanceId = some p ∧ p.role = k.role ∧
    p.bootGeneration = k.bootGeneration

/-- What a tick has read: the rows of known processes, and each process of an older generation that
runs still is among them. -/
structure Sound (s : RestartState Id) (latest : Option RestartRow) (rows : List (ProcessRow Id)) :
    Prop where
  ids : (rows.map (·.instanceId)).Nodup
  known : ∀ k ∈ rows, Known s k
  newest : ∀ target ∈ latest, target.generation ≤ newestGeneration s.restarts
  old : ∀ target ∈ latest, ∀ k ∈ s.processes, k.exitingAt = none →
    k.bootGeneration < target.generation → ∃ v ∈ rows, v.exitingAt = none ∧ Twin v k

def Phase.rows : Phase Id → Option (Option RestartRow × List (ProcessRow Id))
  | .targeted _ latest rows | .read _ latest rows | .purged _ latest rows => some (latest, rows)
  | .asleep | .started _ | .beaten _ | .left => none

structure Watched (s : RestartState Id) : Prop where
  ids : (s.processes.map (·.instanceId)).Nodup
  known : ∀ k ∈ s.processes, Known s k
  present : ∀ i p, s.running.find i = some p → p.phase ≠ .left →
    ∃ k ∈ s.processes, k.exitingAt = none ∧ k.instanceId = i
  sound : ∀ i p, s.running.find i = some p → ∀ r ∈ p.phase.rows, Sound s r.1 r.2

/-- What a step does to the rows: none comes back, and a new one is of the newest generation. -/
structure Moves (s t : RestartState Id) : Prop where
  known : ∀ k, Known s k → Known t k
  newest : newestGeneration s.restarts ≤ newestGeneration t.restarts
  rows : ∀ k' ∈ t.processes, k'.exitingAt = none →
    (∃ k ∈ s.processes, k.exitingAt = none ∧ Twin k k') ∨
      newestGeneration s.restarts ≤ k'.bootGeneration

theorem Sound.moves {latest : Option RestartRow} {rows : List (ProcessRow Id)}
    (h : Sound s latest rows) (hm : Moves s t) : Sound t latest rows where
  ids := h.ids
  known k hk := hm.known k (h.known k hk)
  newest target ht := (h.newest target ht).trans hm.newest
  old target ht k' hk' hstays hold := by
    rcases hm.rows k' hk' hstays with ⟨k, hk, hexiting, htwin⟩ | hnew
    · obtain ⟨v, hv, hvstays, htwin'⟩ := h.old target ht k hk hexiting (htwin.2.2.trans_lt hold)
      exact ⟨v, hv, hvstays, htwin'.trans htwin⟩
    · exact absurd ((h.newest target ht).trans hnew) (Nat.not_le.2 hold)

/-- An `UPDATE` or `DELETE` of rows, after which all but the leaving process have one. -/
structure Carried (leaver : Option Id) (rows rows' : List (ProcessRow Id)) : Prop where
  ids : (rows.map (·.instanceId)).Nodup → (rows'.map (·.instanceId)).Nodup
  twins : ∀ k' ∈ rows', ∃ k ∈ rows, (k'.exitingAt = none → k.exitingAt = none) ∧ Twin k k'
  present : ∀ k ∈ rows, k.exitingAt = none → leaver ≠ some k.instanceId →
    ∃ k' ∈ rows', k'.exitingAt = none ∧ k'.instanceId = k.instanceId

omit [LinearOrder Id] in
theorem Carried.refl (rows : List (ProcessRow Id)) : Carried none rows rows where
  ids := id
  twins k hk := ⟨k, hk, id, .refl k⟩
  present k hk hexiting _ := ⟨k, hk, hexiting, rfl⟩

omit [LinearOrder Id] in
theorem ids_map {f : ProcessRow Id → ProcessRow Id} {rows : List (ProcessRow Id)}
    (hf : ∀ q, Twin q (f q)) :
    (rows.map f).map (·.instanceId) = rows.map (·.instanceId) := by
  rw [List.map_map]
  exact List.map_congr_left fun q _ ↦ (hf q).1.symm

theorem beat_carried {rows : List (ProcessRow Id)} {now : ℕ}
    (hi : ∃ k ∈ rows, k.exitingAt = none ∧ k.instanceId = i) :
    Carried none rows (beat rows i p now) := by
  obtain ⟨k, hk, -, rfl⟩ := hi
  rw [beat, if_pos (List.mem_map_of_mem hk)]
  have hsame : ∀ q : ProcessRow Id,
      Twin q (if q.instanceId = k.instanceId then { q with heartbeatAt := now } else q) ∧
        (if q.instanceId = k.instanceId then { q with heartbeatAt := now } else q).exitingAt =
          q.exitingAt := by
    intro q
    split
    · exact ⟨⟨rfl, rfl, rfl⟩, rfl⟩
    · exact ⟨.refl q, rfl⟩
  refine ⟨fun hids ↦ ?_, fun k' hk' ↦ ?_, fun q hq hexiting _ ↦ ?_⟩
  · rw [ids_map fun q ↦ (hsame q).1]
    exact hids
  · obtain ⟨q, hq, rfl⟩ := List.mem_map.1 hk'
    exact ⟨q, hq, fun h ↦ (hsame q).2.symm.trans h, (hsame q).1⟩
  · exact ⟨_, List.mem_map_of_mem hq, (hsame q).2.trans hexiting, (hsame q).1.1.symm⟩

theorem leave_carried {rows : List (ProcessRow Id)} {now : ℕ} :
    Carried (some i) rows (leave rows i now) := by
  have hsame : ∀ q : ProcessRow Id,
      Twin q (if q.instanceId = i then { q with exitingAt := some now } else q) := by
    intro q
    split
    · exact ⟨rfl, rfl, rfl⟩
    · exact .refl q
  rw [leave]
  refine ⟨fun hids ↦ ?_, fun k' hk' ↦ ?_, fun q hq hexiting hne ↦ ?_⟩
  · rw [ids_map hsame]
    exact hids
  · obtain ⟨q, hq, rfl⟩ := List.mem_map.1 hk'
    refine ⟨q, hq, fun h ↦ ?_, hsame q⟩
    split at h
    · cases h
    · exact h
  · have hother : q.instanceId ≠ i := fun heq ↦ hne (heq ▸ rfl)
    refine ⟨q, List.mem_map.2 ⟨q, hq, if_neg hother⟩, hexiting, rfl⟩

omit [LinearOrder Id] in
theorem purgeDead_carried {rows : List (ProcessRow Id)} {now : ℕ} (hfresh : Fresh rows now) :
    Carried none rows (purgeDead rows now) := by
  refine ⟨fun hids ↦ ?_, fun k hk ↦ ?_, fun k hk hexiting _ ↦ ?_⟩
  · exact hids.sublist (List.filter_sublist.map _)
  · exact ⟨k, List.mem_of_mem_filter hk, id, .refl k⟩
  · refine ⟨k, List.mem_filter.2 ⟨hk, decide_eq_true ?_⟩, hexiting, rfl⟩
    have hlive : now ≤ k.heartbeatAt + seconds liveWithinSeconds := hfresh k hk hexiting
    have hshort : seconds liveWithinSeconds ≤ deadAfter := Nat.mul_le_mul_right _ (by decide)
    exact hlive.trans (Nat.add_le_add_left hshort _)

/-- A step of one tick. The row of its process stays unless the process leaves. -/
theorem Watched.tick {q : Process Id} {rows : List (ProcessRow Id)} {leaver : Option Id}
    (h : Watched s) (hfind : s.running.find i = some p) (hrole : q.role = p.role)
    (hgeneration : q.bootGeneration = p.bootGeneration) (hphase : p.phase ≠ .left)
    (hrunning : t.running = s.running.set i (some q)) (hprocesses : t.processes = rows)
    (hnewest : newestGeneration t.restarts = newestGeneration s.restarts)
    (hcarried : Carried leaver s.processes rows)
    (hleaver : ∀ j ∈ leaver, j = i ∧ q.phase = .left)
    (hsound : Moves s t → ∀ r ∈ q.phase.rows, Sound t r.1 r.2) : Watched t ∧ Moves s t := by
  have hknown : ∀ k, Known s k → Known t k := by
    rintro k ⟨o, ho, horole, hogeneration⟩
    by_cases heq : k.instanceId = i
    · rw [heq, hfind] at ho
      cases ho
      refine ⟨q, ?_, hrole.trans horole, hgeneration.trans hogeneration⟩
      rw [hrunning, heq, Table.find_set_self]
    · refine ⟨o, ?_, horole, hogeneration⟩
      rw [hrunning, Table.find_set_of_ne heq]
      exact ho
  have hmoves : Moves s t := by
    refine ⟨hknown, hnewest.ge, fun k' hk' hexiting ↦ ?_⟩
    rw [hprocesses] at hk'
    obtain ⟨k, hk, hstays, htwin⟩ := hcarried.twins k' hk'
    exact .inl ⟨k, hk, hstays hexiting, htwin⟩
  refine ⟨⟨?_, fun k' hk' ↦ ?_, fun j o ho hophase ↦ ?_, fun j o ho r hr ↦ ?_⟩, hmoves⟩
  · rw [hprocesses]
    exact hcarried.ids h.ids
  · rw [hprocesses] at hk'
    obtain ⟨k, hk, -, hid, hkrole, hkgeneration⟩ := hcarried.twins k' hk'
    obtain ⟨o, ho, horole, hogeneration⟩ := hknown k (h.known k hk)
    refine ⟨o, ?_, horole.trans hkrole, hogeneration.trans hkgeneration⟩
    rw [← hid]
    exact ho
  · have hrow : ∃ k ∈ s.processes, k.exitingAt = none ∧ k.instanceId = j := by
      by_cases heq : j = i
      · rw [heq]
        exact h.present i p hfind hphase
      · rw [hrunning, Table.find_set_of_ne heq] at ho
        exact h.present j o ho hophase
    obtain ⟨k, hk, hexiting, hid⟩ := hrow
    have hstays : leaver ≠ some k.instanceId := by
      intro hleaves
      obtain ⟨heq, hleft⟩ := hleaver _ hleaves
      rw [hrunning, ← hid, heq, Table.find_set_self] at ho
      cases ho
      exact hophase hleft
    obtain ⟨k', hk', hexiting', hid'⟩ := hcarried.present k hk hexiting hstays
    rw [hprocesses]
    exact ⟨k', hk', hexiting', hid'.trans hid⟩
  · by_cases heq : j = i
    · rw [hrunning, heq, Table.find_set_self] at ho
      cases ho
      exact hsound hmoves r hr
    · rw [hrunning, Table.find_set_of_ne heq] at ho
      exact (h.sound j o ho r hr).moves hmoves

omit [LinearOrder Id] in
theorem newestGeneration_map {restarts : List RestartRow} {f : RestartRow → RestartRow}
    (hf : ∀ r, (f r).generation = r.generation) :
    newestGeneration (restarts.map f) = newestGeneration restarts := by
  cases restarts with
  | nil => rfl
  | cons r rs => exact hf r

/-- Each earlier role of the request was done in what the process read. -/
def Exit.InOrder (e : Exit Id) : Prop :=
  ∀ role ∈ e.reading.target.roles.takeWhile (· ≠ e.reading.me.role),
    Done role e.reading.target e.reading.processes e.reading.now

/-- A request is finished by an api process of its generation that found every role done. -/
def Closing.Rightful : Closing Id → Prop
  | .superseded _ | .failed .. => True
  | .finished r => r.me.role = .api ∧ r.target.generation ≤ r.me.bootGeneration ∧
      ∀ role ∈ r.target.roles, Done role r.target r.processes r.now

/-- What the end of a tick does. -/
inductive Acted (settings : Settings) (s : RestartState Id) (i : Id) (p : Process Id) (now : ℕ)
    (latest : Option RestartRow) (processes : List (ProcessRow Id)) : RestartState Id → Prop
  | waits (jobWaitSince : Table ℕ ℕ) :
    Acted settings s i p now latest processes (s.setPhase i { p with jobWaitSince } .asleep)
  | exits (me : ProcessRow Id) (target : RestartRow)
      (hme : processes.find? (fun q ↦ q.instanceId = i) = some me) (hlatest : latest = some target)
      (hexits : Exits me target processes now settings.timeout) :
    Acted settings s i p now latest processes { s.setPhase i p .left with
      processes := leave s.processes i now
      exits := ⟨⟨me, target, processes, now⟩, s.clock⟩ :: s.exits }
  | closes (target : RestartRow) (close : RestartRow → RestartRow) (closing : Closing Id)
      (hclose : ∀ r, (close r).generation = r.generation ∧ (close r).isOpen = false)
      (htarget : closing.target = target) (hrightful : closing.Rightful) :
    Acted settings s i p now latest processes { s.setPhase i p .asleep with
      restarts := closeOpen s.restarts target.generation close
      closings := if s.restarts.any fun r ↦ r.generation = target.generation ∧ r.isOpen then
        closing :: s.closings else s.closings }

theorem act_acted {now : ℕ} {latest : Option RestartRow} {processes : List (ProcessRow Id)}
    {kinds : List String} :
    Acted settings s i p now latest processes
      (s.act settings i p now latest processes kinds) := by
  rw [RestartState.act.eq_def]
  split
  · exact .waits p.jobWaitSince
  · exact .waits p.jobWaitSince
  · next me target hme =>
    dsimp only
    generalize (if settings.enabled then kinds else []) = jobs
    split
    · exact .waits p.jobWaitSince
    · next hdecide =>
      obtain ⟨target', htarget', hexits⟩ := decide_exit hdecide
      cases htarget'
      split
      · exact .waits (p.jobWaitSince.set target.generation
          (some ((p.jobWaitSince.find target.generation).getD now)))
      · exact .exits me target hme rfl hexits
    · exact .closes target _ (.failed _ _) (fun r ↦ ⟨rfl, Bool.and_false _⟩) rfl trivial
    · next hdecide =>
      obtain ⟨target', htarget', hfinish⟩ := decide_finish hdecide
      cases htarget'
      exact .closes target _ (.finished _) (fun r ↦ ⟨rfl, rfl⟩) rfl hfinish

theorem start_spec (h : s.next isolation settings (.start i) = some t) :
    ∃ p, s.running.find i = some p ∧ p.phase = .asleep ∧
      t = s.setPhase i p (.started s.clock) := by
  rw [RestartState.next] at h
  split at h
  · next p hfind =>
    split at h
    · next hphase =>
      cases h
      exact ⟨p, hfind, hphase, rfl⟩
    · cases h
  · cases h

theorem heartbeat_spec (h : s.next isolation settings (.heartbeat i) = some t) :
    ∃ p now, s.running.find i = some p ∧ p.phase = .started now ∧
      t = { s.setPhase i p (.beaten now) with processes := beat s.processes i p now } := by
  rw [RestartState.next] at h
  split at h
  · next p hfind =>
    split at h
    · next now hphase =>
      cases h
      exact ⟨p, now, hfind, hphase, rfl⟩
    · cases h
  · cases h

theorem readLatest_spec (h : s.next isolation settings (.readLatest i) = some t) :
    ∃ p now, s.running.find i = some p ∧ p.phase = .beaten now ∧
      t = s.setPhase i p (.targeted now s.restarts.head? s.processes) := by
  rw [RestartState.next] at h
  split at h
  · next p hfind =>
    split at h
    · next now hphase =>
      cases h
      exact ⟨p, now, hfind, hphase, rfl⟩
    · cases h
  · cases h

theorem readProcesses_spec (h : s.next isolation settings (.readProcesses i) = some t) :
    ∃ p now latest view, s.running.find i = some p ∧ p.phase = .targeted now latest view ∧
      Fresh (isolation.visible view s.processes) now ∧
        t = s.setPhase i p (.read now latest (isolation.visible view s.processes)) := by
  rw [RestartState.next] at h
  split at h
  · next p hfind =>
    split at h
    · next now latest view hphase =>
      rw [Option.ite_none_right_eq_some] at h
      obtain ⟨hfresh, h⟩ := h
      cases h
      exact ⟨p, now, latest, view, hfind, hphase, hfresh, rfl⟩
    · cases h
  · cases h

theorem purge_spec (h : s.next isolation settings (.purge i) = some t) :
    ∃ p now latest rows processes, s.running.find i = some p ∧ p.phase = .read now latest rows ∧
      Carried none s.processes processes ∧
        t = { s.setPhase i p (.purged now latest rows) with processes } := by
  rw [RestartState.next] at h
  split at h
  · next p hfind =>
    split at h
    · next now latest rows hphase =>
      split at h
      · rw [Option.ite_none_right_eq_some] at h
        obtain ⟨hfresh, h⟩ := h
        cases h
        exact ⟨p, now, latest, rows, _, hfind, hphase, purgeDead_carried hfresh, rfl⟩
      · cases h
        exact ⟨p, now, latest, rows, _, hfind, hphase, .refl s.processes, rfl⟩
    · cases h
  · cases h

theorem step_spec {kinds : List String}
    (h : s.next isolation settings (.step i kinds) = some t) :
    ∃ p now latest rows, s.running.find i = some p ∧ p.phase = .purged now latest rows ∧
      Acted settings s i p now latest rows t := by
  rw [RestartState.next] at h
  split at h
  · next p hfind =>
    split at h
    · next now latest rows hphase =>
      cases h
      exact ⟨p, now, latest, rows, hfind, hphase, act_acted⟩
    · cases h
  · cases h

theorem fail_spec (h : s.next isolation settings (.fail i) = some t) :
    ∃ p, s.running.find i = some p ∧ p.phase ≠ .left ∧ t = s.setPhase i p .asleep := by
  rw [RestartState.next] at h
  split at h
  · next p hfind =>
    split at h
    · cases h
    · cases h
    · next hleft =>
      cases h
      exact ⟨p, hfind, hleft, rfl⟩
  · cases h

theorem register_spec {role : ProcessRole} {now : ℕ} {replaces : Option Id}
    (h : s.next isolation settings (.register i role now replaces) = some t) :
    s.running.find i = none ∧
      (∀ old ∈ replaces, old ∈ s.exits.map (·.reading.me.instanceId) ∧
        s.replacedBy.find old = none) ∧
        t = { s with
          processes := s.processes ++ [⟨i, role, newestGeneration s.restarts, now, none⟩]
          running := s.running.set i (some ⟨role, newestGeneration s.restarts, .empty, .asleep⟩)
          replacedBy := s.replaced replaces i } := by
  rw [RestartState.next, Option.ite_none_right_eq_some] at h
  obtain ⟨⟨hfind, -, hreplaces⟩, heq⟩ := h
  cases heq
  exact ⟨hfind, hreplaces, rfl⟩

/-- A step that changes the phase of one process and no row. -/
theorem setPhase_watched {phase : Phase Id} (h : Watched s) (hfind : s.running.find i = some p)
    (hphase : p.phase ≠ .left)
    (hsound : Moves s (s.setPhase i p phase) →
      ∀ r ∈ phase.rows, Sound (s.setPhase i p phase) r.1 r.2) :
    Watched (s.setPhase i p phase) ∧ Moves s (s.setPhase i p phase) :=
  h.tick (q := { p with phase }) hfind rfl rfl hphase rfl rfl rfl (.refl s.processes) nofun hsound

theorem readLatest_sound {now : ℕ} (h : Watched s)
    (hm : Moves s (s.setPhase i p (.targeted now s.restarts.head? s.processes))) :
    Sound (s.setPhase i p (.targeted now s.restarts.head? s.processes)) s.restarts.head?
      s.processes where
  ids := h.ids
  known k hk := hm.known k (h.known k hk)
  newest target ht := by
    change target.generation ≤ newestGeneration s.restarts
    rw [newestGeneration, ht]
    rfl
  old _ _ k hk hexiting _ := ⟨k, hk, hexiting, .refl k⟩

/-- A later read of the rows is sound too. -/
theorem Sound.visible {latest : Option RestartRow} {view : List (ProcessRow Id)}
    (h : Sound s latest view) (hw : Watched s) :
    Sound s latest (isolation.visible view s.processes) := by
  cases isolation with
  | readCommitted =>
    exact ⟨hw.ids, hw.known, h.newest, fun _ _ k hk hexiting _ ↦ ⟨k, hk, hexiting, .refl k⟩⟩
  | snapshot => exact h

omit [LinearOrder Id] in
theorem closeOpen_newest {generation : ℕ} {close : RestartRow → RestartRow}
    (hclose : ∀ r, (close r).generation = r.generation) :
    newestGeneration (closeOpen s.restarts generation close) = newestGeneration s.restarts := by
  refine newestGeneration_map fun r ↦ ?_
  split
  · exact hclose r
  · rfl

theorem Acted.watched {now : ℕ} {latest : Option RestartRow} {rows : List (ProcessRow Id)}
    (hact : Acted settings s i p now latest rows t) (h : Watched s)
    (hfind : s.running.find i = some p) (hphase : p.phase ≠ .left) : Watched t ∧ Moves s t := by
  cases hact with
  | waits jobWaitSince =>
    exact h.tick (q := { p with jobWaitSince, phase := .asleep }) hfind rfl rfl hphase rfl rfl rfl
      (.refl s.processes) nofun nofun
  | exits me target hme hlatest hexits =>
    refine h.tick (q := { p with phase := .left }) hfind rfl rfl hphase rfl rfl rfl leave_carried
      (fun j hj ↦ ?_) nofun
    cases hj
    exact ⟨rfl, rfl⟩
  | closes target close closing hclose htarget hrightful =>
    exact h.tick (q := { p with phase := .asleep }) hfind rfl rfl hphase rfl rfl
      (closeOpen_newest fun r ↦ (hclose r).1) (.refl s.processes) nofun nofun

theorem register_watched {role : ProcessRole} {now : ℕ} {replacedBy : Table Id Id} (h : Watched s)
    (hfind : s.running.find i = none)
    (ht : t = { s with
      processes := s.processes ++ [⟨i, role, newestGeneration s.restarts, now, none⟩]
      running := s.running.set i (some ⟨role, newestGeneration s.restarts, .empty, .asleep⟩)
      replacedBy }) : Watched t ∧ Moves s t := by
  have hne : ∀ k, Known s k → k.instanceId ≠ i := by
    rintro k ⟨p, hp, -⟩ heq
    rw [heq, hfind] at hp
    cases hp
  have hknown : ∀ k, Known s k → Known t k := by
    rintro k hk
    have hki := hne k hk
    obtain ⟨p, hp, hrest⟩ := hk
    refine ⟨p, ?_, hrest⟩
    rw [ht, Table.find_set_of_ne hki]
    exact hp
  have hmoves : Moves s t := by
    refine ⟨hknown, ?_, fun k' hk' hexiting ↦ ?_⟩
    · rw [ht]
    · rw [ht, List.mem_append, List.mem_singleton] at hk'
      rcases hk' with hk' | rfl
      · exact .inl ⟨k', hk', hexiting, .refl k'⟩
      · exact .inr le_rfl
  refine ⟨⟨?_, fun k hk ↦ ?_, fun j p hp hphase ↦ ?_, fun j p hp r hr ↦ ?_⟩, hmoves⟩
  · rw [ht, List.map_append, List.nodup_append_comm]
    refine List.nodup_cons.2 ⟨fun hmem ↦ ?_, h.ids⟩
    obtain ⟨k, hk, hid⟩ := List.mem_map.1 hmem
    exact hne k (h.known k hk) hid
  · rw [ht, List.mem_append, List.mem_singleton] at hk
    rcases hk with hk | rfl
    · exact hknown k (h.known k hk)
    · refine ⟨⟨role, newestGeneration s.restarts, .empty, .asleep⟩, ?_, rfl, rfl⟩
      rw [ht]
      exact Table.find_set_self
  · rw [ht] at hp ⊢
    by_cases heq : j = i
    · rw [heq]
      exact ⟨_, List.mem_append_right _ List.mem_cons_self, rfl, rfl⟩
    · rw [Table.find_set_of_ne heq] at hp
      obtain ⟨k, hk, hrest⟩ := h.present j p hp hphase
      exact ⟨k, List.mem_append_left _ hk, hrest⟩
  · rw [ht] at hp
    by_cases heq : j = i
    · rw [heq, Table.find_set_self] at hp
      cases hp
      cases hr
    · rw [Table.find_set_of_ne heq] at hp
      exact (h.sound j p hp r hr).moves hmoves

/-- A step that leaves the processes alone. -/
theorem Watched.same (h : Watched s) (hrunning : t.running = s.running)
    (hprocesses : t.processes = s.processes)
    (hnewest : newestGeneration s.restarts ≤ newestGeneration t.restarts) :
    Watched t ∧ Moves s t := by
  have hknown : ∀ k, Known s k → Known t k := by
    rintro k ⟨p, hp, hrest⟩
    exact ⟨p, (congrArg (·.find k.instanceId) hrunning).trans hp, hrest⟩
  have hmoves : Moves s t := by
    refine ⟨hknown, hnewest, fun k hk hexiting ↦ .inl ⟨k, ?_, hexiting, .refl k⟩⟩
    rw [← hprocesses]
    exact hk
  refine ⟨⟨?_, fun k hk ↦ ?_, fun j p hp hphase ↦ ?_, fun j p hp r hr ↦ ?_⟩, hmoves⟩
  · rw [hprocesses]
    exact h.ids
  · rw [hprocesses] at hk
    exact hknown k (h.known k hk)
  · rw [hrunning] at hp
    rw [hprocesses]
    exact h.present j p hp hphase
  · rw [hrunning] at hp
    exact (h.sound j p hp r hr).moves hmoves

theorem next_watched {a : RestartAction Id} (h : Watched s)
    (hnext : s.next isolation settings a = some t) : Watched t ∧ Moves s t := by
  cases a with
  | advance time =>
    rw [RestartState.next, Option.ite_none_right_eq_some] at hnext
    obtain ⟨-, heq⟩ := hnext
    cases heq
    exact h.same rfl rfl le_rfl
  | register j role now replaces =>
    obtain ⟨hfind, -, rfl⟩ := register_spec hnext
    exact register_watched h hfind rfl
  | request generation now ensureRoles =>
    rw [RestartState.next, Option.ite_none_right_eq_some] at hnext
    obtain ⟨⟨hlt, -⟩, heq⟩ := hnext
    cases heq
    exact h.same rfl rfl hlt.le
  | start j =>
    obtain ⟨p, hfind, hphase, rfl⟩ := start_spec hnext
    refine setPhase_watched h hfind ?_ nofun
    rw [hphase]
    exact nofun
  | heartbeat j =>
    obtain ⟨p, now, hfind, hphase, rfl⟩ := heartbeat_spec hnext
    have hleft : p.phase ≠ .left := by
      rw [hphase]
      exact nofun
    exact h.tick (q := { p with phase := .beaten now }) hfind rfl rfl hleft rfl rfl rfl
      (beat_carried (h.present j p hfind hleft)) nofun nofun
  | readLatest j =>
    obtain ⟨p, now, hfind, hphase, rfl⟩ := readLatest_spec hnext
    refine setPhase_watched h hfind ?_ fun hm r hr ↦ ?_
    · rw [hphase]
      exact nofun
    · cases hr
      exact readLatest_sound h hm
  | readProcesses j =>
    obtain ⟨p, now, latest, view, hfind, hphase, -, rfl⟩ := readProcesses_spec hnext
    have hsound : Sound s latest view := by
      refine h.sound j p hfind (latest, view) ?_
      rw [hphase]
      rfl
    refine setPhase_watched h hfind ?_ fun hm r hr ↦ ?_
    · rw [hphase]
      exact nofun
    · cases hr
      exact (hsound.visible h).moves hm
  | purge j =>
    obtain ⟨p, now, latest, rows, processes, hfind, hphase, hcarried, rfl⟩ := purge_spec hnext
    have hsound : Sound s latest rows := by
      refine h.sound j p hfind (latest, rows) ?_
      rw [hphase]
      rfl
    refine h.tick (q := { p with phase := .purged now latest rows }) hfind rfl rfl ?_ rfl rfl rfl
      hcarried nofun fun hm r hr ↦ ?_
    · rw [hphase]
      exact nofun
    · cases hr
      exact hsound.moves hm
  | step j kinds =>
    obtain ⟨p, now, latest, rows, hfind, hphase, hact⟩ := step_spec hnext
    refine hact.watched h hfind ?_
    rw [hphase]
    exact nofun
  | fail j =>
    obtain ⟨p, hfind, hphase, rfl⟩ := fail_spec hnext
    exact setPhase_watched h hfind hphase nofun

end Tiqora.Plugins
