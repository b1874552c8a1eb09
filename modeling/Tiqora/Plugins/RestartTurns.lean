import Mathlib.Data.List.Perm.Subperm
import Tiqora.Plugins.RestartKept

namespace Tiqora.Plugins

open Foundation

variable {Id : Type}

/-- An exit of the role for the request. -/
def Exit.For (e : Exit Id) (role : ProcessRole) (generation : ℕ) : Prop :=
  e.reading.me.role = role ∧ e.reading.target.generation = generation

instance (e : Exit Id) (role : ProcessRole) (generation : ℕ) : Decidable (e.For role generation) :=
  inferInstanceAs (Decidable (_ ∧ _))

variable [LinearOrder Id]

/-- What a tick decides from, once it has read the rows. -/
def Phase.reading (i : Id) : Phase Id → Option (Reading Id)
  | .read now latest processes | .purged now latest processes =>
    (processes.find? fun q ↦ q.instanceId = i).bind fun me ↦
      latest.map fun target ↦ ⟨me, target, processes, now⟩
  | .asleep | .started _ | .beaten _ | .targeted .. | .left => none

/-- The phase of a tick after its read of the rows. -/
def Phase.afterRead (isolation : Isolation) (processes : List (ProcessRow Id)) : Phase Id → Phase Id
  | .targeted now latest view => .read now latest (isolation.visible view processes)
  | _ => .asleep

/-- The read counts the exit, and each process that it takes for a replacement is the replacement
of an exit that it counts. -/
def Counted (s : RestartState Id) (timeout : ℕ) (r : Reading Id) (e : Exit Id) : Prop :=
  e.reading.me.instanceId ∈ (exited r.me r.target r.processes r.now timeout).map (·.instanceId) ∧
    ∀ p ∈ back r.me r.target r.processes r.now,
      ∃ q ∈ exited r.me r.target r.processes r.now timeout,
        s.replacedBy.find q.instanceId = some p.instanceId

instance (s : RestartState Id) (timeout : ℕ) (r : Reading Id) (e : Exit Id) :
    Decidable (Counted s timeout r e) := inferInstanceAs (Decidable (_ ∧ _))

/-- A process whose turn it is counts each exit of its role that is not replaced. -/
def CountsAll (s : RestartState Id) (timeout : ℕ) (r : Reading Id) : Prop :=
  r.me.bootGeneration < r.target.generation ∧
      (waiting r.me r.target r.processes r.now).head? = some r.me.instanceId →
    ∀ e ∈ s.exits, e.For r.me.role r.target.generation ∧ s.missing e → Counted s timeout r e

instance (s : RestartState Id) (timeout : ℕ) (r : Reading Id) : Decidable (CountsAll s timeout r) :=
  inferInstanceAs (Decidable (_ ∧ _ → ∀ e ∈ s.exits, e.For _ _ ∧ s.missing e → _))

def CountsExits (isolation : Isolation) (settings : Settings) (s : RestartState Id) :
    RestartAction Id → Prop
  | .readProcesses i => ∀ p ∈ s.running.find i,
      ∀ r ∈ (p.phase.afterRead isolation s.processes).reading i, CountsAll s settings.timeout r
  | _ => True

instance (isolation : Isolation) (settings : Settings) (s : RestartState Id) :
    (a : RestartAction Id) → Decidable (CountsExits isolation settings s a)
  | .readProcesses i => inferInstanceAs (Decidable (∀ p ∈ s.running.find i,
      ∀ r ∈ (p.phase.afterRead isolation s.processes).reading i, CountsAll s settings.timeout r))
  | .advance _ | .register .. | .request .. | .start _ | .heartbeat _ | .readLatest _ | .purge _
  | .step .. | .fail _ => inferInstanceAs (Decidable True)

/-- No exit of the role for the request waits for its replacement, and the process is the first of
those that are still to exit. -/
structure Leads (s : RestartState Id) (i : Id) (role : ProcessRole) (generation : ℕ) : Prop where
  replaced : ∀ e ∈ s.exits, e.For role generation → ¬ s.missing e
  first : ∀ k ∈ s.processes, k.exitingAt = none → k.role = role → k.bootGeneration < generation →
    i ≤ k.instanceId

/-- The exits of the role for the request that are not replaced yet. -/
def RestartState.unreplaced (s : RestartState Id) (role : ProcessRole) (generation : ℕ) :
    List (Exit Id) :=
  s.exits.filter fun e ↦ e.For role generation ∧ s.missing e

structure Turns (settings : Settings) (s : RestartState Id) : Prop where
  leads : ∀ i p, s.running.find i = some p → ∀ r ∈ p.phase.reading i,
    Exits r.me r.target r.processes r.now settings.timeout → Leads s i r.me.role r.target.generation
  one : ∀ role generation, (s.unreplaced role generation).length ≤ 1

variable {isolation : Isolation} {settings : Settings} {s t : RestartState Id} {i : Id}
variable {p : Process Id} {r : Reading Id}

theorem reading_rows {phase : Phase Id} (hr : r ∈ phase.reading i) :
    phase.rows = some (some r.target, r.processes) ∧
      (r.processes.find? fun q ↦ q.instanceId = i) = some r.me ∧ phase ≠ .left := by
  have hbind : ∀ {now : ℕ} {latest : Option RestartRow} {processes : List (ProcessRow Id)},
      ((processes.find? fun q ↦ q.instanceId = i).bind fun me ↦
        latest.map fun target ↦ (⟨me, target, processes, now⟩ : Reading Id)) = some r →
      some (latest, processes) = some (some r.target, r.processes) ∧
        (r.processes.find? fun q ↦ q.instanceId = i) = some r.me := by
    intro now latest processes h
    obtain ⟨me, hme, h⟩ := Option.bind_eq_some_iff.1 h
    obtain ⟨target, htarget, heq⟩ := Option.map_eq_some_iff.1 h
    cases heq
    rw [htarget]
    exact ⟨rfl, hme⟩
  cases phase with
  | read now latest processes => exact ⟨(hbind hr).1, (hbind hr).2, nofun⟩
  | purged now latest processes => exact ⟨(hbind hr).1, (hbind hr).2, nofun⟩
  | asleep => cases hr
  | started now => cases hr
  | beaten now => cases hr
  | targeted now latest view => cases hr
  | left => cases hr

theorem reading_instanceId {phase : Phase Id} (hr : r ∈ phase.reading i) :
    r.me ∈ r.processes ∧ r.me.instanceId = i := by
  have hme := (reading_rows hr).2.1
  have hid := List.find?_some hme
  rw [decide_eq_true_iff] at hid
  exact ⟨List.mem_of_find?_eq_some hme, hid⟩

/-- The row of a process whose tick has read the rows. -/
theorem Watched.own_row (h : Watched s) (hfind : s.running.find i = some p)
    (hr : r ∈ p.phase.reading i) :
    r.target.generation ≤ newestGeneration s.restarts ∧
      ∃ k ∈ s.processes, k.exitingAt = none ∧ Twin r.me k := by
  obtain ⟨hrows, -, hphase⟩ := reading_rows hr
  obtain ⟨hmem, hid⟩ := reading_instanceId hr
  have hsound : Sound s (some r.target) r.processes := h.sound i p hfind _ hrows
  obtain ⟨k, hk, hexiting, hkid⟩ := h.present i p hfind hphase
  obtain ⟨o, ho, horole, hogeneration⟩ := hsound.known r.me hmem
  obtain ⟨o', ho', ho'role, ho'generation⟩ := h.known k hk
  rw [hid, hfind] at ho
  rw [hkid, hfind] at ho'
  cases ho
  cases ho'
  exact ⟨hsound.newest _ rfl, k, hk, hexiting, hid.trans hkid.symm, horole.symm.trans ho'role,
    hogeneration.symm.trans ho'generation⟩

/-- More exits are counted than replacements when one is not replaced. -/
theorem back_lt_exited {timeout : ℕ} {e : Exit Id} (hids : (r.processes.map (·.instanceId)).Nodup)
    (hcounted : Counted s timeout r e) (hmissing : s.missing e) :
    (back r.me r.target r.processes r.now).length <
      (exited r.me r.target r.processes r.now timeout).length := by
  obtain ⟨hexited, hback⟩ := hcounted
  obtain ⟨u, hu, huid⟩ := List.mem_map.1 hexited
  have hnodup : ((back r.me r.target r.processes r.now).map (·.instanceId)).Nodup :=
    hids.sublist ((List.filter_sublist.trans List.filter_sublist).map _)
  have hsubset : (back r.me r.target r.processes r.now).map (·.instanceId) ⊆
      (exited r.me r.target r.processes r.now timeout).filterMap
        fun q ↦ s.replacedBy.find q.instanceId := by
    intro j hj
    obtain ⟨q, hq, rfl⟩ := List.mem_map.1 hj
    obtain ⟨o, ho, hreplaced⟩ := hback q hq
    exact List.mem_filterMap.2 ⟨o, ho, hreplaced⟩
  have hle := (hnodup.subperm hsubset).length_le
  rw [List.length_map] at hle
  refine hle.trans_lt (List.length_filterMap_lt_length_iff_exists.2 ⟨u, hu, ?_⟩)
  rw [huid]
  exact hmissing

/-- A process that decides to exit leads. -/
theorem leads_of_exits (hsound : Sound s (some r.target) r.processes)
    (hfresh : Fresh r.processes r.now) (hid : r.me.instanceId = i)
    (hexits : Exits r.me r.target r.processes r.now settings.timeout)
    (hcounts : CountsAll s settings.timeout r) : Leads s i r.me.role r.target.generation where
  replaced e he hfor hmissing := by
    have hcounted := hcounts ⟨hexits.old, hexits.first⟩ e he ⟨hfor, hmissing⟩
    exact absurd hexits.counted (Nat.not_le.2 (back_lt_exited hsound.ids hcounted hmissing))
  first k hk hexiting hrole hold := by
    obtain ⟨v, hv, hvstays, htwin⟩ := hsound.old _ rfl k hk hexiting hold
    have hfirst : r.me.instanceId ≤ v.instanceId :=
      waiting_first hexits.first hv (htwin.2.1.trans hrole) ⟨hfresh v hv hvstays, hvstays⟩
        (htwin.2.2.trans_lt hold)
    rw [← hid, ← htwin.1]
    exact hfirst

theorem Leads.moves {role : ProcessRole} {generation : ℕ} (h : Leads s i role generation)
    (hm : Moves s t) (hgeneration : generation ≤ newestGeneration s.restarts)
    (hexits : ∀ e ∈ t.exits, e.For role generation → t.missing e → e ∈ s.exits ∧ s.missing e) :
    Leads t i role generation where
  replaced e he hfor hmissing := by
    obtain ⟨hold, hsmissing⟩ := hexits e he hfor hmissing
    exact h.replaced e hold hfor hsmissing
  first k' hk' hexiting hrole hlt := by
    rcases hm.rows k' hk' hexiting with ⟨k, hk, hkexiting, htwin⟩ | hnew
    · rw [← htwin.1]
      exact h.first k hk hkexiting (htwin.2.1.trans hrole) (htwin.2.2.trans_lt hlt)
    · exact absurd (hgeneration.trans hnew) (Nat.not_le.2 hlt)

/-- A step without an exit. -/
theorem Turns.moves (h : Turns settings s) (hw : Watched s) (hm : Moves s t)
    (hexits : t.exits = s.exits)
    (hreplaced : ∀ j, t.replacedBy.find j = none → s.replacedBy.find j = none)
    (hreadings : ∀ j q, t.running.find j = some q → ∀ r ∈ q.phase.reading j,
      (∃ o, s.running.find j = some o ∧ r ∈ o.phase.reading j) ∨
        (Exits r.me r.target r.processes r.now settings.timeout →
          Leads t j r.me.role r.target.generation)) : Turns settings t where
  leads j q hq r hr hexit := by
    rcases hreadings j q hq r hr with ⟨o, ho, hro⟩ | hleads
    · refine (h.leads j o ho r hro hexit).moves hm (hw.own_row ho hro).1 fun e he _ hmissing ↦ ?_
      rw [hexits] at he
      exact ⟨he, hreplaced _ hmissing⟩
    · exact hleads hexit
  one role generation := by
    refine le_trans ?_ (h.one role generation)
    rw [RestartState.unreplaced, RestartState.unreplaced, hexits]
    refine (List.monotone_filter_right s.exits fun e he ↦ ?_).length_le
    obtain ⟨hfor, hmissing⟩ := of_decide_eq_true he
    exact decide_eq_true ⟨hfor, hreplaced _ hmissing⟩

/-- A step that gives one process a phase in which it has read what it had read before. -/
theorem Turns.tick {q : Process Id} (h : Turns settings s) (hw : Watched s) (hm : Moves s t)
    (hfind : s.running.find i = some p) (hrunning : t.running = s.running.set i (some q))
    (hexits : t.exits = s.exits) (hreplacedBy : t.replacedBy = s.replacedBy)
    (hreading : ∀ r ∈ q.phase.reading i, r ∈ p.phase.reading i) : Turns settings t := by
  refine h.moves hw hm hexits (fun j hj ↦ ?_) fun j o ho r hr ↦ .inl ?_
  · rw [← hreplacedBy]
    exact hj
  · rw [hrunning] at ho
    by_cases heq : j = i
    · rw [heq, Table.find_set_self] at ho
      cases ho
      rw [heq] at hr ⊢
      exact ⟨p, hfind, hreading r hr⟩
    · rw [Table.find_set_of_ne heq] at ho
      exact ⟨o, ho, hr⟩

theorem readProcesses_turns {now : ℕ} {latest : Option RestartRow} {view : List (ProcessRow Id)}
    (h : Turns settings s) (hw : Watched s)
    (hfind : s.running.find i = some p) (hphase : p.phase = .targeted now latest view)
    (hfresh : Fresh (isolation.visible view s.processes) now)
    (hm : Moves s (s.setPhase i p (.read now latest (isolation.visible view s.processes))))
    (hcounts : CountsExits isolation settings s (.readProcesses i)) :
    Turns settings
      (s.setPhase i p (.read now latest (isolation.visible view s.processes))) := by
  refine h.moves hw hm rfl (fun _ hj ↦ hj) fun j o ho r hr ↦ ?_
  rw [RestartState.setPhase] at ho
  by_cases heq : j = i
  · rw [heq, Table.find_set_self] at ho
    cases ho
    rw [heq] at hr ⊢
    refine .inr fun hexits ↦ ?_
    have hsound : Sound s latest view := by
      refine hw.sound i p hfind (latest, view) ?_
      rw [hphase]
      rfl
    have hvisible : Sound s latest (isolation.visible view s.processes) := hsound.visible hw
    have hrows := Option.some.inj (reading_rows hr).1
    obtain ⟨hlatest, hprocesses⟩ := Prod.mk.inj hrows
    have hnow : r.now = now := by
      obtain ⟨me, -, hmap⟩ := Option.bind_eq_some_iff.1 hr
      obtain ⟨target, -, heq⟩ := Option.map_eq_some_iff.1 hmap
      cases heq
      rfl
    have hcount : CountsAll s settings.timeout r := by
      refine hcounts p hfind r ?_
      rw [hphase]
      exact hr
    rw [hlatest, hprocesses] at hvisible
    rw [hprocesses, ← hnow] at hfresh
    have hleads := leads_of_exits hvisible hfresh (reading_instanceId hr).2 hexits hcount
    exact ⟨hleads.replaced, hleads.first⟩
  · rw [Table.find_set_of_ne heq] at ho
    exact .inl ⟨o, ho, hr⟩

/-- Two processes of a role that have decided to exit are the same. -/
theorem Turns.leader_unique {j : Id} {o : Process Id} {r' : Reading Id} (h : Turns settings s)
    (hw : Watched s) (hfind : s.running.find i = some p) (hr : r ∈ p.phase.reading i)
    (hexits : Exits r.me r.target r.processes r.now settings.timeout)
    (hfind' : s.running.find j = some o) (hr' : r' ∈ o.phase.reading j)
    (hexits' : Exits r'.me r'.target r'.processes r'.now settings.timeout)
    (hrole : r.me.role = r'.me.role) (hgeneration : r.target.generation = r'.target.generation) :
    i = j := by
  have hfirst : ∀ {i j : Id} {p o : Process Id} {r r' : Reading Id}, s.running.find i = some p →
      r ∈ p.phase.reading i → Exits r.me r.target r.processes r.now settings.timeout →
      s.running.find j = some o → r' ∈ o.phase.reading j →
      Exits r'.me r'.target r'.processes r'.now settings.timeout → r.me.role = r'.me.role →
      r.target.generation = r'.target.generation → i ≤ j := by
    intro i j p o r r' hi hr hexits hj hr' hexits' hrole hgeneration
    obtain ⟨-, k, hk, hexiting, hid, hkrole, hkgeneration⟩ := hw.own_row hj hr'
    have hle := (h.leads i p hi r hr hexits).first k hk hexiting (hkrole.symm.trans hrole.symm) (by
      rw [← hkgeneration, hgeneration]
      exact hexits'.old)
    rw [← hid, (reading_instanceId hr').2] at hle
    exact hle
  exact le_antisymm (hfirst hfind hr hexits hfind' hr' hexits' hrole hgeneration)
    (hfirst hfind' hr' hexits' hfind hr hexits hrole.symm hgeneration.symm)

theorem exits_turns {rows : List (ProcessRow Id)} (h : Turns settings s) (hw : Watched s)
    (hfind : s.running.find i = some p) (hr : r ∈ p.phase.reading i)
    (hexits : Exits r.me r.target r.processes r.now settings.timeout)
    (ht : t = { s.setPhase i p .left with processes := rows, exits := ⟨r, s.clock⟩ :: s.exits })
    (hm : Moves s t) : Turns settings t where
  leads j o ho r' hr' hexits' := by
    rw [ht, RestartState.setPhase] at ho
    by_cases heq : j = i
    · rw [heq, Table.find_set_self] at ho
      cases ho
      cases hr'
    · rw [Table.find_set_of_ne heq] at ho
      refine (h.leads j o ho r' hr' hexits').moves hm (hw.own_row ho hr').1 fun e he hfor hmissing ↦ ?_
      rw [ht, List.mem_cons] at he
      rw [ht] at hmissing
      rcases he with rfl | he
      · exact absurd (h.leader_unique hw ho hr' hexits' hfind hr hexits hfor.1.symm hfor.2.symm) heq
      · exact ⟨he, hmissing⟩
  one role generation := by
    have hkeeps : (t.unreplaced role generation) =
        if r.me.role = role ∧ r.target.generation = generation ∧
          s.missing ⟨r, s.clock⟩ then ⟨r, s.clock⟩ :: s.unreplaced role generation
        else s.unreplaced role generation := by
      rw [ht]
      refine List.filter_cons.trans (if_congr ?_ rfl rfl)
      rw [decide_eq_true_iff]
      exact and_assoc
    rw [hkeeps]
    split
    · next hfor =>
      have hleads := h.leads i p hfind r hr hexits
      have hnone : s.unreplaced role generation = [] := by
        refine List.filter_eq_nil_iff.2 fun e he hmem ↦ ?_
        obtain ⟨hefor, hmissing⟩ := of_decide_eq_true hmem
        rw [← hfor.1, ← hfor.2.1] at hefor
        exact hleads.replaced e he hefor hmissing
      rw [hnone]
      rfl
    · exact h.one role generation

theorem Acted.turns {now : ℕ} {latest : Option RestartRow} {rows : List (ProcessRow Id)}
    (hact : Acted settings s i p now latest rows t) (h : Turns settings s) (hw : Watched s)
    (hfind : s.running.find i = some p) (hphase : p.phase = .purged now latest rows)
    (hm : Moves s t) : Turns settings t := by
  cases hact with
  | waits jobWaitSince =>
    exact h.tick (q := { p with jobWaitSince, phase := .asleep }) hw hm hfind rfl rfl rfl nofun
  | closes target close closing hclose htarget hrightful =>
    exact h.tick (q := { p with phase := .asleep }) hw hm hfind rfl rfl rfl nofun
  | exits me target hme hlatest hexits =>
    have hr : (⟨me, target, rows, now⟩ : Reading Id) ∈ p.phase.reading i := by
      rw [hphase, hlatest]
      exact Option.bind_eq_some_iff.2 ⟨me, hme, rfl⟩
    exact exits_turns h hw hfind hr hexits rfl hm

theorem next_turns {a : RestartAction Id} (h : Turns settings s) (hw : Watched s)
    (hcounts : CountsExits isolation settings s a)
    (hnext : s.next isolation settings a = some t) : Turns settings t := by
  have hm : Moves s t := (next_watched hw hnext).2
  cases a with
  | advance time =>
    rw [RestartState.next, Option.ite_none_right_eq_some] at hnext
    obtain ⟨-, heq⟩ := hnext
    cases heq
    exact h.moves hw hm rfl (fun _ hj ↦ hj) fun _ q hq r hr ↦ .inl ⟨q, hq, hr⟩
  | register j role now replaces =>
    obtain ⟨hfind, hreplaces, rfl⟩ := register_spec hnext
    refine h.moves hw hm rfl (fun k hk ↦ ?_) fun k q hq r hr ↦ .inl ?_
    · cases replaces with
      | none => exact hk
      | some old =>
        by_cases heq : k = old
        · rw [heq]
          exact (hreplaces old rfl).2
        · exact (Table.find_set_of_ne heq).symm.trans hk
    · by_cases heq : k = j
      · rw [heq, Table.find_set_self] at hq
        cases hq
        cases hr
      · rw [Table.find_set_of_ne heq] at hq
        exact ⟨q, hq, hr⟩
  | request generation now ensureRoles =>
    rw [RestartState.next, Option.ite_none_right_eq_some] at hnext
    obtain ⟨-, heq⟩ := hnext
    cases heq
    exact h.moves hw hm rfl (fun _ hj ↦ hj) fun _ q hq r hr ↦ .inl ⟨q, hq, hr⟩
  | start j =>
    obtain ⟨p, hfind, hphase, rfl⟩ := start_spec hnext
    exact h.tick (q := { p with phase := .started s.clock }) hw hm hfind rfl rfl rfl
      fun _ hr ↦ by cases hr
  | heartbeat j =>
    obtain ⟨p, now, hfind, hphase, rfl⟩ := heartbeat_spec hnext
    exact h.tick (q := { p with phase := .beaten now }) hw hm hfind rfl rfl rfl
      fun _ hr ↦ by cases hr
  | readLatest j =>
    obtain ⟨p, now, hfind, hphase, rfl⟩ := readLatest_spec hnext
    exact h.tick (q := { p with phase := .targeted now s.restarts.head? s.processes }) hw hm hfind
      rfl rfl rfl
      fun _ hr ↦ by cases hr
  | readProcesses j =>
    obtain ⟨p, now, latest, view, hfind, hphase, hfresh, rfl⟩ := readProcesses_spec hnext
    exact readProcesses_turns h hw hfind hphase hfresh hm hcounts
  | purge j =>
    obtain ⟨p, now, latest, rows, processes, hfind, hphase, -, rfl⟩ := purge_spec hnext
    refine h.tick (q := { p with phase := .purged now latest rows }) hw hm hfind rfl rfl rfl
      fun r hr ↦ ?_
    rw [hphase]
    exact hr
  | step j kinds =>
    obtain ⟨p, now, latest, rows, hfind, hphase, hact⟩ := step_spec hnext
    exact hact.turns h hw hfind hphase hm
  | fail j =>
    obtain ⟨p, hfind, hphase, rfl⟩ := fail_spec hnext
    exact h.tick (q := { p with phase := .asleep }) hw hm hfind rfl rfl rfl
      fun _ hr ↦ by cases hr

/-- The exits and closings so far. A closing leaves no open request of its generation. -/
structure Logged (s : RestartState Id) : Prop where
  inOrder : ∀ e ∈ s.exits, e.InOrder
  rightful : ∀ c ∈ s.closings, c.Rightful
  once : (s.closings.map (·.target.generation)).Nodup
  shut : ∀ c ∈ s.closings, c.target.generation ≤ newestGeneration s.restarts ∧
    ∀ r ∈ s.restarts, r.generation = c.target.generation → r.isOpen = false
  sorted : s.restarts.Pairwise fun r r' ↦ r'.generation < r.generation

omit [LinearOrder Id] in
theorem Logged.le_newest (h : Logged s) {r : RestartRow} (hr : r ∈ s.restarts) :
    r.generation ≤ newestGeneration s.restarts := by
  have hsorted := h.sorted
  cases hrestarts : s.restarts with
  | nil =>
    rw [hrestarts] at hr
    cases hr
  | cons r' rs =>
    rw [hrestarts] at hr hsorted
    rcases List.mem_cons.1 hr with rfl | hr
    · exact le_rfl
    · exact ((List.pairwise_cons.1 hsorted).1 r hr).le

omit [LinearOrder Id] in
/-- A step that closes nothing. -/
theorem Logged.same (h : Logged s) (hexits : t.exits = s.exits) (hclosings : t.closings = s.closings)
    (hrestarts : t.restarts = s.restarts) : Logged t := by
  obtain ⟨hinOrder, hrightful, honce, hshut, hsorted⟩ := h
  refine ⟨?_, ?_, ?_, ?_, ?_⟩
  · rw [hexits]
    exact hinOrder
  · rw [hclosings]
    exact hrightful
  · rw [hclosings]
    exact honce
  · rw [hclosings, hrestarts]
    exact hshut
  · rw [hrestarts]
    exact hsorted

theorem Acted.logged {now : ℕ} {latest : Option RestartRow} {rows : List (ProcessRow Id)}
    (hact : Acted settings s i p now latest rows t) (h : Logged s) : Logged t := by
  cases hact with
  | waits jobWaitSince => exact h.same rfl rfl rfl
  | exits me target hme hlatest hexits =>
    exact ⟨List.forall_mem_cons.2 ⟨hexits.earlier, h.inOrder⟩, h.rightful, h.once, h.shut, h.sorted⟩
  | closes target close closing hclose htarget hrightful =>
    have hgeneration : ∀ r : RestartRow,
        (if r.generation = target.generation ∧ r.isOpen then close r else r).generation =
          r.generation := by
      intro r
      split
      · exact (hclose r).1
      · rfl
    have hshut : ∀ c ∈ s.closings, ∀ r ∈ closeOpen s.restarts target.generation close,
        r.generation = c.target.generation → r.isOpen = false := by
      intro c hc r' hr' hgen
      obtain ⟨r, hr, rfl⟩ := List.mem_map.1 hr'
      rw [hgeneration] at hgen
      split
      · exact (hclose r).2
      · exact (h.shut c hc).2 r hr hgen
    have hnewest : newestGeneration (closeOpen s.restarts target.generation close) =
        newestGeneration s.restarts := closeOpen_newest fun r ↦ (hclose r).1
    have hsorted : (closeOpen s.restarts target.generation close).Pairwise
        fun r r' ↦ r'.generation < r.generation := by
      refine List.pairwise_map.2 (h.sorted.imp fun {r r'} hlt ↦ ?_)
      rw [hgeneration, hgeneration]
      exact hlt
    by_cases hany : s.restarts.any fun r ↦ r.generation = target.generation ∧ r.isOpen
    · obtain ⟨r, hr, hopen⟩ := List.any_eq_true.1 hany
      obtain ⟨hgen, hopen⟩ := of_decide_eq_true hopen
      have hnot : target.generation ∉ s.closings.map (·.target.generation) := by
        intro hmem
        obtain ⟨c, hc, hcgen⟩ := List.mem_map.1 hmem
        rw [(h.shut c hc).2 r hr (hgen.trans hcgen.symm)] at hopen
        cases hopen
      refine ⟨h.inOrder, ?_, ?_, ?_, hsorted⟩
      · rw [if_pos hany]
        exact List.forall_mem_cons.2 ⟨hrightful, h.rightful⟩
      · rw [if_pos hany, List.map_cons, htarget]
        exact List.nodup_cons.2 ⟨hnot, h.once⟩
      · rw [if_pos hany, List.forall_mem_cons, htarget, hnewest]
        refine ⟨⟨?_, fun r' hr' hgen' ↦ ?_⟩, fun c hc ↦ ⟨(h.shut c hc).1, hshut c hc⟩⟩
        · rw [← hgen]
          exact h.le_newest hr
        · obtain ⟨r, hr, rfl⟩ := List.mem_map.1 hr'
          rw [hgeneration] at hgen'
          split
          · exact (hclose r).2
          · next hnot => exact Bool.eq_false_iff.2 fun hopen ↦ hnot ⟨hgen', hopen⟩
    · refine ⟨h.inOrder, ?_, ?_, ?_, hsorted⟩
      · rw [if_neg hany]
        exact h.rightful
      · rw [if_neg hany]
        exact h.once
      · rw [if_neg hany, hnewest]
        exact fun c hc ↦ ⟨(h.shut c hc).1, hshut c hc⟩

omit [LinearOrder Id] in
theorem request_logged (row : RestartRow) (h : Logged s)
    (hnew : newestGeneration s.restarts < row.generation)
    (ht : t = { s with
      restarts := row ::
        s.restarts.map fun r ↦ if r.isOpen then { r with finishedAt := some row.requestedAt } else r
      closings := (s.restarts.filter (·.isOpen)).map .superseded ++ s.closings }) : Logged t := by
  have hle : ∀ c ∈ t.closings, c.target.generation ≤ newestGeneration s.restarts := by
    intro c hc
    rw [ht, List.mem_append] at hc
    rcases hc with hc | hc
    · obtain ⟨r, hr, rfl⟩ := List.mem_map.1 hc
      exact h.le_newest (List.mem_of_mem_filter hr)
    · exact (h.shut c hc).1
  have hgeneration : ∀ r : RestartRow,
      (if r.isOpen then { r with finishedAt := some row.requestedAt } else r).generation =
        r.generation := by
    intro r
    split
    · rfl
    · rfl
  refine ⟨?_, fun c hc ↦ ?_, ?_, fun c hc ↦ ⟨?_, fun r hr hgen ↦ ?_⟩, ?_⟩
  · rw [ht]
    exact h.inOrder
  · rw [ht, List.mem_append] at hc
    rcases hc with hc | hc
    · obtain ⟨r, -, rfl⟩ := List.mem_map.1 hc
      trivial
    · exact h.rightful c hc
  · rw [ht, List.map_append, List.map_map]
    refine List.nodup_append'.2 ⟨?_, h.once, ?_⟩
    · have hlt : (s.restarts.filter (·.isOpen)).Pairwise fun r r' ↦ r'.generation < r.generation :=
        h.sorted.filter _
      exact List.pairwise_map.2 (hlt.imp fun hlt ↦ hlt.ne')
    · intro g hg hmem
      obtain ⟨r, hr, rfl⟩ := List.mem_map.1 hg
      obtain ⟨c, hc, hgen⟩ := List.mem_map.1 hmem
      obtain ⟨hr, hopen⟩ := List.mem_filter.1 hr
      rw [(h.shut c hc).2 r hr hgen.symm] at hopen
      cases hopen
  · rw [ht]
    exact ((hle c hc).trans_lt hnew).le
  · have hcle := hle c hc
    rw [ht, List.mem_cons] at hr
    rcases hr with rfl | hr
    · exact absurd hnew (Nat.not_lt.2 (hgen.le.trans hcle))
    · obtain ⟨r, -, rfl⟩ := List.mem_map.1 hr
      split
      · rfl
      · next hopen => exact Bool.eq_false_iff.2 hopen
  · rw [ht]
    refine List.pairwise_cons.2 ⟨fun r' hr' ↦ ?_, List.pairwise_map.2 (h.sorted.imp fun {r r'} hlt ↦ ?_)⟩
    · obtain ⟨r, hr, rfl⟩ := List.mem_map.1 hr'
      rw [hgeneration]
      exact (h.le_newest hr).trans_lt hnew
    · rw [hgeneration, hgeneration]
      exact hlt

theorem next_logged {a : RestartAction Id} (h : Logged s)
    (hnext : s.next isolation settings a = some t) : Logged t := by
  cases a with
  | advance time =>
    rw [RestartState.next, Option.ite_none_right_eq_some] at hnext
    obtain ⟨-, heq⟩ := hnext
    cases heq
    exact h.same rfl rfl rfl
  | register j role now replaces =>
    obtain ⟨-, -, rfl⟩ := register_spec hnext
    exact h.same rfl rfl rfl
  | request generation now ensureRoles =>
    rw [RestartState.next, Option.ite_none_right_eq_some] at hnext
    obtain ⟨⟨hlt, -⟩, heq⟩ := hnext
    cases heq
    exact request_logged
      ⟨generation, now, requestedRoles s.processes s.restarts now ensureRoles, none, none⟩ h hlt rfl
  | start j =>
    obtain ⟨p, -, -, rfl⟩ := start_spec hnext
    exact h.same rfl rfl rfl
  | heartbeat j =>
    obtain ⟨p, now, -, -, rfl⟩ := heartbeat_spec hnext
    exact h.same rfl rfl rfl
  | readLatest j =>
    obtain ⟨p, now, -, -, rfl⟩ := readLatest_spec hnext
    exact h.same rfl rfl rfl
  | readProcesses j =>
    obtain ⟨p, now, latest, view, -, -, -, rfl⟩ := readProcesses_spec hnext
    exact h.same rfl rfl rfl
  | purge j =>
    obtain ⟨p, now, latest, rows, processes, -, -, -, rfl⟩ := purge_spec hnext
    exact h.same rfl rfl rfl
  | step j kinds =>
    obtain ⟨p, now, latest, rows, -, -, hact⟩ := step_spec hnext
    exact hact.logged h
  | fail j =>
    obtain ⟨p, -, -, rfl⟩ := fail_spec hnext
    exact h.same rfl rfl rfl

theorem init_watched (hs : (restartWatch isolation settings).init s) :
    Watched s ∧ Turns settings s ∧ Logged s := by
  obtain ⟨hprocesses, hrestarts, hrunning, hexits, -, hclosings⟩ := hs
  have hfind : ∀ j p, s.running.find j ≠ some p := by
    intro j p hp
    rw [hrunning] at hp
    cases hp
  refine ⟨⟨?_, ?_, fun j p hp ↦ absurd hp (hfind j p), fun j p hp ↦ absurd hp (hfind j p)⟩,
    ⟨fun j p hp ↦ absurd hp (hfind j p), fun role generation ↦ ?_⟩, ⟨?_, ?_, ?_, ?_, ?_⟩⟩
  · rw [hprocesses]
    exact .nil
  · rw [hprocesses]
    exact nofun
  · rw [RestartState.unreplaced, hexits]
    exact Nat.zero_le _
  · rw [hexits]
    exact nofun
  · rw [hclosings]
    exact nofun
  · rw [hclosings]
    exact .nil
  · rw [hclosings]
    exact nofun
  · rw [hrestarts]
    exact .nil

/-- When each process whose turn it is counts the exits of its role that are not replaced, at most
one process of each role has exited for a request and is not replaced yet. In any run the roles exit
in order, and a request is closed once, as finished only by an api process that found every role
back. -/
theorem restarts_in_turn {as : List (RestartAction Id)}
    (hs : (restartWatch isolation settings).init s)
    (hrun : (restartWatch isolation settings).Run s as t) :
    (((restartWatch isolation settings).restrict (CountsExits isolation settings)).Run s as t →
        ∀ role generation, (t.unreplaced role generation).length ≤ 1) ∧
      (∀ e ∈ t.exits, e.InOrder) ∧ (t.closings.map (·.target.generation)).Nodup ∧
        ∀ c ∈ t.closings, c.Rightful := by
  obtain ⟨hwatched, hturns, hlogged⟩ := init_watched hs
  have hlog : Logged t := by
    refine hrun.invariant ?_ hlogged
    intro u a v hu hst
    exact next_logged hu hst
  refine ⟨fun hcounts ↦ ?_, hlog.inOrder, hlog.once, hlog.rightful⟩
  have h : Watched t ∧ Turns settings t := by
    refine hcounts.invariant (I := fun s ↦ Watched s ∧ Turns settings s) ?_ ⟨hwatched, hturns⟩
    intro u a v hu hst
    exact ⟨(next_watched hu.1 hst.2).1, next_turns hu.2 hu.1 hst.1 hst.2⟩
  exact h.2.one

def tick (i : ℕ) : List (RestartAction ℕ) :=
  [.start i, .heartbeat i, .readLatest i, .readProcesses i, .purge i, .step i []]

def shortTimeout : Settings := ⟨true, 30⟩

def nothing : RestartState ℕ := ⟨0, [], [], .empty, [], .empty, []⟩

theorem nothing_init : (restartWatch isolation settings).init nothing :=
  ⟨rfl, rfl, rfl, rfl, rfl, rfl⟩

/-- Two workers and an api process restart one after the other. -/
def inTurn : List (RestartAction ℕ) :=
  [.register 1 .worker 0 none, .register 2 .worker 0 none, .register 3 .api 0 none,
    .request 1 0 [.api]] ++ tick 2 ++ tick 3 ++ tick 1 ++ tick 2 ++
    [.advance (seconds 10), .register 4 .worker (seconds 10) (some 1)] ++ tick 3 ++ tick 2 ++
    [.register 5 .worker (seconds 10) (some 2)] ++ tick 3 ++
    [.register 6 .api (seconds 10) (some 3)] ++ tick 6

def restarted : RestartState ℕ :=
  (inTurn.foldlM (RestartState.next .snapshot shortTimeout) nothing).getD nothing

theorem restarts_in_turn_sample :
    restarted.exits.map (·.reading.me.instanceId) = [3, 2, 1] ∧ restarted.closings.length = 1 ∧
      (∀ role generation, (restarted.unreplaced role generation).length ≤ 1) ∧
      (∀ e ∈ restarted.exits, e.InOrder) ∧
        (restarted.closings.map (·.target.generation)).Nodup ∧
          ∀ c ∈ restarted.closings, c.Rightful := by
  have hrun : ((restartWatch .snapshot shortTimeout).restrict
      (CountsExits .snapshot shortTimeout)).Run nothing inTurn restarted :=
    Machine.run_of_foldlM inTurn (by decide +kernel)
  obtain ⟨hone, hrest⟩ := restarts_in_turn nothing_init hrun.of_restrict
  exact ⟨by decide +kernel, by decide +kernel, hone hrun, hrest⟩

/-- The first of three workers is replaced late. Its exit has left the window while the replacement
still counts against the exit of the second one, and the third one exits too. -/
def lateReplacement : List (RestartAction ℕ) :=
  [.register 1 .worker 0 none, .register 2 .worker 0 none, .register 3 .worker 0 none,
    .request 1 0 []] ++ tick 1 ++ [.advance (seconds 25)] ++ tick 2 ++ tick 3 ++
    [.advance (seconds 25), .register 4 .worker (seconds 50) (some 1)] ++ tick 3 ++ tick 2 ++
    [.advance (seconds 11)] ++ tick 3

def twoDown : RestartState ℕ :=
  (lateReplacement.foldlM (RestartState.next .snapshot shortTimeout) nothing).getD nothing

theorem two_workers_down :
    ¬ ∀ (as : List (RestartAction ℕ)) (s t : RestartState ℕ),
      (restartWatch .snapshot shortTimeout).init s →
        (restartWatch .snapshot shortTimeout).Run s as t →
          ∀ role generation, (t.unreplaced role generation).length ≤ 1 := by
  intro h
  have hrun : ((restartWatch .snapshot shortTimeout).restrict fun _ _ ↦ True).Run nothing
      lateReplacement twoDown := Machine.run_of_foldlM lateReplacement (by decide +kernel)
  have hone := h _ _ _ nothing_init hrun.of_restrict .worker 1
  exact absurd hone (by decide +kernel)

end Tiqora.Plugins
