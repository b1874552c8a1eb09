import Tiqora.Gdpr.Retention

namespace Tiqora.Gdpr

open Foundation Calendar

namespace State

variable (s : State)

/-- The rows of `article_data_mime` with their articles. -/
def links : List (ℕ × ℕ) := s.mimes.rows.map fun r ↦ (r.1, r.2.articleId)

/-- All rows of the article have been scrubbed. -/
def Scrubbed (articleId : ℕ) : Prop := ∀ id, (id, articleId) ∈ s.links → id ∈ s.scrubs

def Known (articleId : ℕ) : Prop := ∃ a ∈ s.articles, a.id = articleId

end State

/-- No unmarked ticket is matched by two of the rules, and a marked one that is matched had no
article after the run that marked it had read its articles. -/
structure Settled (s : State) (rules : List RetentionRule) (now : Datetime) : Prop where
  apart : rules.Pairwise fun rule rule' ↦ ∀ r ∈ s.tickets.rows, r.1 ∉ s.audit →
    rule.matches now r.2 = true → rule'.matches now r.2 = false
  read : ∀ a ∈ s.articles, s.matched rules now a.ticketId = true → a.ticketId ∈ s.audit →
    a.id ∈ s.covered

def StartsSettled (s : State) : Action → Prop
  | .start rules now => Settled s rules now
  | _ => True

/-- What is stored: articles keep their rows, and what a run had read when it marked a ticket, or
owed when it completed, is scrubbed. -/
structure Stored (s : State) : Prop where
  ids : (s.articles.map (·.id)).Nodup
  homes : ∀ l ∈ s.links, s.Known l.2
  known : ∀ id ∈ s.scrubs, id ∈ s.links.map (·.1)
  covered : ∀ id ∈ s.covered, s.Known id ∧ s.Scrubbed id
  completed : ∀ owed ∈ s.completed, ∀ id ∈ owed, s.Known id ∧ s.Scrubbed id

/-- What the run has before it. -/
structure Working (s : State) : Prop where
  owed_known : ∀ id ∈ s.owed, s.Known id
  owed : ∀ a ∈ s.articles, a.id ∈ s.owed → s.Scrubbed a.id ∨
    (∃ job ∈ s.todo, job.ticketId = a.ticketId) ∨ a.id ∈ s.phase.articleIds
  todo : (s.todo.map (·.ticketId)).Nodup
  unmarked : ∀ job ∈ s.todo, job.ticketId ∉ s.audit
  current : ∀ t ∈ s.phase.ticketId, t ∉ s.audit ∧ ∀ job ∈ s.todo, job.ticketId ≠ t
  articleIds : ∀ id ∈ s.phase.articleIds, ∃ a ∈ s.articles,
    a.id = id ∧ s.phase.ticketId = some a.ticketId
  linked : ∀ r ∈ s.phase.rows, ∃ articleId ∈ s.phase.articleIds, (r.1, articleId) ∈ s.links
  left : ∀ job articleIds rows, s.phase = .scrubbing job articleIds rows →
    ∀ l ∈ s.links, l.2 ∈ articleIds → l.1 ∈ s.scrubs ∨ l.1 ∈ rows.map (·.1)

/-- How often a row has been scrubbed. -/
structure Single (s : State) : Prop where
  once : ∀ l ∈ s.links, ∀ a ∈ s.articles, a.id = l.2 → a.ticketId ∉ s.cut →
    s.scrubs.count l.1 ≤ 1
  fresh : ∀ l ∈ s.links, ∀ a ∈ s.articles, a.id = l.2 → a.ticketId ∉ s.cut →
    a.ticketId ∉ s.audit →
      (∀ job articleIds rows, s.phase = .scrubbing job articleIds rows →
        job.ticketId ≠ a.ticketId) → l.1 ∉ s.scrubs
  rows : (s.phase.rows.map (·.1)).Nodup
  unscrubbed : ∀ t ∈ s.phase.ticketId, t ∉ s.cut → ∀ r ∈ s.phase.rows, r.1 ∉ s.scrubs

structure Kept (s : State) : Prop extends Stored s, Working s, Single s

def Initial (s : State) : Prop :=
  (s.articles.map (·.id)).Nodup ∧ (∀ l ∈ s.links, s.Known l.2) ∧ s.audit = [] ∧ s.phase = .idle ∧
    s.todo = [] ∧ s.owed = [] ∧ s.completed = [] ∧ s.covered = [] ∧ s.scrubs = [] ∧ s.cut = []

def retention (anonymize : Option ℤ → MimeText → MimeText) : Machine State Action :=
  .ofNext Initial (State.next anonymize)

variable {s t : State} {anonymize : Option ℤ → MimeText → MimeText}

theorem keys_nodup (s : State) : (s.links.map (·.1)).Nodup := by
  rw [State.links, List.map_map]
  exact List.pairwise_map.2 s.mimes.keyed

theorem article_unique (h : Stored s) {a a' : Article} (ha : a ∈ s.articles)
    (ha' : a' ∈ s.articles) (heq : a.id = a'.id) : a = a' :=
  List.inj_on_of_nodup_map h.ids ha ha' heq

theorem initial_kept (h : Initial s) : Kept s := by
  obtain ⟨hids, hhomes, haudit, hphase, htodo, howed, hcompleted, hcovered, hscrubs, hcut⟩ := h
  refine ⟨⟨hids, hhomes, ?_, ?_, ?_⟩, ⟨?_, ?_, ?_, ?_, ?_, ?_, ?_, ?_⟩,
    ⟨?_, ?_, ?_, ?_⟩⟩ <;>
    simp [hscrubs, hcovered, hcompleted, howed, htodo, hphase, Phase.ticketId, Phase.articleIds,
      Phase.rows]

theorem Kept.tickets (h : Kept s) (tickets : Table ℕ Ticket) : Kept { s with tickets } :=
  ⟨⟨h.ids, h.homes, h.known, h.covered, h.completed⟩,
    ⟨h.owed_known, h.owed, h.todo, h.unmarked, h.current, h.articleIds, h.linked, h.left⟩,
    ⟨h.once, h.fresh, h.rows, h.unscrubbed⟩⟩

theorem Kept.addArticle (h : Kept s) {article : Article} {rows : List (ℕ × MimeText)}
    {mimes : Table ℕ Mime} (hnew : ∀ a ∈ s.articles, a.id ≠ article.id)
    (hinsert : s.mimes.insert (rows.map fun r ↦ (r.1, ⟨article.id, r.2⟩)) = some mimes) :
    Kept { s with articles := s.articles ++ [article], mimes } := by
  set t : State := { s with articles := s.articles ++ [article], mimes } with ht
  have hlinks : t.links = s.links ++ rows.map fun r ↦ (r.1, article.id) := by
    rw [State.links, State.links, ht]
    dsimp only
    rw [Table.rows_of_insert hinsert, List.map_append, List.map_map]
    rfl
  have hknown : ∀ id, s.Known id → id ≠ article.id ∧ t.Known id := by
    rintro id ⟨a, ha, rfl⟩
    exact ⟨hnew a ha, a, List.mem_append_left _ ha, rfl⟩
  have hlink : ∀ l ∈ t.links, l ∈ s.links ∧ l.2 ≠ article.id ∨
      l.2 = article.id ∧ l.1 ∉ s.scrubs := by
    intro l hl
    rw [hlinks] at hl
    rcases List.mem_append.1 hl with hl | hl
    · exact .inl ⟨hl, (hknown _ (h.homes l hl)).1⟩
    · obtain ⟨r, -, rfl⟩ := List.mem_map.1 hl
      refine .inr ⟨rfl, fun hscrubbed ↦ ?_⟩
      have hkeys := keys_nodup t
      rw [hlinks, List.map_append] at hkeys
      exact (List.nodup_append.1 hkeys).2.2 _ (h.known _ hscrubbed) _
        (List.mem_map_of_mem (f := Prod.fst) hl) rfl
  have hscrubbed : ∀ id, s.Known id → s.Scrubbed id → t.Scrubbed id := by
    intro id hid hs k hk
    rcases hlink _ hk with ⟨hk, -⟩ | ⟨heq, -⟩
    · exact hs k hk
    · exact absurd heq (hknown id hid).1
  have harticle : ∀ a ∈ t.articles, ∀ id, a.id = id → id ≠ article.id → a ∈ s.articles := by
    intro a ha id heq hne
    rcases List.mem_append.1 ha with ha | ha
    · exact ha
    · rw [List.mem_singleton.1 ha] at heq
      exact absurd heq.symm hne
  refine ⟨⟨?_, ?_, ?_, ?_, ?_⟩, ⟨?_, ?_, h.todo, h.unmarked, h.current, ?_, ?_, ?_⟩,
    ⟨?_, ?_, h.rows, h.unscrubbed⟩⟩
  · rw [ht]
    dsimp only
    rw [List.map_append, List.nodup_append]
    refine ⟨h.ids, List.nodup_singleton _, fun id hid id' hid' ↦ ?_⟩
    obtain ⟨a, ha, rfl⟩ := List.mem_map.1 hid
    rw [List.mem_singleton.1 hid']
    exact hnew a ha
  · intro l hl
    rcases hlink l hl with ⟨hl, -⟩ | ⟨heq, -⟩
    · exact (hknown _ (h.homes l hl)).2
    · exact ⟨article, List.mem_append_right _ (List.mem_singleton.2 rfl), heq.symm⟩
  · intro id hid
    rw [hlinks, List.map_append]
    exact List.mem_append_left _ (h.known id hid)
  · intro id hid
    obtain ⟨hk, hs⟩ := h.covered id hid
    exact ⟨(hknown id hk).2, hscrubbed id hk hs⟩
  · intro owed howed id hid
    obtain ⟨hk, hs⟩ := h.completed owed howed id hid
    exact ⟨(hknown id hk).2, hscrubbed id hk hs⟩
  · exact fun id hid ↦ (hknown id (h.owed_known id hid)).2
  · intro a ha howed
    have hk := h.owed_known _ howed
    have ha' := harticle a ha _ rfl (hknown _ hk).1
    exact (h.owed a ha' howed).imp_left (hscrubbed _ hk)
  · intro id hid
    obtain ⟨a, ha, hrest⟩ := h.articleIds id hid
    exact ⟨a, List.mem_append_left _ ha, hrest⟩
  · intro r hr
    obtain ⟨articleId, hid, hl⟩ := h.linked r hr
    refine ⟨articleId, hid, ?_⟩
    rw [hlinks]
    exact List.mem_append_left _ hl
  · intro job articleIds left hphase l hl hid
    rcases hlink l hl with ⟨hl, -⟩ | ⟨heq, -⟩
    · exact h.left job articleIds left hphase l hl hid
    · have hphase' : s.phase = .scrubbing job articleIds left := hphase
      obtain ⟨a, ha, hid', -⟩ := h.articleIds l.2 (by rw [hphase']; exact hid)
      exact absurd (hid'.trans heq) (hnew a ha)
  · intro l hl a ha hid hcut
    rcases hlink l hl with ⟨hl, hne⟩ | ⟨-, hunscrubbed⟩
    · exact h.once l hl a (harticle a ha _ hid hne) hid hcut
    · exact (List.count_eq_zero.2 hunscrubbed).le.trans (Nat.zero_le _)
  · intro l hl a ha hid hcut haudit hphase
    rcases hlink l hl with ⟨hl, hne⟩ | ⟨-, hunscrubbed⟩
    · exact h.fresh l hl a (harticle a ha _ hid hne) hid hcut haudit hphase
    · exact hunscrubbed

/-- Each pending ticket is pending once. -/
theorem pending_nodup {rules : List RetentionRule} {now : Datetime}
    (hsettled : Settled s rules now) : ((s.pending rules now).map (·.ticketId)).Nodup := by
  rw [State.pending, List.map_flatMap, List.nodup_flatMap]
  constructor
  · intro rule _
    rw [List.map_map]
    exact List.pairwise_map.2 (s.tickets.keyed.filter _)
  · refine hsettled.apart.imp fun {rule rule'} happart id hid hid' ↦ ?_
    dsimp only at hid hid'
    rw [List.map_map] at hid hid'
    obtain ⟨r, hr, rfl⟩ := List.mem_map.1 hid
    obtain ⟨r', hr', heq⟩ := List.mem_map.1 hid'
    obtain ⟨hr, hmatches⟩ := List.mem_filter.1 hr
    obtain ⟨hr', hmatches'⟩ := List.mem_filter.1 hr'
    rw [Bool.and_eq_true, decide_eq_true_eq] at hmatches hmatches'
    have hrow : r'.2 = r.2 := by
      refine s.tickets.value_unique (k := r.1) ?_ hr
      rw [← show r'.1 = r.1 from heq]
      exact hr'
    rw [hrow, happart r hr hmatches.2 hmatches.1] at hmatches'
    cases hmatches'.1

/-- The articles of the tickets that the rules match are scrubbed or their tickets are pending. -/
theorem Kept.start (h : Kept s) (hidle : s.phase = .idle) {rules : List RetentionRule}
    {now : Datetime} (hsettled : Settled s rules now) : Kept (s.start rules now) := by
  rw [State.start]
  split
  · next hmonths =>
    have hpending : ∀ job ∈ s.pending rules now, job.ticketId ∉ s.audit := by
      intro job hjob
      obtain ⟨rule, -, hjob⟩ := List.mem_flatMap.1 hjob
      obtain ⟨r, hr, rfl⟩ := List.mem_map.1 hjob
      have hfilter := (List.mem_filter.1 hr).2
      rw [Bool.and_eq_true, decide_eq_true_eq] at hfilter
      exact hfilter.2
    refine ⟨⟨h.ids, h.homes, h.known, h.covered, h.completed⟩,
      ⟨?_, ?_, ?_, hpending, nofun, nofun, nofun, nofun⟩,
      ⟨h.once, ?_, List.nodup_nil, nofun⟩⟩
    · intro id hid
      obtain ⟨a, ha, rfl⟩ := List.mem_map.1 hid
      exact ⟨a, (List.mem_filter.1 ha).1, rfl⟩
    · intro a ha howed
      obtain ⟨a', ha', heq⟩ := List.mem_map.1 howed
      obtain ⟨ha', hmatched⟩ := List.mem_filter.1 ha'
      rw [article_unique h.toStored ha' ha heq] at hmatched
      by_cases haudit : a.ticketId ∈ s.audit
      · exact .inl (h.covered _ (hsettled.read a ha hmatched haudit)).2
      · refine .inr (.inl ?_)
        obtain ⟨r, hr, hrule⟩ := List.any_eq_true.1 hmatched
        rw [Bool.and_eq_true, decide_eq_true_eq, List.any_eq_true] at hrule
        obtain ⟨hid, rule, hrule, hmatches⟩ := hrule
        refine ⟨⟨rule.seed, r.1⟩, List.mem_flatMap.2 ⟨rule, hrule, ?_⟩, hid⟩
        refine List.mem_map.2 ⟨r, ?_, rfl⟩
        refine List.mem_filter.2 ⟨hr, ?_⟩
        rw [Bool.and_eq_true, decide_eq_true_eq, hid]
        exact ⟨hmatches, haudit⟩
    · exact pending_nodup hsettled
    · intro l hl a ha hid hcut haudit _
      exact h.fresh l hl a ha hid hcut haudit (by rw [hidle]; exact nofun)
  · exact h

/-- A run that is complete owes nothing. -/
theorem Kept.finish (h : Kept s) (hphase : s.phase = .between) (htodo : s.todo = []) :
    Kept { s with phase := .idle, owed := [], completed := s.completed ++ [s.owed] } := by
  refine ⟨⟨h.ids, h.homes, h.known, h.covered, ?_⟩,
    ⟨nofun, nofun, h.todo, h.unmarked, nofun, nofun, nofun, nofun⟩,
    ⟨h.once, ?_, List.nodup_nil, nofun⟩⟩
  · intro owed howed id hid
    rcases List.mem_append.1 howed with howed | howed
    · exact h.completed owed howed id hid
    · rw [List.mem_singleton.1 howed] at hid
      have hknown := h.owed_known id hid
      obtain ⟨a, ha, rfl⟩ := hknown
      refine ⟨h.owed_known _ hid, ?_⟩
      rcases h.owed a ha hid with hs | ⟨job, hjob, -⟩ | hcurrent
      · exact hs
      · rw [htodo] at hjob
        exact absurd hjob List.not_mem_nil
      · rw [hphase] at hcurrent
        exact absurd hcurrent List.not_mem_nil
  · intro l hl a ha hid hcut haudit _
    exact h.fresh l hl a ha hid hcut haudit (by rw [hphase]; exact nofun)

/-- The run reads the articles of the next ticket. -/
theorem Kept.list (h : Kept s) (hphase : s.phase = .between) {job : Job} {todo : List Job}
    (htodo : s.todo = job :: todo) :
    Kept { s with
      phase := .listed job ((s.articles.filter fun a ↦ a.ticketId = job.ticketId).map (·.id))
      todo } := by
  have hmem : ∀ {j}, j ∈ todo → j ∈ s.todo := fun hj ↦ htodo ▸ List.mem_cons_of_mem _ hj
  have hnodup := h.todo
  rw [htodo, List.map_cons, List.nodup_cons] at hnodup
  refine ⟨⟨h.ids, h.homes, h.known, h.covered, h.completed⟩,
    ⟨h.owed_known, ?_, hnodup.2, fun j hj ↦ h.unmarked j (hmem hj), ?_, ?_, nofun, nofun⟩,
    ⟨h.once, ?_, List.nodup_nil, fun _ _ _ ↦ nofun⟩⟩
  · intro a ha howed
    rcases h.owed a ha howed with hs | ⟨j, hj, hid⟩ | hcurrent
    · exact .inl hs
    · rw [htodo] at hj
      rcases List.mem_cons.1 hj with rfl | hj
      · refine .inr (.inr (List.mem_map.2 ⟨a, List.mem_filter.2 ⟨ha, ?_⟩, rfl⟩))
        exact decide_eq_true hid.symm
      · exact .inr (.inl ⟨j, hj, hid⟩)
    · rw [hphase] at hcurrent
      exact absurd hcurrent List.not_mem_nil
  · rintro t ht
    cases ht
    refine ⟨h.unmarked job (htodo ▸ List.mem_cons_self ..), fun j hj heq ↦ ?_⟩
    exact hnodup.1 (heq ▸ List.mem_map_of_mem hj)
  · intro id hid
    obtain ⟨a, ha, rfl⟩ := List.mem_map.1 hid
    obtain ⟨ha, hticket⟩ := List.mem_filter.1 ha
    exact ⟨a, ha, rfl, congrArg some (of_decide_eq_true hticket).symm⟩
  · intro l hl a ha hid hcut haudit _
    exact h.fresh l hl a ha hid hcut haudit (by rw [hphase]; exact nofun)

/-- The run reads the rows of the articles. -/
theorem Kept.read (h : Kept s) {job : Job} {articleIds : List ℕ} {rows : List (ℕ × Mime)}
    (hphase : s.phase = .listed job articleIds)
    (hrows : rows = s.mimes.rows.filter fun r ↦ r.2.articleId ∈ articleIds) :
    Kept { s with phase := .scrubbing job articleIds rows } := by
  subst hrows
  have hrow : ∀ r ∈ s.mimes.rows.filter fun r ↦ decide (r.2.articleId ∈ articleIds),
      r.2.articleId ∈ articleIds ∧ (r.1, r.2.articleId) ∈ s.links := by
    intro r hr
    obtain ⟨hr, hid⟩ := List.mem_filter.1 hr
    exact ⟨of_decide_eq_true hid, List.mem_map.2 ⟨r, hr, rfl⟩⟩
  have howed := h.owed
  have hcurrent := h.current
  have harticles := h.articleIds
  rw [hphase] at howed hcurrent harticles
  refine ⟨⟨h.ids, h.homes, h.known, h.covered, h.completed⟩,
    ⟨h.owed_known, howed, h.todo, h.unmarked, hcurrent, harticles,
      fun r hr ↦ ⟨r.2.articleId, hrow r hr⟩, ?_⟩,
    ⟨h.once, ?_, List.pairwise_map.2 (s.mimes.keyed.filter _), ?_⟩⟩
  · rintro _ _ _ ⟨⟩ l hl hid
    obtain ⟨r, hr, rfl⟩ := List.mem_map.1 hl
    exact .inr (List.mem_map.2 ⟨r, List.mem_filter.2 ⟨hr, decide_eq_true hid⟩, rfl⟩)
  · intro l hl a ha hid hcut haudit _
    exact h.fresh l hl a ha hid hcut haudit (by rw [hphase]; exact nofun)
  · rintro t ht hcut r hr
    cases ht
    obtain ⟨hid, hl⟩ := hrow r hr
    obtain ⟨a, ha, haid, hticket⟩ := harticles _ hid
    have hticket : job.ticketId = a.ticketId := Option.some.inj hticket
    refine h.fresh _ hl a ha haid (hticket ▸ hcut) (hticket ▸ (hcurrent _ rfl).1) ?_
    rw [hphase]
    exact nofun

/-- The ticket of a row that the run has read is the one that it works on. -/
theorem ticket_of_row (h : Kept s) {r : ℕ × Mime} (hr : r ∈ s.phase.rows) {l : ℕ × ℕ}
    (hl : l ∈ s.links) (hkey : l.1 = r.1) {a : Article} (ha : a ∈ s.articles) (hid : a.id = l.2) :
    s.phase.ticketId = some a.ticketId := by
  obtain ⟨articleId, hmem, hlink⟩ := h.linked r hr
  obtain ⟨a', ha', hid', hticket⟩ := h.articleIds _ hmem
  have heq : l = (r.1, articleId) :=
    List.inj_on_of_nodup_map (keys_nodup s) hl hlink hkey
  rw [article_unique h.toStored ha ha' (hid.trans (hid'.trans (by rw [heq])).symm)]
  exact hticket

/-- The run scrubs a row. -/
theorem Kept.scrub (h : Kept s) {job : Job} {articleIds : List ℕ} {id : ℕ} {row : Mime}
    {rows : List (ℕ × Mime)} (hphase : s.phase = .scrubbing job articleIds ((id, row) :: rows))
    (f : Mime → MimeText) :
    Kept { s with
      phase := .scrubbing job articleIds rows
      mimes := s.mimes.update fun key mime ↦ if key = id then { mime with text := f mime } else mime
      scrubs := s.scrubs ++ [id] } := by
  set t : State := { s with
      phase := .scrubbing job articleIds rows
      mimes := s.mimes.update fun key mime ↦ if key = id then { mime with text := f mime } else mime
      scrubs := s.scrubs ++ [id] } with ht
  have hlinks : t.links = s.links := by
    rw [State.links, State.links, ht, Table.update, List.map_map]
    refine List.map_congr_left fun r _ ↦ Prod.ext rfl ?_
    rw [Function.comp_apply]
    dsimp only
    split <;> rfl
  have hscrubbed : ∀ k, s.Scrubbed k → t.Scrubbed k := by
    intro k hs l hl
    rw [hlinks] at hl
    exact List.mem_append_left _ (hs l hl)
  have hrow : (id, row) ∈ s.phase.rows := by
    rw [hphase]
    exact List.mem_cons_self ..
  have hticket : ∀ l ∈ s.links, ∀ a ∈ s.articles, a.id = l.2 → l.1 = id →
      job.ticketId = a.ticketId := by
    intro l hl a ha hid hkey
    have hcurrent := ticket_of_row h hrow hl hkey ha hid
    rw [hphase] at hcurrent
    exact Option.some.inj hcurrent
  have hrows := h.rows
  have howed := h.owed
  have hcurrent := h.current
  have harticles := h.articleIds
  have hlinked := h.linked
  have hunscrubbed := h.unscrubbed
  rw [hphase] at hrows howed hcurrent harticles hlinked hunscrubbed
  rw [Phase.rows, List.map_cons, List.nodup_cons] at hrows
  refine ⟨⟨h.ids, ?_, ?_, ?_, ?_⟩,
    ⟨h.owed_known, ?_, h.todo, h.unmarked, hcurrent, harticles, ?_, ?_⟩,
    ⟨?_, ?_, hrows.2, ?_⟩⟩
  · rw [hlinks]
    exact h.homes
  · intro k hk
    rw [hlinks]
    rcases List.mem_append.1 hk with hk | hk
    · exact h.known k hk
    · obtain ⟨articleId, -, hl⟩ := h.linked _ hrow
      rw [List.mem_singleton.1 hk]
      exact List.mem_map_of_mem (f := Prod.fst) hl
  · exact fun k hk ↦ ⟨(h.covered k hk).1, hscrubbed k (h.covered k hk).2⟩
  · exact fun owed ho k hk ↦
      ⟨(h.completed owed ho k hk).1, hscrubbed k (h.completed owed ho k hk).2⟩
  · exact fun a ha hid ↦ (howed a ha hid).imp_left (hscrubbed _)
  · intro r hr
    obtain ⟨articleId, hid, hl⟩ := hlinked r (List.mem_cons_of_mem _ hr)
    refine ⟨articleId, hid, ?_⟩
    rw [hlinks]
    exact hl
  · rintro _ _ _ ⟨⟩ l hl hid
    rw [hlinks] at hl
    rcases h.left _ _ _ hphase l hl hid with hs | hleft
    · exact .inl (List.mem_append_left _ hs)
    · rw [List.map_cons] at hleft
      rcases List.mem_cons.1 hleft with heq | hleft
      · exact .inl (List.mem_append_right _ (List.mem_singleton.2 heq))
      · exact .inr hleft
  · intro l hl a ha hid hcut
    rw [hlinks] at hl
    have honce := h.once l hl a ha hid hcut
    rw [ht]
    dsimp only
    rw [List.count_append, List.count_singleton]
    split
    · next heq =>
      have hkey : id = l.1 := beq_iff_eq.1 heq
      have hjob := hticket l hl a ha hid hkey.symm
      have hnone := hunscrubbed _ rfl (hjob ▸ hcut) _ (List.mem_cons_self ..)
      rw [← hkey, List.count_eq_zero.2 hnone]
    · exact honce
  · intro l hl a ha hid hcut haudit hother hmem
    rw [hlinks] at hl
    rcases List.mem_append.1 hmem with hs | heq
    · refine h.fresh l hl a ha hid hcut haudit (fun j _ _ hphase' ↦ ?_) hs
      rw [hphase] at hphase'
      cases hphase'
      exact hother _ _ _ rfl
    · exact hother _ _ _ rfl (hticket l hl a ha hid (List.mem_singleton.1 heq))
  · intro j hj hcut r hr hmem
    have hr : r ∈ rows := hr
    rcases List.mem_append.1 hmem with hs | heq
    · exact hunscrubbed j hj hcut r (List.mem_cons_of_mem _ hr) hs
    · have hrow : r.1 ∈ rows.map (·.1) := List.mem_map_of_mem hr
      exact hrows.1 (List.mem_singleton.1 heq ▸ hrow)

/-- The ticket is marked: all rows of the articles that were read are scrubbed. -/
theorem Kept.mark (h : Kept s) {job : Job} {articleIds : List ℕ}
    (hphase : s.phase = .scrubbing job articleIds []) :
    Kept { s with
      phase := .between
      audit := s.audit ++ [job.ticketId]
      covered := s.covered ++ articleIds } := by
  have howed := h.owed
  have hcurrent := h.current
  have harticles := h.articleIds
  rw [hphase] at howed hcurrent harticles
  have hscrubbed : ∀ id ∈ articleIds, s.Scrubbed id := by
    intro id hid k hk
    exact (h.left _ _ _ hphase _ hk hid).resolve_right List.not_mem_nil
  refine ⟨⟨h.ids, h.homes, h.known, ?_, h.completed⟩,
    ⟨h.owed_known, ?_, h.todo, ?_, nofun, nofun, nofun, nofun⟩,
    ⟨h.once, ?_, List.nodup_nil, nofun⟩⟩
  · intro id hid
    rcases List.mem_append.1 hid with hid | hid
    · exact h.covered id hid
    · obtain ⟨a, ha, haid, -⟩ := harticles id hid
      exact ⟨⟨a, ha, haid⟩, hscrubbed id hid⟩
  · intro a ha hid
    rcases howed a ha hid with hs | htodo | hread
    · exact .inl hs
    · exact .inr (.inl htodo)
    · exact .inl (hscrubbed _ hread)
  · intro j hj haudit
    rcases List.mem_append.1 haudit with haudit | haudit
    · exact h.unmarked j hj haudit
    · exact (hcurrent _ rfl).2 j hj (List.mem_singleton.1 haudit)
  · intro l hl a ha hid hcut haudit _
    rw [List.mem_append, not_or, List.mem_singleton] at haudit
    refine h.fresh l hl a ha hid hcut haudit.1 fun job' _ _ hphase' heq ↦ ?_
    rw [hphase] at hphase'
    cases hphase'
    exact haudit.2 heq.symm

/-- A run that is cut off leaves its ticket without a mark. -/
theorem Kept.cutOff (h : Kept s) :
    Kept { s with phase := .idle, todo := [], owed := [], cut :=
      s.cut ++ s.phase.ticketId.toList } := by
  refine ⟨⟨h.ids, h.homes, h.known, h.covered, h.completed⟩,
    ⟨nofun, nofun, List.nodup_nil, nofun, nofun, nofun, nofun, nofun⟩,
    ⟨?_, ?_, List.nodup_nil, nofun⟩⟩
  · intro l hl a ha hid hcut
    exact h.once l hl a ha hid fun hmem ↦ hcut (List.mem_append_left _ hmem)
  · intro l hl a ha hid hcut haudit _
    rw [List.mem_append, not_or, Option.mem_toList] at hcut
    refine h.fresh l hl a ha hid hcut.1 haudit fun job _ _ hphase heq ↦ hcut.2 ?_
    rw [hphase, ← heq]
    exact rfl

theorem next_kept (h : Kept s) {a : Action} (hsettled : StartsSettled s a)
    (hnext : s.next anonymize a = some t) : Kept t := by
  cases a with
  | openTicket id ticket =>
    rw [State.next] at hnext
    split at hnext
    · cases hnext
      exact h.tickets _
    · cases hnext
  | changeTicket id ticket =>
    rw [State.next] at hnext
    split at hnext
    · cases hnext
    · cases hnext
      exact h.tickets _
  | addArticle article rows =>
    rw [State.next] at hnext
    split at hnext
    · next hnew =>
      obtain ⟨mimes, hinsert, rfl⟩ := Option.map_eq_some_iff.1 hnext
      rw [Bool.and_eq_true, List.all_eq_true] at hnew
      exact h.addArticle (fun a ha ↦ of_decide_eq_true (hnew.1 a ha)) hinsert
    · cases hnext
  | start rules now =>
    rw [State.next] at hnext
    split at hnext
    · next hidle =>
      cases hnext
      exact h.start hidle hsettled
    · cases hnext
  | advance =>
    rw [State.next, State.advance] at hnext
    split at hnext
    · cases hnext
    · next hphase =>
      split at hnext
      · next htodo =>
        cases hnext
        exact h.finish hphase htodo
      · next htodo =>
        cases hnext
        exact h.list hphase htodo
    · next hphase =>
      cases hnext
      exact h.read hphase rfl
    · next hphase =>
      cases hnext
      exact h.scrub hphase _
    · next hphase =>
      cases hnext
      exact h.mark hphase
  | cutOff =>
    rw [State.next] at hnext
    split at hnext
    · cases hnext
    · cases hnext
      exact h.cutOff

/-- In a run whose retention calls all start settled, a completed call leaves every article that it
owed scrubbed, and only a call that was cut off at a ticket makes a row of it be scrubbed twice. -/
theorem retention_holds (hrun : ((retention anonymize).restrict StartsSettled).Reachable s) :
    (∀ owed ∈ s.completed, ∀ articleId ∈ owed, ∀ r ∈ s.mimes.rows, r.2.articleId = articleId →
      r.1 ∈ s.scrubs) ∧
    ∀ r ∈ s.mimes.rows, ∀ a ∈ s.articles, a.id = r.2.articleId → a.ticketId ∉ s.cut →
      s.scrubs.count r.1 ≤ 1 := by
  have hkept : Kept s := by
    refine hrun.invariant ?_ ?_
    · intro u hu
      exact initial_kept hu
    · intro u a v hu hst
      exact next_kept hu hst.1 hst.2
  constructor
  · intro owed howed articleId hid r hr heq
    refine (hkept.completed owed howed articleId hid).2 r.1 ?_
    rw [← heq]
    exact List.mem_map_of_mem hr
  · intro r hr a ha hid hcut
    exact hkept.once (r.1, r.2.articleId) (List.mem_map_of_mem hr) a ha hid hcut

section Sample

theorem guarded_iff (p : Prop) (b c : Bool) :
    (p ∨ b = false) ∨ c = false ↔ ¬p → b = true → c = false := by
  cases b <;> cases c <;> simp

theorem unmatched_iff (b : Bool) (p q : Prop) : (b = false ∨ ¬p) ∨ q ↔ b = true → p → q := by
  cases b <;> simp [imp_iff_not_or]

instance (s : State) (rules : List RetentionRule) (now : Datetime) :
    Decidable (Settled s rules now) :=
  decidable_of_iff
    ((rules.Pairwise fun rule rule' ↦ ∀ r ∈ s.tickets.rows,
        (r.1 ∈ s.audit ∨ rule.matches now r.2 = false) ∨ rule'.matches now r.2 = false) ∧
      ∀ a ∈ s.articles, (s.matched rules now a.ticketId = false ∨ a.ticketId ∉ s.audit) ∨
        a.id ∈ s.covered)
    (by
      simp only [guarded_iff, unmatched_iff]
      exact ⟨fun h ↦ ⟨h.1, h.2⟩, fun h ↦ ⟨h.apart, h.read⟩⟩)

instance (s : State) : ∀ a, Decidable (StartsSettled s a)
  | .start rules now => inferInstanceAs (Decidable (Settled s rules now))
  | .openTicket _ _ | .changeTicket _ _ | .addArticle _ _ | .advance | .cutOff => .isTrue trivial

/-- A day in the first years of the calendar. -/
def dayAt (day : ℕ) (h : day * dayMicros < maxDays * dayMicros) : Datetime := ⟨day * dayMicros, h⟩

def emptyState : State where
  tickets := .empty
  articles := []
  mimes := .empty
  audit := []
  phase := .idle
  todo := []
  owed := []
  completed := []
  covered := []
  scrubs := []
  cut := []

def support : RetentionRule := ⟨"support", "Support", 12, "closed", none⟩

def blank : MimeText := ⟨none, none, none, some "Hello"⟩

def replaceBody (_ : Option ℤ) (text : MimeText) : MimeText :=
  { text with aBody := text.aBody.map fun _ ↦ "Lorem ipsum." }

/-- A closed ticket with an article, and a call that scrubs it. -/
def firstCall (rules : List RetentionRule) : List Action :=
  [.openTicket 1 ⟨"Support", "closed", dayAt 100 (by decide)⟩, .addArticle ⟨1, 1⟩ [(1, blank)],
    .start rules (dayAt 1000 (by decide)), .advance, .advance, .advance, .advance]

theorem emptyState_initial : Initial emptyState := by
  simp [Initial, emptyState, State.links, Table.empty]

theorem retention_holds_sample : ∃ s : State, s.completed = [[1]] ∧
    (∀ owed ∈ s.completed, ∀ articleId ∈ owed, ∀ r ∈ s.mimes.rows, r.2.articleId = articleId →
      r.1 ∈ s.scrubs) ∧
    ∀ r ∈ s.mimes.rows, ∀ a ∈ s.articles, a.id = r.2.articleId → a.ticketId ∉ s.cut →
      s.scrubs.count r.1 ≤ 1 := by
  have hrun : ((firstCall [support] ++ [Action.advance]).foldlM (fun s a ↦
      if StartsSettled s a then s.next replaceBody a else none) emptyState).map State.completed =
        some [[1]] := by
    decide +kernel
  obtain ⟨s, hrun, hcompleted⟩ := Machine.exists_reachable _ emptyState_initial hrun
  exact ⟨s, hcompleted, retention_holds hrun⟩

/-- The ticket is opened again for another article, and is closed long enough again. -/
def secondCall : List Action :=
  [.advance, .changeTicket 1 ⟨"Support", "open", dayAt 1001 (by decide)⟩,
    .addArticle ⟨2, 1⟩ [(2, blank)], .changeTicket 1 ⟨"Support", "closed", dayAt 1002 (by decide)⟩,
    .start [support] (dayAt 2000 (by decide)), .advance]

/-- A later article of a marked ticket stays as it is, and two rules scrub a row twice. -/
theorem article_kept :
    ((firstCall [support] ++ secondCall).foldlM (State.next replaceBody) emptyState).map
      (fun s ↦ (s.completed, s.links, s.scrubs)) =
        some ([[1], [1, 2]], [(1, 1), (2, 2)], [1]) ∧
    ((firstCall [support, support] ++ List.replicate 5 Action.advance).foldlM
      (State.next replaceBody) emptyState).map (fun s ↦ (s.completed, s.cut, s.scrubs)) =
        some ([[1]], [], [1, 1]) := by
  decide +kernel

end Sample

end Tiqora.Gdpr
