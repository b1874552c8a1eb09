import Tiqora.Domain.DynamicFieldValues

namespace Tiqora.Domain.DynamicField

open Foundation Civil Calendar

variable {dt : Datetime} {field : FieldConfig} {fieldType : FieldType} {v w : Text}
  {values new : List Text} {db db' : Store} {objectId ticketId userId : ℕ} {now : Datetime}

section Moments

theorem fmtDate_ne_nil : fmtDate dt ≠ [] := by
  rw [fmtDate]
  exact List.append_ne_nil_of_right_ne_nil _ (List.cons_ne_nil _ _)

theorem fmtDate_digits {y e a r m o d t h i n u s c : Char}
    (hdigits : Digits dt y e a r m o d t h i n u s c) :
    fmtDate dt = [y, e, a, r, '-', m, o, '-', d, t, ' ', h, i, ':', n, u, ':', s, c] := by
  rw [fmtDate, hdigits.year, hdigits.month, hdigits.day, hdigits.hour, hdigits.minute,
    hdigits.second]
  rfl

theorem strip_fmtDate : strip (fmtDate dt) = fmtDate dt := by
  obtain ⟨y, e, a, r, m, o, d, t, h, i, n, u, s, c, hdigits⟩ := exists_digits dt
  have hall := List.all_eq_true.1 hdigits.digits
  rw [fmtDate_digits hdigits]
  refine strip_of_ends (fun k hk ↦ ?_) fun k hk ↦ ?_
  · cases hk
    exact not_space_of_digit (hall _ (by simp))
  · cases hk
    exact not_space_of_digit (hall _ (by simp))

theorem length_fmtDate : (fmtDate dt).length = 19 := by
  obtain ⟨y, e, a, r, m, o, d, t, h, i, n, u, s, c, hdigits⟩ := exists_digits dt
  rw [fmtDate_digits hdigits]
  rfl

/-- A moment that was printed is read as it was. -/
theorem parseDatetime_fmtDate (h : dt.1 % 1000000 = 0) : parseDatetime (fmtDate dt) = some dt := by
  obtain ⟨y, e, a, r, m, o, d, t, h', i, n, u, s, c, hdigits⟩ := exists_digits dt
  have hfields := ofFields_self h
  rw [parseDatetime, strip_fmtDate, fmtDate_digits hdigits]
  change (if ' ' = ' ' ∨ ' ' = 'T' then fromDigits y e a r m o d t h' i n u s c else none) = _
  rw [if_pos (.inl rfl), fromDigits, if_pos hdigits.digits, ← hdigits.year, ← hdigits.month,
    ← hdigits.day, ← hdigits.hour, ← hdigits.minute, ← hdigits.second]
  simp only [readDigits_zfill]
  exact hfields

theorem parseDatetime_whole (h : parseDatetime v = some dt) : dt.1 % 1000000 = 0 := by
  have hfrom : ∀ {y e a r m o d t h i n u s c : Char},
      fromDigits y e a r m o d t h i n u s c = some dt → dt.1 % 1000000 = 0 := by
    intro y e a r m o d t h i n u s c hfrom
    rw [fromDigits] at hfrom
    split at hfrom
    · exact ofFields_whole hfrom
    · cases hfrom
  rw [parseDatetime] at h
  split at h
  · exact hfrom h
  · split at h
    · exact hfrom h
    · cases h
  · split at h
    · exact hfrom h
    · cases h
  · cases h

theorem fieldValue_zfill (width n : ℕ) : fieldValue (zfill width n) = n := by
  have hfilter : (zfill width n).filter (· ≠ ' ') = zfill width n := by
    refine List.filter_eq_self.2 fun c hc ↦ decide_eq_true ?_
    rintro rfl
    exact absurd (ascii_zfill width n _ hc) (by decide)
  rw [fieldValue, hfilter, readDigits_zfill]

theorem splitOn_zfill {sep : Char} (hsep : sep.isDigit = false) (width n : ℕ) (rest : Text) :
    (zfill width n ++ sep :: rest).splitOn sep = zfill width n :: rest.splitOn sep := by
  rw [List.splitOn_eq_splitOnP, List.splitOn_eq_splitOnP]
  refine List.splitOnP_append_cons_of_forall_mem (p := (· == sep)) (fun c hc ↦ beq_false_of_ne ?_)
    sep (beq_self_eq_true sep) rest
  rintro rfl
  rw [ascii_zfill width n c hc] at hsep
  cases hsep

theorem splitOn_zfill_last {sep : Char} (hsep : sep.isDigit = false) (width n : ℕ) :
    (zfill width n).splitOn sep = [zfill width n] := by
  refine List.splitOn_eq_singleton fun hmem ↦ ?_
  rw [ascii_zfill width n sep hmem] at hsep
  cases hsep

theorem matches_month : ∀ n < 12, matchesOne monthPattern (zfill 2 (n + 1)) = true := by
  decide

theorem matches_day : ∀ n < 31, matchesOne dayPattern (zfill 2 (n + 1)) = true := by decide

theorem matches_hour : ∀ n < 24, matchesOne hourPattern (zfill 2 n) = true := by decide

theorem matches_minute : ∀ n < 60, matchesOne minutePattern (zfill 2 n) = true := by decide

theorem matches_second : ∀ n < 60, matchesOne secondPattern (zfill 2 n) = true := by decide

/-- `strptime` reads what `strftime` prints. -/
theorem strptime_fmtDate (h : dt.1 % 1000000 = 0) : strptime (fmtDate dt) = some dt := by
  obtain ⟨y, e, a, r, m, o, d, t, h', i, n, u, s, c, hdigits⟩ := exists_digits dt
  have hall := List.all_eq_true.1 hdigits.digits
  have hspace : ∀ {k}, k ∈ [y, e, a, r, m, o, d, t, h', i, n, u, s, c] → isSpace k = false :=
    fun hk ↦ not_space_of_digit (hall _ hk)
  set clock := zfill 2 (dt.clock / 3600) ++ ':' :: (zfill 2 (dt.clock / 60 % 60) ++
    ':' :: zfill 2 (dt.clock % 60)) with hclock
  have hnot : ∀ width k, '-' ∉ zfill width k := fun width k hmem ↦
    absurd (ascii_zfill width k _ hmem) (by decide)
  have hminus : '-' ∉ zfill 2 dt.day ++ ' ' :: clock := by
    simp only [hclock, List.mem_append, List.mem_cons, not_or]
    exact ⟨hnot 2 _, by decide, hnot 2 _, by decide, hnot 2 _, by decide, hnot 2 _⟩
  have hsplit : (fmtDate dt).splitOn '-' =
      [zfill 4 (yearOf dt.month), zfill 2 (dt.month % 12 + 1), zfill 2 dt.day ++ ' ' :: clock] := by
    rw [fmtDate, splitOn_zfill (by decide), splitOn_zfill (by decide),
      List.splitOn_eq_singleton hminus]
  have hparts : clock.splitOn ':' = [zfill 2 (dt.clock / 3600), zfill 2 (dt.clock / 60 % 60),
      zfill 2 (dt.clock % 60)] := by
    rw [hclock, splitOn_zfill (by decide), splitOn_zfill (by decide),
      splitOn_zfill_last (by decide)]
  have hday : (zfill 2 dt.day ++ ' ' :: clock).take 1 ++
      ((zfill 2 dt.day ++ ' ' :: clock).drop 1).takeWhile (fun c ↦ !isSpace c) =
        zfill 2 dt.day := by
    have ht : isSpace t = false := hspace (by simp)
    have hblank : isSpace ' ' = true := by decide
    rw [hdigits.day]
    simp [ht, hblank]
  have hfirst : ∃ rest, clock = h' :: rest := ⟨_, by rw [hclock, hdigits.hour]; rfl⟩
  obtain ⟨rest, hrest⟩ := hfirst
  have hspace' : isSpace h' = false := hspace (by simp)
  have htake : (' ' :: clock).takeWhile isSpace = [' '] := by
    rw [hrest, List.takeWhile_cons_of_pos (by decide),
      List.takeWhile_cons_of_neg (by rw [hspace']; decide)]
  have hdrop : (' ' :: clock).dropWhile isSpace = clock := by
    rw [hrest, List.dropWhile_cons_of_pos (by decide),
      List.dropWhile_cons_of_neg (by rw [hspace']; decide)]
  have hclock' := clock_lt dt
  have hdayLe : dt.day ≤ 31 := day_le.trans (monthLength_le _)
  have hdayPos : 0 < dt.day := day_pos
  obtain ⟨day, hdayEq⟩ := Nat.exists_eq_add_of_le' hdayPos
  have hyear : (zfill 4 (yearOf dt.month)).length = 4 := by rw [hdigits.year]; rfl
  have hdigit : (zfill 4 (yearOf dt.month)).all isDigit = true :=
    List.all_eq_true.2 (isDigit_zfill 4 _)
  rw [strptime, hsplit]
  dsimp only
  rw [hday, List.drop_left, htake, hdrop, hparts]
  dsimp only
  rw [if_pos]
  · simp only [fieldValue_zfill]
    exact ofFields_self h
  · refine ⟨hyear, hdigit, matches_month _ (Nat.mod_lt _ (by decide)), ?_,
      matches_hour _ (by omega), matches_minute _ (by omega), matches_second _ (by omega)⟩
    rw [hdayEq]
    exact matches_day _ (by omega)

end Moments

section Normal

/-- The values that are stored of a type. -/
def NormalValue (fieldType : FieldType) (v : Text) : Prop :=
  v ≠ [] ∧ match fieldType with
    | .date => ∃ dt, dt.1 % 1000000 = 0 ∧ dt.clock = 0 ∧ v = fmtDate dt
    | .dateTime => ∃ dt, dt.1 % 1000000 = 0 ∧ v = fmtDate dt
    | .checkbox => v = ['0'] ∨ v = ['1']
    | _ => True

structure Normal (fieldType : FieldType) (new : List Text) : Prop where
  values : ∀ v ∈ new, NormalValue fieldType v
  single : fieldType.isSingle = true → new.length ≤ 1

theorem mapM_normal {f : Text → Except Error Text} {P : Text → Prop}
    (hf : ∀ v w, f v = .ok w → P w) (h : values.mapM f = .ok new) :
    (∀ w ∈ new, P w) ∧ new.length = values.length := by
  induction values generalizing new with
  | nil =>
    cases h
    exact ⟨nofun, rfl⟩
  | cons v values ih =>
    rw [List.mapM_cons] at h
    cases hv : f v with
    | error e =>
      rw [hv] at h
      cases h
    | ok w =>
      rw [hv] at h
      cases hrest : values.mapM f with
      | error e =>
        rw [hrest] at h
        cases h
      | ok rest =>
        rw [hrest] at h
        cases h
        obtain ⟨hrest, hlength⟩ := ih hrest
        exact ⟨List.forall_mem_cons.2 ⟨hf v w hv, hrest⟩, by
          rw [List.length_cons, List.length_cons, hlength]⟩

theorem mapM_self {f : Text → Except Error Text} (hf : ∀ v ∈ values, f v = .ok v) :
    values.mapM f = .ok values := by
  induction values with
  | nil => rfl
  | cons v values ih =>
    obtain ⟨hv, hvalues⟩ := List.forall_mem_cons.1 hf
    rw [List.mapM_cons, hv, ih hvalues]
    rfl

theorem normalizeDate_normal (h : normalizeDate v = .ok w) : NormalValue .date w := by
  rw [normalizeDate] at h
  split at h
  · next dt hdt =>
    split at h
    · next hclock =>
      cases h
      exact ⟨fmtDate_ne_nil, dt, parseDatetime_whole hdt, hclock, rfl⟩
    · cases h
  · cases h

theorem normalizeDateTime_normal (h : normalizeDateTime v = .ok w) : NormalValue .dateTime w := by
  rw [normalizeDateTime] at h
  split at h
  · next dt hdt =>
    split at h
    · cases h
    · cases h
      exact ⟨fmtDate_ne_nil, dt, parseDatetime_whole hdt, rfl⟩
  · cases h

theorem normalizeDate_self (h : NormalValue .date v) : normalizeDate v = .ok v := by
  obtain ⟨-, dt, hwhole, hclock, rfl⟩ := h
  rw [normalizeDate, parseDatetime_fmtDate hwhole]
  exact if_pos hclock

theorem normalizeDateTime_self (h : NormalValue .dateTime v) : normalizeDateTime v = .ok v := by
  obtain ⟨-, dt, hwhole, rfl⟩ := h
  rw [normalizeDateTime, parseDatetime_fmtDate hwhole, strip_fmtDate, length_fmtDate]
  exact if_neg (by decide)

theorem normalizeDfValues_normal (h : normalizeDfValues fieldType values = .ok new) :
    Normal fieldType new := by
  have hnonempty : ∀ v ∈ values.filter (· ≠ []), v ≠ [] := fun v hv ↦
    of_decide_eq_true (List.mem_filter.1 hv).2
  have hmany : ¬ (fieldType.isSingle = true ∧ 1 < (values.filter (· ≠ [])).length) := by
    intro hmany
    unfold normalizeDfValues at h
    rw [if_pos hmany] at h
    cases h
  have hsingle : fieldType.isSingle = true → (values.filter (· ≠ [])).length ≤ 1 := fun htype ↦
    not_lt.1 fun hlt ↦ hmany ⟨htype, hlt⟩
  unfold normalizeDfValues at h
  rw [if_neg hmany] at h
  cases fieldType with
  | date =>
    obtain ⟨hnormal, hlength⟩ := mapM_normal (fun _ _ ↦ normalizeDate_normal) h
    exact ⟨hnormal, fun htype ↦ hlength.trans_le (hsingle htype)⟩
  | dateTime =>
    obtain ⟨hnormal, hlength⟩ := mapM_normal (fun _ _ ↦ normalizeDateTime_normal) h
    exact ⟨hnormal, fun htype ↦ hlength.trans_le (hsingle htype)⟩
  | checkbox =>
    dsimp only at h
    split at h
    · cases h
      exact ⟨fun v hv ↦ List.mem_singleton.1 hv ▸ ⟨by decide, .inl rfl⟩, fun _ ↦ le_rfl⟩
    · split at h
      · next hall =>
        cases h
        exact ⟨fun v hv ↦ ⟨hnonempty v hv, of_decide_eq_true (List.all_eq_true.1 hall v hv)⟩,
          hsingle⟩
      · cases h
  | _ =>
    cases h
    exact ⟨fun v hv ↦ ⟨hnonempty v hv, trivial⟩, hsingle⟩

theorem normalizeDfValues_self (h : Normal fieldType new) :
    normalizeDfValues fieldType new = .ok new := by
  have hfilter : new.filter (· ≠ []) = new :=
    List.filter_eq_self.2 fun v hv ↦ decide_eq_true (h.values v hv).1
  have hmany : ¬ (fieldType.isSingle = true ∧ 1 < new.length) := fun ⟨htype, hlt⟩ ↦
    absurd hlt (not_lt.2 (h.single htype))
  unfold normalizeDfValues
  rw [hfilter, if_neg hmany]
  cases fieldType with
  | date => exact mapM_self fun v hv ↦ normalizeDate_self (h.values v hv)
  | dateTime => exact mapM_self fun v hv ↦ normalizeDateTime_self (h.values v hv)
  | checkbox =>
    dsimp only
    rw [if_neg fun hnil ↦ hnil.1 hnil.2, if_pos]
    exact List.all_eq_true.2 fun v hv ↦ decide_eq_true (h.values v hv).2
  | _ => rfl

end Normal

section Rows

theorem typedRow_normal (objectId : ℕ) (h : NormalValue field.fieldType v) : ∃ row,
    typedRow field objectId v = .ok row ∧ isOf field objectId row = true ∧
      renderRow field.fieldType row = (some v, false) := by
  have hof : ∀ vt vi vd, isOf field objectId ⟨field.id, objectId, vt, vi, vd⟩ = true := by
    intro vt vi vd
    simp [isOf]
  have hmoment : ∀ {dt : Datetime}, dt.1 % 1000000 = 0 → field.fieldType.isMoment = true →
      v = fmtDate dt → ∃ row, typedRow field objectId v = .ok row ∧
        isOf field objectId row = true ∧ renderRow field.fieldType row = (some v, false) := by
    rintro dt hwhole htype rfl
    have hne : field.fieldType ≠ .checkbox := by
      intro heq
      rw [heq] at htype
      cases htype
    exact ⟨⟨field.id, objectId, none, none, some dt⟩,
      by rw [typedRow, if_pos htype, strptime_fmtDate hwhole], hof _ _ _,
      by rw [renderRow, if_neg hne, if_pos htype]⟩
  obtain ⟨-, h⟩ := h
  cases htype : field.fieldType with
  | date =>
    rw [htype] at h
    obtain ⟨dt, hwhole, -, hv⟩ := h
    exact htype ▸ hmoment hwhole (by rw [htype]; rfl) hv
  | dateTime =>
    rw [htype] at h
    obtain ⟨dt, hwhole, hv⟩ := h
    exact htype ▸ hmoment hwhole (by rw [htype]; rfl) hv
  | checkbox =>
    rw [htype] at h
    obtain ⟨n, hn, hread⟩ : ∃ n : ℤ, readInt v = some n ∧ intText n = v := by
      rcases h with rfl | rfl
      · exact ⟨0, by decide, by decide⟩
      · exact ⟨1, by decide, by decide⟩
    refine ⟨⟨field.id, objectId, none, some n, none⟩, ?_, hof _ _ _, ?_⟩
    · rw [typedRow, htype, if_neg (by decide), if_pos rfl, hn]
    · rw [renderRow, if_pos rfl]
      dsimp only
      rw [hread]
  | _ =>
    refine ⟨⟨field.id, objectId, some v, none, none⟩, ?_, hof _ _ _, ?_⟩
    · rw [typedRow, htype]
      rfl
    · rfl

theorem insertDfRows_normal (objectId : ℕ) (h : ∀ v ∈ new, NormalValue field.fieldType v)
    (db : Store) :
    ∃ rows : List ValueRow, insertDfRows field objectId new db =
      ({ db with values := db.values ++ rows }, .ok ()) ∧
        (∀ row ∈ rows, isOf field objectId row = true) ∧
          renderDfRows field.fieldType rows = (new, false) := by
  induction new generalizing db with
  | nil => exact ⟨[], by rw [List.append_nil]; rfl, nofun, rfl⟩
  | cons v new ih =>
    obtain ⟨hv, hnew⟩ := List.forall_mem_cons.1 h
    obtain ⟨row, hrow, hof, hrender⟩ := typedRow_normal objectId hv
    obtain ⟨rows, hinsert, hofs, hrenders⟩ := ih hnew { db with values := db.values ++ [row] }
    obtain ⟨hvalues, hlegacy⟩ := Prod.mk.inj hrenders
    refine ⟨row :: rows, ?_, List.forall_mem_cons.2 ⟨hof, hofs⟩, ?_⟩
    · rw [insertDfRows, hrow]
      dsimp only
      rw [hinsert, List.append_assoc, List.singleton_append]
    · rw [renderDfRows, List.filterMap_cons_some (by rw [hrender]), hvalues, List.any_cons, hrender,
        hlegacy]
      rfl

theorem filter_not_isOf (rows rows' : List ValueRow)
    (h : ∀ row ∈ rows', isOf field objectId row = true) :
    ((rows.filter fun row ↦ !isOf field objectId row) ++ rows').filter (isOf field objectId) =
      rows' := by
  rw [List.filter_append, List.filter_filter, List.filter_eq_self.2 h,
    List.filter_eq_nil_iff.2 fun row _ ↦ by simp, List.nil_append]

theorem filter_others (rows rows' : List ValueRow)
    (h : ∀ row ∈ rows', isOf field objectId row = true) :
    (((rows.filter fun row ↦ !isOf field objectId row) ++ rows').filter
      fun row ↦ !isOf field objectId row) = rows.filter fun row ↦ !isOf field objectId row := by
  have hnone : rows'.filter (fun row ↦ !isOf field objectId row) = [] :=
    List.filter_eq_nil_iff.2 fun row hrow ↦ by rw [h row hrow]; decide
  rw [List.filter_append, List.filter_filter, hnone, List.append_nil]
  simp only [Bool.and_self]

theorem dfValuesDiffer_eq_false {old : List Text} : dfValuesDiffer old new = false ↔ old = new := by
  rw [dfValuesDiffer]
  split
  · next hempty =>
    rw [Bool.and_eq_true, List.isEmpty_iff, List.isEmpty_iff] at hempty
    rw [hempty.1, hempty.2]
    exact iff_of_true rfl rfl
  · rw [decide_eq_false_iff_not, not_not]

/-- A write of normal values over what is stored as it is. -/
theorem set_unchanged (hread : readDfValues field db ticketId = (new, false))
    (hvalues : normalizeDfValues field.fieldType values = .ok new) :
    setTicketDynamicField field now ticketId values userId db = (db, .ok false) := by
  rw [setTicketDynamicField, hvalues]
  dsimp only
  rw [hread]
  dsimp only
  rw [dfValuesDiffer_eq_false.2 rfl]
  rfl

theorem addDynamicFieldUpdate_ok {name value oldValue : Text}
    (hticket : ∃ ticket ∈ db.tickets, ticket.id = ticketId)
    (htype : (db.historyTypes.lookup dynamicFieldUpdate).isSome) : ∃ row,
      addDynamicFieldUpdate now ticketId name value oldValue userId db =
        ({ db with history := db.history ++ [row] }, .ok ()) := by
  obtain ⟨ticket, hmem, hid⟩ := hticket
  obtain ⟨historyType, htype⟩ := Option.isSome_iff_exists.1 htype
  cases hfind : db.tickets.find? (·.id = ticketId) with
  | none => exact absurd (decide_eq_true hid) (List.find?_eq_none.1 hfind ticket hmem)
  | some ticket =>
    simp only [addDynamicFieldUpdate, hfind, htype]
    exact ⟨_, rfl⟩

theorem exists_touchTicket (hticket : ∃ ticket ∈ db.tickets, ticket.id = ticketId) :
    ∃ ticket ∈ (touchTicket now ticketId userId db).tickets, ticket.id = ticketId := by
  obtain ⟨ticket, hmem, hid⟩ := hticket
  refine ⟨_, List.mem_map.2 ⟨ticket, hmem, rfl⟩, ?_⟩
  rw [if_pos hid]
  exact hid

/-- A write of normal values over what is stored otherwise. -/
theorem set_changed (hticket : ∃ ticket ∈ db.tickets, ticket.id = ticketId)
    (htype : (db.historyTypes.lookup dynamicFieldUpdate).isSome)
    (hread : readDfValues field db ticketId ≠ (new, false))
    (hvalues : normalizeDfValues field.fieldType values = .ok new) :
    ∃ db', setTicketDynamicField field now ticketId values userId db = (db', .ok true) ∧
      readDfValues field db' ticketId = (new, false) ∧
        (db'.values.filter fun row ↦ !isOf field ticketId row) =
          db.values.filter fun row ↦ !isOf field ticketId row := by
  obtain ⟨rows, hinsert, hofs, hrender⟩ := insertDfRows_normal ticketId
    (normalizeDfValues_normal hvalues).values { db with
      values := db.values.filter fun row ↦ !isOf field ticketId row }
  set replaced : Store := { db with
    values := (db.values.filter fun row ↦ !isOf field ticketId row) ++ rows } with hreplaced
  have hwritten : ∀ name value oldValue, ∃ row,
      addDynamicFieldUpdate now ticketId name value oldValue userId
        (touchTicket now ticketId userId replaced) =
          ({ touchTicket now ticketId userId replaced with history := db.history ++ [row] },
            .ok ()) := fun name value oldValue ↦
    addDynamicFieldUpdate_ok (exists_touchTicket hticket) htype
  have hdiffer : ∀ {old legacy}, readDfValues field db ticketId = (old, legacy) →
      (!legacy && !dfValuesDiffer old new) = false := by
    intro old legacy hold
    by_contra hkept
    rw [Bool.not_eq_false, Bool.and_eq_true, Bool.not_eq_true', Bool.not_eq_true',
      dfValuesDiffer_eq_false] at hkept
    exact hread (hold.trans (Prod.ext hkept.2 hkept.1))
  cases hold : readDfValues field db ticketId with
  | mk old legacy =>
    cases hparts : truncateHistoryParts field.name (readableHistoryValue field.fieldType new)
        (readableHistoryValue field.fieldType old) with
    | mk name parts =>
      obtain ⟨row, hrow⟩ := hwritten name parts.1 parts.2
      refine ⟨signalChange field now ticketId new
        { touchTicket now ticketId userId replaced with history := db.history ++ [row] },
          ?_, ?_, ?_⟩
      · rw [setTicketDynamicField, hvalues]
        dsimp only
        rw [hold]
        dsimp only
        rw [if_neg (by rw [hdiffer hold]; decide), replaceDfRows, hinsert]
        dsimp only
        rw [hparts]
        dsimp only
        rw [hrow]
      · change renderDfRows field.fieldType (replaced.values.filter (isOf field ticketId)) = _
        rw [hreplaced, filter_not_isOf _ _ hofs, hrender]
      · change (replaced.values.filter fun row ↦ !isOf field ticketId row) = _
        rw [hreplaced, filter_others _ _ hofs]

end Rows

/-- What a write of accepted values leaves. -/
structure Written (field : FieldConfig) (ticketId : ℕ) (values new : List Text)
    (db db' : Store) (changed : Bool) : Prop where
  read : readDfValues field db' ticketId = (new, false)
  others : (db'.values.filter fun row ↦ !isOf field ticketId row) =
    db.values.filter fun row ↦ !isOf field ticketId row
  again : ∀ now userId, setTicketDynamicField field now ticketId values userId db' =
    (db', .ok false)
  readAgain : ∀ now userId, setTicketDynamicField field now ticketId
    (readDfValues field db' ticketId).1 userId db' = (db', .ok false)
  unchanged : changed = false → db' = db ∧ readDfValues field db ticketId = (new, false)

variable (field db ticketId now userId values) in
/-- A write stores the accepted values, once; what is not accepted changes nothing. -/
theorem set_ticket_dynamic_field
    (hticket : ∃ ticket ∈ db.tickets, ticket.id = ticketId)
    (htype : (db.historyTypes.lookup dynamicFieldUpdate).isSome) :
    match normalizeDfValues field.fieldType values with
    | .error e => setTicketDynamicField field now ticketId values userId db = (db, .error e)
    | .ok new => ∃ db' changed,
        setTicketDynamicField field now ticketId values userId db = (db', .ok changed) ∧
          Written field ticketId values new db db' changed := by
  cases hvalues : normalizeDfValues field.fieldType values with
  | error e =>
    dsimp only
    rw [setTicketDynamicField, hvalues]
  | ok new =>
    have hagain := normalizeDfValues_self (normalizeDfValues_normal hvalues)
    have hwritten : ∀ {db' changed}, readDfValues field db' ticketId = (new, false) →
        ((db'.values.filter fun row ↦ !isOf field ticketId row) =
          db.values.filter fun row ↦ !isOf field ticketId row) →
        (changed = false → db' = db ∧ readDfValues field db ticketId = (new, false)) →
          Written field ticketId values new db db' changed := by
      intro db' changed hread hothers hunchanged
      refine ⟨hread, hothers, fun now userId ↦ set_unchanged hread hvalues, fun now userId ↦ ?_,
        hunchanged⟩
      rw [hread]
      exact set_unchanged hread hagain
    dsimp only
    by_cases hsame : readDfValues field db ticketId = (new, false)
    · exact ⟨db, false, set_unchanged hsame hvalues, hwritten hsame rfl fun _ ↦ ⟨rfl, hsame⟩⟩
    · obtain ⟨db', hset, hread, hothers⟩ := set_changed hticket htype hsame hvalues
      exact ⟨db', true, hset, hwritten hread hothers nofun⟩

def writeTime : Datetime := ⟨dayMicros, by decide⟩

def dueDate : FieldConfig := ⟨3, "DueDate".toList, .date⟩

/-- A ticket with a date that is stored as a text, and the history type of an update. -/
def legacyStore : Store where
  values := [⟨3, 7, some "2024-02-29".toList, none, none⟩]
  tickets := [⟨7, 2, none, 4, 3, 1, writeTime, 4⟩]
  historyTypes := [(dynamicFieldUpdate, 28)]
  history := []
  cacheInvalidations := []
  events := []

theorem set_ticket_dynamic_field_legacy : ∃ db' changed,
    setTicketDynamicField dueDate writeTime 7 ["2024-02-29 00:00".toList] 1 legacyStore =
        (db', .ok changed) ∧
      Written dueDate 7 ["2024-02-29 00:00".toList] ["2024-02-29 00:00:00".toList] legacyStore db'
        changed := by
  have hnormal : normalizeDfValues dueDate.fieldType ["2024-02-29 00:00".toList] =
      .ok ["2024-02-29 00:00:00".toList] := by decide +kernel
  have h := set_ticket_dynamic_field dueDate ["2024-02-29 00:00".toList] legacyStore 7 1
    writeTime ⟨_, List.mem_singleton_self _, rfl⟩ rfl
  rwa [hnormal] at h

end Tiqora.Domain.DynamicField
