import Tiqora.Webchat.Hub

namespace Tiqora.Webchat.Hub

open Foundation

variable {config : Config} {hub hub' : ChatHub} {stream : Stream} {item : Item} {items : List Item}
  {s : Subscriber} {e : Event} {now : ℤ} {queue : ℕ}

section Queues

/-- What an offer leaves in the queue. -/
def offered (items : List Item) (item : Item) : List Item :=
  if full (makeRoom items item) then
    if item.isTyping then makeRoom items item else [.close]
  else makeRoom items item ++ [item]

theorem countP_removed_typing (items : List Item) :
    (items.filter fun old ↦ !old.isTyping).countP Item.isTyping = 0 := by
  rw [List.countP_eq_zero]
  intro old hold htyping
  have hnot := (List.mem_filter.1 hold).2
  rw [htyping] at hnot
  cases hnot

theorem mem_makeRoom (item : Item) {old : Item} (hold : old.isTyping = false) :
    old ∈ makeRoom items item ↔ old ∈ items := by
  rw [makeRoom]
  split
  · rw [List.mem_filter, hold]
    exact and_iff_left rfl
  · split
    · exact List.mem_eraseP_of_neg (by rw [hold]; exact Bool.false_ne_true)
    · exact Iff.rfl

theorem makeRoom_sublist (item : Item) : (makeRoom items item).Sublist items := by
  rw [makeRoom]
  split
  · exact List.filter_sublist
  · split
    · exact List.eraseP_sublist
    · exact List.Sublist.refl _

/-- What every queue is: within its size, with a typing item at most. -/
structure Tidy (items : List Item) : Prop where
  typing : items.countP Item.isTyping ≤ 1
  size : items.length ≤ queueSize

theorem Tidy.sublist {items' : List Item} (h : Tidy items) (hsub : items'.Sublist items) :
    Tidy items' := ⟨hsub.countP_le.trans h.typing, hsub.length_le.trans h.size⟩

theorem Tidy.offered (h : Tidy items) (item : Item) : Tidy (offered items item) := by
  have hroom := h.sublist (makeRoom_sublist item)
  rw [Hub.offered]
  split
  · split
    · exact hroom
    · exact ⟨by decide, by decide⟩
  · next hfull =>
    have hlength : (makeRoom items item).length < queueSize := by
      rw [full, decide_eq_true_eq] at hfull
      exact not_le.1 hfull
    refine ⟨?_, by rw [List.length_append]; exact hlength⟩
    rw [List.countP_append, List.countP_singleton]
    cases htyping : item.isTyping with
    | true =>
      rw [makeRoom, if_pos htyping, countP_removed_typing]
      exact le_rfl
    | false => exact hroom.typing

/-- A wake or a close item waits. -/
def Signalled (items : List Item) : Prop := ∃ item ∈ items, item.isSignal = true

theorem not_typing_of_signal (h : item.isSignal = true) : item.isTyping = false := by
  cases item with
  | typing who => cases h
  | _ => rfl

theorem Signalled.offered (h : Signalled items) (item : Item) :
    Signalled (offered items item) := by
  obtain ⟨old, hold, hsignal⟩ := h
  have hroom := (mem_makeRoom item (not_typing_of_signal hsignal)).2 hold
  rw [Hub.offered]
  split
  · split
    · exact ⟨old, hroom, hsignal⟩
    · exact ⟨.close, List.mem_singleton_self _, rfl⟩
  · exact ⟨old, List.mem_append_left _ hroom, hsignal⟩

theorem signalled_wake (items : List Item) : Signalled (offered items .wake) := by
  rw [offered]
  split
  · exact ⟨.close, List.mem_singleton_self _, rfl⟩
  · exact ⟨.wake, List.mem_append_right _ (List.mem_singleton_self _), rfl⟩

end Queues

namespace ChatHub

section Operations

theorem remove_streams : (hub.remove stream).streams = hub.streams.erase stream := by
  rw [remove]
  split
  · rfl
  · next hmem => exact (List.erase_of_not_mem hmem).symm

@[simp]
theorem remove_queues : (hub.remove stream).queues = hub.queues := by
  rw [remove]
  split <;> rfl

@[simp]
theorem remove_nextQueue : (hub.remove stream).nextQueue = hub.nextQueue := by
  rw [remove]
  split <;> rfl

@[simp]
theorem remove_waiting : (hub.remove stream).waiting = hub.waiting := by
  rw [remove]
  split <;> rfl

theorem closeStream_streams : (hub.closeStream stream).streams = hub.streams.erase stream :=
  remove_streams

@[simp]
theorem closeStream_queues : (hub.closeStream stream).queues =
    Function.update hub.queues stream.queue [.close] := by
  rw [closeStream, forceClose, setQueue, remove_queues]

@[simp]
theorem closeStream_nextQueue : (hub.closeStream stream).nextQueue = hub.nextQueue :=
  remove_nextQueue

@[simp]
theorem closeStream_waiting : (hub.closeStream stream).waiting = hub.waiting := remove_waiting

variable (hub stream item) in
/-- An offer closes the stream or only writes its queue. -/
theorem offer_cases : hub.offer stream item = hub.closeStream stream ∨
    ∃ items, hub.offer stream item = hub.setQueue stream.queue items := by
  unfold offer
  dsimp only
  split
  · split
    · exact .inr ⟨_, rfl⟩
    · exact .inl rfl
  · exact .inr ⟨_, rfl⟩

theorem offer_queues : (hub.offer stream item).queues =
    Function.update hub.queues stream.queue (offered (hub.queues stream.queue) item) := by
  unfold offer offered
  dsimp only
  split
  · split
    · rfl
    · rw [forceClose, setQueue, remove_queues]
  · rfl

@[simp]
theorem offer_nextQueue : (hub.offer stream item).nextQueue = hub.nextQueue := by
  rcases offer_cases hub stream item with h | ⟨items, h⟩
  · rw [h, closeStream_nextQueue]
  · rw [h]
    rfl

@[simp]
theorem offer_waiting : (hub.offer stream item).waiting = hub.waiting := by
  rcases offer_cases hub stream item with h | ⟨items, h⟩
  · rw [h, closeStream_waiting]
  · rw [h]
    rfl

end Operations

section Kept

variable {I : ChatHub → Prop}

/-- What the operations on registered streams keep. -/
structure Kept (I : ChatHub → Prop) : Prop where
  remove : ∀ hub stream, I hub → I (hub.remove stream)
  close : ∀ hub stream, I hub → I (hub.closeStream stream)
  offer : ∀ hub stream item, I hub → I (hub.offer stream item)
  flags : ∀ hub reader closed, I hub → I { hub with reader, closed }

theorem Kept.unsubscribe (h : Kept I) (sessionId : Text) (queue : ℕ) (hI : I hub) :
    I (hub.unsubscribe sessionId queue) :=
  List.foldlRecOn _ _ hI fun hub hI stream _ ↦ h.remove hub stream hI

theorem Kept.route (h : Kept I) (sessionId : Text) (item : Item) (hI : I hub) :
    I (hub.route sessionId item) :=
  List.foldlRecOn _ _ hI fun hub hI stream _ ↦ h.offer hub stream item hI

theorem Kept.closeAll (h : Kept I) (streams : List Stream) (hI : I hub) :
    I (streams.foldl closeStream hub) :=
  List.foldlRecOn _ _ hI fun hub hI stream _ ↦ h.close hub stream hI

theorem Kept.evict (h : Kept I) (victim : Option Stream) (hI : I hub) : I (hub.evict victim) := by
  cases victim with
  | none => exact hI
  | some stream => exact h.close hub stream hI

/-- What a call of `subscribe` does. -/
theorem next_subscribe (h : next config hub (.subscribe s now) = some hub') :
    (∃ r, hub.check config s = .error r) ∧ hub' = hub ∨
      ∃ victim, hub.check config s = .ok victim ∧
        (hub' = (hub.evict victim).register config s now ∨
          hub' = { hub.evict victim with waiting := (hub.evict victim).waiting ++ [s] }) := by
  simp only [next, subscribe] at h
  cases hcheck : hub.check config s with
  | error r =>
    rw [hcheck] at h
    cases h
    exact .inl ⟨⟨r, rfl⟩, rfl⟩
  | ok victim =>
    refine .inr ⟨victim, rfl, ?_⟩
    rw [hcheck] at h
    dsimp only at h
    by_cases hreader : (hub.evict victim).reader = true
    · rw [if_pos hreader] at h
      cases h
      exact .inl rfl
    · rw [if_neg hreader] at h
      cases h
      exact .inr rfl

/-- What every event keeps, but for the reads. -/
structure KeptAll (config : Config) (I : ChatHub → Prop) : Prop extends Kept I where
  register : ∀ hub s now, I hub → I (hub.register config s now)
  wait : ∀ hub waiting, I hub → I { hub with waiting }

theorem KeptAll.next (h : KeptAll config I) (hI : I hub)
    (hread : ∀ queue item items, e = .read queue → hub.queues queue = item :: items →
      I (hub.setQueue queue items))
    (hnext : next config hub e = some hub') : I hub' := by
  cases e with
  | subscribe s now =>
    rcases next_subscribe hnext with ⟨-, rfl⟩ | ⟨victim, -, rfl | rfl⟩
    · exact hI
    · exact h.register _ s now (h.evict victim hI)
    · exact h.wait _ _ (h.evict victim hI)
  | resume now =>
    rw [Hub.next] at hnext
    split at hnext
    · cases hnext
    · next s waiting _ =>
      cases hnext
      exact h.register _ s now (h.flags _ true hub.closed (h.wait hub waiting hI))
  | cancel i =>
    rw [Hub.next] at hnext
    split at hnext
    · cases hnext
      exact h.wait hub _ hI
    · cases hnext
  | unsubscribe sessionId queue =>
    cases hnext
    exact h.unsubscribe sessionId queue hI
  | route sessionId item =>
    cases hnext
    exact h.route sessionId item hI
  | expire now =>
    cases hnext
    exact h.closeAll _ hI
  | read queue =>
    rw [Hub.next] at hnext
    split at hnext
    · cases hnext
    · next item items hqueue =>
      cases hnext
      exact hread queue item items rfl hqueue
  | readerEnds =>
    cases hnext
    exact h.flags hub false hub.closed hI
  | close =>
    cases hnext
    exact h.flags hub false true hI
  | closeStreams =>
    rw [Hub.next] at hnext
    split at hnext
    · cases hnext
      exact h.closeAll _ (h.flags hub false hub.closed hI)
    · cases hnext

end Kept

section Counters

/-- How many registered streams are of an address. -/
def ipStreams (hub : ChatHub) (ip : Text) : ℕ := hub.streams.countP (·.ipHash = some ip)

/-- The counters are the numbers of registered streams. -/
structure Counted (hub : ChatHub) : Prop where
  total : hub.total = hub.streams.length
  ip : ∀ ip, (hub.ipCounts ip).getD 0 = hub.ipStreams ip

theorem Counted.remove (h : hub.Counted) (stream : Stream) : (hub.remove stream).Counted := by
  unfold ChatHub.remove
  split
  · next hmem =>
    have hperm := List.perm_cons_erase hmem
    refine ⟨?_, fun ip ↦ ?_⟩
    · have hlength := hperm.length_eq
      rw [List.length_cons] at hlength
      change hub.total - 1 = ((hub.streams.erase stream).length : ℤ)
      rw [h.total, hlength]
      omega
    · have hcount := hperm.countP_eq (·.ipHash = some ip)
      have hold := h.ip ip
      rw [ipStreams] at hold
      rw [List.countP_cons] at hcount
      change (Option.getD _ 0 : ℤ) = ((hub.streams.erase stream).countP (·.ipHash = some ip) : ℕ)
      cases hip : stream.ipHash with
      | none =>
        rw [hip] at hcount
        simp only [reduceCtorEq, decide_false, Bool.false_eq_true, if_false] at hcount ⊢
        omega
      | some other =>
        rw [hip] at hcount
        dsimp only
        by_cases heq : ip = other
        · subst heq
          rw [Function.update_self]
          simp only [decide_true, if_true] at hcount
          have hsome : (hub.ipCounts ip).getD 1 = (hub.ipCounts ip).getD 0 := by
            cases hcounts : hub.ipCounts ip with
            | none =>
              rw [hcounts, Option.getD_none] at hold
              omega
            | some n => rfl
          rw [hsome]
          split
          · rw [Option.getD_some]
            omega
          · rw [Option.getD_none]
            omega
        · rw [Function.update_of_ne heq]
          have hne : ¬ some other = some ip := fun h ↦ heq (Option.some.inj h).symm
          simp only [hne, decide_false, Bool.false_eq_true, if_false] at hcount
          omega
  · exact h

theorem Counted.register (h : hub.Counted) (s : Subscriber) (now : ℤ) :
    (hub.register config s now).Counted := by
  refine ⟨?_, fun ip ↦ ?_⟩
  · change hub.total + 1 = ((hub.streams ++ [_]).length : ℤ)
    rw [List.length_append, List.length_singleton, h.total]
    rfl
  · have hold := h.ip ip
    rw [ipStreams] at hold ⊢
    simp only [ChatHub.register, List.countP_append, List.countP_singleton]
    cases hip : s.ipHash with
    | none =>
      simp only [reduceCtorEq, decide_false, Bool.false_eq_true, if_false]
      exact hold
    | some other =>
      dsimp only
      by_cases heq : ip = other
      · subst heq
        rw [Function.update_self, Option.getD_some]
        simp only [decide_true, if_true]
        omega
      · have hne : ¬ some other = some ip := fun h ↦ heq (Option.some.inj h).symm
        rw [Function.update_of_ne heq]
        simp only [hne, decide_false, Bool.false_eq_true, if_false]
        exact hold

theorem Counted.keptAll : KeptAll config Counted where
  remove hub stream h := h.remove stream
  close hub stream h := ⟨(h.remove stream).total, (h.remove stream).ip⟩
  offer hub stream item h := by
    rcases offer_cases hub stream item with heq | ⟨items, heq⟩
    · rw [heq]
      exact ⟨(h.remove stream).total, (h.remove stream).ip⟩
    · rw [heq]
      exact ⟨h.total, h.ip⟩
  flags hub reader closed h := ⟨h.total, h.ip⟩
  register hub s now h := h.register s now
  wait hub waiting h := ⟨h.total, h.ip⟩

end Counters

section Items

/-- A property of all queues that offers keep. -/
theorem keptAll_queues {P : List Item → Prop} (hnew : P []) (hclose : P [.close])
    (hoffer : ∀ items item, P items → P (offered items item)) :
    KeptAll config fun hub ↦ ∀ queue, P (hub.queues queue) := by
  have hupdate : ∀ {queues : ℕ → List Item} (queue : ℕ) {items : List Item},
      (∀ queue, P (queues queue)) → P items →
        ∀ queue', P (Function.update queues queue items queue') := by
    intro queues queue items h hitems queue'
    by_cases heq : queue' = queue
    · subst heq
      rwa [Function.update_self]
    · rw [Function.update_of_ne heq]
      exact h queue'
  refine ⟨⟨?_, ?_, ?_, fun _ _ _ h ↦ h⟩, ?_, fun _ _ h ↦ h⟩
  · intro hub stream h
    rwa [remove_queues]
  · intro hub stream h
    rw [closeStream_queues]
    exact hupdate _ h hclose
  · intro hub stream item h
    rw [offer_queues]
    exact hupdate _ h (hoffer _ item (h _))
  · intro hub s now h
    exact hupdate _ h hnew

/-- A signal in the queue of a stream that was registered. -/
def Waits (queue : ℕ) (hub : ChatHub) : Prop :=
  queue < hub.nextQueue ∧ Signalled (hub.queues queue)

theorem Waits.keptAll (config : Config) (queue : ℕ) : KeptAll config (Waits queue) := by
  have hupdate : ∀ {queues : ℕ → List Item} {other : ℕ} {items : List Item},
      Signalled (queues queue) → (other = queue → Signalled items) →
        Signalled (Function.update queues other items queue) := by
    intro queues other items h hitems
    by_cases heq : queue = other
    · subst heq
      rw [Function.update_self]
      exact hitems rfl
    · rwa [Function.update_of_ne heq]
  refine ⟨⟨?_, ?_, ?_, fun _ _ _ h ↦ h⟩, ?_, fun _ _ h ↦ h⟩
  · rintro hub stream ⟨hlt, hsignal⟩
    exact ⟨by rwa [remove_nextQueue], by rwa [remove_queues]⟩
  · rintro hub stream ⟨hlt, hsignal⟩
    refine ⟨by rwa [closeStream_nextQueue], ?_⟩
    rw [closeStream_queues]
    exact hupdate hsignal fun _ ↦ ⟨.close, List.mem_singleton_self _, rfl⟩
  · rintro hub stream item ⟨hlt, hsignal⟩
    refine ⟨by rwa [offer_nextQueue], ?_⟩
    rw [offer_queues]
    refine hupdate hsignal ?_
    rintro rfl
    exact hsignal.offered item
  · rintro hub s now ⟨hlt, hsignal⟩
    refine ⟨Nat.lt_succ_of_lt hlt, hupdate hsignal fun heq ↦ ?_⟩
    exact absurd heq (Nat.ne_of_gt hlt)

/-- The queues of registered streams are there. -/
def Made (hub : ChatHub) : Prop := ∀ stream ∈ hub.streams, stream.queue < hub.nextQueue

theorem Made.keptAll : KeptAll config Made := by
  have herase : ∀ {hub : ChatHub} {stream : Stream}, hub.Made →
      ∀ stream' ∈ hub.streams.erase stream, stream'.queue < hub.nextQueue :=
    fun h stream' hmem ↦ h stream' (List.mem_of_mem_erase hmem)
  refine ⟨⟨?_, ?_, ?_, fun _ _ _ h ↦ h⟩, ?_, fun _ _ h ↦ h⟩
  · intro hub stream h
    rw [Made, remove_streams, remove_nextQueue]
    exact herase h
  · intro hub stream h
    rw [Made, closeStream_streams, closeStream_nextQueue]
    exact herase h
  · intro hub stream item h
    rcases offer_cases hub stream item with heq | ⟨items, heq⟩
    · rw [heq, Made, closeStream_streams, closeStream_nextQueue]
      exact herase h
    · rw [heq]
      exact h
  · intro hub s now h stream hmem
    rcases List.mem_append.1 hmem with hold | hnew
    · exact Nat.lt_succ_of_lt (h stream hold)
    · rw [List.mem_singleton.1 hnew]
      exact Nat.lt_succ_self _

/-- Whether a read takes a wake or a close item out of a queue. -/
def Takes (queue : ℕ) (hub : ChatHub) (e : Event) : Prop :=
  e = .read queue ∧ ∃ item items, hub.queues queue = item :: items ∧ item.isSignal = true

theorem Waits.next (h : Waits queue hub) (htakes : ¬ Takes queue hub e)
    (hnext : next config hub e = some hub') : Waits queue hub' := by
  refine (Waits.keptAll config queue).next h (fun other item items heq hqueue ↦ ⟨h.1, ?_⟩) hnext
  change Signalled (Function.update hub.queues other items queue)
  by_cases hsame : queue = other
  · subst hsame
    obtain ⟨signal, hmem, hsignal⟩ := h.2
    rw [Function.update_self]
    rw [hqueue] at hmem
    rcases List.mem_cons.1 hmem with rfl | hmem
    · exact absurd ⟨heq, _, items, hqueue, hsignal⟩ htakes
    · exact ⟨signal, hmem, hsignal⟩
  · rw [Function.update_of_ne hsame]
    exact h.2

/-- An offer of a wake reaches every stream of the session. -/
theorem waits_route (hmade : hub.Made) {sessionId : Text}
    (hmem : stream ∈ hub.ofSession sessionId) :
    Waits stream.queue (hub.route sessionId .wake) := by
  have hlt := hmade stream (List.mem_filter.1 hmem).1
  obtain ⟨before, after, hsplit⟩ := List.append_of_mem hmem
  rw [route, hsplit, List.foldl_append, List.foldl_cons]
  set hub₁ := before.foldl (fun hub stream ↦ hub.offer stream .wake) hub with hhub₁
  have hnext : hub₁.nextQueue = hub.nextQueue :=
    List.foldlRecOn before _ (motive := fun hub₁ : ChatHub ↦ hub₁.nextQueue = hub.nextQueue) rfl
      fun hub h stream _ ↦ offer_nextQueue.trans h
  have hoffered : Waits stream.queue (hub₁.offer stream .wake) := by
    refine ⟨by rwa [offer_nextQueue, hnext], ?_⟩
    rw [offer_queues, Function.update_self]
    exact signalled_wake _
  exact List.foldlRecOn after _ hoffered fun hub h stream' _ ↦
    (Waits.keptAll ⟨0, 0, 0, 0⟩ stream.queue).offer hub stream' .wake h

end Items

section Caps

variable {l l' : List Subscriber}

def subscribers (hub : ChatHub) : List Subscriber := hub.streams.map Stream.toSubscriber

/-- The registered streams, and those that the waiting calls are going to register. -/
def claimed (hub : ChatHub) : List Subscriber := hub.subscribers ++ hub.waiting

/-- The caps, of streams. -/
structure Within (config : Config) (l : List Subscriber) : Prop where
  total : l.length ≤ config.maxStreams
  ip : ∀ ip, l.countP (·.ipHash = some ip) ≤ config.maxPerIp
  session : ∀ sessionId, l.countP (·.sessionId = sessionId) ≤ config.maxPerSession

theorem Within.sublist (h : Within config l) (hsub : l'.Sublist l) : Within config l' :=
  ⟨hsub.length_le.trans h.total, fun ip ↦ hsub.countP_le.trans (h.ip ip),
    fun sessionId ↦ hsub.countP_le.trans (h.session sessionId)⟩

theorem Within.perm (h : Within config l) (hperm : l'.Perm l) : Within config l' :=
  ⟨hperm.length_eq.trans_le h.total, fun ip ↦ (hperm.countP_eq _).trans_le (h.ip ip),
    fun sessionId ↦ (hperm.countP_eq _).trans_le (h.session sessionId)⟩

/-- The caps, of registered streams. -/
def Capped (config : Config) (hub : ChatHub) : Prop := Within config hub.subscribers

/-- A call that is not refused finds the caps with room, also for the calls that wait. -/
def Room (config : Config) (hub : ChatHub) : Event → Prop
  | .subscribe s _ => ∀ victim, hub.check config s = .ok victim →
    Within config ((hub.evict victim).claimed ++ [s])
  | _ => True

theorem subscribers_erase : ((hub.streams.erase stream).map Stream.toSubscriber).Sublist
    hub.subscribers := List.erase_sublist.map _

theorem kept_claimed (l : List Subscriber) : Kept fun hub ↦ hub.claimed.Sublist l := by
  have herase : ∀ {hub : ChatHub} {stream : Stream}, hub.claimed.Sublist l →
      (((hub.streams.erase stream).map Stream.toSubscriber) ++ hub.waiting).Sublist l :=
    fun h ↦ (subscribers_erase.append_right _).trans h
  refine ⟨?_, ?_, ?_, fun _ _ _ h ↦ h⟩
  · intro hub stream h
    rw [claimed, subscribers, remove_streams, remove_waiting]
    exact herase h
  · intro hub stream h
    rw [claimed, subscribers, closeStream_streams, closeStream_waiting]
    exact herase h
  · intro hub stream item h
    rcases offer_cases hub stream item with heq | ⟨items, heq⟩
    · rw [heq, claimed, subscribers, closeStream_streams, closeStream_waiting]
      exact herase h
    · rw [heq]
      exact h

theorem evict_waiting (victim : Option Stream) : (hub.evict victim).waiting = hub.waiting := by
  cases victim with
  | none => rfl
  | some stream => exact closeStream_waiting

theorem register_subscribers (hub : ChatHub) (s : Subscriber) (now : ℤ) :
    (hub.register config s now).subscribers = hub.subscribers ++ [s] := by
  rw [subscribers, ChatHub.register, List.map_append]
  rfl

/-- Whether the call registers a stream or waits, one more is claimed. -/
theorem claimed_subscribe {victim : Option Stream}
    (h : hub' = (hub.evict victim).register config s now ∨
      hub' = { hub.evict victim with waiting := (hub.evict victim).waiting ++ [s] }) :
    hub'.claimed.Perm ((hub.evict victim).claimed ++ [s]) := by
  rcases h with rfl | rfl
  · rw [claimed, register_subscribers, claimed, List.append_assoc, List.append_assoc]
    exact List.perm_append_comm.append_left _
  · rw [claimed, claimed, ← List.append_assoc]
    exact List.Perm.refl _

/-- A call that goes on claims what it claimed. -/
theorem claimed_resume (h : next config hub (.resume now) = some hub') :
    hub'.claimed = hub.claimed ∧ hub'.waiting = hub.waiting.tail := by
  rw [next] at h
  split at h
  · cases h
  · next s waiting hwaiting =>
    cases h
    refine ⟨?_, by rw [hwaiting]; rfl⟩
    rw [claimed, register_subscribers, claimed, hwaiting, List.append_assoc]
    rfl

/-- What one event claims. -/
theorem Within.next (h : Within config hub.claimed) (hroom : Room config hub e)
    (hnext : next config hub e = some hub') : Within config hub'.claimed := by
  have hkept := kept_claimed hub.claimed
  have hself : hub.claimed.Sublist hub.claimed := List.Sublist.refl _
  cases e with
  | subscribe s now =>
    rcases next_subscribe hnext with ⟨-, rfl⟩ | ⟨victim, hcheck, hcases⟩
    · exact h
    · exact (hroom victim hcheck).perm (claimed_subscribe hcases)
  | resume now => rwa [(claimed_resume hnext).1]
  | cancel i =>
    rw [Hub.next] at hnext
    split at hnext
    · cases hnext
      exact h.sublist ((List.eraseIdx_sublist _ _).append_left _)
    · cases hnext
  | unsubscribe sessionId queue =>
    cases hnext
    exact h.sublist (hkept.unsubscribe sessionId queue hself)
  | route sessionId item =>
    cases hnext
    exact h.sublist (hkept.route sessionId item hself)
  | expire now =>
    cases hnext
    exact h.sublist (hkept.closeAll _ hself)
  | read queue =>
    rw [Hub.next] at hnext
    split at hnext
    · cases hnext
    · cases hnext
      exact h
  | readerEnds =>
    cases hnext
    exact h
  | close =>
    cases hnext
    exact h
  | closeStreams =>
    rw [Hub.next] at hnext
    split at hnext
    · cases hnext
      exact h.sublist (hkept.closeAll hub.streams (hkept.flags hub false hub.closed hself))
    · cases hnext

/-- The waiting calls can all go on. -/
theorem exists_resumed (config : Config) (hub : ChatHub) : ∃ events hub',
    (machine config).Run hub events hub' ∧ hub'.subscribers = hub.claimed := by
  induction hwaiting : hub.waiting generalizing hub with
  | nil => exact ⟨[], hub, .nil hub, by rw [claimed, hwaiting, List.append_nil]⟩
  | cons s waiting ih =>
    obtain ⟨hub₁, hnext⟩ : ∃ hub₁, next config hub (.resume 0) = some hub₁ := by
      rw [next, hwaiting]
      exact ⟨_, rfl⟩
    obtain ⟨hclaimed, hrest⟩ := claimed_resume hnext
    obtain ⟨events, hub', hrun, hsubscribers⟩ := ih hub₁ (by rw [hrest, hwaiting]; rfl)
    exact ⟨.resume 0 :: events, hub', .cons hnext hrun, hsubscribers.trans hclaimed⟩

variable {evicted : Option Stream}

theorem victim_ok {existing : List Stream} (h : victim config existing = .ok evicted) :
    (evicted = none ∧ existing.length < config.maxPerSession) ∨
      ∃ oldest ∈ existing, evicted = some oldest := by
  unfold victim at h
  split at h
  · split at h
    · cases h
    · cases h
      exact .inr ⟨_, List.mem_cons_self, rfl⟩
  · next hlt =>
    cases h
    exact .inl ⟨rfl, not_le.1 hlt⟩

theorem check_ok (h : hub.check config s = .ok evicted) :
    victim config (hub.ofSession s.sessionId) = .ok evicted ∧
      hub.total - (if evicted.isSome then 1 else 0) < config.maxStreams ∧
      ∀ ip, s.ipHash = some ip → (hub.ipCounts ip).getD 0 -
        (if evicted.any (·.ipHash = some ip) then 1 else 0) < config.maxPerIp := by
  unfold check at h
  by_cases hclosed : hub.closed = true
  · rw [if_pos hclosed] at h
    cases h
  · rw [if_neg hclosed] at h
    cases hvictim : victim config (hub.ofSession s.sessionId) with
    | error r =>
      rw [hvictim] at h
      cases h
    | ok found =>
      rw [hvictim] at h
      dsimp only at h
      by_cases htotal : (config.maxStreams : ℤ) ≤ hub.total - if found.isSome then 1 else 0
      · rw [if_pos htotal] at h
        cases h
      · rw [if_neg htotal] at h
        cases hip : s.ipHash with
        | none =>
          rw [hip] at h
          cases h
          exact ⟨rfl, not_le.1 htotal, nofun⟩
        | some ip =>
          rw [hip] at h
          dsimp only at h
          by_cases hcount : (config.maxPerIp : ℤ) ≤ (hub.ipCounts ip).getD 0 -
              if found.any (·.ipHash = some ip) then 1 else 0
          · rw [if_pos hcount] at h
            cases h
          · rw [if_neg hcount] at h
            cases h
            refine ⟨rfl, not_le.1 htotal, fun ip' heq ↦ ?_⟩
            cases heq
            exact not_le.1 hcount

theorem countP_evict (hmem : ∀ stream, evicted = some stream → stream ∈ hub.streams)
    (p : Subscriber → Bool) : hub.subscribers.countP p =
      (hub.evict evicted).subscribers.countP p +
        if evicted.any fun stream ↦ p stream.toSubscriber then 1 else 0 := by
  cases evicted with
  | none => rfl
  | some stream =>
    have hperm := (List.perm_cons_erase (hmem stream rfl)).map Stream.toSubscriber
    rw [subscribers, hperm.countP_eq p, List.map_cons, List.countP_cons, subscribers]
    change _ = ((hub.closeStream stream).streams.map Stream.toSubscriber).countP p + _
    rw [closeStream_streams]
    rfl

/-- Without waiting calls the tests see all that the caps are about. -/
theorem room_of_none_waiting (hwithin : Within config hub.claimed) (hcounted : hub.Counted)
    (hwaiting : hub.waiting = []) (e : Event) : Room config hub e := by
  cases e with
  | subscribe s now =>
    intro evicted hcheck
    obtain ⟨hvictim, htotal, hip⟩ := check_ok hcheck
    rw [claimed, hwaiting, List.append_nil] at hwithin
    have hmem : ∀ stream, evicted = some stream →
        stream ∈ hub.streams ∧ stream.sessionId = s.sessionId := by
      rintro stream rfl
      rcases victim_ok hvictim with ⟨hnone, -⟩ | ⟨oldest, hold, heq⟩
      · cases hnone
      · cases heq
        obtain ⟨hstream, hsession⟩ := List.mem_filter.1 hold
        exact ⟨hstream, of_decide_eq_true hsession⟩
    have hcount := countP_evict fun stream heq ↦ (hmem stream heq).1
    rw [claimed, evict_waiting, hwaiting, List.append_nil]
    refine ⟨?_, fun ip ↦ ?_, fun sessionId ↦ ?_⟩
    · have hlength := hcount fun _ ↦ true
      have hany : (evicted.any fun _ ↦ true) = evicted.isSome := by cases evicted <;> rfl
      rw [hany] at hlength
      simp only [List.countP_true] at hlength
      rw [hcounted.total, ← List.length_map Stream.toSubscriber, ← subscribers, hlength] at htotal
      rw [List.length_append, List.length_singleton]
      split at htotal <;> omega
    · have hcount := hcount (·.ipHash = some ip)
      have hold := hwithin.ip ip
      rw [List.countP_append, List.countP_singleton]
      by_cases heq : s.ipHash = some ip
      · have hlt := hip ip heq
        rw [hcounted.ip, ipStreams] at hlt
        have hmap : hub.subscribers.countP (·.ipHash = some ip) =
            hub.streams.countP (·.ipHash = some ip) := List.countP_map
        rw [heq, decide_eq_true rfl, if_pos rfl]
        rw [← hmap, hcount] at hlt
        split at hlt <;> omega
      · rw [decide_eq_false heq, if_neg Bool.false_ne_true]
        omega
    · have hcount := hcount (·.sessionId = sessionId)
      have hold := hwithin.session sessionId
      rw [List.countP_append, List.countP_singleton]
      by_cases heq : s.sessionId = sessionId
      · rw [decide_eq_true heq, if_pos rfl]
        rcases victim_ok hvictim with ⟨rfl, hlt⟩ | ⟨oldest, -, rfl⟩
        · have hmap : hub.subscribers.countP (·.sessionId = sessionId) =
              hub.streams.countP (·.sessionId = sessionId) := List.countP_map
          rw [ofSession, ← List.countP_eq_length_filter, heq, ← hmap] at hlt
          exact hlt
        · have hsession := (hmem oldest rfl).2.trans heq
          rw [Option.any_some, decide_eq_true hsession, if_pos rfl] at hcount
          omega
      · rw [decide_eq_false heq, if_neg Bool.false_ne_true]
        omega
  | _ => trivial

end Caps

theorem made_start : Made start := fun _ h ↦ absurd h List.not_mem_nil

theorem counted_start : Counted start := ⟨rfl, fun _ ↦ rfl⟩

theorem within_start : Within config start.claimed :=
  ⟨Nat.zero_le _, fun _ ↦ Nat.zero_le _, fun _ ↦ Nat.zero_le _⟩

end ChatHub

open ChatHub

theorem reachable_counted (h : (machine config).Reachable hub) : hub.Counted := by
  refine h.invariant ?_ fun hub e hub' hcounted hnext ↦ ?_
  · rintro _ rfl
    exact counted_start
  · exact Counted.keptAll.next hcounted (fun _ _ _ _ _ ↦ ⟨hcounted.total, hcounted.ip⟩) hnext

theorem reachable_made (h : (machine config).Reachable hub) : hub.Made := by
  refine h.invariant ?_ fun hub e hub' hmade hnext ↦ ?_
  · rintro _ rfl
    exact made_start
  · exact Made.keptAll.next hmade (fun _ _ _ _ _ ↦ hmade) hnext

theorem reachable_tidy (h : (machine config).Reachable hub) (queue : ℕ) :
    Tidy (hub.queues queue) := by
  have hkept : KeptAll config fun hub ↦ ∀ queue, Tidy (hub.queues queue) :=
    keptAll_queues ⟨by decide, by decide⟩ ⟨by decide, by decide⟩ fun _ item h ↦ h.offered item
  refine h.invariant (I := fun hub : ChatHub ↦ ∀ queue, Tidy (hub.queues queue)) ?_
    (fun hub e hub' htidy hnext ↦ hkept.next htidy ?_ hnext) queue
  · rintro _ rfl queue
    exact ⟨Nat.zero_le _, Nat.zero_le _⟩
  · intro other item items _ hqueue queue
    change Tidy (Function.update hub.queues other items queue)
    by_cases heq : queue = other
    · subst heq
      have htail := htidy queue
      rw [hqueue] at htail
      rw [Function.update_self]
      exact htail.sublist (List.sublist_cons_self _ _)
    · rw [Function.update_of_ne heq]
      exact htidy queue

theorem reachable_within (h : ((machine config).restrict (Room config)).Reachable hub) :
    Within config hub.claimed := by
  refine h.invariant (I := fun hub ↦ Within config hub.claimed) ?_ ?_
  · rintro _ rfl
    exact within_start
  · rintro hub e hub' hwithin ⟨hroom, hnext⟩
    exact hwithin.next hroom hnext

/-- From an offer of a wake on, a signal waits in the queue of every stream of the session until
one is taken. -/
def KeepsWakes (config : Config) (hub : ChatHub) : Prop :=
  ∀ sessionId, ∀ stream ∈ hub.ofSession sessionId, ∀ events hub',
    ((machine config).restrict fun hub e ↦ ¬ Takes stream.queue hub e).Run
      (hub.route sessionId .wake) events hub' → Signalled (hub'.queues stream.queue)

theorem reachable_keepsWakes (h : (machine config).Reachable hub) : KeepsWakes config hub := by
  intro sessionId stream hmem events hub' hrun
  have hwaits : Waits stream.queue hub' := by
    refine hrun.invariant ?_ (waits_route (reachable_made h) hmem)
    rintro hub e hub' hwaits ⟨htakes, hnext⟩
    exact hwaits.next htakes hnext
  exact hwaits.2

/-- The counters, the queues and the wakes are right in every run. The caps are kept in the runs
whose calls of `subscribe` find room for the waiting calls too, as they do where none waits, and
where one does not, the caps are exceeded when the waiting calls go on. -/
theorem chat_hub (config : Config) :
    (∀ hub, (machine config).Reachable hub →
      hub.Counted ∧ (∀ queue, Tidy (hub.queues queue)) ∧ KeepsWakes config hub) ∧
    (∀ hub, ((machine config).restrict (Room config)).Reachable hub →
      hub.Capped config ∧ (hub.waiting = [] → ∀ e, Room config hub e)) ∧
    ∀ hub e hub', next config hub e = some hub' → ¬ Room config hub e →
      ∃ events hub'', (machine config).Run hub' events hub'' ∧ ¬ hub''.Capped config := by
  refine ⟨fun hub h ↦ ⟨reachable_counted h, reachable_tidy h, reachable_keepsWakes h⟩,
    fun hub h ↦ ?_, fun hub e hub' hnext hroom ↦ ?_⟩
  · have hwithin := reachable_within h
    obtain ⟨hub₀, events, hstart, hrun⟩ := h
    have hcounted := reachable_counted ⟨hub₀, events, hstart, hrun.of_restrict⟩
    exact ⟨hwithin.sublist (List.sublist_append_left _ _),
      room_of_none_waiting hwithin hcounted⟩
  · cases e with
    | subscribe s now =>
      rw [Room] at hroom
      push Not at hroom
      obtain ⟨evicted, hcheck, hexceeded⟩ := hroom
      rcases next_subscribe hnext with ⟨⟨r, hrefused⟩, -⟩ | ⟨evicted', hcheck', hcases⟩
      · rw [hcheck] at hrefused
        cases hrefused
      · rw [hcheck] at hcheck'
        cases hcheck'
        obtain ⟨events, hub'', hrun, hsubscribers⟩ := exists_resumed config hub'
        refine ⟨events, hub'', hrun, fun hcapped ↦ hexceeded ?_⟩
        rw [Capped, hsubscribers] at hcapped
        exact hcapped.perm (claimed_subscribe hcases).symm
    | _ => exact absurd trivial hroom

def defaultConfig : Config := ⟨10, 3, 6, 1800⟩

def visitor : Subscriber := ⟨"a".toList, none⟩

theorem chat_hub_visitor : ∃ hub : ChatHub, hub.subscribers = [visitor] ∧ hub.Counted ∧
    hub.Capped defaultConfig := by
  have hroom : Room defaultConfig start (.subscribe visitor 0) :=
    room_of_none_waiting within_start counted_start rfl _
  have hrun : ((machine defaultConfig).restrict (Room defaultConfig)).Run start
      [.subscribe visitor 0, .resume 0] _ := .cons ⟨hroom, rfl⟩ (.cons ⟨trivial, rfl⟩ (.nil _))
  obtain ⟨hall, hcapped, -⟩ := chat_hub defaultConfig
  exact ⟨_, rfl, (hall _ ⟨start, _, rfl, hrun.of_restrict⟩).1, (hcapped _ ⟨start, _, rfl, hrun⟩).1⟩

/-- Four streams of a session that wait for the reader together. -/
def fourCalls : List Event :=
  List.replicate 4 (.subscribe visitor 0) ++ List.replicate 4 (.resume 0)

theorem four_streams_of_session : ∃ hub, (machine defaultConfig).Reachable hub ∧
    ¬ hub.Capped defaultConfig := by
  have hrun : ∃ hub, (machine defaultConfig).Reachable hub ∧
      hub.subscribers = List.replicate 4 visitor :=
    Machine.exists_reachable_of_foldlM fourCalls rfl rfl
  obtain ⟨hub, hreachable, hsubscribers⟩ := hrun
  refine ⟨hub, hreachable, fun hcapped ↦ ?_⟩
  have hsession := hcapped.session visitor.sessionId
  rw [hsubscribers] at hsession
  exact absurd hsession (by decide)

end Tiqora.Webchat.Hub
