import NetBerth.CronActivation
import NetBerth.CronParser

/-!
# The loop of the scheduler

The scheduler keeps its entries sorted by the time they are run next, those without one at the
end. When its timer fires it starts the jobs from the front up to the first entry that is not yet
due, and asks the schedules of those for their next time. Entries are added and removed, and the
scheduler is stopped and started again, at any moment.

Seen from one entry, there is a time since which it has been waiting: when it was added, when the
scheduler was started, or when its job was started last. A wake starts the job if the schedule has
an activation after that time that has come, and then once.

The order of entries that are run next at the same time is not fixed. The clock may go back, but
its offset from UTC is always the same.
-/
namespace NetBerth.CronScheduler
open CronParser (Schedule SpecSchedule)

structure Entry (σ : Type*) where
  id : ℕ
  schedule : σ
  next : Option ℕ
  prev : Option ℕ

section
variable {σ : Type*}

/-- No time comes after every time. -/
def byTime (e f : Entry σ) : Bool :=
  match e.next, f.next with
  | none, _ => false
  | some _, none => true
  | some n, some m => n < m

/-- `sort.Sort`, which is not a stable one. -/
structure Sorter (σ : Type*) where
  sort : List (Entry σ) → List (Entry σ)
  perm : ∀ es, (sort es).Perm es
  sorted : ∀ es, (sort es).Pairwise fun e f => byTime f e = false

/-- The order is a total one. -/
def Sorter.stable : Sorter σ where
  sort es := es.mergeSort fun e f => !byTime f e
  perm es := List.mergeSort_perm es _
  sorted es := by
    have htrans : ∀ e f g : Entry σ, (!byTime f e) = true → (!byTime g f) = true →
        (!byTime g e) = true := by
      intro e f g hef hfg
      unfold byTime at hef hfg ⊢
      cases hg : g.next <;> cases hf : f.next <;> cases he : e.next <;> simp_all
      omega
    have htotal : ∀ e f : Entry σ, ((!byTime f e) || !byTime e f) = true := by
      intro e f
      unfold byTime
      cases e.next <;> cases f.next <;> simp
      omega
    exact (List.pairwise_mergeSort htrans htotal es).imp fun h => by simpa using h

/-- `nextID` is the last one given out; `entries` are those of the loop while it is running. -/
structure Cron (σ : Type*) where
  entries : List (Entry σ)
  running : Bool
  nextID : ℕ

def Cron.new : Cron σ := ⟨[], false, 0⟩

/-- What the callers ask for, each at a time, and the timer. -/
inductive Event (σ : Type*) where
  | start (now : ℕ)
  | stop
  | schedule (s : σ) (now : ℕ)
  | remove (id : ℕ) (now : ℕ)
  | wake (now : ℕ)

/-- It is not before its time, and it has one. -/
def due (now : ℕ) (e : Entry σ) : Bool := e.next.elim false (· ≤ now)

variable (nextOf : σ → ℕ → Option ℕ) (sorter : Sorter σ)

/-- The loop over the entries of a wake, which breaks at the first that is not due. -/
def wakeEntries (now : ℕ) : List (Entry σ) → List (Entry σ) × List ℕ
  | [] => ([], [])
  | e :: es =>
    if due now e then
      let (rest, started) := wakeEntries now es
      ({ e with prev := e.next, next := nextOf e.schedule now } :: rest, e.id :: started)
    else (e :: es, [])

def removeEntry (id : ℕ) (entries : List (Entry σ)) : List (Entry σ) :=
  entries.filter fun e => e.id ≠ id

/-- The new state, and the jobs that are started. -/
def step (c : Cron σ) : Event σ → Cron σ × List ℕ
  | .start now =>
    if c.running then (c, [])
    else
      ({ c with
        entries := sorter.sort (c.entries.map fun e => { e with next := nextOf e.schedule now })
        running := true }, [])
  | .stop => ({ c with running := false }, [])
  | .schedule s now =>
    let entry := ⟨c.nextID + 1, s, none, none⟩
    if c.running then
      ({ c with
        entries := sorter.sort (c.entries ++ [{ entry with next := nextOf s now }])
        nextID := c.nextID + 1 }, [])
    else ({ c with entries := c.entries ++ [entry], nextID := c.nextID + 1 }, [])
  | .remove id _ =>
    if c.running then ({ c with entries := sorter.sort (removeEntry id c.entries) }, [])
    else ({ c with entries := removeEntry id c.entries }, [])
  | .wake now =>
    if c.running then
      let (entries, started) := wakeEntries nextOf now c.entries
      ({ c with entries := sorter.sort entries }, started)
    else (c, [])

def run (events : List (Event σ)) : Cron σ :=
  events.foldl (fun c e => (step nextOf sorter c e).1) Cron.new

/-! ## One entry at a time -/

/-- A schedule, and the time since which it has been waiting for an activation. -/
structure Waiting (σ : Type*) where
  schedule : σ
  since : Option ℕ

def Waiting.next (w : Waiting σ) : Option ℕ := w.since.bind (nextOf w.schedule)

/-- It has an activation that has come. -/
def Waiting.due (w : Waiting σ) (now : ℕ) : Bool := (w.next nextOf).elim false (· ≤ now)

/-- The entries without an order. -/
structure Board (σ : Type*) where
  waiting : ℕ → Option (Waiting σ)
  running : Bool
  nextID : ℕ

def Board.new : Board σ := ⟨fun _ => none, false, 0⟩

def Board.step (b : Board σ) : Event σ → Board σ
  | .start now =>
    if b.running then b
    else { b with waiting := fun id => (b.waiting id).map ({ · with since := now }), running := true }
  | .stop => { b with running := false }
  | .schedule s now =>
    { b with
      waiting := Function.update b.waiting (b.nextID + 1)
        (some ⟨s, if b.running then some now else none⟩)
      nextID := b.nextID + 1 }
  | .remove id _ => { b with waiting := Function.update b.waiting id none }
  | .wake now =>
    if b.running then
      { b with
        waiting := fun id => (b.waiting id).map fun w =>
          if w.due nextOf now then { w with since := now } else w }
    else b

/-- The entries after any events. -/
def board (events : List (Event σ)) : Board σ := events.foldl (Board.step nextOf) Board.new

/-- A wake starts the job of the entry. -/
def Board.starts (b : Board σ) (now id : ℕ) : Bool :=
  b.running && (b.waiting id).elim false (·.due nextOf now)

/-! ## A wake starts what is due -/

theorem due_of_byTime {e f : Entry σ} {now : ℕ} (hle : byTime f e = false) (hf : due now f = true) :
    due now e = true := by
  unfold due at hf ⊢
  unfold byTime at hle
  cases hfn : f.next with
  | none => simp [hfn] at hf
  | some n =>
    cases hen : e.next with
    | none => simp [hfn, hen] at hle
    | some m =>
      simp only [hfn, hen, Option.elim_some, decide_eq_true_eq, decide_eq_false_iff_not] at hf hle ⊢
      omega

/-- The entry after a wake. -/
def woken (now : ℕ) (e : Entry σ) : Entry σ :=
  if due now e then { e with prev := e.next, next := nextOf e.schedule now } else e

/-- Behind the first that is not due no entry is. -/
theorem wakeEntries_eq {now : ℕ} {es : List (Entry σ)}
    (hsorted : es.Pairwise fun e f => byTime f e = false) :
    wakeEntries nextOf now es =
      (es.map (woken nextOf now), (es.filter (due now)).map Entry.id) := by
  induction es with
  | nil => rfl
  | cons e es ih =>
    obtain ⟨hfirst, hrest⟩ := List.pairwise_cons.mp hsorted
    rw [wakeEntries]
    cases hdue : due now e with
    | true =>
      rw [if_pos rfl, ih hrest]
      simp [woken, hdue]
    | false =>
      have hnone : ∀ f ∈ e :: es, due now f = false := by
        simp only [List.forall_mem_cons]
        refine ⟨hdue, fun f hf => ?_⟩
        by_contra hne
        rw [due_of_byTime (hfirst f hf) (by simpa using hne)] at hdue
        cases hdue
      have hmap : (e :: es).map (woken nextOf now) = (e :: es).map id := by
        refine List.map_congr_left fun f hf => ?_
        rw [woken, hnone f hf]
        rfl
      have hfilter : (e :: es).filter (due now) = [] := by
        rw [List.filter_eq_nil_iff]
        intro f hf
        simp [hnone f hf]
      rw [if_neg Bool.false_ne_true, hmap, hfilter, List.map_id]
      rfl

/-! ## The entries are those of the board -/

/-- What the entry has is what the board says. -/
structure Shows (w : Waiting σ) (e : Entry σ) : Prop where
  schedule : e.schedule = w.schedule
  next : e.next = w.next nextOf

structure Lists (waiting : ℕ → Option (Waiting σ)) (es : List (Entry σ)) : Prop where
  nodup : (es.map Entry.id).Nodup
  entry : ∀ e ∈ es, ∃ w ∈ waiting e.id, Shows nextOf w e
  listed : ∀ id, (waiting id).isSome = true → ∃ e ∈ es, e.id = id

structure Tracks (b : Board σ) (c : Cron σ) : Prop where
  running : c.running = b.running
  nextID : c.nextID = b.nextID
  lists : Lists nextOf b.waiting c.entries
  given : ∀ id, (b.waiting id).isSome = true → id ≤ b.nextID
  sorted : c.running = true → c.entries.Pairwise fun e f => byTime f e = false

section
variable {nextOf} {waiting : ℕ → Option (Waiting σ)} {es fs : List (Entry σ)}

theorem Lists.perm (h : Lists nextOf waiting es) (hperm : fs.Perm es) : Lists nextOf waiting fs where
  nodup := (hperm.map Entry.id).nodup_iff.mpr h.nodup
  entry e he := h.entry e (hperm.mem_iff.mp he)
  listed id hid := by
    obtain ⟨e, he, heid⟩ := h.listed id hid
    exact ⟨e, hperm.mem_iff.mpr he, heid⟩

theorem Lists.map (h : Lists nextOf waiting es) (f : Entry σ → Entry σ) (g : Waiting σ → Waiting σ)
    (hid : ∀ e, (f e).id = e.id)
    (hshows : ∀ w e, Shows nextOf w e → Shows nextOf (g w) (f e)) :
    Lists nextOf (fun id => (waiting id).map g) (es.map f) where
  nodup := by
    rw [List.map_map]
    exact (congrArg List.Nodup (List.map_congr_left fun e _ => hid e)).mpr h.nodup
  entry := by
    simp only [List.forall_mem_map]
    intro e he
    obtain ⟨w, hw, hshow⟩ := h.entry e he
    rw [hid]
    exact ⟨g w, Option.mem_map_of_mem g hw, hshows w e hshow⟩
  listed id hsome := by
    rw [Option.isSome_map] at hsome
    obtain ⟨e, he, heid⟩ := h.listed id hsome
    exact ⟨f e, List.mem_map_of_mem he, (hid e).trans heid⟩

theorem Lists.concat (h : Lists nextOf waiting es) {e : Entry σ} {w : Waiting σ}
    (hnew : waiting e.id = none) (hshow : Shows nextOf w e) :
    Lists nextOf (Function.update waiting e.id (some w)) (es ++ [e]) where
  nodup := by
    rw [List.map_append, List.nodup_append]
    refine ⟨h.nodup, List.nodup_singleton _, ?_⟩
    simp only [List.mem_map, List.map_cons, List.map_nil, List.mem_singleton]
    rintro _ ⟨f, hf, rfl⟩ _ rfl heq
    obtain ⟨w', hw', -⟩ := h.entry f hf
    rw [heq, hnew] at hw'
    cases hw'
  entry f hf := by
    rcases List.mem_append.mp hf with hf | hf
    · obtain ⟨w', hw', hshow'⟩ := h.entry f hf
      have hne : f.id ≠ e.id := by
        intro heq
        rw [heq, hnew] at hw'
        cases hw'
      refine ⟨w', ?_, hshow'⟩
      rwa [Function.update_of_ne hne]
    · obtain rfl := List.mem_singleton.mp hf
      exact ⟨w, Function.update_self .., hshow⟩
  listed id hid := by
    by_cases heq : id = e.id
    · exact ⟨e, List.mem_append_right _ (List.mem_singleton_self _), heq.symm⟩
    · rw [Function.update_of_ne heq] at hid
      obtain ⟨f, hf, hfid⟩ := h.listed id hid
      exact ⟨f, List.mem_append_left _ hf, hfid⟩

theorem Lists.remove (h : Lists nextOf waiting es) (id : ℕ) :
    Lists nextOf (Function.update waiting id none) (removeEntry id es) where
  nodup := h.nodup.sublist (List.filter_sublist.map Entry.id)
  entry e he := by
    obtain ⟨hmem, hne⟩ := List.mem_filter.mp he
    rw [Function.update_of_ne (by simpa using hne)]
    exact h.entry e hmem
  listed id' hid' := by
    by_cases heq : id' = id
    · rw [heq, Function.update_self] at hid'
      cases hid'
    · rw [Function.update_of_ne heq] at hid'
      obtain ⟨e, he, heid⟩ := h.listed id' hid'
      refine ⟨e, List.mem_filter.mpr ⟨he, ?_⟩, heid⟩
      simpa [heid] using heq

/-- A wake leaves the entries as the board has them after it. -/
theorem Shows.woken {w : Waiting σ} {e : Entry σ} (h : Shows nextOf w e) (now : ℕ) :
    Shows nextOf (if w.due nextOf now then { w with since := now } else w) (woken nextOf now e) := by
  have hdue : due now e = w.due nextOf now := by rw [due, Waiting.due, h.next]
  rw [CronScheduler.woken, hdue]
  split_ifs
  · exact ⟨h.schedule, by rw [h.schedule]; rfl⟩
  · exact h

theorem woken_id (now : ℕ) (e : Entry σ) : (woken nextOf now e).id = e.id := by
  unfold woken
  split_ifs <;> rfl

theorem Lists.isSome (h : Lists nextOf waiting es) {e : Entry σ} (he : e ∈ es) :
    (waiting e.id).isSome = true := by
  obtain ⟨w, hw, -⟩ := h.entry e he
  exact Option.isSome_of_mem hw

end

/-! ## Every event keeps them the same -/

section
variable {nextOf} {b : Board σ} {c : Cron σ}

theorem tracks_new : Tracks nextOf (Board.new (σ := σ)) Cron.new where
  running := rfl
  nextID := rfl
  lists := ⟨List.nodup_nil, nofun, nofun⟩
  given := nofun
  sorted := nofun

theorem Tracks.start (h : Tracks nextOf b c) (now : ℕ) :
    Tracks nextOf (b.step nextOf (.start now)) (step nextOf sorter c (.start now)).1 := by
  simp only [Board.step, step, h.running]
  split_ifs
  · exact h
  · refine ⟨rfl, h.nextID, ?_, ?_, fun _ => sorter.sorted _⟩
    · refine Lists.perm ?_ (sorter.perm _)
      refine h.lists.map (fun e => { e with next := nextOf e.schedule now })
        ({ · with since := some now }) (fun e => rfl) fun w e hshow => ⟨hshow.schedule, ?_⟩
      exact congrArg (nextOf · now) hshow.schedule
    · intro id hid
      rw [Option.isSome_map] at hid
      exact h.given id hid

theorem Tracks.schedule (h : Tracks nextOf b c) (s : σ) (now : ℕ) :
    Tracks nextOf (b.step nextOf (.schedule s now)) (step nextOf sorter c (.schedule s now)).1 := by
  have hnew : b.waiting (b.nextID + 1) = none := by
    by_contra hne
    have hle := h.given _ (Option.isSome_iff_ne_none.mpr hne)
    omega
  have hgiven : ∀ w id, (Function.update b.waiting (b.nextID + 1) (some w) id).isSome = true →
      id ≤ b.nextID + 1 := by
    intro w id hid
    by_cases heq : id = b.nextID + 1
    · exact heq.le
    · rw [Function.update_of_ne heq] at hid
      exact (h.given id hid).trans (Nat.le_succ _)
  simp only [Board.step, step, h.running, h.nextID]
  cases hrunning : b.running with
  | true =>
    refine ⟨rfl, rfl, ?_, hgiven _, fun _ => sorter.sorted _⟩
    exact (h.lists.concat (e := ⟨b.nextID + 1, s, nextOf s now, none⟩) (w := ⟨s, some now⟩) hnew
      ⟨rfl, rfl⟩).perm (sorter.perm _)
  | false =>
    refine ⟨rfl, rfl, ?_, hgiven _, nofun⟩
    exact h.lists.concat (e := ⟨b.nextID + 1, s, none, none⟩) (w := ⟨s, none⟩) hnew ⟨rfl, rfl⟩

theorem Tracks.remove (h : Tracks nextOf b c) (id now : ℕ) :
    Tracks nextOf (b.step nextOf (.remove id now)) (step nextOf sorter c (.remove id now)).1 := by
  have hgiven : ∀ id', (Function.update b.waiting id none id').isSome = true → id' ≤ b.nextID := by
    intro id' hid'
    by_cases heq : id' = id
    · rw [heq, Function.update_self] at hid'
      cases hid'
    · rw [Function.update_of_ne heq] at hid'
      exact h.given id' hid'
  simp only [Board.step, step]
  split_ifs with hrunning
  · exact ⟨h.running, h.nextID, (h.lists.remove id).perm (sorter.perm _), hgiven,
      fun _ => sorter.sorted _⟩
  · exact ⟨h.running, h.nextID, h.lists.remove id, hgiven, fun hr => absurd hr hrunning⟩

theorem Tracks.wake (h : Tracks nextOf b c) (now : ℕ) :
    Tracks nextOf (b.step nextOf (.wake now)) (step nextOf sorter c (.wake now)).1 := by
  simp only [Board.step, step, h.running]
  split_ifs with hrunning
  · rw [wakeEntries_eq nextOf (h.sorted (h.running.trans hrunning))]
    refine ⟨rfl, h.nextID, ?_, ?_, fun _ => sorter.sorted _⟩
    · exact (h.lists.map _ _ (woken_id now) fun w e hshow => hshow.woken now).perm (sorter.perm _)
    · intro id hid
      rw [Option.isSome_map] at hid
      exact h.given id hid
  · exact h

theorem Tracks.step (h : Tracks nextOf b c) (e : Event σ) :
    Tracks nextOf (b.step nextOf e) (step nextOf sorter c e).1 := by
  cases e with
  | start now => exact h.start sorter now
  | stop => exact ⟨rfl, h.nextID, h.lists, h.given, nofun⟩
  | schedule s now => exact h.schedule sorter s now
  | remove id now => exact h.remove sorter id now
  | wake now => exact h.wake sorter now

theorem tracks_run (events : List (Event σ)) :
    Tracks nextOf (board nextOf events) (run nextOf sorter events) := by
  induction events using List.reverseRecOn with
  | nil => exact tracks_new
  | append_singleton events e ih =>
    rw [board, run, List.foldl_append, List.foldl_append]
    exact ih.step sorter e

/-- The jobs of a wake are those the board says, and each of them once. -/
theorem Tracks.count_wake (h : Tracks nextOf b c) (now id : ℕ) :
    (CronScheduler.step nextOf sorter c (.wake now)).2.count id =
      if b.starts nextOf now id then 1 else 0 := by
  have hstarts : b.starts nextOf now id = true ↔ b.running = true ∧
      id ∈ (c.entries.filter (due now)).map Entry.id := by
    rw [Board.starts, Bool.and_eq_true, List.mem_map]
    refine and_congr_right fun _ => ?_
    constructor
    · intro hdue
      cases hw : b.waiting id with
      | none => simp [hw] at hdue
      | some w =>
        obtain ⟨e, he, rfl⟩ := h.lists.listed id (by rw [hw]; rfl)
        obtain ⟨w', hw', hshow⟩ := h.lists.entry e he
        obtain rfl : w' = w := Option.some.inj (hw'.symm.trans hw)
        refine ⟨e, List.mem_filter.mpr ⟨he, ?_⟩, rfl⟩
        rw [hw, Option.elim_some, Waiting.due, ← hshow.next] at hdue
        exact hdue
    · rintro ⟨e, he, rfl⟩
      obtain ⟨hmem, hdue⟩ := List.mem_filter.mp he
      obtain ⟨w, hw, hshow⟩ := h.lists.entry e hmem
      rw [Option.mem_def] at hw
      rw [hw, Option.elim_some, Waiting.due, ← hshow.next]
      exact hdue
  have hnodup : ((c.entries.filter (due now)).map Entry.id).Nodup :=
    h.lists.nodup.sublist (List.filter_sublist.map Entry.id)
  rw [CronScheduler.step, h.running]
  cases hrunning : b.running with
  | true =>
    rw [if_pos rfl, wakeEntries_eq nextOf (h.sorted (h.running.trans hrunning)), hnodup.count]
    simp only [hstarts, hrunning, true_and]
  | false =>
    rw [if_neg Bool.false_ne_true, Board.starts, hrunning]
    rfl

end

/-! ## Schedules -/

end

/-- `Next` of both kinds of schedules. A delay ends at a full second. -/
def Schedule.next : Schedule → ℕ → Option ℕ
  | .spec s, t => CronActivation.next s t
  | .constantDelay delay, t => some (t + (delay - t % 10 ^ 9)).toNat

/-- The schedule has an activation after the first time, and not after the second. -/
def ActivatedIn (since now : ℕ) : Schedule → Prop
  | .spec s => ∃ u ∈ CronActivation.activations s since, u ≤ now
  | .constantDelay delay => since + (delay - since % 10 ^ 9) ≤ (now : ℤ)

theorem elim_next_iff (s : Schedule) (since now : ℕ) :
    (Schedule.next s since).elim false (· ≤ now) = true ↔ ActivatedIn since now s := by
  cases s with
  | constantDelay delay =>
    rw [Schedule.next, Option.elim_some, decide_eq_true_iff, ActivatedIn]
    omega
  | spec s =>
    rw [Schedule.next, ActivatedIn]
    cases hnext : CronActivation.next s since with
    | none =>
      rw [(CronActivation.next_eq_none_iff s since).mp hnext]
      simp
    | some u =>
      have hleast := (CronActivation.next_eq_some_iff s since u).mp hnext
      rw [Option.elim_some, decide_eq_true_iff]
      exact ⟨fun hle => ⟨u, hleast.1, hle⟩, fun ⟨v, hv, hle⟩ => (hleast.2 hv).trans hle⟩

/-- Whatever was asked for before, a wake starts a job if the scheduler is running and has the
entry, and its schedule was activated since it is waiting. It starts it once. -/
theorem count_started (sorter : Sorter Schedule) (events : List (Event Schedule)) (now id : ℕ) :
    let b := board Schedule.next events
    let started := (step Schedule.next sorter (run Schedule.next sorter events) (.wake now)).2
    started.count id ≤ 1 ∧ (id ∈ started ↔ b.running = true ∧
      ∃ w since, b.waiting id = some w ∧ w.since = some since ∧ ActivatedIn since now w.schedule) := by
  have htracks : Tracks Schedule.next _ _ := tracks_run sorter events
  have hcount := htracks.count_wake sorter now id
  dsimp only
  refine ⟨?_, ?_⟩
  · rw [hcount]
    split_ifs <;> omega
  · rw [← List.count_pos_iff, hcount]
    have hpos : 0 < (if (board Schedule.next events).starts Schedule.next now id then 1 else 0) ↔
        (board Schedule.next events).starts Schedule.next now id = true := by
      split_ifs with hs <;> simp [hs]
    rw [hpos, Board.starts, Bool.and_eq_true]
    refine and_congr_right fun _ => ?_
    cases (board Schedule.next events).waiting id with
    | none => simp
    | some w =>
      obtain ⟨s, since⟩ := w
      cases since with
      | none => simp [Waiting.due, Waiting.next]
      | some since => simpa [Waiting.due, Waiting.next] using elim_next_iff s since now

end NetBerth.CronScheduler
